import Mathlib
import StructProjection.Proofs.Parsing.Tree

/-! # The trees on the stacks

Whatever is done with the stacks of several readings, an invariant holds of the trees on them.
-/

namespace StructProjection.Parsing

open Grammar Std.Do

set_option mvcgen.warning false

variable {k : TreeInvariant}

def Link.Keeps (k : TreeInvariant) (l : Link) : Prop := ∀ x ∈ l.tree, k.Holds x

def StackNode.Keeps (k : TreeInvariant) (n : StackNode) : Prop := ∀ l ∈ n.links, l.Keeps k

def Version.Keeps (k : TreeInvariant) (x : Version) : Prop :=
  ∀ token, x.status = .paused token → k.Holds token

/-- An invariant holds of all trees of some readings. -/
structure Readings.Keeps (k : TreeInvariant) (r : Readings) : Prop where
  table : r.table = k.table
  nodes : ∀ n ∈ r.nodes, n.Keeps k
  versions : ∀ x ∈ r.versions, x.Keeps k
  lookahead : ∀ p ∈ r.lookahead, k.Holds p.2
  finished : ∀ x ∈ r.finished, k.Holds x

/-! ## Parts of readings -/

theorem keeps_of_getElem? {nodes : Array StackNode} (h : ∀ n ∈ nodes, n.Keeps k) (i : Nat) :
    (nodes[i]?.getD default).Keeps k := by
  cases hi : nodes[i]? with
  | none => exact fun _ hl => nomatch hl
  | some n => exact h n (Array.mem_of_getElem? hi)

namespace Readings.Keeps

variable {r : Readings}

theorem node (h : r.Keeps k) (n : Nat) : (r.node n).Keeps k := keeps_of_getElem? h.nodes n

theorem top (h : r.Keeps k) (v : Nat) : (r.top v).Keeps k := h.node _

theorem version (h : r.Keeps k) (v : Nat) : (r.version v).Keeps k := by
  rw [Readings.version]
  cases hv : r.versions[v]? with
  | none => exact fun _ ht => nomatch ht
  | some x => exact h.versions x (Array.mem_of_getElem? hv)

theorem pausedToken (h : r.Keeps k) {v : Nat} {token : Tree} (hv : r.pausedToken v = some token) :
    k.Holds token := by
  rw [Readings.pausedToken] at hv
  split at hv
  case h_1 hstatus => exact h.version v token (by rw [hstatus, ← Option.some.inj hv])
  case h_2 => simp at hv

theorem withNodes (h : r.Keeps k) {nodes : Array StackNode} (hn : ∀ n ∈ nodes, n.Keeps k) :
    Readings.Keeps k { r with nodes } :=
  ⟨h.table, hn, h.versions, h.lookahead, h.finished⟩

theorem withVersions (h : r.Keeps k) {versions : Array Version}
    (hv : ∀ x ∈ versions, x.Keeps k) : Readings.Keeps k { r with versions } :=
  ⟨h.table, h.nodes, hv, h.lookahead, h.finished⟩

end Readings.Keeps

theorem forall_mem_modify {α : Type} {p : α → Prop} {xs : Array α} {i : Nat} {f : α → α}
    (h : ∀ x ∈ xs, p x) (hf : ∀ x ∈ xs, p (f x)) : ∀ x ∈ xs.modify i f, p x := by
  intro x hx
  obtain ⟨j, hj, rfl⟩ := Array.getElem_of_mem hx
  rw [Array.getElem_modify]
  split
  · exact hf _ (Array.getElem_mem _)
  · exact h _ (Array.getElem_mem _)

theorem forall_mem_eraseIdxIfInBounds {α : Type} {p : α → Prop} {xs : Array α} {i : Nat}
    (h : ∀ x ∈ xs, p x) : ∀ x ∈ xs.eraseIdxIfInBounds i, p x := fun x hx => by
  rw [Array.eraseIdxIfInBounds] at hx
  split at hx
  · exact h x (Array.mem_of_mem_eraseIdx hx)
  · exact h x hx

theorem forall_mem_extract {α : Type} {p : α → Prop} {xs : Array α} {start stop : Nat}
    (h : ∀ x ∈ xs, p x) : ∀ x ∈ xs.extract start stop, p x := fun x hx => by
  obtain ⟨i, hi, rfl⟩ := Array.getElem_of_mem hx
  rw [Array.getElem_extract]
  exact h _ (Array.getElem_mem _)

theorem forall_mem_setIfInBounds {α : Type} {p : α → Prop} {xs : Array α} {i : Nat} {a : α}
    (h : ∀ x ∈ xs, p x) (ha : p a) : ∀ x ∈ xs.setIfInBounds i a, p x := by
  intro x hx
  rcases Array.mem_or_eq_of_mem_setIfInBounds hx with hx | rfl
  · exact h x hx
  · exact ha

/-! ## Changing versions -/

theorem modify_keeps {f : Readings → Readings} (hf : ∀ r, r.Keeps k → (f r).Keeps k) :
    ⦃fun r => ⌜r.Keeps k⌝⦄ (modify f : Reading Unit) ⦃⇓ _ r => ⌜r.Keeps k⌝⦄ :=
  fun r h => hf r h

@[spec] theorem modifyVersion_keeps (v : Nat) {f : Version → Version}
    (hf : ∀ x : Version, x.Keeps k → (f x).Keeps k) :
    ⦃fun r => ⌜r.Keeps k⌝⦄ modifyVersion v f ⦃⇓ _ r => ⌜r.Keeps k⌝⦄ :=
  modify_keeps fun _ h =>
    h.withVersions (forall_mem_modify h.versions fun x hx => hf x (h.versions x hx))

@[spec] theorem removeVersion_keeps (v : Nat) :
    ⦃fun r => ⌜r.Keeps k⌝⦄ removeVersion v ⦃⇓ _ r => ⌜r.Keeps k⌝⦄ :=
  modify_keeps fun _ h => h.withVersions (forall_mem_eraseIdxIfInBounds h.versions)

@[spec] theorem addVersion_keeps {x : Version} (hx : x.Keeps k) :
    ⦃fun r => ⌜r.Keeps k⌝⦄ addVersion x ⦃⇓ _ r => ⌜r.Keeps k⌝⦄ := fun r h =>
  h.withVersions fun y hy => by
    rcases Array.mem_push.1 hy with hy | rfl
    · exact h.versions y hy
    · exact hx

@[spec] theorem halt_keeps (v : Nat) : ⦃fun r => ⌜r.Keeps k⌝⦄ halt v ⦃⇓ _ r => ⌜r.Keeps k⌝⦄ :=
  modifyVersion_keeps v fun _ _ => nofun

@[spec] theorem pause_keeps (v : Nat) {token : Tree} (h : k.Holds token) :
    ⦃fun r => ⌜r.Keeps k⌝⦄ pause v token ⦃⇓ _ r => ⌜r.Keeps k⌝⦄ :=
  modify_keeps fun _ hr => hr.withVersions
    (forall_mem_modify hr.versions fun _ _ _ ht => Status.paused.inj ht ▸ h)

@[spec] theorem replaceVersion_keeps (v w : Nat) :
    ⦃fun r => ⌜r.Keeps k⌝⦄ replaceVersion v w ⦃⇓ _ r => ⌜r.Keeps k⌝⦄ := by
  rw [replaceVersion]
  split
  · exact fun _ h => h
  · exact modify_keeps fun r h => h.withVersions
      (forall_mem_eraseIdxIfInBounds (forall_mem_setIfInBounds h.versions (h.version v)))

@[spec] theorem swapVersions_keeps (v w : Nat) :
    ⦃fun r => ⌜r.Keeps k⌝⦄ swapVersions v w ⦃⇓ _ r => ⌜r.Keeps k⌝⦄ :=
  modify_keeps fun _ h => h.withVersions
    (forall_mem_setIfInBounds (forall_mem_setIfInBounds h.versions (h.version w)) (h.version v))

@[spec] theorem push_keeps (v : Nat) {tree : Option Tree} (state : Nat)
    (h : ∀ x ∈ tree, k.Holds x) :
    ⦃fun r => ⌜r.Keeps k⌝⦄ push v tree state ⦃⇓ _ r => ⌜r.Keeps k⌝⦄ :=
  modify_keeps fun r hr => by
    refine ⟨hr.table, fun n hn => ?_, ?_, hr.lookahead, hr.finished⟩
    · rcases Array.mem_push.1 hn with hn | rfl
      · exact hr.nodes n hn
      · intro l hl
        cases tree <;> obtain rfl := List.mem_singleton.1 hl <;> exact h
    · dsimp only
      exact forall_mem_modify hr.versions hr.versions

@[spec] theorem progressSinceError_keeps (v : Nat) :
    ⦃fun r => ⌜r.Keeps k⌝⦄ progressSinceError v ⦃⇓ _ r => ⌜r.Keeps k⌝⦄ := by
  mvcgen [progressSinceError]
  case vc1 => exact fun _ hx => hx

/-! ## Merging -/

theorem foldl_keeps {f : Array StackNode → Link → Array StackNode} {links : List Link}
    {nodes : Array StackNode} (h : ∀ n ∈ nodes, n.Keeps k)
    (hf : ∀ nodes : Array StackNode, (∀ n ∈ nodes, n.Keeps k) →
      ∀ l ∈ links, ∀ n ∈ f nodes l, n.Keeps k) : ∀ n ∈ links.foldl f nodes, n.Keeps k :=
  List.foldlRecOn (motive := fun nodes => ∀ n ∈ nodes, n.Keeps k) links f h hf

theorem addLink_keeps (fuel : Nat) {nodes : Array StackNode} (h : ∀ n ∈ nodes, n.Keeps k) (n : Nat)
    {link : Link} (hl : link.Keeps k) : ∀ m ∈ addLink fuel nodes n link, m.Keeps k := by
  induction fuel generalizing nodes n link with
  | zero => exact h
  | succ fuel ih =>
    rw [addLink]
    split
    · exact h
    · have hself := keeps_of_getElem? h n
      have hbelow := keeps_of_getElem? h link.node
      dsimp only
      split
      · split
        · refine forall_mem_setIfInBounds h fun l hmem => ?_
          rcases List.mem_or_eq_of_mem_set hmem with hmem | rfl
          · exact hself l hmem
          · exact hl
        · exact h
      · have hlinks := fun target => foldl_keeps h fun nodes hn l hmem =>
          ih hn target (hbelow l hmem)
        exact forall_mem_modify (hlinks _) (hlinks _)
      · split
        · exact h
        · refine forall_mem_setIfInBounds h fun l hmem => ?_
          rcases List.mem_append.1 hmem with hmem | hmem
          · exact hself l hmem
          · exact List.mem_singleton.1 hmem ▸ hl

@[spec] theorem merge_keeps (v w : Nat) :
    ⦃fun r => ⌜r.Keeps k⌝⦄ merge v w ⦃⇓ _ r => ⌜r.Keeps k⌝⦄ := by
  have hmerged : ∀ r : Readings, r.Keeps k → ∀ fuel n, Readings.Keeps k
      { r with nodes := (r.top w).links.foldl (fun nodes l => addLink fuel nodes n l) r.nodes } :=
    fun r h fuel n => h.withNodes <|
      foldl_keeps h.nodes fun nodes hn l hl => addLink_keeps fuel hn n (h.top w l hl)
  mvcgen [merge]
  case vc3.hf => exact fun _ hx => hx
  all_goals exact hmerged _ ‹_› _ _

@[spec] theorem mergeIntoFirst_keeps (w : Nat) (vs : List Nat) :
    ⦃fun r => ⌜r.Keeps k⌝⦄ mergeIntoFirst w vs ⦃⇓ _ r => ⌜r.Keeps k⌝⦄ := by
  induction vs with
  | nil => mvcgen [mergeIntoFirst]
  | cons v vs ih => mvcgen [mergeIntoFirst, ih]

/-! ## Walking down -/

def Walker.Keeps (k : TreeInvariant) (w : Walker) : Prop := ∀ x ∈ w.trees, k.Holds x

theorem Walker.Keeps.follow {w : Walker} {l : Link} (hw : w.Keeps k) (hl : l.Keeps k) :
    (w.follow l).Keeps k := by
  rw [Walker.follow]
  split
  case h_1 => exact hw
  case h_2 x hx => exact List.forall_mem_cons.2 ⟨hl x hx, hw⟩

section Walk

variable {σ : Type} {nodes : Array StackNode} {visit : σ → Walker → Visit × σ}

theorem walkStep_keeps (hn : ∀ n ∈ nodes, n.Keeps k) {ws kept added taken : List Walker} {s : σ}
    (hws : ∀ w ∈ ws, w.Keeps k) (hkept : ∀ w ∈ kept, w.Keeps k) (hadded : ∀ w ∈ added, w.Keeps k)
    (htaken : ∀ w ∈ taken, w.Keeps k) :
    (∀ w ∈ (walkStep nodes visit ws kept added taken s).1, w.Keeps k) ∧
      ∀ w ∈ (walkStep nodes visit ws kept added taken s).2.1, w.Keeps k := by
  induction ws generalizing kept added taken s with
  | nil =>
    refine ⟨fun w hw => ?_, htaken⟩
    rcases List.mem_append.1 hw with hw | hw
    · exact hkept w (List.mem_reverse.1 hw)
    · exact hadded w (List.mem_reverse.1 hw)
  | cons w ws ih =>
    obtain ⟨hw, hws⟩ := List.forall_mem_cons.1 hws
    have htaken' : ∀ x ∈ if (visit s w).1.take then w :: taken else taken, x.Keeps k := by
      split
      · exact List.forall_mem_cons.2 ⟨hw, htaken⟩
      · exact htaken
    have hlinks := keeps_of_getElem? hn w.node
    simp only [walkStep]
    split
    case h_1 first others hfirst _ =>
      have hfollow : ∀ l ∈ first :: others, (w.follow l).Keeps k := fun l hl =>
        hw.follow (hlinks l (hfirst ▸ hl))
      refine ih hws (List.forall_mem_cons.2 ⟨hfollow _ List.mem_cons_self, hkept⟩) ?_ htaken'
      intro x hx
      rcases List.mem_append.1 hx with hx | hx
      · obtain ⟨l, hl, rfl⟩ := List.mem_map.1 (List.mem_reverse.1 hx)
        exact hfollow l (List.mem_cons_of_mem _ (List.mem_of_mem_take hl))
      · exact hadded x hx
    case h_2 => exact ih hws hkept hadded htaken'

theorem walkAll_keeps (hn : ∀ n ∈ nodes, n.Keeps k) (fuel : Nat) {ws taken : List Walker} {s : σ}
    (hws : ∀ w ∈ ws, w.Keeps k) (htaken : ∀ w ∈ taken, w.Keeps k) :
    ∀ w ∈ (walkAll nodes visit fuel ws taken s).1, w.Keeps k := by
  induction fuel generalizing ws taken s with
  | zero => exact fun w hw => htaken w (List.mem_reverse.1 hw)
  | succ fuel ih =>
    cases ws with
    | nil => exact fun w hw => htaken w (List.mem_reverse.1 hw)
    | cons w ws =>
      have hnil : ∀ x ∈ ([] : List Walker), x.Keeps k := by simp
      obtain ⟨hws, htaken⟩ := @walkStep_keeps k σ nodes visit hn _ _ _ _ s hws hnil hnil htaken
      exact ih hws htaken

end Walk

theorem walk_keeps {σ : Type} {r : Readings} (h : r.Keeps k) (v : Nat)
    (visit : σ → Walker → Visit × σ) (s : σ) : ∀ w ∈ (walk r v visit s).1, w.Keeps k :=
  walkAll_keeps h.nodes _ (by simp [Walker.Keeps]) (by simp)

def Slice.Keeps (k : TreeInvariant) (s : Slice) : Prop := ∀ way ∈ s.ways, ∀ x ∈ way, k.Holds x

theorem Slice.Keeps.headD {s : Slice} (h : s.Keeps k) : ∀ x ∈ s.ways.headD [], k.Holds x := by
  cases hways : s.ways with
  | nil => simp
  | cons way ways => exact h way (by simp [hways])

theorem Slice.Keeps.head? {s : Slice} (h : s.Keeps k) :
    ∀ x ∈ s.ways.head?.bind (·.head?), k.Holds x := by
  intro x hx
  obtain ⟨way, hway, hx⟩ := Option.bind_eq_some_iff.1 hx
  exact h way (List.mem_of_head? hway) x (List.mem_of_head? hx)

@[spec] theorem slices_keeps (v : Nat) {ws : List Walker} (hws : ∀ w ∈ ws, w.Keeps k)
    {done : List Slice} (hdone : ∀ s ∈ done, s.Keeps k) :
    ⦃fun r => ⌜r.Keeps k⌝⦄ slices v ws done ⦃⇓ found r => ⌜(∀ s ∈ found, s.Keeps k) ∧ r.Keeps k⌝⦄ := by
  induction ws generalizing done with
  | nil => mvcgen [slices]
  | cons w ws ih =>
    obtain ⟨hw, hws⟩ := List.forall_mem_cons.1 hws
    have hmore := @ih hws
    mvcgen [slices, hmore]
    case vc2 =>
      rintro _ _ _ hmem
      obtain ⟨s, hs, rfl⟩ := List.mem_map.1 hmem
      split
      · intro way hway
        rcases List.mem_append.1 hway with hway | hway
        · exact hdone s hs way hway
        · exact List.mem_singleton.1 hway ▸ hw
      · exact hdone s hs
    case vc4.hx => exact nofun
    case vc7 =>
      rintro _ _ s hs
      rcases List.mem_append.1 hs with hs | hs
      · exact hdone s hs
      · obtain rfl := List.mem_singleton.1 hs
        exact fun way hway => List.mem_singleton.1 hway ▸ hw

@[spec] theorem popCount_keeps (v count : Nat) :
    ⦃fun r => ⌜r.Keeps k⌝⦄ popCount v count ⦃⇓ found r => ⌜(∀ s ∈ found, s.Keeps k) ∧ r.Keeps k⌝⦄ := by
  mvcgen [popCount]
  case vc1.hws => exact walk_keeps ‹_› _ _ _
  case vc2.hdone => simp

@[spec] theorem popAll_keeps (v : Nat) :
    ⦃fun r => ⌜r.Keeps k⌝⦄ popAll v ⦃⇓ found r => ⌜(∀ s ∈ found, s.Keeps k) ∧ r.Keeps k⌝⦄ := by
  mvcgen [popAll]
  case vc1.hws => exact walk_keeps ‹_› _ _ _
  case vc2.hdone => simp

@[spec] theorem popError_keeps (v : Nat) :
    ⦃fun r => ⌜r.Keeps k⌝⦄ popError v ⦃⇓ found r => ⌜(∀ x ∈ found, k.Holds x) ∧ r.Keeps k⌝⦄ := by
  mvcgen [popError]
  case vc1.isTrue => exact ⟨by simp, ‹_›⟩
  case vc3.hws => exact walk_keeps ‹_› _ _ _
  case vc4.hdone => simp
  case vc7.isFalse.post.success.h_1.pre h => exact h.2
  case vc8.isFalse.post.success.h_1.post.success h _ _ hr =>
    exact ⟨(h.1 _ List.mem_cons_self).head?, hr⟩
  case vc9.isFalse.post.success.h_2 h => exact ⟨by simp, h.2⟩

@[spec] theorem remember_keeps (v : Nat) :
    ⦃fun r => ⌜r.Keeps k⌝⦄ remember v ⦃⇓ _ r => ⌜r.Keeps k⌝⦄ := by
  mvcgen [remember]
  case vc1.hf => exact fun _ hx => hx

end StructProjection.Parsing
