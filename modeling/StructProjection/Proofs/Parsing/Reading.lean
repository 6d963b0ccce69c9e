import StructProjection.Proofs.Parsing.Stack

/-! # The trees of a reading

An invariant of trees holds through every step of a reading, recovery from errors included, and so of
the tree that a text is read as.
-/

namespace StructProjection.Parsing

open Grammar Std.Do

set_option mvcgen.warning false

variable {k : TreeInvariant}

theorem TreeInvariant.some {x : Tree} (h : k.Holds x) : ∀ y ∈ Option.some x, k.Holds y := by
  simpa using h

theorem Readings.Keeps.over {r : Readings} (h : r.Keeps k) (kind : Kind) (shape : Nat)
    {cs : List Tree} (hcs : ∀ c ∈ cs, k.Holds c) : k.Holds (.over r.table kind shape cs) :=
  h.table ▸ k.node kind shape hcs

/-! ## Reductions -/

theorem splitExtras_keeps {ts : List Tree} (h : ∀ x ∈ ts, k.Holds x) :
    (∀ x ∈ (splitExtras ts).1, k.Holds x) ∧ ∀ x ∈ (splitExtras ts).2, k.Holds x := by
  refine ⟨fun x hx => h x ?_, fun x hx => h x ?_⟩
  · exact List.mem_reverse.1 ((List.dropWhile_sublist _).mem (List.mem_reverse.1 hx))
  · exact List.mem_reverse.1 ((List.takeWhile_sublist _).mem (List.mem_reverse.1 hx))

theorem bestNode_keeps (w : Contraction) {ways : List (List Tree)}
    (h : ∀ way ∈ ways, ∀ x ∈ way, k.Holds x) {best : Tree × List Tree} (hnode : k.Holds best.1)
    (hextras : ∀ x ∈ best.2, k.Holds x) :
    k.Holds (bestNode k.table w ways best).1 ∧
      ∀ x ∈ (bestNode k.table w ways best).2, k.Holds x := by
  induction ways generalizing best with
  | nil => exact ⟨hnode, hextras⟩
  | cons way ways ih =>
    obtain ⟨hway, hways⟩ := List.forall_mem_cons.1 h
    have hparts := splitExtras_keeps hway
    rw [bestNode]
    generalize splitExtras way = parts at hparts
    obtain ⟨children, extras⟩ := parts
    dsimp only
    split
    · exact ih hways (k.node _ _ hparts.1) hparts.2
    · exact ih hways hnode hextras

theorem bestNode_over_keeps {t : Table} (ht : t = k.table) (w : Contraction) {way : List Tree}
    {ways : List (List Tree)} (h : ∀ way' ∈ way :: ways, ∀ x ∈ way', k.Holds x) :
    k.Holds (bestNode t w ways
        (.over t (.symbol w.symbol) w.shape (splitExtras way).1, (splitExtras way).2)).1 ∧
      ∀ x ∈ (bestNode t w ways
        (.over t (.symbol w.symbol) w.shape (splitExtras way).1, (splitExtras way).2)).2,
        k.Holds x := by
  subst ht
  obtain ⟨hway, hways⟩ := List.forall_mem_cons.1 h
  obtain ⟨hchildren, hextras⟩ := splitExtras_keeps hway
  exact bestNode_keeps w hways (k.node _ _ hchildren) hextras

@[spec] theorem pushAll_keeps (v state : Nat) {ts : List Tree} (h : ∀ x ∈ ts, k.Holds x) :
    ⦃fun r => ⌜r.Keeps k⌝⦄ pushAll v state ts ⦃⇓ _ r => ⌜r.Keeps k⌝⦄ := by
  induction ts with
  | nil => mvcgen [pushAll]
  | cons x ts ih =>
    obtain ⟨hx, hts⟩ := List.forall_mem_cons.1 h
    have hmore := ih hts
    mvcgen [pushAll, hmore]
    case vc2.h => exact k.some hx

@[spec] theorem finishSlices_keeps (v : Nat) (w : Contraction) (halted : Nat) {found : List Slice}
    (h : ∀ s ∈ found, s.Keeps k) (removed : Nat) :
    ⦃fun r => ⌜r.Keeps k⌝⦄ finishSlices v w halted found removed ⦃⇓ _ r => ⌜r.Keeps k⌝⦄ := by
  induction found generalizing removed with
  | nil => mvcgen [finishSlices]
  | cons s found ih =>
    obtain ⟨hs, hfound⟩ := List.forall_mem_cons.1 h
    have hmore := ih hfound
    mvcgen [finishSlices, hmore]
    case vc6.h hr _ _ _ hways _ =>
      rw [Slice.Keeps, hways] at hs
      exact k.some (k.favour _ (bestNode_over_keeps hr.table w hs).1)
    case vc9.h hr _ _ _ hways _ _ _ _ =>
      rw [Slice.Keeps, hways] at hs
      exact (bestNode_over_keeps hr.table w hs).2

@[spec] theorem reduce_keeps (v : Nat) (w : Contraction) :
    ⦃fun r => ⌜r.Keeps k⌝⦄ reduce v w ⦃⇓ _ r => ⌜r.Keeps k⌝⦄ := by
  mvcgen [reduce]
  case vc3.h h => exact h.1
  case vc4.post.success.pre h => exact h.2

@[spec] theorem reduceEach_keeps (v : Nat) (ws : List Contraction) (last : Option Nat) :
    ⦃fun r => ⌜r.Keeps k⌝⦄ reduceEach v ws last ⦃⇓ _ r => ⌜r.Keeps k⌝⦄ := by
  induction ws generalizing last with
  | nil => mvcgen [reduceEach]
  | cons w ws ih => mvcgen [reduceEach, ih]

@[spec] theorem reduceFrom_keeps (start before : Nat) (token : Option Nat) (fuel round v : Nat)
    (reads : Bool) :
    ⦃fun r => ⌜r.Keeps k⌝⦄ reduceFrom start before token fuel round v reads
    ⦃⇓ _ r => ⌜r.Keeps k⌝⦄ := by
  induction fuel generalizing round v reads with
  | zero => mvcgen [reduceFrom]
  | succ fuel ih => mvcgen [reduceFrom, ih]

@[spec] theorem reduceAll_keeps (v : Nat) (token : Option Nat) :
    ⦃fun r => ⌜r.Keeps k⌝⦄ reduceAll v token ⦃⇓ _ r => ⌜r.Keeps k⌝⦄ := by
  mvcgen [reduceAll]

/-! ## Recovery -/

@[spec] theorem standing_keeps (v : Nat) :
    ⦃fun r => ⌜r.Keeps k⌝⦄ standing v ⦃⇓ _ r => ⌜r.Keeps k⌝⦄ := by
  mvcgen [standing]

@[spec] theorem betterAmong_keeps (v : Nat) (mine : Standing) (ws : List Nat) :
    ⦃fun r => ⌜r.Keeps k⌝⦄ betterAmong v mine ws ⦃⇓ _ r => ⌜r.Keeps k⌝⦄ := by
  induction ws with
  | nil => mvcgen [betterAmong]
  | cons w ws ih => mvcgen [betterAmong, ih]

@[spec] theorem betterExists_keeps (v cost : Nat) :
    ⦃fun r => ⌜r.Keeps k⌝⦄ betterExists v cost ⦃⇓ _ r => ⌜r.Keeps k⌝⦄ := by
  mvcgen [betterExists]

@[spec] theorem forM_keeps {α : Type} {f : α → Reading PUnit} {xs : List α}
    (hf : ∀ x ∈ xs, ⦃fun r => ⌜r.Keeps k⌝⦄ f x ⦃⇓ _ r => ⌜r.Keeps k⌝⦄) :
    ⦃fun r => ⌜r.Keeps k⌝⦄ xs.forM f ⦃⇓ _ r => ⌜r.Keeps k⌝⦄ := by
  induction xs with
  | nil => mvcgen [List.forM]
  | cons x xs ih =>
    obtain ⟨hx, hxs⟩ := List.forall_mem_cons.1 hf
    have hmore := ih hxs
    mvcgen [List.forM, hx, hmore]

/-- The trees that an error takes in: those of an error below it, and those above that. -/
theorem enclosed_keeps {below : Option Tree} {s : Slice} (hs : s.Keeps k) :
    (∀ x ∈ below, k.Holds x) → ∀ x ∈ (match below with
      | some e => e.children
      | none => []) ++ s.ways.headD [], k.Holds x := by
  intro hbelow x hx
  rcases List.mem_append.1 hx with hx | hx
  · cases below with
    | none => simp at hx
    | some e => exact k.children (hbelow e rfl) x hx
  · exact hs.headD x hx

@[spec] theorem encloseErrors_keeps (goal : Nat) {found : List Slice}
    (h : ∀ s ∈ found, s.Keeps k) (done : Bool) :
    ⦃fun r => ⌜r.Keeps k⌝⦄ encloseErrors goal found done ⦃⇓ _ r => ⌜r.Keeps k⌝⦄ := by
  induction found generalizing done with
  | nil => mvcgen [encloseErrors]
  | cons s found ih =>
    obtain ⟨hs, hfound⟩ := List.forall_mem_cons.1 h
    have hmore := ih hfound
    mvcgen [encloseErrors, hmore]
    case vc7.h hr _ _ _ _ _ _ h =>
      exact k.some (k.extra true (hr.over _ _ (splitExtras_keeps (enclosed_keeps hs h.1)).1))
    case vc8.cons.isFalse.post.success.isTrue.pre h => exact h.2
    case vc11 h _ _ _ x hx =>
      exact fun _ _ => k.some ((splitExtras_keeps (enclosed_keeps hs h.1)).2 x hx)
    case vc16 h x hx =>
      exact fun _ _ => k.some ((splitExtras_keeps (enclosed_keeps hs h.1)).2 x hx)
    case vc17.cons.isFalse.post.success.isFalse.pre h => exact h.2

@[spec] theorem recoverTo_keeps (v depth goal : Nat) :
    ⦃fun r => ⌜r.Keeps k⌝⦄ recoverTo v depth goal ⦃⇓ _ r => ⌜r.Keeps k⌝⦄ := by
  mvcgen [recoverTo]
  case vc3.post.success h => exact h.2
  case vc4 => exact fun _ h _ => h

@[spec] theorem recoverBefore_keeps (v token depthMore cost : Nat) (place : Extent)
    (others : List Nat) (ms : List Memory) :
    ⦃fun r => ⌜r.Keeps k⌝⦄ recoverBefore v token depthMore cost place others ms
    ⦃⇓ _ r => ⌜r.Keeps k⌝⦄ := by
  induction ms with
  | nil => mvcgen [recoverBefore]
  | cons m ms ih => mvcgen [recoverBefore, ih]

@[spec] theorem removeHalted_keeps (n : Nat) :
    ⦃fun r => ⌜r.Keeps k⌝⦄ removeHalted n ⦃⇓ _ r => ⌜r.Keeps k⌝⦄ :=
  modify_keeps fun r h => h.withVersions fun x hx => by
    obtain ⟨v, -, rfl⟩ := List.mem_map.1 (List.mem_toArray.1 hx)
    exact h.version v

@[spec] theorem removeFrom_keeps (n : Nat) :
    ⦃fun r => ⌜r.Keeps k⌝⦄ removeFrom n ⦃⇓ _ r => ⌜r.Keeps k⌝⦄ :=
  modify_keeps fun _ h => h.withVersions (forall_mem_extract h.versions)

@[spec] theorem offer_keeps {root : Tree} (h : k.Holds root) :
    ⦃fun r => ⌜r.Keeps k⌝⦄ offer root ⦃⇓ _ r => ⌜r.Keeps k⌝⦄ :=
  modify_keeps fun r hr => by
    refine ⟨hr.table, hr.nodes, hr.versions, hr.lookahead, fun x hx => ?_⟩
    dsimp only at hx
    split at hx
    · exact k.some h x hx
    · split at hx
      · exact k.some h x hx
      · exact hr.finished x (by rwa [‹r.finished = _›])

theorem wholeTree_keeps {t : Table} (ht : t = k.table) {trees : List Tree}
    (h : ∀ x ∈ trees, k.Holds x) {root : Tree} (hroot : wholeTree t trees = some root) :
    k.Holds root := by
  subst ht
  simp only [wholeTree] at hroot
  split at hroot
  · simp at hroot
  case h_2 l cs before hdrop =>
    have hmem : ∀ x ∈ Tree.node l cs :: before, k.Holds x := fun x hx =>
      h x (List.mem_reverse.1 ((List.dropWhile_sublist _).mem (hdrop ▸ hx)))
    obtain rfl := Option.some.inj hroot
    refine k.node _ _ fun x hx => ?_
    rcases List.mem_append.1 hx with hx | hx
    · rcases List.mem_append.1 hx with hx | hx
      · exact hmem x (List.mem_cons_of_mem _ (List.mem_reverse.1 hx))
      · exact k.children (hmem _ List.mem_cons_self) x hx
    · exact h x (List.mem_reverse.1 ((List.takeWhile_sublist _).mem (List.mem_reverse.1 hx)))

@[spec] theorem acceptText_keeps (v : Nat) {token : Tree} (h : k.Holds token) :
    ⦃fun r => ⌜r.Keeps k⌝⦄ acceptText v token ⦃⇓ _ r => ⌜r.Keeps k⌝⦄ := by
  have hforM {α : Type} := @forM_keeps k α
  mvcgen [acceptText, -forM_keeps, hforM]
  case vc2.h => exact k.some h
  case vc8 h _ s hs _ _ way hway root hroot =>
    exact fun _ _ => wholeTree_keeps h.2.table (h.1 s hs way hway) hroot
  case vc10.post.success.post.success.pre h _ => exact h.2

@[spec] theorem skipToken_keeps (v : Nat) {token : Tree} (h : k.Holds token) (joined : Bool) :
    ⦃fun r => ⌜r.Keeps k⌝⦄ skipToken v token joined ⦃⇓ _ r => ⌜r.Keeps k⌝⦄ := by
  have hone {r : Readings} (hr : r.Keeps k) : k.Holds (.over r.table .skipped 0 [token]) :=
    hr.over _ _ (by simpa using h)
  have hmany {r : Readings} (hr : r.Keeps k) {s : Slice} (hs : s.Keeps k) :
      k.Holds (.over r.table .skipped 0
        (s.ways.headD [] ++ [.over r.table .skipped 0 [token]])) := by
    refine hr.over _ _ fun x hx => ?_
    rcases List.mem_append.1 hx with hx | hx
    · exact hs.headD x hx
    · exact List.mem_singleton.1 hx ▸ hone hr
  mvcgen [skipToken]
  case vc3.isTrue.post.success.h_1 h => exact h.2
  case vc4 => exact fun _ _ _ => k.some (hone ‹_›)
  case vc6.isTrue.post.success.h_2.isTrue.pre h => exact h.2
  case vc10 h _ _ _ _ => exact fun _ _ => k.some (hmany ‹_› (h.1 _ List.mem_cons_self))
  case vc12.isTrue.post.success.h_2.isFalse.pre h => exact h.2
  case vc14 h _ => exact fun _ _ => k.some (hmany ‹_› (h.1 _ List.mem_cons_self))
  case vc15.h => exact k.some (hone ‹_›)

@[spec] theorem recover_keeps (v : Nat) {token : Tree} (h : k.Holds token) :
    ⦃fun r => ⌜r.Keeps k⌝⦄ recover v token ⦃⇓ _ r => ⌜r.Keeps k⌝⦄ := by
  have hskipped : ∀ isComment : Prop, [Decidable isComment] →
      k.Holds (if isComment then token.setExtra true else token) := fun isComment _ => by
    split
    · exact k.extra true h
    · exact h
  mvcgen [recover]
  case vc9.h | vc22.h => exact k.some (Readings.Keeps.over ‹_› _ _ (by simp))
  case vc12 | vc25 => exact fun _ _ => h
  case vc17 | vc30 => exact fun _ _ => hskipped _

@[spec] theorem supplyMissing_keeps (v ahead : Nat) {tokens : List Nat}
    (h : ∀ n ∈ tokens, n ∈ k.table.missing) :
    ⦃fun r => ⌜r.Keeps k⌝⦄ supplyMissing v ahead tokens ⦃⇓ _ r => ⌜r.Keeps k⌝⦄ := by
  induction tokens with
  | nil => mvcgen [supplyMissing]
  | cons token tokens ih =>
    obtain ⟨htoken, htokens⟩ := List.forall_mem_cons.1 h
    have hmore := ih htokens
    mvcgen [supplyMissing, hmore]
    case vc3.hx hr _ _ _ _ => exact hr.version v
    case vc6.h hr _ _ _ _ _ _ _ => exact k.some (hr.table ▸ k.missing htoken)

@[spec] theorem markErrors_keeps (ahead : Option Nat) (vs : List Nat) (supplied : Bool) :
    ⦃fun r => ⌜r.Keeps k⌝⦄ markErrors ahead vs supplied ⦃⇓ _ r => ⌜r.Keeps k⌝⦄ := by
  induction vs generalizing supplied with
  | nil => mvcgen [markErrors]
  | cons v vs ih =>
    mvcgen [markErrors, ih]
    case vc2.h hr => exact fun n hn => hr.table ▸ hn
    case vc5.h | vc9.h => simp

@[spec] theorem mergeTimes_keeps (v w times : Nat) :
    ⦃fun r => ⌜r.Keeps k⌝⦄ mergeTimes v w times ⦃⇓ _ r => ⌜r.Keeps k⌝⦄ := by
  induction times with
  | zero => mvcgen [mergeTimes]
  | succ n ih => mvcgen [mergeTimes, ih]

@[spec] theorem handleError_keeps (v : Nat) {token : Tree} (h : k.Holds token) :
    ⦃fun r => ⌜r.Keeps k⌝⦄ handleError v token ⦃⇓ _ r => ⌜r.Keeps k⌝⦄ := by
  mvcgen [handleError]
  case vc10 => exact fun _ _ => h

/-! ## Reading a text -/

theorem readToken_keeps {t : Table} (ht : t = k.table) (s : Source) (state : Nat)
    (place : Extent) : k.Holds (readToken t s state place) := by
  subst ht
  simp only [readToken]
  split
  · exact k.leaf ..
  · split <;> exact k.leaf ..
  · exact k.leaf ..

@[spec] theorem nextToken_keeps (v : Nat) :
    ⦃fun r => ⌜r.Keeps k⌝⦄ nextToken v ⦃⇓ token r => ⌜k.Holds token ∧ r.Keeps k⌝⦄ := by
  mvcgen [nextToken]
  case vc1.h_1 r hr _ _ old token hold =>
    refine ⟨?_, hr⟩
    simp only [old] at hold
    split at hold
    case h_1 hahead =>
      split at hold
      · exact Option.some.inj hold ▸ hr.lookahead _ hahead
      · simp at hold
    case h_2 => simp at hold
  case vc2.h_2 r hr _ _ _ _ _ =>
    have htoken := readToken_keeps hr.table r.source (r.state v) (r.top v).place
    exact ⟨htoken, hr.table, hr.nodes, hr.versions, fun p hp => Option.some.inj hp ▸ htoken,
      hr.finished⟩

@[spec] theorem act_keeps (v : Nat) {token : Tree} (h : k.Holds token) (actions : List Action)
    (outcome : Outcome) :
    ⦃fun r => ⌜r.Keeps k⌝⦄ act v token actions outcome ⦃⇓ _ r => ⌜r.Keeps k⌝⦄ := by
  induction actions generalizing outcome with
  | nil => mvcgen [act]
  | cons a as ih =>
    mvcgen [act, ih]
    case vc2.h => exact k.some (k.extra false h)
    case vc4.h => exact k.some (k.extra true h)

@[spec] theorem advanceTo_keeps (v fuel : Nat) {token : Tree} (h : k.Holds token)
    (actions : List Action) :
    ⦃fun r => ⌜r.Keeps k⌝⦄ advanceTo v fuel token actions ⦃⇓ _ r => ⌜r.Keeps k⌝⦄ := by
  induction fuel generalizing token actions with
  | zero => mvcgen [advanceTo]
  | succ fuel ih =>
    mvcgen [advanceTo, ih]
    case vc10.h hr _ _ _ _ _ _ _ hword => exact k.word h (by rwa [← hr.table])

@[spec] theorem advance_keeps (v : Nat) :
    ⦃fun r => ⌜r.Keeps k⌝⦄ advance v ⦃⇓ _ r => ⌜r.Keeps k⌝⦄ := by
  mvcgen [advance]
  case vc3.h h => exact h.1
  case vc4.post.success h => exact h.2

@[spec] theorem advanceWhile_keeps (v fuel last : Nat) :
    ⦃fun r => ⌜r.Keeps k⌝⦄ advanceWhile v fuel last ⦃⇓ _ r => ⌜r.Keeps k⌝⦄ := by
  induction fuel generalizing last with
  | zero => mvcgen [advanceWhile]
  | succ fuel ih => mvcgen [advanceWhile, ih]

@[spec] theorem advanceAll_keeps (fuel v last : Nat) :
    ⦃fun r => ⌜r.Keeps k⌝⦄ advanceAll fuel v last ⦃⇓ _ r => ⌜r.Keeps k⌝⦄ := by
  induction fuel generalizing v last with
  | zero => mvcgen [advanceAll]
  | succ fuel ih => mvcgen [advanceAll, ih]

@[spec] theorem compareEarlier_keeps (mine : Standing) (fuel j i : Nat) :
    ⦃fun r => ⌜r.Keeps k⌝⦄ compareEarlier mine fuel j i ⦃⇓ _ r => ⌜r.Keeps k⌝⦄ := by
  induction fuel generalizing j i with
  | zero => mvcgen [compareEarlier]
  | succ fuel ih => mvcgen [compareEarlier, ih]

@[spec] theorem orderFrom_keeps (fuel i : Nat) (cost : Option Nat) :
    ⦃fun r => ⌜r.Keeps k⌝⦄ orderFrom fuel i cost ⦃⇓ _ r => ⌜r.Keeps k⌝⦄ := by
  induction fuel generalizing i cost with
  | zero => mvcgen [orderFrom]
  | succ fuel ih => mvcgen [orderFrom, ih]

@[spec] theorem resumeFrom_keeps (fuel i count : Nat) (going : Bool) (cost : Option Nat) :
    ⦃fun r => ⌜r.Keeps k⌝⦄ resumeFrom fuel i count going cost ⦃⇓ _ r => ⌜r.Keeps k⌝⦄ := by
  induction fuel generalizing i count going cost with
  | zero => mvcgen [resumeFrom]
  | succ fuel ih =>
    mvcgen [resumeFrom, ih]
    case vc4.hf => exact fun _ _ => nofun
    case vc7.h hr _ hpaused _ _ _ _ _ => exact hr.pausedToken hpaused

@[spec] theorem condense_keeps :
    ⦃fun r => ⌜r.Keeps k⌝⦄ condense ⦃⇓ _ r => ⌜r.Keeps k⌝⦄ := by
  mvcgen [condense]
  case vc3.post.success h _ _ => exact h.withVersions (forall_mem_extract h.versions)

@[spec] theorem readOn_keeps (fuel last : Nat) :
    ⦃fun r => ⌜r.Keeps k⌝⦄ readOn fuel last ⦃⇓ _ r => ⌜r.Keeps k⌝⦄ := by
  induction fuel generalizing last with
  | zero => mvcgen [readOn]
  | succ fuel ih => mvcgen [readOn, ih]

theorem run_keeps {α : Type} {m : Reading α} {r : Readings}
    (hm : ⦃fun r => ⌜r.Keeps k⌝⦄ m ⦃⇓ _ r => ⌜r.Keeps k⌝⦄) (hr : r.Keeps k) :
    (m.run r).2.Keeps k :=
  hm r hr

/-- An invariant of trees holds of the tree that a text is read as. -/
theorem holds_of_parse (k : TreeInvariant) {text : String} {tree : Tree}
    (h : parse k.table text = some tree) : k.Holds tree := by
  simp only [parse] at h
  refine (run_keeps (readOn_keeps _ _) ?_).finished tree h
  exact
    { table := rfl
      nodes := by simp [StackNode.Keeps]
      versions := by simp [Version.Keeps]
      lookahead := by simp
      finished := by simp }

theorem sound_of_parse {t : Table} {text : String} {tree : Tree} (h : parse t text = some tree) :
    tree.Sound t :=
  holds_of_parse (soundTrees t) h

end StructProjection.Parsing
