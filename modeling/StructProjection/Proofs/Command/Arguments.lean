import Mathlib.Data.List.Basic
import StructProjection.Command.Arguments
import StructProjection.Proofs.Results

/-! # Asking for a dry run in the place of a listing

The two flags are read alike: where one stands for the other, everything else is read as before.
-/

namespace StructProjection.Command

variable {a a' : Arguments} {s s' : State} {fd : Field} {fl : Flag} {v : String}
  {f g : State → Except Stop State} {letters : List Char} {arg : String}

/-- The arguments with a dry run in the place of a listing. -/
def Arguments.asDryRun (a : Arguments) : Arguments := { a with listOnly := false, dryRun := true }

def State.asDryRun (s : State) : State := { s with arguments := s.arguments.asDryRun }

theorem store_asDryRun (h : store a fd v = .ok a') :
    store a.asDryRun fd v = .ok a'.asDryRun ∧ a'.listOnly = a.listOnly ∧ a'.dryRun = a.dryRun := by
  cases fd with
  | path =>
    obtain ⟨w, hw, h⟩ := exists_of_bind h
    obtain rfl := Except.ok.inj h
    exact ⟨by rw [store, hw]; rfl, rfl, rfl⟩
  | config =>
    unfold store at h ⊢
    dsimp only at h
    split at h
    · cases h
    · next hc =>
      obtain ⟨w, hw, h⟩ := exists_of_bind h
      obtain rfl := Except.ok.inj h
      exact ⟨by rw [hw]; exact if_neg hc, rfl, rfl⟩
  | suffix =>
    unfold store at h ⊢
    dsimp only at h
    split at h
    · cases h
    · next hc =>
      obtain rfl := Except.ok.inj h
      exact ⟨if_neg hc, rfl, rfl⟩
  | _ =>
    obtain rfl := Except.ok.inj h
    exact ⟨rfl, rfl, rfl⟩

theorem settle_asDryRun (h : settle s = .ok s') :
    settle s.asDryRun = .ok s'.asDryRun ∧ s'.arguments.listOnly = s.arguments.listOnly ∧
      s'.arguments.dryRun = s.arguments.dryRun ∧ s'.onlyPaths = s.onlyPaths := by
  obtain ⟨a, pending, hasPath, onlyPaths⟩ := s
  obtain _ | ⟨fd, _ | v⟩ := pending
  · obtain rfl := Except.ok.inj h
    exact ⟨rfl, rfl, rfl, rfl⟩
  · cases h
  · obtain ⟨a', ha, h⟩ := exists_of_bind h
    obtain rfl := Except.ok.inj h
    obtain ⟨hd, hl, hr⟩ := store_asDryRun ha
    refine ⟨?_, hl, hr, rfl⟩
    rw [State.asDryRun, settle]
    dsimp only
    rw [hd]
    rfl

/-! ## Steps that do not tell the flags apart -/

/-- Once one of the flags has been given, the step goes on in the same way whichever it was. -/
structure Blind (f : State → Except Stop State) : Prop where
  listOnly : ∀ {s s'}, f s = .ok s' → s.arguments.listOnly = true → s'.arguments.listOnly = true
  dryRun : ∀ {s s'}, f s = .ok s' → s'.arguments.dryRun = false → s.arguments.dryRun = false
  asDryRun : ∀ {s s'}, f s = .ok s' → s.arguments.listOnly = true →
    s'.arguments.dryRun = false → f s.asDryRun = .ok s'.asDryRun

namespace Blind

theorem of_same (h : ∀ {s s'}, f s = .ok s' → f s.asDryRun = .ok s'.asDryRun ∧
    s'.arguments.listOnly = s.arguments.listOnly ∧ s'.arguments.dryRun = s.arguments.dryRun) :
    Blind f where
  listOnly hf hl := (h hf).2.1.trans hl
  dryRun hf hd := (h hf).2.2.symm.trans hd
  asDryRun hf _ _ := (h hf).1

theorem of_ok {g : State → State} (h : ∀ s, (g s).arguments = s.arguments)
    (hd : ∀ s, g s.asDryRun = (g s).asDryRun) : Blind fun s => .ok (g s) := .of_same fun {s s'} hs => by
  obtain rfl := Except.ok.inj hs
  exact ⟨congrArg Except.ok (hd s), congrArg _ (h s), congrArg _ (h s)⟩

theorem bind (hf : Blind f) (hg : Blind g) : Blind fun s => f s >>= g where
  listOnly h hl := by
    obtain ⟨m, hm, h⟩ := exists_of_bind h
    exact hg.listOnly h (hf.listOnly hm hl)
  dryRun h hd := by
    obtain ⟨m, hm, h⟩ := exists_of_bind h
    exact hf.dryRun hm (hg.dryRun h hd)
  asDryRun h hl hd := by
    obtain ⟨m, hm, h⟩ := exists_of_bind h
    rw [hf.asDryRun hm hl (hg.dryRun h hd)]
    exact hg.asDryRun h (hf.listOnly hm hl) hd

theorem foldlM {α : Type} {f : State → α → Except Stop State} (h : ∀ x, Blind fun s => f s x)
    (xs : List α) : Blind fun s => xs.foldlM f s := by
  induction xs with
  | nil => exact of_ok (fun _ => rfl) fun _ => rfl
  | cons x xs ih =>
    simp only [List.foldlM_cons]
    exact (h x).bind ih

/-- It may depend on the state how the step is done, if not on the flags. -/
theorem of_forall (h : ∀ s, ∃ g, Blind g ∧ f s = g s ∧ f s.asDryRun = g s.asDryRun) :
    Blind f where
  listOnly {s s'} hf hl := by
    obtain ⟨g, hg, he, -⟩ := h s
    exact hg.listOnly (he.symm.trans hf) hl
  dryRun {s s'} hf hd := by
    obtain ⟨g, hg, he, -⟩ := h s
    exact hg.dryRun (he.symm.trans hf) hd
  asDryRun {s s'} hf hl hd := by
    obtain ⟨g, hg, he, hed⟩ := h s
    exact hed.trans (hg.asDryRun (he.symm.trans hf) hl hd)

end Blind

theorem blind_settle : Blind settle := .of_same fun h => by
  obtain ⟨hd, hl, hr, -⟩ := settle_asDryRun h
  exact ⟨hd, hl, hr⟩

theorem of_ite_fail {c : Bool} {e : UsageError} {x y : State}
    (h : (if c then fail e else .ok x) = .ok y) : c = false ∧ x = y := by
  cases c with
  | false => exact ⟨rfl, Except.ok.inj h⟩
  | true => cases h

theorem blind_raise (fl : Flag) : Blind fun s => raise s fl := by
  unfold raise
  refine blind_settle.bind ?_
  cases fl with
  | noFormat =>
    refine .of_same fun h => ?_
    obtain ⟨hc, rfl⟩ := of_ite_fail h
    exact ⟨if_neg (ne_true_of_eq_false hc), rfl, rfl⟩
  | staged =>
    refine .of_same fun h => ?_
    obtain ⟨hc, rfl⟩ := of_ite_fail h
    exact ⟨if_neg (ne_true_of_eq_false hc), rfl, rfl⟩
  | dryRun =>
    refine ⟨fun h hl => ?_, fun h hd => ?_, fun h _ hd => ?_⟩
    all_goals obtain ⟨-, rfl⟩ := of_ite_fail h
    · exact hl
    · cases hd
    · cases hd
  | listOnly =>
    refine ⟨fun h _ => ?_, fun h hd => ?_, fun h hl _ => ?_⟩
    all_goals obtain ⟨hc, rfl⟩ := of_ite_fail h
    · rfl
    · exact hd
    · cases hc.symm.trans hl
  | verbose =>
    refine .of_same fun h => ?_
    cases h
    exact ⟨rfl, rfl, rfl⟩
  | help => exact .of_same fun h => by cases h
  | version => exact .of_same fun h => by cases h

/-- What is left to do when a field has been named. -/
theorem blind_name (p : Pending) :
    Blind fun s => do return { ← settle s with pending := some p } :=
  blind_settle.bind (.of_ok (fun _ => rfl) fun _ => rfl)

theorem blind_takeLong (body : List Char) : Blind fun s => takeLong s body := by
  unfold takeLong
  dsimp only
  cases hfd : Field.named (String.ofList (body.takeWhile (· ≠ '='))) with
  | some fd => exact blind_name ⟨fd, _⟩
  | none =>
    cases hfl : Flag.named (String.ofList (body.takeWhile (· ≠ '='))) with
    | none => exact .of_same fun h => by cases h
    | some fl =>
      cases hv : body.dropWhile (· ≠ '=') with
      | nil => exact blind_raise fl
      | cons c v => exact .of_same fun h => by cases h

theorem blind_takeShort (letters : List Char) : Blind fun s => takeShort s letters := by
  induction letters with
  | nil => exact .of_ok (fun _ => rfl) fun _ => rfl
  | cons c rest ih =>
    by_cases hc : c = 'c'
    · subst hc
      unfold takeShort
      exact blind_name _
    · simp only [fun s => takeShort.eq_5 s c rest hc]
      cases Flag.lettered c with
      | none => exact .of_same fun h => by cases h
      | some fl => exact (blind_raise fl).bind ih

theorem blind_takePath (arg : String) : Blind fun s => takePath s arg := by
  refine .of_same fun {s s'} h => ?_
  unfold takePath at h ⊢
  split at h
  · cases h
  · next hp =>
    obtain ⟨m, hm, h⟩ := exists_of_bind h
    obtain ⟨hd, hl, hr, -⟩ := settle_asDryRun hm
    cases h
    refine ⟨?_, hl, hr⟩
    rw [if_neg (show ¬ s.asDryRun.hasPath = true from hp), hd]
    rfl

theorem blind_take (arg : String) : Blind fun s => take s arg := by
  refine .of_forall fun s => ?_
  have honly : s.asDryRun.onlyPaths = s.onlyPaths := rfl
  have hpending : s.asDryRun.pending = s.pending := rfl
  unfold take
  rw [honly, hpending]
  split
  · exact ⟨_, blind_takePath arg, rfl, rfl⟩
  · split
    · exact ⟨fun s => .ok { s with onlyPaths := true }, .of_ok (fun _ => rfl) fun _ => rfl, rfl, rfl⟩
    · exact ⟨_, blind_takeLong _, rfl, rfl⟩
    · exact ⟨_, blind_takeShort _, rfl, rfl⟩
    · split
      · next fd _ =>
        exact ⟨fun s => .ok { s with pending := some ⟨fd, some arg⟩ },
          .of_ok (fun _ => rfl) fun _ => rfl, rfl, rfl⟩
      · exact ⟨_, blind_takePath arg, rfl, rfl⟩

/-! ## Where paths begin -/

/-- After the step, arguments that look like flags are taken for flags if they were before. -/
def KeepsFlags (f : State → Except Stop State) : Prop :=
  ∀ s s', f s = .ok s' → s'.onlyPaths = s.onlyPaths

theorem KeepsFlags.bind (hf : KeepsFlags f) (hg : KeepsFlags g) :
    KeepsFlags fun s => f s >>= g := by
  intro s s' h
  obtain ⟨m, hm, h⟩ := exists_of_bind h
  exact (hg m s' h).trans (hf s m hm)

theorem keepsFlags_settle : KeepsFlags settle := fun _ _ h => (settle_asDryRun h).2.2.2

theorem keepsFlags_name (p : Pending) :
    KeepsFlags fun s => do return { ← settle s with pending := some p } :=
  keepsFlags_settle.bind fun _ _ h => by cases h; rfl

theorem keepsFlags_raise (fl : Flag) : KeepsFlags fun s => raise s fl := by
  unfold raise
  refine keepsFlags_settle.bind fun s s' h => ?_
  cases fl with
  | verbose => cases h; rfl
  | help => cases h
  | version => cases h
  | _ =>
    obtain ⟨-, rfl⟩ := of_ite_fail h
    rfl

theorem keepsFlags_takeLong (body : List Char) : KeepsFlags fun s => takeLong s body := by
  intro s s' h
  unfold takeLong at h
  dsimp only at h
  split at h
  · exact keepsFlags_name _ s s' h
  · exact keepsFlags_raise _ s s' h
  · cases h
  · cases h

theorem keepsFlags_takeShort (letters : List Char) : KeepsFlags fun s => takeShort s letters := by
  induction letters with
  | nil => intro s s' h; cases h; rfl
  | cons c rest ih =>
    intro s s' h
    unfold takeShort at h
    split at h
    · cases h
      rfl
    · exact keepsFlags_name _ s s' h
    · next heq =>
      obtain ⟨rfl, rfl⟩ := List.cons.inj heq
      split at h
      · exact (keepsFlags_raise _).bind ih s s' h
      · cases h

theorem keepsFlags_takePath (arg : String) : KeepsFlags fun s => takePath s arg := by
  intro s s' h
  dsimp only [takePath] at h
  split at h
  · cases h
  · obtain ⟨m, hm, h⟩ := exists_of_bind h
    cases h
    exact keepsFlags_settle s m hm

theorem keepsFlags_take (h : arg ≠ "--") : KeepsFlags fun s => take s arg := by
  intro s s' hs
  dsimp only at hs
  unfold take at hs
  split at hs
  · exact keepsFlags_takePath arg s s' hs
  · split at hs
    · next hl => exact absurd (String.toList_injective (hl.trans rfl)) h
    · exact keepsFlags_takeLong _ s s' hs
    · exact keepsFlags_takeShort _ s s' hs
    · split at hs
      · cases hs
        rfl
      · exact keepsFlags_takePath arg s s' hs

theorem keepsFlags_foldlM {given : List String} (h : "--" ∉ given) :
    KeepsFlags fun s => given.foldlM take s := by
  induction given with
  | nil => intro s s' hs; cases hs; rfl
  | cons arg given ih =>
    obtain ⟨harg, hgiven⟩ := List.ne_and_not_mem_of_not_mem_cons h
    simp only [List.foldlM_cons]
    exact (keepsFlags_take harg.symm).bind (ih hgiven)

/-! ## Reading -/

theorem take_listOnly (h : s.onlyPaths = false) : take s "--list-only" = raise s .listOnly := by
  rw [take, h]
  rfl

theorem take_dryRun (h : s.onlyPaths = false) : take s "--dry-run" = raise s .dryRun := by
  rw [take, h]
  rfl

/-- What follows when the arguments have been gone through. -/
def complete (fromCall : Option String) (s : State) : Except Stop Arguments := do
  let s ← settle s
  match s.arguments.config, fromCall with
  | none, some value => store s.arguments .config value
  | _, _ => return s.arguments

theorem read_eq (fromCall : Option String) (given : List String) :
    Arguments.read fromCall given = given.foldlM take {} >>= complete fromCall := rfl

theorem complete_asDryRun {fromCall : Option String} (h : complete fromCall s = .ok a) :
    complete fromCall s.asDryRun = .ok a.asDryRun ∧ a.listOnly = s.arguments.listOnly ∧
      a.dryRun = s.arguments.dryRun := by
  obtain ⟨m, hm, h⟩ := exists_of_bind h
  obtain ⟨hd, hl, hr, -⟩ := settle_asDryRun hm
  have hconfig : m.asDryRun.arguments.config = m.arguments.config := rfl
  cases hc : m.arguments.config with
  | some name =>
    simp only [hc] at h
    obtain rfl := Except.ok.inj h
    refine ⟨?_, hl, hr⟩
    simp only [complete, hd, bind, Except.bind, hconfig, hc]
    rfl
  | none =>
    cases fromCall with
    | none =>
      simp only [hc] at h
      obtain rfl := Except.ok.inj h
      refine ⟨?_, hl, hr⟩
      simp only [complete, hd, bind, Except.bind, hconfig, hc]
      rfl
    | some value =>
      simp only [hc] at h
      obtain ⟨hs, hl', hr'⟩ := store_asDryRun h
      refine ⟨?_, hl'.trans hl, hr'.trans hr⟩
      simp only [complete, hd, bind, Except.bind, hconfig, hc]
      exact hs

/-- Where a listing is asked for, a dry run can be asked for instead. -/
theorem read_asDryRun {fromCall : Option String} {before after : List String}
    (hb : "--" ∉ before) (hd : a.dryRun = false)
    (h : Arguments.read fromCall (before ++ "--list-only" :: after) = .ok a) :
    a.listOnly = true ∧
      Arguments.read fromCall (before ++ "--dry-run" :: after) = .ok a.asDryRun := by
  rw [read_eq, List.foldlM_append] at h ⊢
  obtain ⟨s₃, h₃, hc⟩ := exists_of_bind h
  obtain ⟨s₁, h₁, h₃⟩ := exists_of_bind h₃
  rw [List.foldlM_cons] at h₃
  obtain ⟨s₂, h₂, h₃⟩ := exists_of_bind h₃
  have honly : s₁.onlyPaths = false := keepsFlags_foldlM hb _ _ h₁
  rw [take_listOnly honly] at h₂
  obtain ⟨m, hm, h₂⟩ := exists_of_bind h₂
  obtain ⟨hl, rfl⟩ := of_ite_fail h₂
  obtain ⟨hca, hcl, hcd⟩ := complete_asDryRun hc
  have hafter := Blind.foldlM blind_take after
  have hd₃ : s₃.arguments.dryRun = false := hcd.symm.trans hd
  -- No dry run has been asked for before, for that cannot be taken back.
  have hdm : m.arguments.dryRun = false := (hafter.dryRun h₃ hd₃ :)
  have hdry : raise s₁ .dryRun = .ok (State.asDryRun
      { m with arguments := { m.arguments with listOnly := true } }) := by
    rw [raise, hm]
    refine (if_neg (ne_true_of_eq_false hdm)).trans ?_
    rw [State.asDryRun, Arguments.asDryRun, ← hl]
  refine ⟨hcl.trans (hafter.listOnly h₃ rfl), ?_⟩
  have hrest := hafter.asDryRun h₃ rfl hd₃
  simp only [bind, Except.bind, h₁, List.foldlM_cons, take_dryRun honly, hdry] at hrest ⊢
  rw [hrest]
  exact hca

end StructProjection.Command
