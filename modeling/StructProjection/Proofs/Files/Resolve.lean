import Mathlib.Data.List.Basic
import StructProjection.Proofs.Files.Kind

/-! # Where paths lead

A path leads to something that is there, and if it leads to a file, its last step enters the file by
its name. Where a path leads depends on the kinds of the entries only.
-/

namespace StructProjection.Files

namespace Tree

variable {t u : Tree} {last : Bool} {l m here : Location} {p : Path} {steps : List Path.Step}
  {s : Path.Step} {n : Name} {links : Nat}

/-! ## Following steps -/

theorem follow_enter (t : Tree) (last : Bool) (here : Location) (n : Name)
    (rest : List Path.Step) :
    follow t last here (.enter n :: rest) =
      match t.kindAt (here ++ [n]) with
      | none => .refused .notFound
      | some .folder => follow t last (here ++ [n]) rest
      | some .file => if rest = [] then .here (here ++ [n]) else .refused .notFolder
      | some (.link target) =>
        if rest = [] && !last then .here (here ++ [n]) else .link here target rest := by
  rw [follow, kindAt]
  cases t.at? (here ++ [n]) with
  | none => rfl
  | some e => cases e <;> rfl

theorem follow_congr (h : SameKinds t u) (last : Bool) (here : Location) (steps : List Path.Step) :
    follow u last here steps = follow t last here steps := by
  induction steps generalizing here with
  | nil => rfl
  | cons s rest ih =>
    cases s with
    | stay => exact ih here
    | up => exact ih here.dropLast
    | enter n => simp only [follow_enter, h (here ++ [n]), ih]

/-- How following steps from a folder can stop. -/
inductive Stop.From (t : Tree) (last : Bool) (steps : List Path.Step) : Stop → Prop
  | folder {l : Location} (h : t.kindAt l = some .folder) : From t last steps (.here l)
  /-- The last step has entered a file, or a link that is not to be followed. -/
  | entered {l : Location} {n : Name} (h : t.kindAt (l ++ [n]) ≠ none)
      (hlink : last = true → ∀ target, t.kindAt (l ++ [n]) ≠ some (.link target))
      (hsteps : steps.getLast? = some (.enter n)) : From t last steps (.here (l ++ [n]))
  | link {l : Location} {target : Path} {rest : List Path.Step} (h : t.kindAt l = some .folder)
      (hrest : last = false → rest ≠ [])
      (hsteps : ∀ s, rest.getLast? = some s → steps.getLast? = some s) :
      From t last steps (.link l target rest)
  | refused (r : Refusal) : From t last steps (.refused r)

theorem getLast?_cons_of_getLast? {α : Type} {xs : List α} {x : α} (y : α)
    (h : xs.getLast? = some x) : (y :: xs).getLast? = some x := by
  rw [List.getLast?_cons, h, Option.getD_some]

theorem Stop.From.cons {stop : Stop} (h : stop.From t last steps) (s : Path.Step) :
    stop.From t last (s :: steps) := by
  cases h with
  | folder h => exact .folder h
  | entered h hlink hsteps => exact .entered h hlink (getLast?_cons_of_getLast? s hsteps)
  | link h hrest hsteps =>
    exact .link h hrest fun x hx => getLast?_cons_of_getLast? s (hsteps x hx)
  | refused r => exact .refused r

theorem kindAt_dropLast (h : t.kindAt l = some .folder) : t.kindAt l.dropLast = some .folder := by
  obtain rfl | ⟨m, n, rfl⟩ := List.eq_nil_or_concat l
  · exact h
  · obtain ⟨es, he⟩ := kindAt_eq_folder.mp h
    rw [at?, List.concat_eq_append, Entry.at?_append] at he
    obtain ⟨e, hm, hn⟩ := Option.bind_eq_some_iff.mp he
    rw [List.concat_eq_append, List.dropLast_concat, kindAt_eq_folder]
    cases e with
    | folder fs => exact ⟨fs, hm⟩
    | _ => simp [Entry.at?] at hn

theorem follow_from (h : t.kindAt here = some .folder) (last : Bool) (steps : List Path.Step) :
    (follow t last here steps).From t last steps := by
  induction steps generalizing here with
  | nil => exact .folder h
  | cons s rest ih =>
    cases s with
    | stay => exact (ih h).cons .stay
    | up => exact (ih (kindAt_dropLast h)).cons .up
    | enter n =>
      have hself : ([.enter n] : List Path.Step).getLast? = some (.enter n) := rfl
      rw [follow_enter]
      cases hk : t.kindAt (here ++ [n]) with
      | none => exact .refused _
      | some k =>
        cases k with
        | folder => exact (ih hk).cons (.enter n)
        | file =>
          dsimp only
          split
          · next hrest => exact .entered (by simp [hk]) (by simp [hk]) (hrest ▸ hself)
          · exact .refused _
        | link target =>
          dsimp only
          split
          · next hrest =>
            obtain ⟨rfl, rfl⟩ : rest = [] ∧ last = false := by simpa using hrest
            exact .entered (by simp [hk]) (by simp) hself
          · next hrest =>
            refine .link h (fun hl hr => hrest (by simp [hl, hr])) fun s hs => ?_
            exact getLast?_cons_of_getLast? _ hs

/-- A link at the end makes all the difference. -/
theorem follow_of_follow_last (t : Tree) (here : Location) (steps : List Path.Step) :
    follow t false here steps = follow t true here steps ∨
      ∃ l target m, follow t true here steps = .link l target [] ∧
        follow t false here steps = .here m := by
  induction steps generalizing here with
  | nil => exact .inl rfl
  | cons s rest ih =>
    cases s with
    | stay => exact ih here
    | up => exact ih here.dropLast
    | enter n =>
      rw [follow_enter, follow_enter]
      cases t.kindAt (here ++ [n]) with
      | none => exact .inl rfl
      | some k =>
        cases k with
        | folder => exact ih (here ++ [n])
        | file => exact .inl rfl
        | link target =>
          by_cases hr : rest = []
          · subst hr
            exact .inr ⟨here, target, here ++ [n], by simp, by simp⟩
          · exact .inl (by simp [hr])

/-! ## Resolving paths -/

theorem resolveFrom_congr (h : SameKinds t u) (last : Bool) (links : Nat) (here : Location)
    (steps : List Path.Step) :
    resolveFrom u last links here steps = resolveFrom t last links here steps := by
  induction links generalizing here steps with
  | zero => rw [resolveFrom, resolveFrom, follow_congr h]
  | succ links ih =>
    rw [resolveFrom, resolveFrom, follow_congr h]
    cases follow t last here steps <;> simp only [ih]

theorem resolve_congr (h : SameKinds t u) (p : Path) (last : Bool) :
    u.resolve p last = t.resolve p last := by
  simp only [resolve, resolveFrom_congr h]

/-- What a path leads to is a folder, or something that has been entered by the last step. -/
inductive Resolved (t : Tree) (last : Bool) (steps : List Path.Step) (l : Location) : Prop
  | folder (h : t.kindAt l = some .folder)
  | entered (h : t.kindAt l ≠ none)
      (hlink : last = true → ∀ target, t.kindAt l ≠ some (.link target))
      (hsteps : last = false → ∃ n, steps.getLast? = some (.enter n) ∧ l.getLast? = some n)

theorem Stop.From.resolved (h : (Stop.here l).From t last steps) : t.Resolved last steps l := by
  cases h with
  | folder h => exact .folder h
  | entered h hlink hsteps => exact .entered h hlink fun _ => ⟨_, hsteps, by simp⟩

theorem resolved_of_resolveFrom (h : t.kindAt here = some .folder)
    (hr : resolveFrom t last links here steps = .ok l) : t.Resolved last steps l := by
  induction links generalizing here steps with
  | zero =>
    have hstop := follow_from h last steps
    rw [resolveFrom] at hr
    cases hf : follow t last here steps with
    | here m =>
      obtain rfl : m = l := by simpa [hf] using hr
      exact Stop.From.resolved (hf ▸ hstop)
    | _ => simp [hf] at hr
  | succ links ih =>
    have hstop := follow_from h last steps
    rw [resolveFrom] at hr
    cases hf : follow t last here steps with
    | here m =>
      obtain rfl : m = l := by simpa [hf] using hr
      exact Stop.From.resolved (hf ▸ hstop)
    | refused r => simp [hf] at hr
    | link m target rest =>
      rw [hf] at hstop hr
      cases hstop with
      | link hm hrest hsteps =>
        dsimp only at hr
        split at hr
        · simp at hr
        · cases ih hm hr with
          | folder h => exact .folder h
          | entered h hlink hlast =>
            refine .entered h hlink fun hl => ?_
            obtain ⟨n, hn, hln⟩ := hlast hl
            rw [List.getLast?_append_of_ne_nil _ (hrest hl)] at hn
            exact ⟨n, hsteps _ hn, hln⟩

theorem exists_resolveFrom_of_last (h : resolveFrom t true links here steps = .ok l) :
    ∃ m, resolveFrom t false links here steps = .ok m := by
  induction links generalizing here steps with
  | zero =>
    rw [resolveFrom] at h
    rcases follow_of_follow_last t here steps with hf | ⟨k, target, m, hf, -⟩
    · exact ⟨l, by rw [resolveFrom, hf, h]⟩
    · simp [hf] at h
  | succ links ih =>
    rw [resolveFrom] at h
    rcases follow_of_follow_last t here steps with hf | ⟨k, target, m, -, hm⟩
    · rw [resolveFrom, hf]
      cases hf' : follow t true here steps with
      | here m => exact ⟨m, rfl⟩
      | refused r => simp [hf'] at h
      | link m target rest =>
        rw [hf'] at h
        dsimp only at h ⊢
        split at h
        · simp at h
        · next htarget =>
          rw [if_neg htarget]
          exact ih h
    · exact ⟨m, by rw [resolveFrom, hm]⟩

theorem resolveFrom_of_resolve (h : t.resolve p last = .ok l) :
    resolveFrom t last maxLinks [] p.steps = .ok l := by
  unfold resolve at h
  split at h
  · simp at h
  · split at h
    · simp at h
    · exact h

theorem resolved_of_resolve (h : t.resolve p last = .ok l) : t.Resolved last p.steps l :=
  resolved_of_resolveFrom t.kindAt_nil (resolveFrom_of_resolve h)

theorem exists_of_resolve (h : t.resolve p last = .ok l) : t.kindAt l ≠ none := by
  cases resolved_of_resolve h with
  | folder h => simp [h]
  | entered h => exact h

theorem not_link_of_resolve (h : t.resolve p true = .ok l) (target : Path) :
    t.kindAt l ≠ some (.link target) := by
  cases resolved_of_resolve h with
  | folder h => simp [h]
  | entered _ hlink => exact hlink rfl target

theorem exists_resolve_of_last (h : t.resolve p true = .ok l) : ∃ m, t.resolve p false = .ok m := by
  obtain ⟨m, hm⟩ := exists_resolveFrom_of_last (resolveFrom_of_resolve h)
  refine ⟨m, ?_⟩
  unfold resolve at h ⊢
  split at h
  · simp at h
  · split at h
    · simp at h
    · next h₁ h₂ => rw [if_neg h₁, if_neg h₂, hm]

/-- A path to a file ends with the name of the file. -/
theorem getLast?_of_resolve_file (h : t.resolve p false = .ok l) (hl : t.kindAt l = some .file) :
    l.getLast? = some p.fileName := by
  cases resolved_of_resolve h with
  | folder h => simp [h] at hl
  | entered _ _ hsteps =>
    obtain ⟨n, hn, hln⟩ := hsteps rfl
    rw [hln, Path.fileName_of_getLast?_steps hn]

end Tree

end StructProjection.Files
