import StructProjection.Proofs.Batch.OneFile

/-! # Batches that differ only in what they report -/

namespace StructProjection

open Files

/-- The formatter that is called, and its target. -/
def Event.call? : Event → Option (String × Path)
  | .formatting name target => some (name, target)
  | _ => none

/-- The calls of formatters, the first one first. -/
def calls (events : List Event) : List (String × Path) := events.filterMap Event.call?

/-- The states show the same files and the same report, and formatters have been called alike. -/
structure Progress.Alike (p q : Progress) : Prop where
  tree : p.tree = q.tree
  report : p.report = q.report
  calls : calls p.events = calls q.events

/-- The outcomes show the same files and the same result, and formatters have been called alike. -/
structure Outcome.Alike (o o' : Outcome) : Prop where
  tree : o.tree = o'.tree
  result : o.result = o'.result
  calls : calls o.events = calls o'.events

/-- Two parts of batches end alike. What a failed part has put into its report is not seen. -/
inductive EndAlike : Progress × Option Failure → Progress × Option Failure → Prop
  | completed {p q : Progress} (h : p.Alike q) : EndAlike (p, none) (q, none)
  | failed {p q : Progress} (e : Failure) (tree : p.tree = q.tree)
      (calls : calls p.events = calls q.events) : EndAlike (p, some e) (q, some e)

variable {s : Settings} {a : Access} {p q : Progress} {x y z : Progress × Option Failure}
  {events more : List Event} {root : Path}

theorem calls_append (events more : List Event) :
    calls (events ++ more) = calls events ++ calls more := List.filterMap_append

theorem calls_eq_nil_iff : calls events = [] ↔ Unformatted events := by
  constructor
  · intro h name target hm
    have hn := List.filterMap_eq_nil_iff.mp h _ hm
    simp [Event.call?] at hn
  · intro h
    refine List.filterMap_eq_nil_iff.mpr fun event hm => ?_
    cases event with
    | formatting name target => exact absurd hm (h name target)
    | _ => rfl

theorem calls_emit (p : Progress) (h : Unformatted events) :
    calls (p.emit events).events = calls p.events := by
  rw [Progress.emit, calls_append, calls_eq_nil_iff.mpr h, List.append_nil]

theorem Quiet.unformatted (h : Quiet p q) (hp : Unformatted p.events) : Unformatted q.events := by
  obtain ⟨events, he, hu⟩ := h
  rw [he]
  exact unformatted_append hp hu

namespace Progress.Alike

theorem refl (p : Progress) : p.Alike p := ⟨rfl, rfl, rfl⟩

theorem symm (h : p.Alike q) : q.Alike p := ⟨h.tree.symm, h.report.symm, h.calls.symm⟩

theorem emit (p : Progress) (h : Unformatted events) : (p.emit events).Alike p :=
  ⟨rfl, rfl, calls_emit p h⟩

end Progress.Alike

theorem Outcome.Alike.refl (o : Outcome) : o.Alike o := ⟨rfl, rfl, rfl⟩

namespace EndAlike

theorem refl (x : Progress × Option Failure) : EndAlike x x := by
  obtain ⟨p, failure⟩ := x
  cases failure with
  | none => exact .completed (.refl p)
  | some e => exact .failed e rfl rfl

theorem symm (h : EndAlike x y) : EndAlike y x := by
  cases h with
  | completed h => exact .completed h.symm
  | failed e tree calls => exact .failed e tree.symm calls.symm

theorem trans (h : EndAlike x y) (h' : EndAlike y z) : EndAlike x z := by
  cases h with
  | completed h =>
    cases h' with
    | completed h' =>
      exact .completed ⟨h.tree.trans h'.tree, h.report.trans h'.report, h.calls.trans h'.calls⟩
  | failed e tree calls =>
    cases h' with
    | failed _ tree' calls' => exact .failed e (tree.trans tree') (calls.trans calls')

theorem tree (h : EndAlike x y) : x.1.tree = y.1.tree := by
  cases h with
  | completed h => exact h.tree
  | failed _ tree => exact tree

theorem failure (h : EndAlike x y) : x.2 = y.2 := by cases h <;> rfl

theorem exists_completed (h : EndAlike x (q, none)) : ∃ p, x = (p, none) ∧ p.Alike q := by
  cases h with
  | completed h => exact ⟨_, rfl, h⟩

theorem exists_failed {e : Failure} (h : EndAlike x (q, some e)) :
    ∃ p, x = (p, some e) ∧ p.tree = q.tree := by
  cases h with
  | failed e tree => exact ⟨_, rfl, tree⟩

/-- What is reported of a failure does not count. -/
theorem warned (e : Failure) (tree : p.tree = q.tree) (hc : calls p.events = calls q.events)
    (h : Unformatted events) (h' : Unformatted more) (c d : Prop) [Decidable c] [Decidable d] :
    EndAlike (if c then (p.emit events, some e) else (p, some e))
      (if d then (q.emit more, some e) else (q, some e)) := by
  have hp : EndAlike (if c then (p.emit events, some e) else (p, some e)) (p, some e) := by
    split
    · exact .failed e rfl (calls_emit p h)
    · exact .refl _
  have hq : EndAlike (if d then (q.emit more, some e) else (q, some e)) (q, some e) := by
    split
    · exact .failed e rfl (calls_emit q h')
    · exact .refl _
  exact hp.trans (.trans (.failed e tree hc) hq.symm)

theorem outcome (h : EndAlike x y) : (x.1.outcome x.2).Alike (y.1.outcome y.2) := by
  cases h with
  | completed h => exact ⟨h.tree, congrArg Except.ok h.report, h.calls⟩
  | failed _ tree calls => exact ⟨tree, rfl, calls⟩

end EndAlike

theorem commit_alike (s : Settings) (a : Access) (h : p.Alike q) (x : Projected) :
    EndAlike (commit s a p x) (commit s a q x) := by
  obtain ⟨t, r, events⟩ := p
  obtain ⟨u, r', events'⟩ := q
  obtain ⟨rfl, rfl, hc⟩ := h
  unfold commit
  split
  · exact .completed ⟨rfl, rfl, hc⟩
  · split
    · exact .completed ⟨rfl, rfl, hc⟩
    · dsimp only
      cases t.overwrite a x.file.location x.output.toUTF8 with
      | mk u refusal =>
        cases refusal with
        | none => exact .completed ⟨rfl, rfl, hc⟩
        | some r => exact .failed _ rfl hc

theorem commitAll_alike (s : Settings) (a : Access) (h : p.Alike q) (xs : List Projected) :
    EndAlike (commitAll s a p xs) (commitAll s a q xs) := by
  induction xs generalizing p q with
  | nil => exact .completed h
  | cons x xs ih =>
    have hx := commit_alike s a h x
    rw [commitAll, commitAll]
    generalize commit s a p x = c at hx ⊢
    generalize commit s a q x = d at hx ⊢
    cases hx with
    | completed h => exact ih h
    | failed e tree calls =>
      exact .warned e tree calls (by simp [Unformatted]) (by simp [Unformatted]) _ _

theorem runFormatters_alike (root : Path) (h : p.Alike q) (fs : List Formatter) :
    EndAlike (runFormatters root p fs) (runFormatters root q fs) := by
  induction fs generalizing p q with
  | nil => exact .completed h
  | cons f fs ih =>
    obtain ⟨t, r, events⟩ := p
    obtain ⟨u, r', events'⟩ := q
    obtain ⟨rfl, rfl, hc⟩ := h
    have hcalls (more : List Event) : calls (events ++ more) = calls (events' ++ more) := by
      rw [calls_append, calls_append, hc]
    rw [runFormatters, runFormatters]
    cases (f.run root t).failure with
    | none => exact ih ⟨rfl, rfl, hcalls _⟩
    | some e =>
      refine EndAlike.warned e ?_ ?_ ?_ ?_ _ _
      · rfl
      · exact hcalls _
      · simp [Unformatted]
      · simp [Unformatted]

end StructProjection
