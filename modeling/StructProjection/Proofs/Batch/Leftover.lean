import StructProjection.Proofs.Batch.DryRun

/-! # What a failed batch leaves behind

A batch that fails before it writes leaves everything as it is. The other failures are those that are
said to leave files written.
-/

namespace StructProjection

open Files

variable {s : Settings} {a : Access} {t : Tree} {p : Progress} {f : Found} {fs : List Found}
  {e : Failure} {root : Path} {formatters : List Formatter}

/-- A formatter fails as a tool that runs a program does: the program cannot be started, or it ends
without success. -/
def Formatter.FailsAsTool (f : Formatter) : Prop :=
  ∀ target t e, (f.run target t).failure = some e →
    (∃ tool r, e = .starting tool r) ∨ ∃ tool status output, e = .formatting tool status output

theorem Tool.formatterOf_failsAsTool (programs : Shell.Programs) (tool : Tool) :
    (tool.formatterOf programs).FailsAsTool := by
  intro target t e h
  dsimp only [Tool.formatterOf] at h
  split at h
  · exact .inl ⟨_, _, (Option.some.inj h).symm⟩
  · split at h
    · exact .inr ⟨_, _, _, (Option.some.inj h).symm⟩
    · split at h <;> simp at h

theorem Tool.failsAsTool_of_mem_map {programs : Shell.Programs} {tools : List Tool} {f : Formatter}
    (h : f ∈ tools.map (Tool.formatterOf programs)) : f.FailsAsTool := by
  obtain ⟨tool, -, rfl⟩ := List.mem_map.mp h
  exact tool.formatterOf_failsAsTool programs

theorem Formatter.FailsAsTool.mayLeavePartialBatch {f : Formatter} (h : f.FailsAsTool)
    {target : Path} (he : (f.run target t).failure = some e) (commit : CommitMode) :
    e.mayLeavePartialBatch commit = true := by
  rcases h target t e he with ⟨tool, r, rfl⟩ | ⟨tool, status, output, rfl⟩ <;> rfl

theorem Unprojectable.mayLeavePartialBatch (h : Unprojectable s a t f e) :
    e.mayLeavePartialBatch .failFast = true := by cases h <;> rfl

theorem commit_failure {x : Projected} (h : (commit s a p x).2 = some e) (commit : CommitMode) :
    e.mayLeavePartialBatch commit = true := by
  obtain ⟨u, -, ⟨hc, -⟩ | ⟨-, r, hc⟩⟩ := commit_outcome s a p x
  · simp [hc] at h
  · obtain rfl : Failure.writing x.file.path r = e := by simpa [hc] using h
    rfl

theorem handle_failure (h : (handle s a p f).2 = some e) :
    e.mayLeavePartialBatch .failFast = true := by
  have hc := projectFile_cases s a p.tree f
  rw [handle] at h
  generalize projectFile s a p.tree f = c at hc h
  obtain ⟨events, result⟩ := c
  rcases hc with ⟨e', rfl, he⟩ | ⟨text, output, rfl, -⟩
  · obtain rfl := Option.some.inj h
    exact he.mayLeavePartialBatch
  · exact commit_failure h .failFast

theorem runFailFast_failure (h : (runFailFast s a p fs).2 = some e) :
    e.mayLeavePartialBatch .failFast = true := by
  induction fs generalizing p with
  | nil => simp [runFailFast] at h
  | cons f fs ih =>
    rcases hh : handle s a p f with ⟨p', _ | e'⟩
    · rw [runFailFast_of_handled _ hh] at h
      exact ih h
    · obtain ⟨p'', hr, -⟩ := runFailFast_of_failed fs hh
      obtain rfl : e' = e := by simpa [hr] using h
      exact handle_failure (congrArg Prod.snd hh)

/-- Nothing is written before all files are projected. -/
theorem runStaged_failure (h : (runStaged s a p fs).2 = some e) :
    (runStaged s a p fs).1.tree = p.tree ∨ e.mayLeavePartialBatch .staged = true := by
  rw [runStaged] at h ⊢
  generalize stage s a p.tree fs = c at h ⊢
  obtain ⟨events, _ | xs⟩ := c
  · exact .inl rfl
  · right
    dsimp only at h
    rcases commitAll_outcome s a (p.emit (events ++ [.staged xs.length])) xs with
      ⟨u, hc, -⟩ | ⟨-, p', x, r, -, hc⟩
    · simp [hc] at h
    · obtain rfl : Failure.writing x.file.path r = e := by simpa [hc] using h
      rfl

theorem rewriteFiles_failure (h : (rewriteFiles s a p fs).2 = some e) :
    (rewriteFiles s a p fs).1.tree = p.tree ∨ e.mayLeavePartialBatch s.commit = true := by
  unfold rewriteFiles at h ⊢
  cases hc : s.commit with
  | failFast =>
    rw [hc] at h
    exact .inr (runFailFast_failure h)
  | staged =>
    rw [hc] at h
    exact runStaged_failure h

theorem finish_failure {x : Progress × Option Failure} {dryRun : Bool}
    (hf : ∀ f ∈ formatters, f.FailsAsTool)
    (he : (finish dryRun formatters root x).result = .error e) :
    x.2 = some e ∧ (finish dryRun formatters root x).tree = x.1.tree ∨
      ∀ commit, e.mayLeavePartialBatch commit = true := by
  obtain ⟨p, _ | e'⟩ := x
  · right
    cases dryRun with
    | true => simp [finish, Progress.outcome] at he
    | false =>
      rw [finish_of_completed rfl] at he
      rcases runFormatters_outcome root p formatters with ⟨p', hr, -⟩ | ⟨f, hmem, u, e', hu, hr⟩
      · simp [hr, Progress.outcome] at he
      · obtain rfl : e' = e := by simpa [hr, Progress.outcome] using he
        exact (hf f hmem).mayLeavePartialBatch hu
  · obtain rfl : e' = e := by simpa [finish, Progress.outcome] using he
    exact .inl ⟨rfl, rfl⟩

/-- A failed batch that has changed something has not been a dry run, and its failure is one that may
leave files written. -/
theorem runBatch_changed (hf : ∀ f ∈ formatters, f.FailsAsTool)
    (he : (runBatch s formatters a root t).result = .error e)
    (hc : (runBatch s formatters a root t).tree ≠ t) :
    e.mayLeavePartialBatch s.commit = true ∧ s.dryRun = false := by
  have hd : s.dryRun = false := by
    by_contra h
    exact hc (runBatch_dry (by simpa using h) formatters a root t).1
  refine ⟨?_, hd⟩
  rcases runBatch_cases s root t with ⟨e', h⟩ | ⟨found, hfound, hs⟩
  · rw [h s rfl] at hc
    exact absurd rfl hc
  · rw [runBatch_of_found hs hfound] at he hc
    rcases finish_failure hf he with ⟨hx, htree⟩ | h
    · rcases rewriteFiles_failure hx with hp | h
      · exact absurd (htree.trans hp) hc
      · exact h
    · exact h s.commit

end StructProjection
