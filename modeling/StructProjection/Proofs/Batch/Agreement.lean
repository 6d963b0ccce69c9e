import StructProjection.Proofs.Batch.Staged

/-! # The two modes of a batch agree when it succeeds -/

namespace StructProjection

open Files

variable {s : Settings} {a : Access} {t : Tree} {p : Progress} {fs : List Found} {root : Path}
  {o o' : Outcome}

/-- Either it makes no difference in which mode files are written, or some file has no projection and
both modes fail. -/
theorem rewriteFiles_alike_or_failed (s : Settings) (a : Access) (p : Progress)
    (hn : (fs.map (·.location)).Nodup) :
    EndAlike (rewriteFiles { s with commit := .failFast } a p fs)
        (rewriteFiles { s with commit := .staged } a p fs) ∨
      ∀ mode, ∃ e, (rewriteFiles { s with commit := mode } a p fs).2 = some e := by
  have hstrip (mode : CommitMode) : s.strip = { s with commit := mode }.strip := rfl
  have hdry (mode : CommitMode) : s.dryRun = { s with commit := mode }.dryRun := rfl
  rcases allProject_or_exists_unprojectable s a p.tree fs with
    hp | ⟨before, f, after, e, rfl, hb, hf⟩
  · left
    obtain ⟨events, xs, hs, -⟩ := exists_stage hp
    -- Either mode comes to writing the projections of the files as they are in the beginning.
    have hmode (mode : CommitMode) :
        EndAlike (rewriteFiles { s with commit := mode } a p fs) (commitAll s a p xs) := by
      rw [stage_congr (hstrip mode)] at hs
      rw [commitAll_congr (hdry mode)]
      exact rewriteFiles_of_stage hn hs
    exact (hmode .failFast).trans (hmode .staged).symm
  · right
    intro mode
    rcases rewriteFiles_of_unprojectable hn (hb.congr (hstrip mode)) (hf.congr (hstrip mode)) with
      h | ⟨-, -, g, -, r, h⟩
    · exact ⟨_, h⟩
    · exact ⟨_, h⟩

/-- A batch succeeds in one mode if and only if it succeeds in the other. Then both leave the same
files, report the same and call the same formatters. -/
theorem runBatch_modes_agree (ht : t.Proper) (s : Settings) (formatters : List Formatter)
    (a : Access) (root : Path) :
    let eager := runBatch { s with commit := .failFast } formatters a root t
    let staged := runBatch { s with commit := .staged } formatters a root t
    (eager.result.isOk ↔ staged.result.isOk) ∧ (eager.result.isOk → eager.Alike staged) := by
  intro eager staged
  suffices h : eager.Alike staged ∨ ¬ eager.result.isOk ∧ ¬ staged.result.isOk by
    rcases h with h | ⟨h, h'⟩
    · exact ⟨by rw [h.result], fun _ => h⟩
    · exact ⟨by simp [h, h'], fun he => absurd he h⟩
  rcases runBatch_cases s root t with ⟨e, he⟩ | ⟨found, hf, hs⟩
  · left
    have hrun (mode : CommitMode) :
        runBatch { s with commit := mode } formatters a root t = ⟨t, [], .error e⟩ :=
      he { s with commit := mode } rfl formatters a
    have h : eager = staged := (hrun .failFast).trans (hrun .staged).symm
    exact h ▸ .refl eager
  · have hn := nodup_selected ht (select_of_found s hf)
    have hrun (mode : CommitMode) : runBatch { s with commit := mode } formatters a root t =
        finish s.dryRun formatters root (rewriteFiles { s with commit := mode } a
          (selected s root t found) (Selection.ofFound s found).files) := by
      have hs' : { s with commit := mode }.fault? = none := hs
      exact runBatch_of_found hs' hf formatters a
    rcases rewriteFiles_alike_or_failed s a (selected s root t found) hn with h | h
    · left
      have halike := finish_alike s.dryRun formatters root h
      rwa [← hrun, ← hrun] at halike
    · right
      have hfailed (mode : CommitMode) :
          ¬ (runBatch { s with commit := mode } formatters a root t).result.isOk := by
        obtain ⟨e, he⟩ := h mode
        rw [hrun, finish_of_failed he]
        simp [Progress.outcome, Except.isOk, Except.toBool]
      exact ⟨hfailed .failFast, hfailed .staged⟩

/-- A formatter that empties the first message. -/
def emptying : Formatter :=
  ⟨"emptying", fun _ t => ⟨t.setContent [messageName 0x61] .empty, [], none⟩⟩

/-- There is room for the three projections. -/
theorem result_messages :
    (runBatch { strip := .none } [emptying] (.limited (some 40)) ⟨[0x2E]⟩ messages).result =
      .ok ⟨[0x61, 0x62, 0x63].map fun letter => (messageFile letter).path, [], [], ["emptying"],
        false⟩ := by
  have hx : select messages ⟨[0x2E]⟩ { strip := .none } = _ := select_messages
  obtain ⟨found, hf, hfiles⟩ := exists_found_of_select hx
  have hall : ∀ f ∈ [0x61, 0x62, 0x63].map messageFile, ∃ text output,
      Succeeds { strip := .none } (.limited (some 40)) messages f text output := by
    intro f hf
    obtain ⟨letter, hl, rfl⟩ := List.mem_map.mp hf
    refine ⟨message, keptMessage, projects_messages hl rfl rfl, fun _ => ⟨rfl, ?_⟩⟩
    intro n hn
    obtain rfl : 40 = n := by simpa [Access.limited] using hn
    decide +kernel
  obtain ⟨p, xs, hr, hxs, hreport⟩ := rewriteFiles_of_succeeds rfl
    (selected { strip := .none } ⟨[0x2E]⟩ messages found) (nodup_selected proper_messages hx) hall
  have hstaged : ∀ letter ∈ [0x61, 0x62, 0x63], ∀ x,
      StagedAs { strip := .none } (.limited (some 40)) messages (messageFile letter) x →
        x = ⟨messageFile letter, keptMessage, true⟩ := by
    rintro letter hl _ ⟨hp⟩
    obtain ⟨rfl, rfl⟩ := (projects_messages hl rfl rfl).unique hp
    rw [decide_eq_true keptMessage_ne_message]
  have hlist : xs =
      [0x61, 0x62, 0x63].map fun letter => ⟨messageFile letter, keptMessage, true⟩ := by
    rcases hxs with _ | ⟨h₁, _ | ⟨h₂, _ | ⟨h₃, _ | _⟩⟩⟩
    rw [hstaged 0x61 (by simp) _ h₁, hstaged 0x62 (by simp) _ h₂, hstaged 0x63 (by simp) _ h₃]
    rfl
  have hfault : Settings.fault? { strip := .none } = none := by decide +kernel
  have hrun := runBatch_of_found hfault hf [emptying] (.limited (some 40))
  rw [← hfiles] at hrun
  rw [hrun, hr]
  have hok : (finish false [emptying] ⟨[0x2E]⟩ (p, none)).result =
      .ok { p.report with formattersRun := p.report.formattersRun ++ ["emptying"] } := rfl
  rw [hok, hreport, hlist, selected, ← hfiles]
  rfl

/-- No file can grow beyond 40 bytes. Both modes write the three messages, and the formatter is
called in either. -/
theorem runBatch_modes_agree_messages :
    let eager := runBatch { strip := .none } [emptying] (.limited (some 40)) ⟨[0x2E]⟩ messages
    let staged := runBatch { strip := .none, commit := .staged } [emptying] (.limited (some 40))
      ⟨[0x2E]⟩ messages
    eager.result.isOk ∧ staged.result = eager.result ∧ staged.tree = eager.tree ∧
      calls staged.events = calls eager.events := by
  intro eager staged
  have hok : eager.result.isOk := by
    rw [result_messages]
    rfl
  have halike : eager.Alike staged := (runBatch_modes_agree proper_messages { strip := .none }
    [emptying] (.limited (some 40)) ⟨[0x2E]⟩).2 hok
  exact ⟨hok, halike.result.symm, halike.tree.symm, halike.calls.symm⟩

end StructProjection
