import StructProjection.Command.Run
import StructProjection.Proofs.Batch.Leftover

/-! # The command warns where files can be left written -/

namespace StructProjection.Command

open Files

variable {s : Settings} {formatters : List Formatter} {programs : Shell.Programs} {call : Call}
  {a : Arguments} {t : Tree} {access : Access} {root : Path} {e : Failure}

theorem partialBatchNote_of_mayLeavePartialBatch
    (h : e.mayLeavePartialBatch s.commit = true ∧ s.dryRun = false) :
    partialBatchNote s root e = some (.partialBatch root) := by simp [partialBatchNote, h]

private theorem read_empty : Filter.read "" = ⟨[], []⟩ := by
  have hparts : "".splitOn "," = [""] := by
    rw [String.splitOn, if_neg (by decide), String.splitOnAux]
    decide
  rw [Filter.read, hparts]
  rfl

/-- Without a filter, a warning is shown at every level that the arguments can ask for. -/
theorem shows_read_empty {n : Event} (h : n.level = .warn) (verbosity : Nat) :
    (Filter.read "").shows (levelOf verbosity) n = true := by
  have hlevel : Level.warn.rank ≤ (levelOf verbosity).rank := by
    unfold levelOf
    split <;> decide
  rw [read_empty]
  exact decide_eq_true (h ▸ hlevel)

theorem runAll_changed (hf : ∀ f ∈ formatters, f.FailsAsTool)
    (hfailed : (runAll s formatters access root t).2.2.isSome)
    (hc : (runAll s formatters access root t).1 ≠ t) :
    Line.event (.partialBatch root) ∈ (runAll s formatters access root t).2.1 := by
  unfold runAll at hfailed hc ⊢
  cases hr : (runBatch s formatters access root t).result with
  | ok report => simp [hr] at hfailed
  | error e =>
    simp only [hr] at hc ⊢
    have hn : partialBatchNote s root e = some (.partialBatch root) :=
      partialBatchNote_of_mayLeavePartialBatch (runBatch_changed hf hr hc)
    simp [hn]

/-- A command that has failed and has changed something has emitted a warning. -/
theorem execute_changed (hfailed : (execute programs call a t).2.2.isSome)
    (hc : (execute programs call a t).1 ≠ t) :
    Line.event (.partialBatch (.ofString a.path)) ∈ (execute programs call a t).2.1 := by
  unfold execute at hfailed hc ⊢
  dsimp only at hfailed hc ⊢
  split at hc
  · exact absurd rfl hc
  · next hpath =>
    rw [if_neg hpath] at hfailed ⊢
    generalize loadConfig call a t = loaded at hfailed hc ⊢
    obtain ⟨events, _ | config⟩ := loaded
    · exact absurd rfl hc
    · dsimp only at hfailed hc ⊢
      split at hc
      · exact absurd rfl hc
      · next hlist =>
        rw [if_neg hlist] at hfailed ⊢
        -- Whatever the programs do, the formatters that run them fail in two ways only.
        have hf : ∀ f ∈ if a.noFormat then [] else config.tools.map (Tool.formatterOf programs),
            f.FailsAsTool := by
          intro f hmem
          split at hmem
          · simp at hmem
          · exact Tool.failsAsTool_of_mem_map hmem
        exact List.mem_append_right _ (runAll_changed hf hfailed hc)

theorem runWith_changed (hfailed : (runWith programs call t).code ≠ 0)
    (hc : (runWith programs call t).tree ≠ t) :
    ∃ a, Arguments.read call.config call.arguments = .ok a ∧
      .event (.partialBatch (.ofString a.path)) ∈ (execute programs call a t).2.1 ∧
      (.event (.partialBatch (.ofString a.path)) ∈ (runWith programs call t).lines ↔
        (Filter.read (call.filter.getD "")).shows (levelOf a.verbosity)
          (.partialBatch (.ofString a.path)) = true) := by
  unfold runWith at hfailed hc ⊢
  cases hr : Arguments.read call.config call.arguments with
  | error stop =>
    rw [hr] at hc
    cases stop <;> exact absurd rfl hc
  | ok a =>
    rw [hr] at hfailed hc
    dsimp only at hfailed hc ⊢
    have hsome : (execute programs call a t).2.2.isSome := by
      by_contra h
      simp [h] at hfailed
    have hnote := execute_changed hsome hc
    refine ⟨a, rfl, hnote, ?_⟩
    rw [List.mem_filter]
    exact and_iff_right hnote

/-- A batch that fails and has changed something is one that is warned of, and so is one that the
command runs. The warning is shown unless the filter hides it. -/
theorem partialBatch_warned (hf : ∀ f ∈ formatters, f.FailsAsTool) :
    (∀ s access root t e, (runBatch s formatters access root t).result = .error e →
      (runBatch s formatters access root t).tree ≠ t →
        (e.mayLeavePartialBatch s.commit = true ∧ s.dryRun = false) ∧
          partialBatchNote s root e = some (.partialBatch root)) ∧
      ∀ programs call t, (runWith programs call t).code ≠ 0 → (runWith programs call t).tree ≠ t →
        ∃ a, Arguments.read call.config call.arguments = .ok a ∧
          .event (.partialBatch (.ofString a.path)) ∈ (execute programs call a t).2.1 ∧
          (.event (.partialBatch (.ofString a.path)) ∈ (runWith programs call t).lines ↔
            (Filter.read (call.filter.getD "")).shows (levelOf a.verbosity)
              (.partialBatch (.ofString a.path)) = true) ∧
          (call.filter = none →
            .event (.partialBatch (.ofString a.path)) ∈ (runWith programs call t).lines) := by
  constructor
  · intro s access root t e he hc
    have h := runBatch_changed hf he hc
    exact ⟨h, partialBatchNote_of_mayLeavePartialBatch h⟩
  · intro programs call t hfailed hc
    obtain ⟨a, ha, hnote, hshown⟩ := runWith_changed hfailed hc
    refine ⟨a, ha, hnote, hshown, fun hnone => hshown.mpr ?_⟩
    rw [hnone]
    exact shows_read_empty rfl a.verbosity

def mainFile : Name := [0x6D, 0x61, 0x69, 0x6E, 0x2E, 0x67, 0x6F]

/-- A folder with a file that is not projected. -/
def handwritten : Tree := ⟨[(mainFile, .file "package main\n".toUTF8)]⟩

/-- Programs that empty the file and fail. -/
def clumsy : Shell.Programs := fun _ _ t =>
  .ok ⟨t.setContent [mainFile] .empty, [], [], .exit 2⟩

def clumsyTools : List Formatter := Tool.standard.map (Tool.formatterOf clumsy)

private theorem runBatch_handwritten :
    ∃ e, (runBatch {} clumsyTools .free ⟨[0x2E]⟩ handwritten).result = .error e ∧
      (runBatch {} clumsyTools .free ⟨[0x2E]⟩ handwritten).tree =
        ⟨[(mainFile, .file .empty)]⟩ := by
  have hr : handwritten.resolve ⟨[0x2E]⟩ false = .ok [] := by decide +kernel
  have hw : handwritten.walk ⟨[0x2E]⟩ =
      .ok (Entry.files ⟨[0x2E]⟩ [] (Path.fileName ⟨[0x2E]⟩) handwritten.root) := by
    rw [Tree.walk, hr]
    rfl
  have hf : findFiles handwritten ⟨[0x2E]⟩ =
      .ok [⟨⟨[0x2E, 0x2F] ++ mainFile⟩, [mainFile], mainFile⟩] := by
    rw [findFiles, hw, Tree.root, Entry.files_folder_of_sorted _ _ _ (by decide +kernel)]
    rfl
  have hx : (Selection.ofFound {} [⟨⟨[0x2E, 0x2F] ++ mainFile⟩, [mainFile], mainFile⟩]).files =
      [] := by decide +kernel
  rw [runBatch_of_found (by decide +kernel) hf, hx]
  exact ⟨_, rfl, rfl⟩

private theorem execute_handwritten :
    (execute clumsy ⟨[], none, none, ⟨[0x2F]⟩, .free⟩ {} handwritten).2.2.isSome ∧
      (execute clumsy ⟨[], none, none, ⟨[0x2F]⟩, .free⟩ {} handwritten).1 =
        ⟨[(mainFile, .file .empty)]⟩ := by
  obtain ⟨e, he, ht⟩ := runBatch_handwritten
  have hp : Path.ofString "." = ⟨[0x2E]⟩ := by decide +kernel
  have hexists : handwritten.pathExists ⟨[0x2E]⟩ = true := by decide +kernel
  have hload : loadConfig ⟨[], none, none, ⟨[0x2F]⟩, .free⟩ {} handwritten =
      ([.noConfig ⟨[0x2F]⟩], .ok {}) := by decide +kernel
  have hrun : runBatch (mergeSettings {} {}) (({} : Config).tools.map (Tool.formatterOf clumsy))
      .free ⟨[0x2E]⟩ handwritten = runBatch {} clumsyTools .free ⟨[0x2E]⟩ handwritten := rfl
  simp [execute, hp, hexists, hload, runAll, hrun, he, ht]

/-- Two formatters are configured. The first empties a file and fails. -/
theorem partialBatch_warned_handwritten :
    let call : Call := ⟨[], none, none, ⟨[0x2F]⟩, .free⟩
    (∃ e, (runBatch {} clumsyTools .free ⟨[0x2E]⟩ handwritten).result = .error e ∧
        partialBatchNote {} ⟨[0x2E]⟩ e = some (.partialBatch ⟨[0x2E]⟩)) ∧
      (runWith clumsy call handwritten).code = 1 ∧
      (runWith clumsy call handwritten).tree.content [mainFile] = some .empty ∧
      .event (.partialBatch (.ofString ".")) ∈ (runWith clumsy call handwritten).lines := by
  intro call
  have hf : ∀ f ∈ clumsyTools, f.FailsAsTool := fun f hmem => Tool.failsAsTool_of_mem_map hmem
  have hchanged : (⟨[(mainFile, .file .empty)]⟩ : Tree) ≠ handwritten := by
    intro h
    have hc := congrArg (fun t => t.content [mainFile]) h
    revert hc
    decide +kernel
  have hread : Arguments.read call.config call.arguments = .ok {} := by decide +kernel
  obtain ⟨e, he, ht⟩ := runBatch_handwritten
  obtain ⟨hfailed, htree⟩ := execute_handwritten
  have hcode : (runWith clumsy call handwritten).code = 1 := by
    simp [runWith, hread, hfailed, call]
  have htree' : (runWith clumsy call handwritten).tree = ⟨[(mainFile, .file .empty)]⟩ := by
    rw [runWith, hread]
    exact htree
  obtain ⟨hbatch, hcommand⟩ := partialBatch_warned hf
  obtain ⟨a, ha, -, -, hshown⟩ := hcommand clumsy call handwritten (by simp [hcode])
    (by rw [htree']; exact hchanged)
  obtain rfl : a = {} := by simpa [hread] using ha.symm
  refine ⟨⟨e, he, ?_⟩, hcode, ?_, hshown rfl⟩
  · exact (hbatch {} .free ⟨[0x2E]⟩ handwritten e he (by rw [ht]; exact hchanged)).2
  · rw [htree']
    rfl

end StructProjection.Command
