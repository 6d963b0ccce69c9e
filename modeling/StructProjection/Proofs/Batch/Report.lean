import StructProjection.Proofs.Batch.DryRun
import StructProjection.Proofs.Batch.Frame

/-! # What a batch reports

A batch that succeeds has projected all its files, whatever its mode. Its report lists those that it
has changed and those that it has left as they were.
-/

namespace StructProjection

open Text Files Go

variable {s : Settings} {a : Access} {t u : Tree} {p p' : Progress} {f : Found} {fs : List Found}
  {x : Projected} {xs : List Projected} {root : Path} {formatters : List Formatter} {r : Report}

theorem exists_stagedAs (h : List.Forall₂ (StagedAs s a t) fs xs) (hf : f ∈ fs) :
    ∃ x ∈ xs, StagedAs s a t f x := by
  induction h with
  | nil => simp at hf
  | cons hx _ ih =>
    rcases List.mem_cons.mp hf with rfl | hf
    · exact ⟨_, by simp, hx⟩
    · obtain ⟨x, hm, hx⟩ := ih hf
      exact ⟨x, List.mem_cons_of_mem _ hm, hx⟩

/-- Files that a batch gets through are all projected as they were in the beginning, and are reported
by their projections. -/
theorem rewriteFiles_reported (hn : (fs.map (·.location)).Nodup)
    (h : rewriteFiles s a p fs = (p', none)) :
    ∃ xs, List.Forall₂ (StagedAs s a p.tree) fs xs ∧ p'.report = xs.foldl Report.add p.report := by
  rcases allProject_or_exists_unprojectable s a p.tree fs with
    hp | ⟨before, f, after, e, rfl, hb, hf⟩
  · obtain ⟨events, xs, hs, hxs⟩ := exists_stage hp
    rcases rewriteFiles_outcome hn hs with ⟨q, hr, hreport⟩ | ⟨-, f, -, r, hr⟩
    · obtain ⟨rfl, -⟩ := Prod.mk.inj (h.symm.trans hr)
      exact ⟨xs, hxs, hreport⟩
    · simp [h] at hr
  · rcases rewriteFiles_of_unprojectable hn hb hf with hr | ⟨-, -, g, -, r, hr⟩
    · simp [h] at hr
    · simp [h] at hr

/-- Unless the run is dry, they hold their projections then. -/
theorem rewriteFiles_completed (hd : s.dryRun = false) (hn : (fs.map (·.location)).Nodup)
    (h : rewriteFiles s a p fs = (p', none)) : Completed s a p.tree fs p'.tree := by
  obtain ⟨xs, hxs, -⟩ := rewriteFiles_reported hn h
  obtain ⟨events, ys, hs, -⟩ := exists_stage (allProject_of_stagedAs hxs)
  -- Either mode leaves the files as a batch that fails fast.
  have halike := (rewriteFiles_of_stage hn hs).trans (runFailFast_of_stage hn hs).symm
  rw [h] at halike
  have hfailure := halike.failure
  rcases runFailFast_cases hd a p hn with ⟨q, hq, hc, -⟩ | ⟨before, f, after, q, e, -, hq, -⟩
  · rw [halike.tree, hq]
    exact hc
  · simp [hq] at hfailure

/-- A batch that succeeds has got through the files that it has selected, and the formatters have left
the lists of files in its report as they were. -/
theorem exists_rewriteFiles_of_runBatch (h : (runBatch s formatters a root t).result = .ok r) :
    ∃ found p, findFiles t root = .ok found ∧
      rewriteFiles s a (selected s root t found) (Selection.ofFound s found).files = (p, none) ∧
      runBatch s formatters a root t = finish s.dryRun formatters root (p, none) ∧
      r = { p.report with formattersRun := r.formattersRun } := by
  rcases runBatch_cases s root t with ⟨e, he⟩ | ⟨found, hf, hs⟩
  · simp [he s rfl] at h
  · have hrun := runBatch_of_found hs hf formatters a
    cases hr : rewriteFiles s a (selected s root t found) (Selection.ofFound s found).files with
    | mk p failure =>
      rw [hr] at hrun
      rw [hrun] at h
      cases failure with
      | some e => simp [finish_of_failed, Progress.outcome] at h
      | none =>
        refine ⟨found, p, hf, hr, hrun, ?_⟩
        cases hd : s.dryRun with
        | true =>
          rw [hd] at h
          obtain rfl : p.report = r := Except.ok.inj h
          rfl
        | false =>
          rw [hd] at h
          rcases finish_completed p formatters root with hok | ⟨_, -, _, e, -, herr⟩
          · obtain rfl := Except.ok.inj (hok.symm.trans h)
            rfl
          · simp [herr] at h

/-- What a batch that succeeds reports of the files that it has selected, also in a dry run. -/
structure Report.ListsStaged (xs : List Projected) (y : Selection) (r : Report) : Prop where
  projected_eq : r.projected = (xs.filter (·.changed)).map (·.file.path)
  unchanged_eq : r.unchanged = (xs.filter (!·.changed)).map (·.file.path)
  excluded_eq : r.excluded = y.excluded.map (·.path)

theorem listsStaged_of_reported {found : List Found} {q : Progress}
    (h : q.report = xs.foldl Report.add (selected s root t found).report)
    (hr : r = { q.report with formattersRun := r.formattersRun }) :
    r.ListsStaged xs (Selection.ofFound s found) := by
  rw [foldl_add] at h
  rw [h] at hr
  rw [hr]
  exact ⟨by simp [selected], by simp [selected], rfl⟩

/-- A file with its projection is changed if the file holds something else afterwards. -/
theorem StagedAs.changed_iff (h : StagedAs s a t f x) (hw : Written s a t fs u) (hf : f ∈ fs) :
    x.changed ↔ u.content f.location ≠ t.content f.location := by
  obtain @⟨text, output, hp⟩ := h
  obtain ⟨text', output', hs, hc⟩ := hw f hf
  obtain ⟨rfl, rfl⟩ := hp.unique hs.toProjects
  rw [hc, Tree.content_of_read hp.read]
  simp [String.toByteArray_inj]

/-- A report on a batch that has selected files and turned a tree into another tells the truth: it
splits the files into those that hold something else than before and those that do not, and all of
them hold their projections. -/
structure Report.Truthful (s : Settings) (y : Selection) (t u : Tree) (r : Report) : Prop where
  projected_sublist : r.projected.Sublist (y.files.map (·.path))
  unchanged_sublist : r.unchanged.Sublist (y.files.map (·.path))
  disjoint : r.projected.Disjoint r.unchanged
  once : ∀ f ∈ y.files, (r.projected ++ r.unchanged).count f.path = 1
  excluded_eq : r.excluded = y.excluded.map (·.path)
  rewritten : ∀ f ∈ y.files, ∃ text output, t.content f.location = some text.toUTF8 ∧
    project text s.strip = .ok output ∧ u.content f.location = some output.toUTF8
  mem_projected_iff : ∀ f ∈ y.files,
    f.path ∈ r.projected ↔ u.content f.location ≠ t.content f.location

theorem nodup_paths (ht : t.Proper) (hn : t.WellNamed) {y : Selection}
    (h : select t root s = .ok y) : (y.files.map (·.path)).Nodup := by
  obtain ⟨found, hw, rfl⟩ := Selection.exists_walk_of_select h
  have ho : InPathOrder found := Tree.pairwise_components ht hn hw
  have hfiles : (Selection.ofFound s found).files.Sublist found := List.filter_sublist
  exact InPathOrder.nodup (ho.sublist hfiles)

/-- A report made from the projections of files that have been written is true. -/
theorem truthful_of_completed {y : Selection} (hn : (y.files.map (·.path)).Nodup)
    (hxs : List.Forall₂ (StagedAs s a t) y.files xs) (hc : Completed s a t y.files u)
    (hr : r.ListsStaged xs y) : r.Truthful s y t u := by
  have hfiles : y.files.map (·.path) = xs.map (·.file.path) := by
    rw [← map_file_of_stagedAs hxs, List.map_map]
    rfl
  have hperm : (r.projected ++ r.unchanged).Perm (y.files.map (·.path)) := by
    rw [hr.projected_eq, hr.unchanged_eq, hfiles, ← List.map_append]
    exact (List.filter_append_perm (·.changed) xs).map _
  have hnodup := hperm.nodup_iff.mpr hn
  refine ⟨?_, ?_, (List.nodup_append'.mp hnodup).2.2, fun f hf => ?_,
    hr.excluded_eq, fun f hf => ?_, fun f hf => ?_⟩
  · rw [hr.projected_eq, hfiles]
    exact List.filter_sublist.map _
  · rw [hr.unchanged_eq, hfiles]
    exact List.filter_sublist.map _
  · exact List.count_eq_one_of_mem hnodup (hperm.mem_iff.mpr (List.mem_map_of_mem hf))
  · obtain ⟨text, output, hs, hout⟩ := hc.written f hf
    exact ⟨text, output, Tree.content_of_read hs.read, hs.projected, hout⟩
  · obtain ⟨x, hx, hfx⟩ := exists_stagedAs hxs hf
    rw [← hfx.changed_iff hc.written hf, hr.projected_eq, List.mem_map]
    constructor
    · rintro ⟨z, hz, hpath⟩
      obtain ⟨hz, hchanged⟩ := List.mem_filter.mp hz
      rw [hfiles] at hn
      rwa [List.inj_on_of_nodup_map hn hx hz (by rw [hfx.file_eq, hpath])]
    · intro hchanged
      exact ⟨x, List.mem_filter.mpr ⟨hx, hchanged⟩, by rw [hfx.file_eq]⟩

/-- A batch that succeeds reports the truth, in either mode, if its formatters only look at files. -/
theorem runBatch_truthful (ht : t.Proper) (hn : t.WellNamed) (hd : s.dryRun = false)
    (hl : ∀ f ∈ formatters, f.LeavesFiles) (a : Access)
    (h : (runBatch s formatters a root t).result = .ok r) :
    ∃ y, select t root s = .ok y ∧ r.Truthful s y t (runBatch s formatters a root t).tree := by
  obtain ⟨found, p, hf, hp, hrun, hr⟩ := exists_rewriteFiles_of_runBatch h
  have hy := select_of_found s hf
  have hnodup := nodup_selected ht hy
  obtain ⟨xs, hxs, hreport⟩ := rewriteFiles_reported hnodup hp
  refine ⟨_, hy, ?_⟩
  rw [hrun, tree_finish hl]
  exact truthful_of_completed (nodup_paths ht hn hy) hxs (rewriteFiles_completed hd hnodup hp)
    (listsStaged_of_reported hreport hr)

/-- A message beside its own projection. -/
def mixedMessages : Tree :=
  ⟨[(messageName 0x61, .file message.toUTF8), (messageName 0x62, .file keptMessage.toUTF8)]⟩

theorem proper_mixedMessages : mixedMessages.Proper :=
  .folder (by decide +kernel) (by simp [mixedMessages, Entry.Proper.file])

theorem wellNamed_mixedMessages : mixedMessages.WellNamed := by
  have hn : ∀ n ∈ mixedMessages.entries.map (·.1), n.Legal := by decide +kernel
  exact .folder (fun x hx => hn x.1 (List.mem_map_of_mem hx))
    (by simp [mixedMessages, Entry.WellNamed.file])

theorem findFiles_mixedMessages :
    findFiles mixedMessages ⟨[0x2E]⟩ = .ok [messageFile 0x61, messageFile 0x62] := by
  have hr : mixedMessages.resolve ⟨[0x2E]⟩ false = .ok [] := by decide +kernel
  have hw : mixedMessages.walk ⟨[0x2E]⟩ =
      .ok (Entry.files ⟨[0x2E]⟩ [] (Path.fileName ⟨[0x2E]⟩) mixedMessages.root) := by
    rw [Tree.walk, hr]
    rfl
  rw [findFiles, hw, Tree.root, Entry.files_folder_of_sorted _ _ _ (by decide +kernel)]
  refine congrArg Except.ok ?_
  decide +kernel

theorem select_mixedMessages : select mixedMessages ⟨[0x2E]⟩ { strip := .none } =
    .ok ⟨[messageFile 0x61, messageFile 0x62], []⟩ := by
  rw [select_of_found _ findFiles_mixedMessages]
  refine congrArg Except.ok ?_
  decide +kernel

theorem outline_keptMessage : outline keptMessage = .ok
    ⟨none, [⟨.packageClause, ⟨0, 0⟩, ⟨9, 0⟩, none, []⟩,
      ⟨.declaration .type, ⟨11, 2⟩, ⟨26, 2⟩, none, [⟨"A", .struct⟩]⟩]⟩ :=
  outline_of_plain (by decide +kernel) (by decide +kernel)

theorem project_keptMessage : project keptMessage .none = .ok keptMessage := by
  rw [project, projectWith, outline_keptMessage]
  decide +kernel

theorem succeeds_mixedMessages : ∀ f ∈ [messageFile 0x61, messageFile 0x62], ∃ text output,
    Succeeds { strip := .none } .free mixedMessages f text output := by
  have hfirst : Succeeds { strip := .none } .free mixedMessages (messageFile 0x61) message
      keptMessage := ⟨⟨rfl, project_message⟩, fun _ => ⟨rfl, by simp [Access.free]⟩⟩
  have hsecond : Succeeds { strip := .none } .free mixedMessages (messageFile 0x62) keptMessage
      keptMessage := ⟨⟨rfl, project_keptMessage⟩, fun hne => absurd rfl hne⟩
  simpa using ⟨⟨_, _, hfirst⟩, ⟨_, _, hsecond⟩⟩

/-- Looks at files and has nothing to say. -/
def approving : Formatter := ⟨"vet", fun _ t => ⟨t, [], none⟩⟩

theorem result_mixedMessages : ∃ r,
    (runBatch { strip := .none } [approving] .free ⟨[0x2E]⟩ mixedMessages).result = .ok r := by
  obtain ⟨found, hf, hfiles⟩ := exists_found_of_select select_mixedMessages
  obtain ⟨p, xs, hr, -⟩ := rewriteFiles_of_succeeds rfl
    (selected { strip := .none } ⟨[0x2E]⟩ mixedMessages found)
    (nodup_selected proper_mixedMessages select_mixedMessages) succeeds_mixedMessages
  rw [runBatch_of_found (by decide +kernel) hf, ← hfiles, hr]
  exact ⟨_, rfl⟩

/-- The message is reported as changed and its projection beside it as unchanged. -/
theorem runBatch_truthful_mixedMessages :
    ∃ r, (runBatch { strip := .none } [approving] .free ⟨[0x2E]⟩ mixedMessages).result = .ok r ∧
      (messageFile 0x61).path ∈ r.projected ∧ (messageFile 0x62).path ∈ r.unchanged := by
  obtain ⟨r, hr⟩ := result_mixedMessages
  have hl : ∀ f ∈ [approving], f.LeavesFiles := by simp [approving, Formatter.LeavesFiles]
  obtain ⟨y, hy, h⟩ :=
    runBatch_truthful proper_mixedMessages wellNamed_mixedMessages rfl hl .free hr
  obtain rfl := Except.ok.inj (hy.symm.trans select_mixedMessages)
  have hleft : ∀ f ∈ [messageFile 0x61, messageFile 0x62], ∀ text output,
      mixedMessages.content f.location = some text.toUTF8 → project text .none = .ok output →
        (f.path ∈ r.projected ↔ output ≠ text) := by
    intro f hf text output ht hp
    obtain ⟨text', output', ht', hp', hu⟩ := h.rewritten f hf
    obtain rfl := String.toByteArray_inj.mp (Option.some.inj (ht.symm.trans ht'))
    obtain rfl := Except.ok.inj (hp.symm.trans hp')
    rw [h.mem_projected_iff f hf, hu, ht]
    simp [String.toByteArray_inj]
  refine ⟨r, hr, ?_, ?_⟩
  · exact (hleft (messageFile 0x61) (by simp) message _ rfl project_message).mpr
      keptMessage_ne_message
  · have hnot := (hleft (messageFile 0x62) (by simp) keptMessage _ rfl project_keptMessage).not.mpr
      (by simp)
    have honce := h.once (messageFile 0x62) (by simp)
    rw [List.count_append, List.count_eq_zero.mpr hnot, Nat.zero_add] at honce
    exact List.count_pos_iff.mp (by omega)

end StructProjection
