import StructProjection.Proofs.Batch.Report

/-! # The formatters of a batch

Formatters are called when all files are written. Each finds what the one before it has left, and
the first that fails is the last that is called.
-/

namespace StructProjection

open Files

variable {s : Settings} {a : Access} {t u : Tree} {p : Progress} {root : Path} {f : Formatter}
  {fs before : List Formatter} {events : List Event} {e : Failure}

/-- The formatters are called one after the other, and none of them fails. -/
inductive Passed (root : Path) : Tree → List Formatter → List Event → Tree → Prop
  | nil (t : Tree) : Passed root t [] [] t
  | cons {t u : Tree} {f : Formatter} {fs : List Formatter} {events : List Event}
      (passes : (f.run root t).failure = none) (h : Passed root (f.run root t).tree fs events u) :
      Passed root t (f :: fs) (.formatting f.name root :: (f.run root t).events ++ events) u

/-- The formatter calls no other. -/
def Formatter.Alone (f : Formatter) : Prop := ∀ target t, Unformatted (f.run target t).events

theorem Tool.alone_formatterOf (programs : Shell.Programs) (tool : Tool) :
    (tool.formatterOf programs).Alone := by
  intro target t name path
  dsimp only [Tool.formatterOf]
  split
  · simp
  · split
    · simp
    · split <;> simp

theorem passed_or_exists_failed (root : Path) (t : Tree) (fs : List Formatter) :
    (∃ events u, Passed root t fs events u) ∨
      ∃ before f after events u e, fs = before ++ f :: after ∧ Passed root t before events u ∧
        (f.run root u).failure = some e := by
  induction fs generalizing t with
  | nil => exact .inl ⟨[], t, .nil t⟩
  | cons f fs ih =>
    cases hf : (f.run root t).failure with
    | some e => exact .inr ⟨[], f, fs, [], t, e, rfl, .nil t, hf⟩
    | none =>
      rcases ih (f.run root t).tree with
        ⟨events, u, h⟩ | ⟨before, g, after, events, u, e, rfl, h, hg⟩
      · exact .inl ⟨_, u, .cons hf h⟩
      · exact .inr ⟨f :: before, g, after, _, u, e, rfl, .cons hf h, hg⟩

theorem Formatter.Alone.calls (h : f.Alone) (root : Path) (t : Tree) :
    calls (.formatting f.name root :: (f.run root t).events) = [(f.name, root)] :=
  congrArg (_ :: ·) (calls_eq_nil_iff.mpr (h root t))

theorem Passed.calls (h : Passed root t fs events u) (ha : ∀ f ∈ fs, f.Alone) :
    calls events = fs.map fun f => (f.name, root) := by
  induction h with
  | nil => rfl
  | cons _ _ ih =>
    obtain ⟨hf, hfs⟩ := List.forall_mem_cons.mp ha
    rw [calls_append, hf.calls, ih hfs]
    rfl

namespace Progress

/-- The state of a batch when further formatters have passed. -/
def passed (p : Progress) (fs : List Formatter) (events : List Event) (u : Tree) : Progress :=
  ⟨u, { p.report with formattersRun := p.report.formattersRun ++ fs.map (·.name) },
    p.events ++ events⟩

/-- A warning where files have been written and are not formatted. -/
def unformattedNote (p : Progress) : List Event :=
  if 0 < p.report.projected.length then [.unformatted p.report.projected.length] else []

theorem unformatted_unformattedNote (p : Progress) : Unformatted p.unformattedNote := by
  unfold unformattedNote
  split <;> simp [Unformatted]

end Progress

/-- Formatters that pass make way for those behind them. -/
theorem runFormatters_append (h : Passed root p.tree before events u) (fs : List Formatter) :
    runFormatters root p (before ++ fs) = runFormatters root (p.passed before events u) fs := by
  obtain ⟨t, r, noted⟩ := p
  dsimp only at h
  induction h generalizing r noted with
  | nil => simp [Progress.passed]
  | @cons t u f before events passes _ ih =>
    rw [List.cons_append, runFormatters]
    dsimp only
    rw [passes]
    refine (ih _ _).trans ?_
    simp [Progress.passed, Progress.emit]

/-- What stands behind a formatter that fails does not matter. -/
theorem runFormatters_of_failure (h : (f.run root p.tree).failure = some e) (fs : List Formatter) :
    (runFormatters root p (f :: fs)).1.outcome (runFormatters root p (f :: fs)).2 =
      ⟨(f.run root p.tree).tree, p.events ++
        .formatting f.name root :: (f.run root p.tree).events ++ p.unformattedNote, .error e⟩ := by
  rw [runFormatters]
  dsimp only
  rw [h]
  by_cases hp : 0 < p.report.projected.length <;>
    simp [Progress.unformattedNote, Progress.emit, Progress.outcome, hp]

/-- What formatters make of a batch that has come to `p` with its files. -/
inductive Formats (root : Path) (p : Progress) (run : List Formatter → Outcome)
    (fs : List Formatter) : Prop
  /-- All are called. -/
  | passed {events : List Event} {u : Tree} (all : Passed root p.tree fs events u)
      (outcome : run fs = ⟨u, p.events ++ events,
        .ok { p.report with formattersRun := fs.map (·.name) }⟩)
      (calls : (∀ f ∈ fs, f.Alone) → calls (run fs).events = fs.map fun f => (f.name, root))
  /-- One fails, and those behind it could as well be others. -/
  | failed {before after : List Formatter} {f : Formatter} {events : List Event} {u : Tree}
      {e : Failure} (cut : fs = before ++ f :: after) (first : Passed root p.tree before events u)
      (fails : (f.run root u).failure = some e)
      (outcome : ∀ others, run (before ++ f :: others) = ⟨(f.run root u).tree,
        p.events ++ events ++ .formatting f.name root :: (f.run root u).events ++ p.unformattedNote,
        .error e⟩)
      (calls : (∀ f ∈ fs, f.Alone) →
        calls (run fs).events = (before ++ [f]).map fun f => (f.name, root))

theorem runFormatters_formats (hr : p.report.formattersRun = []) (hu : Unformatted p.events)
    (fs : List Formatter) : Formats root p
      (fun fs => (runFormatters root p fs).1.outcome (runFormatters root p fs).2) fs := by
  have hcalls {before : List Formatter} {events : List Event} {u : Tree}
      (h : Passed root p.tree before events u) (ha : ∀ f ∈ before, f.Alone) :
      calls (p.passed before events u).events = before.map fun f => (f.name, root) := by
    rw [Progress.passed, calls_append, calls_eq_nil_iff.mpr hu, h.calls ha, List.nil_append]
  rcases passed_or_exists_failed root p.tree fs with
    ⟨events, u, h⟩ | ⟨before, f, after, events, u, e, rfl, h, he⟩
  · have hrun : runFormatters root p fs = (p.passed fs events u, none) := by
      have happend := runFormatters_append h []
      rwa [List.append_nil] at happend
    refine .passed h ?_ fun ha => ?_
    · rw [hrun]
      simp [Progress.passed, Progress.outcome, hr]
    · rw [hrun]
      exact hcalls h ha
  · have hend (others : List Formatter) :=
      runFormatters_of_failure (p := p.passed before events u) he others
    refine .failed rfl h he (fun others => ?_) fun ha => ?_
    · rw [runFormatters_append h, hend]
      rfl
    · have hbefore : ∀ g ∈ before, g.Alone := fun g hg => ha g (List.mem_append_left _ hg)
      have hf : f.Alone := ha f (by simp)
      rw [runFormatters_append h, hend, calls_append, calls_append, hcalls h hbefore, hf.calls,
        calls_eq_nil_iff.mpr (Progress.unformatted_unformattedNote _), List.map_append,
        List.append_nil]
      rfl

/-- Nothing stands in the way of a batch: it can work with its settings, its files are found, and
each of them is projected and written if that changes it. -/
def Unhindered (s : Settings) (a : Access) (root : Path) (t : Tree) : Prop :=
  s.fault? = none ∧ ∃ x, select t root s = .ok x ∧
    ∀ f ∈ x.files, ∃ text output, Succeeds s a t f text output

theorem unhindered_of_rewriteFiles {found : List Found} (ht : t.Proper) (hd : s.dryRun = false)
    (hs : s.fault? = none) (hf : findFiles t root = .ok found) {q : Progress}
    (h : rewriteFiles s a (selected s root t found) (Selection.ofFound s found).files = (q, none)) :
    Unhindered s a root t := by
  have hx := select_of_found s hf
  have hc := rewriteFiles_completed hd (nodup_selected ht hx) h
  refine ⟨hs, _, hx, fun f hfile => ?_⟩
  obtain ⟨text, output, hsucceeds, -⟩ := hc.written f hfile
  exact ⟨text, output, hsucceeds⟩

theorem formats_of_unhindered (ht : t.Proper) (hd : s.dryRun = false) (h : Unhindered s a root t) :
    ∃ x p, select t root s = .ok x ∧ Completed s a t x.files p.tree ∧ Unformatted p.events ∧
      ∀ formatters, Formats root p (fun fs => runBatch s fs a root t) formatters := by
  obtain ⟨hs, x, hx, hall⟩ := h
  obtain ⟨found, hf, rfl⟩ := exists_found_of_select hx
  have hn := nodup_selected ht hx
  obtain ⟨p, xs, hr, -, hreport⟩ :=
    rewriteFiles_of_succeeds hd (selected s root t found) hn hall
  have hq := (rewriteFiles_phase s a (selected s root t found)
    (Selection.ofFound s found).files).quiet
  rw [hr] at hq
  have hu := hq.unformatted (unformatted_selected s root t found)
  have hrun : (fun formatters => runBatch s formatters a root t) = fun formatters =>
      (runFormatters root p formatters).1.outcome (runFormatters root p formatters).2 := by
    funext formatters
    rw [runBatch_of_found hs hf, hr, hd, finish_of_completed rfl]
  refine ⟨_, p, hx, rewriteFiles_completed hd hn hr, hu, fun formatters => ?_⟩
  rw [hrun]
  refine runFormatters_formats ?_ hu formatters
  rw [hreport, foldl_add_formattersRun]
  rfl

/-- What stands in the way of a batch ends it before its formatters are looked at. -/
theorem runBatch_of_not_unhindered (ht : t.Proper) (hd : s.dryRun = false)
    (h : ¬ Unhindered s a root t) : ∃ u events e, Unformatted events ∧
      ∀ formatters, runBatch s formatters a root t = ⟨u, events, .error e⟩ := by
  rcases runBatch_cases s root t with ⟨e, he⟩ | ⟨found, hf, hs⟩
  · exact ⟨t, [], e, by simp [Unformatted], fun formatters => he s rfl formatters a⟩
  · rcases hr : rewriteFiles s a (selected s root t found) (Selection.ofFound s found).files with
      ⟨q, _ | e⟩
    · exact absurd (unhindered_of_rewriteFiles ht hd hs hf hr) h
    · have hq := (rewriteFiles_phase s a (selected s root t found)
        (Selection.ofFound s found).files).quiet
      rw [hr] at hq
      refine ⟨q.tree, q.events, e, hq.unformatted (unformatted_selected s root t found), ?_⟩
      intro formatters
      rw [runBatch_of_found hs hf, hr, finish_of_failed rfl]
      rfl

/-- Where there are formatters, one is called. -/
theorem Formats.exists_formatting {p : Progress} {run : List Formatter → Outcome}
    {fs : List Formatter} (h : Formats root p run fs) (hne : fs ≠ []) :
    ∃ name target, .formatting name target ∈ (run fs).events := by
  cases h with
  | passed all outcome =>
    cases all with
    | nil => exact absurd rfl hne
    | @cons _ _ f => exact ⟨f.name, root, by rw [outcome]; simp⟩
  | @failed before after f _ _ _ cut _ _ outcome =>
    exact ⟨f.name, root, by rw [cut, outcome]; simp⟩

/-- A batch that nothing stands in the way of writes all its files and then calls its formatters,
also if no file has changed. The first of them that fails is the last that is called, and the batch
fails as it does. All other batches fail before, and it makes no difference which formatters they
have. -/
theorem runBatch_formats (ht : t.Proper) (hd : s.dryRun = false) (a : Access) (root : Path) :
    (Unhindered s a root t → ∃ x p, select t root s = .ok x ∧ Completed s a t x.files p.tree ∧
        Unformatted p.events ∧
        ∀ formatters, Formats root p (fun fs => runBatch s fs a root t) formatters) ∧
      (¬ Unhindered s a root t → ∃ u events e, Unformatted events ∧
        ∀ formatters, runBatch s formatters a root t = ⟨u, events, .error e⟩) ∧
      ∀ formatters ≠ [], (∃ name target,
        .formatting name target ∈ (runBatch s formatters a root t).events) ↔
          Unhindered s a root t := by
  refine ⟨formats_of_unhindered ht hd, runBatch_of_not_unhindered ht hd,
    fun formatters hne => ⟨?_, fun h => ?_⟩⟩
  · rintro ⟨name, target, hm⟩
    by_contra h
    obtain ⟨u, events, e, hu, hrun⟩ := runBatch_of_not_unhindered ht hd h
    rw [hrun] at hm
    exact hu name target hm
  · obtain ⟨x, p, -, -, -, hformats⟩ := formats_of_unhindered ht hd h
    exact (hformats formatters).exists_formatting hne

/-- Removes everything. -/
def sweeping : Formatter := ⟨"sweep", fun _ _ => ⟨⟨[]⟩, [], none⟩⟩

/-- The first formatter empties a message, and the second fails. The third is not called. -/
theorem runBatch_formats_mixedMessages :
    let o := runBatch { strip := .none } [emptying, complaining, sweeping] .free ⟨[0x2E]⟩
      mixedMessages
    o.result = .error (.starting "vet" .notFound) ∧
      calls o.events = [("emptying", ⟨[0x2E]⟩), ("vet", ⟨[0x2E]⟩)] ∧
      o.tree.content [messageName 0x61] = some .empty ∧
      o.tree.content [messageName 0x62] = some keptMessage.toUTF8 := by
  intro o
  have hfault : Settings.fault? { strip := .none } = none := by decide +kernel
  obtain ⟨x, p, hx, hc, -, hformats⟩ := (runBatch_formats proper_mixedMessages rfl .free ⟨[0x2E]⟩).1
    ⟨hfault, _, select_mixedMessages, succeeds_mixedMessages⟩
  obtain rfl := Except.ok.inj (hx.symm.trans select_mixedMessages)
  have halone : ∀ f ∈ [emptying, complaining, sweeping], f.Alone := by
    simp [emptying, complaining, sweeping, Formatter.Alone, Unformatted]
  have hwritten {f : Found} {text : String} (hf : f ∈ [messageFile 0x61, messageFile 0x62])
      (h : Projects { strip := .none } .free mixedMessages f text keptMessage) :
      p.tree.content f.location = some keptMessage.toUTF8 := by
    obtain ⟨text', output, hs, hout⟩ := hc.written f hf
    obtain ⟨rfl, rfl⟩ := h.unique hs.toProjects
    exact hout
  have hfirst := hwritten (f := messageFile 0x61) (by simp) ⟨rfl, project_message⟩
  have hsecond := hwritten (f := messageFile 0x62) (by simp) ⟨rfl, project_keptMessage⟩
  cases hformats [emptying, complaining, sweeping] with
  | passed all =>
    obtain _ | ⟨-, _ | ⟨passes, -⟩⟩ := all
    cases passes
  | @failed before after f events u e cut first fails outcome calls =>
    cases first with
    | nil =>
      obtain ⟨rfl, -⟩ := List.cons.inj cut
      cases fails
    | @cons _ _ g before events passes first =>
      obtain ⟨rfl, htail⟩ := List.cons.inj cut
      cases first with
      | nil =>
        obtain ⟨rfl, rfl⟩ := List.cons.inj htail
        obtain rfl : Failure.starting "vet" .notFound = e := Option.some.inj fails
        have hrun := outcome [sweeping]
        have htree : o.tree = p.tree.setContent [messageName 0x61] .empty :=
          congrArg Outcome.tree hrun
        refine ⟨congrArg Outcome.result hrun, calls halone, ?_, ?_⟩
        · rw [htree]
          exact Tree.content_setContent_self (ne_of_eq_of_ne hfirst (by simp)) _
        · rw [htree]
          exact (Tree.sameAt_setContent (by decide) _ _).content.trans hsecond
      | cons passes =>
        obtain ⟨rfl, -⟩ := List.cons.inj htail
        cases passes

end StructProjection
