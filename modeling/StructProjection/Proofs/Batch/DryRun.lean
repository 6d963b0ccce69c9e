import StructProjection.Proofs.Batch.Agreement

/-! # A dry run changes nothing and predicts the run -/

namespace StructProjection

open Files

variable {s : Settings} {a : Access} {t : Tree} {p : Progress} {fs : List Found} {root : Path}
  {x : Progress × Option Failure}

theorem finish_dry (formatters : List Formatter) (root : Path) (h : Unformatted x.1.events) :
    (finish true formatters root x).tree = x.1.tree ∧
      Unformatted (finish true formatters root x).events := by
  obtain ⟨p, _ | e⟩ := x
  · exact ⟨rfl, unformatted_append h (by simp [Unformatted])⟩
  · exact ⟨rfl, h⟩

/-- In a dry run the formatters do not matter. -/
theorem runBatch_congr_of_dry (hd : s.dryRun = true) (formatters others : List Formatter)
    (a : Access) (root : Path) (t : Tree) :
    runBatch s formatters a root t = runBatch s others a root t := by
  rcases runBatch_cases s root t with ⟨e, he⟩ | ⟨found, hf, hs⟩
  · rw [he s rfl, he s rfl]
  · rw [runBatch_of_found hs hf, runBatch_of_found hs hf, hd]
    rfl

/-- A dry run leaves everything as it is and calls no formatter, whether it fails or not. -/
theorem runBatch_dry (hd : s.dryRun = true) (formatters : List Formatter) (a : Access)
    (root : Path) (t : Tree) :
    (runBatch s formatters a root t).tree = t ∧
      Unformatted (runBatch s formatters a root t).events := by
  rcases runBatch_cases s root t with ⟨e, he⟩ | ⟨found, hf, hs⟩
  · rw [he s rfl]
    exact ⟨rfl, by simp [Unformatted]⟩
  · have hphase := rewriteFiles_phase s a (selected s root t found)
      (Selection.ofFound s found).files
    have hu := hphase.quiet.unformatted (unformatted_selected s root t found)
    obtain ⟨htree, hevents⟩ := finish_dry formatters root hu
    rw [runBatch_of_found hs hf, hd]
    exact ⟨htree.trans (hphase.dry hd), hevents⟩

/-- Either the formatters have all been run, or one of them has failed. -/
theorem finish_completed (p : Progress) (formatters : List Formatter) (root : Path) :
    (finish false formatters root (p, none)).result = .ok { p.report with
        formattersRun := p.report.formattersRun ++ formatters.map (·.name) } ∨
      ∃ f ∈ formatters, ∃ u e, (f.run root u).failure = some e ∧
        (finish false formatters root (p, none)).result = .error e := by
  rw [finish_of_completed rfl]
  rcases runFormatters_outcome root p formatters with ⟨p', hr, hp'⟩ | ⟨f, hf, u, e, he, hr⟩
  · left
    rw [hr, ← hp']
    rfl
  · right
    refine ⟨f, hf, u, e, he, ?_⟩
    rw [hr]
    rfl

section Found

variable {found : List Found} (hs : s.fault? = none) (hf : findFiles t root = .ok found)
  (hn : ((Selection.ofFound s found).files.map (·.location)).Nodup)

include hs hf hn

/-- Where all files have projections, the dry run reports what the run reports, unless a file cannot
be written or a formatter fails. -/
private theorem results_of_allProject (hp : AllProject s a t (Selection.ofFound s found).files)
    (formatters : List Formatter) :
    ∃ r : Report, r.formattersRun = [] ∧
      (runBatch { s with dryRun := true } formatters a root t).result =
        .ok { r with dryRun := true } ∧
      ((∃ names, (runBatch { s with dryRun := false } formatters a root t).result =
          .ok { r with formattersRun := names, dryRun := false }) ∨
        (∃ f ∈ (Selection.ofFound s found).files, ∃ why,
          (runBatch { s with dryRun := false } formatters a root t).result =
            .error (.writing f.path why)) ∨
        ∃ f ∈ formatters, ∃ u e, (f.run root u).failure = some e ∧
          (runBatch { s with dryRun := false } formatters a root t).result = .error e) := by
  obtain ⟨events, xs, hstage, -⟩ := exists_stage hp
  have hstage' (b : Bool) : stage { s with dryRun := b } a t (Selection.ofFound s found).files =
      (events, .ok xs) := by
    have hstrip : s.strip = { s with dryRun := b }.strip := rfl
    rw [← stage_congr hstrip, hstage]
  have hreport (b : Bool) :
      xs.foldl Report.add (selected { s with dryRun := b } root t found).report =
        { xs.foldl Report.add (selected s root t found).report with dryRun := b } :=
    foldl_add_dryRun xs (selected s root t found).report b
  refine ⟨_, foldl_add_formattersRun xs (selected s root t found).report, ?_, ?_⟩
  · rcases runBatch_of_stage (s := { s with dryRun := true }) hs hf hn (hstage' true) formatters with
      ⟨p, hp, hr⟩ | ⟨hd, -⟩
    · rw [hr, ← hreport, ← hp]
      rfl
    · simp at hd
  · rcases runBatch_of_stage (s := { s with dryRun := false }) hs hf hn (hstage' false) formatters with
      ⟨p, hp, hr⟩ | ⟨-, h⟩
    · have hr' : runBatch { s with dryRun := false } formatters a root t =
          finish false formatters root (p, none) := hr
      rw [hreport] at hp
      rw [hr']
      rcases finish_completed p formatters root with h | h
      · rw [h, hp]
        exact .inl ⟨_, rfl⟩
      · exact .inr (.inr h)
    · exact .inr (.inl h)

/-- The first file without a projection ends the dry run, and the run as well if no file before it
has done so. -/
private theorem results_of_unprojectable {before after : List Found} {f : Found} {e : Failure}
    (hfiles : (Selection.ofFound s found).files = before ++ f :: after)
    (hb : AllProject s a t before) (he : Unprojectable s a t f e) (formatters : List Formatter) :
    (runBatch { s with dryRun := true } formatters a root t).result = .error e ∧
      ((runBatch { s with dryRun := false } formatters a root t).result = .error e ∨
        s.commit = .failFast ∧ ∃ g ∈ before, ∃ why,
          (runBatch { s with dryRun := false } formatters a root t).result =
            .error (.writing g.path why)) := by
  have hrun (b : Bool) := by
    have hstrip : s.strip = { s with dryRun := b }.strip := rfl
    exact runBatch_of_unprojectable (s := { s with dryRun := b }) hs hf hn hfiles
      (hb.congr hstrip) (he.congr hstrip) formatters
  constructor
  · rcases hrun true with h | ⟨-, hd, -⟩
    · exact h
    · simp at hd
  · rcases hrun false with h | ⟨hc, -, h⟩
    · exact .inl h
    · exact .inr ⟨hc, h⟩

end Found

/-- A dry run considers the selected files one after the other, and comes to its end unless one of
them has no projection. -/
theorem runBatch_dry_cases {y : Selection} (ht : t.Proper) (hs : s.fault? = none)
    (hd : s.dryRun = true) (hy : select t root s = .ok y) (a : Access) :
    (∃ xs r, List.Forall₂ (StagedAs s a t) y.files xs ∧
        (∀ formatters, (runBatch s formatters a root t).result = .ok r) ∧
        r = ⟨(xs.filter (·.changed)).map (·.file.path),
          (xs.filter (!·.changed)).map (·.file.path), y.excluded.map (·.path), [], true⟩) ∨
      ∃ before f after e, y.files = before ++ f :: after ∧ AllProject s a t before ∧
        Unprojectable s a t f e ∧
        ∀ formatters, (runBatch s formatters a root t).result = .error e := by
  have hn := nodup_selected ht hy
  obtain ⟨found, hf, rfl⟩ := exists_found_of_select hy
  rcases allProject_or_exists_unprojectable s a t (Selection.ofFound s found).files with
    hp | ⟨before, f, after, e, hfiles, hb, he⟩
  · left
    obtain ⟨events, xs, hstage, hxs⟩ := exists_stage hp
    refine ⟨xs, xs.foldl Report.add (selected s root t found).report, hxs, fun formatters => ?_, ?_⟩
    · rcases runBatch_of_stage hs hf hn hstage formatters with ⟨p, hp, hr⟩ | ⟨hd', -⟩
      · rw [hr, hd, ← hp]
        rfl
      · simp [hd] at hd'
    · rw [foldl_add, selected, hd]
      rfl
  · right
    refine ⟨before, f, after, e, hfiles, hb, he, fun formatters => ?_⟩
    rcases runBatch_of_unprojectable hs hf hn hfiles hb he formatters with h | ⟨-, hd', -⟩
    · exact h
    · simp [hd] at hd'

/-- A dry run leaves everything as it is and calls no formatter. What the run reports, the dry run
has reported, up to the formatters. Where the dry run succeeds, only writing a file and formatting
can fail. Where it fails, the run fails as well, and with the same failure unless files are written
at once and one before the file at fault cannot be written. -/
theorem runBatch_dryRun_predicts (ht : t.Proper) (s : Settings) (formatters : List Formatter)
    (a : Access) (root : Path) :
    let dry := runBatch { s with dryRun := true } formatters a root t
    let wet := runBatch { s with dryRun := false } formatters a root t
    (dry.tree = t ∧ Unformatted dry.events ∧
        ∀ others, runBatch { s with dryRun := true } others a root t = dry) ∧
      (∀ r, wet.result = .ok r →
        dry.result = .ok { r with formattersRun := [], dryRun := true }) ∧
      (∀ r e, dry.result = .ok r → wet.result = .error e →
        (∃ x, select t root s = .ok x ∧ ∃ f ∈ x.files, ∃ why, e = .writing f.path why) ∨
          ∃ f ∈ formatters, ∃ u, (f.run root u).failure = some e) ∧
      ∀ e, dry.result = .error e → wet.result = .error e ∨
        s.commit = .failFast ∧ ∃ x before g f after why, select t root s = .ok x ∧
          x.files = before ++ f :: after ∧ Unprojectable s a t f e ∧ e.path? = some f.path ∧
          g ∈ before ∧ wet.result = .error (.writing g.path why) := by
  intro dry wet
  obtain ⟨htree, hevents⟩ : dry.tree = t ∧ Unformatted dry.events :=
    runBatch_dry rfl formatters a root t
  refine ⟨⟨htree, hevents, fun others => runBatch_congr_of_dry rfl others formatters a root t⟩, ?_⟩
  rcases runBatch_cases s root t with ⟨e, he⟩ | ⟨found, hf, hs⟩
  · have hdry : dry = ⟨t, [], .error e⟩ := he { s with dryRun := true } rfl formatters a
    have hwet : wet = ⟨t, [], .error e⟩ := he { s with dryRun := false } rfl formatters a
    rw [hdry, hwet]
    exact ⟨by simp, by simp, fun e' he' => .inl he'⟩
  · have hx := select_of_found s hf
    have hn := nodup_selected ht hx
    rcases allProject_or_exists_unprojectable s a t (Selection.ofFound s found).files with
      hp | ⟨before, f, after, e, hfiles, hb, he⟩
    · obtain ⟨r, hr, hdry, hwet⟩ := results_of_allProject hs hf hn hp formatters
      refine ⟨?_, ?_, fun e he => absurd (hdry.symm.trans he) (by simp)⟩
      · intro r' hr'
        rcases hwet with ⟨names, h⟩ | ⟨f, -, why, h⟩ | ⟨f, -, u, e, -, h⟩
        · obtain rfl := Except.ok.inj (h.symm.trans hr')
          rw [← hr]
          exact hdry
        · exact absurd (h.symm.trans hr') (by simp)
        · exact absurd (h.symm.trans hr') (by simp)
      · intro r' e _ he
        rcases hwet with ⟨names, h⟩ | ⟨f, hfile, why, h⟩ | ⟨f, hfile, u, e', hu, h⟩
        · exact absurd (h.symm.trans he) (by simp)
        · exact .inl ⟨_, hx, f, hfile, why, (Except.error.inj (h.symm.trans he)).symm⟩
        · obtain rfl := Except.error.inj (h.symm.trans he)
          exact .inr ⟨f, hfile, u, hu⟩
    · obtain ⟨hdry, hwet⟩ := results_of_unprojectable hs hf hn hfiles hb he formatters
      refine ⟨?_, fun r e' hr => absurd (hdry.symm.trans hr) (by simp), ?_⟩
      · intro r hr
        rcases hwet with h | ⟨-, g, -, why, h⟩
        · exact absurd (h.symm.trans hr) (by simp)
        · exact absurd (h.symm.trans hr) (by simp)
      · intro e' he'
        obtain rfl := Except.error.inj (hdry.symm.trans he')
        rcases hwet with h | ⟨hc, g, hg, why, h⟩
        · exact .inl h
        · exact .inr ⟨hc, _, before, g, f, after, why, hx, hfiles, he, he.path?_eq, hg, h⟩

/-- The dry run names the three messages, and leaves them as they are. -/
theorem runBatch_dryRun_predicts_messages :
    let dry := runBatch { strip := .none, dryRun := true } [emptying] (.limited (some 40)) ⟨[0x2E]⟩
      messages
    dry.tree = messages ∧ Unformatted dry.events ∧
      dry.result = .ok ⟨[0x61, 0x62, 0x63].map fun letter => (messageFile letter).path, [], [], [],
        true⟩ := by
  obtain ⟨⟨htree, hevents, -⟩, hreport, -⟩ := runBatch_dryRun_predicts proper_messages
    { strip := .none } [emptying] (.limited (some 40)) ⟨[0x2E]⟩
  exact ⟨htree, hevents, hreport _ result_messages⟩

end StructProjection
