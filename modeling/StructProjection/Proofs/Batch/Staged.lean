import StructProjection.Proofs.Batch.FailFast

/-! # A batch that writes nothing before all files are projected -/

namespace StructProjection

open Text Files Go

variable {s : Settings} {a : Access} {t u : Tree} {f : Found} {fs before after : List Found}
  {e : Failure} {text output : String} {left : Option ByteArray} {root : Path} {x : Selection}

theorem Fails.exists_writing (h : Fails s a t f e left) (hp : Projects s a t f text output) :
    ∃ r, e = .writing f.path r := by
  cases h with
  | unprojectable h => exact absurd hp h.not_projects
  | notOpened => exact ⟨_, rfl⟩
  | cutOff => exact ⟨_, rfl⟩

theorem Written.not_fails (h : Written s a t fs u) :
    ∀ f ∈ fs, ¬ ∃ e left, Fails s a t f e left := by
  rintro f hf ⟨e, left, hfails⟩
  obtain ⟨text, output, hs, -⟩ := h f hf
  exact hfails.not_succeeds hs

theorem StoppedAt.content_after (h : StoppedAt s a t before f e u)
    (hn : ((before ++ f :: after).map (·.location)).Nodup) {g : Found} (hg : g ∈ after) :
    u.content g.location = t.content g.location := by
  rw [List.map_append, List.map_cons, List.nodup_append, List.nodup_cons] at hn
  obtain ⟨-, ⟨hf, -⟩, hb⟩ := hn
  have hgl := List.mem_map_of_mem (f := (·.location)) hg
  refine (h.elsewhere g.location (fun hgf => hf (hgf ▸ hgl)) fun x hx hgx => ?_).content
  exact hb _ (List.mem_map_of_mem hx) _ (List.mem_cons_of_mem _ hgl) hgx.symm

/-- The projections are written one after the other up to the first that cannot be written. -/
theorem runStaged_cases (hd : s.dryRun = false) (p : Progress)
    (hn : (fs.map (·.location)).Nodup) (hp : AllProject s a p.tree fs) :
    (∃ p', runStaged s a p fs = (p', none) ∧ Completed s a p.tree fs p'.tree) ∨
      ∃ before f after p' r, fs = before ++ f :: after ∧
        runStaged s a p fs = (p', some (.writing f.path r)) ∧
        StoppedAt s a p.tree before f (.writing f.path r) p'.tree := by
  obtain ⟨events, xs, hs, -⟩ := exists_stage hp
  -- The files are left as in a fail-fast run, which has been cut at its first failure before.
  have halike := (runStaged_of_stage hs).trans (runFailFast_of_stage hn hs).symm
  rcases runFailFast_cases hd a p hn with
    ⟨q, hr, hcm, -⟩ | ⟨before, f, after, q, e, rfl, hr, hat, -⟩
  · left
    rw [hr] at halike
    obtain ⟨p', hr', h⟩ := halike.exists_completed
    exact ⟨p', hr', h.tree ▸ hcm⟩
  · right
    obtain ⟨text, output, hf⟩ := hp f (by simp)
    obtain ⟨left, hfails, -⟩ := hat.failed
    obtain ⟨r, rfl⟩ := hfails.exists_writing hf
    rw [hr] at halike
    obtain ⟨p', hr', h⟩ := halike.exists_failed
    exact ⟨before, f, after, p', r, rfl, hr', h ▸ hat⟩

/-- A staged batch with a file that has no projection ends at the first such file, and leaves
everything as it was. If all files have projections, it writes them one after the other up to the
first file that cannot be written: the files before it hold their projections, what is left in the
file itself is said by `Fails`, and all others are as they were. No formatter is called before all
files are written. -/
theorem runBatch_staged (ht : t.Proper) (hs : s.fault? = none) (hc : s.commit = .staged)
    (hd : s.dryRun = false) (hx : select t root s = .ok x) (a : Access) :
    ((∃ f ∈ x.files, ∃ e, Unprojectable s a t f e) →
        ∃ before f after e events, x.files = before ++ f :: after ∧ AllProject s a t before ∧
          Unprojectable s a t f e ∧ e.path? = some f.path ∧ Unformatted events ∧
          ∀ formatters, runBatch s formatters a root t = ⟨t, events, .error e⟩) ∧
      (AllProject s a t x.files →
        (∃ before f after r o, x.files = before ++ f :: after ∧
            (∀ formatters, runBatch s formatters a root t = o) ∧ Unformatted o.events ∧
            o.result = .error (.writing f.path r) ∧
            (∀ g ∈ before, ¬ ∃ e left, Fails s a t g e left) ∧
            StoppedAt s a t before f (.writing f.path r) o.tree ∧
            ∀ g ∈ after, o.tree.content g.location = t.content g.location) ∨
          ∃ p, Completed s a t x.files p.tree ∧ Unformatted p.events ∧ ∀ formatters,
            runBatch s formatters a root t =
              (runFormatters root p formatters).1.outcome (runFormatters root p formatters).2) := by
  have hn := nodup_selected ht hx
  obtain ⟨found, hf, rfl⟩ := exists_found_of_select hx
  have hrun : ∀ formatters, runBatch s formatters a root t = finish false formatters root
      (runStaged s a (selected s root t found) (Selection.ofFound s found).files) := by
    intro formatters
    rw [runBatch_of_found hs hf, rewriteFiles, hc, hd]
  generalize (Selection.ofFound s found).files = files at hn hrun ⊢
  have hu := unformatted_selected s root t found
  have hq := (runStaged_phase s a (selected s root t found) files).quiet
  refine ⟨?_, ?_⟩
  · rintro ⟨g, hg, e', hge⟩
    rcases allProject_or_exists_unprojectable s a t files with
      hp | ⟨before, f, after, e, rfl, hb, hfe⟩
    · obtain ⟨text, output, hp⟩ := hp g hg
      exact absurd hp hge.not_projects
    · obtain ⟨events, he, hr⟩ :=
        runStaged_of_unprojectable (selected s root t found) hb hfe after
      refine ⟨before, f, after, e, _, rfl, hb, hfe, hfe.path?_eq, unformatted_append hu he, ?_⟩
      intro formatters
      rw [hrun, hr]
      rfl
  · intro hp
    rcases runStaged_cases hd (selected s root t found) hn hp with
      ⟨p', hr, hcm⟩ | ⟨before, f, after, p', r, rfl, hr, hat⟩
    · right
      rw [hr] at hq
      refine ⟨p', hcm, hq.unformatted hu, fun formatters => ?_⟩
      rw [hrun, hr, finish_of_completed rfl]
    · left
      rw [hr] at hq
      refine ⟨before, f, after, r, p'.outcome (some (.writing f.path r)), rfl, ?_,
        hq.unformatted hu, rfl, hat.written.not_fails, hat, fun g hg => hat.content_after hn hg⟩
      intro formatters
      rw [hrun, hr, finish_of_failed rfl]

/-- Where all files can be projected and written, all are, and the report says so. -/
theorem rewriteFiles_of_succeeds (hd : s.dryRun = false) (p : Progress)
    (hn : (fs.map (·.location)).Nodup)
    (h : ∀ f ∈ fs, ∃ text output, Succeeds s a p.tree f text output) :
    ∃ p' xs, rewriteFiles s a p fs = (p', none) ∧ List.Forall₂ (StagedAs s a p.tree) fs xs ∧
      p'.report = xs.foldl Report.add p.report := by
  have hp : AllProject s a p.tree fs := by
    intro f hf
    obtain ⟨text, output, hs⟩ := h f hf
    exact ⟨text, output, hs.toProjects⟩
  obtain ⟨events, xs, hs, hxs⟩ := exists_stage hp
  rcases rewriteFiles_outcome hn hs with ⟨p', hr, hreport⟩ | ⟨-, f, -, r, hr⟩
  · exact ⟨p', xs, hr, hxs, hreport⟩
  · have halike := (rewriteFiles_of_stage hn hs).trans (runFailFast_of_stage hn hs).symm
    rw [halike.failure] at hr
    rcases runFailFast_cases hd a p hn with
      ⟨p', hr', -⟩ | ⟨before, f, after, p', e, rfl, -, hat, -⟩
    · simp [hr'] at hr
    · obtain ⟨text, output, hs⟩ := h f (by simp)
      obtain ⟨left, hf, -⟩ := hat.failed
      exact absurd hs hf.not_succeeds

/-- The second message cannot be read, and the first cannot be written. -/
private def guarded : Access :=
  { unreadable := fun l => if l = [messageName 0x62] then some .denied else none
    unwritable := fun l => if l = [messageName 0x61] then some .denied else none
    room := fun _ => none }

/-- Nothing is written where the second message cannot be read. Where it has too little room, the
first message is written, the second cut off, and the third left alone. -/
theorem runBatch_staged_messages :
    (∃ events, ∀ formatters,
        runBatch { strip := .none, commit := .staged } formatters guarded ⟨[0x2E]⟩ messages =
          ⟨messages, events, .error (.reading (messageFile 0x62).path .denied)⟩) ∧
      ∃ o,
        (∀ formatters, runBatch { strip := .none, commit := .staged } formatters narrow ⟨[0x2E]⟩
          messages = o) ∧
        o.result = .error (.writing (messageFile 0x62).path .tooLarge) ∧
        o.tree.content [messageName 0x61] = some keptMessage.toUTF8 ∧
        o.tree.content [messageName 0x62] = some (keptMessage.toUTF8.extract 0 20) ∧
        o.tree.content [messageName 0x63] = some message.toUTF8 := by
  have hx : select messages ⟨[0x2E]⟩ { strip := .none, commit := .staged } = _ := select_messages
  have hstaged := runBatch_staged proper_messages (by decide +kernel) rfl rfl hx
  refine ⟨?_, ?_⟩
  · have hgood : AllProject { strip := .none, commit := .staged } guarded messages
        [messageFile 0x61] := by
      simpa [AllProject] using ⟨message, keptMessage, projects_messages (by simp) rfl rfl⟩
    have hbad : Unprojectable { strip := .none, commit := .staged } guarded messages
        (messageFile 0x62) (.reading (messageFile 0x62).path .denied) := .unreadable rfl
    obtain ⟨before, f, after, e, events, hfs, hb, hf, -, -, hrun⟩ :=
      (hstaged guarded).1 ⟨messageFile 0x62, by simp, _, hbad⟩
    have hcut : before ++ f :: after = [messageFile 0x61] ++ messageFile 0x62 :: [messageFile 0x63] :=
      hfs.symm
    obtain ⟨rfl, rfl, rfl⟩ :=
      eq_of_first hcut hb.not_unprojectable ⟨e, hf⟩ hgood.not_unprojectable ⟨_, hbad⟩
    obtain rfl := hbad.unique hf
    exact ⟨events, hrun⟩
  · have hproject : ∀ letter ∈ [0x61, 0x62, 0x63], Projects { strip := .none, commit := .staged }
        narrow messages (messageFile letter) message keptMessage :=
      fun letter hl => projects_messages hl rfl rfl
    have hall : AllProject { strip := .none, commit := .staged } narrow messages
        ([0x61, 0x62, 0x63].map messageFile) := by
      rintro f hf
      obtain ⟨letter, hl, rfl⟩ := List.mem_map.mp hf
      exact ⟨_, _, hproject letter hl⟩
    have hgood : Succeeds { strip := .none, commit := .staged } narrow messages (messageFile 0x61)
        message keptMessage :=
      ⟨hproject 0x61 (by simp), fun _ => ⟨rfl, by simp [narrow, messageFile, messageName]⟩⟩
    have hbad : Fails { strip := .none, commit := .staged } narrow messages (messageFile 0x62)
        (.writing (messageFile 0x62).path .tooLarge) (some (keptMessage.toUTF8.extract 0 20)) :=
      .cutOff (hproject 0x62 (by simp)) (by decide +kernel) rfl rfl (by decide +kernel)
    rcases (hstaged narrow).2 hall with
      ⟨before, f, after, r, o, hfs, ho, -, hr, hb, hat, hafter⟩ | ⟨p, hp, -⟩
    · obtain ⟨left, hf, hleft⟩ := hat.failed
      have hcut : before ++ f :: after =
          [messageFile 0x61] ++ messageFile 0x62 :: [messageFile 0x63] := hfs.symm
      obtain ⟨rfl, rfl, rfl⟩ := eq_of_first hcut hb ⟨_, left, hf⟩
        (by simpa using fun e left h => Fails.not_succeeds h hgood) ⟨_, _, hbad⟩
      obtain ⟨he, rfl⟩ := hbad.unique hf
      obtain ⟨text, output, hs, hc⟩ := hat.written (messageFile 0x61) (by simp)
      obtain ⟨rfl, rfl⟩ := hgood.toProjects.unique hs.toProjects
      exact ⟨o, ho, he ▸ hr, hc, hleft, hafter (messageFile 0x63) (by simp)⟩
    · exact absurd ⟨_, _, hbad⟩ (hp.written.not_fails (messageFile 0x62) (by simp))

end StructProjection
