import StructProjection.Proofs.Batch.Staging

/-! # The phases of a batch

A batch selects files, projects and writes them in its mode, and calls formatters.
-/

namespace StructProjection

open Files

variable {s : Settings} {a : Access} {t : Tree} {p p' : Progress} {f : Found}
  {fs before : List Found} {xs : List Projected} {events : List Event} {e : Failure} {root : Path}
  {x y : Progress × Option Failure}

theorem minor_selection (s : Settings) (found : List Found) :
    Minor (Selection.events s found) := by
  intro event hm
  obtain ⟨f, -, hf⟩ := List.mem_filterMap.mp hm
  unfold Selection.eventOf at hf
  split at hf
  · exact .inr (Option.some.inj hf ▸ rfl)
  · exact .inl (Option.some.inj hf ▸ rfl)
  · cases hf
  · cases hf

/-- The state of a batch that has selected its files. -/
def selected (s : Settings) (root : Path) (t : Tree) (found : List Found) : Progress :=
  let x := Selection.ofFound s found
  ⟨t, { excluded := x.excluded.map (·.path), dryRun := s.dryRun },
    Selection.events s found ++ [.selected x.files.length x.excluded.length root]⟩

theorem unformatted_selected (s : Settings) (root : Path) (t : Tree) (found : List Found) :
    Unformatted (selected s root t found).events :=
  unformatted_append (minor_selection s found).unformatted (by simp [Unformatted])

/-- Projects and writes files in the mode of the settings. -/
def rewriteFiles (s : Settings) (a : Access) (p : Progress) (files : List Found) :
    Progress × Option Failure :=
  match s.commit with
  | .failFast => runFailFast s a p files
  | .staged => runStaged s a p files

/-- What follows when files have been projected and written. -/
def finish (dryRun : Bool) (formatters : List Formatter) (root : Path)
    (x : Progress × Option Failure) : Outcome :=
  match x.2 with
  | some e => x.1.outcome (some e)
  | none =>
    if dryRun then (x.1.emit [.noFormatting]).outcome none
    else (runFormatters root x.1 formatters).1.outcome (runFormatters root x.1 formatters).2

theorem finish_alike (dryRun : Bool) (formatters : List Formatter) (root : Path)
    (h : EndAlike x y) :
    (finish dryRun formatters root x).Alike (finish dryRun formatters root y) := by
  cases h with
  | @completed p q h =>
    cases dryRun with
    | true =>
      have hc : calls (p.events ++ [.noFormatting]) = calls (q.events ++ [.noFormatting]) := by
        rw [calls_append, calls_append, h.calls]
      exact ⟨h.tree, congrArg Except.ok h.report, hc⟩
    | false => exact (runFormatters_alike root h formatters).outcome
  | failed e tree calls => exact (EndAlike.failed e tree calls).outcome

theorem finish_of_failed (h : x.2 = some e) (dryRun : Bool) (formatters : List Formatter)
    (root : Path) : finish dryRun formatters root x = x.1.outcome (some e) := by rw [finish, h]

theorem finish_of_completed (h : x.2 = none) (formatters : List Formatter) (root : Path) :
    finish false formatters root x =
      (runFormatters root x.1 formatters).1.outcome (runFormatters root x.1 formatters).2 := by
  rw [finish, h]
  rfl

theorem select_of_found (s : Settings) {found : List Found} (h : findFiles t root = .ok found) :
    select t root s = .ok (Selection.ofFound s found) := by
  rw [select, h]
  rfl

theorem exists_found_of_select {x : Selection} (h : select t root s = .ok x) :
    ∃ found, findFiles t root = .ok found ∧ x = Selection.ofFound s found := by
  unfold select at h
  cases hf : findFiles t root with
  | error e => simp [hf, Except.map] at h
  | ok found => exact ⟨found, rfl, by simpa [hf, Except.map] using h.symm⟩

theorem runBatch_of_found {found : List Found} (hs : s.fault? = none)
    (hf : findFiles t root = .ok found) (formatters : List Formatter) (a : Access) :
    runBatch s formatters a root t =
      finish s.dryRun formatters root
        (rewriteFiles s a (selected s root t found) (Selection.ofFound s found).files) := by
  simp only [runBatch, hs, hf]
  cases h : s.commit <;> simp only [rewriteFiles, h] <;> rfl

/-- A batch that does not come to its files fails, and leaves everything as it is. -/
theorem runBatch_cases (s : Settings) (root : Path) (t : Tree) :
    (∃ e, ∀ s' : Settings, s'.fault? = s.fault? → ∀ formatters a,
        runBatch s' formatters a root t = ⟨t, [], .error e⟩) ∨
      ∃ found, findFiles t root = .ok found ∧ s.fault? = none := by
  cases hs : s.fault? with
  | some f => exact .inl ⟨_, fun s' hs' _ _ => by rw [runBatch, hs']⟩
  | none =>
    cases hf : findFiles t root with
    | error e => exact .inl ⟨_, fun s' hs' _ _ => by rw [runBatch, hs', hf]⟩
    | ok found => exact .inr ⟨found, rfl, rfl⟩

theorem runFormatters_outcome (root : Path) (p : Progress) (fs : List Formatter) :
    (∃ p', runFormatters root p fs = (p', none) ∧
        p'.report = { p.report with formattersRun := p.report.formattersRun ++ fs.map (·.name) }) ∨
      ∃ f ∈ fs, ∃ u e, (f.run root u).failure = some e ∧ (runFormatters root p fs).2 = some e := by
  induction fs generalizing p with
  | nil => exact .inl ⟨p, rfl, by simp⟩
  | cons f fs ih =>
    rw [runFormatters]
    cases hf : (f.run root p.tree).failure with
    | none =>
      dsimp only
      rcases ih _ with ⟨p', hr, hp'⟩ | ⟨g, hg, u, e, he, hr⟩
      · exact .inl ⟨p', hr, by simpa [Progress.emit] using hp'⟩
      · exact .inr ⟨g, List.mem_cons_of_mem _ hg, u, e, he, hr⟩
    | some e =>
      refine .inr ⟨f, by simp, p.tree, e, hf, ?_⟩
      dsimp only
      split <;> rfl

/-- What a batch can come to while it projects and writes files: it notes events that are no calls of
formatters, and it writes projections of the files. -/
inductive Rewriting (s : Settings) (a : Access) (fs : List Found) (p : Progress) : Progress → Prop
  | refl : Rewriting s a fs p p
  | emit {q : Progress} {events : List Event} (h : Rewriting s a fs p q)
      (hu : Unformatted events) : Rewriting s a fs p (q.emit events)
  | commit {q : Progress} {x : Projected} (h : Rewriting s a fs p q) (hx : x.file ∈ fs) :
      Rewriting s a fs p (commit s a q x).1

section Rewriting

variable {gs : List Found} {q : Progress}

theorem Rewriting.warned (h : Rewriting s a fs p q) (e : Failure) (hu : Unformatted events)
    (c : Prop) [Decidable c] :
    Rewriting s a fs p (if c then (q.emit events, some e) else (q, some e)).1 := by
  split
  · exact h.emit hu
  · exact h

theorem handle_rewriting (h : Rewriting s a fs p q) (hf : f ∈ fs) :
    Rewriting s a fs p (handle s a q f).1 := by
  have hu := unformatted_projectFile s a q.tree f
  have hc := projectFile_cases s a q.tree f
  rw [handle]
  generalize projectFile s a q.tree f = c at hu hc ⊢
  obtain ⟨events, result⟩ := c
  rcases hc with ⟨e, rfl, -⟩ | ⟨text, output, rfl, -⟩
  · exact h.emit hu
  · exact (h.emit hu).commit hf

theorem runFailFast_rewriting (h : Rewriting s a fs p q) (hg : ∀ g ∈ gs, g ∈ fs) :
    Rewriting s a fs p (runFailFast s a q gs).1 := by
  induction gs generalizing q with
  | nil => exact h
  | cons g gs ih =>
    obtain ⟨hgf, hg⟩ := List.forall_mem_cons.mp hg
    have hh := handle_rewriting h hgf
    rw [runFailFast]
    generalize handle s a q g = c at hh ⊢
    obtain ⟨q', _ | e⟩ := c
    · exact ih hh hg
    · exact hh.warned e (by simp [Unformatted]) _

theorem commitAll_rewriting (h : Rewriting s a fs p q) (hx : ∀ x ∈ xs, x.file ∈ fs) :
    Rewriting s a fs p (commitAll s a q xs).1 := by
  induction xs generalizing q with
  | nil => exact h
  | cons x xs ih =>
    obtain ⟨hxf, hx⟩ := List.forall_mem_cons.mp hx
    have hc := h.commit (x := x) hxf
    rw [commitAll]
    generalize commit s a q x = c at hc ⊢
    obtain ⟨q', _ | e⟩ := c
    · exact ih hc hx
    · exact hc.warned e (by simp [Unformatted]) _

theorem runStaged_rewriting (s : Settings) (a : Access) (p : Progress) (fs : List Found) :
    Rewriting s a fs p (runStaged s a p fs).1 := by
  rw [runStaged]
  rcases stage_cases s a p.tree fs with
    ⟨events, xs, hs, hu, hxs⟩ | ⟨before, f, after, events, e, -, hs, hu, -⟩
  · rw [hs]
    have hm : Unformatted (events ++ [.staged xs.length]) :=
      unformatted_append hu (by simp [Unformatted])
    refine commitAll_rewriting (Rewriting.refl.emit hm) fun x hx => ?_
    rw [← map_file_of_stagedAs hxs]
    exact List.mem_map_of_mem hx
  · rw [hs]
    exact Rewriting.refl.emit hu

theorem rewriteFiles_rewriting (s : Settings) (a : Access) (p : Progress) (fs : List Found) :
    Rewriting s a fs p (rewriteFiles s a p fs).1 := by
  unfold rewriteFiles
  split
  · exact runFailFast_rewriting .refl fun g hg => hg
  · exact runStaged_rewriting s a p fs

end Rewriting

/-- A phase in which files are projected and written calls no formatter, and in a dry run it leaves
everything as it is. -/
structure Phase (s : Settings) (p : Progress) (x : Progress × Option Failure) : Prop where
  quiet : Quiet p x.1
  dry : s.dryRun = true → x.1.tree = p.tree

theorem commit_phase (s : Settings) (a : Access) (p : Progress) (x : Projected) :
    Phase s p (commit s a p x) := by
  obtain ⟨u, -, ⟨hc, hd⟩ | ⟨hd, r, hc⟩⟩ := commit_outcome s a p x
  · rw [hc]
    exact ⟨⟨[], by simp, by simp [Unformatted]⟩, hd⟩
  · rw [hc]
    exact ⟨⟨[], by simp, by simp [Unformatted]⟩, by simp [hd]⟩

theorem Rewriting.phase (h : Rewriting s a fs p x.1) : Phase s p x := by
  obtain ⟨q, failure⟩ := x
  dsimp only at h
  induction h with
  | refl => exact ⟨.refl p, fun _ => rfl⟩
  | emit _ hu ih => exact ⟨ih.quiet.trans (.emit _ hu), ih.dry⟩
  | @commit q x _ _ ih =>
    have hc := commit_phase s a q x
    exact ⟨ih.quiet.trans hc.quiet, fun hd => (hc.dry hd).trans (ih.dry hd)⟩

theorem runStaged_phase (s : Settings) (a : Access) (p : Progress) (fs : List Found) :
    Phase s p (runStaged s a p fs) := (runStaged_rewriting s a p fs).phase

theorem rewriteFiles_phase (s : Settings) (a : Access) (p : Progress) (fs : List Found) :
    Phase s p (rewriteFiles s a p fs) := (rewriteFiles_rewriting s a p fs).phase

theorem rewriteFiles_of_stage (hn : (fs.map (·.location)).Nodup)
    (h : stage s a p.tree fs = (events, .ok xs)) :
    EndAlike (rewriteFiles s a p fs) (commitAll s a p xs) := by
  unfold rewriteFiles
  split
  · exact runFailFast_of_stage hn h
  · exact runStaged_of_stage h

theorem rewriteFiles_outcome (hn : (fs.map (·.location)).Nodup)
    (h : stage s a p.tree fs = (events, .ok xs)) :
    (∃ p', rewriteFiles s a p fs = (p', none) ∧ p'.report = xs.foldl Report.add p.report) ∨
      s.dryRun = false ∧ ∃ f ∈ fs, ∃ r, (rewriteFiles s a p fs).2 = some (.writing f.path r) := by
  have halike := rewriteFiles_of_stage hn h
  have hfiles := map_file_of_stagedAs (forall₂_of_stage h)
  rcases commitAll_outcome s a p xs with ⟨u, hc, -⟩ | ⟨hd, q, x, r, hx, hc⟩
  · left
    rw [hc] at halike
    obtain ⟨p', hr, hp'⟩ := halike.exists_completed
    exact ⟨p', hr, hp'.report⟩
  · right
    refine ⟨hd, x.file, hfiles ▸ List.mem_map_of_mem hx, r, ?_⟩
    rw [halike.failure, hc]

theorem rewriteFiles_of_unprojectable {after : List Found}
    (hn : ((before ++ f :: after).map (·.location)).Nodup) (hb : AllProject s a p.tree before)
    (hf : Unprojectable s a p.tree f e) :
    (rewriteFiles s a p (before ++ f :: after)).2 = some e ∨
      s.commit = .failFast ∧ s.dryRun = false ∧ ∃ g ∈ before, ∃ r,
        (rewriteFiles s a p (before ++ f :: after)).2 = some (.writing g.path r) := by
  unfold rewriteFiles
  cases s.commit with
  | failFast =>
    rcases runFailFast_of_unprojectable hn hb hf with h | h
    · exact .inl h
    · exact .inr ⟨rfl, h⟩
  | staged =>
    obtain ⟨events, -, h⟩ := runStaged_of_unprojectable p hb hf after
    exact .inl (by rw [h])

section Found

variable {found : List Found} (hs : s.fault? = none) (hf : findFiles t root = .ok found)
  (hn : ((Selection.ofFound s found).files.map (·.location)).Nodup)

include hs hf hn

theorem runBatch_of_stage
    (h : stage s a t (Selection.ofFound s found).files = (events, .ok xs))
    (formatters : List Formatter) :
    (∃ p, p.report = xs.foldl Report.add (selected s root t found).report ∧
        runBatch s formatters a root t = finish s.dryRun formatters root (p, none)) ∨
      s.dryRun = false ∧ ∃ f ∈ (Selection.ofFound s found).files, ∃ r,
        (runBatch s formatters a root t).result = .error (.writing f.path r) := by
  rw [runBatch_of_found hs hf]
  rcases rewriteFiles_outcome (p := selected s root t found) hn h with
    ⟨p, hr, hp⟩ | ⟨hd, f, hfiles, r, hr⟩
  · exact .inl ⟨p, hp, by rw [hr]⟩
  · exact .inr ⟨hd, f, hfiles, r, by rw [finish_of_failed hr]; rfl⟩

theorem runBatch_of_unprojectable {after : List Found}
    (hfiles : (Selection.ofFound s found).files = before ++ f :: after)
    (hb : AllProject s a t before) (he : Unprojectable s a t f e) (formatters : List Formatter) :
    (runBatch s formatters a root t).result = .error e ∨
      s.commit = .failFast ∧ s.dryRun = false ∧ ∃ g ∈ before, ∃ r,
        (runBatch s formatters a root t).result = .error (.writing g.path r) := by
  rw [hfiles] at hn
  rw [runBatch_of_found hs hf, hfiles]
  rcases rewriteFiles_of_unprojectable (p := selected s root t found) hn hb he with
    h | ⟨hc, hd, g, hg, r, h⟩
  · exact .inl (by rw [finish_of_failed h]; rfl)
  · exact .inr ⟨hc, hd, g, hg, r, by rw [finish_of_failed h]; rfl⟩

end Found

end StructProjection
