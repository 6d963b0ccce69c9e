import Mathlib.Data.List.Forall2
import StructProjection.Proofs.Batch.Alike

/-! # Projecting all files, and then writing them

Where all files have projections, it comes to the same whether each file is written as soon as it is
projected or all files are written in the end. Where one has none, it ends the batch in either mode,
unless a file before it cannot be written.
-/

namespace StructProjection

open Files

variable {s s' : Settings} {a : Access} {t u : Tree} {p p' : Progress} {f : Found} {x : Projected}
  {fs before : List Found} {xs : List Projected} {events : List Event} {e : Failure} {root : Path}

/-! ## Projecting -/

/-- All files have projections. -/
def AllProject (s : Settings) (a : Access) (t : Tree) (files : List Found) : Prop :=
  ∀ f ∈ files, ∃ text output, Projects s a t f text output

theorem Projects.congr {text output : String} (hs : s.strip = s'.strip)
    (h : Projects s a t f text output) : Projects s' a t f text output := ⟨h.read, hs ▸ h.projected⟩

theorem Unprojectable.congr (hs : s.strip = s'.strip) (h : Unprojectable s a t f e) :
    Unprojectable s' a t f e := by
  cases h with
  | unreadable refused => exact .unreadable refused
  | notText read bad => exact .notText read bad
  | notParsable read bad => exact .notParsable read (hs ▸ bad)

theorem AllProject.congr (hs : s.strip = s'.strip) (h : AllProject s a t fs) :
    AllProject s' a t fs := by
  intro f hf
  obtain ⟨text, output, hp⟩ := h f hf
  exact ⟨text, output, hp.congr hs⟩

theorem AllProject.not_unprojectable (h : AllProject s a t fs) :
    ∀ f ∈ fs, ¬ ∃ e, Unprojectable s a t f e := by
  rintro f hf ⟨e, he⟩
  obtain ⟨text, output, hp⟩ := h f hf
  exact he.not_projects hp

/-- A file with its projection, ready to be written. -/
inductive StagedAs (s : Settings) (a : Access) (t : Tree) (f : Found) : Projected → Prop
  | mk {text output : String} (h : Projects s a t f text output) :
      StagedAs s a t f ⟨f, output, decide (output ≠ text)⟩

theorem StagedAs.file_eq (h : StagedAs s a t f x) : x.file = f := by
  cases h
  rfl

theorem projectFile_of_projects {text output : String} (h : Projects s a t f text output) :
    (projectFile s a t f).2 = .ok ⟨f, output, decide (output ≠ text)⟩ := by
  rcases projectFile_cases s a t f with ⟨e, -, he⟩ | ⟨text', output', hf, hp⟩
  · exact absurd h he.not_projects
  · obtain ⟨rfl, rfl⟩ := h.unique hp
    exact hf

theorem projectFile_of_unprojectable (h : Unprojectable s a t f e) :
    (projectFile s a t f).2 = .error e := by
  rcases projectFile_cases s a t f with ⟨e', hf, he⟩ | ⟨text, output, -, hp⟩
  · rw [hf, h.unique he]
  · exact absurd hp h.not_projects

theorem projectFile_of_sameAt (h : Tree.SameAt f.location t u) :
    projectFile s a u f = projectFile s a t f := by rw [projectFile, projectFile, h a]

theorem stage_of_sameAt (h : ∀ f ∈ fs, Tree.SameAt f.location t u) :
    stage s a u fs = stage s a t fs := by
  induction fs with
  | nil => rfl
  | cons f fs ih =>
    rw [stage, stage, projectFile_of_sameAt (h f (by simp)),
      ih fun g hg => h g (List.mem_cons_of_mem _ hg)]

theorem stage_congr (h : s.strip = s'.strip) (fs : List Found) :
    stage s a t fs = stage s' a t fs := by
  induction fs with
  | nil => rfl
  | cons f fs ih => rw [stage, stage, projectFile, projectFile, h, ih]

/-- Either all files are projected, or the first is found that has no projection. -/
theorem stage_cases (s : Settings) (a : Access) (t : Tree) (fs : List Found) :
    (∃ events xs, stage s a t fs = (events, .ok xs) ∧ Unformatted events ∧
        List.Forall₂ (StagedAs s a t) fs xs) ∨
      ∃ before f after events e, fs = before ++ f :: after ∧
        stage s a t fs = (events, .error e) ∧ Unformatted events ∧
        AllProject s a t before ∧ Unprojectable s a t f e := by
  induction fs with
  | nil => exact .inl ⟨[], [], rfl, by simp [Unformatted], .nil⟩
  | cons f fs ih =>
    have hu := unformatted_projectFile s a t f
    cases hf : projectFile s a t f with
    | mk events result =>
      have hc := projectFile_cases s a t f
      rw [hf] at hu hc
      rcases hc with ⟨e, rfl, he⟩ | ⟨text, output, rfl, hp⟩
      · refine .inr ⟨[], f, fs, events, e, rfl, ?_, hu, by simp [AllProject], he⟩
        rw [stage, hf]
      · rcases ih with ⟨more, xs, hs, hm, hxs⟩ | ⟨before, g, after, more, e, rfl, hs, hm, hb, hg⟩
        · refine .inl ⟨events ++ more, _, ?_, unformatted_append hu hm, .cons (.mk hp) hxs⟩
          rw [stage, hf, hs]
        · refine .inr ⟨f :: before, g, after, events ++ more, e, rfl, ?_,
            unformatted_append hu hm, ?_, hg⟩
          · rw [stage, hf, hs]
          · exact List.forall_mem_cons.mpr ⟨⟨text, output, hp⟩, hb⟩

theorem stage_of_unprojectable (hb : AllProject s a t before) (hf : Unprojectable s a t f e)
    (after : List Found) : (stage s a t (before ++ f :: after)).2 = .error e := by
  induction before with
  | nil =>
    have hp := projectFile_of_unprojectable hf
    rw [List.nil_append, stage]
    generalize projectFile s a t f = c at hp ⊢
    obtain ⟨events, result⟩ := c
    obtain rfl : result = .error e := hp
    rfl
  | cons g before ih =>
    obtain ⟨⟨text, output, hg⟩, hb⟩ := List.forall_mem_cons.mp hb
    have hp := projectFile_of_projects hg
    have hs := ih hb
    rw [List.cons_append, stage]
    generalize projectFile s a t g = c at hp ⊢
    generalize stage s a t (before ++ f :: after) = d at hs ⊢
    obtain ⟨events, result⟩ := c
    obtain ⟨more, results⟩ := d
    obtain rfl : result = _ := hp
    obtain rfl : results = .error e := hs
    rfl

theorem stage_cons (h : stage s a t (f :: fs) = (events, .ok xs)) :
    ∃ early late x ys, projectFile s a t f = (early, .ok x) ∧ Unformatted early ∧
      StagedAs s a t f x ∧ stage s a t fs = (late, .ok ys) ∧ xs = x :: ys := by
  have hu := unformatted_projectFile s a t f
  have hc := projectFile_cases s a t f
  rw [stage] at h
  cases hf : projectFile s a t f with
  | mk early result =>
    rw [hf] at h hu hc
    rcases hc with ⟨e, rfl, -⟩ | ⟨text, output, rfl, hp⟩
    · simp at h
    · cases hs : stage s a t fs with
      | mk late result =>
        cases result with
        | error e => simp [hs] at h
        | ok ys =>
          simp only [hs, Prod.mk.injEq, Except.ok.injEq] at h
          obtain ⟨-, rfl⟩ := h
          exact ⟨early, late, _, ys, rfl, hu, .mk hp, rfl, rfl⟩

theorem allProject_of_stagedAs (h : List.Forall₂ (StagedAs s a t) fs xs) :
    AllProject s a t fs := by
  intro f hf
  induction h with
  | nil => simp at hf
  | cons hx _ ih =>
    rcases List.mem_cons.mp hf with rfl | hf
    · obtain ⟨hp⟩ := hx
      exact ⟨_, _, hp⟩
    · exact ih hf

theorem allProject_or_exists_unprojectable (s : Settings) (a : Access) (t : Tree)
    (fs : List Found) :
    AllProject s a t fs ∨ ∃ before f after e, fs = before ++ f :: after ∧
      AllProject s a t before ∧ Unprojectable s a t f e := by
  rcases stage_cases s a t fs with
    ⟨events, xs, -, -, hxs⟩ | ⟨before, f, after, events, e, hfs, -, -, hb, hf⟩
  · exact .inl (allProject_of_stagedAs hxs)
  · exact .inr ⟨before, f, after, e, hfs, hb, hf⟩

theorem forall₂_of_stage (h : stage s a t fs = (events, .ok xs)) :
    List.Forall₂ (StagedAs s a t) fs xs := by
  rcases stage_cases s a t fs with
    ⟨more, ys, hs, -, hys⟩ | ⟨before, f, after, more, e, -, hs, -⟩
  · obtain ⟨-, rfl⟩ : _ ∧ xs = ys := by simpa [h] using hs
    exact hys
  · simp [h] at hs

theorem minor_stage (s : Settings) (a : Access) (t : Tree) (fs : List Found) :
    Minor (stage s a t fs).1 := by
  induction fs with
  | nil => simp [stage, Minor]
  | cons f fs ih =>
    have hf := minor_projectFile s a t f
    rw [stage]
    generalize projectFile s a t f = c at hf ⊢
    generalize stage s a t fs = d at ih ⊢
    obtain ⟨events, _ | x⟩ := c
    · exact hf
    · obtain ⟨more, _ | xs⟩ := d <;> exact minor_append hf ih

theorem unformatted_stage (s : Settings) (a : Access) (t : Tree) (fs : List Found) :
    Unformatted (stage s a t fs).1 := (minor_stage s a t fs).unformatted

theorem exists_stage (h : AllProject s a t fs) :
    ∃ events xs, stage s a t fs = (events, .ok xs) ∧ List.Forall₂ (StagedAs s a t) fs xs := by
  rcases stage_cases s a t fs with
    ⟨events, xs, hs, -, hxs⟩ | ⟨before, f, after, events, e, rfl, -, -, -, hf⟩
  · exact ⟨events, xs, hs, hxs⟩
  · obtain ⟨text, output, hp⟩ := h f (by simp)
    exact absurd hp hf.not_projects

theorem map_file_of_stagedAs (h : List.Forall₂ (StagedAs s a t) fs xs) :
    xs.map (·.file) = fs := by
  induction h with
  | nil => rfl
  | cons hx _ ih => rw [List.map_cons, hx.file_eq, ih]

/-- A list is cut in one way only at the first of its elements that are bad. -/
theorem eq_of_first {α : Type} {bad : α → Prop} {l m l' m' : List α} {x y : α}
    (h : l ++ x :: l' = m ++ y :: m') (hl : ∀ z ∈ l, ¬ bad z) (hx : bad x)
    (hm : ∀ z ∈ m, ¬ bad z) (hy : bad y) : l = m ∧ x = y ∧ l' = m' := by
  induction l generalizing m with
  | nil =>
    cases m with
    | nil => simpa using h
    | cons z m =>
      obtain ⟨rfl, -⟩ := List.cons.inj h
      exact absurd hx (hm x (by simp))
  | cons z l ih =>
    cases m with
    | nil =>
      obtain ⟨rfl, -⟩ := List.cons.inj h
      exact absurd hy (hl z (by simp))
    | cons w m =>
      obtain ⟨rfl, ht⟩ := List.cons.inj h
      obtain ⟨rfl, hxy⟩ := ih ht (List.forall_mem_cons.mp hl).2 (List.forall_mem_cons.mp hm).2
      exact ⟨rfl, hxy⟩

/-! ## Writing -/

/-- The report with one more file. -/
def Report.add (r : Report) (x : Projected) : Report :=
  if x.changed then { r with projected := r.projected ++ [x.file.path] }
  else { r with unchanged := r.unchanged ++ [x.file.path] }

theorem foldl_add (xs : List Projected) (r : Report) :
    xs.foldl Report.add r = { r with
      projected := r.projected ++ (xs.filter (·.changed)).map (·.file.path)
      unchanged := r.unchanged ++ (xs.filter (!·.changed)).map (·.file.path) } := by
  induction xs generalizing r with
  | nil => simp
  | cons x xs ih =>
    rw [List.foldl_cons, ih, Report.add]
    by_cases hc : x.changed <;> simp [hc]

theorem foldl_add_formattersRun (xs : List Projected) (r : Report) :
    (xs.foldl Report.add r).formattersRun = r.formattersRun := by rw [foldl_add]

theorem foldl_add_dryRun (xs : List Projected) (r : Report) (b : Bool) :
    xs.foldl Report.add { r with dryRun := b } = { xs.foldl Report.add r with dryRun := b } := by
  rw [foldl_add, foldl_add]

theorem commit_outcome (s : Settings) (a : Access) (p : Progress) (x : Projected) :
    ∃ u, (∀ l, l ≠ x.file.location → Tree.SameAt l p.tree u) ∧
      ((commit s a p x = (⟨u, p.report.add x, p.events⟩, none) ∧ (s.dryRun = true → u = p.tree)) ∨
        s.dryRun = false ∧ ∃ r,
          commit s a p x = (⟨u, p.report, p.events⟩, some (.writing x.file.path r))) := by
  unfold commit Report.add
  cases x.changed with
  | false => exact ⟨p.tree, fun l _ => .refl l _, .inl ⟨rfl, fun _ => rfl⟩⟩
  | true =>
    cases s.dryRun with
    | true => exact ⟨p.tree, fun l _ => .refl l _, .inl ⟨rfl, fun _ => rfl⟩⟩
    | false =>
      have hw := fun l (hl : l ≠ x.file.location) =>
        Tree.sameAt_overwrite hl p.tree a x.output.toUTF8
      cases ho : p.tree.overwrite a x.file.location x.output.toUTF8 with
      | mk u refusal =>
        rw [ho] at hw
        cases refusal with
        | none => exact ⟨u, hw, .inl ⟨rfl, by simp⟩⟩
        | some r => exact ⟨u, hw, .inr ⟨rfl, r, rfl⟩⟩

theorem sameAt_commit (s : Settings) (a : Access) (p : Progress) (x : Projected) {l : Location}
    (hl : l ≠ x.file.location) : Tree.SameAt l p.tree (commit s a p x).1.tree := by
  obtain ⟨u, hu, ⟨hc, -⟩ | ⟨-, r, hc⟩⟩ := commit_outcome s a p x
  · rw [hc]
    exact hu l hl
  · rw [hc]
    exact hu l hl

theorem commitAll_outcome (s : Settings) (a : Access) (p : Progress) (xs : List Projected) :
    (∃ u, commitAll s a p xs = (⟨u, xs.foldl Report.add p.report, p.events⟩, none) ∧
        (∀ l, l ∉ xs.map (·.file.location) → Tree.SameAt l p.tree u) ∧
        (s.dryRun = true → u = p.tree)) ∨
      s.dryRun = false ∧ ∃ p' x r, x ∈ xs ∧
        commitAll s a p xs = (p', some (.writing x.file.path r)) := by
  induction xs generalizing p with
  | nil => exact .inl ⟨p.tree, rfl, fun l _ => .refl l _, fun _ => rfl⟩
  | cons x xs ih =>
    obtain ⟨u, hu, ⟨hc, hdry⟩ | ⟨hd, r, hc⟩⟩ := commit_outcome s a p x
    · rcases ih ⟨u, p.report.add x, p.events⟩ with
        ⟨v, hr, hv, hdry'⟩ | ⟨hd, p', y, r, hy, hr⟩
      · refine .inl ⟨v, ?_, fun l hl => ?_, fun h => (hdry' h).trans (hdry h)⟩
        · rw [commitAll, hc]
          exact hr
        · rw [List.map_cons, List.mem_cons, not_or] at hl
          exact (hu l hl.1).trans (hv l hl.2)
      · refine .inr ⟨hd, p', y, r, List.mem_cons_of_mem _ hy, ?_⟩
        rw [commitAll, hc]
        exact hr
    · refine .inr ⟨hd, ?_⟩
      rw [commitAll, hc]
      dsimp only
      split <;> exact ⟨_, x, r, by simp, rfl⟩

theorem commitAll_congr (h : s.dryRun = s'.dryRun) (p : Progress) (xs : List Projected) :
    commitAll s a p xs = commitAll s' a p xs := by
  induction xs generalizing p with
  | nil => rfl
  | cons x xs ih => simp only [commitAll, commit, h, ih]

/-- Where all files have projections, it makes no difference whether a file is written before the
next is projected: the files lie at different places. -/
theorem runFailFast_of_stage (hn : (fs.map (·.location)).Nodup)
    (h : stage s a p.tree fs = (events, .ok xs)) :
    EndAlike (runFailFast s a p fs) (commitAll s a p xs) := by
  induction fs generalizing p xs events with
  | nil =>
    obtain ⟨-, rfl⟩ : [] = events ∧ [] = xs := by simpa [stage] using h
    exact .refl _
  | cons f fs ih =>
    rw [List.map_cons, List.nodup_cons] at hn
    obtain ⟨early, late, x, ys, hf, hu, hx, hs, rfl⟩ := stage_cons h
    -- The files behind lie elsewhere, so that they are still projected as in the beginning.
    have hframe : ∀ g ∈ fs, Tree.SameAt g.location p.tree (commit s a (p.emit early) x).1.tree := by
      intro g hg
      refine sameAt_commit s a (p.emit early) x fun hl => hn.1 (List.mem_map.mpr ⟨g, hg, ?_⟩)
      rw [hl, hx.file_eq]
    have hc := commit_alike s a (.emit p hu) x
    rw [runFailFast, handle, hf, commitAll]
    dsimp only
    generalize commit s a (p.emit early) x = c at hc hframe ⊢
    generalize commit s a p x = d at hc ⊢
    cases hc with
    | completed hc =>
      have hs' := (stage_of_sameAt hframe).trans hs
      exact (ih hn.2 hs').trans (commitAll_alike s a hc ys)
    | failed e tree calls =>
      exact .warned e tree calls (by simp [Unformatted]) (by simp [Unformatted]) _ _

theorem runFailFast_of_handled (fs : List Found) (h : handle s a p f = (p', none)) :
    runFailFast s a p (f :: fs) = runFailFast s a p' fs := by rw [runFailFast, h]

theorem runFailFast_of_failed (fs : List Found) (h : handle s a p f = (p', some e)) :
    ∃ p'', runFailFast s a p (f :: fs) = (p'', some e) ∧ p''.tree = p'.tree ∧ Quiet p' p'' := by
  rw [runFailFast, h]
  dsimp only
  split
  · exact ⟨_, rfl, rfl, .emit p' (by simp [Unformatted])⟩
  · exact ⟨p', rfl, rfl, .refl p'⟩

theorem runFailFast_append_of_completed (after : List Found)
    (h : runFailFast s a p before = (p', none)) :
    runFailFast s a p (before ++ after) = runFailFast s a p' after := by
  induction before generalizing p with
  | nil =>
    obtain rfl : p = p' := by simpa [runFailFast] using h
    rfl
  | cons f before ih =>
    rcases hh : handle s a p f with ⟨p₁, _ | e⟩
    · rw [runFailFast_of_handled _ hh] at h
      rw [List.cons_append, runFailFast_of_handled _ hh]
      exact ih h
    · obtain ⟨p₂, hr, -⟩ := runFailFast_of_failed before hh
      simp [hr] at h

theorem runFailFast_append_of_failed (after : List Found)
    (h : (runFailFast s a p before).2 = some e) :
    (runFailFast s a p (before ++ after)).2 = some e := by
  induction before generalizing p with
  | nil => simp [runFailFast] at h
  | cons f before ih =>
    rcases hh : handle s a p f with ⟨p₁, _ | e'⟩
    · rw [runFailFast_of_handled _ hh] at h
      rw [List.cons_append, runFailFast_of_handled _ hh]
      exact ih h
    · obtain ⟨p₂, hr, -⟩ := runFailFast_of_failed before hh
      obtain ⟨p₃, hr', -⟩ := runFailFast_of_failed (before ++ after) hh
      rw [hr] at h
      rw [List.cons_append, hr']
      exact h

theorem exists_handle_of_unprojectable (h : Unprojectable s a p.tree f e) :
    ∃ p', handle s a p f = (p', some e) := by
  have hp := projectFile_of_unprojectable h
  rw [handle]
  generalize projectFile s a p.tree f = c at hp ⊢
  obtain ⟨events, result⟩ := c
  obtain rfl : result = .error e := hp
  exact ⟨_, rfl⟩

/-- The first file without a projection ends the batch, unless a file before it cannot be written. -/
theorem runFailFast_of_unprojectable {after : List Found}
    (hn : ((before ++ f :: after).map (·.location)).Nodup) (hb : AllProject s a p.tree before)
    (hf : Unprojectable s a p.tree f e) :
    (runFailFast s a p (before ++ f :: after)).2 = some e ∨
      s.dryRun = false ∧ ∃ g ∈ before, ∃ r,
        (runFailFast s a p (before ++ f :: after)).2 = some (.writing g.path r) := by
  rw [List.map_append, List.map_cons, List.nodup_append] at hn
  obtain ⟨hnb, -, hne⟩ := hn
  obtain ⟨events, xs, hs, hxs⟩ := exists_stage hb
  have hfiles := map_file_of_stagedAs hxs
  have hstage := runFailFast_of_stage hnb hs
  rcases commitAll_outcome s a p xs with ⟨u, hc, hu, -⟩ | ⟨hd, p', x, r, hx, hc⟩
  · left
    rw [hc] at hstage
    obtain ⟨p', hr, halike⟩ := hstage.exists_completed
    -- None of the files that have been written is the one at fault.
    have hsame : Tree.SameAt f.location p'.tree p.tree := by
      rw [halike.tree]
      refine (hu _ fun hm => hne f.location ?_ _ (by simp) rfl).symm
      rw [← hfiles, List.map_map]
      exact hm
    obtain ⟨q, hh⟩ := exists_handle_of_unprojectable (hf.of_sameAt hsame)
    obtain ⟨q', hr', -⟩ := runFailFast_of_failed after hh
    rw [runFailFast_append_of_completed _ hr, hr']
  · right
    refine ⟨hd, x.file, hfiles ▸ List.mem_map_of_mem hx, r, ?_⟩
    apply runFailFast_append_of_failed
    rw [hstage.failure, hc]

theorem runStaged_of_stage (h : stage s a p.tree fs = (events, .ok xs)) :
    EndAlike (runStaged s a p fs) (commitAll s a p xs) := by
  have hu := unformatted_stage s a p.tree fs
  rw [runStaged, h]
  rw [h] at hu
  exact commitAll_alike s a (.emit p (unformatted_append hu (by simp [Unformatted]))) xs

/-- The first file without a projection ends the batch before anything is written. -/
theorem runStaged_of_unprojectable (p : Progress) (hb : AllProject s a p.tree before)
    (hf : Unprojectable s a p.tree f e) (after : List Found) :
    ∃ events, Unformatted events ∧
      runStaged s a p (before ++ f :: after) = (p.emit events, some e) := by
  have hs := stage_of_unprojectable hb hf after
  have hu := unformatted_stage s a p.tree (before ++ f :: after)
  rw [runStaged]
  generalize stage s a p.tree (before ++ f :: after) = c at hs hu ⊢
  obtain ⟨events, result⟩ := c
  obtain rfl : result = .error e := hs
  exact ⟨events, hu, rfl⟩

end StructProjection
