import Mathlib.Data.List.Forall2
import StructProjection.Proofs.Batch.Report
import StructProjection.Proofs.Batch.Staged
import StructProjection.Proofs.Lists

/-! # What a batch tells when it stops

A batch that stops after it has written files tells at which file it stops, how many files it has
rewritten and how many it has left untouched. The first number is right. The second counts the file
that it stops at, and a write that was cut off has not left that file untouched.
-/

namespace StructProjection

open Files Go

variable {s : Settings} {a : Access} {t u v : Tree} {p q q' p' : Progress} {f : Found}
  {fs before after : List Found} {x : Projected} {xs ys : List Projected} {e : Failure}
  {events more : List Event} {left : Option ByteArray} {root : Path}

/-- What is told of a batch that stops at a file. -/
structure Tally where
  path : Path
  written : Nat
  untouched : Nat
  deriving DecidableEq, Repr

def Event.tally? : Event → Option Tally
  | .aborted path written untouched | .commitFailed path written untouched =>
    some ⟨path, written, untouched⟩
  | _ => none

def tallies (events : List Event) : List Tally := events.filterMap Event.tally?

/-- Nothing is told where nothing has been written. -/
def tallyOf (path : Path) (written untouched : Nat) : List Tally :=
  if 0 < written then [⟨path, written, untouched⟩] else []

theorem tallies_append (events more : List Event) :
    tallies (events ++ more) = tallies events ++ tallies more := List.filterMap_append

/-- Tallies are warnings. -/
theorem Minor.tallies_eq_nil (h : Minor events) : tallies events = [] := by
  refine List.filterMap_eq_nil_iff.mpr fun event hm => ?_
  have hlevel := h event hm
  cases event <;> first | rfl | simp [Event.level] at hlevel

theorem tallies_selected (s : Settings) (root : Path) (t : Tree) (found : List Found) :
    tallies (selected s root t found).events = [] := by
  rw [selected, tallies_append, (minor_selection s found).tallies_eq_nil]
  rfl

/-! ## Steps -/

theorem commit_told (s : Settings) (a : Access) (p : Progress) (x : Projected) :
    (commit s a p x).1.events = p.events ∧
      ((commit s a p x).2 ≠ none → (commit s a p x).1.report = p.report) := by
  obtain ⟨u, -, ⟨hc, -⟩ | ⟨-, r, hc⟩⟩ := commit_outcome s a p x
  · simp [hc]
  · simp [hc]

theorem handle_told (s : Settings) (a : Access) (p : Progress) (f : Found) :
    tallies (handle s a p f).1.events = tallies p.events ∧
      ((handle s a p f).2 ≠ none → (handle s a p f).1.report = p.report) := by
  have hm := (minor_projectFile s a p.tree f).tallies_eq_nil
  rw [handle]
  generalize projectFile s a p.tree f = c at hm ⊢
  have htold : tallies (p.emit c.1).events = tallies p.events := by
    rw [Progress.emit, tallies_append, hm, List.append_nil]
  obtain ⟨events, _ | x⟩ := c
  · exact ⟨htold, fun _ => rfl⟩
  · obtain ⟨hevents, hreport⟩ := commit_told s a (p.emit events) x
    exact ⟨(congrArg tallies hevents).trans htold, hreport⟩

/-! ## Runs -/

section Runs

variable {α : Type} {step : Progress → α → Progress × Option Failure}
  {warn : Progress → α → List α → Progress}
  {run : Progress → List α → Progress × Option Failure} {bs : List α}

/-- The steps are taken one after the other up to the first that fails, and this is told. -/
structure TakesSteps (step : Progress → α → Progress × Option Failure)
    (warn : Progress → α → List α → Progress)
    (run : Progress → List α → Progress × Option Failure) : Prop where
  nil : ∀ p, run p [] = (p, none)
  cons : ∀ p b bs, run p (b :: bs) =
    match step p b with
    | (q, none) => run q bs
    | (q, some e) => (warn q b bs, some e)
  told : ∀ p b, tallies (step p b).1.events = tallies p.events

theorem TakesSteps.tallies_of_completed (h : TakesSteps step warn run)
    (hrun : run p bs = (q, none)) : tallies q.events = tallies p.events := by
  induction bs generalizing p with
  | nil =>
    rw [h.nil] at hrun
    rw [(Prod.mk.inj hrun).1]
  | cons b bs ih =>
    have htold := h.told p b
    rw [h.cons] at hrun
    generalize step p b = c at htold hrun
    obtain ⟨p₁, _ | e⟩ := c
    · exact (ih hrun).trans htold
    · cases hrun

/-- A run that fails is cut at the step that fails. -/
theorem TakesSteps.exists_cut (h : TakesSteps step warn run) (hrun : run p bs = (p', some e)) :
    ∃ before b after q q', bs = before ++ b :: after ∧ run p before = (q, none) ∧
      step q b = (q', some e) ∧ p' = warn q' b after ∧ tallies q'.events = tallies p.events := by
  induction bs generalizing p with
  | nil =>
    rw [h.nil] at hrun
    cases hrun
  | cons b bs ih =>
    have htold := h.told p b
    rw [h.cons] at hrun
    cases hstep : step p b with
    | mk p₁ failure =>
      rw [hstep] at hrun htold
      cases failure with
      | none =>
        obtain ⟨before, c, after, q, q', rfl, hbefore, hc, hp', htold'⟩ := ih hrun
        refine ⟨b :: before, c, after, q, q', rfl, ?_, hc, hp', htold'.trans htold⟩
        rw [h.cons, hstep]
        exact hbefore
      | some e' =>
        obtain ⟨rfl, he⟩ := Prod.mk.inj hrun
        obtain rfl := Option.some.inj he
        exact ⟨[], b, bs, p, p₁, rfl, h.nil p, hstep, rfl, htold⟩

end Runs

/-- A warning that a batch has stopped at a file, if it has written any. -/
def Progress.warned (event : Path → Nat → Nat → Event) (p : Progress) (path : Path)
    (untouched : Nat) : Progress :=
  if 0 < p.report.projected.length then p.emit [event path p.report.projected.length untouched]
  else p

theorem Progress.tallies_warned {event : Path → Nat → Nat → Event}
    (h : ∀ path m n, (event path m n).tally? = some ⟨path, m, n⟩) (p : Progress) (path : Path)
    (n : Nat) : tallies (p.warned event path n).events =
      tallies p.events ++ tallyOf path p.report.projected.length n := by
  rw [warned, tallyOf]
  split
  · rw [emit, tallies_append, tallies, tallies, List.filterMap_cons, h]
    rfl
  · rw [List.append_nil]

theorem takesSteps_runFailFast (hd : s.dryRun = false) (a : Access) :
    TakesSteps (handle s a) (fun p f fs => p.warned .aborted f.path (fs.length + 1))
      (runFailFast s a) where
  nil _ := rfl
  cons p f fs := by
    rw [runFailFast]
    generalize handle s a p f = c
    obtain ⟨q, _ | e⟩ := c
    · rfl
    · simp only [hd, Progress.warned, Bool.not_false, Bool.and_true, decide_eq_true_eq]
      split <;> rfl
  told p f := (handle_told s a p f).1

theorem takesSteps_commitAll (s : Settings) (a : Access) :
    TakesSteps (commit s a) (fun p x xs => p.warned .commitFailed x.file.path (xs.length + 1))
      (commitAll s a) where
  nil _ := rfl
  cons p x xs := by
    rw [commitAll]
    generalize commit s a p x = c
    obtain ⟨q, _ | e⟩ := c
    · rfl
    · simp only [Progress.warned]
      split <;> rfl
  told p x := congrArg tallies (commit_told s a p x).1

@[simp] theorem Progress.tree_warned (event : Path → Nat → Nat → Event) (p : Progress) (path : Path)
    (n : Nat) : (p.warned event path n).tree = p.tree := by
  rw [warned]
  split <;> rfl

/-! ## Files that have been rewritten -/

/-- The file holds its projection, and that is not what it has held before. -/
def Rewritten (s : Settings) (t u : Tree) (f : Found) : Prop :=
  ∃ text output, t.content f.location = some text.toUTF8 ∧ project text s.strip = .ok output ∧
    output ≠ text ∧ u.content f.location = some output.toUTF8

theorem not_rewritten_of_content_eq (h : u.content f.location = t.content f.location) :
    ¬ Rewritten s t u f := by
  rintro ⟨text, output, ht, -, hne, hu⟩
  rw [hu, ht] at h
  exact hne (String.toByteArray_inj.mp (Option.some.inj h))

/-- A file that fails is not rewritten, for what has been cut off is shorter than the projection. -/
theorem Fails.not_rewritten (h : Fails s a t f e left) (hu : u.content f.location = left) :
    ¬ Rewritten s t u f := by
  cases h with
  | unprojectable => exact not_rewritten_of_content_eq hu
  | notOpened => exact not_rewritten_of_content_eq hu
  | @cutOff text output n h changed opened room short =>
    rintro ⟨text', output', ht, hp, -, hu'⟩
    obtain ⟨rfl, rfl⟩ : text = text' ∧ output = output' := by
      rw [Tree.content_of_read h.read] at ht
      obtain rfl := String.toByteArray_inj.mp (Option.some.inj ht)
      exact ⟨rfl, Except.ok.inj (h.projected.symm.trans hp)⟩
    have hsize := congrArg ByteArray.size (Option.some.inj (hu.symm.trans hu'))
    rw [ByteArray.size_extract] at hsize
    omega

theorem StagedAs.changed_iff_rewritten (h : StagedAs s a t f x) (hw : Written s a t fs u)
    (hf : f ∈ fs) : x.changed ↔ Rewritten s t u f := by
  have hchanged := h.changed_iff hw hf
  constructor
  · intro hx
    obtain ⟨text, output, hs, hu⟩ := hw f hf
    have ht := Tree.content_of_read hs.read
    refine ⟨text, output, ht, hs.projected, ?_, hu⟩
    rintro rfl
    exact hchanged.mp hx (hu.trans ht.symm)
  · intro hr
    exact hchanged.mpr fun heq => not_rewritten_of_content_eq heq hr

open Classical in
theorem countP_rewritten_of_written (hxs : List.Forall₂ (StagedAs s a t) fs xs)
    (hw : Written s a t fs u) : fs.countP (Rewritten s t u) = (xs.filter (·.changed)).length := by
  induction hxs with
  | nil => rfl
  | @cons f x fs xs hx _ ih =>
    have hiff := hx.changed_iff_rewritten hw List.mem_cons_self
    have hfs := ih fun g hg => hw g (List.mem_cons_of_mem f hg)
    by_cases hc : x.changed
    · rw [List.countP_cons_of_pos (by simpa using hiff.mp hc), List.filter_cons_of_pos hc, hfs,
        List.length_cons]
    · rw [List.countP_cons_of_neg (by simpa using hiff.not.mp hc), List.filter_cons_of_neg hc, hfs]

theorem Completed.stoppedAt (h : Completed s a t before v)
    (hn : ∀ g ∈ before, g.location ≠ f.location) (hf : Fails s a v f e left)
    (hleft : u.content f.location = left)
    (helsewhere : ∀ l, l ≠ f.location → Tree.SameAt l v u) : StoppedAt s a t before f e u where
  written g hg := by
    obtain ⟨text, output, hs, hc⟩ := h.written g hg
    exact ⟨text, output, hs, (helsewhere _ (hn g hg)).content.trans hc⟩
  failed := ⟨left, hf.of_sameAt (h.elsewhere _ fun g hg => (hn g hg).symm), hleft⟩
  elsewhere l hl hb := (h.elsewhere l hb).trans (helsewhere l hl)

section Stopped

variable (hat : StoppedAt s a t before f e u)
  (hn : ((before ++ f :: after).map (·.location)).Nodup)
include hat hn

open Classical in
/-- Only files before the one that fails are rewritten. -/
theorem StoppedAt.countP_rewritten (hxs : List.Forall₂ (StagedAs s a t) before xs) :
    (before ++ f :: after).countP (Rewritten s t u) = (xs.filter (·.changed)).length := by
  obtain ⟨left, hf, hleft⟩ := hat.failed
  have hafter : after.countP (Rewritten s t u) = 0 := by
    refine List.countP_eq_zero.mpr fun g hg => ?_
    simpa using not_rewritten_of_content_eq (hat.content_after hn hg)
  rw [List.countP_append, List.countP_cons_of_neg (by simpa using hf.not_rewritten hleft), hafter,
    countP_rewritten_of_written hxs hat.written, Nat.add_zero]

end Stopped

/-! ## Batches -/

/-- A batch has stopped at a file. The files before it hold their projections, or nothing has been
written at all, because the file has none and all are projected first. Those behind it are as they
were. -/
structure Halted (s : Settings) (a : Access) (t : Tree) (before : List Found) (f : Found)
    (after : List Found) (e : Failure) (u : Tree) : Prop where
  before : Written s a t before u ∨ s.commit = .staged ∧ Unprojectable s a t f e ∧ u = t
  failed : ∃ left, Fails s a t f e left ∧ u.content f.location = left
  content_after : ∀ g ∈ after, u.content g.location = t.content g.location

theorem forall_ne_of_nodup (hn : ((before ++ f :: after).map (·.location)).Nodup) :
    ∀ g ∈ before, g.location ≠ f.location := by
  rw [List.map_append, List.map_cons, List.nodup_append] at hn
  exact fun g hg => hn.2.2 _ (List.mem_map_of_mem hg) _ List.mem_cons_self

theorem StoppedAt.halted (h : StoppedAt s a t before f e u)
    (hn : ((before ++ f :: after).map (·.location)).Nodup) : Halted s a t before f after e u :=
  ⟨.inl h.written, h.failed, fun _ hg => h.content_after hn hg⟩

open Classical in
/-- Between the two states a batch has stopped at one of the files, and has told how many of them it has
rewritten. -/
def StopsTold (s : Settings) (a : Access) (fs : List Found) (e : Failure) (p p' : Progress) : Prop :=
  ∃ before f after, fs = before ++ f :: after ∧ Halted s a p.tree before f after e p'.tree ∧
    tallies p'.events = tallies p.events ++
      tallyOf f.path (fs.countP (Rewritten s p.tree p'.tree)) (after.length + 1)

theorem stopsTold_of_stoppedAt {event : Path → Nat → Nat → Event}
    (hevent : ∀ path m n, (event path m n).tally? = some ⟨path, m, n⟩)
    (hat : StoppedAt s a p.tree before f e q.tree)
    (hn : ((before ++ f :: after).map (·.location)).Nodup)
    (hxs : List.Forall₂ (StagedAs s a p.tree) before xs) (hp : p.report.projected = [])
    (hreport : q.report = xs.foldl Report.add p.report)
    (htold : tallies q.events = tallies p.events) :
    StopsTold s a (before ++ f :: after) e p (q.warned event f.path (after.length + 1)) := by
  have hlength : q.report.projected.length = (xs.filter (·.changed)).length := by
    rw [hreport, foldl_add, hp]
    simp
  refine ⟨before, f, after, rfl, ?_, ?_⟩
  · rw [Progress.tree_warned]
    exact hat.halted hn
  · rw [Progress.tree_warned, Progress.tallies_warned hevent, htold, hlength,
      hat.countP_rewritten hn hxs]

theorem StagedAs.rightUnique (s : Settings) (a : Access) (t : Tree) :
    Relator.RightUnique (StagedAs s a t) := by
  rintro f _ _ ⟨h⟩ ⟨h'⟩
  obtain ⟨rfl, rfl⟩ := h.unique h'
  rfl

/-- Projections that are written one after the other leave the files as a whole run does. -/
theorem completed_of_commitAll (hd : s.dryRun = false) (hn : (fs.map (·.location)).Nodup)
    (hxs : List.Forall₂ (StagedAs s a p.tree) fs xs) (h : commitAll s a p xs = (q, none)) :
    Completed s a p.tree fs q.tree := by
  obtain ⟨events, ys, hs, hys⟩ := exists_stage (allProject_of_stagedAs hxs)
  obtain rfl := List.right_unique_forall₂' (StagedAs.rightUnique s a p.tree) hxs hys
  have halike := rewriteFiles_of_stage hn hs
  rw [h] at halike
  obtain ⟨q₀, hq₀, hq⟩ := halike.exists_completed
  exact hq.tree ▸ rewriteFiles_completed hd hn hq₀

section Modes

variable (hd : s.dryRun = false) (hp : p.report.projected = [])
include hd hp

theorem runFailFast_halted (hc : s.commit = .failFast) (hn : (fs.map (·.location)).Nodup)
    (h : runFailFast s a p fs = (p', some e)) : StopsTold s a fs e p p' := by
  obtain ⟨before, f, after, q, q', rfl, hbefore, hstep, rfl, htold⟩ :=
    (takesSteps_runFailFast hd a).exists_cut h
  have hnb : (before.map (·.location)).Nodup := by
    rw [List.map_append] at hn
    exact hn.of_append_left
  have hrewrite : rewriteFiles s a p before = (q, none) := by
    rw [rewriteFiles, hc]
    exact hbefore
  obtain ⟨xs, hxs, hreport⟩ := rewriteFiles_reported hnb hrewrite
  have hcompleted := rewriteFiles_completed hd hnb hrewrite
  rcases handle_cases hd a q f with ⟨_, _, _, hh, -⟩ | ⟨_, _, left, hh, hf, hleft, hst⟩
  · cases hstep.symm.trans hh
  · obtain ⟨rfl, he⟩ := Prod.mk.inj (hstep.symm.trans hh)
    obtain rfl := Option.some.inj he
    have hsame := (handle_told s a q f).2 (by simp [hstep])
    rw [hstep] at hsame
    have hat := hcompleted.stoppedAt (forall_ne_of_nodup hn) hf hleft hst.elsewhere
    exact stopsTold_of_stoppedAt (fun _ _ _ => rfl) hat hn hxs hp (hsame.trans hreport) htold

theorem commitAll_halted (hn : (fs.map (·.location)).Nodup)
    (hxs : List.Forall₂ (StagedAs s a p.tree) fs xs)
    (h : commitAll s a p xs = (p', some e)) : StopsTold s a fs e p p' := by
  obtain ⟨ys, x, zs, q, q', rfl, hbefore, hstep, rfl, htold⟩ :=
    (takesSteps_commitAll s a).exists_cut h
  obtain ⟨before, rest, rfl, hys, hrest⟩ := exists_append_of_forall₂ hxs
  cases hrest with
  | @cons f _ after _ hx hzs =>
  have hnb : (before.map (·.location)).Nodup := by
    rw [List.map_append] at hn
    exact hn.of_append_left
  have hcompleted := completed_of_commitAll hd hnb hys hbefore
  have hreport : q.report = ys.foldl Report.add p.report := by
    rcases commitAll_outcome s a p ys with ⟨u, hc, -⟩ | ⟨-, _, _, _, -, hc⟩
    · rw [(Prod.mk.inj (hbefore.symm.trans hc)).1]
    · cases hbefore.symm.trans hc
  have hne := forall_ne_of_nodup hn
  -- What has been written lies elsewhere, so that the projection is still that of the file.
  have hsameAt := (hcompleted.elsewhere f.location fun g hg => (hne g hg).symm).symm
  obtain @⟨text, output, hproject⟩ := hx
  rcases commit_cases hd (hproject.of_sameAt hsameAt) with
    ⟨_, hh, -⟩ | ⟨_, _, left, hh, hf, hleft, hst⟩
  · cases hstep.symm.trans hh
  · obtain ⟨rfl, he⟩ := Prod.mk.inj (hstep.symm.trans hh)
    obtain rfl := Option.some.inj he
    have hsame := (commit_told s a q _).2 (by rw [hstep]; simp)
    rw [hstep] at hsame
    have hat := hcompleted.stoppedAt hne hf hleft hst.elsewhere
    rw [← hzs.length_eq]
    exact stopsTold_of_stoppedAt (fun _ _ _ => rfl) hat hn hys hp (hsame.trans hreport) htold

open Classical in
theorem runStaged_halted (hc : s.commit = .staged) (hn : (fs.map (·.location)).Nodup)
    (h : runStaged s a p fs = (p', some e)) : StopsTold s a fs e p p' := by
  have hm := minor_stage s a p.tree fs
  rcases stage_cases s a p.tree fs with
    ⟨events, xs, hs, -, hxs⟩ | ⟨before, f, after, events, e', rfl, hs, -, hb, hf⟩
  · rw [hs] at hm
    have htold : tallies (p.emit (events ++ [.staged xs.length])).events = tallies p.events := by
      rw [Progress.emit, tallies_append, tallies_append, hm.tallies_eq_nil, List.nil_append]
      exact List.append_nil _
    rw [runStaged, hs] at h
    obtain ⟨before, f, after, hfs, hhalted, htallies⟩ :=
      commitAll_halted (p := p.emit _) hd hp hn hxs h
    exact ⟨before, f, after, hfs, hhalted, htold ▸ htallies⟩
  · rw [hs] at hm
    rw [runStaged, hs] at h
    obtain ⟨rfl, he⟩ := Prod.mk.inj h
    obtain rfl := Option.some.inj he
    -- Nothing has been written, and so nothing is told.
    have hcount : (before ++ f :: after).countP (Rewritten s p.tree p.tree) = 0 :=
      List.countP_eq_zero.mpr fun g _ => by simpa using not_rewritten_of_content_eq rfl
    refine ⟨before, f, after, rfl,
      ⟨.inr ⟨hc, hf, rfl⟩, ⟨_, .unprojectable hf, rfl⟩, fun _ _ => rfl⟩, ?_⟩
    rw [Progress.emit, tallies_append, hm.tallies_eq_nil, hcount]
    rfl

theorem rewriteFiles_halted (hn : (fs.map (·.location)).Nodup)
    (h : rewriteFiles s a p fs = (p', some e)) : StopsTold s a fs e p p' := by
  unfold rewriteFiles at h
  cases hc : s.commit with
  | failFast =>
    rw [hc] at h
    exact runFailFast_halted hd hp hc hn h
  | staged =>
    rw [hc] at h
    exact runStaged_halted hd hp hc hn h

end Modes

theorem tallies_of_completed (hd : s.dryRun = false) (h : rewriteFiles s a p fs = (q, none)) :
    tallies q.events = tallies p.events := by
  unfold rewriteFiles at h
  split at h
  · exact (takesSteps_runFailFast hd a).tallies_of_completed h
  · have hm := (minor_stage s a p.tree fs).tallies_eq_nil
    rw [runStaged] at h
    generalize stage s a p.tree fs = c at h hm
    obtain ⟨events, _ | xs⟩ := c
    · cases h
    · have htold := (takesSteps_commitAll s a).tallies_of_completed h
      rw [htold, Progress.emit, tallies_append, tallies_append, hm, List.nil_append]
      exact List.append_nil _

open Classical in
/-- A batch stops at a file, which is told with the number of files that have been rewritten, or it
gets through its files, and nothing is told. -/
theorem runBatch_halted {y : Selection} (ht : t.Proper) (hs : s.fault? = none)
    (hd : s.dryRun = false) (hy : select t root s = .ok y) (a : Access) :
    (∃ before f after e o, y.files = before ++ f :: after ∧
        (∀ formatters, runBatch s formatters a root t = o) ∧ o.result = .error e ∧
        Halted s a t before f after e o.tree ∧
        tallies o.events =
          tallyOf f.path (y.files.countP (Rewritten s t o.tree)) (after.length + 1)) ∨
      ∃ p, Completed s a t y.files p.tree ∧ tallies p.events = [] ∧ ∀ formatters,
        runBatch s formatters a root t =
          (runFormatters root p formatters).1.outcome (runFormatters root p formatters).2 := by
  have hn := nodup_selected ht hy
  obtain ⟨found, hf, rfl⟩ := exists_found_of_select hy
  have htold := tallies_selected s root t found
  cases hr : rewriteFiles s a (selected s root t found) (Selection.ofFound s found).files with
  | mk p failure =>
    have hrun : ∀ formatters, runBatch s formatters a root t =
        finish false formatters root (p, failure) := fun formatters => by
      rw [runBatch_of_found hs hf, hr, hd]
    cases failure with
    | some e =>
      obtain ⟨before, f, after, hfiles, hhalted, htallies⟩ := rewriteFiles_halted hd rfl hn hr
      rw [htold] at htallies
      exact .inl ⟨before, f, after, e, p.outcome (some e), hfiles, hrun, rfl, hhalted, htallies⟩
    | none =>
      refine .inr ⟨p, rewriteFiles_completed hd hn hr, ?_, fun formatters => ?_⟩
      · rw [tallies_of_completed hd hr, htold]
      · rw [hrun, finish_of_completed rfl]

/-- The file has a new projection and is opened for it, but has too little room. -/
def CutOff (s : Settings) (a : Access) (t : Tree) (f : Found) : Prop :=
  ∃ text output n, Projects s a t f text output ∧ output ≠ text ∧ a.unwritable f.location = none ∧
    a.room f.location = some n ∧ n < output.toUTF8.size

theorem Fails.eq_content_or_cutOff (h : Fails s a t f e left) :
    left = t.content f.location ∨ CutOff s a t f := by
  cases h with
  | unprojectable | notOpened => exact .inl rfl
  | cutOff h changed opened room short => exact .inr ⟨_, _, _, h, changed, opened, room, short⟩

open Classical in
/-- What a batch tells when it stops at a file: the number of files that hold a new projection, if
there are any, and the number of those from the file on. Of these, all are as they were, except that
the write of the file itself may have been cut off. A batch that gets through its files tells no such
thing. -/
theorem runBatch_tallies {y : Selection} (ht : t.Proper) (hs : s.fault? = none)
    (hd : s.dryRun = false) (hy : select t root s = .ok y) (a : Access) :
    (∃ before f after e o, y.files = before ++ f :: after ∧
        (∀ formatters, runBatch s formatters a root t = o) ∧ o.result = .error e ∧
        e.path? = some f.path ∧
        tallies o.events =
          tallyOf f.path (y.files.countP (Rewritten s t o.tree)) (f :: after).length ∧
        (∀ g ∈ f :: after,
          o.tree.content g.location = t.content g.location ∨ g = f ∧ CutOff s a t f) ∧
        Halted s a t before f after e o.tree) ∨
      ∃ p, Completed s a t y.files p.tree ∧ tallies p.events = [] ∧ ∀ formatters,
        runBatch s formatters a root t =
          (runFormatters root p formatters).1.outcome (runFormatters root p formatters).2 := by
  rcases runBatch_halted ht hs hd hy a with
    ⟨before, f, after, e, o, hfiles, hrun, hresult, hhalted, htallies⟩ | hcompleted
  · left
    obtain ⟨left, hf, hleft⟩ := hhalted.failed
    refine ⟨before, f, after, e, o, hfiles, hrun, hresult, hf.path?_eq, htallies, ?_, hhalted⟩
    refine List.forall_mem_cons.mpr ⟨?_, fun g hg => .inl (hhalted.content_after g hg)⟩
    exact hf.eq_content_or_cutOff.imp hleft.trans fun hcut => ⟨rfl, hcut⟩
  · exact .inr hcompleted

/-- The second message cannot be opened for writing. -/
def bolted : Access :=
  { Access.free with unwritable := fun l => if l = [messageName 0x62] then some .denied else none }

theorem succeeds_messages (ha : a.Takes [messageName 0x61] keptMessage.toUTF8)
    (hr : a.unreadable [messageName 0x61] = none) :
    Succeeds { strip := .none } a messages (messageFile 0x61) message keptMessage :=
  ⟨projects_messages (by simp) rfl hr, fun _ => ha⟩

open Classical in
/-- Where the first message can be written and the second cannot, one message is rewritten. -/
theorem halted_messages {e' : Failure}
    (hgood : Succeeds { strip := .none } a messages (messageFile 0x61) message keptMessage)
    (hbad : Fails { strip := .none } a messages (messageFile 0x62) e left)
    (hfiles : [messageFile 0x61, messageFile 0x62, messageFile 0x63] = before ++ f :: after)
    (h : Halted { strip := .none } a messages before f after e' u) :
    f = messageFile 0x62 ∧ after = [messageFile 0x63] ∧ u.content [messageName 0x62] = left ∧
      [messageFile 0x61, messageFile 0x62, messageFile 0x63].countP
        (Rewritten { strip := .none } messages u) = 1 := by
  have hwritten := h.before.resolve_right fun hstaged => by simp at hstaged
  obtain ⟨left', hf, hleft⟩ := h.failed
  have hcut : before ++ f :: after = [messageFile 0x61] ++ messageFile 0x62 :: [messageFile 0x63] :=
    hfiles.symm
  obtain ⟨rfl, rfl, rfl⟩ := eq_of_first hcut hwritten.not_fails ⟨_, left', hf⟩
    (by simpa using fun e left h => Fails.not_succeeds h hgood) ⟨_, _, hbad⟩
  obtain ⟨-, rfl⟩ := hbad.unique hf
  obtain ⟨text, output, hs, hc⟩ := hwritten (messageFile 0x61) (by simp)
  obtain ⟨rfl, rfl⟩ := hgood.toProjects.unique hs.toProjects
  have hfirst : Rewritten { strip := .none } messages u (messageFile 0x61) :=
    ⟨_, _, Tree.content_of_read hs.read, hs.projected, keptMessage_ne_message, hc⟩
  have hsecond := hbad.not_rewritten hleft
  have hthird : ¬ Rewritten { strip := .none } messages u (messageFile 0x63) :=
    not_rewritten_of_content_eq (h.content_after _ (by simp))
  exact ⟨rfl, rfl, hleft, by simp [hfirst, hsecond, hthird]⟩

/-- The second message cannot be opened. One file has been rewritten, and two are left untouched. -/
theorem runBatch_tallies_messages : ∃ o,
    (∀ formatters, runBatch { strip := .none } formatters bolted ⟨[0x2E]⟩ messages = o) ∧
      tallies o.events = [⟨(messageFile 0x62).path, 1, 2⟩] ∧
      o.tree.content [messageName 0x62] = some message.toUTF8 ∧
      o.tree.content [messageName 0x63] = some message.toUTF8 := by
  have hgood : Succeeds { strip := .none } bolted messages (messageFile 0x61) message keptMessage :=
    succeeds_messages ⟨by decide +kernel, by simp [bolted, Access.free]⟩ rfl
  have hbad : Fails { strip := .none } bolted messages (messageFile 0x62)
      (.writing (messageFile 0x62).path .denied) (messages.content [messageName 0x62]) :=
    .notOpened (projects_messages (by simp) rfl rfl) keptMessage_ne_message rfl
  rcases runBatch_tallies proper_messages (by decide +kernel) rfl select_messages bolted with
    ⟨before, f, after, e, o, hfiles, hrun, -, -, htallies, -, hhalted⟩ | ⟨p, hp, -⟩
  · obtain ⟨rfl, rfl, hleft, hcount⟩ := halted_messages hgood hbad hfiles hhalted
    refine ⟨o, hrun, ?_, hleft.trans (by decide +kernel), ?_⟩
    · rw [htallies, hcount]
      rfl
    · exact (hhalted.content_after (messageFile 0x63) (by simp)).trans (by decide +kernel)
  · exact absurd ⟨_, _, hbad⟩ (hp.written.not_fails (messageFile 0x62) (by simp))

/-- The second message has room for its beginning only. It is told to be untouched, and is not. -/
theorem tallies_cutOff : ∃ o,
    (∀ formatters, runBatch { strip := .none } formatters narrow ⟨[0x2E]⟩ messages = o) ∧
      tallies o.events = [⟨(messageFile 0x62).path, 1, 2⟩] ∧
      o.tree.content [messageName 0x62] = some (keptMessage.toUTF8.extract 0 20) ∧
      messages.content [messageName 0x62] = some message.toUTF8 ∧
      o.tree.content [messageName 0x62] ≠ messages.content [messageName 0x62] := by
  have hgood : Succeeds { strip := .none } narrow messages (messageFile 0x61) message keptMessage :=
    succeeds_messages ⟨rfl, by simp [narrow, messageName]⟩ rfl
  have hbad : Fails { strip := .none } narrow messages (messageFile 0x62)
      (.writing (messageFile 0x62).path .tooLarge) (some (keptMessage.toUTF8.extract 0 20)) :=
    .cutOff (projects_messages (by simp) rfl rfl) keptMessage_ne_message rfl rfl (by decide +kernel)
  rcases runBatch_halted proper_messages (by decide +kernel) rfl select_messages narrow with
    ⟨before, f, after, e, o, hfiles, hrun, -, hhalted, htallies⟩ | ⟨p, hp, -⟩
  · obtain ⟨rfl, rfl, hleft, hcount⟩ := halted_messages hgood hbad hfiles hhalted
    refine ⟨o, hrun, ?_, hleft, by decide +kernel, ?_⟩
    · rw [htallies, hcount]
      rfl
    · rw [hleft]
      decide +kernel
  · exact absurd ⟨_, _, hbad⟩ (hp.written.not_fails (messageFile 0x62) (by simp))

end StructProjection
