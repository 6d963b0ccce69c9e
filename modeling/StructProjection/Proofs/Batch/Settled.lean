import StructProjection.Proofs.Batch.Report
import StructProjection.Proofs.Projection.Formatted

/-! # Files that are their own projections

A batch only reads a file that is its own projection. How the file could be written makes no difference
to anything that the batch does, and the report lists the file as unchanged.
-/

namespace StructProjection

open Text Files Go

/-- The accesses differ only in how the file at a location can be written. -/
structure Files.Access.AlikeBut (l : Location) (a b : Access) : Prop where
  unreadable : b.unreadable = a.unreadable
  unwritable : ∀ m, m ≠ l → b.unwritable m = a.unwritable m
  room : ∀ m, m ≠ l → b.room m = a.room m

theorem Files.Access.AlikeBut.refl (l : Location) (a : Access) : a.AlikeBut l a :=
  ⟨rfl, fun _ _ => rfl, fun _ _ => rfl⟩

/-- The file at a location is its own projection. -/
def Settled (s : Settings) (t : Tree) (l : Location) : Prop :=
  ∃ text : String, t.content l = some text.toUTF8 ∧ project text s.strip = .ok text

/-- A projection that is not to be written to a location. -/
def Projected.Spares (l : Location) (x : Projected) : Prop := x.file.location = l → x.changed = false

section Steps

variable {s : Settings} {a b : Access} {t u : Tree} {p q : Progress} {f : Found} {fs : List Found}
  {x : Projected} {xs : List Projected} {l m : Location} (h : a.AlikeBut l b)

section Access

include h

theorem Files.Tree.read_congr (t : Tree) (m : Location) : t.read b m = t.read a m := by
  rw [read, read, h.unreadable]

theorem Files.Tree.overwrite_congr (hm : m ≠ l) (t : Tree) (c : ByteArray) :
    t.overwrite b m c = t.overwrite a m c := by
  rw [overwrite, overwrite, h.unwritable m hm, h.room m hm]

theorem projectFile_congr (s : Settings) (t : Tree) (f : Found) :
    projectFile s b t f = projectFile s a t f := by
  rw [projectFile, projectFile, Tree.read_congr h]

theorem stage_access_congr (s : Settings) (t : Tree) (fs : List Found) :
    stage s b t fs = stage s a t fs := by
  induction fs with
  | nil => rfl
  | cons f fs ih => rw [stage, stage, projectFile_congr h, ih]

theorem commit_congr (hx : x.Spares l) (s : Settings) (p : Progress) :
    commit s b p x = commit s a p x := by
  by_cases hl : x.file.location = l
  · simp [commit, hx hl]
  · rw [commit, commit, Tree.overwrite_congr h hl]

end Access

theorem Settled.of_sameAt (ht : Settled s t l) (hu : Tree.SameAt l t u) : Settled s u l := by
  obtain ⟨text, hc, hp⟩ := ht
  exact ⟨text, hu.content.trans hc, hp⟩

/-- The projection of a file that is its own projection is not to be written. -/
theorem StagedAs.spares (hx : StagedAs s a t f x) (hl : Settled s t l) : x.Spares l := by
  obtain @⟨text, output, hp⟩ := hx
  rintro rfl
  obtain ⟨text', hc, hp'⟩ := hl
  obtain rfl := String.toByteArray_inj.mp
    (Option.some.inj ((Tree.content_of_read hp.read).symm.trans hc))
  obtain rfl := Except.ok.inj (hp.projected.symm.trans hp')
  simp

theorem sameAt_commit_of_spares (hx : x.Spares l) (s : Settings) (a : Access) (p : Progress) :
    Tree.SameAt l p.tree (commit s a p x).1.tree := by
  by_cases hl : x.file.location = l
  · simpa [commit, hx hl] using Tree.SameAt.refl l p.tree
  · exact sameAt_commit s a p x (Ne.symm hl)

/-- Two accesses lead from a state to the same end, which leaves the file at a location as it was. -/
def SameEnd (l : Location) (p : Progress) (y z : Progress × Option Failure) : Prop :=
  z = y ∧ Tree.SameAt l p.tree y.1.tree

theorem SameEnd.warned (hu : Tree.SameAt l p.tree q.tree) (events : List Event) (e : Failure)
    (c : Prop) [Decidable c] :
    SameEnd l p (if c then (q.emit events, some e) else (q, some e))
      (if c then (q.emit events, some e) else (q, some e)) := by
  refine ⟨rfl, ?_⟩
  split <;> exact hu

include h

theorem handle_sameEnd (hl : Settled s p.tree l) (f : Found) :
    SameEnd l p (handle s a p f) (handle s b p f) := by
  have hc := projectFile_cases s a p.tree f
  rw [SameEnd, handle, handle, projectFile_congr h]
  generalize projectFile s a p.tree f = c at hc ⊢
  obtain ⟨events, result⟩ := c
  rcases hc with ⟨e, rfl, -⟩ | ⟨text, output, rfl, hp⟩
  · exact ⟨rfl, .refl l p.tree⟩
  · have hx := (StagedAs.mk hp).spares hl
    exact ⟨commit_congr h hx s (p.emit events), sameAt_commit_of_spares hx s a (p.emit events)⟩

theorem runFailFast_sameEnd (hl : Settled s p.tree l) (fs : List Found) :
    SameEnd l p (runFailFast s a p fs) (runFailFast s b p fs) := by
  induction fs generalizing p with
  | nil => exact ⟨rfl, .refl l p.tree⟩
  | cons f fs ih =>
    obtain ⟨heq, hu⟩ := handle_sameEnd h hl f
    rw [runFailFast, runFailFast, heq]
    generalize handle s a p f = c at hu ⊢
    obtain ⟨q, _ | e⟩ := c
    · -- The file is its own projection still when the next one is handled.
      obtain ⟨heq, hv⟩ := ih (hl.of_sameAt hu)
      exact ⟨heq, hu.trans hv⟩
    · exact .warned hu _ e _

theorem commitAll_sameEnd (hx : ∀ x ∈ xs, x.Spares l) (s : Settings) (p : Progress) :
    SameEnd l p (commitAll s a p xs) (commitAll s b p xs) := by
  induction xs generalizing p with
  | nil => exact ⟨rfl, .refl l p.tree⟩
  | cons x xs ih =>
    obtain ⟨hxl, hx⟩ := List.forall_mem_cons.mp hx
    have hu := sameAt_commit_of_spares hxl s a p
    rw [commitAll, commitAll, commit_congr h hxl]
    generalize commit s a p x = c at hu ⊢
    obtain ⟨q, _ | e⟩ := c
    · obtain ⟨heq, hv⟩ := ih hx q
      exact ⟨heq, hu.trans hv⟩
    · exact .warned hu _ e _

theorem runStaged_sameEnd (hl : Settled s p.tree l) (fs : List Found) :
    SameEnd l p (runStaged s a p fs) (runStaged s b p fs) := by
  have hs := stage_cases s a p.tree fs
  rw [SameEnd, runStaged, runStaged, stage_access_congr h]
  generalize stage s a p.tree fs = c at hs ⊢
  rcases hs with ⟨events, xs, rfl, -, hxs⟩ | ⟨-, -, -, events, e, -, rfl, -⟩
  · have hspares : List.Forall₂ (fun x f => x.Spares l ∧ StagedAs s a p.tree f x) xs fs :=
      hxs.flip.imp fun _ _ hx => ⟨hx.spares hl, hx⟩
    exact commitAll_sameEnd h ((List.forall₂_and_left _ _).1 hspares).1 s _
  · exact ⟨rfl, .refl l p.tree⟩

theorem rewriteFiles_sameEnd (hl : Settled s p.tree l) (fs : List Found) :
    SameEnd l p (rewriteFiles s a p fs) (rewriteFiles s b p fs) := by
  unfold rewriteFiles
  split
  · exact runFailFast_sameEnd h hl fs
  · exact runStaged_sameEnd h hl fs

end Steps

/-- All that a batch does to a selected file is to read it: how the file could be written makes no
difference, not even to what is noted, and the file is left as it is and reported as unchanged. -/
structure OnlyRead (s : Settings) (formatters : List Formatter) (a : Access) (root : Path) (t : Tree)
    (f : Found) : Prop where
  unopened : ∀ b, a.AlikeBut f.location b →
    runBatch s formatters b root t = runBatch s formatters a root t
  kept : (∀ g ∈ formatters, g.LeavesFiles) →
    (runBatch s formatters a root t).tree.content f.location = t.content f.location
  listed : ∀ r, (runBatch s formatters a root t).result = .ok r →
    f.path ∈ r.unchanged ∧ f.path ∉ r.projected

section Batches

variable {s : Settings} {a b : Access} {t : Tree} {f : Found} {root : Path} {y : Selection}
  {l : Location} {r : Report} {formatters : List Formatter}

theorem runBatch_congr (h : a.AlikeBut l b) (hl : Settled s t l) (formatters : List Formatter)
    (root : Path) : runBatch s formatters b root t = runBatch s formatters a root t := by
  rcases runBatch_cases s root t with ⟨e, he⟩ | ⟨found, hf, hs⟩
  · rw [he s rfl, he s rfl]
  · have hp : Settled s (selected s root t found).tree l := hl
    rw [runBatch_of_found hs hf, runBatch_of_found hs hf, (rewriteFiles_sameEnd h hp _).1]

theorem content_runBatch (hl : Settled s t l) (hg : ∀ g ∈ formatters, g.LeavesFiles) (a : Access)
    (root : Path) : (runBatch s formatters a root t).tree.content l = t.content l := by
  rcases runBatch_cases s root t with ⟨e, he⟩ | ⟨found, hf, hs⟩
  · rw [he s rfl]
  · have hp : Settled s (selected s root t found).tree l := hl
    rw [runBatch_of_found hs hf, tree_finish hg]
    exact (rewriteFiles_sameEnd (.refl l a) hp _).2.content

/-- A batch that succeeds reports a selected file that is its own projection as unchanged. -/
theorem mem_unchanged_of_settled (ht : t.Proper) (hn : t.WellNamed) (hy : select t root s = .ok y)
    (hf : f ∈ y.files) (hl : Settled s t f.location)
    (h : (runBatch s formatters a root t).result = .ok r) :
    f.path ∈ r.unchanged ∧ f.path ∉ r.projected := by
  obtain ⟨found, p, hfound, hp, -, hr⟩ := exists_rewriteFiles_of_runBatch h
  obtain rfl := Except.ok.inj ((select_of_found s hfound).symm.trans hy)
  obtain ⟨xs, hxs, hreport⟩ := rewriteFiles_reported (nodup_selected ht hy) hp
  obtain ⟨x, hx, hfx⟩ := exists_stagedAs hxs hf
  have hlisted := listsStaged_of_reported hreport hr
  have hunchanged : x.changed = false := hfx.spares hl (by rw [hfx.file_eq])
  constructor
  · rw [hlisted.unchanged_eq, List.mem_map]
    exact ⟨x, List.mem_filter.mpr ⟨hx, by simp [hunchanged]⟩, by rw [hfx.file_eq]⟩
  · rw [hlisted.projected_eq, List.mem_map]
    rintro ⟨z, hz, hpath⟩
    obtain ⟨hz, hchanged⟩ := List.mem_filter.mp hz
    have hpaths := nodup_paths ht hn hy
    rw [← map_file_of_stagedAs hxs, List.map_map] at hpaths
    have hzx : z = x := List.inj_on_of_nodup_map hpaths hz hx (hpath.trans (by simp [hfx.file_eq]))
    simp [hzx, hunchanged] at hchanged

end Batches

/-- A formatted file of structs is its own projection, so that a batch only reads it. -/
theorem onlyRead_of_formatted {text : String} {file : SourceFile} {stop : Nat} {strip : StripRules}
    (h : SourceFile.read text = .ok file) (hstop : headerEnd text = .ok stop)
    (hformatted : Formatted text.toList stop file.decls)
    (hstrip : ∀ literal ∈ strip.literals, ¬ literal.toList <:+: text.toList) :
    project text strip = .ok text ∧ ∀ (s : Settings) (t : Tree) (root : Path) (y : Selection),
      s.strip = strip → t.Proper → t.WellNamed → select t root s = .ok y →
        ∀ f ∈ y.files, t.content f.location = some text.toUTF8 →
          ∀ formatters a, OnlyRead s formatters a root t f := by
  have hproject := project_of_formatted h hstop hformatted hstrip
  refine ⟨hproject, fun s t root y hs ht hn hy f hf hc formatters a => ?_⟩
  have hl : Settled s t f.location := ⟨text, hc, hs ▸ hproject⟩
  exact ⟨fun b hb => runBatch_congr hb hl formatters root, fun hg => content_runBatch hl hg a root,
    fun r hr => mem_unchanged_of_settled ht hn hy hf hl hr⟩

/-- A struct between comments, and one that ends the file. -/
def commentedStructs : String :=
  "package x\r\n\n// A\ntype A struct{} /* a */\n\ntype B struct{}"

theorem outline_commentedStructs : outline commentedStructs = .ok
    ⟨none, [⟨.packageClause, ⟨0, 0⟩, ⟨9, 0⟩, none, []⟩, ⟨.comment, ⟨12, 2⟩, ⟨16, 2⟩, none, []⟩,
      ⟨.declaration .type, ⟨17, 3⟩, ⟨32, 3⟩, none, [⟨"A", .struct⟩]⟩,
      ⟨.comment, ⟨33, 3⟩, ⟨40, 3⟩, none, []⟩,
      ⟨.declaration .type, ⟨42, 5⟩, ⟨57, 5⟩, none, [⟨"B", .struct⟩]⟩]⟩ :=
  outline_of_plain (by decide +kernel) (by decide +kernel)

theorem formatted_commentedStructs : Formatted commentedStructs.toList 9
    [⟨.type, ⟨17, 32⟩, some 12, [⟨"A", .struct⟩]⟩, ⟨.type, ⟨42, 57⟩, none, [⟨"B", .struct⟩]⟩] := by
  refine .next ⟨[], [], "\r\n".toList, ?_⟩ rfl ⟨?_, ?_⟩
    (.next ⟨[' '], "/* a */".toList, ['\n'], ?_⟩ rfl ⟨?_, ?_⟩ (.last ⟨[], [], [], ?_⟩ ?_))
  all_goals decide +kernel

theorem formatted_keptMessage :
    Formatted keptMessage.toList 9 [⟨.type, ⟨11, 26⟩, none, [⟨"A", .struct⟩]⟩] := by
  refine .next ⟨[], [], ['\n'], ?_⟩ rfl ⟨?_, ?_⟩ (.last ⟨[], [], ['\n'], ?_⟩ ?_)
  all_goals decide +kernel

/-- The message that is its own projection is only read, with the other message beside it. -/
theorem onlyRead_of_formatted_keptMessage :
    project commentedStructs .standard = .ok commentedStructs ∧
      OnlyRead { strip := .none } [approving] .free ⟨[0x2E]⟩ mixedMessages (messageFile 0x62) := by
  constructor
  · have hread : SourceFile.read commentedStructs = .ok
        ⟨[⟨.type, ⟨17, 32⟩, some 12, [⟨"A", .struct⟩]⟩, ⟨.type, ⟨42, 57⟩, none, [⟨"B", .struct⟩]⟩]⟩ :=
      SourceFile.readWith_of_ok outline_commentedStructs
    have hstop : headerEnd commentedStructs = .ok 9 := headerEnd_of_ok outline_commentedStructs
    exact (onlyRead_of_formatted hread hstop formatted_commentedStructs (by decide +kernel)).1
  · have hread : SourceFile.read keptMessage =
        .ok ⟨[⟨.type, ⟨11, 26⟩, none, [⟨"A", .struct⟩]⟩]⟩ :=
      SourceFile.readWith_of_ok outline_keptMessage
    have hstop : headerEnd keptMessage = .ok 9 := headerEnd_of_ok outline_keptMessage
    have honly := (onlyRead_of_formatted hread hstop formatted_keptMessage (by decide +kernel)).2
      { strip := .none } mixedMessages ⟨[0x2E]⟩ _ rfl proper_mixedMessages wellNamed_mixedMessages
      select_mixedMessages
    exact honly (messageFile 0x62) (by simp) rfl [approving] .free

end StructProjection
