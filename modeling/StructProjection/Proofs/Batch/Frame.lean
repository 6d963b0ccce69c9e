import StructProjection.Proofs.Batch.FailFast
import StructProjection.Proofs.Selection

/-! # What a batch leaves alone

A batch writes to the files that it has selected, and it makes, removes and moves nothing.
-/

namespace StructProjection

open Files

variable {s : Settings} {a : Access} {t u : Tree} {p q : Progress} {fs : List Found} {root : Path}
  {x : Selection} {formatters : List Formatter} {l : Location}

/-- A formatter that only looks at files. -/
def Formatter.LeavesFiles (f : Formatter) : Prop := ∀ target t, (f.run target t).tree = t

theorem differsIn_commit (s : Settings) (a : Access) (p : Progress) {x : Projected}
    (hx : x.file ∈ fs) :
    Tree.DiffersIn (fs.map (·.location)) p.tree (commit s a p x).1.tree := by
  have hw := Tree.differsIn_overwrite (List.mem_map_of_mem (f := (·.location)) hx) p.tree a
    x.output.toUTF8
  unfold commit
  split
  · exact .refl _ _
  · dsimp only
    split
    · exact .refl _ _
    · split <;> (next ho => rw [ho] at hw; exact hw)

theorem Rewriting.differsIn (h : Rewriting s a fs p q) :
    Tree.DiffersIn (fs.map (·.location)) p.tree q.tree := by
  induction h with
  | refl => exact .refl _ _
  | emit _ _ ih => exact ih
  | commit _ hx ih => exact ih.trans (differsIn_commit s a _ hx)

theorem tree_runFormatters (hf : ∀ f ∈ formatters, f.LeavesFiles) (root : Path) (p : Progress) :
    (runFormatters root p formatters).1.tree = p.tree := by
  induction formatters generalizing p with
  | nil => rfl
  | cons f fs ih =>
    obtain ⟨hft, hf⟩ := List.forall_mem_cons.mp hf
    have htree := hft root p.tree
    rw [runFormatters]
    dsimp only
    split
    · exact (ih hf _).trans htree
    · split <;> exact htree

theorem tree_finish (hf : ∀ f ∈ formatters, f.LeavesFiles) (dryRun : Bool) (root : Path)
    (y : Progress × Option Failure) :
    (finish dryRun formatters root y).tree = y.1.tree := by
  obtain ⟨p, _ | e⟩ := y
  · cases dryRun with
    | true => rfl
    | false =>
      rw [finish_of_completed rfl]
      have htree := tree_runFormatters hf root p
      generalize runFormatters root p formatters = c at htree ⊢
      obtain ⟨p', _ | e⟩ := c <;> exact htree
  · rfl

/-- A batch without a selection leaves everything as it is, and one with a selection leaves everything
but what the selected files hold. -/
theorem runBatch_differsIn (hf : ∀ f ∈ formatters, f.LeavesFiles) (s : Settings) (a : Access)
    (root : Path) (t : Tree) :
    (runBatch s formatters a root t).tree = t ∨
      s.fault? = none ∧ ∃ x, select t root s = .ok x ∧
        Tree.DiffersIn (x.files.map (·.location)) t (runBatch s formatters a root t).tree := by
  rcases runBatch_cases s root t with ⟨e, he⟩ | ⟨found, hfound, hs⟩
  · exact .inl (by rw [he s rfl])
  · refine .inr ⟨hs, _, select_of_found s hfound, ?_⟩
    rw [runBatch_of_found hs hfound, tree_finish hf]
    exact (rewriteFiles_rewriting s a (selected s root t found) _).differsIn

/-- What a batch over the files under a root leaves alone. -/
structure Frame (s : Settings) (root : Path) (t u : Tree) : Prop where
  kinds : ∀ l, u.kindAt l = t.kindAt l
  unselected : ∀ l, (∀ x, select t root s = .ok x → ∀ f ∈ x.files, f.location ≠ l) →
    u.content l = t.content l
  excluded : ∀ x, select t root s = .ok x → ∀ f ∈ x.excluded,
    u.content f.location = t.content f.location
  /-- Names without the suffix, and names that are no text. -/
  named : ∀ l n, l.getLast? = some n → ¬ s.Generated n ∨ s.Excluded n → u.content l = t.content l
  /-- Files outside of where the root leads, whether or not there are links to them. -/
  outside : ∀ l, (∀ start, t.Begins root start → ¬ start <+: l) → u.content l = t.content l
  unstarted : s.fault? ≠ none ∨ (∃ e, select t root s = .error e) → u = t

theorem Frame.refl (s : Settings) (root : Path) (t : Tree) : Frame s root t t where
  kinds _ := rfl
  unselected _ _ := rfl
  excluded _ _ _ _ := rfl
  named _ _ _ _ := rfl
  outside _ _ := rfl
  unstarted _ := rfl

theorem Frame.of_differsIn (ht : t.Proper) (hs : s.fault? = none) (hx : select t root s = .ok x)
    (h : Tree.DiffersIn (x.files.map (·.location)) t u) : Frame s root t u := by
  have hsame : ∀ l, (∀ f ∈ x.files, f.location ≠ l) → u.content l = t.content l := fun l hl =>
    (h.elsewhere l fun hm => by
      obtain ⟨f, hf, hfl⟩ := List.mem_map.mp hm
      exact hl f hf hfl).content
  have hnamed : ∀ l n, l.getLast? = some n → ¬ s.Generated n ∨ s.Excluded n →
      u.content l = t.content l := by
    intro l n hn hg
    refine hsame l fun f hf hfl => ?_
    obtain ⟨hm, hgen, hex⟩ := (Selection.mem_files_of_select ht hx).mp hf
    obtain rfl : n = f.name := Option.some.inj (hn.symm.trans (hfl ▸ hm.getLast?_location))
    exact hg.elim (fun hng => hng hgen) hex
  refine ⟨h.kinds, fun l hl => hsame l (hl x hx), ?_, hnamed, ?_, ?_⟩
  · intro y hy f hf
    have hexact := Selection.exact_of_select ht hy
    have hfs := List.mem_append_right y.files hf
    exact hnamed _ _ (hexact.named f hfs) (.inr ((hexact.excluded f hfs).mp hf))
  · intro l hl
    refine hsame l fun f hf hfl => ?_
    obtain ⟨⟨start, names, hb, -, rfl⟩, -⟩ := (Selection.mem_files_of_select ht hx).mp hf
    exact hl start hb (hfl ▸ List.prefix_append start names)
  · rintro (hne | ⟨e, he⟩)
    · exact absurd hs hne
    · exact absurd (hx.symm.trans he) (by simp)

/-- However a batch ends, it has left alone what it has not selected, if its formatters only look at
files. -/
theorem runBatch_frame (ht : t.Proper) (hf : ∀ f ∈ formatters, f.LeavesFiles) (s : Settings)
    (a : Access) (root : Path) : Frame s root t (runBatch s formatters a root t).tree := by
  rcases runBatch_differsIn hf s a root t with h | ⟨hs, x, hx, h⟩
  · rw [h]
    exact .refl s root t
  · exact .of_differsIn ht hs hx h

/-- A message beside one that is excluded, a link to it, and a file with another suffix. -/
def assortedMessages : Tree :=
  ⟨[(messageName 0x61, .file message.toUTF8), (.ofString "error_code.pb.go", .file message.toUTF8),
    (.ofString "lib", .link ⟨messageName 0x61⟩), (.ofString "x.go", .file message.toUTF8)]⟩

theorem proper_assortedMessages : assortedMessages.Proper :=
  .folder (by decide +kernel) (by simp [assortedMessages, Entry.Proper.file, Entry.Proper.link])

/-- Looks at files and complains. -/
def complaining : Formatter := ⟨"vet", fun _ t => ⟨t, [], some (.starting "vet" .notFound)⟩⟩

theorem runBatch_frame_assortedMessages :
    let u := (runBatch { strip := .none } [complaining] .free ⟨[0x2E]⟩ assortedMessages).tree
    u.kindAt [.ofString "lib"] = some (.link ⟨messageName 0x61⟩) ∧
      u.content [.ofString "error_code.pb.go"] = some message.toUTF8 ∧
      u.content [.ofString "x.go"] = some message.toUTF8 := by
  have hf : ∀ f ∈ [complaining], f.LeavesFiles := by simp [complaining, Formatter.LeavesFiles]
  have h := runBatch_frame proper_assortedMessages hf { strip := .none } .free ⟨[0x2E]⟩
  have hname : (Name.ofString "x.go").text? = some "x.go" := by decide +kernel
  have hcode : (Name.ofString "error_code.pb.go").text? = some "error_code.pb.go" := by
    decide +kernel
  refine ⟨(h.kinds _).trans (by decide +kernel), ?_, ?_⟩
  · have he : Settings.Excluded { strip := .none } (.ofString "error_code.pb.go") :=
      (Settings.excluded_iff hcode).mpr (by decide +kernel)
    exact (h.named _ _ rfl (.inr he)).trans (by decide +kernel)
  · have hg : ¬ Settings.Generated { strip := .none } (.ofString "x.go") :=
      (Settings.generated_iff hname).not.mpr (by decide +kernel)
    exact (h.named _ _ rfl (.inl hg)).trans (by decide +kernel)

end StructProjection
