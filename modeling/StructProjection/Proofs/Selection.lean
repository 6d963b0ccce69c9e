import StructProjection.Proofs.Files.Order

/-! # What is selected

A selection lists the generated files at a path and below it, each once, in the order of the
components of their paths.
-/

namespace StructProjection

open Files

variable {t u : Tree} {root : Path} {s : Settings} {x : Selection} {found : List Found} {f : Found}
  {name : Name}

namespace Settings

/-- The name is text that ends with the suffix. -/
def Generated (s : Settings) (name : Name) : Prop :=
  ∃ n, name.text? = some n ∧ s.suffix.toList <:+ n.toList

/-- The name is text that ends with one of the endings that are left out. -/
def Excluded (s : Settings) (name : Name) : Prop :=
  ∃ n, name.text? = some n ∧ ∃ ending ∈ s.exclusions.suffixes, ending.toList <:+ n.toList

theorem generated_iff {n : String} (h : name.text? = some n) :
    s.Generated name ↔ endsWith n s.suffix = true := by
  simp [Generated, h, endsWith]

theorem excluded_iff {n : String} (h : name.text? = some n) :
    s.Excluded name ↔ s.exclusions.excludes n = true := by
  simp [Excluded, h, ExclusionRules.excludes, endsWith]

theorem verdict_eq_project_iff :
    s.verdict name = .project ↔ s.Generated name ∧ ¬ s.Excluded name := by
  cases h : name.text? with
  | none => simp [verdict, Generated, h]
  | some n =>
    rw [generated_iff h, excluded_iff h, verdict, h]
    by_cases hs : endsWith n s.suffix <;> by_cases he : s.exclusions.excludes n <;> simp [hs, he]

theorem verdict_eq_exclude_iff :
    s.verdict name = .exclude ↔ s.Generated name ∧ s.Excluded name := by
  cases h : name.text? with
  | none => simp [verdict, Generated, h]
  | some n =>
    rw [generated_iff h, excluded_iff h, verdict, h]
    by_cases hs : endsWith n s.suffix <;> by_cases he : s.exclusions.excludes n <;> simp [hs, he]

end Settings

namespace Selection

/-- The generated files at a path and below it are listed. Each is listed by its own name, and as
excluded if its name is. -/
structure Exact (t : Tree) (root : Path) (s : Settings) (x : Selection) : Prop where
  listed : ∀ f, f ∈ x.files ++ x.excluded ↔ t.Meets root f ∧ s.Generated f.name
  excluded : ∀ f ∈ x.files ++ x.excluded, f ∈ x.excluded ↔ s.Excluded f.name
  named : ∀ f ∈ x.files ++ x.excluded, f.location.getLast? = some f.name

theorem mem_files_ofFound :
    f ∈ (ofFound s found).files ↔ f ∈ found ∧ s.Generated f.name ∧ ¬ s.Excluded f.name := by
  simp [ofFound, Settings.verdict_eq_project_iff]

theorem mem_excluded_ofFound :
    f ∈ (ofFound s found).excluded ↔ f ∈ found ∧ s.Generated f.name ∧ s.Excluded f.name := by
  simp [ofFound, Settings.verdict_eq_exclude_iff]

theorem mem_ofFound :
    f ∈ (ofFound s found).files ++ (ofFound s found).excluded ↔
      f ∈ found ∧ s.Generated f.name := by
  rw [List.mem_append, mem_files_ofFound, mem_excluded_ofFound]
  tauto

theorem exact_ofFound (ht : t.Proper) (h : t.walk root = .ok found) :
    (ofFound s found).Exact t root s where
  listed f := by rw [mem_ofFound, Tree.mem_walk_iff ht h]
  excluded f hf := by
    have := mem_ofFound.mp hf
    rw [mem_excluded_ofFound]
    tauto
  named f hf := ((Tree.mem_walk_iff ht h).mp (mem_ofFound.mp hf).1).getLast?_location

theorem exists_walk_of_select (h : select t root s = .ok x) :
    ∃ found, t.walk root = .ok found ∧ x = ofFound s found := by
  unfold select findFiles at h
  cases hw : t.walk root with
  | error r => simp [hw, Except.map] at h
  | ok found => exact ⟨found, rfl, by simpa [hw, Except.map] using h.symm⟩

theorem exact_of_select (ht : t.Proper) (h : select t root s = .ok x) : x.Exact t root s := by
  obtain ⟨found, hw, rfl⟩ := exists_walk_of_select h
  exact exact_ofFound ht hw

theorem mem_files_of_select (ht : t.Proper) (h : select t root s = .ok x) :
    f ∈ x.files ↔ t.Meets root f ∧ s.Generated f.name ∧ ¬ s.Excluded f.name := by
  obtain ⟨found, hw, rfl⟩ := exists_walk_of_select h
  rw [mem_files_ofFound, Tree.mem_walk_iff ht hw]

/-- Two lists of a selection have no path in common, if the walk had none twice. -/
theorem nodup_ofFound (h : (found.map (·.path)).Nodup) :
    (((ofFound s found).files ++ (ofFound s found).excluded).map (·.path)).Nodup := by
  rw [List.map_append, List.nodup_append']
  refine ⟨(List.filter_sublist.map _).nodup h, (List.filter_sublist.map _).nodup h, ?_⟩
  intro p hp hq
  obtain ⟨f, hf, rfl⟩ := List.mem_map.mp hp
  obtain ⟨g, hg, hgf⟩ := List.mem_map.mp hq
  obtain ⟨hf, -, hne⟩ := mem_files_ofFound.mp hf
  obtain ⟨hg, -, he⟩ := mem_excluded_ofFound.mp hg
  obtain rfl := List.inj_on_of_nodup_map h hg hf hgf
  exact hne he

end Selection

/-- The files are in the order of their paths, compared component by component. -/
def InPathOrder (files : List Found) : Prop :=
  files.Pairwise fun f g => f.path.components < g.path.components

theorem InPathOrder.nodup (h : InPathOrder found) : (found.map (·.path)).Nodup := by
  refine List.pairwise_map.mpr (h.imp fun {f g} hlt he => ?_)
  rw [he] at hlt
  exact Std.lt_irrefl hlt

/-- A selection from a path that leads somewhere lists the generated files at the path and below it,
no path twice, in two lists that go along with one walk. What files hold and how the entries of
folders are stored makes no difference. -/
theorem select_exact (ht : t.Proper) (hn : t.WellNamed) (hr : t.pathExists root) (s : Settings) :
    ∃ found x, t.walk root = .ok found ∧ select t root s = .ok x ∧ x.Exact t root s ∧
      x.files.Sublist found ∧ x.excluded.Sublist found ∧ InPathOrder found ∧
      InPathOrder x.files ∧ InPathOrder x.excluded ∧
      ((x.files ++ x.excluded).map (·.path)).Nodup ∧
      ∀ u : Tree, u.Proper → Tree.SameKinds t u → select u root s = .ok x := by
  obtain ⟨found, hf⟩ := Tree.exists_walk hr
  have hsel : ∀ u : Tree, u.walk root = .ok found → select u root s = .ok (.ofFound s found) :=
    fun u hu => by rw [select, findFiles, hu]; rfl
  have ho : InPathOrder found := Tree.pairwise_components ht hn hf
  have hfiles : (Selection.ofFound s found).files.Sublist found := List.filter_sublist
  have hexcluded : (Selection.ofFound s found).excluded.Sublist found := List.filter_sublist
  refine ⟨found, .ofFound s found, hf, hsel t hf, Selection.exact_ofFound ht hf, hfiles, hexcluded,
    ho, ho.sublist hfiles, ho.sublist hexcluded, Selection.nodup_ofFound ho.nodup, ?_⟩
  intro u hu hk
  exact hsel u ((Tree.walk_congr ht hu hk hr).trans hf)

/-- A folder with a link to a folder in it. One of the names below is no text. -/
def nestedMessages : Tree :=
  ⟨[(.ofString "error_code.pb.go", .file .empty), (.ofString "lib", .link (.ofString "sub")),
    (.ofString "sub", .folder [(.ofString "c.pb.go", .file .empty),
      (0xFF :: Name.ofString ".pb.go", .file .empty)]),
    (.ofString "sub.pb.go", .file .empty), (.ofString "x.go", .file .empty)]⟩

theorem select_nestedMessages : select nestedMessages ⟨[0x2E]⟩ {} =
    .ok ⟨[⟨.ofString "./sub/c.pb.go", [.ofString "sub", .ofString "c.pb.go"], .ofString "c.pb.go"⟩,
      ⟨.ofString "./sub.pb.go", [.ofString "sub.pb.go"], .ofString "sub.pb.go"⟩],
      [⟨.ofString "./error_code.pb.go", [.ofString "error_code.pb.go"],
        .ofString "error_code.pb.go"⟩]⟩ := by
  have hr : nestedMessages.resolve ⟨[0x2E]⟩ false = .ok [] := by decide +kernel
  have hw : nestedMessages.walk ⟨[0x2E]⟩ =
      .ok (Entry.files ⟨[0x2E]⟩ [] (Path.fileName ⟨[0x2E]⟩) nestedMessages.root) := by
    rw [Tree.walk, hr]
    rfl
  rw [select, findFiles, hw, Tree.root, Entry.files_folder_of_sorted _ _ _ (by decide +kernel)]
  simp only [nestedMessages, Entry.filesOf]
  rw [Entry.files_folder_of_sorted _ _ _ (by decide +kernel)]
  refine congrArg Except.ok ?_
  decide +kernel

theorem proper_nestedMessages : nestedMessages.Proper := by
  refine .folder (by decide +kernel) ?_
  have hsub : (Entry.folder [(.ofString "c.pb.go", .file .empty),
      (0xFF :: Name.ofString ".pb.go", .file .empty)]).Proper :=
    .folder (by decide +kernel) (by simp [Entry.Proper.file])
  simp [nestedMessages, hsub, Entry.Proper.file, Entry.Proper.link]

theorem wellNamed_nestedMessages : nestedMessages.WellNamed := by
  have hn : ∀ n ∈ nestedMessages.entries.map (·.1), n.Legal := by decide +kernel
  refine .folder (fun x hx => hn x.1 (List.mem_map_of_mem hx)) ?_
  have hsub : (Entry.folder [(.ofString "c.pb.go", .file .empty),
      (0xFF :: Name.ofString ".pb.go", .file .empty)]).WellNamed :=
    .folder (by decide +kernel) (by simp [Entry.WellNamed.file])
  simp [nestedMessages, hsub, Entry.WellNamed.file, Entry.WellNamed.link]

/-- However the entries are stored, the file in the folder comes before the file beside it. As texts
the paths are in the other order. -/
theorem select_nestedMessages_reverse :
    ∃ x, select ⟨nestedMessages.entries.reverse⟩ ⟨[0x2E]⟩ {} = .ok x ∧
      x.Exact nestedMessages ⟨[0x2E]⟩ {} ∧
      x.files.map (·.path) = [.ofString "./sub/c.pb.go", .ofString "./sub.pb.go"] ∧
      x.excluded.map (·.path) = [.ofString "./error_code.pb.go"] := by
  have hperm := (List.reverse_perm nestedMessages.entries).symm
  have hroot : nestedMessages.pathExists ⟨[0x2E]⟩ := by decide +kernel
  obtain ⟨found, x, -, hx, he, -, -, -, -, -, -, hu⟩ :=
    select_exact proper_nestedMessages wellNamed_nestedMessages hroot {}
  rw [select_nestedMessages] at hx
  obtain rfl := Except.ok.inj hx
  have hr := hu _ (proper_nestedMessages.of_perm hperm)
    (Tree.sameKinds_of_perm proper_nestedMessages hperm)
  exact ⟨_, hr, he, by decide +kernel, by decide +kernel⟩

end StructProjection
