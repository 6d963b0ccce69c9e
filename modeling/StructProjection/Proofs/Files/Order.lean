import Mathlib.Data.List.Sort
import StructProjection.Proofs.Files.Component
import StructProjection.Proofs.Files.Resolve
import StructProjection.Proofs.Files.Walk

/-! # What a walk meets, and in which order

A walk meets the files that names lead to without a link on the way, in the order of their locations,
which are compared name by name.
-/

namespace StructProjection.Files

/-- The file that some names lead to from an entry. -/
def Found.below (path : Path) (place : Location) (name : Name) (names : Location) : Found :=
  ⟨names.foldl Path.join path, place ++ names, names.getLast?.getD name⟩

section Below

variable {path : Path} {place names : Location} {name n : Name}

theorem Found.below_nil : below path place name [] = ⟨path, place, name⟩ := by
  simp [below]

theorem Found.below_cons :
    below path place name (n :: names) = below (path.join n) (place ++ [n]) n names := by
  simp [below, List.getLast?_cons]

end Below

namespace Entry

variable {e : Entry} {es : List (Name × Entry)} {path : Path} {place names : Location}
  {name n : Name} {f g : Found}

theorem lookup_eq_some_iff (hn : (es.map (·.1)).Nodup) : es.lookup n = some e ↔ (n, e) ∈ es := by
  rw [List.lookup_eq_some_iff]
  constructor
  · rintro ⟨before, after, rfl, -⟩
    simp
  intro h
  obtain ⟨before, after, rfl⟩ := List.append_of_mem h
  rw [List.map_append, List.map_cons, List.nodup_middle, List.nodup_cons] at hn
  refine ⟨before, after, rfl, fun x hx => ?_⟩
  have hne : n ≠ x.1 := fun hnx =>
    hn.1 (List.mem_append_left _ (List.mem_map.mpr ⟨x, hx, hnx.symm⟩))
  simpa using hne

/-- The files of an entry are those that its names lead to. -/
theorem mem_files_iff (h : e.Proper) :
    f ∈ files path place name e ↔
      ∃ names, (e.at? names).map kind = some .file ∧ f = .below path place name names := by
  induction h generalizing path place name with
  | file content =>
    rw [files, List.mem_singleton]
    constructor
    · rintro rfl
      exact ⟨[], rfl, Found.below_nil.symm⟩
    · rintro ⟨_ | ⟨n, names⟩, hk, rfl⟩
      · exact Found.below_nil
      · simp [at?] at hk
  | link target =>
    rw [files]
    refine iff_of_false (by simp) ?_
    rintro ⟨_ | ⟨n, names⟩, hk, -⟩
    · simp [at?, kind] at hk
    · simp [at?] at hk
  | @folder es hn _ ih =>
    rw [(perm_files_folder path place name es).mem_iff, List.mem_flatMap]
    constructor
    · rintro ⟨⟨n, e⟩, hx, hf⟩
      obtain ⟨names, hk, rfl⟩ := (ih (n, e) hx).mp hf
      refine ⟨n :: names, ?_, Found.below_cons.symm⟩
      rw [at?, (lookup_eq_some_iff hn).mpr hx]
      exact hk
    · rintro ⟨_ | ⟨n, names⟩, hk, rfl⟩
      · simp [at?, kind] at hk
      · cases hl : es.lookup n with
        | none => simp [at?, hl] at hk
        | some e =>
          have hx := (lookup_eq_some_iff hn).mp hl
          refine ⟨(n, e), hx, (ih (n, e) hx).mpr ⟨names, ?_, Found.below_cons⟩⟩
          rw [at?, hl] at hk
          exact hk

theorem lt_of_prefix {l m : Location} {k : Name} (hl : place ++ [n] <+: l)
    (hm : place ++ [k] <+: m) (h : n < k) : l < m := by
  obtain ⟨l, rfl⟩ := hl
  obtain ⟨m, rfl⟩ := hm
  rw [List.append_assoc, List.append_assoc]
  exact List.append_left_lt (List.cons_lt_cons_iff.mpr (.inl h))

/-- The names of a folder in order, each once. -/
theorem pairwise_mergeSort_names {α : Type} {xs : List (Name × α)} (h : (xs.map (·.1)).Nodup) :
    (xs.mergeSort fun a b => !decide (b.1 < a.1)).Pairwise fun a b => a.1 < b.1 := by
  have hp := List.mergeSort_perm xs fun a b => !decide (b.1 < a.1)
  have hs : (xs.mergeSort fun a b => !decide (b.1 < a.1)).Pairwise
      fun a b => (!decide (b.1 < a.1)) = true := by
    refine List.pairwise_mergeSort (fun a b c hab hbc => ?_) (fun a b => ?_) xs
    · simp only [Bool.not_eq_true', decide_eq_false_iff_not, Std.not_lt] at hab hbc ⊢
      exact Std.le_trans hab hbc
    · simp only [Bool.or_eq_true, Bool.not_eq_true', decide_eq_false_iff_not, Std.not_lt]
      exact Std.le_total
  have hne := List.pairwise_map.mp ((hp.map (·.1)).nodup_iff.mpr h)
  refine (hs.and hne).imp fun {a b} hab => ?_
  have hle : a.1 ≤ b.1 := by simpa using hab.1
  exact Std.lt_of_le_of_ne hle hab.2

theorem pairwise_files (h : e.Proper) :
    (files path place name e).Pairwise fun f g => f.location < g.location := by
  induction h generalizing path place name with
  | file content => simp [files]
  | link target => simp [files]
  | @folder es hn hes ih =>
    have hp := List.mergeSort_perm (filesOf path place es) fun a b => !decide (b.1 < a.1)
    have hmem : ∀ x ∈ (filesOf path place es).mergeSort fun a b => !decide (b.1 < a.1),
        ∃ y ∈ es, x = (y.1, files (path.join y.1) (place ++ [y.1]) y.1 y.2) := by
      intro x hx
      rw [hp.mem_iff, filesOf_eq_map] at hx
      obtain ⟨y, hy, rfl⟩ := List.mem_map.mp hx
      exact ⟨y, hy, rfl⟩
    have hnames : ((filesOf path place es).map (·.1)).Nodup := by
      rw [filesOf_eq_map, List.map_map]
      exact hn
    rw [files, inOrder, List.pairwise_flatMap]
    refine ⟨fun x hx => ?_, (pairwise_mergeSort_names hnames).imp_of_mem ?_⟩
    · obtain ⟨y, hy, rfl⟩ := hmem x hx
      exact ih y hy
    · intro x y hx hy hlt f hf g hg
      obtain ⟨x, hxe, rfl⟩ := hmem x hx
      obtain ⟨y, hye, rfl⟩ := hmem y hy
      exact lt_of_prefix (prefix_location (hes x hxe) hf) (prefix_location (hes y hye) hg) hlt

end Entry

instance : Std.Asymm fun f g : Found => f.location < g.location := ⟨fun _ _ => Std.not_gt_of_lt⟩

/-- The names in the entry are legal. -/
inductive Entry.WellNamed : Entry → Prop
  | file (content : ByteArray) : WellNamed (.file content)
  | link (target : Path) : WellNamed (.link target)
  | folder {es : List (Name × Entry)} (names : ∀ x ∈ es, x.1.Legal)
      (entries : ∀ x ∈ es, WellNamed x.2) : WellNamed (.folder es)

theorem Entry.WellNamed.legal {e : Entry} {l : Location} (h : e.WellNamed) (he : e.at? l ≠ none) :
    ∀ n ∈ l, n.Legal := by
  induction l generalizing e with
  | nil => simp
  | cons n l ih =>
    cases h with
    | @folder es names entries =>
      rw [Entry.at?] at he
      cases hl : es.lookup n with
      | none => simp [hl] at he
      | some e =>
        obtain ⟨before, after, rfl, -⟩ := List.lookup_eq_some_iff.mp hl
        rw [hl, Option.bind_some] at he
        exact List.forall_mem_cons.mpr ⟨names (n, e) (by simp), ih (entries (n, e) (by simp)) he⟩
    | _ => simp [Entry.at?] at he

namespace Tree

variable {t u : Tree} {p : Path} {l m : Location} {f : Found} {found : List Found}

def WellNamed (t : Tree) : Prop := t.root.WellNamed

theorem WellNamed.legal (hn : t.WellNamed) (h : t.kindAt l ≠ none) : ∀ n ∈ l, n.Legal :=
  Entry.WellNamed.legal hn fun he => h (by rw [kindAt, at?, he, Option.map_none])

/-- Where a walk begins. A link at the end of the path is followed to a folder only. -/
inductive Begins (t : Tree) (p : Path) : Location → Prop
  | here {l : Location} (h : t.resolve p false = .ok l)
      (hl : ∀ target, t.kindAt l ≠ some (.link target)) : Begins t p l
  | linked {l m : Location} {target : Path} (h : t.resolve p false = .ok l)
      (hl : t.kindAt l = some (.link target)) (h' : t.resolve p true = .ok m)
      (hm : t.kindAt m = some .folder) : Begins t p m

theorem Begins.unique (hl : t.Begins p l) (hm : t.Begins p m) : l = m := by
  cases hl with
  | here h hl =>
    cases hm with
    | here h' => exact Except.ok.inj (h.symm.trans h')
    | linked h' hl' =>
      obtain rfl := Except.ok.inj (h.symm.trans h')
      exact absurd hl' (hl _)
  | linked h hl h₁ =>
    cases hm with
    | here h' hl' =>
      obtain rfl := Except.ok.inj (h.symm.trans h')
      exact absurd hl (hl' _)
    | linked _ _ h₂ => exact Except.ok.inj (h₁.symm.trans h₂)

theorem Begins.congr (h : SameKinds t u) (hl : t.Begins p l) : u.Begins p l := by
  cases hl with
  | here h' hl => exact .here ((resolve_congr h p false).trans h') fun target => h _ ▸ hl target
  | linked h' hl h₁ hm =>
    exact .linked ((resolve_congr h p false).trans h') ((h _).trans hl)
      ((resolve_congr h p true).trans h₁) ((h _).trans hm)

/-- The regular files at a path and below it. Below it no link is followed. -/
def Meets (t : Tree) (p : Path) (f : Found) : Prop :=
  ∃ start names, t.Begins p start ∧ t.kindAt (start ++ names) = some .file ∧
    f = .below p start p.fileName names

theorem Meets.congr (h : SameKinds t u) (hf : t.Meets p f) : u.Meets p f := by
  obtain ⟨start, names, hb, hk, rfl⟩ := hf
  exact ⟨start, names, hb.congr h, (h _).trans hk, rfl⟩

theorem meets_congr (h : SameKinds t u) (p : Path) (f : Found) : u.Meets p f ↔ t.Meets p f :=
  ⟨.congr h.symm, .congr h⟩

theorem walk_cases (h : t.walk p = .ok found) :
    (∃ start e, t.Begins p start ∧ t.at? start = some e ∧
        found = e.files p start p.fileName) ∨
      found = [] ∧ ∀ l, ¬ t.Begins p l := by
  unfold walk at h
  cases hr : t.resolve p false with
  | error r => simp [hr, bind, Except.bind] at h
  | ok here =>
    simp only [hr, bind, Except.bind, pure, Except.pure] at h
    split at h
    · simp at h
    · next target hl =>
      have hk : t.kindAt here = some (.link target) := by rw [kindAt, hl]; rfl
      cases hr' : t.resolve p true with
      | error r => simp [hr'] at h
      | ok there =>
        simp only [hr'] at h
        split at h
        · next es he =>
          have hf : t.kindAt there = some .folder := kindAt_eq_folder.mpr ⟨es, he⟩
          exact .inl ⟨there, _, .linked hr hk hr' hf, he, (Except.ok.inj h).symm⟩
        · next hne =>
          refine .inr ⟨(Except.ok.inj h).symm, fun l hb => ?_⟩
          cases hb with
          | here h₁ hl₁ =>
            obtain rfl := Except.ok.inj (hr.symm.trans h₁)
            exact hl₁ target hk
          | linked _ _ h₁ hm =>
            obtain rfl := Except.ok.inj (hr'.symm.trans h₁)
            obtain ⟨es, hes⟩ := kindAt_eq_folder.mp hm
            exact hne es hes
    · next e hne he =>
      refine .inl ⟨here, e, .here hr fun target hk => ?_, he, (Except.ok.inj h).symm⟩
      cases e with
      | link target' => exact hne target' rfl
      | _ => simp [kindAt, he, Entry.kind] at hk

/-- A walk meets these files and no others. -/
theorem mem_walk_iff (ht : t.Proper) (h : t.walk p = .ok found) : f ∈ found ↔ t.Meets p f := by
  rcases walk_cases h with ⟨start, e, hb, he, rfl⟩ | ⟨rfl, hb⟩
  · rw [Entry.mem_files_iff (ht.at? he)]
    have hk : ∀ names, t.kindAt (start ++ names) = (e.at? names).map Entry.kind := fun names => by
      rw [kindAt, at?, Entry.at?_append, ← at?, he, Option.bind_some]
    constructor
    · rintro ⟨names, hf, rfl⟩
      exact ⟨start, names, hb, (hk names).trans hf, rfl⟩
    · rintro ⟨start', names, hb', hf, rfl⟩
      obtain rfl := hb'.unique hb
      exact ⟨names, (hk names).symm.trans hf, rfl⟩
  · refine iff_of_false List.not_mem_nil ?_
    rintro ⟨start, names, hb', -⟩
    exact hb start hb'

theorem pairwise_walk (ht : t.Proper) (h : t.walk p = .ok found) :
    found.Pairwise fun f g => f.location < g.location := by
  rcases walk_cases h with ⟨start, e, -, he, rfl⟩ | ⟨rfl, -⟩
  · exact Entry.pairwise_files (ht.at? he)
  · exact .nil

/-- A walk from a path that leads somewhere comes to its end. -/
theorem exists_walk (h : t.pathExists p) : ∃ found, t.walk p = .ok found := by
  unfold pathExists at h
  cases hr' : t.resolve p true with
  | error r => simp [hr', Except.isOk, Except.toBool] at h
  | ok there =>
    obtain ⟨here, hr⟩ := exists_resolve_of_last hr'
    have hne := exists_of_resolve hr
    simp only [walk, hr, hr', bind, Except.bind, pure, Except.pure]
    split
    · next hn => simp [kindAt, hn] at hne
    · split <;> exact ⟨_, rfl⟩
    · exact ⟨_, rfl⟩

/-- A walk does not depend on what files hold, nor on how the entries of a folder are stored. -/
theorem walk_congr (ht : t.Proper) (hu : u.Proper) (h : SameKinds t u) (hp : t.pathExists p) :
    u.walk p = t.walk p := by
  obtain ⟨found, hf⟩ := exists_walk hp
  have hp' : u.pathExists p := by
    rw [pathExists, resolve_congr h]
    exact hp
  obtain ⟨found', hf'⟩ := exists_walk hp'
  have hmem : ∀ f, f ∈ found' ↔ f ∈ found := fun f => by
    rw [mem_walk_iff hu hf', mem_walk_iff ht hf, meets_congr h]
  rw [hf, hf']
  exact congrArg Except.ok ((pairwise_walk hu hf').eq_of_mem_iff (pairwise_walk ht hf) hmem)

section Perm

variable {es fs : List (Name × Entry)} (ht : Tree.Proper ⟨es⟩) (h : es.Perm fs)

include ht h

theorem Proper.of_perm : Tree.Proper ⟨fs⟩ := by
  cases ht with
  | folder hn hes => exact .folder ((h.map _).nodup_iff.mp hn) fun x hx => hes x (h.mem_iff.mpr hx)

/-- Storing the entries in another order changes nothing. -/
theorem sameKinds_of_perm : SameKinds ⟨es⟩ ⟨fs⟩ := by
  cases ht with
  | folder hn hes =>
    have hlookup : ∀ n, fs.lookup n = es.lookup n := fun n => by
      refine Option.ext fun e => ?_
      rw [Entry.lookup_eq_some_iff ((h.map _).nodup_iff.mp hn), Entry.lookup_eq_some_iff hn,
        h.mem_iff]
    intro l
    cases l with
    | nil => rfl
    | cons n l => simp only [kindAt, at?, root, Entry.at?, hlookup]

end Perm

/-! ## The order of the paths -/

theorem lt_of_append_lt {l m k : Location} (h : l ++ m < l ++ k) : m < k := by
  induction l with
  | nil => exact h
  | cons n l ih => exact ih (List.cons_lt_cons_self.mp h)

theorem components_below {start names : Location} (hn : t.WellNamed) (p : Path)
    (hk : t.kindAt (start ++ names) = some .file) :
    (Found.below p start p.fileName names).path.components = p.components ++ names := by
  have hl : ∀ n ∈ names, n.Legal := fun n hm =>
    hn.legal (by simp [hk]) n (List.mem_append_right start hm)
  exact Path.components_foldl_join hl p

/-- All paths of a walk begin with the path it began at, and go on as their locations do. -/
theorem pairwise_components (ht : t.Proper) (hn : t.WellNamed) (h : t.walk p = .ok found) :
    found.Pairwise fun f g => f.path.components < g.path.components := by
  refine (pairwise_walk ht h).imp_of_mem fun {f g} hf hg hlt => ?_
  obtain ⟨start, names, hb, hk, rfl⟩ := (mem_walk_iff ht h).mp hf
  obtain ⟨start', names', hb', hk', rfl⟩ := (mem_walk_iff ht h).mp hg
  obtain rfl := hb.unique hb'
  rw [components_below hn p hk, components_below hn p hk']
  exact List.append_left_lt (lt_of_append_lt hlt)

/-- A file is met by its own name. -/
theorem Meets.getLast?_location (hf : t.Meets p f) : f.location.getLast? = some f.name := by
  obtain ⟨start, names, hb, hk, rfl⟩ := hf
  obtain rfl | ⟨names, n, rfl⟩ := List.eq_nil_or_concat names
  · rw [List.append_nil] at hk
    rw [Found.below_nil]
    cases hb with
    | here h => exact getLast?_of_resolve_file h hk
    | linked _ _ _ hm => simp [hk] at hm
  · simp [Found.below]

end Tree

end StructProjection.Files
