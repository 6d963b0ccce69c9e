import Mathlib.Data.List.Nodup
import StructProjection.Files.Walk
import StructProjection.Selection

/-! # A walk meets no file twice -/

namespace StructProjection.Files

/-- Each folder in the entry holds each name once. -/
inductive Entry.Proper : Entry → Prop
  | file (content : ByteArray) : Proper (.file content)
  | link (target : Path) : Proper (.link target)
  | folder {es : List (Name × Entry)} (names : (es.map (·.1)).Nodup)
      (entries : ∀ x ∈ es, Proper x.2) : Proper (.folder es)

def Tree.Proper (t : Tree) : Prop := t.root.Proper

namespace Entry

variable {e e' : Entry} {es : List (Name × Entry)} {path : Path} {place l : Location} {name : Name}

theorem Proper.at? (h : e.Proper) (he : e.at? l = some e') : e'.Proper := by
  induction l generalizing e with
  | nil =>
    have hs : e = e' := by simpa [Entry.at?] using he
    exact hs ▸ h
  | cons n l ih =>
    cases h with
    | folder _ entries =>
      obtain ⟨x, hx, hl⟩ := Option.bind_eq_some_iff.mp he
      have hm := List.lookup_eq_some_iff.mp hx
      obtain ⟨before, after, rfl, -⟩ := hm
      exact ih (entries (n, x) (by simp)) hl
    | _ => simp [Entry.at?] at he

theorem filesOf_eq_map (path : Path) (place : Location) (es : List (Name × Entry)) :
    filesOf path place es =
      es.map fun x => (x.1, files (path.join x.1) (place ++ [x.1]) x.1 x.2) := by
  induction es with
  | nil => simp [filesOf]
  | cons x es ih =>
    obtain ⟨n, e⟩ := x
    rw [filesOf, ih, List.map_cons]

theorem perm_files_folder (path : Path) (place : Location) (name : Name)
    (es : List (Name × Entry)) :
    (files path place name (.folder es)).Perm
      (es.flatMap fun x => files (path.join x.1) (place ++ [x.1]) x.1 x.2) := by
  have h := (List.mergeSort_perm (filesOf path place es) fun a b => !decide (b.1 < a.1)).flatMap_right
    (·.2)
  rw [files, inOrder]
  refine h.trans (.of_eq ?_)
  rw [filesOf_eq_map, List.flatMap_map]

/-- The files of a folder whose names are in order. -/
theorem files_folder_of_sorted (path : Path) (place : Location) (name : Name)
    (h : (filesOf path place es).Pairwise fun a b => (!decide (b.1 < a.1)) = true) :
    files path place name (.folder es) = (filesOf path place es).flatMap (·.2) := by
  rw [files, inOrder, List.mergeSort_of_pairwise h]

theorem prefix_location (h : e.Proper) {f : Found} (hf : f ∈ files path place name e) :
    place <+: f.location := by
  induction h generalizing path place name with
  | file content =>
    have hs : f = ⟨path, place, name⟩ := by simpa [files] using hf
    exact hs ▸ List.prefix_rfl
  | link target => simp [files] at hf
  | folder _ _ ih =>
    obtain ⟨x, hx, hf⟩ := List.mem_flatMap.mp ((perm_files_folder _ _ _ _).mem_iff.mp hf)
    exact (List.prefix_append _ _).trans (ih x hx hf)

theorem nodup_files (h : e.Proper) : ((files path place name e).map (·.location)).Nodup := by
  induction h generalizing path place name with
  | file content => simp [files]
  | link target => simp [files]
  | @folder es names entries ih =>
    rw [((perm_files_folder path place name es).map _).nodup_iff, List.map_flatMap,
      List.nodup_flatMap]
    refine ⟨fun x hx => ih x hx, ?_⟩
    have hp : es.Pairwise fun x y => x.1 ≠ y.1 := List.pairwise_map.mp names
    refine hp.imp_of_mem ?_
    intro x y hx hy hne l hl hl'
    obtain ⟨f, hf, rfl⟩ := List.mem_map.mp hl
    obtain ⟨g, hg, hgf⟩ := List.mem_map.mp hl'
    have hxf := prefix_location (entries x hx) hf
    have hyf := prefix_location (entries y hy) hg
    rw [hgf] at hyf
    have hxy := (List.prefix_of_prefix_length_le hxf hyf (by simp)).eq_of_length (by simp)
    exact hne (by simpa using hxy)

end Entry

theorem Tree.nodup_walk {t : Tree} (ht : t.Proper) {p : Path} {found : List Found}
    (h : t.walk p = .ok found) : (found.map (·.location)).Nodup := by
  unfold walk at h
  cases hr : t.resolve p false with
  | error r => simp [hr, bind, Except.bind] at h
  | ok here =>
    simp only [hr, bind, Except.bind, pure, Except.pure] at h
    split at h
    · simp at h
    · cases hr' : t.resolve p true with
      | error r => simp [hr'] at h
      | ok there =>
        simp only [hr'] at h
        split at h
        · next he =>
          obtain rfl := Except.ok.inj h
          exact Entry.nodup_files (ht.at? he)
        · obtain rfl := Except.ok.inj h
          exact List.nodup_nil
    · next he =>
      obtain rfl := Except.ok.inj h
      exact Entry.nodup_files (ht.at? he)

end StructProjection.Files

namespace StructProjection

open Files

theorem nodup_selected {t : Tree} (ht : t.Proper) {root : Path} {s : Settings} {x : Selection}
    (h : select t root s = .ok x) : (x.files.map (·.location)).Nodup := by
  unfold select findFiles at h
  cases hw : t.walk root with
  | error r => simp [hw, Except.map] at h
  | ok found =>
    simp only [hw, Except.map, Except.ok.injEq] at h
    subst h
    exact (List.filter_sublist.map _).nodup (Tree.nodup_walk ht hw)

end StructProjection
