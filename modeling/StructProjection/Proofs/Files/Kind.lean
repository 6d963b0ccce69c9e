import StructProjection.Proofs.Files.Content

/-! # What lies where in a tree

The kind of an entry says what it is, but not what a file or a folder holds. Writing changes no kinds,
and a path leads to the same place in all trees with the same kinds.
-/

namespace StructProjection.Files

/-- What an entry is. A link is told from others by its target. -/
inductive Kind
  | file
  | link (target : Path)
  | folder
  deriving DecidableEq, Repr

def Entry.kind : Entry → Kind
  | .file _ => .file
  | .link target => .link target
  | .folder _ => .folder

theorem Entry.at?_append (e : Entry) (l m : Location) :
    e.at? (l ++ m) = (e.at? l).bind (Entry.at? m) := by
  induction l generalizing e with
  | nil => rfl
  | cons n l ih =>
    cases e with
    | folder es =>
      rw [List.cons_append, Entry.at?, Entry.at?, Option.bind_assoc]
      exact congrArg _ (funext ih)
    | _ => rfl

namespace Tree

variable {t u v : Tree} {a : Access} {l m here : Location} {ls : List Location} {c : ByteArray}

/-- What lies at a location. Links are not followed. -/
def kindAt (t : Tree) (l : Location) : Option Kind := (t.at? l).map Entry.kind

theorem kindAt_eq_folder : t.kindAt l = some .folder ↔ ∃ es, t.at? l = some (.folder es) := by
  unfold kindAt
  cases t.at? l with
  | none => simp
  | some e => cases e <;> simp [Entry.kind]

theorem kindAt_nil (t : Tree) : t.kindAt [] = some .folder := rfl

/-! ## Trees with the same kinds -/

/-- The trees have entries at the same locations, and those at one location are of one kind. -/
def SameKinds (t u : Tree) : Prop := ∀ l, u.kindAt l = t.kindAt l

namespace SameKinds

theorem refl (t : Tree) : SameKinds t t := fun _ => rfl

theorem symm (h : SameKinds t u) : SameKinds u t := fun l => (h l).symm

theorem trans (h : SameKinds t u) (h' : SameKinds u v) : SameKinds t v := fun l =>
  (h' l).trans (h l)

end SameKinds

theorem sameKinds_setContent (t : Tree) (l : Location) (c : ByteArray) :
    SameKinds t (t.setContent l c) := by
  intro m
  by_cases hc : t.content l = none
  · rw [setContent_of_no_content hc]
  · obtain ⟨d, hd⟩ := exists_at?_of_content hc
    have hr := root_setContent hc c
    by_cases hm : m = l
    · subst hm
      have hne : t.root.at? m ≠ none := fun hn => Option.some_ne_none _ (hd.symm.trans hn)
      rw [kindAt, kindAt, at?, hr, Entry.at?_replace_self _ hne, hd]
      rfl
    · rcases Entry.at?_replace_of_ne hd hm (d := c) with h | ⟨es, fs, h, h'⟩
      · rw [kindAt, kindAt, at?, at?, hr, h]
      · rw [kindAt, kindAt, at?, at?, hr, h, h']
        rfl

theorem sameKinds_overwrite (t : Tree) (a : Access) (l : Location) (c : ByteArray) :
    SameKinds t (t.overwrite a l c).1 := by
  unfold overwrite
  split
  · split
    · exact .refl t
    · split
      · split <;> exact sameKinds_setContent t l _
      · exact sameKinds_setContent t l _
  all_goals exact .refl t

/-! ## Trees that differ in what some files hold -/

/-- The trees differ at most in what files at some of the locations hold. -/
structure DiffersIn (ls : List Location) (t u : Tree) : Prop where
  kinds : SameKinds t u
  elsewhere : ∀ l ∉ ls, SameAt l t u

namespace DiffersIn

theorem refl (ls : List Location) (t : Tree) : DiffersIn ls t t := ⟨.refl t, fun l _ => .refl l t⟩

theorem trans (h : DiffersIn ls t u) (h' : DiffersIn ls u v) : DiffersIn ls t v :=
  ⟨h.kinds.trans h'.kinds, fun l hl => (h.elsewhere l hl).trans (h'.elsewhere l hl)⟩

end DiffersIn

theorem differsIn_overwrite (hl : l ∈ ls) (t : Tree) (a : Access) (c : ByteArray) :
    DiffersIn ls t (t.overwrite a l c).1 where
  kinds := sameKinds_overwrite t a l c
  elsewhere m hm := sameAt_overwrite (fun h : m = l => hm (h ▸ hl)) t a c

end Tree

end StructProjection.Files
