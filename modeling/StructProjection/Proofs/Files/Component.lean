import StructProjection.Files.Path

/-! # Components of paths

The components of a path are the names it goes through. A path within a path has one component more.
-/

namespace StructProjection.Files

open Path (slash dot)

/-- A name that an entry can have. -/
def Name.Legal (n : Name) : Prop := n ∉ [[], [dot], [dot, dot]] ∧ slash ∉ n ∧ 0 ∉ n

instance : DecidablePred Name.Legal := fun _ => inferInstanceAs (Decidable (_ ∧ _))

namespace Path

variable {p : Path} {n : Name}

def Step.component? : Step → Option Name
  | .stay => none
  | .up => some [dot, dot]
  | .enter n => some n

/-- The names between the slashes of a path, without those that lead nowhere. -/
def components (p : Path) : List Name := p.steps.filterMap Step.component?

theorem splitAtSlash_append (bs cs : List UInt8) :
    splitAtSlash (bs ++ slash :: cs) =
      ((splitAtSlash bs).1, (splitAtSlash bs).2 ++ (splitAtSlash cs).1 :: (splitAtSlash cs).2) := by
  induction bs with
  | nil => simp [splitAtSlash]
  | cons b bs ih =>
    rw [List.cons_append, splitAtSlash, splitAtSlash, ih]
    dsimp only
    split <;> rfl

theorem splitAtSlash_of_not_mem {bs : List UInt8} (h : slash ∉ bs) : splitAtSlash bs = (bs, []) := by
  induction bs with
  | nil => rfl
  | cons b bs ih =>
    obtain ⟨hb, hbs⟩ := List.ne_and_not_mem_of_not_mem_cons h
    rw [splitAtSlash, ih hbs]
    exact if_neg hb.symm

theorem steps_append_slash (bs cs : List UInt8) :
    steps ⟨bs ++ slash :: cs⟩ = steps ⟨bs⟩ ++ steps ⟨cs⟩ := by
  simp [steps, splitAtSlash_append]

theorem steps_of_legal (h : n.Legal) : steps ⟨n⟩ = [.enter n] := by
  obtain ⟨hne, hs, -⟩ := h
  have hstep : stepOf n = .enter n := by
    simp only [List.mem_cons, List.not_mem_nil, or_false, not_or] at hne
    simp [stepOf, hne]
  simp [steps, splitAtSlash_of_not_mem hs, hstep]

theorem components_join (h : n.Legal) (p : Path) :
    (p.join n).components = p.components ++ [n] := by
  have hn : (steps ⟨n⟩).filterMap Step.component? = [n] := by simp [steps_of_legal h, Step.component?]
  obtain ⟨bs⟩ := p
  unfold join components
  split
  · next hb =>
    simp only [Bool.or_eq_true, decide_eq_true_eq] at hb
    rcases hb with rfl | hb
    · exact hn
    · -- The slash at the end ends an empty name, and the new name takes its place.
      obtain ⟨bs, rfl⟩ := List.getLast?_eq_some_iff.mp hb
      have hend : (steps ⟨[]⟩).filterMap Step.component? = [] := rfl
      rw [List.append_assoc, List.singleton_append, steps_append_slash, steps_append_slash,
        List.filterMap_append, List.filterMap_append, hn, hend, List.append_nil]
  · rw [steps_append_slash, List.filterMap_append, hn]

theorem components_foldl_join {names : List Name} (h : ∀ n ∈ names, n.Legal) (p : Path) :
    (names.foldl join p).components = p.components ++ names := by
  induction names generalizing p with
  | nil => simp
  | cons n names ih =>
    rw [List.foldl_cons, ih fun m hm => h m (List.mem_cons_of_mem _ hm),
      components_join (h n List.mem_cons_self)]
    simp

end Path

end StructProjection.Files
