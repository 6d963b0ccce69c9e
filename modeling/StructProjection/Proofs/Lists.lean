import Mathlib.Data.List.Forall2

/-! # Lists side by side

What is known of two lists whose elements are related one by one.
-/

namespace StructProjection

variable {α β : Type} {P : α → β → Prop} {as : List α}

theorem exists_mem_of_forall₂ {bs : List β} (h : List.Forall₂ P as bs) {b : β} (hb : b ∈ bs) :
    ∃ a, a ∈ as ∧ P a b := by
  induction h with
  | nil => simp at hb
  | @cons a c as bs hac _ ih =>
    rcases List.mem_cons.1 hb with rfl | hb
    · exact ⟨a, List.mem_cons_self, hac⟩
    · obtain ⟨d, hd, hdb⟩ := ih hb
      exact ⟨d, List.mem_cons_of_mem a hd, hdb⟩

/-- Where the second list is cut, the first can be cut, too. -/
theorem exists_append_of_forall₂ {bs cs : List β} (h : List.Forall₂ P as (bs ++ cs)) :
    ∃ as₁ as₂, as = as₁ ++ as₂ ∧ List.Forall₂ P as₁ bs ∧ List.Forall₂ P as₂ cs :=
  ⟨_, _, (List.take_append_drop bs.length as).symm, List.forall₂_take_append as bs cs h,
    List.forall₂_drop_append as bs cs h⟩

end StructProjection
