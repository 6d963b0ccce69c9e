import Mathlib.Data.List.Forall2
import Mathlib.Data.List.Perm.Basic

/-! # Steps that can fail

Steps that are taken one after the other have a result if each of them has one. A step that fails in
any case fails wherever it is taken.
-/

namespace StructProjection

variable {ε σ α β : Type}

section Bind

variable {x : Except ε α} {f : α → Except ε β}

theorem exists_of_bind {y : β} (h : (x >>= f) = .ok y) : ∃ z, x = .ok z ∧ f z = .ok y := by
  cases x with
  | error e => cases h
  | ok z => exact ⟨z, rfl, h⟩

theorem bind_eq_error (h : ∀ z, x = .ok z → ∃ e, f z = .error e) : ∃ e, (x >>= f) = .error e := by
  cases x with
  | error e => exact ⟨e, rfl⟩
  | ok z => exact h z rfl

theorem bind_eq_error_of_left (h : ∃ e, x = .error e) : ∃ e, (x >>= f) = .error e := by
  obtain ⟨e, rfl⟩ := h
  exact ⟨e, rfl⟩

end Bind

section Folds

variable {f : σ → α → Except ε σ} {g : σ → β → σ} {as as' : List α} {bs : List β}

theorem foldlM_of_forall₂ (h : List.Forall₂ (fun a b => ∀ s, f s a = .ok (g s b)) as bs) (s : σ) :
    as.foldlM f s = .ok (bs.foldl g s) := by
  induction h generalizing s with
  | nil => rfl
  | cons ha _ ih =>
    rw [List.foldlM_cons, ha s]
    exact ih _

/-- Where each entry has its own effect and no two effects disturb each other, the entries can be
looked at in any order. -/
theorem foldlM_of_perm (hperm : as'.Perm as)
    (h : List.Forall₂ (fun a b => ∀ s, f s a = .ok (g s b)) as bs)
    (hcomm : ∀ x ∈ bs, ∀ y ∈ bs, ∀ s, g (g s x) y = g (g s y) x) (s : σ) :
    as'.foldlM f s = .ok (bs.foldl g s) := by
  obtain ⟨bs', h', hbs⟩ := List.perm_comp_forall₂ hperm h
  rw [foldlM_of_forall₂ h']
  exact congrArg _ (hbs.foldl_eq' (fun x hx y hy s =>
    hcomm x (hbs.subset hx) y (hbs.subset hy) s) s)

/-- An entry that is wrong in itself is wrong among others. -/
theorem foldlM_eq_error {a : α} (ha : a ∈ as) (h : ∀ s, ∃ e, f s a = .error e) (s : σ) :
    ∃ e, as.foldlM f s = .error e := by
  induction as generalizing s with
  | nil => cases ha
  | cons b as ih =>
    rw [List.foldlM_cons]
    rcases List.mem_cons.1 ha with rfl | ha
    · exact bind_eq_error_of_left (h s)
    · exact bind_eq_error fun s' _ => ih ha s'

end Folds

section Maps

variable {f : α → Except ε β} {as : List α} {bs : List β}

theorem mapM_of_forall₂ (h : List.Forall₂ (fun a b => f a = .ok b) as bs) : as.mapM f = .ok bs := by
  induction h with
  | nil => rfl
  | cons ha _ ih =>
    rw [List.mapM_cons, ha, ih]
    rfl

theorem mapM_eq_error {a : α} (ha : a ∈ as) (h : ∃ e, f a = .error e) :
    ∃ e, as.mapM f = .error e := by
  induction as with
  | nil => cases ha
  | cons b as ih =>
    rw [List.mapM_cons]
    rcases List.mem_cons.1 ha with rfl | ha
    · exact bind_eq_error_of_left h
    · exact bind_eq_error fun b' _ => bind_eq_error_of_left (ih ha)

end Maps

end StructProjection
