import StructProjection.Files.Tree

/-! # What files hold before and after a write -/

namespace StructProjection.Files

namespace Entry

variable {e : Entry} {l m : Location}

private theorem lookup_map (es : List (Name × Entry)) (n k : Name) (f : Entry → Entry) :
    (es.map fun (m, e) => if m = n then (m, f e) else (m, e)).lookup k =
      (es.lookup k).map fun e => if k = n then f e else e := by
  induction es with
  | nil => rfl
  | cons x es ih =>
    obtain ⟨m, e⟩ := x
    by_cases hk : k = m
    · subst hk
      by_cases hn : k = n <;> simp [hn]
    · have hb : (k == m) = false := by simpa using hk
      have hf : (if m = n then (m, f e) else (m, e)).1 = m := by split <;> rfl
      rw [List.map_cons, List.lookup_cons, List.lookup_cons, hf, hb]
      exact ih

theorem at?_replace_self (new : Entry) (h : e.at? l ≠ none) :
    (replace new l e).at? l = some new := by
  induction l generalizing e with
  | nil => simp [replace, at?]
  | cons n l ih =>
    cases e with
    | folder es =>
      simp only [replace, at?, lookup_map] at h ⊢
      cases hn : es.lookup n with
      | none => simp [hn] at h
      | some e =>
        simp only [hn, Option.bind_some] at h
        simpa using ih h
    | _ => simp [at?] at h

/-- When a file is replaced by another, nothing else changes except that folders hold it. -/
theorem at?_replace_of_ne {c d : ByteArray} (h : e.at? l = some (.file c)) (hm : m ≠ l) :
    (replace (.file d) l e).at? m = e.at? m ∨
      ∃ es fs, e.at? m = some (.folder es) ∧ (replace (.file d) l e).at? m = some (.folder fs) := by
  induction l generalizing e m with
  | nil =>
    obtain ⟨n, m, rfl⟩ := List.exists_cons_of_ne_nil hm
    have he : e = .file c := by simpa [at?] using h
    exact .inl (by simp [he, replace, at?])
  | cons n l ih =>
    cases e with
    | folder es =>
      cases m with
      | nil => exact .inr ⟨es, _, rfl, rfl⟩
      | cons k m =>
        simp only [replace, at?, lookup_map] at h ⊢
        by_cases hk : k = n
        · subst hk
          cases hn : es.lookup k with
          | none => simp [hn] at h
          | some e =>
            simp only [hn, Option.bind_some] at h
            simpa using ih h (fun hml => hm (by rw [hml]))
        · exact .inl (by simp [hk])
    | _ => simp [at?] at h

end Entry

/-- A file can be opened for writing and has room for a content. -/
structure Access.Takes (a : Access) (l : Location) (content : ByteArray) : Prop where
  opened : a.unwritable l = none
  room : ∀ n, a.room l = some n → content.size ≤ n

namespace Tree

variable {t u v : Tree} {a : Access} {l m : Location} {c : ByteArray}

/-- What the file at a location holds. -/
def content (t : Tree) (l : Location) : Option ByteArray :=
  match t.at? l with
  | some (.file content) => some content
  | _ => none

/-- The trees show the same at a location to whoever reads there. -/
def SameAt (l : Location) (t u : Tree) : Prop := ∀ a, u.read a l = t.read a l

theorem content_eq (t : Tree) (l : Location) : t.content l = (t.read .free l).toOption := by
  unfold content read
  cases t.at? l with
  | none => rfl
  | some e => cases e <;> rfl

theorem content_eq_some : t.content l = some c ↔ t.at? l = some (.file c) := by
  unfold content
  split
  · next d ht => simp [ht]
  · next hne => simpa using fun ht => hne c ht

theorem exists_at?_of_content (h : t.content l ≠ none) : ∃ c, t.at? l = some (.file c) := by
  obtain ⟨c, hc⟩ := Option.ne_none_iff_exists'.mp h
  exact ⟨c, content_eq_some.mp hc⟩

theorem content_of_read (h : t.read a l = .ok c) : t.content l = some c := by
  rw [content_eq_some]
  unfold read at h
  split at h
  · next d ht =>
    split at h
    · simp at h
    · rw [ht, Except.ok.inj h]
  all_goals simp at h

namespace SameAt

theorem refl (l : Location) (t : Tree) : SameAt l t t := fun _ => rfl

theorem symm (h : SameAt l t u) : SameAt l u t := fun a => (h a).symm

theorem trans (h : SameAt l t u) (h' : SameAt l u v) : SameAt l t v := fun a => (h' a).trans (h a)

theorem content (h : SameAt l t u) : u.content l = t.content l := by
  rw [content_eq, content_eq, h]

end SameAt

private theorem root_ofRoot {e : Entry} (h : e.isFolder) : (ofRoot e).root = e := by
  cases e with
  | folder es => rfl
  | _ => simp [Entry.isFolder] at h

private theorem isFolder_replace {e : Entry} {new : Entry} (hl : l ≠ []) (h : e.isFolder) :
    (Entry.replace new l e).isFolder := by
  obtain ⟨n, l, rfl⟩ := List.exists_cons_of_ne_nil hl
  cases e with
  | folder es => rfl
  | _ => simp [Entry.isFolder] at h

theorem root_setContent (h : t.content l ≠ none) (c : ByteArray) :
    (t.setContent l c).root = Entry.replace (.file c) l t.root := by
  obtain ⟨d, hd⟩ := exists_at?_of_content h
  have hl : l ≠ [] := by
    rintro rfl
    simp [at?, Entry.at?, root] at hd
  simp only [setContent, hd]
  exact root_ofRoot (isFolder_replace hl rfl)

theorem content_setContent_self (h : t.content l ≠ none) (c : ByteArray) :
    (t.setContent l c).content l = some c := by
  obtain ⟨d, hd⟩ := exists_at?_of_content h
  have hne : t.root.at? l ≠ none := fun hn => Option.some_ne_none _ (hd.symm.trans hn)
  rw [content_eq_some, at?, root_setContent h, Entry.at?_replace_self _ hne]

/-- Only files get a content. -/
theorem setContent_of_no_content (h : t.content l = none) : t.setContent l c = t := by
  unfold setContent
  split
  · next d hd => simp [content_eq_some.mpr hd] at h
  · rfl

theorem sameAt_setContent (hm : m ≠ l) (t : Tree) (c : ByteArray) :
    SameAt m t (t.setContent l c) := by
  intro a
  by_cases hc : t.content l = none
  · rw [setContent_of_no_content hc]
  · obtain ⟨d, hd⟩ := exists_at?_of_content hc
    have hr := root_setContent hc c
    rcases Entry.at?_replace_of_ne hd hm (d := c) with h | ⟨es, fs, h, h'⟩
    · rw [read, read, at?, at?, hr, h]
    · rw [read, read, at?, at?, hr, h, h']

theorem sameAt_overwrite (hm : m ≠ l) (t : Tree) (a : Access) (c : ByteArray) :
    SameAt m t (t.overwrite a l c).1 := by
  unfold overwrite
  split
  · split
    · exact .refl m t
    · split
      · split <;> exact sameAt_setContent hm t _
      · exact sameAt_setContent hm t _
  all_goals exact .refl m t

theorem overwrite_cases (h : t.content l ≠ none) (a : Access) (c : ByteArray) :
    (t.overwrite a l c = (t.setContent l c, none) ∧ a.Takes l c) ∨
      (∃ r, t.overwrite a l c = (t, some r) ∧ a.unwritable l = some r) ∨
      ∃ n, t.overwrite a l c = (t.setContent l (c.extract 0 n), some .tooLarge) ∧
        a.unwritable l = none ∧ a.room l = some n ∧ n < c.size := by
  obtain ⟨d, hd⟩ := exists_at?_of_content h
  simp only [overwrite, hd]
  cases hw : a.unwritable l with
  | some r => exact .inr (.inl ⟨r, rfl, rfl⟩)
  | none =>
    cases hr : a.room l with
    | none => exact .inl ⟨rfl, hw, by simp [hr]⟩
    | some n =>
      by_cases hn : n < c.size
      · exact .inr (.inr ⟨n, by simp [hn], rfl, rfl, hn⟩)
      · exact .inl ⟨by simp [hn], hw, by simpa [hr] using hn⟩

end Tree

end StructProjection.Files
