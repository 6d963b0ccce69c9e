import StructProjection.Proofs.Go.Body

/-! # Readers that read line by line

A reader of source files is not made anew for each text. What is used of it: the outlines that it finds
fit, and behind a package clause it begins anew at each end of a line that no construct goes across.
-/

namespace StructProjection.Go

open Text

namespace Reader

/-- In the text that the two parts make up, the reader finds no fault, the items `is` in the first
part and the items `js` in the second, which are given by their places in it. -/
structure Reads (r : Reader) (as : List Char) (is : List Item) (bs : List Char) (js : List Item) :
    Prop where
  eq_ok : r (String.ofList (as ++ bs)) = .ok ⟨none, is ++ js.map (·.moved (.after .zero as))⟩
  stop_le : ∀ i ∈ is, i.stop.offset ≤ byteLength as

/-- What stands behind the end of a line that no construct goes across may be replaced by what the
reader finds declarations in elsewhere, if these can stand at the beginning of a line. -/
structure Linewise (r : Reader) : Prop where
  fits {text : String} {o : Outline} (h : r text = .ok o) : o.fits text.toList
  resume {as as' bs bs' : List Char} {is is' js js' : List Item} (h : r.Reads as is bs js)
    (hend : as.getLast? = some '\n') (hpackage : ∃ i ∈ is, i.construct = .packageClause)
    (h' : r.Reads as' is' bs' js') (hbody : ∀ j ∈ js', j.construct.isBody)
    (hstart : Outline.itemsFit true true .zero bs' js') : r.Reads as is bs' js'

variable {r : Reader} {as bs cs : List Char} {is js ks : List Item}

/-- The cut may be moved behind some items. -/
theorem Reads.shift (h : r.Reads as is (bs ++ cs) (js ++ ks.map (·.moved (.after .zero bs))))
    (hjs : ∀ j ∈ js, j.stop.offset ≤ byteLength bs) :
    r.Reads (as ++ bs) (is ++ js.map (·.moved (.after .zero as))) cs ks := by
  refine ⟨?_, fun i hi => ?_⟩
  · have hplace : (Place.zero.after as).add (.after .zero bs) = .after .zero (as ++ bs) := by
      rw [← Place.after_eq_add, Place.after_after]
    rw [List.append_assoc, h.eq_ok, List.map_append, map_moved_moved, hplace, List.append_assoc]
  · rw [byteLength_append]
    rcases List.mem_append.1 hi with hi | hi
    · exact (h.stop_le i hi).trans (Nat.le_add_right _ _)
    · obtain ⟨j, hj, rfl⟩ := List.mem_map.1 hi
      have hle := hjs j hj
      simp only [Item.stop_moved, Place.add, Place.after, Place.zero]
      omega

/-- The items of a text that is read, all of them in the first part. -/
theorem Reads.of_ok {text : String} (hr : r.Linewise) (h : r text = .ok ⟨none, is⟩) :
    r.Reads text.toList is [] [] := by
  obtain ⟨e, hlaid⟩ := exists_laid_of_fits (hr.fits h)
  refine ⟨by simpa using h, fun i hi => ?_⟩
  simpa [Place.after, Place.zero] using (hlaid.bounds hi).2.2

/-- Nothing is found in an empty part. -/
theorem Reads.eq_nil (hr : r.Linewise) (h : r.Reads as is [] js) : js = [] := by
  obtain ⟨e, hlaid⟩ := exists_laid_of_fits (hr.fits h.eq_ok)
  rw [String.toList_ofList] at hlaid
  cases js with
  | nil => rfl
  | cons j js =>
    have hbounds := hlaid.bounds (i := j.moved (.after .zero as)) (by simp)
    simp only [Item.start_moved, Item.stop_moved, Place.add, Place.after, Place.zero,
      byteLength_append, byteLength] at hbounds
    omega

/-- A text that ends with its line is read without what stands behind it. -/
theorem Reads.ok_left (hr : r.Linewise) (h : r.Reads as is bs js)
    (hend : as.getLast? = some '\n' ∨ bs = []) (hpackage : ∃ i ∈ is, i.construct = .packageClause)
    : r (String.ofList as) = .ok ⟨none, is⟩ := by
  rcases hend with hend | rfl
  · have hnil : r.Reads as is [] [] :=
      hr.resume h hend hpackage (Reads.of_ok hr h.eq_ok) (by simp)
        (by simp [Outline.itemsFit, Outline.endedAfter])
    simpa using hnil.eq_ok
  · obtain rfl := h.eq_nil hr
    simpa using h.eq_ok

end Reader

end StructProjection.Go
