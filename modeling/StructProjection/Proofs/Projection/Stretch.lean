import StructProjection.Proofs.Go.Body
import StructProjection.Proofs.Projection.Line

/-! # Stretches

What a projection keeps of a file in one piece: a text that ends with a construct, and the rest of the
line of that. Where it takes in the whole line and tears no construct, all that begins on the rest of
the line ends on it, too.
-/

namespace StructProjection

open Text Go

/-- The items of a text up to one that ends with `text`, that item, and the items behind. -/
structure Stretch where
  text : List Char
  behind : List Char
  above : List Item
  item : Item
  after : List Item

namespace Stretch

/-- What is kept. -/
def kept (s : Stretch) : List Char := s.text ++ lineTail s.behind

/-- The items behind that begin in what is kept. -/
def onLine (s : Stretch) : List Item := s.after.filter (·.start.offset < byteLength s.kept)

/-- The items behind what is kept. -/
def later (s : Stretch) : List Item := s.after.filter (!·.start.offset < byteLength s.kept)

/-- The items in what is kept. -/
def items (s : Stretch) : List Item := s.above ++ s.item :: s.onLine

structure Holds (s : Stretch) (source : List Char) (is : List Item) : Prop where
  source_eq : source = s.text ++ s.behind
  items_eq : is = s.above ++ s.item :: s.after
  construct_ne : s.item.construct ≠ .comment
  stop_eq : s.item.stop = .after .zero s.text
  ends : Outline.endsInLine s.text
  laid : ∃ e, Laid true .zero source is e

/-- The whole rest of the line is kept, and the items that begin on it end on it. -/
structure Whole (s : Stretch) : Prop where
  taken : lineTail s.behind = restOfLine s.behind
  untorn : ∀ i ∈ s.after, i.start.offset < byteLength s.kept → i.stop.offset ≤ byteLength s.kept

variable {s : Stretch} {source : List Char} {is : List Item}

private theorem filter_append_filter_not {p : Item → Bool}
    (h : is.Pairwise fun i j => p j → p i) : is.filter p ++ is.filter (!p ·) = is := by
  induction is with
  | nil => rfl
  | cons i is ih =>
    by_cases hi : p i
    · simpa [hi] using ih h.of_cons
    · have hnone : ∀ j ∈ is, ¬ p j := fun j hj hpj => hi (List.rel_of_pairwise_cons h hj hpj)
      have hfilter : is.filter p = [] := List.filter_eq_nil_iff.2 hnone
      simpa [hi, hfilter] using ih h.of_cons

theorem Whole.isTail (hw : s.Whole) : IsTail (lineTail s.behind) := by
  refine ⟨restOfLine_lineTail s.behind, ?_⟩
  have htaken := hw.taken
  simp only [lineTail] at htaken ⊢
  by_cases hcond : (decide (trim (restOfLine s.behind) = []) ||
      isTrailingComment (trim (restOfLine s.behind))) = true
  · rw [if_pos hcond]
    simpa using hcond
  · rw [if_neg hcond] at htaken
    simp [← htaken, trim, dropBlanks, dropEndWhile] at hcond

/-- Behind the rest of a line nothing is left unless it ends with a line feed. -/
theorem Whole.exists_rest (hw : s.Whole) : ∃ rest, s.behind = lineTail s.behind ++ rest ∧
    ('\n' ∈ lineTail s.behind ∨ rest = []) := by
  obtain ⟨rest, hrest⟩ := lineTail_prefix s.behind
  refine ⟨rest, hrest.symm, ?_⟩
  obtain ⟨line, stop, heq, -, rfl | ⟨rfl, hline⟩⟩ := exists_restOfLine s.behind
  · exact .inl (by simp [hw.taken, heq])
  · refine .inr ?_
    rw [hw.taken, heq, hline, List.append_nil] at hrest
    simpa using hrest

theorem le_kept (s : Stretch) : byteLength s.text ≤ byteLength s.kept := by
  rw [kept, byteLength_append]
  exact Nat.le_add_right _ _

theorem getLast?_kept (hnl : '\n' ∈ lineTail s.behind) (pre : List Char) :
    (pre ++ s.kept).getLast? = some '\n' := by
  have hlast := getLast?_of_restOfLine (restOfLine_lineTail s.behind) hnl
  rw [kept, List.getLast?_append, List.getLast?_append, hlast]
  rfl

namespace Holds

variable (h : s.Holds source is)
include h

theorem stop_offset : s.item.stop.offset = byteLength s.text := by
  simp [h.stop_eq, Place.after, Place.zero]

theorem gapLines_kept (pre : List Char) : gapLines (pre ++ s.kept) = [] := by
  rw [kept, ← List.append_assoc]
  exact gapLines_of_tail (endsInLine_append h.ends) (restOfLine_lineTail s.behind)

/-- The items behind begin behind the text. -/
theorem le_start {i : Item} (hi : i ∈ s.after) : byteLength s.text ≤ i.start.offset := by
  obtain ⟨e, hlaid⟩ := h.laid
  rw [h.items_eq] at hlaid
  have hpairwise := (List.pairwise_append.1 hlaid.pairwise).2.1
  have hle := List.rel_of_pairwise_cons hpairwise hi
  rwa [h.stop_offset] at hle

/-- What begins on the rest of the line stands before the rest. -/
theorem onLine_append_later : s.onLine ++ s.later = s.after := by
  obtain ⟨e, hlaid⟩ := h.laid
  rw [h.items_eq] at hlaid
  refine filter_append_filter_not ((List.pairwise_append.1 hlaid.pairwise).2.1.of_cons.imp_of_mem ?_)
  intro i j hi _ hle hj
  have hlt := (hlaid.bounds (i := i) (by simp [hi])).2.1
  simp only [decide_eq_true_eq] at hj ⊢
  omega

/-- What begins on the rest of the line stands on the row that the item ends on. -/
theorem row_onLine (hw : s.Whole) {i : Item} (hi : i ∈ s.onLine) :
    i.start.row = s.item.stop.row ∧ i.stop.row = s.item.stop.row := by
  obtain ⟨hafter, hstart⟩ := List.mem_filter.1 hi
  obtain ⟨e, hlaid⟩ := h.laid
  have hmem : i ∈ is := by simp [h.items_eq, hafter]
  obtain ⟨as, text, bs, hsource, hs, ht, hline⟩ := hlaid.place_of_mem hmem
  obtain ⟨gap, rfl, hbehind⟩ := exists_append_of_byteLength_le (h.source_eq.symm.trans hsource) (by
    simpa [hs, Place.after, Place.zero] using h.le_start hafter)
  obtain ⟨rest, hrest, -⟩ := hw.exists_rest
  rw [hrest, ← List.append_assoc] at hbehind
  obtain ⟨more, hmore, -⟩ := exists_append_of_byteLength_le hbehind.symm (by
    have hstop := hw.untorn i hafter (by simpa using hstart)
    simp only [ht, hs, kept, Place.after, Place.zero, byteLength_append] at hstop ⊢
    omega)
  have hnl : '\n' ∉ gap ++ text := by
    refine newline_not_mem_of_restOfLine (hmore ▸ restOfLine_lineTail s.behind) ?_
    exact getLast?_of_endsInLine (endsInLine_append hline)
  have hcount := List.count_eq_zero_of_not_mem hnl
  rw [List.count_append] at hcount
  simp only [ht, hs, h.stop_eq, Place.after, Place.zero, List.count_append]
  omega

/-- Nothing that is kept belongs to what is below. -/
theorem docRun_items (hw : s.Whole) (p : Place) (row : Nat) (above : List Item) :
    docRun row ((s.items.map (·.moved p)).reverse ++ above) = [] := by
  have hrow := fun i => h.row_onLine hw (i := i)
  rw [items]
  rcases List.eq_nil_or_concat s.onLine with hnil | ⟨ts, t, hts⟩
  · simpa [hnil] using docRun_cons_of_ne (by simpa using h.construct_ne) row _
  · rw [hts] at hrow ⊢
    have ht := (hrow t (by simp)).1
    rcases List.eq_nil_or_concat ts with rfl | ⟨us, u, rfl⟩
    · simpa using docRun_cons_of_follows (by simp [Place.add, ht]) row _
    · have hu := (hrow u (by simp)).2
      simpa using docRun_cons_of_follows (by simp [Place.add, ht, hu]) row _

theorem stop_le_text {i : Item} (hi : i ∈ s.above ++ [s.item]) : i.stop.offset ≤ byteLength s.text := by
  obtain ⟨e, hlaid⟩ := h.laid
  rw [h.items_eq] at hlaid
  rw [← h.stop_offset]
  rcases List.mem_append.1 hi with hi | hi
  · have hle := (List.pairwise_append.1 hlaid.pairwise).2.2 i hi s.item List.mem_cons_self
    have hlt := (hlaid.bounds (i := s.item) (by simp)).2.1
    omega
  · rw [List.mem_singleton.1 hi]

theorem stop_le (hw : s.Whole) {i : Item} (hi : i ∈ s.items) : i.stop.offset ≤ byteLength s.kept := by
  rw [items, List.append_cons] at hi
  rcases List.mem_append.1 hi with hi | hi
  · exact (h.stop_le_text hi).trans s.le_kept
  · obtain ⟨hafter, hstart⟩ := List.mem_filter.1 hi
    exact hw.untorn i hafter (by simpa using hstart)

/-- The last of the items that are kept ends above the row that what is kept ends on. -/
theorem row_lt (hw : s.Whole) (hnl : '\n' ∈ lineTail s.behind) {i : Item}
    (hi : i ∈ s.items.getLast?) : i.stop.row < (Place.zero.after s.kept).row := by
  have hrow : i.stop.row = s.item.stop.row := by
    rcases List.eq_nil_or_concat s.onLine with hnil | ⟨ts, t, hts⟩
    · rw [items, hnil, List.getLast?_concat] at hi
      rw [Option.some.inj hi]
    · rw [items, hts, List.concat_eq_append, ← List.cons_append, ← List.append_assoc,
        List.getLast?_concat] at hi
      obtain rfl := Option.some.inj hi
      exact (h.row_onLine hw (by simp [hts])).2
  have hpos := List.count_pos_iff.2 hnl
  rw [hrow, h.stop_eq, kept]
  simp only [Place.after, List.count_append]
  omega

/-- The text and its items, cut behind what is kept. -/
theorem exists_cut (hw : s.Whole) : ∃ (rest : List Char) (js : List Item),
    source = s.kept ++ rest ∧ is = s.items ++ js.map (·.moved (.after .zero s.kept)) ∧
      ('\n' ∈ lineTail s.behind ∨ rest = []) := by
  obtain ⟨rest, hrest, hnl⟩ := hw.exists_rest
  obtain ⟨e, hlaid⟩ := h.laid
  have hsource : source = s.kept ++ rest := by
    rw [h.source_eq, kept, List.append_assoc, ← hrest]
  have hitems : is = s.items ++ s.later := by
    rw [h.items_eq, items, ← h.onLine_append_later, List.append_assoc, List.cons_append]
  rw [hsource, hitems] at hlaid
  obtain ⟨e', -, hlater⟩ := hlaid.cut
    (fun i hi => by simpa [Place.after, Place.zero] using h.stop_le hw hi)
    (fun j hj => by simpa [Place.after, Place.zero] using (List.mem_filter.1 hj).2)
  obtain ⟨js, hjs, -⟩ :=
    Laid.exists_moved (q := .after .zero s.kept) (s := .zero) (by simpa using hlater)
  exact ⟨rest, js, hsource, by rw [hitems, hjs], hnl⟩

end Holds

end Stretch

end StructProjection
