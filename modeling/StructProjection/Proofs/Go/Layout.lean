import Mathlib.Data.List.Basic
import Mathlib.Data.List.TakeWhile
import StructProjection.Go.SourceFile

/-! # Layouts

Where a text has no fault its items stand one after the other in it, with gaps between them. A layout
can be cut between two items, put together again and moved to another place.
-/

namespace StructProjection

open Text

namespace Text.Place

/-- The place at `q` in a text that begins at `p`. -/
def add (p q : Place) : Place := ⟨p.offset + q.offset, p.row + q.row⟩

@[simp] theorem zero_add (q : Place) : zero.add q = q := by simp [add, zero]

@[simp] theorem add_zero (p : Place) : p.add zero = p := by simp [add, zero]

theorem add_assoc (p q s : Place) : (p.add q).add s = p.add (q.add s) := by
  simp [add, Nat.add_assoc]

theorem add_after (p q : Place) (cs : List Char) : (p.add q).after cs = p.add (q.after cs) := by
  simp [add, after, Nat.add_assoc]

theorem after_eq_add (p : Place) (cs : List Char) : p.after cs = p.add (zero.after cs) := by
  simpa using add_after p zero cs

@[simp] theorem after_nil (p : Place) : p.after [] = p := by simp [after, byteLength]

theorem add_left_cancel {p q s : Place} (h : p.add q = p.add s) : q = s := by
  simp only [add, mk.injEq, Nat.add_left_cancel_iff] at h
  cases q; cases s
  simpa using h

end Text.Place

namespace Go

open Outline

/-- The item in a text that begins at `p`. -/
def Item.moved (p : Place) (i : Item) : Item :=
  { i with start := p.add i.start, stop := p.add i.stop }

@[simp] theorem Item.start_moved (p : Place) (i : Item) : (i.moved p).start = p.add i.start := rfl

@[simp] theorem Item.stop_moved (p : Place) (i : Item) : (i.moved p).stop = p.add i.stop := rfl

@[simp] theorem Item.construct_moved (p : Place) (i : Item) :
    (i.moved p).construct = i.construct := rfl

@[simp] theorem Item.moved_zero (i : Item) : i.moved .zero = i := by simp [moved]

theorem Item.moved_moved (p q : Place) (i : Item) : (i.moved q).moved p = i.moved (p.add q) := by
  simp [moved, Place.add_assoc]

theorem Item.moved_injective (p : Place) : Function.Injective (Item.moved p) := by
  intro i j h
  have hstart : i.start = j.start := Place.add_left_cancel (congrArg Item.start h)
  have hstop : i.stop = j.stop := Place.add_left_cancel (congrArg Item.stop h)
  cases i
  cases j
  simp_all [moved]

theorem map_moved_injective {p : Place} {is js : List Item}
    (h : is.map (·.moved p) = js.map (·.moved p)) : is = js :=
  (Item.moved_injective p).list_map h

theorem map_moved_moved (p q : Place) (is : List Item) :
    (is.map (·.moved q)).map (·.moved p) = is.map (·.moved (p.add q)) := by
  simp [Item.moved_moved]

/-- The text of an item whose place in a text is known. -/
theorem Item.text_span {i : Item} {pre text : List Char} (hstart : i.start = .after .zero pre)
    (hstop : i.stop = i.start.after text) (rest : List Char) :
    i.span.text (pre ++ (text ++ rest)) = text := by
  rw [Item.span, hstop, hstart, Place.after_after]
  simp only [Place.after, Place.zero, Nat.zero_add]
  exact slice_between _ _ _

/-! ## Gaps -/

theorem endedAfter_append (ended : Bool) (as bs : List Char) :
    endedAfter ended (as ++ bs) = (endedAfter ended as).bind (endedAfter · bs) := by
  induction as generalizing ended with
  | nil => rfl
  | cons c as ih =>
    simp only [List.cons_append, endedAfter]
    split
    · exact ih true
    · split
      · exact ih ended
      · split
        · exact ih true
        · rfl

theorem endedAfter_true {gap : List Char} {e : Bool} (h : endedAfter true gap = some e) :
    e = true := by
  induction gap with
  | nil => simpa [endedAfter] using h.symm
  | cons c gap ih =>
    simp only [endedAfter, Bool.not_true, Bool.and_false, Bool.false_eq_true, ↓reduceIte] at h
    split at h
    · exact ih h
    · split at h
      · exact ih h
      · simp at h

/-- A line feed ends a construct. -/
theorem ended_of_newline {ended e : Bool} {gap : List Char} (h : endedAfter ended gap = some e)
    (hnl : '\n' ∈ gap) : e = true := by
  obtain ⟨as, bs, rfl⟩ := List.append_of_mem hnl
  rw [endedAfter_append] at h
  obtain ⟨_, -, hbs⟩ := Option.bind_eq_some_iff.1 h
  have hmore : endedAfter true bs = some e := by simpa [endedAfter] using hbs
  exact endedAfter_true hmore

theorem endedAfter_of_spaces {ended : Bool} {gap : List Char} (h : ∀ c ∈ gap, isSpace c) :
    endedAfter ended gap = some (ended || decide ('\n' ∈ gap)) := by
  induction gap generalizing ended with
  | nil => simp [endedAfter]
  | cons c gap ih =>
    have hgap := fun e => @ih e fun d hd => h d (List.mem_cons_of_mem c hd)
    by_cases hc : c = '\n'
    · simp [endedAfter, hc, hgap]
    · simp [endedAfter, h c List.mem_cons_self, hgap, hc, Ne.symm hc]

/-! ## Items in a text -/

/-- The items stand in a text that begins at a place. The flags tell whether the construct before the
text and the last construct in it have been ended. -/
inductive Laid : (ended : Bool) → Place → List Char → List Item → (ended' : Bool) → Prop
  | nil {ended ended' p gap} (hgap : endedAfter ended gap = some ended') :
      Laid ended p gap [] ended'
  | cons {ended ended' e p gap text rest i is} (hgap : endedAfter ended gap = some e)
      (hstart : i.start = p.after gap) (hstop : i.stop = i.start.after text)
      (hsound : i.fault = none) (hline : endsInLine text)
      (hcomment : i.construct = .comment → isCommentText text)
      (hmore : Laid (i.construct = .comment && e) i.stop rest is ended') :
      Laid ended p (gap ++ (text ++ rest)) (i :: is) ended'

theorem exists_laid_of_itemsFit {ended : Bool} {p : Place} {rest : List Char} {is : List Item}
    (h : itemsFit true ended p rest is) : ∃ e, Laid ended p rest is e := by
  induction is generalizing ended p rest with
  | nil =>
    obtain ⟨e, he⟩ := Option.isSome_iff_exists.1 (by simpa [itemsFit] using h)
    exact ⟨e, .nil he⟩
  | cons i is ih =>
    simp only [itemsFit, Bool.and_eq_true, Bool.not_true, Bool.false_or, decide_eq_true_eq] at h
    obtain ⟨⟨⟨hstart, hstop⟩, ⟨⟨hsound, hline⟩, hgap⟩, hcomment⟩, hrest⟩ := h
    obtain ⟨e, he⟩ := Option.isSome_iff_exists.1 hgap
    rw [he, Option.getD_some] at hrest
    obtain ⟨e', hmore⟩ := ih hrest
    refine ⟨e', ?_⟩
    have hlaid := Laid.cons he hstart.symm hstop.symm hsound hline
      (fun hi => by simpa [hi] using hcomment) hmore
    rwa [takeBytes_append_dropBytes, takeBytes_append_dropBytes] at hlaid

theorem itemsFit_of_laid {ended e : Bool} {p : Place} {cs : List Char} {is : List Item}
    (h : Laid ended p cs is e) : itemsFit true ended p cs is := by
  induction h with
  | nil hgap => simp [itemsFit, hgap]
  | @cons ended ended' e p before text rest i is hbefore hstart hstop hsound hline hcomment _ ih =>
    have hs : i.start.offset - p.offset = byteLength before := by simp [hstart, Place.after]
    have ht : i.stop.offset - i.start.offset = byteLength text := by simp [hstop, Place.after]
    simp only [itemsFit, hs, ht, takeBytes_byteLength_append, dropBytes_byteLength_append, hbefore,
      ← hstart, ← hstop, hsound, hline, ih, Option.getD_some, Option.isSome_some, Bool.not_true,
      Bool.false_or, Bool.and_true, Bool.true_and, decide_true]
    by_cases hi : i.construct = .comment
    · simp [hi, hcomment hi]
    · simp [hi]

/-- The items of a text without a fault. -/
theorem exists_laid_of_fits {source : List Char} {is : List Item} (h : fits source ⟨none, is⟩) :
    ∃ e, Laid true .zero source is e := by
  simp only [fits, Bool.and_eq_true] at h
  exact exists_laid_of_itemsFit h.2

/-! ## Ends of lines -/

theorem takeEndWhile_append_of_all {p : Char → Bool} {as bs : List Char} (h : ∀ c ∈ bs, p c) :
    takeEndWhile p (as ++ bs) = takeEndWhile p as ++ bs := by
  rw [takeEndWhile, List.reverse_append, List.takeWhile_append_of_pos (by simpa using h)]
  simp [takeEndWhile]

theorem takeEndWhile_append_of_not_all {p : Char → Bool} {as bs : List Char}
    (h : ¬ ∀ c ∈ bs, p c) : takeEndWhile p (as ++ bs) = takeEndWhile p bs := by
  rw [takeEndWhile, List.reverse_append, List.takeWhile_append, if_neg, takeEndWhile]
  intro hlen
  have heq := (List.takeWhile_prefix p).eq_of_length hlen
  exact h fun c hc => List.mem_takeWhile_imp (heq ▸ List.mem_reverse.2 hc)

theorem endsInLine_append {as bs : List Char} (h : endsInLine bs) : endsInLine (as ++ bs) := by
  by_cases hall : ∀ c ∈ bs, (c ≠ '\n' : Bool)
  · rw [endsInLine, takeEndWhile_append_of_all hall, List.any_append]
    have hbs : takeEndWhile (· ≠ '\n') bs = bs := @takeEndWhile_append_of_all _ [] bs hall
    rw [endsInLine, hbs] at h
    rw [h, Bool.or_true]
  · rwa [endsInLine, takeEndWhile_append_of_not_all hall]

theorem endsInLine_append_line {cs line : List Char} (h : endsInLine cs) (hl : '\n' ∉ line) :
    endsInLine (cs ++ line) := by
  have hall : ∀ c ∈ line, (c ≠ '\n' : Bool) := fun c hc => by
    simpa using fun hc' : c = '\n' => hl (hc' ▸ hc)
  rw [endsInLine, takeEndWhile_append_of_all hall, List.any_append]
  rw [endsInLine] at h
  rw [h, Bool.true_or]

theorem getLast?_of_endsInLine {cs : List Char} (h : endsInLine cs) : cs.getLast? ≠ some '\n' := by
  intro hlast
  obtain ⟨cs, rfl⟩ := List.getLast?_eq_some_iff.1 hlast
  simp [endsInLine, takeEndWhile] at h

/-! ## Cutting and moving -/

namespace Laid

variable {ended e e' : Bool} {p : Place} {as bs cs : List Char} {is js : List Item} {i : Item}

theorem append (h : Laid ended p as is e) (h' : Laid e (p.after as) bs js e') :
    Laid ended p (as ++ bs) (is ++ js) e' := by
  induction h with
  | @nil ended e p gap hgap =>
    rcases h' with hbs | ⟨hbs, hstart, hstop, hsound, hline, hcomment, hmore⟩
    · exact .nil (by rw [endedAfter_append, hgap, Option.bind_some, hbs])
    · rw [← List.append_assoc]
      refine .cons ?_ (by rw [hstart, Place.after_after]) hstop hsound hline hcomment hmore
      rw [endedAfter_append, hgap, Option.bind_some, hbs]
  | cons hgap hstart hstop hsound hline hcomment _ ih =>
    rw [List.append_assoc, List.append_assoc, List.cons_append]
    refine .cons hgap hstart hstop hsound hline hcomment (ih ?_)
    simpa [hstop, hstart] using h'

/-- A cut anywhere between two items. -/
theorem cut (h : Laid ended p (as ++ bs) (is ++ js) e')
    (his : ∀ i ∈ is, i.stop.offset ≤ (p.after as).offset)
    (hjs : ∀ j ∈ js, (p.after as).offset ≤ j.start.offset) :
    ∃ e, Laid ended p as is e ∧ Laid e (p.after as) bs js e' := by
  induction is generalizing ended p as with
  | nil =>
    generalize hcs : as ++ bs = cs at h
    rcases h with hgap | ⟨hgap, hstart, hstop, hsound, hline, hcomment, hmore⟩
    · rw [← hcs, endedAfter_append] at hgap
      obtain ⟨e, he, hbs⟩ := Option.bind_eq_some_iff.1 hgap
      exact ⟨e, .nil he, .nil hbs⟩
    · have hle := hjs _ List.mem_cons_self
      obtain ⟨gap, rfl, rfl⟩ := exists_append_of_byteLength_le hcs
        (by simpa [hstart, Place.after] using hle)
      rw [endedAfter_append] at hgap
      obtain ⟨e, he, hgap⟩ := Option.bind_eq_some_iff.1 hgap
      refine ⟨e, .nil he, .cons hgap ?_ hstop hsound hline hcomment hmore⟩
      rw [hstart, Place.after_after]
  | cons i is ih =>
    generalize hcs : as ++ bs = cs at h
    rcases h with _ | @⟨_, _, e, _, gap, text, rest, _, _, hgap, hstart, hstop, hsound, hline,
      hcomment, hmore⟩
    have hle := his i List.mem_cons_self
    rw [← List.append_assoc] at hcs
    obtain ⟨as, rfl, rfl⟩ := exists_append_of_byteLength_le hcs.symm
      (by simpa [hstop, hstart, Place.after, Nat.add_assoc] using hle)
    have hplace : i.stop.after as = p.after (gap ++ text ++ as) := by
      simp [hstop, hstart]
    obtain ⟨e₁, has, hbs⟩ := ih hmore
      (fun j hj => hplace ▸ his j (List.mem_cons_of_mem i hj)) (fun j hj => hplace ▸ hjs j hj)
    refine ⟨e₁, ?_, hplace ▸ hbs⟩
    rw [List.append_assoc]
    exact .cons hgap hstart hstop hsound hline hcomment has

theorem moved (h : Laid ended p cs is e) (q : Place) :
    Laid ended (q.add p) cs (is.map (·.moved q)) e := by
  induction h with
  | nil hgap => exact .nil hgap
  | cons hgap hstart hstop hsound hline hcomment _ ih =>
    refine .cons hgap ?_ ?_ hsound hline hcomment ih
    · rw [Item.start_moved, hstart, Place.add_after]
    · rw [Item.start_moved, Item.stop_moved, hstop, Place.add_after]

/-- A layout is one of a text that begins elsewhere, moved to its place. -/
theorem exists_moved {q s : Place} (h : Laid ended (q.add s) cs is e) :
    ∃ js, is = js.map (·.moved q) ∧ Laid ended s cs js e := by
  generalize hp : q.add s = p at h
  induction h generalizing s with
  | nil hgap => exact ⟨[], rfl, .nil hgap⟩
  | @cons _ _ _ p gap text _ i _ hgap hstart hstop hsound hline hcomment _ ih =>
    subst hp
    let j : Item := { i with start := s.after gap, stop := (s.after gap).after text }
    have hj : j.moved q = i := by
      simp only [Item.moved, j, ← Place.add_after, ← hstart, ← hstop]
    obtain ⟨js, hjs, hlaid⟩ := ih (s := (s.after gap).after text) (by
      rw [← Place.add_after, ← Place.add_after, ← hstart, ← hstop])
    refine ⟨j :: js, ?_, .cons (i := j) hgap rfl rfl hsound hline hcomment hlaid⟩
    rw [List.map_cons, hj, hjs]

/-- A cut behind an item. -/
theorem cut_behind (h : Laid ended p cs (is ++ i :: js) e') :
    ∃ as bs e, cs = as ++ bs ∧ Laid ended p as (is ++ [i]) e ∧ endsInLine as ∧
      i.stop = p.after as ∧ Laid e i.stop bs js e' ∧ (i.construct ≠ .comment → e = false) := by
  induction is generalizing ended p cs with
  | nil =>
    rcases h with _ | @⟨_, _, e, _, gap, text, rest, _, _, hgap, hstart, hstop, hsound, hline,
      hcomment, hmore⟩
    refine ⟨gap ++ text, rest, i.construct = .comment && e, by simp, ?_,
      endsInLine_append hline, by simp [hstop, hstart], hmore, by simp_all⟩
    have hnil := @Laid.nil (i.construct = .comment && e) _ i.stop [] rfl
    simpa using Laid.cons hgap hstart hstop hsound hline hcomment hnil
  | cons k is ih =>
    rcases h with _ | ⟨hgap, hstart, hstop, hsound, hline, hcomment, hmore⟩
    obtain ⟨as, bs, e, rfl, has, hend, hi, hbs, he⟩ := ih hmore
    refine ⟨_, bs, e, ?_, .cons hgap hstart hstop hsound hline hcomment has, ?_, ?_, hbs, he⟩
    · simp
    · exact endsInLine_append (endsInLine_append hend)
    · simp [hi, hstop, hstart]

theorem place_of_mem (h : Laid ended p cs is e) (hi : i ∈ is) :
    ∃ as text bs, cs = as ++ (text ++ bs) ∧ i.start = p.after as ∧ i.stop = i.start.after text ∧
      endsInLine text := by
  obtain ⟨before, after, rfl⟩ := List.append_of_mem hi
  induction before generalizing ended p cs with
  | nil =>
    rcases h with _ | @⟨_, _, _, _, gap, text, rest, _, _, hgap, hstart, hstop, _, hline, _, _⟩
    exact ⟨gap, text, rest, rfl, hstart, hstop, hline⟩
  | cons k before ih =>
    rcases h with _ | @⟨_, _, _, _, gap, text, rest, _, _, _, hstart, hstop, _, _, _, hmore⟩
    obtain ⟨as, itext, bs, rfl, hi, hs, hl⟩ := ih hmore (by simp)
    refine ⟨gap ++ (text ++ as), itext, bs, by simp, ?_, hs, hl⟩
    simp [hi, hstop, hstart]

theorem bounds (h : Laid ended p cs is e) (hi : i ∈ is) :
    p.offset ≤ i.start.offset ∧ i.start.offset < i.stop.offset ∧
      i.stop.offset ≤ (p.after cs).offset := by
  obtain ⟨as, text, bs, rfl, hstart, hstop, hline⟩ := h.place_of_mem hi
  have hpos : 0 < byteLength text := byteLength_pos fun hnil => by
    simp [hnil, endsInLine, takeEndWhile] at hline
  simp only [hstop, hstart, Place.after, byteLength_append]
  omega

/-- Items do not overlap. -/
theorem pairwise (h : Laid ended p cs is e) :
    is.Pairwise fun i j => i.stop.offset ≤ j.start.offset := by
  induction h with
  | nil => exact .nil
  | cons _ _ _ _ _ _ hmore ih => exact .cons (fun j hj => (hmore.bounds hj).1) ih

theorem sound (h : Laid ended p cs is e) (hi : i ∈ is) : i.fault = none := by
  induction h with
  | nil => simp at hi
  | cons _ _ _ hsound _ _ _ ih =>
    rcases List.mem_cons.1 hi with rfl | hi
    · exact hsound
    · exact ih hi

end Laid

end Go

end StructProjection
