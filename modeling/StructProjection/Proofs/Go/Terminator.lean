import Mathlib.Data.List.Infix
import StructProjection.Proofs.Go.Body
import StructProjection.Proofs.Go.Supplied

/-! # Terminators

A line feed, a semicolon or a NUL character ends a construct. Between two constructs of a file stand,
besides comments, only blanks and what ends the first of them.
-/

namespace StructProjection.Go

open Text Outline

/-! ## Gaps with and without a terminator -/

/-- The character ends the construct before it. -/
def terminates (c : Char) : Bool := c = '\n' || isTerminator c

theorem not_isSpace_of_isTerminator {c : Char} (h : isTerminator c) : isSpace c = false := by
  simp only [isTerminator, Bool.or_eq_true, decide_eq_true_eq] at h
  rcases h with rfl | h
  · decide
  · have hblank : c ≠ ' ' := by rintro rfl; simp at h
    have hmark : c ≠ '\ufeff' := by rintro rfl; simp at h
    simp [isSpace, h, hblank, hmark]

theorem endedAfter_cons {ended e : Bool} {c : Char} {gap : List Char}
    (h : endedAfter ended (c :: gap) = some e) :
    (c = '\n' ∧ endedAfter true gap = some e) ∨
      (c ≠ '\n' ∧ isSpace c ∧ endedAfter ended gap = some e) ∨
      (isTerminator c ∧ ended = false ∧ endedAfter true gap = some e) := by
  simp only [endedAfter] at h
  split at h
  case isTrue hc => exact .inl ⟨hc, h⟩
  case isFalse hc =>
    split at h
    case isTrue hs => exact .inr (.inl ⟨hc, hs, h⟩)
    case isFalse =>
      split at h
      case isTrue ht => exact .inr (.inr (by simp_all))
      case isFalse => simp at h

section Gap

variable {ended e : Bool} {gap : List Char}

theorem isSpace_or_isTerminator (h : endedAfter ended gap = some e) :
    ∀ c ∈ gap, isSpace c ∨ isTerminator c := by
  induction gap generalizing ended with
  | nil => simp
  | cons c gap ih =>
    rw [List.forall_mem_cons]
    rcases endedAfter_cons h with ⟨rfl, h⟩ | ⟨-, hs, h⟩ | ⟨ht, -, h⟩
    · exact ⟨.inl (by decide), ih h⟩
    · exact ⟨.inl hs, ih h⟩
    · exact ⟨.inr ht, ih h⟩

/-- Nothing but a line feed stands in a gap besides the first terminator. -/
theorem countP_isTerminator_le (h : endedAfter ended gap = some e) :
    gap.countP isTerminator ≤ if ended then 0 else 1 := by
  induction gap generalizing ended with
  | nil => simp
  | cons c gap ih =>
    rcases endedAfter_cons h with ⟨hc, hgap⟩ | ⟨-, hs, hgap⟩ | ⟨ht, hended, hgap⟩
    · rw [List.countP_cons_of_neg (by rw [hc]; decide)]
      exact Nat.le_trans (ih hgap) (by simp)
    · rw [List.countP_cons_of_neg fun ht => by simp [not_isSpace_of_isTerminator ht] at hs]
      exact ih hgap
    · rw [List.countP_cons_of_pos ht, hended]
      exact Nat.succ_le_succ (ih hgap)

end Gap

/-! ## Neighbours -/

/-- The text between two offsets, without some comments there. -/
def uncommented (source : List Char) : (start : Nat) → (comments : List Item) → (stop : Nat) →
    List Char
  | start, [], stop => Span.text ⟨start, stop⟩ source
  | start, c :: cs, stop =>
    Span.text ⟨start, c.start.offset⟩ source ++ uncommented source c.stop.offset cs stop

/-- How many lines a construct goes on to. -/
def Item.rows (i : Item) : Nat := i.stop.row - i.start.row

/-- Two constructs with nothing but comments between them. -/
structure Neighbours (is : List Item) (i : Item) (comments : List Item) (j : Item) : Prop where
  inOrder : i :: (comments ++ [j]) <:+: is
  left : i.construct ≠ .comment
  right : j.construct ≠ .comment
  comments : ∀ c ∈ comments, c.construct = .comment

theorem Laid.endedAfter_uncommented {ended e : Bool} {pre cs : List Char}
    {comments js : List Item} {j : Item}
    (h : Laid ended (.after .zero pre) cs (comments ++ j :: js) e)
    (hc : ∀ c ∈ comments, c.construct = .comment) :
    ∃ e', endedAfter ended
        (uncommented (pre ++ cs) (byteLength pre) comments j.start.offset) = some e' ∧
      j.start.row = (Place.after .zero pre).row + (comments.map Item.rows).sum +
        (uncommented (pre ++ cs) (byteLength pre) comments j.start.offset).count '\n' := by
  induction comments generalizing ended pre cs with
  | nil =>
    rcases h with _ | @⟨_, _, e', _, gap, text, rest, _, _, hgap, hstart, _, _, _, _, _⟩
    have hslice : uncommented (pre ++ (gap ++ (text ++ rest))) (byteLength pre) []
        j.start.offset = gap := by
      simp [uncommented, hstart, Span.text, Place.after, Place.zero, slice_append]
    rw [hslice]
    exact ⟨e', hgap, by simp [hstart, Place.after]⟩
  | cons c comments ih =>
    rcases h with _ | @⟨_, _, e', _, gap, text, rest, _, _, hgap, hstart, hstop, _, _, _, hmore⟩
    have hplace : c.stop = .after .zero (pre ++ (gap ++ text)) := by simp [hstop, hstart]
    rw [hc c List.mem_cons_self, decide_eq_true rfl, Bool.true_and, hplace] at hmore
    obtain ⟨e'', he, hrow⟩ := ih hmore fun d hd => hc d (List.mem_cons_of_mem c hd)
    have hslice : uncommented (pre ++ (gap ++ (text ++ rest))) (byteLength pre) (c :: comments)
        j.start.offset = gap ++ uncommented (pre ++ (gap ++ text) ++ rest)
          (byteLength (pre ++ (gap ++ text))) comments j.start.offset := by
      rw [uncommented, hstart, hplace]
      simp [Span.text, Place.after, Place.zero, slice_append]
    have hrows : c.rows = text.count '\n' := by simp [Item.rows, hstop, Place.after]
    rw [hslice]
    refine ⟨e'', by rw [endedAfter_append, hgap, Option.bind_some, he], ?_⟩
    rw [hrow]
    simp [Place.after, hrows]
    omega

/-- What stands between two neighbours outside of comments: blanks, and at most one terminator that is
no line feed. There is a terminator if and only if the second begins on a line further down, or that
one stands there. -/
structure Apart (source : List Char) (i : Item) (comments : List Item) (j : Item) : Prop where
  blank : ∀ c ∈ uncommented source i.stop.offset comments j.start.offset, isSpace c ∨ isTerminator c
  once : (uncommented source i.stop.offset comments j.start.offset).countP isTerminator ≤ 1
  terminated_iff : (∃ c ∈ uncommented source i.stop.offset comments j.start.offset, terminates c) ↔
    i.stop.row + (comments.map Item.rows).sum < j.start.row ∨
      ∃ c ∈ uncommented source i.stop.offset comments j.start.offset, isTerminator c

theorem exists_terminates_iff {gap : List Char} :
    (∃ c ∈ gap, terminates c) ↔ 0 < gap.count '\n' ∨ ∃ c ∈ gap, isTerminator c := by
  simp [terminates, and_or_left, exists_or, List.count_pos_iff]

theorem Laid.apart {e : Bool} {source : List Char} {is comments : List Item} {i j : Item}
    (h : Laid true .zero source is e) (hn : Neighbours is i comments j) :
    Apart source i comments j := by
  obtain ⟨before, after, rfl⟩ := hn.inOrder
  rw [List.append_assoc, List.cons_append, List.append_assoc] at h
  obtain ⟨pre, rest, ended, rfl, -, -, hstop, hrest, hended⟩ := h.cut_behind
  rw [hended hn.left, hstop] at hrest
  obtain ⟨e', hgap, hrow⟩ := hrest.endedAfter_uncommented hn.comments
  have hoffset : i.stop.offset = byteLength pre := by simp [hstop, Place.after, Place.zero]
  rw [← hoffset] at hgap hrow
  refine ⟨isSpace_or_isTerminator hgap, countP_isTerminator_le hgap, ?_⟩
  rw [exists_terminates_iff, hrow, ← hstop]
  simp

/-- Of an accepted text, neighbours are kept apart, and all that its tree may hold and the text does
not are tokens that are not seen. -/
theorem SourceFile.read_apart {text : String} {f : SourceFile} (h : SourceFile.read text = .ok f) :
    ∃ o, outline text = .ok o ∧ o.fault = none ∧
      (∀ i comments j, Neighbours o.items i comments j → Apart text.toList i comments j) ∧
      (Plain.outline text.toList = none →
        ∃ tree, Parsing.parse table.get text = some tree ∧
          (tree.label.visible → OnlyHidden tree)) := by
  obtain ⟨o, ho, hfits, hfile⟩ := exists_outline_of_read h
  have hsound := (exists_header_of_sourceFile hfile).1
  refine ⟨o, ho, hsound, fun i comments j hn => ?_, fun hplain => ?_⟩
  · obtain ⟨fault, is⟩ := o
    obtain rfl : fault = none := hsound
    obtain ⟨e, hlaid⟩ := exists_laid_of_fits hfits
    exact hlaid.apart hn
  · exact onlyHidden_of_ofTables (ofTables_of_outline ho hplain) hsound

/-- Constructs ended by a semicolon before a comment, and by one after a comment of two lines. -/
def endedConstructs : String := "package x;\n// A is kept.\ntype A struct{} /* as\nis */; type B int\n"

theorem outline_endedConstructs : outline endedConstructs = .ok
    ⟨none, [⟨.packageClause, ⟨0, 0⟩, ⟨9, 0⟩, none, []⟩, ⟨.comment, ⟨11, 1⟩, ⟨24, 1⟩, none, []⟩,
      ⟨.declaration .type, ⟨25, 2⟩, ⟨40, 2⟩, none, [⟨"A", .struct⟩]⟩,
      ⟨.comment, ⟨41, 2⟩, ⟨52, 3⟩, none, []⟩,
      ⟨.declaration .type, ⟨54, 3⟩, ⟨64, 3⟩, none, [⟨"B", .other⟩]⟩]⟩ :=
  outline_of_plain (by decide +kernel) (by decide +kernel)

theorem SourceFile.read_apart_endedConstructs :
    ∃ f o i comments j, SourceFile.read endedConstructs = .ok f ∧ outline endedConstructs = .ok o ∧
      Neighbours o.items i comments j ∧ i.stop.row < j.start.row ∧
      Apart endedConstructs.toList i comments j := by
  have hread : SourceFile.read endedConstructs = .ok
      ⟨[⟨.type, ⟨25, 40⟩, some 11, [⟨"A", .struct⟩]⟩, ⟨.type, ⟨54, 64⟩, none, [⟨"B", .other⟩]⟩]⟩ := by
    rw [SourceFile.read, SourceFile.readWith, outline_endedConstructs]
    rfl
  obtain ⟨o, ho, -, hapart, -⟩ := SourceFile.read_apart hread
  obtain rfl := Except.ok.inj (outline_endedConstructs.symm.trans ho)
  have hn : Neighbours _ ⟨.declaration .type, ⟨25, 2⟩, ⟨40, 2⟩, none, [⟨"A", .struct⟩]⟩
      [⟨.comment, ⟨41, 2⟩, ⟨52, 3⟩, none, []⟩]
      ⟨.declaration .type, ⟨54, 3⟩, ⟨64, 3⟩, none, [⟨"B", .other⟩]⟩ :=
    { inOrder := ⟨[⟨.packageClause, ⟨0, 0⟩, ⟨9, 0⟩, none, []⟩, ⟨.comment, ⟨11, 1⟩, ⟨24, 1⟩, none, []⟩],
        [], rfl⟩
      left := by decide
      right := by decide
      comments := by decide }
  exact ⟨_, _, _, _, _, hread, ho, hn, by decide, hapart _ _ _ hn⟩

/-- Two structs on one line with nothing but a blank between them. -/
def joinedStructs : String := "package x\ntype A struct{} type B struct{}\n"

theorem outline_joinedStructs : outline joinedStructs = .ok
    ⟨none, [⟨.packageClause, ⟨0, 0⟩, ⟨9, 0⟩, none, []⟩,
      ⟨.declaration .type, ⟨10, 1⟩, ⟨25, 1⟩, none, [⟨"A", .struct⟩]⟩,
      ⟨.declaration .type, ⟨26, 1⟩, ⟨41, 1⟩, none, [⟨"B", .struct⟩]⟩]⟩ :=
  outline_of_plain (by decide +kernel) (by decide +kernel)

/-- The line feed that is missing is supplied, and the text is accepted. -/
theorem SourceFile.read_joinedStructs :
    ∃ f o i j, SourceFile.read joinedStructs = .ok f ∧ outline joinedStructs = .ok o ∧
      Neighbours o.items i [] j ∧
      ¬ ∃ c ∈ uncommented joinedStructs.toList i.stop.offset [] j.start.offset, terminates c := by
  have hread : SourceFile.read joinedStructs = .ok
      ⟨[⟨.type, ⟨10, 25⟩, none, [⟨"A", .struct⟩]⟩, ⟨.type, ⟨26, 41⟩, none, [⟨"B", .struct⟩]⟩]⟩ := by
    rw [SourceFile.read, SourceFile.readWith, outline_joinedStructs]
    rfl
  have hgap : uncommented joinedStructs.toList 25 [] 26 = [' '] := by decide +kernel
  refine ⟨_, _, ⟨.declaration .type, ⟨10, 1⟩, ⟨25, 1⟩, none, [⟨"A", .struct⟩]⟩,
    ⟨.declaration .type, ⟨26, 1⟩, ⟨41, 1⟩, none, [⟨"B", .struct⟩]⟩, hread, outline_joinedStructs,
    { inOrder := ⟨[⟨.packageClause, ⟨0, 0⟩, ⟨9, 0⟩, none, []⟩], [], rfl⟩
      left := by decide
      right := by decide
      comments := by decide }, ?_⟩
  change ¬ ∃ c ∈ uncommented joinedStructs.toList 25 [] 26, terminates c
  rw [hgap]
  simp [terminates, isTerminator]

end StructProjection.Go
