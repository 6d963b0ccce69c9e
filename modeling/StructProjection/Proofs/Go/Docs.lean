import StructProjection.Proofs.Go.Terminator

/-! # Doc comments

The comments that belong to a declaration can be told from the text alone. They are the longest run of
comments that goes up from it line by line, where each begins its own first line.
-/

namespace StructProjection.Go

open Text Outline

/-! ## Lines -/

/-- Nothing but blanks stands before the offset on its line. -/
def BeginsLine (source : List Char) (n : Nat) : Prop :=
  ∀ c ∈ takeEndWhile (· ≠ '\n') (takeBytes n source), isSpace c

theorem mem_of_mem_takeEndWhile {p : Char → Bool} {c : Char} {cs : List Char}
    (h : c ∈ takeEndWhile p cs) : c ∈ cs := by
  rw [← dropEndWhile_append_takeEndWhile p cs]
  exact List.mem_append_right _ h

theorem takeEndWhile_append_line (as : List Char) {line : List Char} (h : '\n' ∉ line) :
    takeEndWhile (· ≠ '\n') (as ++ line) = takeEndWhile (· ≠ '\n') as ++ line :=
  takeEndWhile_append_of_all fun c hc => by simpa using fun hc' : c = '\n' => h (hc' ▸ hc)

theorem exists_last_newline {cs : List Char} (h : '\n' ∈ cs) :
    ∃ as line, cs = as ++ '\n' :: line ∧ '\n' ∉ line := by
  obtain ⟨line, as, hcs, hline⟩ := List.eq_append_cons_of_mem (List.mem_reverse.2 h)
  refine ⟨as.reverse, line.reverse, ?_, by simpa using hline⟩
  simpa using congrArg List.reverse hcs

/-- Where a construct has been ended only spaces follow. -/
theorem isSpace_of_ended {e : Bool} {gap : List Char} (h : endedAfter true gap = some e) :
    ∀ c ∈ gap, isSpace c := by
  induction gap with
  | nil => simp
  | cons c gap ih =>
    rw [List.forall_mem_cons]
    rcases endedAfter_cons h with ⟨rfl, h⟩ | ⟨-, hs, h⟩ | ⟨-, hended, -⟩
    · exact ⟨by decide, ih h⟩
    · exact ⟨hs, ih h⟩
    · simp at hended

theorem isSpace_behind_newline {ended e : Bool} {gap : List Char}
    (h : endedAfter ended gap = some e) (hnl : '\n' ∈ gap) :
    ∀ c ∈ takeEndWhile (· ≠ '\n') gap, isSpace c := by
  obtain ⟨as, line, rfl, hline⟩ := exists_last_newline hnl
  have hlast : takeEndWhile (· ≠ '\n') (as ++ '\n' :: line) = line := by
    rw [List.append_cons, takeEndWhile_append_line _ hline]
    simp [takeEndWhile]
  rw [hlast]
  rw [endedAfter_append] at h
  obtain ⟨_, -, h⟩ := Option.bind_eq_some_iff.1 h
  have hmore : endedAfter true line = some e := by simpa [endedAfter] using h
  exact isSpace_of_ended hmore

theorem beginsLine_append (as gap rest : List Char) :
    BeginsLine (as ++ (gap ++ rest)) (byteLength (as ++ gap)) ↔
      ∀ c ∈ takeEndWhile (· ≠ '\n') (as ++ gap), isSpace c := by
  rw [BeginsLine, ← List.append_assoc, takeBytes_byteLength_append]

/-! ## Items on their lines -/

section Items

variable {source : List Char} {above below is : List Item} {c i : Item} {e : Bool}

theorem rowAt_offset (h : Laid true .zero source is e) (hi : i ∈ is) :
    rowAt i.start.offset source = i.start.row ∧ rowAt i.stop.offset source = i.stop.row := by
  obtain ⟨as, text, bs, rfl, hstart, hstop, -⟩ := h.place_of_mem hi
  constructor
  · rw [hstart]
    simp [rowAt, Place.after, Place.zero, takeBytes_byteLength_append]
  · rw [hstop, hstart, Place.after_after, ← List.append_assoc]
    simp only [rowAt, Place.after, Place.zero, Nat.zero_add, takeBytes_byteLength_append]

/-- An item begins its line if and only if the item above it does not end there. -/
theorem Laid.beginsLine_iff (h : Laid true .zero source (above.reverse ++ i :: below) e) :
    BeginsLine source i.start.offset ↔ ∀ j ∈ above.head?, j.stop.row ≠ i.start.row := by
  cases above with
  | nil =>
    rcases h with _ | @⟨_, _, e₁, _, gap, text, rest, _, _, hgap, hstart, _, _, _, _, _⟩
    have hblank := (beginsLine_append [] gap (text ++ rest)).2 fun c hc =>
      isSpace_of_ended hgap c (mem_of_mem_takeEndWhile hc)
    simpa [hstart, Place.after, Place.zero] using hblank
  | cons j above =>
    rw [List.reverse_cons, List.append_assoc] at h
    obtain ⟨as, bs, e₁, rfl, -, hend, hstop, hbs, -⟩ := h.cut_behind
    rcases hbs with _ | @⟨_, _, e₂, _, gap, text, rest, _, _, hgap, hstart, _, _, _, _, _⟩
    have hoffset : i.start.offset = byteLength (as ++ gap) := by
      simp [hstart, hstop, Place.after, Place.zero]
    have hrow : j.stop.row = i.start.row ↔ '\n' ∉ gap := by
      simp [hstart, Place.after, List.count_eq_zero]
    rw [hoffset, beginsLine_append]
    simp only [List.head?_cons, Option.mem_some_iff, forall_eq', ne_eq, hrow, not_not]
    constructor
    · intro hblank
      by_contra hnl
      -- the last line of what stands above the item is not blank
      obtain ⟨c, hc, hns⟩ := List.any_eq_true.1 hend
      rw [takeEndWhile_append_line _ hnl] at hblank
      simp [hblank c (List.mem_append_left gap hc)] at hns
    · intro hnl
      rw [takeEndWhile_append_of_not_all fun hall => by simpa using hall _ hnl]
      exact isSpace_behind_newline hgap hnl

/-- Behind a comment that begins its line nothing is left to be ended. -/
theorem Laid.cut_comment (h : Laid true .zero source (above.reverse ++ c :: below) e)
    (hc : c.construct = .comment) (hrow : ∀ j ∈ above.head?, j.stop.row ≠ c.start.row) :
    ∃ pre text rest, source = pre ++ (text ++ rest) ∧ c.start = .after .zero pre ∧
      c.stop = .after .zero (pre ++ text) ∧ isCommentText text ∧ Laid true c.stop rest below e := by
  cases above with
  | nil =>
    rcases h with _ | @⟨_, _, e₁, _, gap, text, rest, _, _, hgap, hstart, hstop, _, _, htext, hmore⟩
    obtain rfl := endedAfter_true hgap
    exact ⟨gap, text, rest, rfl, hstart, by simp [hstop, hstart], htext hc, by simpa [hc] using hmore⟩
  | cons j above =>
    rw [List.reverse_cons, List.append_assoc] at h
    obtain ⟨as, bs, e₁, rfl, -, -, hj, hbs, -⟩ := h.cut_behind
    rcases hbs with _ | @⟨_, _, e₂, _, gap, text, rest, _, _, hgap, hstart, hstop, _, _, htext, hmore⟩
    have hnl : '\n' ∈ gap := by
      have := hrow j rfl
      rw [hstart] at this
      by_contra hnl
      exact this (by simp [Place.after, List.count_eq_zero_of_not_mem hnl])
    obtain rfl := ended_of_newline hgap hnl
    exact ⟨as ++ gap, text, rest, by simp, by simp [hstart, hj], by simp [hstop, hstart, hj],
      htext hc, by simpa [hc] using hmore⟩

end Items

/-! ## Runs of comments -/

/-- Comments one above the other that go up from the line of an offset, the nearest first. Each begins
its first line and ends on the line right above the next. -/
def Stacked (source : List Char) : (below : Nat) → List Item → Prop
  | _, [] => True
  | below, c :: cs =>
    c.construct = .comment ∧ rowAt c.stop.offset source + 1 = rowAt below source ∧
      BeginsLine source c.start.offset ∧ Stacked source c.start.offset cs

/-- The run is the longest that goes up from the line of an offset with no other item in between;
`above` are the items above the offset, the nearest first. -/
structure LongestRun (source : List Char) (above : List Item) (below : Nat) (run : List Item) :
    Prop where
  unbroken : run <+: above
  stacked : Stacked source below run
  longest : ∀ other, other <+: above → Stacked source below other → other.length ≤ run.length

/-- The text holds a run of comments, the topmost first, and behind each of them only blanks with one
line feed. -/
inductive RunText (source : List Char) : (run : List Item) → List Char → Prop
  | nil : RunText source [] []
  | cons {c : Item} {run : List Item} {cs gap : List Char} (hrun : RunText source run cs)
      (hcomment : isCommentText (c.span.text source)) (hblank : ∀ d ∈ gap, isSpace d)
      (hline : gap.count '\n' = 1) : RunText source (c :: run) (cs ++ (c.span.text source ++ gap))

section Runs

variable {source : List Char} {above below run : List Item} {c i : Item} {e : Bool}

theorem attaches_iff (h : Laid true .zero source (above.reverse ++ c :: i :: below) e) :
    attaches i.start.row c above ↔ c.construct = .comment ∧
      rowAt c.stop.offset source + 1 = rowAt i.start.offset source ∧
      BeginsLine source c.start.offset := by
  rw [h.beginsLine_iff, (rowAt_offset h (i := c) (by simp)).2, (rowAt_offset h (i := i) (by simp)).1]
  cases above <;> simp [attaches, and_assoc]

/-- The runs that go up from an item are the beginnings of the run of comments that belongs to it. -/
theorem stacked_iff_docRun (h : Laid true .zero source (above.reverse ++ i :: below) e)
    (hrun : run <+: above) :
    Stacked source i.start.offset run ↔ run <+: docRun i.start.row above := by
  induction above generalizing i below run with
  | nil =>
    obtain rfl := List.prefix_nil.1 hrun
    simp [Stacked]
  | cons c above ih =>
    rw [List.reverse_cons, List.append_assoc, List.singleton_append] at h
    rcases List.prefix_cons_iff.1 hrun with rfl | ⟨run, rfl, habove⟩
    · simp [Stacked]
    · rw [Stacked, ih h habove, docRun, ← and_assoc, ← and_assoc, and_assoc (b := _ = _),
        ← attaches_iff h]
      split
      · next hc => simp [hc, List.cons_prefix_cons]
      · next hc => simp [hc]

theorem longestRun_docRun (h : Laid true .zero source (above.reverse ++ i :: below) e) :
    LongestRun source above i.start.offset (docRun i.start.row above) := by
  obtain ⟨rest, hrest, -⟩ := exists_append_docRun i.start.row above
  have hpre : docRun i.start.row above <+: above := ⟨rest, hrest.symm⟩
  refine ⟨hpre, (stacked_iff_docRun h hpre).2 (List.prefix_refl _), fun other ho hs => ?_⟩
  exact ((stacked_iff_docRun h ho).1 hs).length_le

/-- Where the comments that belong to an item begin, or the item itself. -/
def topOf (run : List Item) (i : Item) : Nat :=
  (run.getLast?.map (·.start.offset)).getD i.start.offset

theorem topOf_cons (c : Item) (run : List Item) (i : Item) : topOf (c :: run) i = topOf run c := by
  cases h : run.getLast? <;> simp [topOf, List.getLast?_cons, h]

/-- A comment that belongs to an item, and what stands between them. -/
theorem exists_gap_of_attaches (h : Laid true .zero source (above.reverse ++ c :: i :: below) e)
    (hc : attaches i.start.row c above) :
    ∃ pre text gap rest, source = pre ++ (text ++ (gap ++ rest)) ∧ c.start.offset = byteLength pre ∧
      i.start.offset = byteLength (pre ++ (text ++ gap)) ∧ c.span.text source = text ∧
      isCommentText text ∧ (∀ d ∈ gap, isSpace d) ∧ gap.count '\n' = 1 := by
  obtain ⟨pre, text, rest, rfl, hstart, hstop, htext, hmore⟩ :=
    h.cut_comment (construct_of_attaches hc) fun j hj => row_of_attaches hc hj
  rcases hmore with _ | @⟨_, _, _, _, gap, _, _, _, _, hgap, hi, _, _, _, _, _⟩
  have hrow : c.stop.row + 1 = i.start.row := by
    simp only [attaches, Bool.and_eq_true, decide_eq_true_eq] at hc
    exact hc.1.2
  have hstop' : c.stop = c.start.after text := by rw [hstop, hstart, Place.after_after]
  refine ⟨pre, text, gap, _, rfl, by simp [hstart, Place.after, Place.zero], ?_,
    Item.text_span hstart hstop' _, htext, isSpace_of_ended hgap, ?_⟩
  · simp [hi, hstop, Place.after, Place.zero, Nat.add_assoc]
  · rw [hi] at hrow
    simpa [Place.after] using hrow.symm

theorem exists_runText_nil (h : Laid true .zero source (above.reverse ++ i :: below) e) :
    ∃ pre cs rest, source = pre ++ (cs ++ rest) ∧ i.start.offset = byteLength (pre ++ cs) ∧
      topOf [] i = byteLength pre ∧ RunText source [] cs := by
  obtain ⟨pre, text, rest, hsource, hstart, -⟩ := h.place_of_mem (i := i) (by simp)
  have hoffset : i.start.offset = byteLength pre := by simp [hstart, Place.after, Place.zero]
  exact ⟨pre, [], text ++ rest, hsource, by simpa using hoffset, hoffset, .nil⟩

/-- Between the topmost of the comments that belong to an item and the item the text holds nothing but
these comments. -/
theorem exists_runText (h : Laid true .zero source (above.reverse ++ i :: below) e) :
    ∃ pre cs rest, source = pre ++ (cs ++ rest) ∧ i.start.offset = byteLength (pre ++ cs) ∧
      topOf (docRun i.start.row above) i = byteLength pre ∧
      RunText source (docRun i.start.row above) cs := by
  induction above generalizing i below with
  | nil => exact exists_runText_nil h
  | cons c above ih =>
    have hc := h
    rw [List.reverse_cons, List.append_assoc, List.singleton_append] at hc
    rw [docRun]
    split
    · next hattach =>
      obtain ⟨pre, cs, after, hsource, hoffset, htop, hrun⟩ := ih hc
      obtain ⟨pre', text, gap, rest, hsource', hoffset', hi, htext, hcomment, hblank, hline⟩ :=
        exists_gap_of_attaches hc hattach
      have hsame : (pre ++ cs) ++ after = pre' ++ (text ++ (gap ++ rest)) := by
        rw [List.append_assoc, ← hsource, ← hsource']
      obtain ⟨rfl, -⟩ := append_inj_of_byteLength hsame (hoffset.symm.trans hoffset')
      refine ⟨pre, cs ++ (text ++ gap), rest, by simpa using hsource', by simpa using hi, ?_, ?_⟩
      · rw [topOf_cons, htop]
      · have hmore := RunText.cons hrun (c := c) (htext ▸ hcomment) hblank hline
        rwa [htext] at hmore
    · exact exists_runText_nil h

/-- The comments that belong to an item stand below the constructs before it. -/
theorem stop_le_of_mem_docRun (h : Laid true .zero source (above.reverse ++ i :: below) e) {j : Item}
    (hj : j ∈ above) (hne : j.construct ≠ .comment) (hc : c ∈ docRun i.start.row above) :
    j.stop.offset ≤ c.start.offset := by
  obtain ⟨rest, hrest, -⟩ := exists_append_docRun i.start.row above
  have hcomments := @construct_of_mem_docRun i.start.row above
  generalize docRun i.start.row above = run at *
  have hmem : j ∈ rest := by
    rcases List.mem_append.1 (hrest ▸ hj) with hj | hj
    · exact absurd (hcomments hj) hne
    · exact hj
  have hpair := h.pairwise
  rw [hrest, List.reverse_append, List.append_assoc] at hpair
  exact (List.pairwise_append.1 hpair).2.2 j (List.mem_reverse.2 hmem) c (by simp [hc])

theorem stop_le_start (h : Laid true .zero source (above.reverse ++ i :: below) e) {j : Item}
    (hj : j ∈ above) : j.stop.offset ≤ i.start.offset :=
  (List.pairwise_append.1 h.pairwise).2.2 j (List.mem_reverse.2 hj) i List.mem_cons_self

theorem stop_le_topOf (h : Laid true .zero source (above.reverse ++ i :: below) e) {j : Item}
    (hj : j ∈ above) (hne : j.construct ≠ .comment) :
    j.stop.offset ≤ topOf (docRun i.start.row above) i := by
  cases hlast : (docRun i.start.row above).getLast? with
  | none => simpa [topOf, hlast] using stop_le_start h hj
  | some c =>
    simpa [topOf, hlast] using stop_le_of_mem_docRun h hj hne (List.mem_of_getLast? hlast)

end Runs

/-! ## Declarations and their comments -/

/-- The run of comments belongs to the declaration, as the text has it. -/
structure Documented (source : List Char) (is : List Item) (d : Decl) (run : List Item) : Prop where
  /-- The declaration is an item, and the run is the longest one above that. -/
  item : ∃ above i below, is = above.reverse ++ i :: below ∧ i.construct = .declaration d.kind ∧
    i.span = d.span ∧ LongestRun source above d.span.start run
  docStart_eq : d.docStart = run.getLast?.map (·.start.offset)
  text : RunText source run (Span.text ⟨d.leadingStart, d.span.start⟩ source)
  above : ∀ i ∈ is, i.construct ≠ .comment → i.stop.offset ≤ d.span.start →
    i.stop.offset ≤ d.leadingStart

section Declarations

variable {source : List Char} {above is : List Item} {e : Bool}

theorem documented_of_declAt? {i : Item} {below : List Item} {d : Decl}
    (h : Laid true .zero source (above.reverse ++ i :: below) e) (hd : declAt? above i = some d) :
    Documented source (above.reverse ++ i :: below) d (docRun i.start.row above) := by
  obtain ⟨hkind, hspan, hdoc, -⟩ := declAt?_eq_some hd
  have hstart : d.span.start = i.start.offset := by rw [hspan]; rfl
  have htop : d.leadingStart = topOf (docRun i.start.row above) i := by
    rw [Decl.leadingStart, hdoc, hstart, topOf]
  refine ⟨⟨above, i, below, rfl, hkind, hspan.symm, ?_⟩, hdoc, ?_, fun j hj hne hle => ?_⟩
  · rw [hstart]
    exact longestRun_docRun h
  · obtain ⟨pre, cs, rest, hsource, hi, hpre, hrun⟩ := exists_runText h
    have htext : Span.text ⟨d.leadingStart, d.span.start⟩ source = cs := by
      rw [Span.text, htop, hpre, hstart, hi, hsource, slice_between]
    rwa [htext]
  · rw [htop]
    refine stop_le_topOf h ?_ hne
    have hbounds := h.bounds hj
    rcases List.mem_append.1 hj with hj | hj
    · exact List.mem_reverse.1 hj
    · -- the item itself and those below it end behind the place where it begins
      have hbelow : i.start.offset < j.stop.offset := by
        rcases List.mem_cons.1 hj with rfl | hj
        · exact hbounds.2.1
        · have hi := h.bounds (i := i) (by simp)
          have := List.rel_of_pairwise_cons (List.pairwise_append.1 h.pairwise).2.1 hj
          omega
      omega

/-- Each declaration of a body has its run of comments, and no comment is in two of them. -/
theorem exists_documented (h : Laid true .zero source (above.reverse ++ is) e) :
    ∃ docs, List.Forall₂ (Documented source (above.reverse ++ is)) (bodyDecls above is) docs ∧
      docs.Pairwise List.Disjoint ∧ ∀ run ∈ docs, ∀ c ∈ run, ∀ j ∈ above, j.construct ≠ .comment →
        j.stop.offset ≤ c.start.offset := by
  induction is generalizing above with
  | nil => exact ⟨[], .nil, .nil, by simp⟩
  | cons i is ih =>
    have hcons : (i :: above).reverse ++ is = above.reverse ++ i :: is := by simp
    obtain ⟨docs, hdocs, hpair, hbehind⟩ := ih (hcons ▸ h)
    rw [hcons] at hdocs
    have hbehind' := fun run hrun c hc j hj =>
      hbehind run hrun c hc j (List.mem_cons_of_mem i hj)
    rw [bodyDecls]
    cases hd : declAt? above i with
    | none => exact ⟨docs, hdocs, hpair, hbehind'⟩
    | some d =>
      have hne : i.construct ≠ .comment := by simp [(declAt?_eq_some hd).1]
      refine ⟨docRun i.start.row above :: docs, .cons (documented_of_declAt? h hd) hdocs,
        .cons (fun run hrun c hc hc' => ?_) hpair, List.forall_mem_cons.2 ⟨?_, hbehind'⟩⟩
      · -- the comments of the declarations below begin behind this one
        obtain ⟨rest, hrest, -⟩ := exists_append_docRun i.start.row above
        have habove : c ∈ above := hrest ▸ List.mem_append_left rest hc
        have hle := hbehind run hrun c hc' i List.mem_cons_self hne
        have hstop := stop_le_start h habove
        have hi := h.bounds (i := i) (by simp)
        have hbounds := h.bounds (i := c) (by simp [habove])
        omega
      · exact fun c hc j hj hne => stop_le_of_mem_docRun h hj hne hc

end Declarations

/-- The comments that belong to the declarations of an accepted file are those that the text gives to
them. -/
theorem SourceFile.read_documented {text : String} {file : SourceFile}
    (h : SourceFile.read text = .ok file) :
    ∃ o docs, outline text = .ok o ∧
      List.Forall₂ (Documented text.toList o.items) file.decls docs ∧
      docs.Pairwise List.Disjoint := by
  obtain ⟨⟨fault, is⟩, ho, hfits, hfile⟩ := exists_outline_of_read h
  obtain ⟨hfault, hs, bs, hitems, -, -, hdecls⟩ := exists_header_of_sourceFile hfile
  obtain rfl : fault = none := hfault
  obtain rfl : is = hs ++ bs := hitems
  obtain ⟨e, hlaid⟩ := exists_laid_of_fits hfits
  rw [← List.reverse_reverse hs] at hlaid
  obtain ⟨docs, hdocs, hpair, -⟩ := exists_documented hlaid
  rw [List.reverse_reverse] at hdocs
  exact ⟨_, docs, ho, hdecls ▸ hdocs, hpair⟩

/-- A comment behind code, two that belong to the first type, and one behind that. -/
def spreadComments : String :=
  "package x // a\n// b\n/* c\nd */\ntype A struct{} // e\ntype B int\n"

theorem outline_spreadComments : outline spreadComments = .ok
    ⟨none, [⟨.packageClause, ⟨0, 0⟩, ⟨9, 0⟩, none, []⟩, ⟨.comment, ⟨10, 0⟩, ⟨14, 0⟩, none, []⟩,
      ⟨.comment, ⟨15, 1⟩, ⟨19, 1⟩, none, []⟩, ⟨.comment, ⟨20, 2⟩, ⟨29, 3⟩, none, []⟩,
      ⟨.declaration .type, ⟨30, 4⟩, ⟨45, 4⟩, none, [⟨"A", .struct⟩]⟩,
      ⟨.comment, ⟨46, 4⟩, ⟨50, 4⟩, none, []⟩,
      ⟨.declaration .type, ⟨51, 5⟩, ⟨61, 5⟩, none, [⟨"B", .other⟩]⟩]⟩ :=
  outline_of_plain (by decide +kernel) (by decide +kernel)

theorem SourceFile.read_documented_spreadComments :
    ∃ o a b docs, SourceFile.read spreadComments = .ok ⟨[a, b]⟩ ∧ a.docStart = some 15 ∧
      b.docStart = none ∧ outline spreadComments = .ok o ∧
      List.Forall₂ (Documented spreadComments.toList o.items) [a, b] docs ∧
      docs.Pairwise List.Disjoint := by
  have hread : SourceFile.read spreadComments = .ok
      ⟨[⟨.type, ⟨30, 45⟩, some 15, [⟨"A", .struct⟩]⟩, ⟨.type, ⟨51, 61⟩, none, [⟨"B", .other⟩]⟩]⟩ := by
    rw [SourceFile.read, SourceFile.readWith, outline_spreadComments]
    rfl
  obtain ⟨o, docs, ho, hdocs, hpair⟩ := SourceFile.read_documented hread
  exact ⟨o, _, _, docs, hread, rfl, rfl, ho, hdocs, hpair⟩

end StructProjection.Go
