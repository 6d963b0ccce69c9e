import StructProjection.Proofs.Projection.Stretch

/-! # Sites

The header of a file that is accepted, and each of its declarations, with what a projection keeps of
them: the blank lines above, the comments that belong to it, the construct and the rest of its line.
-/

namespace StructProjection

open Text Go

/-- The stretch is the beginning of a source file, up to its last import or up to its package clause. -/
structure Stretch.IsHead (h : Stretch) (source : List Char) (is : List Item) : Prop
    extends h.Holds source is where
  header : IsHeader (h.above ++ [h.item])
  body : ∀ i ∈ h.after, i.construct.isBody

namespace Stretch.IsHead

variable {h : Stretch} {source : List Char} {is : List Item} (hh : h.IsHead source is)
include hh

theorem headerEnd_eq : Outline.headerEnd source ⟨none, is⟩ = .ok (byteLength h.text) := by
  obtain ⟨e, hlaid⟩ := hh.laid
  rw [hh.items_eq] at hlaid ⊢
  have hsound : ∀ i ∈ h.above ++ [h.item], i.fault = none := fun i hi =>
    hlaid.sound (by simp at hi ⊢; tauto)
  rw [List.append_cons, headerEnd_of_header hh.header hsound hh.body, hh.stop_eq]
  simp [Place.after, Place.zero]

theorem extendOverLine_eq : extendOverLine source (byteLength h.text) = byteLength h.kept := by
  rw [hh.source_eq, extendOverLine_append, kept]

theorem text_headerSpan : Span.text ⟨0, byteLength h.kept⟩ source = h.kept := by
  obtain ⟨rest, hrest⟩ := lineTail_prefix h.behind
  have hsource : source = h.kept ++ rest := by
    rw [hh.source_eq, kept, List.append_assoc, hrest]
  simpa [hsource, Span.text, byteLength] using slice_append [] h.kept rest

theorem headerSpanOf_eq : headerSpanOf source ⟨none, is⟩ = .ok ⟨0, byteLength h.kept⟩ := by
  rw [headerSpanOf_of_ok hh.headerEnd_eq, hh.extendOverLine_eq]

/-- A projection is the header and what is kept of each declaration of structs. -/
theorem projectOutline_eq {file : SourceFile}
    (hfile : Outline.sourceFile source ⟨none, is⟩ = .ok file) :
    projectOutline source .none ⟨none, is⟩ = .ok (String.ofList
      (h.kept ++ file.structDecls.flatMap fun d => (keptSpan source d).text source)) := by
  rw [projectOutline_of_ok hh.headerSpanOf_eq (structSpansOf_of_ok hfile), StripRules.apply_none,
    hh.text_headerSpan, List.flatMap_map]

end Stretch.IsHead

/-- The declaration that an item is, given the comments that belong to it, the topmost first. -/
def Go.Item.decl? (docs : List Item) (i : Item) : Option Decl :=
  match i.construct with
  | .declaration kind =>
    some { kind, span := i.span, docStart := docs.head?.map (·.start.offset)
           specs := if kind = .type then i.specs else [] }
  | _ => none

theorem Go.Item.decl?_eq_some {docs : List Item} {i : Item} {d : Decl} (h : i.decl? docs = some d) :
    i.construct = .declaration d.kind ∧ d.span = i.span ∧
      d.docStart = docs.head?.map (·.start.offset) ∧
      d.specs = if d.kind = .type then i.specs else [] := by
  unfold Item.decl? at h
  split at h
  · next kind hkind =>
    rw [← Option.some.inj h]
    exact ⟨hkind, rfl, rfl, rfl⟩
  · simp at h

theorem Go.declAt?_eq_decl? (above : List Item) (i : Item) :
    declAt? above i = i.decl? (docRun i.start.row above).reverse := by
  cases hi : i.construct <;> simp [declAt?, Item.decl?, hi, docStart_eq_docRun]

/-- A stretch of a source file that ends with a declaration: behind `pre` stand blank lines, then the
comments that belong to the declaration and the item that it is, which end with `text`. The places of
these and of the items behind are relative to the end of `pre`. -/
structure Site where
  pre : List Char
  gap : List Char
  text : List Char
  behind : List Char
  before : List Item
  docs : List Item
  item : Item
  after : List Item

namespace Site

/-- Where the stretch begins. -/
def place (s : Site) : Place := .after .zero s.pre

/-- The stretch without what stands before it. -/
def stretch (s : Site) : Stretch := ⟨s.gap ++ s.text, s.behind, s.docs, s.item, s.after⟩

/-- What a projection keeps. -/
def kept (s : Site) : List Char := s.stretch.kept

/-- The declaration that the item is where the stretch begins at a place. -/
def declAt (s : Site) (p : Place) : Option Decl :=
  (s.item.moved p).decl? (s.docs.map (·.moved p))

/-- The stretch is made up as it should be, wherever it begins. -/
structure Formed (s : Site) : Prop where
  docs_eq : docRun s.item.start.row s.docs.reverse = s.docs.reverse
  start_eq : (s.docs.head?.getD s.item).start = .after .zero s.gap
  stop_eq : s.item.stop = .after .zero (s.gap ++ s.text)
  ends : Outline.endsInLine (s.gap ++ s.text)
  laid : ∃ e, Laid true .zero (s.gap ++ (s.text ++ s.behind)) (s.docs ++ s.item :: s.after) e

/-- The declaration stands at the site. -/
structure Holds (s : Site) (source : List Char) (is : List Item) (d : Decl) : Prop
    extends s.Formed where
  source_eq : source = s.pre ++ (s.gap ++ (s.text ++ s.behind))
  items_eq : is = s.before ++ (s.docs ++ s.item :: s.after).map (·.moved s.place)
  stop_le : ∀ i ∈ s.before, i.stop.offset ≤ byteLength s.pre
  gap_eq : gapLines (s.pre ++ s.gap) = s.gap
  newline : s.docs ≠ [] → ∃ x g, s.pre ++ s.gap = x ++ g ∧ '\n' ∈ g ∧
    ∀ i ∈ s.before, i.stop.offset ≤ byteLength x
  decl_eq : s.declAt s.place = some d

namespace Formed

variable {s : Site} {d : Decl} {p : Place} {pre : List Char} (h : s.Formed)

theorem kind_eq (hd : s.declAt p = some d) : s.item.construct = .declaration d.kind :=
  (Item.decl?_eq_some hd).1

theorem specs_eq (hd : s.declAt p = some d) :
    d.specs = if d.kind = .type then s.item.specs else [] :=
  (Item.decl?_eq_some hd).2.2.2

theorem span_eq (hd : s.declAt (.after .zero pre) = some d) :
    d.span = ⟨byteLength pre + s.item.start.offset, byteLength pre + s.item.stop.offset⟩ := by
  rw [(Item.decl?_eq_some hd).2.1]
  simp [Item.span, Place.add, Place.after, Place.zero]

theorem docStart_eq (hd : s.declAt (.after .zero pre) = some d) :
    d.docStart = s.docs.head?.map (byteLength pre + ·.start.offset) := by
  rw [(Item.decl?_eq_some hd).2.2.1, List.head?_map, Option.map_map]
  simp [Function.comp_def, Place.add, Place.after, Place.zero]

include h

theorem stretch_holds (hd : s.declAt p = some d) :
    s.stretch.Holds (s.gap ++ (s.text ++ s.behind)) (s.docs ++ s.item :: s.after) where
  source_eq := (List.append_assoc _ _ _).symm
  items_eq := rfl
  construct_ne := by simp [stretch, kind_eq hd]
  stop_eq := h.stop_eq
  ends := h.ends
  laid := h.laid

/-- The comments and the item that the text is made up of. -/
theorem exists_text : ∃ doc text, s.text = doc ++ text ∧
    s.item.start.offset = byteLength (s.gap ++ doc) ∧ text ≠ [] := by
  obtain ⟨e, hlaid⟩ := h.laid
  have hstart : byteLength s.gap = (s.docs.head?.getD s.item).start.offset := by
    simp [h.start_eq, Place.after, Place.zero]
  have hle : byteLength s.gap ≤ s.item.start.offset := by
    cases hdocs : s.docs with
    | nil => simp [hstart, hdocs]
    | cons c docs =>
      rw [hdocs] at hlaid hstart
      have hmem : s.item ∈ docs ++ s.item :: s.after := by simp
      have hle := List.rel_of_pairwise_cons hlaid.pairwise hmem
      have hbounds := hlaid.bounds List.mem_cons_self
      simp only [List.head?_cons, Option.getD_some] at hstart
      omega
  obtain ⟨as, text, bs, hsource, hs, ht, hline⟩ := hlaid.place_of_mem (i := s.item) (by simp)
  have hstop : byteLength (s.gap ++ s.text) = byteLength (as ++ text) := by
    have := congrArg Place.offset (h.stop_eq.symm.trans ht)
    simpa [hs, Place.after, Place.zero] using this
  obtain ⟨doc, rfl, hcut⟩ := exists_append_of_byteLength_le hsource (by
    simpa [hs, Place.after, Place.zero] using hle)
  rw [← List.append_assoc] at hcut
  have htext := (append_inj_of_byteLength hcut (by simpa [Nat.add_assoc] using hstop)).1
  refine ⟨doc, text, htext, by simp [hs, Place.after, Place.zero], fun hnil => ?_⟩
  simp [hnil, Outline.endsInLine, takeEndWhile] at hline

theorem leadingStart_eq (hd : s.declAt (.after .zero pre) = some d) :
    d.leadingStart = byteLength (pre ++ s.gap) := by
  have hstart := congrArg Place.offset h.start_eq
  rw [Decl.leadingStart, docStart_eq hd, span_eq hd, byteLength_append]
  cases hdocs : s.docs.head? <;> simp_all [Place.after, Place.zero]

theorem span_stop_eq (hd : s.declAt (.after .zero pre) = some d) :
    d.span.stop = byteLength (pre ++ (s.gap ++ s.text)) := by
  simp [span_eq hd, h.stop_eq, Place.after, Place.zero]

/-- What is kept of a declaration where the stretch stands between two texts. -/
theorem keptSpan_eq (hd : s.declAt (.after .zero pre) = some d)
    (hgap : gapLines (pre ++ s.gap) = s.gap) (behind : List Char) :
    keptSpan (pre ++ (s.gap ++ (s.text ++ behind))) d =
      ⟨byteLength pre, byteLength (pre ++ (s.gap ++ (s.text ++ lineTail behind)))⟩ := by
  have hstart : gapStart (pre ++ (s.gap ++ (s.text ++ behind))) d.leadingStart = byteLength pre := by
    rw [h.leadingStart_eq hd, ← List.append_assoc, gapStart_append, hgap, byteLength_append]
    omega
  have hstop : extendOverLine (pre ++ (s.gap ++ (s.text ++ behind))) d.span.stop =
      byteLength (pre ++ (s.gap ++ (s.text ++ lineTail behind))) := by
    have happend : pre ++ (s.gap ++ (s.text ++ behind)) = (pre ++ (s.gap ++ s.text)) ++ behind := by
      simp
    rw [h.span_stop_eq hd, happend, extendOverLine_append]
    simp
  rw [keptSpan, hstart, hstop]

theorem text_keptSpan (hd : s.declAt (.after .zero pre) = some d)
    (hgap : gapLines (pre ++ s.gap) = s.gap) (behind : List Char) :
    (keptSpan (pre ++ (s.gap ++ (s.text ++ behind))) d).text (pre ++ (s.gap ++ (s.text ++ behind))) =
      s.gap ++ (s.text ++ lineTail behind) := by
  obtain ⟨rest, hrest⟩ := lineTail_prefix behind
  have happend : pre ++ (s.gap ++ (s.text ++ behind)) =
      pre ++ ((s.gap ++ (s.text ++ lineTail behind)) ++ rest) := by
    simp [hrest]
  rw [h.keptSpan_eq hd hgap, Span.text, happend, byteLength_append, slice_append]

theorem leadingStart_le (hd : s.declAt (.after .zero pre) = some d) :
    d.leadingStart ≤ d.span.start ∧ d.span.start < d.span.stop := by
  obtain ⟨doc, text, htext, hstart, hne⟩ := h.exists_text
  have hpos := byteLength_pos hne
  have hbegin : d.span.start = byteLength pre + byteLength (s.gap ++ doc) := by
    rw [span_eq hd, hstart]
  rw [h.leadingStart_eq hd, h.span_stop_eq hd, hbegin, htext]
  simp only [byteLength_append]
  omega

end Formed

namespace Holds

variable {s : Site} {source : List Char} {is : List Item} {d : Decl} (h : s.Holds source is d)
include h

theorem exists_rest : ∃ rest, source = s.pre ++ (s.kept ++ rest) := by
  obtain ⟨rest, hrest⟩ := lineTail_prefix s.behind
  refine ⟨rest, ?_⟩
  rw [h.source_eq, kept, Stretch.kept, stretch]
  simp [hrest]

theorem keptSpan_eq : keptSpan source d = ⟨byteLength s.pre, byteLength (s.pre ++ s.kept)⟩ := by
  rw [h.source_eq, h.toFormed.keptSpan_eq h.decl_eq h.gap_eq, kept, Stretch.kept, stretch,
    List.append_assoc]

theorem text_keptSpan : (keptSpan source d).text source = s.kept := by
  rw [h.source_eq, h.toFormed.text_keptSpan h.decl_eq h.gap_eq, kept, Stretch.kept, stretch,
    List.append_assoc]

theorem dropBytes_eq : dropBytes d.span.stop source = s.behind := by
  have hsource : source = (s.pre ++ (s.gap ++ s.text)) ++ s.behind := by
    rw [h.source_eq]
    simp
  rw [h.span_stop_eq h.decl_eq, hsource, dropBytes_byteLength_append]

theorem kept_ne_nil : s.kept ≠ [] := by
  obtain ⟨doc, text, htext, -, hne⟩ := h.exists_text
  simp [kept, Stretch.kept, stretch, htext, hne]

end Holds

end Site

section Existence

variable {source : List Char} {is : List Item}

private theorem exists_gap {x y : List Char} {j i : Item} {e e' : Bool}
    (hj : j.stop = .after .zero x) (hend : Outline.endsInLine x) (hy : Laid e j.stop y (i :: is) e')
    (hi : i.construct = .comment → j.stop.row ≠ i.start.row) :
    ∃ g gap rest, y = g ++ (gap ++ rest) ∧ gapLines (x ++ (g ++ gap)) = gap ∧
      i.start = .after .zero (x ++ (g ++ gap)) ∧ (i.construct = .comment → '\n' ∈ g ++ gap) ∧
      Laid true (.after .zero (x ++ g)) (gap ++ rest) (i :: is) e' := by
  rcases hy with _ | @⟨_, _, e₁, _, run, text, rest, _, _, hgap, hstart, hstop, hsound, hline,
    hcomment, hmore⟩
  have hlines : gapLines x = [] := by simpa using gapLines_of_endsInLine hend (.inr rfl)
  obtain ⟨g, hg⟩ := gapLines_append_suffix hlines run
  have hrow : i.construct = .comment → '\n' ∈ run := by
    intro hc
    have := hi hc
    rw [hstart] at this
    by_contra hnl
    exact this (by simp [Place.after, List.count_eq_zero_of_not_mem hnl])
  have hblank : ∀ c ∈ gapLines (x ++ run), Outline.isSpace c := fun c hc =>
    isSpace_of_isGap (isGap_of_mem_gapLines hc)
  generalize hlines : gapLines (x ++ run) = gap at hg hblank
  refine ⟨g, gap, text ++ rest, by rw [← hg, List.append_assoc], by rw [hg, hlines], ?_,
    fun hc => hg ▸ hrow hc, .cons (endedAfter_of_spaces hblank) ?_ hstop hsound hline hcomment ?_⟩
  · rw [hstart, hj, hg, Place.after_after]
  · rw [hstart, hj, Place.after_after, Place.after_after, List.append_assoc, hg]
  · by_cases hc : i.construct = .comment
    · rw [ended_of_newline hgap (hrow hc)] at hmore
      simpa [hc] using hmore
    · simpa [hc] using hmore

private theorem exists_moved_docs {pre gap ys : List Char} {run : List Item} {k : Item} {e : Bool}
    (h : Laid true (.after .zero pre) (gap ++ ys) (run ++ k :: is) e)
    (hstart : (run.head?.getD k).start = .after .zero (pre ++ gap)) :
    ∃ text behind docs item after, ys = text ++ behind ∧
      run ++ k :: is = (docs ++ item :: after).map (·.moved (.after .zero pre)) ∧
      run = docs.map (·.moved (.after .zero pre)) ∧ k = item.moved (.after .zero pre) ∧
      (docs.head?.getD item).start = .after .zero gap ∧
      item.stop = .after .zero (gap ++ text) ∧ Outline.endsInLine (gap ++ text) ∧
      Laid true .zero (gap ++ (text ++ behind)) (docs ++ item :: after) e := by
  obtain ⟨rel, hrel, hlaid⟩ :=
    Laid.exists_moved (q := .after .zero pre) (s := .zero) (by simpa using h)
  obtain ⟨docs, rel, rfl, rfl, hitem⟩ := List.map_eq_append_iff.1 hrel.symm
  obtain ⟨item, after, rfl, rfl, -⟩ := List.map_eq_cons_iff.1 hitem
  have hfirst : (docs.head?.getD item).start = .after .zero gap := by
    refine Place.add_left_cancel (p := .after .zero pre) ?_
    rw [← Place.after_eq_add, Place.after_after, ← hstart]
    cases docs <;> rfl
  obtain ⟨as, behind, e₁, hcut, has, hend, hstop, -, -⟩ := hlaid.cut_behind
  have hle : byteLength gap ≤ byteLength as := by
    have hbounds := has.bounds (i := docs.head?.getD item) (by cases docs <;> simp)
    simp only [hfirst, Place.after, Place.zero] at hbounds
    omega
  obtain ⟨text, rfl, rfl⟩ := exists_append_of_byteLength_le hcut hle
  exact ⟨text, behind, docs, item, after, rfl, hrel, rfl, rfl, hfirst, hstop, hend, hlaid⟩

/-- The comments that belong to a declaration stand right above it, and what stands above them does not
end on the line of the first. -/
private theorem exists_run (is : List Item) {as bs : List Item} {last k : Item} {d : Decl}
    (hlast : last.construct ≠ .comment)
    (hd : declAt? (bs.reverse ++ last :: as.reverse) k = some d) :
    ∃ run rest j, k.decl? run.reverse = some d ∧ docRun k.start.row run = run ∧
      (∀ c ∈ run, c.construct = .comment) ∧
      as ++ last :: (bs ++ k :: is) = rest.reverse ++ j :: (run.reverse ++ k :: is) ∧
      last ∈ j :: rest ∧ ∀ c ∈ run.getLast?, j.stop.row ≠ c.start.row := by
  rw [declAt?_eq_decl?] at hd
  obtain ⟨rest, habove, hrow⟩ := exists_append_docRun k.start.row (bs.reverse ++ last :: as.reverse)
  have hcomments := @construct_of_mem_docRun k.start.row (bs.reverse ++ last :: as.reverse)
  have hrun := docRun_docRun k.start.row (bs.reverse ++ last :: as.reverse)
  generalize docRun k.start.row (bs.reverse ++ last :: as.reverse) = run at *
  have hmem : last ∈ rest := by
    have : last ∈ run ++ rest := habove ▸ by simp
    rcases List.mem_append.1 this with h | h
    · exact absurd (hcomments h) hlast
    · exact h
  obtain ⟨j, rest, rfl⟩ := List.exists_cons_of_ne_nil (List.ne_nil_of_mem hmem)
  refine ⟨run, rest, j, hd, hrun, fun c hc => hcomments hc, ?_, hmem, fun c hc => hrow c hc j rfl⟩
  have := congrArg List.reverse habove
  simp only [List.reverse_append, List.reverse_cons, List.reverse_reverse] at this
  simpa using congrArg (· ++ k :: is) this

/-- A declaration below an item which is not a comment stands at a site. -/
theorem exists_site {as bs : List Item} {last k : Item} {d : Decl} {e : Bool}
    (hlaid : Laid true .zero source (as ++ last :: (bs ++ k :: is)) e)
    (hlast : last.construct ≠ .comment)
    (hd : declAt? (bs.reverse ++ last :: as.reverse) k = some d) :
    ∃ s : Site, s.Holds source (as ++ last :: (bs ++ k :: is)) d ∧ last ∈ s.before := by
  obtain ⟨run, rest, j, hd, hrun, hcomments, hitems, hmem, hrow⟩ := exists_run is hlast hd
  rw [hitems] at hlaid ⊢
  obtain ⟨x, y, e₁, rfl, hx, hend, hj, hy, -⟩ := hlaid.cut_behind
  obtain ⟨i, more, hi⟩ := List.exists_cons_of_ne_nil (l := run.reverse ++ k :: is) (by simp)
  have hhead : i = run.getLast?.getD k := by
    have := congrArg List.head? hi
    rw [List.head?_append, List.head?_reverse, List.head?_cons, List.head?_cons] at this
    cases hl : run.getLast? <;> simpa [hl, eq_comm] using this
  have hdoc : run = [] → i.construct ≠ .comment := fun h => by
    rw [hhead, h, List.getLast?_nil, Option.getD_none, (Item.decl?_eq_some hd).1]
    simp
  rw [hi] at hy
  obtain ⟨g, gap, ys, rfl, hgap, hstart, hnl, hy⟩ := exists_gap hj hend hy fun hc => by
    cases hl : run.getLast? with
    | none => exact absurd hc (hdoc (List.getLast?_eq_none_iff.1 hl))
    | some c => simpa [hhead, hl] using hrow c hl
  rw [← hi] at hy
  rw [← List.append_assoc] at hgap hstart
  obtain ⟨text, behind, docs, item, after, rfl, hrel, hdocs, rfl, hfirst, hstop, htext, hsite⟩ :=
    exists_moved_docs hy (by rw [List.head?_reverse, ← hhead, hstart])
  have hreverse : run = docs.reverse.map (·.moved (.after .zero (x ++ g))) := by
    rw [List.map_reverse, ← hdocs, List.reverse_reverse]
  have hbefore : ∀ k ∈ rest.reverse ++ [j], k.stop.offset ≤ byteLength x := fun k hk => by
    simpa [Place.after, Place.zero] using (hx.bounds hk).2.2
  refine ⟨⟨x ++ g, gap, text, behind, rest.reverse ++ [j], docs, item, after⟩,
    ⟨⟨?_, hfirst, hstop, htext, e, hsite⟩, ?_, ?_, ?_, hgap, ?_, ?_⟩, ?_⟩
  · rw [hreverse, Item.start_moved] at hrun
    exact map_moved_injective ((docRun_moved _ _ _).symm.trans hrun)
  · simp
  · rw [List.append_assoc, List.singleton_append]
    exact congrArg (rest.reverse ++ j :: ·) hrel
  · intro k hk
    rw [byteLength_append]
    exact (hbefore k hk).trans (Nat.le_add_right _ _)
  · intro hne
    refine ⟨x, g ++ gap, List.append_assoc _ _ _, hnl ?_, hbefore⟩
    have hrunne : run ≠ [] := by simpa [hreverse] using hne
    rw [hhead, List.getLast?_eq_some_getLast hrunne]
    exact hcomments _ (List.getLast_mem hrunne)
  · rw [hdocs] at hd
    exact hd
  · simpa [or_comm, eq_comm] using hmem

/-- A declaration of a file stands below an item. -/
def Below (is : List Item) (i : Item) (d : Decl) : Prop :=
  ∃ as bs k js, is = as ++ i :: (bs ++ k :: js) ∧ declAt? (bs.reverse ++ i :: as.reverse) k = some d

theorem Below.exists_site {i : Item} {d : Decl} {e : Bool} (h : Below is i d)
    (hlaid : Laid true .zero source is e) (hi : i.construct ≠ .comment) :
    ∃ s : Site, s.Holds source is d ∧ i ∈ s.before := by
  obtain ⟨as, bs, k, js, rfl, hd⟩ := h
  exact StructProjection.exists_site hlaid hi hd

theorem below_of_mem_bodyDecls {as bs : List Item} {i : Item} {d : Decl}
    (h : d ∈ bodyDecls (i :: as.reverse) bs) : Below (as ++ i :: bs) i d := by
  obtain ⟨before, k, after, rfl, hk⟩ := exists_of_mem_bodyDecls h
  exact ⟨as, before, k, after, rfl, hk⟩

/-- Of two declarations the second stands below the item that the first is. -/
theorem pairwise_bodyDecls (as bs : List Item) :
    (bodyDecls as.reverse bs).Pairwise fun d d' =>
      ∃ i, i.construct ≠ .comment ∧ i.span = d.span ∧ Below (as ++ bs) i d' := by
  induction bs generalizing as with
  | nil => exact .nil
  | cons i bs ih =>
    have hbs := ih (as ++ [i])
    rw [List.reverse_append, List.append_assoc] at hbs
    rw [bodyDecls]
    cases hd : declAt? as.reverse i with
    | none => exact hbs
    | some d =>
      refine .cons (fun d' hd' => ⟨i, ?_, ?_, below_of_mem_bodyDecls hd'⟩) hbs
      · rw [declAt?_eq_decl?] at hd
        simp [(Item.decl?_eq_some hd).1]
      · rw [declAt?_eq_decl?] at hd
        exact (Item.decl?_eq_some hd).2.1.symm

/-- A file that is accepted begins with a header, and its declarations stand below that. -/
theorem exists_head {o : Outline} {file : SourceFile} (hfits : o.fits source)
    (h : o.sourceFile source = .ok file) :
    ∃ head : Stretch, o = ⟨none, o.items⟩ ∧ head.IsHead source o.items ∧
      file.decls = bodyDecls (head.item :: head.above.reverse) head.after := by
  obtain ⟨hfault, hs, bs, hitems, hhs, hbs, hdecls⟩ := exists_header_of_sourceFile h
  obtain ⟨above, last, rfl, hlast⟩ := hhs.exists_last
  have hne : last.construct ≠ .comment := fun hc => by simp [hc, Construct.isHeader] at hlast
  obtain ⟨fault, is⟩ := o
  obtain rfl : fault = none := hfault
  obtain ⟨e, hlaid⟩ := exists_laid_of_fits hfits
  obtain rfl : is = above ++ last :: bs := by simpa using hitems
  obtain ⟨text, behind, -, rfl, -, hend, hstop, -, -⟩ := hlaid.cut_behind
  exact ⟨⟨text, behind, above, last, bs⟩, rfl,
    ⟨⟨rfl, rfl, hne, hstop, hend, e, hlaid⟩, hhs, hbs⟩, by simpa using hdecls⟩

/-- Each declaration of a file stands at a site below the header. -/
theorem Stretch.IsHead.exists_site {head : Stretch} {d : Decl} (h : head.IsHead source is)
    (hd : d ∈ bodyDecls (head.item :: head.above.reverse) head.after) :
    Below is head.item d ∧ ∃ s : Site, s.Holds source is d ∧ head.item ∈ s.before := by
  have hbelow : Below is head.item d := h.items_eq ▸ below_of_mem_bodyDecls hd
  obtain ⟨e, hlaid⟩ := h.laid
  exact ⟨hbelow, hbelow.exists_site hlaid h.construct_ne⟩

end Existence

end StructProjection
