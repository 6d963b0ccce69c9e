import StructProjection.Proofs.Projection.Site

/-! # Disjoint spans

The spans of a projection follow one another and do not overlap, unless what is taken in behind a
span, for it begins and ends like a comment, has another declaration in it.
-/

namespace StructProjection

open Text Go

/-- A declaration begins on what is taken in behind an offset. -/
def Swallows (source : List Char) (stop : Nat) (d : Decl) : Prop :=
  stop ≤ d.span.start ∧ d.span.start < extendOverLine source stop

/-- The spans of the header and of the declarations of structs follow one another, and the header ends
before the first declaration begins. -/
def SpansApart (header : Span) (structs : List Span) (file : SourceFile) : Prop :=
  (header :: structs).IsChain (·.stop ≤ ·.start) ∧ ∀ d ∈ file.decls.head?, header.stop ≤ d.span.start

section Spans

variable {source : List Char} {spans : List Span}

private theorem pairwise_of_isChain (hspans : ∀ s ∈ spans, s.start ≤ s.stop)
    (h : spans.IsChain (·.stop ≤ ·.start)) : spans.Pairwise (·.stop ≤ ·.start) := by
  induction spans with
  | nil => exact .nil
  | cons s spans ih =>
    cases spans with
    | nil => exact List.pairwise_singleton _ s
    | cons t spans =>
      obtain ⟨hst, hspans'⟩ := List.isChain_cons_cons.1 h
      have hpairwise := ih (fun u hu => hspans u (List.mem_cons_of_mem s hu)) hspans'
      refine .cons (fun u hu => ?_) hpairwise
      rcases List.mem_cons.1 hu with rfl | hu
      · exact hst
      · have htu := List.rel_of_pairwise_cons hpairwise hu
        have ht := hspans t (by simp)
        omega

private theorem flatMap_text_sublist {pre suf : List Char} (hsource : source = pre ++ suf)
    (hspans : ∀ s ∈ spans, s.Within source) (hpre : ∀ s ∈ spans, byteLength pre ≤ s.start)
    (h : spans.Pairwise (·.stop ≤ ·.start)) : (spans.flatMap (·.text source)).Sublist suf := by
  induction spans generalizing pre suf with
  | nil => exact List.nil_sublist suf
  | cons s spans ih =>
    obtain ⟨hle, hstart, hstop⟩ := hspans s List.mem_cons_self
    obtain ⟨as, bs, has, hlen⟩ := isBoundary_iff.1 hstart
    obtain ⟨cs, ds, hcs, hlen'⟩ := isBoundary_iff.1 hstop
    obtain ⟨gap, rfl, rfl⟩ := exists_append_of_byteLength_le (hsource.symm.trans has)
      (hlen ▸ hpre s List.mem_cons_self)
    obtain ⟨text, rfl, rfl⟩ := exists_append_of_byteLength_le (has.symm.trans hcs) (by omega)
    have htext : s.text source = text := by
      rw [Span.text, has, ← hlen, ← hlen', byteLength_append (pre ++ gap), slice_append]
    have hmore := ih hcs (fun t ht => hspans t (List.mem_cons_of_mem s ht))
      (fun t ht => hlen' ▸ List.rel_of_pairwise_cons h ht) h.of_cons
    rw [List.flatMap_cons, htext]
    exact List.sublist_append_of_sublist_right (List.Sublist.append_left hmore text)

end Spans

section Sites

variable {source : List Char} {is : List Item} {d : Decl} {s : Site}

theorem Site.Holds.within (h : s.Holds source is d) : (keptSpan source d).Within source := by
  obtain ⟨rest, hsource⟩ := h.exists_rest
  rw [h.keptSpan_eq]
  refine ⟨by simp, isBoundary_iff.2 ⟨s.pre, _, hsource, rfl⟩,
    isBoundary_iff.2 ⟨s.pre ++ s.kept, rest, by simpa using hsource, rfl⟩⟩

/-- The lines above a declaration and its comments do not reach into what is taken in behind an item
further up, if the declaration itself does not begin there. -/
theorem Site.Holds.extendOverLine_le_iff (h : s.Holds source is d) {as bs : List Char} {i : Item}
    (hsource : source = as ++ bs) (hend : Outline.endsInLine as) (hi : i ∈ s.before)
    (hstop : i.stop.offset = byteLength as) :
    extendOverLine source (byteLength as) ≤ (keptSpan source d).start ↔
      extendOverLine source (byteLength as) ≤ d.span.start := by
  have hextend : extendOverLine source (byteLength as) = byteLength (as ++ lineTail bs) := by
    rw [hsource, extendOverLine_append]
  have hleading := (h.leadingStart_le h.decl_eq).1
  rw [h.leadingStart_eq h.decl_eq, byteLength_append] at hleading
  rw [hextend, h.keptSpan_eq]
  constructor
  · intro hle
    simp only at hle
    omega
  · intro hle
    obtain ⟨tail, htail⟩ := lineTail_prefix bs
    have hcut : as ++ bs = s.pre ++ s.gap ++ (s.text ++ s.behind) := by
      rw [← hsource, h.source_eq, List.append_assoc]
    have hreach : byteLength (as ++ lineTail bs) ≤ byteLength (s.pre ++ s.gap) := by
      cases hdocs : s.docs with
      | nil =>
        have hnone : d.leadingStart = d.span.start := by
          rw [Decl.leadingStart, Site.Formed.docStart_eq h.decl_eq, hdocs]
          rfl
        rwa [← h.leadingStart_eq h.decl_eq, hnone]
      | cons c docs =>
        -- The comments begin on a later row than the one that the item ends on.
        obtain ⟨cs, g, hcs, hnl, hbefore⟩ := h.newline (by simp [hdocs])
        rw [hcs, List.append_assoc] at hcut
        obtain ⟨g', rfl, hbs⟩ := exists_append_of_byteLength_le hcut (hstop ▸ hbefore i hi)
        have hlen : byteLength (lineTail (g' ++ g ++ (s.text ++ s.behind))) ≤ byteLength (g' ++ g) :=
          byteLength_lineTail_le (by simp [hnl]) _
        rw [hcs]
        simp only [hbs, byteLength_append, List.append_assoc] at hlen ⊢
        omega
    rw [← htail, ← List.append_assoc] at hcut
    obtain ⟨g, hg, -⟩ := exists_append_of_byteLength_le hcut hreach
    have hnil : gapLines (as ++ lineTail bs) = [] := gapLines_of_tail hend (restOfLine_lineTail bs)
    obtain ⟨more, hmore⟩ := gapLines_append_suffix hnil g
    rw [← hg, h.gap_eq] at hmore
    have hlen := congrArg byteLength hg
    rw [← hmore] at hlen
    simp only [byteLength_append] at hlen ⊢
    omega

theorem Below.extendOverLine_le_iff {i : Item} {e : Bool} (h : Below is i d)
    (hlaid : Laid true .zero source is e) (hi : i.construct ≠ .comment) :
    i.span.stop ≤ d.span.start ∧ (extendOverLine source i.span.stop ≤ (keptSpan source d).start ↔
      extendOverLine source i.span.stop ≤ d.span.start) := by
  obtain ⟨s, hs, hmem⟩ := h.exists_site hlaid hi
  obtain ⟨above, bs, k, js, rfl, -⟩ := h
  obtain ⟨as, behind, -, hsource, -, hend, hstop, -, -⟩ := hlaid.cut_behind
  have hlen : i.stop.offset = byteLength as := by simp [hstop, Place.after, Place.zero]
  have hle := (hs.leadingStart_le hs.decl_eq).1
  have hpre := hs.stop_le i hmem
  rw [hs.leadingStart_eq hs.decl_eq, byteLength_append] at hle
  refine ⟨?_, ?_⟩
  · simp only [Item.span]
    omega
  · rw [Item.span, hlen]
    exact hs.extendOverLine_le_iff hsource hend hmem hlen

end Sites

section Files

variable {source : List Char} {o : Outline} {file : SourceFile}

/-- Of two declarations the second is kept apart from the first if it does not begin on what is taken
in behind it. -/
theorem pairwise_decls {as bs : List Item} {e : Bool}
    (hlaid : Laid true .zero source (as ++ bs) e) :
    (bodyDecls as.reverse bs).Pairwise fun d d' => d.span.stop ≤ d'.span.start ∧
      ((keptSpan source d).stop ≤ (keptSpan source d').start ↔
        ¬ Swallows source d.span.stop d') := by
  refine (pairwise_bodyDecls as bs).imp fun {d d'} ⟨i, hi, hspan, hbelow⟩ => ?_
  obtain ⟨hle, hiff⟩ := hbelow.extendOverLine_le_iff hlaid hi
  rw [hspan] at hle hiff
  refine ⟨hle, hiff.trans ?_⟩
  simp [Swallows, hle]

namespace Stretch.IsHead

variable {head : Stretch} {is : List Item} (h : head.IsHead source is)
include h

theorem within : Span.Within ⟨0, byteLength head.kept⟩ source := by
  obtain ⟨rest, hrest⟩ := lineTail_prefix head.behind
  refine ⟨Nat.zero_le _, isBoundary_iff.2 ⟨[], source, rfl, rfl⟩,
    isBoundary_iff.2 ⟨head.kept, rest, ?_, rfl⟩⟩
  rw [h.source_eq, Stretch.kept, List.append_assoc, hrest]

/-- A declaration is kept apart from the header if it does not begin on what is taken in behind it. -/
theorem le_keptSpan_iff {d : Decl}
    (hd : d ∈ bodyDecls (head.item :: head.above.reverse) head.after) :
    byteLength head.text ≤ d.span.start ∧
      (byteLength head.kept ≤ (keptSpan source d).start ↔
        ¬ Swallows source (byteLength head.text) d) := by
  obtain ⟨e, hlaid⟩ := h.laid
  have hstop : head.item.span.stop = byteLength head.text := h.stop_offset
  obtain ⟨hle, hiff⟩ := (h.exists_site hd).1.extendOverLine_le_iff hlaid h.construct_ne
  rw [hstop] at hle hiff
  refine ⟨hle, ?_⟩
  rw [← h.extendOverLine_eq, hiff]
  simp [Swallows, hle]

variable (hdecls : file.decls = bodyDecls (head.item :: head.above.reverse) head.after)
include hdecls

theorem forall_within : ∀ s ∈ ⟨0, byteLength head.kept⟩ :: file.structDecls.map (keptSpan source),
    s.Within source := by
  simp only [List.forall_mem_cons, List.forall_mem_map]
  refine ⟨h.within, fun d hd => ?_⟩
  obtain ⟨-, s, hs, -⟩ := h.exists_site (hdecls ▸ (List.mem_filter.1 hd).1)
  exact hs.within

theorem pairwise_swallows : file.decls.Pairwise fun d d' => d.span.stop ≤ d'.span.start ∧
    ((keptSpan source d).stop ≤ (keptSpan source d').start ↔ ¬ Swallows source d.span.stop d') := by
  obtain ⟨e, hlaid⟩ := h.laid
  rw [h.items_eq, List.append_cons] at hlaid
  rw [hdecls]
  simpa using pairwise_decls hlaid

/-- What ends before the first declaration begins ends before each. -/
theorem le_start_of_head? {n : Nat} (hn : ∀ d ∈ file.decls.head?, n ≤ d.span.start) {d : Decl}
    (hd : d ∈ file.decls) : n ≤ d.span.start := by
  have hpairwise := h.pairwise_swallows hdecls
  cases hds : file.decls with
  | nil => simp [hds] at hd
  | cons c ds =>
    have hc : n ≤ c.span.start := hn c (by simp [hds])
    obtain ⟨-, s, hs, -⟩ := h.exists_site (d := c) (by rw [← hdecls, hds]; simp)
    have hlt := (hs.leadingStart_le hs.decl_eq).2
    rw [hds] at hd hpairwise
    rcases List.mem_cons.1 hd with rfl | hd
    · exact hc
    · have hcd := (List.rel_of_pairwise_cons hpairwise hd).1
      omega

theorem spansApart_iff_not_swallows :
    SpansApart ⟨0, byteLength head.kept⟩ (file.structDecls.map (keptSpan source)) file ↔
      (∀ d ∈ file.decls, ¬ Swallows source (byteLength head.text) d) ∧
        file.structDecls.Pairwise fun d d' => ¬ Swallows source d.span.stop d' := by
  have hbelow := fun d (hd : d ∈ file.decls) => h.le_keptSpan_iff (hdecls ▸ hd)
  have hstructs := (h.pairwise_swallows hdecls).filter Decl.hasStruct
  have hmem : ∀ d ∈ file.structDecls, d ∈ file.decls := fun d hd => (List.mem_filter.1 hd).1
  constructor
  · rintro ⟨hchain, hfirst⟩
    have hapart := pairwise_of_isChain (fun s hs => (h.forall_within hdecls s hs).1) hchain
    rw [List.pairwise_cons, List.pairwise_map] at hapart
    refine ⟨fun d hd hs => ?_, List.Pairwise.imp₂ (fun _ _ h hd => hd.2.1 h) hapart.2 hstructs⟩
    have hle : byteLength head.kept ≤ d.span.start := h.le_start_of_head? hdecls hfirst hd
    have hlt := hs.2
    rw [h.extendOverLine_eq] at hlt
    omega
  · rintro ⟨hnone, hstruct⟩
    refine ⟨List.Pairwise.isChain ?_, fun d hd => ?_⟩
    · rw [List.pairwise_cons, List.pairwise_map, List.forall_mem_map]
      exact ⟨fun d hd => (hbelow d (hmem d hd)).2.2 (hnone d (hmem d hd)),
        List.Pairwise.imp₂ (fun _ _ h hd => hd.2.2 h) hstruct hstructs⟩
    · have hd := List.mem_of_mem_head? hd
      have hstart := hnone d hd
      simpa [Swallows, (hbelow d hd).1, h.extendOverLine_eq] using hstart

end Stretch.IsHead

theorem spansApart_iff_of_fits (hfits : o.fits source) (h : o.sourceFile source = .ok file) :
    ∃ stop, o.headerEnd source = .ok stop ∧
      (SpansApart ⟨0, extendOverLine source stop⟩ (file.structDecls.map (keptSpan source)) file ↔
        (∀ d ∈ file.decls, ¬ Swallows source stop d) ∧
          file.structDecls.Pairwise fun d d' => ¬ Swallows source d.span.stop d') ∧
      ∀ s ∈ ⟨0, extendOverLine source stop⟩ :: file.structDecls.map (keptSpan source),
        s.Within source := by
  obtain ⟨head, ho, hhead, hdecls⟩ := exists_head hfits h
  rw [ho]
  refine ⟨_, hhead.headerEnd_eq, ?_⟩
  rw [hhead.extendOverLine_eq]
  exact ⟨hhead.spansApart_iff_not_swallows hdecls, hhead.forall_within hdecls⟩

end Files

/-- The spans of a file that is accepted follow one another if and only if no declaration begins on
what is taken in behind the header, and no struct on what is taken in behind another. Then nothing is
kept twice. -/
theorem spansApart_iff {text : String} {file : SourceFile} (h : SourceFile.read text = .ok file) :
    ∃ stop structs, headerEnd text = .ok stop ∧
      headerSpan text = .ok ⟨0, extendOverLine text.toList stop⟩ ∧
      structSpans text = .ok structs ∧ structs.length = file.structDecls.length ∧
      (SpansApart ⟨0, extendOverLine text.toList stop⟩ structs file ↔
        (∀ d ∈ file.decls, ¬ Swallows text.toList stop d) ∧
          file.structDecls.Pairwise fun d d' => ¬ Swallows text.toList d.span.stop d') ∧
      (SpansApart ⟨0, extendOverLine text.toList stop⟩ structs file →
        ∃ out, project text .none = .ok out ∧ out.toList.Sublist text.toList ∧
          out.utf8ByteSize ≤ text.utf8ByteSize) := by
  obtain ⟨o, ho, hfits, hfile⟩ := exists_outline_of_read h
  obtain ⟨stop, hstop, hiff, hwithin⟩ := spansApart_iff_of_fits hfits hfile
  have hheader : headerSpanOf text.toList o = .ok ⟨0, extendOverLine text.toList stop⟩ := by
    rw [headerSpanOf, hstop]
    rfl
  have hstructs : structSpansOf text.toList o =
      .ok (file.structDecls.map (keptSpan text.toList)) := by
    rw [structSpansOf, hfile]
    rfl
  refine ⟨stop, _, ?_, ?_, ?_, List.length_map _, hiff, fun hapart => ?_⟩
  · rw [headerEnd, ho]
    exact hstop
  · rw [headerSpan, ho]
    exact hheader
  · rw [structSpans, ho]
    exact hstructs
  · have hpairwise := pairwise_of_isChain (fun s hs => (hwithin s hs).1) hapart.1
    have hsublist := flatMap_text_sublist (List.nil_append _).symm hwithin (by simp [byteLength])
      hpairwise
    rw [List.flatMap_cons] at hsublist
    generalize hcs : Span.text ⟨0, extendOverLine text.toList stop⟩ text.toList ++
      (file.structDecls.map (keptSpan text.toList)).flatMap (·.text text.toList) = cs at hsublist
    refine ⟨String.ofList cs, ?_, ?_, ?_⟩
    · rw [project, projectWith, ho]
      change projectOutline text.toList .none o = _
      rw [projectOutline, hheader, hstructs, ← hcs]
      exact congrArg Except.ok (StripRules.apply_none _)
    · rwa [String.toList_ofList]
    · rw [utf8ByteSize_ofList, ← byteLength_toList]
      exact byteLength_le_of_sublist hsublist

/-- A file with a construct on each line. -/
def separateLines : String := "package x\n\n// A is kept.\ntype A struct{}\n\ntype B int\n"

theorem outline_separateLines : outline separateLines = .ok
    ⟨none, [⟨.packageClause, ⟨0, 0⟩, ⟨9, 0⟩, none, []⟩, ⟨.comment, ⟨11, 2⟩, ⟨24, 2⟩, none, []⟩,
      ⟨.declaration .type, ⟨25, 3⟩, ⟨40, 3⟩, none, [⟨"A", .struct⟩]⟩,
      ⟨.declaration .type, ⟨42, 5⟩, ⟨52, 5⟩, none, [⟨"B", .other⟩]⟩]⟩ :=
  outline_of_plain (by decide +kernel) (by decide +kernel)

theorem spansApart_separateLines :
    ∃ file stop structs, SourceFile.read separateLines = .ok file ∧
      headerEnd separateLines = .ok stop ∧ structSpans separateLines = .ok structs ∧
      SpansApart ⟨0, extendOverLine separateLines.toList stop⟩ structs file := by
  have hread : SourceFile.read separateLines = .ok
      ⟨[⟨.type, ⟨25, 40⟩, some 11, [⟨"A", .struct⟩]⟩, ⟨.type, ⟨42, 52⟩, none, [⟨"B", .other⟩]⟩]⟩ := by
    rw [SourceFile.read, SourceFile.readWith, outline_separateLines]
    rfl
  have hend : headerEnd separateLines = .ok 9 := by
    rw [headerEnd, outline_separateLines]
    rfl
  obtain ⟨stop, structs, hstop, -, hstructs, -, hiff, -⟩ := spansApart_iff hread
  obtain rfl : 9 = stop := Except.ok.inj (hend.symm.trans hstop)
  have hline : extendOverLine separateLines.toList 9 = 10 := by decide +kernel
  refine ⟨_, 9, structs, hread, hend, hstructs, hiff.2 ⟨?_, ?_⟩⟩
  · simp [Swallows, hline]
  · exact List.pairwise_singleton _ _

/-- A line with comments before and behind a struct. -/
def commentedLine : String := "package x /* a */; type A struct{} /* b */\n"

theorem outline_commentedLine : outline commentedLine = .ok
    ⟨none, [⟨.packageClause, ⟨0, 0⟩, ⟨9, 0⟩, none, []⟩, ⟨.comment, ⟨10, 0⟩, ⟨17, 0⟩, none, []⟩,
      ⟨.declaration .type, ⟨19, 0⟩, ⟨34, 0⟩, none, [⟨"A", .struct⟩]⟩,
      ⟨.comment, ⟨35, 0⟩, ⟨42, 0⟩, none, []⟩]⟩ :=
  outline_of_plain (by decide +kernel) (by decide +kernel)

/-- The header takes in its whole line, with the struct on it, which is kept twice then. -/
theorem spansOverlap_commentedLine :
    ∃ file header structs out, SourceFile.read commentedLine = .ok file ∧
      headerSpan commentedLine = .ok header ∧ structSpans commentedLine = .ok structs ∧
      ¬ SpansApart header structs file ∧ project commentedLine .none = .ok out ∧
      commentedLine.utf8ByteSize < out.utf8ByteSize := by
  have hread : SourceFile.read commentedLine = .ok
      ⟨[⟨.type, ⟨19, 34⟩, none, [⟨"A", .struct⟩]⟩]⟩ := by
    rw [SourceFile.read, SourceFile.readWith, outline_commentedLine]
    rfl
  have hheader : headerSpan commentedLine = .ok ⟨0, 43⟩ := by
    rw [headerSpan, outline_commentedLine]
    decide +kernel
  have hstructs : structSpans commentedLine = .ok [⟨19, 43⟩] := by
    rw [structSpans, outline_commentedLine]
    decide +kernel
  refine ⟨_, _, _, commentedLine ++ "type A struct{} /* b */\n", hread, hheader, hstructs, ?_, ?_, ?_⟩
  · simp [SpansApart]
  · rw [project, projectWith, outline_commentedLine]
    decide +kernel
  · decide +kernel

end StructProjection
