import Mathlib.Data.List.Forall2
import StructProjection.Proofs.Projection.Disjoint
import StructProjection.Proofs.Projection.Seams

/-! # The slices of a projection

A projection is put together from slices of the file, one for the header and one for each declaration
of structs. What a slice has beside these is blank above them, and the rest of a line behind them.
-/

namespace StructProjection

open Text Go

/-- Behind an offset nothing is taken in, or the rest of the line, which ends with its line feed or
with the text. -/
structure TakesInLine (source : List Char) (stop stop' : Nat) : Prop where
  within : Span.Within ⟨stop, stop'⟩ source
  line : slice stop stop' source = [] ∨ ∃ line, '\n' ∉ line ∧
    (slice stop stop' source = line ++ ['\n'] ∨
      slice stop stop' source = line ∧ stop' = byteLength source)

/-- A span holds a declaration with the comments that belong to it, whole blank lines above these, and
what is taken in behind the declaration. -/
structure KeptAs (source : List Char) (d : Decl) (s : Span) : Prop where
  within : s.Within source
  start_le : s.start ≤ d.leadingStart
  leadingStart_le : d.leadingStart ≤ d.span.start
  start_lt : d.span.start < d.span.stop
  gap : ∀ c ∈ slice s.start d.leadingStart source, isGap c
  newline : s.start = d.leadingStart ∨ (takeBytes s.start source).getLast? = some '\n'
  rest : TakesInLine source d.span.stop s.stop
  whole : slice d.leadingStart d.span.stop source <:+: s.text source

theorem takesInLine_append (pre behind : List Char) :
    TakesInLine (pre ++ behind) (byteLength pre) (byteLength (pre ++ lineTail behind)) := by
  obtain ⟨rest, hrest⟩ := lineTail_prefix behind
  have hslice : slice (byteLength pre) (byteLength (pre ++ lineTail behind)) (pre ++ behind) =
      lineTail behind := by
    have := slice_between pre (lineTail behind) rest
    rwa [hrest] at this
  refine ⟨⟨by simp, isBoundary_iff.2 ⟨pre, behind, rfl, rfl⟩,
    isBoundary_iff.2 ⟨pre ++ lineTail behind, rest, by simp [hrest], rfl⟩⟩, ?_⟩
  rw [hslice]
  simp only [lineTail]
  split
  · obtain ⟨line, stop, heq, hline, rfl | ⟨rfl, rfl⟩⟩ := exists_restOfLine behind
    · exact .inr ⟨line, hline, .inl heq⟩
    · rw [heq, List.append_nil]
      exact .inr ⟨behind, hline, .inr ⟨rfl, rfl⟩⟩
  · exact .inl rfl

/-- The blank lines above an offset begin behind a line feed. -/
theorem gapLines_eq_nil_or (above : List Char) :
    gapLines above = [] ∨ ∃ pre, above = pre ++ '\n' :: gapLines above := by
  have happend := dropEndWhile_append_takeEndWhile isGap above
  have hrun := List.takeWhile_append_dropWhile (p := (· ≠ '\n')) (l := takeEndWhile isGap above)
  rw [gapLines]
  cases h : (takeEndWhile isGap above).dropWhile (· ≠ '\n') with
  | nil => exact .inl rfl
  | cons c lines =>
    have hc := List.head?_dropWhile_not (· ≠ '\n') (takeEndWhile isGap above)
    rw [h] at hc hrun
    obtain rfl : c = '\n' := by simpa using hc
    refine .inr ⟨dropEndWhile isGap above ++ (takeEndWhile isGap above).takeWhile (· ≠ '\n'), ?_⟩
    rw [List.append_assoc, List.tail_cons, hrun, happend]

namespace Site.Holds

variable {s : Site} {source : List Char} {is : List Item} {d : Decl} (h : s.Holds source is d)
include h

theorem getLast?_pre : s.gap = [] ∨ s.pre.getLast? = some '\n' := by
  rcases gapLines_eq_nil_or (s.pre ++ s.gap) with hnil | ⟨pre, hpre⟩
  · exact .inl (h.gap_eq.symm.trans hnil)
  · rw [h.gap_eq, ← List.singleton_append, ← List.append_assoc, List.append_left_inj] at hpre
    exact .inr (by simp [hpre])

theorem keptAs : KeptAs source d (keptSpan source d) := by
  have hleading := h.leadingStart_eq h.decl_eq
  have hstop := h.span_stop_eq h.decl_eq
  obtain ⟨hle, hlt⟩ := h.leadingStart_le h.decl_eq
  have hgap : slice (byteLength s.pre) d.leadingStart source = s.gap := by
    rw [hleading, h.source_eq, slice_between]
  have htext : slice d.leadingStart d.span.stop source = s.text := by
    rw [hleading, hstop, h.source_eq, ← List.append_assoc, ← List.append_assoc, slice_between]
  have hrest : TakesInLine source d.span.stop (byteLength (s.pre ++ s.kept)) := by
    have hline := takesInLine_append (s.pre ++ (s.gap ++ s.text)) s.behind
    rw [← hstop] at hline
    simpa [h.source_eq, kept, Stretch.kept, stretch, -byteLength_append] using hline
  have hwithin := h.within
  have htake : takeBytes (byteLength s.pre) source = s.pre := by
    rw [h.source_eq, takeBytes_byteLength_append]
  have hwhole : s.text <:+: (keptSpan source d).text source := by
    rw [h.text_keptSpan, kept, Stretch.kept, stretch]
    exact (List.suffix_append s.gap s.text).isInfix.trans (List.prefix_append _ _).isInfix
  rw [← htext] at hwhole
  rw [h.keptSpan_eq] at hwithin hwhole ⊢
  refine ⟨hwithin, by simp [hleading], hle, hlt, ?_, ?_, hrest, hwhole⟩
  · rw [hgap]
    exact h.isGap
  · rw [htake, hleading]
    exact h.getLast?_pre.imp_left fun hnil => by simp [hnil]

end Site.Holds

section Files

variable {source : List Char} {is : List Item} {head : Stretch} {file : SourceFile}
  (h : head.IsHead source is)
include h

theorem Stretch.IsHead.takesInLine :
    TakesInLine source (byteLength head.text) (byteLength head.kept) := by
  have hline := takesInLine_append head.text head.behind
  rwa [← h.source_eq] at hline

theorem Stretch.IsHead.forall₂_keptAs
    (hdecls : file.decls = bodyDecls (head.item :: head.above.reverse) head.after) :
    List.Forall₂ (KeptAs source) file.structDecls (file.structDecls.map (keptSpan source)) := by
  refine List.forall₂_map_right_iff.2 (List.forall₂_same.2 fun d hd => ?_)
  obtain ⟨-, s, hs, -⟩ := h.exists_site (hdecls ▸ (List.mem_filter.1 hd).1)
  exact hs.keptAs

end Files

/-- What is kept of a declaration is kept in one piece. -/
theorem infix_flatMap_of_forall₂ {source : List Char} {ds : List Decl} {spans : List Span}
    (h : List.Forall₂ (KeptAs source) ds spans) {d : Decl} (hd : d ∈ ds) :
    slice d.leadingStart d.span.stop source <:+: spans.flatMap (·.text source) := by
  induction h with
  | nil => simp at hd
  | cons hs _ ih =>
    rw [List.flatMap_cons]
    rcases List.mem_cons.1 hd with rfl | hd
    · exact hs.whole.trans (List.prefix_append _ _).isInfix
    · exact (ih hd).trans (List.suffix_append _ _).isInfix

/-- The projection of a file that is accepted is the slice of its header and the slices of its
declarations of structs, in the order of the file, with blanks above and the rests of lines behind. -/
theorem project_eq_slices {text : String} {file : SourceFile} (h : SourceFile.read text = .ok file) :
    ∃ stop stop' spans out, headerEnd text = .ok stop ∧ headerSpan text = .ok ⟨0, stop'⟩ ∧
      structSpans text = .ok spans ∧ TakesInLine text.toList stop stop' ∧
      List.Forall₂ (KeptAs text.toList) file.structDecls spans ∧
      file.decls.Pairwise (·.span.stop ≤ ·.span.start) ∧ project text .none = .ok out ∧
      out.toList = slice 0 stop' text.toList ++
        spans.flatMap (fun s => slice s.start s.stop text.toList) ∧
      ∀ d ∈ file.structDecls, slice d.leadingStart d.span.stop text.toList <:+: out.toList := by
  obtain ⟨⟨fault, is⟩, ho, hfits, hfile⟩ := exists_outline_of_read h
  obtain ⟨head, hnone, hhead, hdecls⟩ := exists_head hfits hfile
  obtain rfl : fault = none := congrArg Outline.fault hnone
  have hkept := hhead.forall₂_keptAs hdecls
  have hwhole := fun d (hd : d ∈ file.structDecls) => infix_flatMap_of_forall₂ hkept hd
  refine ⟨byteLength head.text, byteLength head.kept, file.structDecls.map (keptSpan text.toList),
    _, ?_, ?_, ?_, hhead.takesInLine, hkept, ?_, ?_, String.toList_ofList, fun d hd => ?_⟩
  · rw [headerEnd_of_ok ho, hhead.headerEnd_eq]
  · rw [headerSpan_of_ok ho, hhead.headerSpanOf_eq]
  · rw [structSpans_of_ok ho, structSpansOf_of_ok hfile]
  · exact (hhead.pairwise_swallows hdecls).imp And.left
  · have htext : slice 0 (byteLength head.kept) text.toList = head.kept := hhead.text_headerSpan
    rw [project, projectWith_of_ok ho, hhead.projectOutline_eq hfile, htext, List.flatMap_map]
    rfl
  · rw [String.toList_ofList]
    exact (hwhole d hd).trans (List.suffix_append _ _).isInfix

/-- A struct below blank lines and a comment, and one that shares its line with another type. -/
def slicedFile : String :=
  "package x // X\n\n\t\n// C\ntype C struct{}\ntype B int; type A struct{} // A"

theorem outline_slicedFile : outline slicedFile = .ok
    ⟨none, [⟨.packageClause, ⟨0, 0⟩, ⟨9, 0⟩, none, []⟩, ⟨.comment, ⟨10, 0⟩, ⟨14, 0⟩, none, []⟩,
      ⟨.comment, ⟨18, 3⟩, ⟨22, 3⟩, none, []⟩,
      ⟨.declaration .type, ⟨23, 4⟩, ⟨38, 4⟩, none, [⟨"C", .struct⟩]⟩,
      ⟨.declaration .type, ⟨39, 5⟩, ⟨49, 5⟩, none, [⟨"B", .other⟩]⟩,
      ⟨.declaration .type, ⟨51, 5⟩, ⟨66, 5⟩, none, [⟨"A", .struct⟩]⟩,
      ⟨.comment, ⟨67, 5⟩, ⟨71, 5⟩, none, []⟩]⟩ :=
  outline_of_plain (by decide +kernel) (by decide +kernel)

theorem project_eq_slices_slicedFile :
    ∃ file out, SourceFile.read slicedFile = .ok file ∧ project slicedFile .none = .ok out ∧
      out = "package x // X\n\n\t\n// C\ntype C struct{}\ntype A struct{} // A" ∧
      List.Forall₂ (KeptAs slicedFile.toList) file.structDecls [⟨15, 39⟩, ⟨51, 71⟩] := by
  have hread : SourceFile.read slicedFile = .ok
      ⟨[⟨.type, ⟨23, 38⟩, some 18, [⟨"C", .struct⟩]⟩, ⟨.type, ⟨39, 49⟩, none, [⟨"B", .other⟩]⟩,
        ⟨.type, ⟨51, 66⟩, none, [⟨"A", .struct⟩]⟩]⟩ := SourceFile.readWith_of_ok outline_slicedFile
  have hheader : headerSpan slicedFile = .ok ⟨0, 15⟩ := by
    rw [headerSpan_of_ok outline_slicedFile]
    decide +kernel
  have hstructs : structSpans slicedFile = .ok [⟨15, 39⟩, ⟨51, 71⟩] := by
    rw [structSpans_of_ok outline_slicedFile]
    decide +kernel
  obtain ⟨stop, stop', spans, out, -, hstop, hspans, -, hkept, -, hout, htext, -⟩ :=
    project_eq_slices hread
  obtain rfl := Except.ok.inj (hstructs.symm.trans hspans)
  obtain rfl : 15 = stop' := congrArg Span.stop (Except.ok.inj (hheader.symm.trans hstop))
  refine ⟨_, out, hread, hout, String.toList_inj.1 (htext.trans ?_), hkept⟩
  decide +kernel

end StructProjection
