import StructProjection.Proofs.Projection.Slices

/-! # Formatted files

In a formatted file of structs the header and each declaration end their lines, up to a comment, and only
blank lines stand between one of these lines and what comes next. Such a file is its own projection: what
is taken in behind a construct and what is taken in above the next one meet.
-/

namespace StructProjection

open Text Go

/-- A line with nothing on it but blanks and at most one comment, which ends on it. -/
def IsCommentLine (line : List Char) : Prop :=
  ∃ before comment after, line = before ++ (comment ++ after) ∧ before.all isBlank ∧
    (comment = [] ∨ Outline.isCommentText comment) ∧ after.all isBlank

/-- Where the line that an offset lies on ends, with its line feed. -/
def lineEnd (source : List Char) (n : Nat) : Nat := n + byteLength (restOfLine (dropBytes n source))

/-- Only spaces and ends of lines stand between two offsets. -/
structure BlankBetween (source : List Char) (start stop : Nat) : Prop where
  le : start ≤ stop
  gap : (slice start stop source).all isGap

/-- From the end of a construct on a text has the declarations of a formatted file, all of structs. -/
inductive Formatted (source : List Char) : (stop : Nat) → List Decl → Prop
  | last {stop : Nat} (line : IsCommentLine (restOfLine (dropBytes stop source)))
      (ends : lineEnd source stop = byteLength source) : Formatted source stop []
  | next {stop : Nat} {d : Decl} {ds : List Decl}
      (line : IsCommentLine (restOfLine (dropBytes stop source))) (hasStruct : d.hasStruct)
      (blank : BlankBetween source (lineEnd source stop) d.leadingStart)
      (rest : Formatted source d.span.stop ds) : Formatted source stop (d :: ds)

section Lines

variable {p : Char → Bool} {c : Char} {cs line comment : List Char}

private theorem dropEndWhile_cons (h : p c = false) (cs : List Char) :
    dropEndWhile p (c :: cs) = c :: dropEndWhile p cs := by
  simp only [dropEndWhile, List.reverse_cons, List.dropWhile_append]
  split <;> simp_all

private theorem dropEndWhile_append_of_all {after : List Char} (h : ∀ c ∈ after, p c) :
    dropEndWhile p (cs ++ after) = dropEndWhile p cs := by
  rw [dropEndWhile, List.reverse_append, List.dropWhile_append_of_pos (by simpa using h), dropEndWhile]

private theorem dropEndWhile_concat (h : p c = false) (cs : List Char) :
    dropEndWhile p (cs ++ [c]) = cs ++ [c] := by
  simp [dropEndWhile, h]

private theorem suffix_of_closesAtEnd (h : Outline.closesAtEnd cs) : ['*', '/'] <:+ cs := by
  fun_induction Outline.closesAtEnd cs with
  | case1 => simp at h
  | case2 cs =>
    obtain rfl : cs = [] := by simpa using h
    exact List.suffix_rfl
  | case3 c cs _ ih => exact (ih h).trans (List.suffix_cons c cs)

/-- A comment without the blanks at its end is taken in. -/
private theorem isTrailingComment_of_isCommentText (h : Outline.isCommentText comment) :
    isTrailingComment (dropEndWhile isBlank comment) := by
  unfold Outline.isCommentText at h
  split at h
  · next rest =>
    rw [dropEndWhile_cons (by decide), dropEndWhile_cons (by decide)]
    rfl
  · next rest =>
    obtain ⟨inner, rfl⟩ := suffix_of_closesAtEnd h
    have hend : dropEndWhile isBlank ('/' :: '*' :: (inner ++ ['*', '/'])) =
        '/' :: '*' :: (inner ++ ['*', '/']) := by
      have := dropEndWhile_concat (p := isBlank) (c := '/') (by decide) ('/' :: '*' :: inner ++ ['*'])
      simpa using this
    rw [hend]
    exact List.isSuffixOf_iff_suffix.2 ⟨'/' :: '*' :: inner, rfl⟩
  · simp at h

theorem IsCommentLine.taken (h : IsCommentLine line) :
    trim line = [] ∨ isTrailingComment (trim line) := by
  obtain ⟨before, comment, after, rfl, hbefore, hcomment, hafter⟩ := h
  have hafter := List.all_eq_true.1 hafter
  rw [trim, dropBlanks, List.dropWhile_append_of_pos (List.all_eq_true.1 hbefore)]
  rcases hcomment with rfl | hcomment
  · rw [List.nil_append, List.dropWhile_eq_nil_iff.2 hafter]
    exact .inl rfl
  · have hhead : (comment ++ after).dropWhile isBlank = comment ++ after := by
      unfold Outline.isCommentText at hcomment
      split at hcomment
      · exact List.dropWhile_cons_of_neg (by decide)
      · exact List.dropWhile_cons_of_neg (by decide)
      · simp at hcomment
    rw [hhead, dropEndWhile_append_of_all hafter]
    exact .inr (isTrailingComment_of_isCommentText hcomment)

theorem IsCommentLine.lineTail_eq {behind : List Char} (h : IsCommentLine (restOfLine behind)) :
    lineTail behind = restOfLine behind := by
  rw [lineTail, if_pos]
  rcases h.taken with h | h <;> simp [h]

end Lines

section Seams

variable {source as behind : List Char} {is : List Item} {d : Decl} {ds : List Decl} {s : Site}

theorem lineEnd_append (as behind : List Char) :
    lineEnd (as ++ behind) (byteLength as) = byteLength (as ++ restOfLine behind) := by
  rw [lineEnd, dropBytes_byteLength_append, byteLength_append]

/-- The blank lines above a declaration begin where the line above them ends. -/
theorem Site.Holds.pre_eq (h : s.Holds source is d) (hsource : source = as ++ behind)
    (hend : Outline.endsInLine as)
    (hblank : BlankBetween source (lineEnd source (byteLength as)) d.leadingStart) :
    s.pre = as ++ restOfLine behind := by
  obtain ⟨rest, hrest⟩ := restOfLine_prefix behind
  have hcut : as ++ restOfLine behind ++ rest = s.pre ++ s.gap ++ (s.text ++ s.behind) := by
    rw [List.append_assoc, hrest, ← hsource, h.source_eq, List.append_assoc]
  have hline : lineEnd source (byteLength as) = byteLength (as ++ restOfLine behind) := by
    rw [hsource, lineEnd_append]
  obtain ⟨hle, hgap⟩ := hblank
  rw [hline, h.leadingStart_eq h.decl_eq] at hle hgap
  obtain ⟨gap, habove, hbehind⟩ := exists_append_of_byteLength_le hcut hle
  have hbetween : source = as ++ restOfLine behind ++ (gap ++ (s.text ++ s.behind)) := by
    rw [← hbehind, List.append_assoc, hrest, hsource]
  rw [habove, hbetween, slice_between] at hgap
  -- The line ends with a line feed, since the declaration comes behind it.
  have hnewline : '\n' ∈ restOfLine behind := by
    obtain ⟨line, stop, hline, -, rfl | ⟨rfl, rfl⟩⟩ := exists_restOfLine behind
    · simp [hline]
    · obtain ⟨doc, text, htext, -, hne⟩ := h.exists_text
      have hnil : rest = [] := by simpa [hline] using hrest
      rw [hnil, htext] at hbehind
      simp [hne] at hbehind
  have hlast : (as ++ restOfLine behind).getLast? = some '\n' := by
    rw [List.getLast?_append, getLast?_of_restOfLine (restOfLine_restOfLine behind) hnewline]
    rfl
  have hlines := gapLines_append_gap (gapLines_of_tail hend (restOfLine_restOfLine behind)) hlast
    (List.all_eq_true.1 hgap)
  rw [← habove, h.gap_eq] at hlines
  rw [hlines] at habove
  exact List.append_cancel_right habove

/-- What is kept from the end of a construct on is all that there is. -/
theorem flatMap_of_formatted (h : Formatted source (byteLength as) ds) (hsource : source = as ++ behind)
    (hend : Outline.endsInLine as) (hds : ∀ d ∈ ds, ∃ s, Site.Holds s source is d) :
    lineTail behind ++ ds.flatMap (fun d => (keptSpan source d).text source) = behind := by
  -- The text is cut behind each declaration in turn, and the line of that is taken in again.
  induction ds generalizing as behind with
  | nil =>
    obtain @⟨_, hline, hstop⟩ := h
    rw [hsource, dropBytes_byteLength_append] at hline
    rw [hsource, lineEnd_append, byteLength_append, byteLength_append] at hstop
    obtain ⟨rest, hrest⟩ := restOfLine_prefix behind
    rw [hline.lineTail_eq, List.flatMap_nil, List.append_nil]
    exact (append_inj_of_byteLength (hrest.trans (List.append_nil behind).symm) (by omega)).1
  | cons d ds ih =>
    cases h with
    | next hline hstruct hblank hrest =>
      obtain ⟨s, hs⟩ := hds d List.mem_cons_self
      have hpre := hs.pre_eq hsource hend hblank
      rw [hsource, dropBytes_byteLength_append] at hline
      rw [hs.span_stop_eq hs.decl_eq] at hrest
      have hcut : source = s.pre ++ (s.gap ++ s.text) ++ s.behind := by
        rw [hs.source_eq, List.append_assoc, List.append_assoc]
      have hmore := ih hrest hcut (endsInLine_append hs.ends) fun d hd =>
        hds d (List.mem_cons_of_mem _ hd)
      have hwhole : as ++ (restOfLine behind ++ (s.gap ++ (s.text ++ s.behind))) = as ++ behind := by
        rw [← hsource, ← List.append_assoc, ← hpre, ← hs.source_eq]
      rw [hline.lineTail_eq, List.flatMap_cons, hs.text_keptSpan, Site.kept, Stretch.kept,
        Site.stretch, List.append_assoc, List.append_assoc, hmore, List.append_cancel_left hwhole]

theorem forall_hasStruct_of_formatted {n : Nat} (h : Formatted source n ds) :
    ∀ d ∈ ds, d.hasStruct := by
  induction h with
  | last => simp
  | next _ hstruct _ _ ih => exact List.forall_mem_cons.2 ⟨hstruct, ih⟩

end Seams

/-- A formatted file of structs is its own projection, unless a literal is removed from it. -/
theorem project_of_formatted {text : String} {file : SourceFile} {stop : Nat} {strip : StripRules}
    (h : SourceFile.read text = .ok file) (hstop : headerEnd text = .ok stop)
    (hformatted : Formatted text.toList stop file.decls)
    (hstrip : ∀ literal ∈ strip.literals, ¬ literal.toList <:+: text.toList) :
    project text strip = .ok text := by
  obtain ⟨⟨fault, is⟩, ho, hfits, hfile⟩ := exists_outline_of_read h
  obtain ⟨head, hnone, hhead, hdecls⟩ := exists_head hfits hfile
  obtain rfl : fault = none := congrArg Outline.fault hnone
  obtain rfl : byteLength head.text = stop := by
    rw [headerEnd_of_ok ho, hhead.headerEnd_eq] at hstop
    exact Except.ok.inj hstop
  have hstructs : file.structDecls = file.decls :=
    List.filter_eq_self.2 (forall_hasStruct_of_formatted hformatted)
  have hbehind := flatMap_of_formatted hformatted hhead.source_eq hhead.ends fun d hd =>
    ((hhead.exists_site (hdecls ▸ hd)).2).imp fun _ => And.left
  have hkept : head.kept ++ file.decls.flatMap (fun d => (keptSpan text.toList d).text text.toList) =
      text.toList := by
    rw [Stretch.kept, List.append_assoc, hbehind, ← hhead.source_eq]
  rw [project, projectWith_of_ok ho,
    projectOutline_of_ok hhead.headerSpanOf_eq (structSpansOf_of_ok hfile), hhead.text_headerSpan,
    List.flatMap_map, hstructs, hkept, String.ofList_toList, StripRules.apply_of_not_infix hstrip]

end StructProjection
