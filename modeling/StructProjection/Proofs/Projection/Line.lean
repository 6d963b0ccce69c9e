import StructProjection.Projection
import StructProjection.Proofs.Go.Layout

/-! # Lines and gaps

What a span takes in behind its last construct depends only on the text behind it, and what it takes
in above its first only on the text before.
-/

namespace StructProjection

open Text Go

theorem isSpace_of_isGap {c : Char} (h : isGap c) : Outline.isSpace c := by
  simp only [isGap, Bool.or_eq_true, decide_eq_true_eq] at h
  rcases h with ((rfl | rfl) | rfl) | rfl <;> decide

/-! ## The rest of a line -/

theorem exists_restOfLine (cs : List Char) :
    ∃ line stop, restOfLine cs = line ++ stop ∧ '\n' ∉ line ∧
      (stop = ['\n'] ∨ stop = [] ∧ cs = line) := by
  refine ⟨_, _, rfl, fun h => by simpa using List.mem_takeWhile_imp h, ?_⟩
  cases h : cs.dropWhile (· ≠ '\n') with
  | nil =>
    have := List.takeWhile_append_dropWhile (p := (· ≠ '\n')) (l := cs)
    exact .inr ⟨rfl, by rw [h, List.append_nil] at this; exact this.symm⟩
  | cons c rest =>
    have hc : c = '\n' := by
      have hnot := List.head?_dropWhile_not (· ≠ '\n') cs
      rw [h] at hnot
      simpa using hnot
    exact .inl (by simp [hc])

theorem restOfLine_prefix (cs : List Char) : restOfLine cs <+: cs := by
  refine ⟨(cs.dropWhile (· ≠ '\n')).drop 1, ?_⟩
  rw [restOfLine, List.append_assoc, List.take_append_drop, List.takeWhile_append_dropWhile]

theorem restOfLine_of_line {line : List Char} (h : '\n' ∉ line) (rest : List Char) :
    restOfLine (line ++ '\n' :: rest) = line ++ ['\n'] := by
  have hpos : ∀ c ∈ line, decide (c ≠ '\n') = true := by
    intro c hc
    simpa using fun hc' : c = '\n' => h (hc' ▸ hc)
  rw [restOfLine, List.takeWhile_append_of_pos hpos, List.dropWhile_append_of_pos hpos]
  simp

theorem restOfLine_append {cs : List Char} (h : '\n' ∈ cs) (rest : List Char) :
    restOfLine (cs ++ rest) = restOfLine cs := by
  obtain ⟨line, more, rfl, hline⟩ := List.eq_append_cons_of_mem h
  rw [List.append_assoc, List.cons_append, restOfLine_of_line hline, restOfLine_of_line hline]

@[simp] theorem restOfLine_restOfLine (cs : List Char) :
    restOfLine (restOfLine cs) = restOfLine cs := by
  obtain ⟨line, stop, heq, hline, rfl | ⟨rfl, rfl⟩⟩ := exists_restOfLine cs
  · rw [heq, restOfLine_of_line hline]
  · rw [heq, List.append_nil, heq, List.append_nil]

theorem getLast?_of_restOfLine {tail : List Char} (h : restOfLine tail = tail) (hnl : '\n' ∈ tail) :
    tail.getLast? = some '\n' := by
  obtain ⟨line, stop, heq, hline, rfl | ⟨rfl, -⟩⟩ := exists_restOfLine tail
  · rw [← h, heq, List.getLast?_concat]
  · rw [← h, heq, List.append_nil] at hnl
    exact absurd hnl hline

/-- A line feed of a line is its last character. -/
theorem newline_not_mem_of_restOfLine {as bs : List Char} (h : restOfLine (as ++ bs) = as ++ bs)
    (has : as.getLast? ≠ some '\n') : '\n' ∉ as := by
  intro hnl
  have hrest : restOfLine as = as ++ bs := by rw [← restOfLine_append hnl bs, h]
  obtain ⟨more, hmore⟩ := restOfLine_prefix as
  have hnil : bs ++ more = [] := by
    rw [hrest, List.append_assoc] at hmore
    simpa using hmore
  rw [(List.append_eq_nil_iff.1 hnil).1, List.append_nil] at hrest
  exact has (getLast?_of_restOfLine hrest hnl)

/-- What is taken in behind a span: the rest of its line, if only blanks or a comment are on it. -/
def lineTail (behind : List Char) : List Char :=
  let text := trim (restOfLine behind)
  if text = [] || isTrailingComment text then restOfLine behind else []

theorem lineTail_prefix (behind : List Char) : lineTail behind <+: behind := by
  simp only [lineTail]
  split
  · exact restOfLine_prefix behind
  · exact List.nil_prefix

theorem restOfLine_lineTail (behind : List Char) :
    restOfLine (lineTail behind) = lineTail behind := by
  simp only [lineTail]
  split
  · exact restOfLine_restOfLine behind
  · rfl

/-- What is taken in does not go beyond a line feed. -/
theorem byteLength_lineTail_le {cs : List Char} (h : '\n' ∈ cs) (rest : List Char) :
    byteLength (lineTail (cs ++ rest)) ≤ byteLength cs := by
  simp only [lineTail, restOfLine_append h]
  split
  · obtain ⟨more, hmore⟩ := restOfLine_prefix cs
    have := congrArg byteLength hmore
    rw [byteLength_append] at this
    omega
  · exact Nat.zero_le _

theorem lineTail_eq_of_byteLength {behind : List Char}
    (h : byteLength (lineTail behind) = byteLength (restOfLine behind)) :
    lineTail behind = restOfLine behind := by
  simp only [lineTail] at h ⊢
  split
  · rfl
  · next hcond =>
    rw [if_neg hcond] at h
    by_contra hne
    exact absurd (byteLength_pos (Ne.symm hne)) (by rw [← h]; exact Nat.lt_irrefl _)

theorem extendOverLine_append (pre behind : List Char) :
    extendOverLine (pre ++ behind) (byteLength pre) = byteLength (pre ++ lineTail behind) := by
  rw [extendOverLine, dropBytes_byteLength_append, lineTail]
  split <;> simp

/-- A text that is one line, and is taken in as the rest of a line. -/
structure IsTail (tail : List Char) : Prop where
  line : restOfLine tail = tail
  taken : trim tail = [] ∨ isTrailingComment (trim tail)

/-- The rest of a line is taken in whatever comes behind it. -/
theorem IsTail.lineTail_append {tail : List Char} (h : IsTail tail) {rest : List Char}
    (hrest : '\n' ∈ tail ∨ rest = []) : lineTail (tail ++ rest) = tail := by
  have hline : restOfLine (tail ++ rest) = tail := by
    rcases hrest with hnl | rfl
    · rw [restOfLine_append hnl, h.line]
    · rw [List.append_nil, h.line]
  rw [lineTail, hline, if_pos]
  rcases h.taken with ht | ht <;> simp [ht]

/-! ## The lines above -/

/-- The lines above a span that are taken in: the blank ones right above it. -/
def gapLines (above : List Char) : List Char :=
  ((takeEndWhile isGap above).dropWhile (· ≠ '\n')).tail

theorem gapStart_append (pre behind : List Char) :
    gapStart (pre ++ behind) (byteLength pre) = byteLength pre - byteLength (gapLines pre) := by
  rw [gapStart, takeBytes_byteLength_append, gapLines]
  split
  · next heq =>
    rw [heq]
    rfl
  · next lines heq =>
    rw [heq]
    rfl

theorem gapLines_suffix (above : List Char) : gapLines above <:+ above := by
  refine (List.tail_suffix _).trans ((List.dropWhile_suffix _).trans ?_)
  exact ⟨_, dropEndWhile_append_takeEndWhile isGap above⟩

theorem isGap_of_mem_gapLines {above : List Char} {c : Char} (h : c ∈ gapLines above) : isGap c := by
  have hmem : c ∈ takeEndWhile isGap above :=
    (List.dropWhile_suffix _).subset ((List.tail_suffix _).subset h)
  rw [takeEndWhile, List.mem_reverse] at hmem
  exact List.mem_takeWhile_imp hmem

private theorem newline_not_mem_takeWhile {cs : List Char}
    (h : (cs.takeWhile (· ≠ '\n')).any (!Outline.isSpace ·)) : '\n' ∉ cs.takeWhile isGap := by
  induction cs with
  | nil => simp
  | cons c cs ih =>
    by_cases hc : c = '\n'
    · simp [hc] at h
    · by_cases hg : isGap c
      · have hs := isSpace_of_isGap hg
        rw [List.takeWhile_cons_of_pos (by simpa using hc), List.any_cons, hs] at h
        rw [List.takeWhile_cons_of_pos hg]
        simpa [Ne.symm hc] using ih h
      · rw [List.takeWhile_cons_of_neg hg]
        simp

theorem newline_not_mem_of_endsInLine {cs : List Char} (h : Outline.endsInLine cs) :
    '\n' ∉ takeEndWhile isGap cs := by
  rw [takeEndWhile, List.mem_reverse]
  refine newline_not_mem_takeWhile ?_
  simpa [Outline.endsInLine, takeEndWhile] using h

private theorem dropWhile_of_not_mem {cs rest : List Char} (h : '\n' ∉ cs) :
    (cs ++ rest).dropWhile (· ≠ '\n') = rest.dropWhile (· ≠ '\n') := by
  refine List.dropWhile_append_of_pos fun c hc => ?_
  simpa using fun hc' : c = '\n' => h (hc' ▸ hc)

/-- No blank line is above the end of a text that ends within a line, or with the end of a line that is
not blank. -/
theorem gapLines_of_endsInLine {cs stop : List Char} (h : Outline.endsInLine cs)
    (hstop : stop = ['\n'] ∨ stop = []) : gapLines (cs ++ stop) = [] := by
  have hnl := newline_not_mem_of_endsInLine h
  rcases hstop with rfl | rfl
  · rw [gapLines, takeEndWhile_append_of_all (by simp [isGap]), dropWhile_of_not_mem hnl]
    rfl
  · have := @dropWhile_of_not_mem _ [] hnl
    rw [List.append_nil] at this
    rw [List.append_nil, gapLines, this]
    rfl

theorem gapLines_of_tail {cs tail : List Char} (h : Outline.endsInLine cs)
    (htail : restOfLine tail = tail) : gapLines (cs ++ tail) = [] := by
  obtain ⟨line, stop, heq, hline, hstop⟩ := exists_restOfLine tail
  rw [← htail, heq, ← List.append_assoc]
  exact gapLines_of_endsInLine (endsInLine_append_line h hline) (hstop.imp_right And.left)

section Gaps

variable {pre : List Char}

private theorem eq_nil_of_tail_dropWhile {run : List Char} {c : Char}
    (h : ((c :: run).dropWhile (· ≠ '\n')).tail = []) :
    c = '\n' ∧ run = [] ∨ c ≠ '\n' ∧ (run.dropWhile (· ≠ '\n')).tail = [] := by
  by_cases hc : c = '\n'
  · exact .inl ⟨hc, by simpa [hc] using h⟩
  · exact .inr ⟨hc, by simpa [List.dropWhile_cons, hc] using h⟩

/-- Where a text does not end with a blank line, no line above what follows reaches into it. -/
theorem gapLines_append_suffix (h : gapLines pre = []) (gap : List Char) :
    gapLines (pre ++ gap) <:+ gap := by
  by_cases hgap : ∀ c ∈ gap, isGap c
  · rw [gapLines, takeEndWhile_append_of_all hgap]
    rw [gapLines] at h
    generalize takeEndWhile isGap pre = run at h
    induction run with
    | nil => exact (List.tail_suffix _).trans (List.dropWhile_suffix _)
    | cons c run ih =>
      rcases eq_nil_of_tail_dropWhile h with ⟨rfl, rfl⟩ | ⟨hc, hrun⟩
      · simp
      · simpa [List.dropWhile_cons, hc] using ih hrun
  · rw [gapLines, takeEndWhile_append_of_not_all hgap]
    exact gapLines_suffix gap

/-- Blank lines behind the end of a line are the lines above what follows. -/
theorem gapLines_append_gap (h : gapLines pre = []) (hend : pre.getLast? = some '\n')
    {gap : List Char} (hgap : ∀ c ∈ gap, isGap c) : gapLines (pre ++ gap) = gap := by
  obtain ⟨pre, rfl⟩ := List.getLast?_eq_some_iff.1 hend
  have hnl : takeEndWhile isGap (pre ++ ['\n']) = takeEndWhile isGap pre ++ ['\n'] :=
    takeEndWhile_append_of_all (by simp [isGap])
  rw [gapLines, hnl] at h
  rw [gapLines, takeEndWhile_append_of_all hgap, hnl]
  generalize takeEndWhile isGap pre = run at h
  induction run with
  | nil => simp
  | cons c run ih =>
    rcases eq_nil_of_tail_dropWhile h with ⟨-, hrun⟩ | ⟨hc, hrun⟩
    · simp at hrun
    · simpa [List.dropWhile_cons, hc] using ih hrun

end Gaps

end StructProjection
