import StructProjection.Proofs.Toml.Entries

/-! # The rows that are written

Each row is read as one expression, with the end of its line.
-/

namespace StructProjection.Toml

open Text

inductive Expression.Spells : Expression → Row → Prop
  | pair {w : Written} {form : Form} {name : String} {value : Writing} (hkey : keyName w = .ok name)
      (hvalue : form.Spells value) : Spells (.pair [w] form) (.pair name value)
  | header {element : Bool} {w : Written} {span : Span} {name : String}
      (hkey : keyName w = .ok name) : Spells (.header element [w] span) (.header element name)

section Reading

variable {stop : Nat} {t : Token} {ts : List Token} {cs : List Char} {q : Quoting}
  {chars : List Char} {span : Span}

theorem readPair_of_key {bs es bs' : List Char} {s₁ s₂ s₃ : Span} (h : BeginsValue t) :
    readPair stop (⟨.text q, chars, span⟩ :: ⟨.blank, bs, s₁⟩ :: ⟨.equals, es, s₂⟩ ::
        ⟨.blank, bs', s₃⟩ :: t :: ts) = (do
      let (v, rest) ← readValue stop (2 * (ts.length + 5)) (t :: ts)
      return (.pair [⟨q, chars, span⟩] v, rest)) := by
  cases h <;> rfl

theorem readHeader_of_key {cs' : List Char} {s s' : Span} :
    readHeader stop s (⟨.text q, chars, span⟩ :: ⟨.closeBracket, cs', s'⟩ :: ts) =
      .ok (.header false [⟨q, chars, span⟩] ⟨s.start, s'.stop⟩, ts) := rfl

theorem readHeader_of_element {a b c : List Char} {s s₁ s₂ s₃ : Span} :
    readHeader stop s (⟨.openBracket, a, s₁⟩ :: ⟨.text q, chars, span⟩ ::
        ⟨.closeBracket, b, s₂⟩ :: ⟨.closeBracket, c, s₃⟩ :: ts) =
      .ok (.header true [⟨q, chars, span⟩] ⟨s.start, s₃.stop⟩, ts) := rfl

/-- The line of a row ends behind it. -/
theorem Lexed.endLine (h : Lexed ('\n' :: cs) ts) :
    ∃ ts', endLine ts = .ok ts' ∧ Lexed cs ts' ∧ ts'.length < ts.length := by
  obtain ⟨span, ts', rfl, h'⟩ := h.mark rfl
  exact ⟨ts', rfl, h', by simp⟩

theorem readExpression_of_lexed {row : Row} (h : Lexed (row.chars ++ cs) ts) :
    ∃ e ts', readExpression stop ts = .ok (e, ts') ∧ e.Spells row ∧ Lexed ('\n' :: cs) ts' ∧
      ts'.length < ts.length ∧ skipSpace ts = ts ∧ ts ≠ [] := by
  cases row with
  | pair key w =>
    simp only [Row.chars, List.append_assoc] at h
    obtain ⟨q, chars, span, ts₁, rfl, h₁, hkey⟩ := Lexed.key h (by rintro c ⟨⟩; rfl)
    obtain ⟨s₁, s₂, s₃, ts₂, rfl, h₂⟩ := Lexed.assignment h₁ (not_isBlankChar_chars w _)
    have hcloses : Closes ('\n' :: cs) := ⟨'\n', cs, rfl, by simp⟩
    obtain ⟨t, ts', rfl, hbegins⟩ := Lexed.beginsValue h₂ hcloses
    obtain ⟨form, ts₃, hform, hspells, h₃, hlt⟩ :=
      readValue_of_lexed w (2 * (ts'.length + 5)) hcloses h₂ (by rw [List.length_cons]; omega)
    refine ⟨.pair [⟨q, chars, span⟩] form, ts₃, ?_, .pair hkey hspells, h₃, ?_, rfl, by simp⟩
    · rw [readExpression.eq_def]
      dsimp only
      rw [readPair_of_key hbegins, hform]
      rfl
    · simp only [List.length_cons] at hlt ⊢
      omega
  | header element key =>
    cases element with
    | false =>
      rw [Row.chars, List.append_assoc] at h
      obtain ⟨s₁, ts₁, rfl, h₁⟩ := h.mark rfl
      obtain ⟨q, chars, span, ts₂, rfl, h₂, hkey⟩ := h₁.key (by rintro c ⟨⟩; rfl)
      obtain ⟨s₂, ts₃, rfl, h₃⟩ := h₂.mark rfl
      exact ⟨_, ts₃, readHeader_of_key, .header hkey, h₃, by simp; omega, rfl, by simp⟩
    | true =>
      rw [Row.chars, List.append_assoc] at h
      obtain ⟨s₁, ts₁, rfl, h₁⟩ := h.mark rfl
      obtain ⟨s₂, ts₂, rfl, h₂⟩ := h₁.mark rfl
      obtain ⟨q, chars, span, ts₃, rfl, h₃, hkey⟩ := h₂.key (by rintro c ⟨⟩; rfl)
      obtain ⟨s₃, ts₄, rfl, h₄⟩ := h₃.mark rfl
      obtain ⟨s₄, ts₅, rfl, h₅⟩ := h₄.mark rfl
      exact ⟨_, ts₅, readHeader_of_element (a := ['[']), .header hkey, h₅, by simp; omega, rfl,
        by simp⟩

/-- Rows are read one after the other. -/
theorem readExpressions_of_lexed {rows : List Row} {fuel : Nat} (h : Lexed (writeRows rows) ts)
    (hfuel : ts.length < fuel) :
    ∃ es, readExpressions stop fuel ts = .ok es ∧ List.Forall₂ Expression.Spells es rows := by
  induction rows generalizing ts fuel with
  | nil =>
    obtain rfl := Lexed.nil h
    cases fuel with
    | zero => exact ⟨[], rfl, .nil⟩
    | succ fuel => exact ⟨[], rfl, .nil⟩
  | cons row rows ih =>
    rw [writeRows, List.flatMap_cons] at h
    obtain ⟨e, ts₁, he, hspells, h₁, hlt₁, hskip, hne⟩ := @readExpression_of_lexed stop _ _ row h
    obtain ⟨ts₂, hend, h₂, hlt₂⟩ := h₁.endLine
    obtain ⟨fuel, rfl⟩ : ∃ n, fuel = n + 1 := ⟨fuel - 1, by omega⟩
    obtain ⟨es, hes, hall⟩ := @ih ts₂ fuel h₂ (by omega)
    refine ⟨e :: es, ?_, .cons hspells hall⟩
    rw [readExpressions, hskip]
    cases ts with
    | nil => exact absurd rfl hne
    | cons t ts =>
      dsimp only
      rw [he]
      dsimp only [bind, Except.bind]
      rw [hend]
      dsimp only
      rw [hes]
      rfl

end Reading

/-! ## The whole text -/

theorem tidy_separator (first : Bool) : Tidy (separator first) := by
  cases first <;> decide

theorem tidy_assignment : Tidy [' ', '=', ' '] := by decide

mutual

theorem tidy_chars : (w : Writing) → Tidy w.chars
  | .word w => tidy_of_forall w.plain fun c hc => (plain_of_isControl hc).2.1
  | .string s => tidy_writeString s
  | .array ws => by
    have hopen : Tidy ['['] := by decide
    have hclose : Tidy [']'] := by decide
    exact (hopen.append (tidy_itemChars ws)).append hclose
  | .table ps => by
    have hopen : Tidy ['\x7b'] := by decide
    have hclose : Tidy ['\x7d'] := by decide
    exact (hopen.append (tidy_pairChars ps)).append hclose

theorem tidy_itemChars : (ws : List Writing) → {first : Bool} → Tidy (itemChars first ws)
  | [], _ => List.forall_mem_nil _
  | w :: ws, first => by
    rw [itemChars]
    exact ((tidy_separator first).append (tidy_chars w)).append (tidy_itemChars ws)

theorem tidy_pairChars : (ps : List (String × Writing)) → {first : Bool} →
    Tidy (pairChars first ps)
  | [], _ => List.forall_mem_nil _
  | (key, w) :: ps, first => by
    rw [pairChars]
    exact ((((tidy_separator first).append (tidy_writeKey key)).append tidy_assignment).append
      (tidy_chars w)).append (tidy_pairChars ps)

end

theorem tidy_row (row : Row) : Tidy row.chars := by
  have hline : Tidy ['\n'] := by decide
  cases row with
  | pair key w =>
    exact (((tidy_writeKey key).append tidy_assignment).append (tidy_chars w)).append hline
  | header element key =>
    have hopen : Tidy ['['] := by decide
    have hclose : Tidy [']'] := by decide
    cases element with
    | false => exact (hopen.append (tidy_writeKey key)).append (hclose.append hline)
    | true =>
      exact ((hopen.append hopen).append (tidy_writeKey key)).append
        (hclose.append (hclose.append hline))

theorem tidy_writeRows (rows : List Row) : Tidy (writeRows rows) := by
  intro c hc
  obtain ⟨row, -, hc⟩ := List.mem_flatMap.1 hc
  exact tidy_row row c hc

/-- Nothing that is written begins with a byte-order mark. -/
theorem ne_mark_of_mem_head? (rows : List Row) : ∀ c ∈ (writeRows rows).head?, c ≠ '\ufeff' := by
  cases rows with
  | nil => simp [writeRows]
  | cons row rows =>
    rw [writeRows, List.flatMap_cons]
    rintro c hc rfl
    cases row with
    | pair key w =>
      obtain ⟨d, rest, heq, hd⟩ := exists_writeKey key
      rw [Row.chars, heq] at hc
      obtain rfl := Option.some.inj hc
      rcases hd with hd | hd <;> cases hd
    | header element key => cases element <;> cases hc

theorem lexed_tokensOf {text : List Char} (h : ∀ c ∈ text.head?, c ≠ '\ufeff') :
    Lexed text (tokensOf text) := by
  refine ⟨0, ?_⟩
  unfold tokensOf
  split
  · exact absurd rfl (h _ rfl)
  · rfl

/-- A document is made from the expressions of its rows. -/
theorem readDocument_writeRows (rows : List Row) : ∃ es, List.Forall₂ Expression.Spells es rows ∧
    readDocument (writeRows rows) = es.foldlM Draft.add ⟨[], none, []⟩ >>= Draft.close := by
  have hlexed := lexed_tokensOf (ne_mark_of_mem_head? rows)
  obtain ⟨es, hes, hspells⟩ := @readExpressions_of_lexed (byteLength (writeRows rows)) _ rows _
    hlexed (Nat.lt_succ_self _)
  refine ⟨es, hspells, ?_⟩
  rw [readDocument, hes, tokenFault_eq_none hlexed (tidy_writeRows rows)]
  rfl

end StructProjection.Toml
