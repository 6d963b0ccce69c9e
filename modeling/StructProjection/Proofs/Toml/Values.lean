import Mathlib.Data.List.Forall2
import StructProjection.Proofs.Toml.Tokens

/-! # The values that are written

What is written as a value is read as one form, and what follows is left.
-/

namespace StructProjection.Toml

open Text

/-- What follows a value. -/
def Closes (cs : List Char) : Prop := ∃ c rest, cs = c :: rest ∧ c ∈ [',', ']', '\x7d', '\n']

mutual

/-- A form is how the reader sees what is written. -/
inductive Form.Spells : Form → Writing → Prop
  | word {written : Written} {w : Word} (hbare : written.quoting = .bare) :
      Form.Spells (.text written) (.word w)
  | string {span : Span} {s : String} :
      Form.Spells (.text ⟨.basic, writeString s, span⟩) (.string s)
  | array {span : Span} {forms : List Form} {ws : List Writing}
      (hitems : List.Forall₂ Form.Spells forms ws) : Form.Spells (.array span forms) (.array ws)
  | table {span : Span} {pairs : List (KeyPath × Form)} {ps : List (String × Writing)}
      (hpairs : List.Forall₂ PairSpells pairs ps) : Form.Spells (.table span pairs) (.table ps)

inductive PairSpells : KeyPath × Form → String × Writing → Prop
  | mk {w : Written} {form : Form} {name : String} {value : Writing} (hkey : keyName w = .ok name)
      (hvalue : form.Spells value) : PairSpells ([w], form) (name, value)

end

/-- A token with which a value can begin. -/
inductive BeginsValue : Token → Prop
  | bracket {chars : List Char} {span : Span} : BeginsValue ⟨.openBracket, chars, span⟩
  | brace {chars : List Char} {span : Span} : BeginsValue ⟨.openBrace, chars, span⟩
  | dot {chars : List Char} {span : Span} : BeginsValue ⟨.dot, chars, span⟩
  | text {q : Quoting} {chars : List Char} {span : Span} : BeginsValue ⟨.text q, chars, span⟩

section Tokens

variable {c : Char} {as cs rest : List Char} {t : Token} {ts : List Token}

theorem breaks_of_closes (h : Closes cs) : Breaks cs := by
  obtain ⟨c, rest, rfl, hc⟩ := h
  rintro d hd
  obtain rfl := Option.some.inj hd
  simp only [List.mem_cons, List.not_mem_nil, or_false] at hc
  rcases hc with rfl | rfl | rfl | rfl <;> rfl

theorem Lexed.closes (h : Lexed cs ts) (hcs : Closes cs) : ∃ t ts', ts = t :: ts' ∧
    (t.kind = .comma ∨ t.kind = .closeBracket ∨ t.kind = .closeBrace ∨ t.kind = .lineEnd) := by
  obtain ⟨c, rest, rfl, hc⟩ := hcs
  simp only [List.mem_cons, List.not_mem_nil, or_false] at hc
  rcases hc with rfl | rfl | rfl | rfl
  all_goals
    obtain ⟨span, ts', rfl, -⟩ := h.mark rfl
    exact ⟨_, _, rfl, by simp⟩

theorem of_isWordChar (h : isWordChar c) :
    c = '.' ∨ endsBare c = false ∧ c ≠ '"' ∧ c ≠ '\'' := by
  simp only [isWordChar, List.mem_cons, List.not_mem_nil, or_false, Bool.or_eq_true,
    decide_eq_true_eq] at h
  rcases h with h | rfl | rfl | rfl | rfl | rfl
  · exact .inr (endsBare_of_isBareKeyChar (by simp [isBareKeyChar, h]))
  · exact .inr (by decide)
  · exact .inr (by decide)
  · exact .inr (by decide)
  · exact .inr (by decide)
  · exact .inl rfl

/-- A word is taken apart into bare texts and points. -/
theorem Lexed.word (h : Lexed (c :: (as ++ cs)) ts) (hc : isWordChar c)
    (has : ∀ a ∈ as, isWordChar a) (hcs : Breaks cs) :
    ∃ kind chars span ts' as', ts = ⟨kind, chars, span⟩ :: ts' ∧
      (kind = .dot ∨ kind = .text .bare) ∧ (∀ a ∈ as', isWordChar a) ∧ Lexed (as' ++ cs) ts' := by
  rcases of_isWordChar hc with rfl | ⟨hends, hquote, hmark⟩
  · obtain ⟨span, ts', rfl, h'⟩ := h.mark rfl
    exact ⟨_, _, span, ts', as, rfl, .inl rfl, has, h'⟩
  · have hcut : as.takeWhile (!endsBare ·) ++ (as.dropWhile (!endsBare ·) ++ cs) = as ++ cs := by
      rw [← List.append_assoc, List.takeWhile_append_dropWhile]
    rw [← hcut] at h
    have hbreaks : Breaks (as.dropWhile (!endsBare ·) ++ cs) := by
      intro d hd
      cases hdrop : as.dropWhile (!endsBare ·) with
      | nil =>
        rw [hdrop] at hd
        exact hcs d hd
      | cons e es =>
        have he := List.head_dropWhile_not (!endsBare ·) (l := as) (by simp [hdrop])
        rw [hdrop] at hd
        obtain rfl : e = d := Option.some.inj hd
        simpa [hdrop] using he
    obtain ⟨span, ts', rfl, h'⟩ := h.bare _ hends hquote hmark
      (fun a ha => by simpa using List.mem_takeWhile_imp ha) hbreaks
    refine ⟨_, _, span, ts', _, rfl, .inr rfl, fun a ha => ?_, h'⟩
    exact has a ((List.dropWhile_suffix _).subset ha)

/-- A bare value is read up to its end. -/
theorem readBare_of_lexed {w : Written} {fuel : Nat} (hw : w.quoting = .bare)
    (has : ∀ a ∈ as, isWordChar a) (hrest : Closes rest) (h : Lexed (as ++ rest) ts)
    (hfuel : ts.length ≤ fuel) :
    ∃ w' ts', readBare w fuel ts = (w', ts') ∧ w'.quoting = .bare ∧ Lexed rest ts' ∧
      ts'.length ≤ ts.length := by
  induction fuel generalizing w as ts with
  | zero =>
    obtain ⟨c, rest, rfl, -⟩ := hrest
    exact absurd (List.eq_nil_of_length_eq_zero (Nat.le_zero.1 hfuel)) (h.ne_nil (by simp))
  | succ fuel ih =>
    cases as with
    | nil =>
      obtain ⟨t, ts', rfl, hkind⟩ := Lexed.closes h hrest
      refine ⟨w, _, ?_, hw, h, le_rfl⟩
      obtain ⟨kind, chars, span⟩ := t
      rcases hkind with rfl | rfl | rfl | rfl <;> rfl
    | cons c as =>
      obtain ⟨hc, has⟩ := List.forall_mem_cons.1 has
      obtain ⟨kind, chars, span, ts', as', rfl, hkind, has', h'⟩ :=
        Lexed.word h hc has (breaks_of_closes hrest)
      rw [List.length_cons] at hfuel
      have hread := @ih as' ts' ⟨.bare, w.chars ++ chars, ⟨w.span.start, span.stop⟩⟩ rfl has' h'
        (by omega)
      obtain ⟨w', ts'', hread, hbare, hrest, hlength⟩ := hread
      refine ⟨w', ts'', ?_, hbare, hrest, by rw [List.length_cons]; omega⟩
      rcases hkind with rfl | rfl
      all_goals exact hread

theorem Lexed.beginsValue {w : Writing} (h : Lexed (w.chars ++ rest) ts) (hrest : Closes rest) :
    ∃ t ts', ts = t :: ts' ∧ BeginsValue t := by
  cases w with
  | word w =>
    obtain ⟨chars, hne, hplain⟩ := w
    cases chars with
    | nil => exact absurd rfl hne
    | cons c as =>
      obtain ⟨hc, has⟩ := List.forall_mem_cons.1 hplain
      obtain ⟨kind, chars, span, ts', as', rfl, hkind, -⟩ :=
        Lexed.word h hc has (breaks_of_closes hrest)
      rcases hkind with rfl | rfl
      · exact ⟨_, _, rfl, .dot⟩
      · exact ⟨_, _, rfl, .text⟩
  | string s =>
    rw [Writing.chars] at h
    obtain ⟨span, ts', rfl, -⟩ := h.string (ne_quote_of_breaks (breaks_of_closes hrest))
    exact ⟨_, _, rfl, .text⟩
  | array ws =>
    rw [Writing.chars] at h
    obtain ⟨span, ts', rfl, -⟩ := h.mark rfl
    exact ⟨_, _, rfl, .bracket⟩
  | table ps =>
    rw [Writing.chars] at h
    obtain ⟨span, ts', rfl, -⟩ := h.mark rfl
    exact ⟨_, _, rfl, .brace⟩

/-- What stands between a key and its value. -/
theorem Lexed.assignment (h : Lexed (' ' :: '=' :: ' ' :: cs) ts)
    (hcs : ∀ c ∈ cs.head?, isBlankChar c = false) :
    ∃ s₁ s₂ s₃ ts', ts = ⟨.blank, [' '], s₁⟩ :: ⟨.equals, ['='], s₂⟩ :: ⟨.blank, [' '], s₃⟩ :: ts' ∧
      Lexed cs ts' := by
  obtain ⟨s₁, ts₁, rfl, h₁⟩ := Lexed.blank h (by simp [isBlankChar])
  obtain ⟨s₂, ts₂, rfl, h₂⟩ := h₁.mark rfl
  obtain ⟨s₃, ts₃, rfl, h₃⟩ := Lexed.blank h₂ hcs
  exact ⟨s₁, s₂, s₃, ts₃, rfl, h₃⟩

theorem not_isBlankChar_of_not_endsBare (h : endsBare c = false) : isBlankChar c = false := by
  simp_all [endsBare, isBlankChar]

theorem not_isBlankChar_chars (w : Writing) (cs : List Char) :
    ∀ c ∈ (w.chars ++ cs).head?, isBlankChar c = false := by
  intro c hc
  cases w with
  | word w =>
    obtain ⟨chars, hne, hplain⟩ := w
    cases chars with
    | nil => exact absurd rfl hne
    | cons d ds =>
      obtain rfl : d = c := Option.some.inj hc
      rcases of_isWordChar (hplain d List.mem_cons_self) with rfl | ⟨hends, -⟩
      · rfl
      · exact not_isBlankChar_of_not_endsBare hends
  | _ =>
    rw [Writing.chars] at hc
    obtain rfl := Option.some.inj hc
    rfl

theorem exists_writeKey (key : String) :
    ∃ c rest, writeKey key = c :: rest ∧ (c = '"' ∨ isBareKeyChar c) := by
  rw [writeKey]
  split
  case isTrue hbare =>
    cases hchars : key.toList with
    | nil => exact absurd (String.toList_eq_nil_iff.1 hchars) hbare.1
    | cons c cs =>
      refine ⟨c, cs, rfl, .inr (List.all_eq_true.1 hbare.2 c ?_)⟩
      rw [hchars]
      exact List.mem_cons_self
  case isFalse => exact ⟨'"', _, rfl, .inl rfl⟩

theorem not_isBlankChar_writeKey (key : String) (cs : List Char) :
    ∀ c ∈ (writeKey key ++ cs).head?, isBlankChar c = false := by
  obtain ⟨d, rest, heq, hd⟩ := exists_writeKey key
  intro c hc
  rw [heq] at hc
  obtain rfl := Option.some.inj hc
  rcases hd with rfl | hd
  · rfl
  · exact not_isBlankChar_of_not_endsBare (endsBare_of_isBareKeyChar hd).1

theorem BeginsValue.skipSpace (h : BeginsValue t) : skipSpace (t :: ts) = t :: ts := by
  cases h <;> rfl

theorem BeginsValue.skipBlanks (h : BeginsValue t) : skipBlanks (t :: ts) = t :: ts := by
  cases h <;> rfl

end Tokens

/-! ## Reading -/

section Reading

variable {stop : Nat} {openSpan : Span} {inner ts : List Token} {t : Token} {cs : List Char}

/-- What may come next behind the first or another thing. -/
def stateOf (first : Bool) : ArrayState := if first then .needsValue else .needsComma

theorem readItems_of_beginsValue {fuel : Nat} (h : BeginsValue t) :
    readItems stop (fuel + 1) openSpan inner .needsValue (t :: ts) = (do
      let (v, rest) ← readValue stop fuel (t :: ts)
      let (vs, close, rest) ← readItems stop fuel openSpan inner .needsComma rest
      return (v :: vs, close, rest)) := by
  rw [readItems, h.skipSpace]
  cases h <;> rfl

theorem readItems_blank {fuel : Nat} {span : Span} {state : ArrayState} {chars : List Char} :
    readItems stop (fuel + 1) openSpan inner state (⟨.blank, chars, span⟩ :: ts) =
      readItems stop (fuel + 1) openSpan inner state ts := by
  rw [readItems, readItems]
  rfl

theorem readItems_comma {fuel : Nat} {span : Span} {chars : List Char} :
    readItems stop (fuel + 1) openSpan inner .needsComma (⟨.comma, chars, span⟩ :: ts) =
      readItems stop fuel openSpan inner .needsValue ts := by
  rw [readItems]
  rfl

/-- The comma before another thing is passed over. -/
theorem exists_of_separator {γ : Type} (read : Bool → Nat → List Token → γ)
    (hcomma : ∀ fuel chars chars' span span' ts, read false (fuel + 2)
      (⟨.comma, chars, span⟩ :: ⟨.blank, chars', span'⟩ :: ts) = read true (fuel + 1) ts)
    {first : Bool} {fuel : Nat} (h : Lexed (separator first ++ cs) ts)
    (hcs : ∀ c ∈ cs.head?, isBlankChar c = false) (hfuel : 2 * ts.length ≤ fuel) :
    ∃ fuel' ts', read first fuel ts = read true fuel' ts' ∧ Lexed cs ts' ∧
      2 * ts'.length ≤ fuel' ∧ ts'.length ≤ ts.length := by
  cases first with
  | true => exact ⟨fuel, ts, rfl, h, hfuel, le_rfl⟩
  | false =>
    obtain ⟨span, ts', rfl, h'⟩ := Lexed.mark h rfl
    obtain ⟨span', ts'', rfl, h''⟩ := Lexed.blank h' hcs
    simp only [List.length_cons] at hfuel ⊢
    obtain ⟨fuel, rfl⟩ : ∃ n, fuel = n + 2 := ⟨fuel - 2, by omega⟩
    exact ⟨fuel + 1, ts'', hcomma _ _ _ _ _ _, h'', by omega, by omega⟩

theorem readItems_separator {first : Bool} {fuel : Nat} (h : Lexed (separator first ++ cs) ts)
    (hcs : ∀ c ∈ cs.head?, isBlankChar c = false) (hfuel : 2 * ts.length ≤ fuel) :
    ∃ fuel' ts', readItems stop fuel openSpan inner (stateOf first) ts =
        readItems stop fuel' openSpan inner .needsValue ts' ∧ Lexed cs ts' ∧
      2 * ts'.length ≤ fuel' ∧ ts'.length ≤ ts.length :=
  exists_of_separator (fun first fuel => readItems stop fuel openSpan inner (stateOf first))
    (fun _ _ _ _ _ _ => readItems_comma.trans readItems_blank) h hcs hfuel

def tableStateOf (first : Bool) : TableState := if first then .needsKey else .needsComma

theorem readPairs_blank {fuel : Nat} {span : Span} {state : TableState} {chars : List Char} :
    readPairs stop (fuel + 1) openSpan inner state (⟨.blank, chars, span⟩ :: ts) =
      readPairs stop (fuel + 1) openSpan inner state ts := by
  rw [readPairs, readPairs]
  rfl

theorem readPairs_comma {fuel : Nat} {span : Span} {chars : List Char} :
    readPairs stop (fuel + 1) openSpan inner .needsComma (⟨.comma, chars, span⟩ :: ts) =
      readPairs stop fuel openSpan inner .needsKey ts := by
  rw [readPairs]
  rfl

theorem readPairs_separator {first : Bool} {fuel : Nat} (h : Lexed (separator first ++ cs) ts)
    (hcs : ∀ c ∈ cs.head?, isBlankChar c = false) (hfuel : 2 * ts.length ≤ fuel) :
    ∃ fuel' ts', readPairs stop fuel openSpan inner (tableStateOf first) ts =
        readPairs stop fuel' openSpan inner .needsKey ts' ∧ Lexed cs ts' ∧
      2 * ts'.length ≤ fuel' ∧ ts'.length ≤ ts.length :=
  exists_of_separator (fun first fuel => readPairs stop fuel openSpan inner (tableStateOf first))
    (fun _ _ _ _ _ _ => readPairs_comma.trans readPairs_blank) h hcs hfuel

/-- A pair of an inline table is read with its key and its value. -/
theorem readPairs_of_key {fuel : Nat} {q : Quoting} {chars bs es bs' : List Char}
    {span s₁ s₂ s₃ : Span} (h : BeginsValue t) :
    readPairs stop (fuel + 2) openSpan inner .needsKey
        (⟨.text q, chars, span⟩ :: ⟨.blank, bs, s₁⟩ :: ⟨.equals, es, s₂⟩ :: ⟨.blank, bs', s₃⟩ ::
          t :: ts) = (do
      let (v, rest) ← readValue stop (fuel + 1) (t :: ts)
      let (ps, close, rest) ← readPairs stop (fuel + 1) openSpan inner .needsComma rest
      return (([⟨q, chars, span⟩], v) :: ps, close, rest)) := by
  rw [readPairs]
  cases h <;> rfl

theorem closes_itemChars (ws : List Writing) : Closes (itemChars false ws ++ ']' :: cs) := by
  cases ws with
  | nil => exact ⟨']', cs, rfl, by simp⟩
  | cons w ws => exact ⟨',', _, rfl, by simp⟩

theorem closes_pairChars (ps : List (String × Writing)) :
    Closes (pairChars false ps ++ '\x7d' :: cs) := by
  cases ps with
  | nil => exact ⟨'\x7d', cs, rfl, by simp⟩
  | cons p ps => exact ⟨',', _, rfl, by simp⟩

mutual

/-- A value that is written is read, and nothing else. -/
theorem readValue_of_lexed : (w : Writing) → {rest : List Char} → {ts : List Token} → (fuel : Nat) →
    Closes rest → Lexed (w.chars ++ rest) ts → 2 * ts.length ≤ fuel + 1 →
    ∃ form ts', readValue stop fuel ts = .ok (form, ts') ∧ form.Spells w ∧ Lexed rest ts' ∧
      ts'.length < ts.length
  | .word ⟨[], hne, _⟩, _, _, _, _, _, _ => absurd rfl hne
  | .word ⟨c :: as, hne, hplain⟩, rest, ts, fuel, hrest, h, hfuel => by
    rw [Writing.chars] at h
    obtain ⟨hc, has⟩ := List.forall_mem_cons.1 hplain
    obtain ⟨kind, chars, span, ts', as', rfl, hkind, has', h'⟩ :=
      Lexed.word h hc has (breaks_of_closes hrest)
    rw [List.length_cons] at hfuel
    obtain ⟨fuel, rfl⟩ : ∃ n, fuel = n + 1 := ⟨fuel - 1, by omega⟩
    have hread := @readBare_of_lexed as' rest ts' ⟨.bare, chars, span⟩ ts'.length rfl has' hrest h'
      le_rfl
    obtain ⟨w', ts'', hread, hbare, hrest, hlength⟩ := hread
    refine ⟨.text w', ts'', ?_, .word hbare, hrest, by rw [List.length_cons]; omega⟩
    rw [readValue.eq_def]
    rcases hkind with rfl | rfl
    all_goals
      dsimp only
      rw [hread]
      rfl
  | .string s, rest, ts, fuel, hrest, h, hfuel => by
    rw [Writing.chars] at h
    obtain ⟨span, ts', rfl, h'⟩ := h.string (ne_quote_of_breaks (breaks_of_closes hrest))
    rw [List.length_cons] at hfuel
    obtain ⟨fuel, rfl⟩ : ∃ n, fuel = n + 1 := ⟨fuel - 1, by omega⟩
    refine ⟨.text ⟨.basic, writeString s, span⟩, ts', ?_, .string, h', by simp⟩
    rw [readValue.eq_def]
    rfl
  | .array ws, rest, ts, fuel, hrest, h, hfuel => by
    rw [Writing.chars, List.append_assoc] at h
    obtain ⟨span, ts', rfl, h'⟩ := h.mark rfl
    rw [List.length_cons] at hfuel
    obtain ⟨fuel, rfl⟩ : ∃ n, fuel = n + 1 := ⟨fuel - 1, by omega⟩
    obtain ⟨forms, close, ts'', hforms, hall, h'', hlt⟩ :=
      readItems_of_lexed ws fuel span ts' h' (by omega)
    refine ⟨.array ⟨span.start, close⟩ forms, ts'', ?_, .array hall, h'', by simp; omega⟩
    rw [readValue, show ArrayState.needsValue = stateOf true from rfl, hforms]
    rfl
  | .table ps, rest, ts, fuel, hrest, h, hfuel => by
    rw [Writing.chars, List.append_assoc] at h
    obtain ⟨span, ts', rfl, h'⟩ := h.mark rfl
    rw [List.length_cons] at hfuel
    obtain ⟨fuel, rfl⟩ : ∃ n, fuel = n + 1 := ⟨fuel - 1, by omega⟩
    obtain ⟨pairs, close, ts'', hpairs, hall, h'', hlt⟩ :=
      readPairs_of_lexed ps fuel span ts' h' (by omega)
    refine ⟨.table ⟨span.start, close⟩ pairs, ts'', ?_, .table hall, h'', by simp; omega⟩
    rw [readValue, show TableState.needsKey = tableStateOf true from rfl, hpairs]
    rfl

theorem readItems_of_lexed : (ws : List Writing) → {first : Bool} → {rest : List Char} →
    {ts : List Token} → (fuel : Nat) → (openSpan : Span) → (inner : List Token) →
    Lexed (itemChars first ws ++ ']' :: rest) ts → 2 * ts.length ≤ fuel →
    ∃ forms close ts', readItems stop fuel openSpan inner (stateOf first) ts =
        .ok (forms, close, ts') ∧ List.Forall₂ Form.Spells forms ws ∧ Lexed rest ts' ∧
      ts'.length < ts.length
  | [], first, rest, ts, fuel, openSpan, inner, h, hfuel => by
    obtain ⟨span, ts', rfl, h'⟩ := h.mark rfl
    rw [List.length_cons] at hfuel
    obtain ⟨fuel, rfl⟩ : ∃ n, fuel = n + 1 := ⟨fuel - 1, by omega⟩
    refine ⟨[], span.stop, ts', ?_, .nil, h', by simp⟩
    rw [readItems]
    rfl
  | w :: ws, first, rest, ts, fuel, openSpan, inner, h, hfuel => by
    rw [itemChars, List.append_assoc, List.append_assoc] at h
    obtain ⟨fuel, ts₁, heq, h₁, hfuel, hlength⟩ :=
      readItems_separator h (not_isBlankChar_chars w _) hfuel
    obtain ⟨t, ts', rfl, hbegins⟩ := Lexed.beginsValue h₁ (closes_itemChars ws)
    obtain ⟨fuel, rfl⟩ : ∃ n, fuel = n + 1 := ⟨fuel - 1, by simp at hfuel; omega⟩
    obtain ⟨form, ts₂, hform, hspells, h₂, hlt₂⟩ :=
      readValue_of_lexed w fuel (closes_itemChars ws) h₁ (by omega)
    obtain ⟨forms, close, ts₃, hforms, hall, h₃, hlt₃⟩ :=
      readItems_of_lexed ws fuel openSpan inner h₂ (by omega)
    refine ⟨form :: forms, close, ts₃, ?_, .cons hspells hall, h₃, by omega⟩
    rw [heq, readItems_of_beginsValue hbegins, hform]
    dsimp only [bind, Except.bind]
    rw [show ArrayState.needsComma = stateOf false from rfl, hforms]
    rfl

theorem readPairs_of_lexed : (ps : List (String × Writing)) → {first : Bool} → {rest : List Char} →
    {ts : List Token} → (fuel : Nat) → (openSpan : Span) → (inner : List Token) →
    Lexed (pairChars first ps ++ '\x7d' :: rest) ts → 2 * ts.length ≤ fuel →
    ∃ pairs close ts', readPairs stop fuel openSpan inner (tableStateOf first) ts =
        .ok (pairs, close, ts') ∧ List.Forall₂ PairSpells pairs ps ∧ Lexed rest ts' ∧
      ts'.length < ts.length
  | [], first, rest, ts, fuel, openSpan, inner, h, hfuel => by
    obtain ⟨span, ts', rfl, h'⟩ := h.mark rfl
    rw [List.length_cons] at hfuel
    obtain ⟨fuel, rfl⟩ : ∃ n, fuel = n + 1 := ⟨fuel - 1, by omega⟩
    refine ⟨[], span.stop, ts', ?_, .nil, h', by simp⟩
    rw [readPairs]
    rfl
  | (key, w) :: ps, first, rest, ts, fuel, openSpan, inner, h, hfuel => by
    simp only [pairChars, List.append_assoc] at h
    obtain ⟨fuel, ts₁, heq, h₁, hfuel, hlength⟩ :=
      readPairs_separator h (not_isBlankChar_writeKey key _) hfuel
    obtain ⟨q, chars, span, ts₂, rfl, h₂, hkey⟩ := h₁.key (by rintro c ⟨⟩; rfl)
    obtain ⟨s₁, s₂, s₃, ts₃, rfl, h₃⟩ := Lexed.assignment h₂ (not_isBlankChar_chars w _)
    obtain ⟨t, ts', rfl, hbegins⟩ := Lexed.beginsValue h₃ (closes_pairChars ps)
    simp only [List.length_cons] at hfuel hlength
    obtain ⟨fuel, rfl⟩ : ∃ n, fuel = n + 2 := ⟨fuel - 2, by omega⟩
    obtain ⟨form, ts₄, hform, hspells, h₄, hlt₄⟩ :=
      readValue_of_lexed w (fuel + 1) (closes_pairChars ps) h₃ (by rw [List.length_cons]; omega)
    rw [List.length_cons] at hlt₄
    obtain ⟨pairs, close, ts₅, hpairs, hall, h₅, hlt₅⟩ :=
      readPairs_of_lexed ps (fuel + 1) openSpan inner h₄ (by omega)
    refine ⟨([⟨q, chars, span⟩], form) :: pairs, close, ts₅, ?_, .cons ⟨hkey, hspells⟩ hall, h₅,
      by omega⟩
    rw [heq, readPairs_of_key hbegins, hform]
    dsimp only [bind, Except.bind]
    rw [show TableState.needsComma = tableStateOf false from rfl, hpairs]
    rfl

end

end Reading

end StructProjection.Toml
