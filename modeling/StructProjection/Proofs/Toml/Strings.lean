import StructProjection.Toml.Printer

/-! # Strings as they are written

A string that is written is read as itself. It has no control characters, and neither has a key.
-/

namespace StructProjection.Toml

open Text

theorem hexValue_digitChar {n : Nat} (h : n < 16) : hexValue n.digitChar = some n := by
  revert n
  decide

theorem lt_of_isControl {c : Char} (h : isControl c) : c.toNat < 128 := by
  simp only [isControl, Bool.or_eq_true, Bool.and_eq_true, decide_eq_true_eq] at h
  omega

/-- The three ways to write a character. -/
inductive CharText (c : Char) : List Char → Prop
  | escaped (hc : c = '"' ∨ c = '\\') : CharText c ['\\', c]
  | code {d e : Char} (hcontrol : isControl c) (hd : hexValue d = some (c.toNat / 16))
      (he : hexValue e = some (c.toNat % 16)) : CharText c ['\\', 'u', '0', '0', d, e]
  | plain (hquote : c ≠ '"') (hslash : c ≠ '\\') (hcontrol : ¬ isControl c) : CharText c [c]

theorem charText_writeChar (c : Char) : CharText c (writeChar c) := by
  rw [writeChar]
  split
  case isTrue hc =>
    rw [Bool.or_eq_true, decide_eq_true_eq, decide_eq_true_eq] at hc
    exact .escaped hc
  case isFalse hc =>
    simp only [Bool.or_eq_true, decide_eq_true_eq, not_or] at hc
    split
    case isTrue hcontrol =>
      have hlt := lt_of_isControl hcontrol
      exact .code hcontrol (hexValue_digitChar (by omega)) (hexValue_digitChar (by omega))
    case isFalse hcontrol => exact .plain hc.1 hc.2 hcontrol

/-! ## What is read -/

section Reading

variable {c : Char} {cs : List Char}
  {what : String} {place : Nat} {mode : Mode} {s : List Char}

theorem readChars_cons (out : List Char) (mode' : Mode)
    (hread : readChar what false place cs.head? c mode = .ok (out, mode'))
    (hrest : readChars what false (place + c.utf8Size) mode' cs = .ok s) :
    readChars what false place mode (c :: cs) = .ok (out ++ s) := by
  rw [readChars, hread]
  dsimp only [bind, Except.bind]
  rw [hrest]
  rfl

theorem readChars_digit {left value n : Nat} (hc : hexValue c = some n) (hleft : 1 < left)
    (hrest : readChars what false (place + c.utf8Size) (.code (left - 1) (value * 16 + n)) cs =
      .ok s) :
    readChars what false place (.code left value) (c :: cs) = .ok s := by
  refine readChars_cons [] _ ?_ hrest
  simp [readChar, hc, hleft]

theorem readChars_lastDigit {value n : Nat} (hc : hexValue c = some n)
    (hvalid : (value * 16 + n).isValidChar)
    (hrest : readChars what false (place + c.utf8Size) .plain cs = .ok s) :
    readChars what false place (.code 1 value) (c :: cs) =
      .ok (Char.ofNat (value * 16 + n) :: s) := by
  refine readChars_cons [_] _ ?_ hrest
  simp [readChar, hc, hvalid]

theorem readChars_backslash
    (hrest : readChars what false (place + '\\'.utf8Size) .escaped cs = .ok s) :
    readChars what false place .plain ('\\' :: cs) = .ok s :=
  readChars_cons [] _ rfl hrest

/-- A character that is written is read again. -/
theorem readChars_of_charText {w : List Char} (h : CharText c w)
    (hrest : ∀ place, readChars what false place .plain cs = .ok s) :
    readChars what false place .plain (w ++ cs) = .ok (c :: s) := by
  cases h with
  | escaped hc =>
    rcases hc with rfl | rfl
    all_goals exact readChars_backslash (readChars_cons [_] _ rfl (hrest _))
  | @code d e hcontrol hd he =>
    have hcode : (((0 * 16 + 0) * 16 + 0) * 16 + c.toNat / 16) * 16 + c.toNat % 16 = c.toNat := by
      omega
    have hlast : ∀ place, readChars what false place
        (.code 1 (((0 * 16 + 0) * 16 + 0) * 16 + c.toNat / 16)) (e :: cs) = .ok (c :: s) := by
      intro place
      have hread := readChars_lastDigit he (by rw [hcode]; exact c.valid)
        (hrest (place + e.utf8Size))
      rwa [hcode, Char.ofNat_toNat] at hread
    refine readChars_backslash (readChars_cons [] (.code 4 0) rfl ?_)
    refine readChars_digit (n := 0) rfl (by omega) (readChars_digit (n := 0) rfl (by omega) ?_)
    exact readChars_digit hd (by omega) (hlast _)
  | plain hquote hslash hcontrol =>
    refine readChars_cons [c] .plain ?_ (hrest _)
    simp [readChar, readChar.outside, hslash, keepPlain, hcontrol, bind, Except.bind, pure,
      Except.pure]

theorem readChars_flatMap_writeChar (s : List Char) (place : Nat) :
    readChars what false place .plain (s.flatMap writeChar) = .ok s := by
  induction s generalizing place with
  | nil => rfl
  | cons c s ih => exact readChars_of_charText (charText_writeChar c) ih

/-- The text between the quotes of a string that is written. -/
theorem bodyOf_writeString (s : String) (span : Span) :
    ∃ place, bodyOf ⟨.basic, writeString s, span⟩ = .ok (place, s.toList.flatMap writeChar) := by
  refine ⟨span.start + 1, ?_⟩
  simp [bodyOf, markOf, writeString]

/-- A string that is written stands for itself. -/
theorem readQuoted_writeString (s : String) (span : Span) :
    readQuoted ⟨.basic, writeString s, span⟩ = .ok s := by
  obtain ⟨place, hbody⟩ := bodyOf_writeString s span
  rw [readQuoted, hbody]
  dsimp only [bind, Except.bind]
  rw [readChars_flatMap_writeChar]
  simp [pure, Except.pure]

end Reading

/-! ## Control characters -/

/-- There is no control character but line feeds. -/
def Tidy (cs : List Char) : Prop := ∀ c ∈ cs, isControl c → c = '\n'

instance (cs : List Char) : Decidable (Tidy cs) := List.decidableBAll _ cs

theorem Tidy.append {as bs : List Char} (has : Tidy as) (hbs : Tidy bs) : Tidy (as ++ bs) :=
  List.forall_mem_append.2 ⟨has, hbs⟩

/-- Control characters are no part of keys, bare values and code points. -/
theorem plain_of_isControl {c : Char} (h : isControl c) :
    isBareKeyChar c = false ∧ isWordChar c = false ∧ hexValue c = none := by
  have hall : ∀ n < 128, isControl (Char.ofNat n) → isBareKeyChar (Char.ofNat n) = false ∧
      isWordChar (Char.ofNat n) = false ∧ hexValue (Char.ofNat n) = none := by
    decide +kernel
  have hc := hall c.toNat (lt_of_isControl h)
  rw [Char.ofNat_toNat] at hc
  exact hc h

theorem tidy_of_forall {p : Char → Bool} {cs : List Char} (hcs : ∀ c ∈ cs, p c)
    (hp : ∀ c, isControl c → p c = false) : Tidy cs := by
  intro c hc hcontrol
  have hpc := hcs c hc
  rw [hp c hcontrol] at hpc
  cases hpc

theorem tidy_of_charText {c : Char} {w : List Char} (h : CharText c w) : Tidy w := by
  cases h with
  | escaped hc => rcases hc with rfl | rfl <;> decide
  | @code d e hcontrol hd he =>
    have hmark : Tidy ['\\', 'u', '0', '0'] := by decide
    have hdigits : Tidy [d, e] :=
      tidy_of_forall (p := fun c => (hexValue c).isSome) (by simp [hd, he])
        (fun c hc => by simp [(plain_of_isControl hc).2.2])
    exact hmark.append hdigits
  | plain hquote hslash hcontrol =>
    intro d hd hd'
    obtain rfl := List.mem_singleton.1 hd
    exact absurd hd' hcontrol

theorem tidy_writeString (s : String) : Tidy (writeString s) := by
  refine Tidy.append (List.forall_mem_cons.2 ⟨by decide, fun c hc => ?_⟩) (by decide)
  obtain ⟨d, -, hd⟩ := List.mem_flatMap.1 hc
  exact tidy_of_charText (charText_writeChar d) c hd

theorem tidy_writeKey (key : String) : Tidy (writeKey key) := by
  rw [writeKey]
  split
  case isTrue hbare =>
    exact tidy_of_forall (List.all_eq_true.1 hbare.2) fun c hc => (plain_of_isControl hc).1
  case isFalse => exact tidy_writeString key

end StructProjection.Toml
