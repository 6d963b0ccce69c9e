import Mathlib.Data.List.TakeWhile
import StructProjection.Toml.Document
import StructProjection.Proofs.Toml.Strings

/-! # The tokens of what is written

The tokens of a text are found from left to right. Where the next characters are a mark, a key or a
string, the next token consists of these, and the others are the tokens of what follows.
-/

namespace StructProjection.Toml

open Text

/-- The tokens of a text, wherever it begins. -/
def Lexed (cs : List Char) (ts : List Token) : Prop := ∃ place, ts = tokensFrom 0 place cs

/-- What follows cannot belong to a bare text. -/
def Breaks (cs : List Char) : Prop := ∀ c ∈ cs.head?, endsBare c

section Tokens

variable {c : Char} {as cs : List Char} {ts : List Token} {kind : TokenKind}

theorem tokensFrom_append (as cs : List Char) (place : Nat) :
    tokensFrom as.length place (as ++ cs) = tokensFrom 0 (place + byteLength as) cs := by
  induction as generalizing place with
  | nil => rfl
  | cons a as ih =>
    rw [List.length_cons, List.cons_append, tokensFrom, ih, Nat.add_assoc]
    simp [byteLength]

theorem Lexed.nil (h : Lexed [] ts) : ts = [] := by
  obtain ⟨place, rfl⟩ := h
  rfl

theorem Lexed.ne_nil (h : Lexed cs ts) (hcs : cs ≠ []) : ts ≠ [] := by
  obtain ⟨place, rfl⟩ := h
  cases cs with
  | nil => exact absurd rfl hcs
  | cons c cs =>
    rw [tokensFrom]
    exact List.cons_ne_nil _ _

/-- The first token is as long as its kind says. -/
theorem Lexed.cons (as : List Char) (h : Lexed (c :: (as ++ cs)) ts)
    (htoken : firstToken c (as ++ cs) = (kind, as.length)) :
    ∃ span ts', ts = ⟨kind, c :: as, span⟩ :: ts' ∧ Lexed cs ts' := by
  obtain ⟨place, rfl⟩ := h
  rw [tokensFrom, htoken]
  dsimp only
  rw [List.take_left, tokensFrom_append]
  exact ⟨_, _, rfl, _, rfl⟩

/-- A mark is a token of its own. -/
theorem Lexed.mark (h : Lexed (c :: cs) ts) (htoken : firstToken c cs = (kind, 0)) :
    ∃ span ts', ts = ⟨kind, [c], span⟩ :: ts' ∧ Lexed cs ts' :=
  Lexed.cons [] h htoken

theorem length_takeWhile_append {p : Char → Bool} (has : ∀ c ∈ as, p c)
    (hcs : ∀ c ∈ cs.head?, p c = false) : ((as ++ cs).takeWhile p).length = as.length := by
  rw [List.takeWhile_append_of_pos has]
  cases cs with
  | nil => simp
  | cons c cs => simp [hcs c rfl]

/-- One blank before something that is none is a token of its own. -/
theorem Lexed.blank (h : Lexed (' ' :: cs) ts) (hcs : ∀ c ∈ cs.head?, isBlankChar c = false) :
    ∃ span ts', ts = ⟨.blank, [' '], span⟩ :: ts' ∧ Lexed cs ts' := by
  refine h.mark ?_
  have hlength : (cs.takeWhile isBlankChar).length = 0 :=
    length_takeWhile_append (List.forall_mem_nil _) hcs
  simp [firstToken, isBlankChar, hlength]

theorem firstToken_of_bare (hc : endsBare c = false) (hquote : c ≠ '"') (hmark : c ≠ '\'') :
    firstToken c cs = (.text .bare, (cs.takeWhile (!endsBare ·)).length) := by
  unfold firstToken
  split <;> simp_all [endsBare, isBlankChar]

end Tokens

/-! ## Strings -/

section Strings

variable {c : Char} {cs : List Char} {ts : List Token}

theorem basicRest_of_plain (hquote : c ≠ '"') (hslash : c ≠ '\\') (hline : c ≠ '\n') :
    basicRest false (c :: cs) = basicRest false cs + 1 := by
  simp [basicRest, hquote, hslash, hline]

theorem basicRest_of_hex {n : Nat} (h : hexValue c = some n) :
    basicRest false (c :: cs) = basicRest false cs + 1 := by
  refine basicRest_of_plain ?_ ?_ ?_ <;> rintro rfl <;> cases h

/-- The end of a string is not looked for within a character that is written. -/
theorem basicRest_of_charText {w : List Char} (h : CharText c w) (cs : List Char) :
    basicRest false (w ++ cs) = basicRest false cs + w.length := by
  cases h with
  | escaped hc => rcases hc with rfl | rfl <;> simp [basicRest]
  | @code d e hcontrol hd he =>
    have hmark : basicRest false ('\\' :: 'u' :: '0' :: '0' :: d :: e :: cs) =
        basicRest false (d :: e :: cs) + 4 := by simp [basicRest]
    simp only [List.cons_append, List.nil_append, hmark, basicRest_of_hex hd, basicRest_of_hex he,
      List.length_cons, List.length_nil]
  | plain hquote hslash hcontrol =>
    have hline : c ≠ '\n' := by
      rintro rfl
      exact hcontrol rfl
    exact basicRest_of_plain hquote hslash hline

theorem basicRest_flatMap_writeChar (s rest : List Char) :
    basicRest false (s.flatMap writeChar ++ '"' :: rest) = (s.flatMap writeChar).length + 1 := by
  induction s with
  | nil => simp [basicRest]
  | cons c s ih =>
    rw [List.flatMap_cons, List.append_assoc, basicRest_of_charText (charText_writeChar c), ih, List.length_append]
    omega

theorem exists_of_charText {w : List Char} (h : CharText c w) :
    ∃ d rest, w = d :: rest ∧ d ≠ '"' := by
  cases h with
  | escaped => exact ⟨_, _, rfl, by decide⟩
  | code => exact ⟨_, _, rfl, by decide⟩
  | plain hquote => exact ⟨_, _, rfl, hquote⟩

/-- Behind the quote at its beginning, a string does not go on with two quotes. -/
theorem take_two_ne (s : List Char) (hcs : ∀ c ∈ cs.head?, c ≠ '"') :
    (s.flatMap writeChar ++ '"' :: cs).take 2 ≠ ['"', '"'] := by
  cases s with
  | nil =>
    cases cs with
    | nil => simp
    | cons c cs => simpa using hcs c rfl
  | cons c s =>
    obtain ⟨d, rest, hchars, hd⟩ := exists_of_charText (charText_writeChar c)
    rw [List.flatMap_cons, hchars]
    simp [hd]

theorem Lexed.string {s : String} (h : Lexed (writeString s ++ cs) ts)
    (hcs : ∀ c ∈ cs.head?, c ≠ '"') :
    ∃ span ts', ts = ⟨.text .basic, writeString s, span⟩ :: ts' ∧ Lexed cs ts' := by
  have hlength : (s.toList.flatMap writeChar ++ ['"']).length =
      basicRest false (s.toList.flatMap writeChar ++ '"' :: cs) := by
    rw [basicRest_flatMap_writeChar, List.length_append, List.length_singleton]
  refine Lexed.cons (s.toList.flatMap writeChar ++ ['"']) h ?_
  rw [hlength]
  simp [firstToken, take_two_ne s.toList hcs]

end Strings

/-! ## Keys -/

section Keys

variable {c : Char} {cs : List Char} {ts : List Token}

theorem endsBare_of_isBareKeyChar (h : isBareKeyChar c) :
    endsBare c = false ∧ c ≠ '"' ∧ c ≠ '\'' := by
  refine ⟨Bool.eq_false_iff.2 fun hends => ?_, ?_, ?_⟩
  · simp only [endsBare, Bool.or_eq_true, decide_eq_true_eq] at hends
    rcases hends with (((((((((((rfl | rfl) | rfl) | rfl) | rfl) | rfl) | rfl) | rfl) | rfl) | rfl) |
      rfl) | rfl)
    all_goals cases h
  · rintro rfl
    cases h
  · rintro rfl
    cases h

/-- Characters that do not end a bare text are a token up to what breaks it. -/
theorem Lexed.bare (as : List Char) (h : Lexed (c :: (as ++ cs)) ts) (hc : endsBare c = false)
    (hquote : c ≠ '"') (hmark : c ≠ '\'') (has : ∀ a ∈ as, endsBare a = false) (hcs : Breaks cs) :
    ∃ span ts', ts = ⟨.text .bare, c :: as, span⟩ :: ts' ∧ Lexed cs ts' := by
  refine h.cons as ?_
  rw [firstToken_of_bare hc hquote hmark, length_takeWhile_append]
  · intro a ha
    rw [has a ha]
    rfl
  · intro d hd
    rw [hcs d hd]
    rfl

theorem ne_quote_of_breaks (h : Breaks cs) : ∀ c ∈ cs.head?, c ≠ '"' := by
  rintro c hc rfl
  cases h _ hc

/-- A key is one token, which stands for its name. -/
theorem Lexed.key {key : String} (h : Lexed (writeKey key ++ cs) ts) (hcs : Breaks cs) :
    ∃ q chars span ts', ts = ⟨.text q, chars, span⟩ :: ts' ∧ Lexed cs ts' ∧
      keyName ⟨q, chars, span⟩ = .ok key := by
  rw [writeKey] at h
  split at h
  case isTrue hbare =>
    obtain ⟨hne, hall⟩ := hbare
    rw [List.all_eq_true] at hall
    have htake : key.toList.takeWhile isBareKeyChar = key.toList :=
      List.takeWhile_eq_self_iff.2 hall
    cases hchars : key.toList with
    | nil => exact absurd (String.toList_eq_nil_iff.1 hchars) hne
    | cons c as =>
      rw [hchars, List.cons_append] at h
      rw [hchars] at hall
      obtain ⟨hc, has⟩ := List.forall_mem_cons.1 hall
      obtain ⟨hends, hquote, hmark⟩ := endsBare_of_isBareKeyChar hc
      obtain ⟨span, ts', rfl, h'⟩ := h.bare as hends hquote hmark
        (fun a ha => (endsBare_of_isBareKeyChar (has a ha)).1) hcs
      refine ⟨_, _, span, ts', rfl, h', ?_⟩
      rw [← hchars]
      simp [keyName, htake]
  case isFalse =>
    obtain ⟨span, ts', rfl, h'⟩ := h.string (ne_quote_of_breaks hcs)
    exact ⟨_, _, span, ts', rfl, h', readQuoted_writeString key span⟩

end Keys

/-! ## Tokens without a fault -/

theorem exists_of_mem_tokensFrom {t : Token} {skip place : Nat} {cs : List Char}
    (h : t ∈ tokensFrom skip place cs) : ∃ before c rest, cs = before ++ c :: rest ∧
      t.kind = (firstToken c rest).1 ∧ t.chars = c :: rest.take (firstToken c rest).2 := by
  induction cs generalizing skip place with
  | nil => cases skip <;> cases h
  | cons c cs ih =>
    cases skip with
    | zero =>
      rw [tokensFrom] at h
      rcases List.mem_cons.1 h with rfl | h
      · exact ⟨[], c, cs, rfl, rfl, rfl⟩
      · obtain ⟨before, d, rest, rfl, hkind, hchars⟩ := ih h
        exact ⟨c :: before, d, rest, rfl, hkind, hchars⟩
    | succ skip =>
      rw [tokensFrom] at h
      obtain ⟨before, d, rest, rfl, hkind, hchars⟩ := ih h
      exact ⟨c :: before, d, rest, rfl, hkind, hchars⟩

theorem firstToken_comment {c : Char} {rest : List Char} (h : (firstToken c rest).1 = .comment) :
    c = '#' ∧ firstToken c rest =
      (.comment, (rest.takeWhile fun d => d ≠ '\n' && d ≠ '\r').length) := by
  unfold firstToken at h ⊢
  split at h
  all_goals try (split at h)
  all_goals simp_all

theorem tokenFault_eq_none {cs : List Char} {ts : List Token} (h : Lexed cs ts) (hcs : Tidy cs) :
    ts.findSome? tokenFault = none := by
  rw [List.findSome?_eq_none_iff]
  intro t ht
  obtain ⟨place, rfl⟩ := h
  obtain ⟨before, c, rest, rfl, hkind, hchars⟩ := exists_of_mem_tokensFrom ht
  obtain ⟨-, hrest⟩ := List.forall_mem_append.1 hcs
  have htidy : Tidy t.chars := by
    rw [hchars]
    intro d hd
    exact hrest d (List.cons_subset_cons c (List.take_subset _ _) hd)
  unfold tokenFault
  split
  case h_1 =>
    rw [if_neg]
    intro hreturn
    rw [hreturn] at htidy
    cases htidy '\r' List.mem_cons_self rfl
  case h_2 hcomment =>
    obtain ⟨rfl, hfirst⟩ := firstToken_comment (hkind.symm.trans hcomment)
    have hgood : t.chars.takeWhile (fun c => !isControl c) = t.chars := by
      rw [List.takeWhile_eq_self_iff]
      intro d hd
      rw [Bool.not_eq_true', Bool.eq_false_iff]
      intro hcontrol
      obtain rfl := htidy d hd hcontrol
      rw [hchars, hfirst] at hd
      rcases List.mem_cons.1 hd with hd | hd
      · cases hd
      · rw [← List.prefix_iff_eq_take.1 (List.takeWhile_prefix _)] at hd
        simpa using List.mem_takeWhile_imp hd
    exact if_pos hgood
  case h_3 => rfl

end StructProjection.Toml
