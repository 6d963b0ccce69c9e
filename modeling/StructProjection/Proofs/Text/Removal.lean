import Mathlib.Data.List.Infix
import Mathlib.Data.List.TakeWhile
import StructProjection.Text.Removal

/-! # What a removal leaves

A removal cuts a text into stretches without the literal and joins them. An occurrence of the literal
that is left has been put together of several stretches, which for a literal that repeats one character
cannot be.
-/

namespace StructProjection.Text

/-! ## Cutting -/

/-- The stretches of a text that are left, in order, when something is taken out between each and the
next. -/
inductive Cut : (text : List Char) → (stretches : List (List Char)) → Prop
  | whole (s : List Char) : Cut s [s]
  | cons (s : List Char) {gone rest : List Char} {ss : List (List Char)} (hgone : gone ≠ [])
      (hrest : Cut rest ss) : Cut (s ++ (gone ++ rest)) (s :: ss)

namespace Cut

variable {text rest gone as bs : List Char} {ss ts : List (List Char)}

theorem append (h : Cut text ss) (hgone : gone ≠ []) (hrest : Cut rest ts) :
    Cut (text ++ (gone ++ rest)) (ss ++ ts) := by
  induction h with
  | whole s => exact .cons s hgone hrest
  | cons s hgone' _ ih =>
    rw [List.append_assoc, List.append_assoc]
    exact .cons s hgone' ih

theorem flatten_sublist (h : Cut text ss) : ss.flatten.Sublist text := by
  induction h with
  | whole s => simp
  | cons s _ _ ih =>
    rw [List.flatten_cons]
    exact (List.Sublist.refl s).append (ih.trans (List.sublist_append_right _ _))

/-- If nothing has gone nothing was cut. -/
theorem eq_singleton (h : Cut text ss) (hsame : ss.flatten = text) : ss = [text] := by
  cases h with
  | whole => rfl
  | @cons s gone rest ss hgone hrest =>
    have hle := hrest.flatten_sublist.length_le
    have hpos := List.length_pos_iff.2 hgone
    have hlen := congrArg List.length hsame
    simp only [List.flatten_cons, List.length_append] at hlen
    omega

/-- The first stretch is the beginning of the text. -/
theorem exists_head (h : Cut text ss) : ∃ s more, ss = s :: more ∧ s <+: text := by
  cases h with
  | whole => exact ⟨text, [], rfl, List.prefix_rfl⟩
  | cons s => exact ⟨s, _, rfl, List.prefix_append s _⟩

/-- A cut with one more character before the text. -/
theorem cons_head {s : List Char} (h : Cut text (s :: ss)) (c : Char) :
    Cut (c :: text) ((c :: s) :: ss) := by
  cases h with
  | whole => exact .whole _
  | cons _ hgone hrest => exact .cons (c :: s) hgone hrest

/-- Where what is left of a text is cut in two, the text is. -/
theorem exists_split (h : Cut text ss) (hjoined : ss.flatten = as ++ bs) :
    ∃ front back fs ls, text = front ++ back ∧ Cut front fs ∧ Cut back ls ∧ fs.flatten = as ∧
      ls.flatten = bs ∧ ∀ t ∈ fs ++ ls, ∃ s ∈ ss, t <:+: s := by
  induction h generalizing as with
  | whole s =>
    obtain rfl : s = as ++ bs := by simpa using hjoined
    refine ⟨as, bs, [as], [bs], rfl, .whole as, .whole bs, by simp, by simp, fun t ht => ?_⟩
    refine ⟨as ++ bs, List.mem_singleton_self _, ?_⟩
    rcases List.mem_append.1 ht with ht | ht
    · rw [List.mem_singleton.1 ht]
      exact (List.prefix_append as bs).isInfix
    · rw [List.mem_singleton.1 ht]
      exact (List.suffix_append as bs).isInfix
  | @cons s gone rest ss hgone hrest ih =>
    rw [List.flatten_cons] at hjoined
    rcases List.append_eq_append_iff.1 hjoined with ⟨more, rfl, hss⟩ | ⟨more, rfl, rfl⟩
    · obtain ⟨front, back, fs, ls, rfl, hfront, hback, rfl, rfl, hmem⟩ := ih hss
      refine ⟨s ++ (gone ++ front), back, s :: fs, ls, by simp, .cons s hgone hfront, hback, rfl,
        rfl, fun t ht => ?_⟩
      rcases List.mem_cons.1 ht with rfl | ht
      · exact ⟨t, List.mem_cons_self, List.infix_rfl⟩
      · obtain ⟨s', hs', hin⟩ := hmem t ht
        exact ⟨s', List.mem_cons_of_mem s hs', hin⟩
    · refine ⟨as, more ++ (gone ++ rest), [as], more :: ss, by simp, .whole as,
        .cons more hgone hrest, by simp, rfl, fun t ht => ?_⟩
      rcases List.mem_cons.1 ht with rfl | ht
      · exact ⟨_, List.mem_cons_self, (List.prefix_append t more).isInfix⟩
      · rcases List.mem_cons.1 ht with rfl | ht
        · exact ⟨_, List.mem_cons_self, (List.suffix_append as t).isInfix⟩
        · exact ⟨t, List.mem_cons_of_mem _ ht, List.infix_rfl⟩

/-- What is left of a text after two cuts, one after the other, is left after one. -/
theorem trans {joined : List Char} (h : Cut text ss) (h' : Cut joined ts)
    (hjoined : ss.flatten = joined) : ∃ us, Cut text us ∧ us.flatten = ts.flatten ∧
      ∀ u ∈ us, (∃ s ∈ ss, u <:+: s) ∧ ∃ t ∈ ts, u <:+: t := by
  induction h' generalizing text ss with
  | whole t =>
    refine ⟨ss, h, by simpa using hjoined, fun s hs => ⟨⟨s, hs, List.infix_rfl⟩, ?_⟩⟩
    exact ⟨t, List.mem_singleton_self t, hjoined ▸ List.infix_of_mem_flatten hs⟩
  | @cons t gone rest ts hgone _ ih =>
    obtain ⟨front, more, fs, ms, rfl, hfront, hmore, hfs, hms, hin⟩ := h.exists_split hjoined
    obtain ⟨middle, back, cs, ls, rfl, hmiddle, hback, hcs, hls, hin'⟩ := hmore.exists_split hms
    obtain ⟨us, hus, hflat, hmem⟩ := ih hback hls
    have hne : middle ≠ [] := by
      rintro rfl
      exact hgone (hcs ▸ List.sublist_nil.1 hmiddle.flatten_sublist)
    refine ⟨fs ++ us, hfront.append hne hus, ?_, fun u hu => ?_⟩
    · rw [List.flatten_append, List.flatten_cons, hfs, hflat]
    · rcases List.mem_append.1 hu with hu | hu
      · refine ⟨hin u (List.mem_append_left ms hu), t, List.mem_cons_self, ?_⟩
        exact hfs ▸ List.infix_of_mem_flatten hu
      · obtain ⟨⟨l, hl, hul⟩, t', ht', hut⟩ := hmem u hu
        obtain ⟨m, hm, hlm⟩ := hin' l (List.mem_append_right cs hl)
        obtain ⟨s, hs, hms⟩ := hin m (List.mem_append_right fs hm)
        exact ⟨⟨s, hs, hul.trans (hlm.trans hms)⟩, t', List.mem_cons_of_mem t ht', hut⟩

end Cut

/-! ## Removing a literal -/

section Removal

variable {literal text : List Char}

theorem removeFrom_eq_drop (skip : Nat) (text : List Char) :
    removeFrom literal skip text = removeFrom literal 0 (text.drop skip) := by
  induction text generalizing skip with
  | nil => cases skip <;> rfl
  | cons c text ih =>
    cases skip with
    | zero => rfl
    | succ skip => rw [removeFrom, ih, List.drop_succ_cons]

theorem removeFrom_append (h : literal ≠ []) (rest : List Char) :
    removeFrom literal 0 (literal ++ rest) = removeFrom literal 0 rest := by
  obtain ⟨c, cs, rfl⟩ := List.exists_cons_of_ne_nil h
  have hfirst : (c :: cs).isPrefixOf (c :: (cs ++ rest)) :=
    List.isPrefixOf_iff_prefix.2 ⟨rest, rfl⟩
  rw [List.cons_append, removeFrom, if_pos hfirst, removeFrom_eq_drop]
  simp

theorem removeFrom_cons {c : Char} (h : ¬ literal <+: c :: text) :
    removeFrom literal 0 (c :: text) = c :: removeFrom literal 0 text := by
  rw [removeFrom, if_neg fun hfirst => h (List.isPrefixOf_iff_prefix.1 hfirst)]

/-- The text that is removed from is cut into stretches without the literal. -/
theorem exists_cut_removeFrom (h : literal ≠ []) (text : List Char) :
    ∃ ss, Cut text ss ∧ removeFrom literal 0 text = ss.flatten ∧ ∀ s ∈ ss, ¬ literal <:+: s := by
  induction hn : text.length using Nat.strong_induction_on generalizing text with
  | _ n ih =>
    subst hn
    by_cases hfirst : literal <+: text
    · obtain ⟨rest, rfl⟩ := hfirst
      have hlen : rest.length < (literal ++ rest).length := by
        have := List.length_pos_iff.2 h
        rw [List.length_append]
        omega
      obtain ⟨ss, hcut, hflat, hfree⟩ := ih _ hlen rest rfl
      refine ⟨[] :: ss, .cons [] h hcut, ?_, ?_⟩
      · rw [removeFrom_append h, hflat, List.flatten_cons, List.nil_append]
      · exact List.forall_mem_cons.2 ⟨fun hin => h (List.eq_nil_of_infix_nil hin), hfree⟩
    · cases text with
      | nil => exact ⟨[[]], .whole [], rfl, by simpa using h⟩
      | cons c text =>
        obtain ⟨ss, hcut, hflat, hfree⟩ := ih text.length (by simp) text rfl
        obtain ⟨s, more, rfl, hs⟩ := hcut.exists_head
        rw [List.forall_mem_cons] at hfree
        refine ⟨(c :: s) :: more, hcut.cons_head c, ?_, ?_⟩
        · rw [removeFrom_cons hfirst, hflat, List.flatten_cons, List.flatten_cons, List.cons_append]
        · refine List.forall_mem_cons.2 ⟨fun hin => ?_, hfree.2⟩
          rcases List.infix_cons_iff.1 hin with hpre | hin
          · exact hfirst (hpre.trans ((List.prefix_cons_inj c).2 hs))
          · exact hfree.1 hin

theorem exists_cut_remove (h : literal ≠ []) (text : List Char) :
    ∃ ss, Cut text ss ∧ remove literal text = ss.flatten ∧ ∀ s ∈ ss, ¬ literal <:+: s := by
  rw [remove, if_neg h]
  exact exists_cut_removeFrom h text

end Removal

/-! ## Literals that repeat one character -/

section OneCharacter

variable {literal text : List Char} {c : Char}

theorem eq_of_prefix_cons {cs : List Char} (h : cs <+: c :: cs) : ∀ d ∈ cs, d = c := by
  induction cs with
  | nil => simp
  | cons d cs ih =>
    obtain ⟨rfl, htail⟩ := List.cons_prefix_cons.1 h
    exact List.forall_mem_cons.2 ⟨rfl, ih htail⟩

/-- A removal puts no run of a character in the beginning of a text. -/
theorem replicate_prefix_of_removeFrom {j k : Nat} (hjk : j ≤ k)
    (hfirst : ¬ List.replicate k c <+: text)
    (h : List.replicate j c <+: removeFrom (List.replicate k c) 0 text) :
    List.replicate j c <+: text := by
  induction j generalizing text with
  | zero => exact List.nil_prefix
  | succ j ih =>
    cases text with
    | nil => exact h
    | cons d text =>
      rw [removeFrom_cons hfirst, List.replicate_succ] at h
      obtain ⟨rfl, htail⟩ := List.cons_prefix_cons.1 h
      have hrest : ¬ List.replicate k c <+: text := fun hpre => by
        refine hfirst (List.IsPrefix.trans ?_ ((List.prefix_cons_inj c).2 hpre))
        rw [← List.replicate_succ, List.replicate_succ']
        exact List.prefix_append _ _
      rw [List.replicate_succ, List.prefix_cons_inj]
      exact ih (by omega) hrest htail

theorem not_infix_removeFrom {k : Nat} (hk : k ≠ 0) (text : List Char) :
    ¬ List.replicate k c <:+: removeFrom (List.replicate k c) 0 text := by
  have hne : List.replicate k c ≠ [] := by simpa using hk
  induction hn : text.length using Nat.strong_induction_on generalizing text with
  | _ n ih =>
    subst hn
    by_cases hfirst : List.replicate k c <+: text
    · obtain ⟨rest, rfl⟩ := hfirst
      rw [removeFrom_append hne]
      exact ih rest.length (by simp; omega) rest rfl
    · intro hin
      cases text with
      | nil => exact hne (List.eq_nil_of_infix_nil hin)
      | cons d text =>
        have hpre := fun h => hfirst (replicate_prefix_of_removeFrom le_rfl hfirst h)
        rw [removeFrom_cons hfirst] at hin hpre
        rcases List.infix_cons_iff.1 hin with h | h
        · exact hpre h
        · exact ih text.length (by simp) text rfl h

/-- If a literal has two different characters, some removal puts it together. -/
theorem exists_infix_remove (h : ∃ d ∈ literal, some d ≠ literal.head?) :
    ∃ text, literal <:+: remove literal text := by
  obtain ⟨d, hd, hne⟩ := h
  obtain ⟨c, cs, rfl⟩ := List.exists_cons_of_ne_nil (List.ne_nil_of_mem hd)
  have hfirst : ¬ c :: cs <+: c :: (c :: cs ++ cs) := fun hpre => by
    have htail : cs <+: c :: cs := by
      refine List.prefix_of_prefix_length_le ((List.prefix_cons_inj c).1 hpre)
        (List.prefix_append _ cs) (by simp)
    rcases List.mem_cons.1 hd with rfl | hd
    · exact hne rfl
    · exact hne (congrArg some (eq_of_prefix_cons htail d hd))
  have hrest : ¬ c :: cs <:+: cs := fun hin => by
    have hle := hin.length_le
    rw [List.length_cons] at hle
    omega
  refine ⟨c :: (c :: cs ++ cs), ?_⟩
  rw [remove, if_neg (List.cons_ne_nil c cs), removeFrom_cons hfirst,
    removeFrom_append (List.cons_ne_nil c cs), removeFrom_of_not_infix hrest]

/-- A literal is never left by its removal if and only if it repeats one character. -/
theorem forall_not_infix_remove_iff (h : literal ≠ []) :
    (∀ text, ¬ literal <:+: remove literal text) ↔ ∃ c, ∀ d ∈ literal, d = c := by
  constructor
  · intro hall
    by_contra hmany
    obtain ⟨c, cs, rfl⟩ := List.exists_cons_of_ne_nil h
    have hother : ∃ d ∈ c :: cs, some d ≠ (c :: cs).head? := by
      by_contra hsame
      refine hmany ⟨c, fun d hd => ?_⟩
      by_contra hne
      exact hsame ⟨d, hd, by simpa using hne⟩
    obtain ⟨text, hin⟩ := exists_infix_remove hother
    exact hall text hin
  · rintro ⟨c, hc⟩ text
    rw [remove, if_neg h, List.eq_replicate_of_mem hc]
    exact not_infix_removeFrom (by simpa using h) text

end OneCharacter

end StructProjection.Text
