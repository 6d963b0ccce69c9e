import Mathlib.Logic.Function.Iterate
import StructProjection.Proofs.Projection.Header
import StructProjection.Proofs.Text.Removal

/-! # What stripping leaves

Stripping destroys each occurrence of a literal in a text. What it leaves are stretches of the text, and
where these are joined a literal can come to be again. It is gone for good once stripping changes
nothing.
-/

namespace StructProjection

open Text Go

namespace StripRules

/-- The text holds none of the literals. -/
def Clean (r : StripRules) (text : String) : Prop :=
  ∀ literal ∈ r.literals, ¬ literal.toList <:+: text.toList

instance (r : StripRules) (text : String) : Decidable (r.Clean text) :=
  inferInstanceAs (Decidable (∀ literal ∈ r.literals, ¬ literal.toList <:+: text.toList))

/-- What is left of a text: stretches of it without a literal, which are joined. They hold no literal
together if and only if there is nothing more to strip. -/
structure Leaves (r : StripRules) (text out : String) : Prop where
  stretches : ∃ ss, Cut text.toList ss ∧ out.toList = ss.flatten ∧
    ∀ s ∈ ss, ∀ literal ∈ r.literals, ¬ literal.toList <:+: s
  clean_iff : r.Clean out ↔ r.apply out = out

theorem toList_apply (r : StripRules) (text : String) : (r.apply text).toList =
    r.literals.foldl (fun cs literal => remove literal.toList cs) text.toList := by
  rw [apply, String.toList_ofList]

section Passes

variable {literals : List String} (h : "" ∉ literals)
include h

theorem exists_cut_foldl (cs : List Char) :
    ∃ ss, Cut cs ss ∧ literals.foldl (fun cs literal => remove literal.toList cs) cs = ss.flatten ∧
      ∀ s ∈ ss, ∀ literal ∈ literals, ¬ literal.toList <:+: s := by
  induction literals generalizing cs with
  | nil => exact ⟨[cs], .whole cs, by simp, by simp⟩
  | cons literal literals ih =>
    rw [List.mem_cons, not_or] at h
    have hne : literal.toList ≠ [] := fun hnil => h.1 (String.toList_eq_nil_iff.1 hnil).symm
    obtain ⟨ss, hcut, hflat, hfree⟩ := exists_cut_remove hne cs
    obtain ⟨ts, hcut', hflat', hfree'⟩ := ih h.2 (remove literal.toList cs)
    obtain ⟨us, hus, hjoined, hmem⟩ := hcut.trans hcut' hflat.symm
    refine ⟨us, hus, by rw [List.foldl_cons, hflat', hjoined], fun u hu => ?_⟩
    obtain ⟨⟨s, hs, hin⟩, t, ht, hin'⟩ := hmem u hu
    refine List.forall_mem_cons.2 ⟨fun hl => hfree s hs (hl.trans hin), fun l hl hin'' => ?_⟩
    exact hfree' t ht l hl (hin''.trans hin')

theorem not_infix_of_foldl_eq {cs : List Char}
    (heq : literals.foldl (fun cs literal => remove literal.toList cs) cs = cs) :
    ∀ literal ∈ literals, ¬ literal.toList <:+: cs := by
  obtain ⟨ss, hcut, hflat, hfree⟩ := exists_cut_foldl h cs
  rw [hcut.eq_singleton (hflat.symm.trans heq)] at hfree
  exact hfree cs (List.mem_singleton_self cs)

end Passes

section Stripping

variable {r : StripRules} (h : "" ∉ r.literals)
include h

/-- A text is clean if and only if stripping leaves it as it is. -/
theorem clean_iff_apply_eq {text : String} : r.Clean text ↔ r.apply text = text := by
  refine ⟨fun hclean => apply_of_not_infix hclean, fun heq => not_infix_of_foldl_eq h ?_⟩
  rw [← toList_apply, heq]

theorem leaves_apply (text : String) : r.Leaves text (r.apply text) where
  stretches := by
    obtain ⟨ss, hcut, hflat, hfree⟩ := exists_cut_foldl h text.toList
    exact ⟨ss, hcut, (r.toList_apply text).trans hflat, hfree⟩
  clean_iff := clean_iff_apply_eq h

theorem length_apply_lt {text : String} (hne : r.apply text ≠ text) :
    (r.apply text).length < text.length := by
  obtain ⟨ss, hcut, hflat, -⟩ := (leaves_apply h text).stretches
  have hsub : (r.apply text).toList.Sublist text.toList := hflat ▸ hcut.flatten_sublist
  rw [← String.length_toList, ← String.length_toList]
  refine lt_of_le_of_ne hsub.length_le fun hlen => hne ?_
  exact String.toList_inj.1 (hsub.eq_of_length hlen)

/-- Stripped over and over, a text is clean after as many rounds as it has characters at the latest. -/
theorem exists_iterate_clean (text : String) :
    ∃ n ≤ text.length, r.Clean (r.apply^[n] text) := by
  induction hn : text.length using Nat.strong_induction_on generalizing text with
  | _ n ih =>
    subst hn
    by_cases heq : r.apply text = text
    · exact ⟨0, Nat.zero_le _, (clean_iff_apply_eq h).2 heq⟩
    · have hlt := length_apply_lt h heq
      obtain ⟨n, hle, hclean⟩ := ih _ hlt (r.apply text) rfl
      exact ⟨n + 1, by omega, hclean⟩

end Stripping

/-- One literal is stripped clean from all texts if and only if it repeats one character. -/
theorem forall_clean_iff {r : StripRules} {literal : String} (hr : r.literals = [literal])
    (hne : literal ≠ "") :
    (∀ text, r.Clean (r.apply text)) ↔ ∃ c, ∀ d ∈ literal.toList, d = c := by
  have hlist : literal.toList ≠ [] := fun hnil => hne (String.toList_eq_nil_iff.1 hnil)
  have hclean : ∀ text, r.Clean (r.apply text) ↔
      ¬ literal.toList <:+: remove literal.toList text.toList := fun text => by
    rw [Clean, toList_apply, hr]
    simp
  rw [← forall_not_infix_remove_iff hlist]
  constructor
  · intro hall cs
    simpa using (hclean (String.ofList cs)).1 (hall (String.ofList cs))
  · intro hall text
    exact (hclean text).2 (hall text.toList)

end StripRules

/-- A projection is what stripping leaves of the projection without strip rules. -/
theorem exists_project_none {text : String} {file : SourceFile}
    (h : SourceFile.read text = .ok file) (r : StripRules) :
    ∃ whole, project text .none = .ok whole ∧ project text r = .ok (r.apply whole) := by
  obtain ⟨o, ho, hfits, hfile⟩ := exists_outline_of_read h
  obtain ⟨head, hnone, hhead, -⟩ := exists_head hfits hfile
  have hheader := hhead.headerSpanOf_eq
  rw [← hnone] at hheader
  have hproject := fun strip => (projectWith_of_ok ho strip).trans
    (projectOutline_of_ok hheader (structSpansOf_of_ok hfile) strip)
  exact ⟨_, (hproject .none).trans (by rw [StripRules.apply_none]), hproject r⟩

/-- Stripping leaves stretches of a text without a literal. They hold none together if and only if there
is nothing more to strip, which is so after enough rounds, and at once for all texts where the only
literal repeats one character. -/
theorem stripped_leaves {r : StripRules} (h : "" ∉ r.literals) :
    (∀ text, r.Leaves text (r.apply text) ∧ ∃ n ≤ text.length, r.Clean (r.apply^[n] text)) ∧
      (∀ text file, SourceFile.read text = .ok file →
        ∃ whole, project text .none = .ok whole ∧ project text r = .ok (r.apply whole)) ∧
      ∀ literal, r.literals = [literal] →
        ((∀ text, r.Clean (r.apply text)) ↔ ∃ c, ∀ d ∈ literal.toList, d = c) := by
  refine ⟨fun text => ⟨StripRules.leaves_apply h text, StripRules.exists_iterate_clean h text⟩,
    fun text file hread => exists_project_none hread r, fun literal hr => ?_⟩
  refine StripRules.forall_clean_iff hr fun hempty => h ?_
  rw [hr, hempty]
  exact List.mem_singleton_self ""

/-- A comment in which a literal stands within itself. -/
def pairedComment : String := "package x // aabb\n"

theorem outline_pairedComment : outline pairedComment = .ok
    ⟨none, [⟨.packageClause, ⟨0, 0⟩, ⟨9, 0⟩, none, []⟩, ⟨.comment, ⟨10, 0⟩, ⟨17, 0⟩, none, []⟩]⟩ :=
  outline_of_plain (by decide +kernel) (by decide +kernel)

theorem read_pairedComment : SourceFile.read pairedComment = .ok ⟨[]⟩ :=
  SourceFile.readWith_of_ok outline_pairedComment

theorem stripped_leaves_pairedComment :
    ∃ whole out, project pairedComment .none = .ok whole ∧ project pairedComment ⟨["ab"]⟩ = .ok out ∧
      StripRules.Leaves ⟨["ab"]⟩ whole out ∧ ∃ n ≤ 18, StripRules.Clean ⟨["ab"]⟩
        ((StripRules.apply ⟨["ab"]⟩)^[n] pairedComment) := by
  obtain ⟨hleaves, hproject, -⟩ := stripped_leaves (r := ⟨["ab"]⟩) (by decide)
  obtain ⟨whole, hwhole, hout⟩ := hproject _ _ read_pairedComment
  exact ⟨whole, _, hwhole, hout, (hleaves whole).1, (hleaves pairedComment).2⟩

/-- What stands on both sides of the literal makes it up again. -/
theorem project_pairedComment_not_clean :
    ∃ out, SourceFile.read pairedComment = .ok ⟨[]⟩ ∧ "" ∉ (StripRules.mk ["ab"]).literals ∧
      project pairedComment ⟨["ab"]⟩ = .ok out ∧ ¬ StripRules.Clean ⟨["ab"]⟩ out := by
  refine ⟨"package x // ab\n", read_pairedComment, by decide, ?_, by decide +kernel⟩
  rw [project, projectWith_of_ok outline_pairedComment]
  decide +kernel

end StructProjection
