import StructProjection.Proofs.Projection.Site

/-! # The header of a file that is accepted

The header can be read on its own. Where the whole file is accepted, the header that is found ends with
the last import, and no declaration or comment that belongs to one begins before that.
-/

namespace StructProjection

open Text Go

/-- The header of an outline ends at an offset: with the last import, or with the only package clause
where there is no import. -/
structure Go.Outline.HeaderEndsAt (o : Outline) (stop : Nat) : Prop where
  last : ∃ p, o.items.filter (·.construct = .packageClause) = [p] ∧
    stop = ((o.items.filter (·.construct = .importDeclaration)).getLast?.getD p).stop.offset
  imports : ∀ i ∈ o.items, i.construct = .importDeclaration → i.stop.offset ≤ stop

section Headers

variable {hs bs : List Item}

private theorem filter_body {c : Construct} (hc : c.isHeader) (hbs : ∀ b ∈ bs, b.construct.isBody) :
    bs.filter (·.construct = c) = [] := by
  refine List.filter_eq_nil_iff.2 fun b hb => ?_
  have hbody := hbs b hb
  intro heq
  rw [of_decide_eq_true heq] at hbody
  cases c <;> simp_all [Construct.isBody, Construct.isHeader]

/-- A header has one package clause, and ends with its last import or else with that. -/
theorem Go.IsHeader.exists_last_import {last : Item} (h : IsHeader (hs ++ [last]))
    (hbs : ∀ b ∈ bs, b.construct.isBody) :
    ∃ p, (hs ++ [last] ++ bs).filter (·.construct = .packageClause) = [p] ∧
      last = ((hs ++ [last] ++ bs).filter (·.construct = .importDeclaration)).getLast?.getD p := by
  obtain ⟨cs, p, ms, heq, hcs, hp, hms, hlast⟩ := h
  have hpackage : ms.filter (·.construct = .packageClause) = [] :=
    List.filter_eq_nil_iff.2 fun m hm => by rcases hms m hm with h | h <;> simp [h]
  have hcomments : ∀ c : Construct, c ≠ .comment → cs.filter (·.construct = c) = [] := fun c hc =>
    List.filter_eq_nil_iff.2 fun m hm => by simp [hcs m hm, Ne.symm hc]
  have hend : last = ms.getLast?.getD p := by
    have := congrArg List.getLast? heq
    simpa [List.getLast?_append, List.getLast?_cons] using this
  refine ⟨p, ?_, ?_⟩
  · rw [heq, List.filter_append, filter_body rfl hbs, List.filter_append, hcomments _ (by simp),
      List.filter_cons_of_pos (by simp [hp]), hpackage]
    rfl
  · rw [heq, List.filter_append, filter_body rfl hbs, List.filter_append, hcomments _ (by simp),
      List.filter_cons_of_neg (by simp [hp]), List.nil_append, List.append_nil, hend]
    rcases List.eq_nil_or_concat ms with rfl | ⟨ns, m, rfl⟩
    · rfl
    · have hm := hlast m (by simp)
      simp [List.filter_append, hm]

end Headers

section Files

variable {source : List Char} {is : List Item} {head : Stretch}

theorem Stretch.IsHead.headerEndsAt (h : head.IsHead source is) :
    Outline.HeaderEndsAt ⟨none, is⟩ (byteLength head.text) := by
  have hitems : is = head.above ++ [head.item] ++ head.after := by
    rw [h.items_eq, List.append_cons]
  obtain ⟨p, hp, hlast⟩ := h.header.exists_last_import h.body
  rw [← hitems] at hp hlast
  refine ⟨⟨p, hp, ?_⟩, fun i hi hc => ?_⟩
  · rw [← hlast, h.stop_offset]
  · rw [hitems] at hi
    rcases List.mem_append.1 hi with hi | hi
    · exact h.stop_le_text hi
    · have hbody := h.body i hi
      simp [hc, Construct.isBody] at hbody

/-- The comments that belong to a declaration stand behind the header. -/
theorem Stretch.IsHead.le_leadingStart (h : head.IsHead source is) {d : Decl}
    (hd : d ∈ bodyDecls (head.item :: head.above.reverse) head.after) :
    byteLength head.text ≤ d.leadingStart := by
  obtain ⟨-, s, hs, hbefore⟩ := h.exists_site hd
  have hle := hs.stop_le head.item hbefore
  rw [h.stop_offset] at hle
  rw [hs.leadingStart_eq hs.decl_eq, byteLength_append]
  omega

end Files

/-- An outline is projected exactly if it is the one of a file, where each file has a header. -/
theorem exists_projectOutline_iff {source : List Char} {o : Outline}
    (h : ∀ file, o.sourceFile source = .ok file → ∃ stop, o.headerEnd source = .ok stop)
    (strip : StripRules) :
    (∃ out, projectOutline source strip o = .ok out) ↔ ∃ file, o.sourceFile source = .ok file := by
  rw [projectOutline, headerSpanOf, structSpansOf]
  cases hfile : o.sourceFile source with
  | error d => cases o.headerEnd source <;> simp [bind, Except.bind, pure, Except.pure]
  | ok file =>
    obtain ⟨stop, hstop⟩ := h file hfile
    simp [hstop, bind, Except.bind, pure, Except.pure]

/-- Where a file is accepted its header is read, with the same imports, and stands before all
declarations with their comments. So a text is projected if and only if it is accepted. -/
theorem headerEnd_of_read (text : String) :
    (∀ file, SourceFile.read text = .ok file → ∃ o stop, outline text = .ok o ∧
        headerEnd text = .ok stop ∧ o.HeaderEndsAt stop ∧ ∀ d ∈ file.decls, stop ≤ d.leadingStart) ∧
      ∀ strip, (∃ out, project text strip = .ok out) ↔ ∃ file, SourceFile.read text = .ok file := by
  have hhead : ∀ file, SourceFile.read text = .ok file → ∃ o stop, outline text = .ok o ∧
      o.headerEnd text.toList = .ok stop ∧ o.HeaderEndsAt stop ∧
        ∀ d ∈ file.decls, stop ≤ d.leadingStart := by
    intro file hread
    obtain ⟨o, ho, hfits, hfile⟩ := exists_outline_of_read hread
    obtain ⟨head, hnone, h, hdecls⟩ := exists_head hfits hfile
    refine ⟨o, byteLength head.text, ho, ?_, ?_, fun d hd => h.le_leadingStart (hdecls ▸ hd)⟩
    · rw [hnone]
      exact h.headerEnd_eq
    · rw [hnone]
      exact h.headerEndsAt
  refine ⟨fun file hread => ?_, fun strip => ?_⟩
  · obtain ⟨o, stop, ho, hstop, hlast, hdecls⟩ := hhead file hread
    refine ⟨o, stop, ho, ?_, hlast, hdecls⟩
    rw [headerEnd, ho]
    exact hstop
  · cases ho : outline text with
    | error d =>
      simp [project, projectWith, SourceFile.read, SourceFile.readWith, ho, bind, Except.bind]
    | ok o =>
      rw [project, projectWith_of_ok ho, SourceFile.read, SourceFile.readWith_of_ok ho]
      refine exists_projectOutline_iff (fun file hfile => ?_) strip
      obtain ⟨o', stop, ho', hstop, -⟩ := hhead file ((SourceFile.readWith_of_ok ho).trans hfile)
      obtain rfl := Except.ok.inj (ho.symm.trans ho')
      exact ⟨stop, hstop⟩

/-- A file with a comment between its imports and one behind the last. -/
def importingFile : String :=
  "package x\n\nimport \"fmt\"\n// B\nimport \"os\" // C\n// A is kept.\ntype A struct{}\n"

theorem outline_importingFile : outline importingFile = .ok
    ⟨none, [⟨.packageClause, ⟨0, 0⟩, ⟨9, 0⟩, none, []⟩,
      ⟨.importDeclaration, ⟨11, 2⟩, ⟨23, 2⟩, none, []⟩, ⟨.comment, ⟨24, 3⟩, ⟨28, 3⟩, none, []⟩,
      ⟨.importDeclaration, ⟨29, 4⟩, ⟨40, 4⟩, none, []⟩, ⟨.comment, ⟨41, 4⟩, ⟨45, 4⟩, none, []⟩,
      ⟨.comment, ⟨46, 5⟩, ⟨59, 5⟩, none, []⟩,
      ⟨.declaration .type, ⟨60, 6⟩, ⟨75, 6⟩, none, [⟨"A", .struct⟩]⟩]⟩ :=
  outline_of_plain (by decide +kernel) (by decide +kernel)

/-- The header ends with the second import, and the comment behind that belongs to nothing. -/
theorem headerEnd_of_read_importingFile :
    headerEnd importingFile = .ok 40 ∧
      SourceFile.read importingFile = .ok ⟨[⟨.type, ⟨60, 75⟩, some 46, [⟨"A", .struct⟩]⟩]⟩ ∧
      ∃ out, project importingFile .standard = .ok out := by
  have hread : SourceFile.read importingFile =
      .ok ⟨[⟨.type, ⟨60, 75⟩, some 46, [⟨"A", .struct⟩]⟩]⟩ :=
    SourceFile.readWith_of_ok outline_importingFile
  obtain ⟨hhead, hproject⟩ := headerEnd_of_read importingFile
  obtain ⟨o, stop, ho, hstop, ⟨⟨p, hp, hlast⟩, -⟩, -⟩ := hhead _ hread
  obtain rfl := Except.ok.inj (outline_importingFile.symm.trans ho)
  refine ⟨?_, hread, (hproject .standard).2 ⟨_, hread⟩⟩
  rw [hstop, hlast]
  rfl

end StructProjection
