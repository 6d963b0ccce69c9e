import StructProjection.Proofs.Projection.Joined

/-! # Projecting twice

Where the lines that a projection cuts behind are taken in whole, a second projection changes nothing
unless a struct is declared on what is taken in behind something else. Such a struct is kept twice, and
each further projection keeps it once more.
-/

namespace StructProjection

open Text Go

section Texts

variable {source out : List Char} {is : List Item} {ss : List Site}

private theorem append_eq_iff_of_le {as bs cs : List Char} (h : byteLength cs ≤ byteLength bs) :
    as ++ bs = cs ↔ as = [] ∧ bs = cs := by
  refine ⟨fun heq => ?_, fun ⟨has, hbs⟩ => by rw [has, hbs, List.nil_append]⟩
  have has : as = [] := by
    by_contra hne
    have hpos := byteLength_pos hne
    have hlen := congrArg byteLength heq
    rw [byteLength_append] at hlen
    omega
  rw [has, List.nil_append] at heq
  exact ⟨has, heq⟩

/-- What is kept of a declaration. -/
private def keptText (source : List Char) (d : Decl) : List Char := (keptSpan source d).text source

private theorem flatMap_keptText_eq_nil_iff {ds : List Decl} (h : ∀ d ∈ ds, keptText out d ≠ []) :
    (ds.filter Decl.hasStruct).flatMap (keptText out) = [] ↔ ds.filter Decl.hasStruct = [] := by
  rw [List.flatMap_eq_nil_iff]
  constructor
  · intro hall
    by_contra hne
    obtain ⟨d, hd⟩ := List.exists_mem_of_ne_nil _ hne
    exact h d (List.mem_filter.1 hd).1 (hall d hd)
  · intro hnil d hd
    simp [hnil] at hd

/-- Stretches are kept again as they are, with nothing between them if no struct is declared on the
rest of their lines. -/
private theorem flatMap_keptText {groups : List (List Decl)}
    (hgroups : List.Forall₂ (Copied out) ss groups)
    (hss : ∀ s ∈ ss, ∃ d, s.Whole source is d ∧ d.hasStruct)
    (hne : ∀ d ∈ groups.flatten, keptText out d ≠ []) :
    byteLength (ss.flatMap Site.kept) ≤
        byteLength ((groups.flatten.filter Decl.hasStruct).flatMap (keptText out)) ∧
      ((groups.flatten.filter Decl.hasStruct).flatMap (keptText out) = ss.flatMap Site.kept ↔
        ∀ s ∈ ss, ∀ i ∈ s.stretch.onLine, ¬ i.declaresStruct) := by
  induction hgroups with
  | nil => simp
  | @cons s group ss groups hcopied _ ih =>
    obtain ⟨d', pre, more, p, above, hagain, rfl⟩ := hcopied
    obtain ⟨d, hs, hstruct⟩ := hss s List.mem_cons_self
    obtain ⟨hle, hiff⟩ := ih (fun t ht => hss t (List.mem_cons_of_mem s ht))
      fun d hd => hne d (by simp [hd])
    have hstruct' : d'.hasStruct := by
      rw [Item.hasStruct_of_decl? hagain.decl_eq, Item.declaresStruct_moved,
        ← Item.declaresStruct_moved s.place, ← Item.hasStruct_of_decl? hs.decl_eq, hstruct]
    have htext : keptText out d' = s.kept := hagain.text_keptSpan hs.toFormed hs.whole
    have hline := @flatMap_keptText_eq_nil_iff out (bodyDecls above (s.stretch.onLine.map (·.moved p)))
      fun d hd => hne d (by simp [hd])
    rw [filter_bodyDecls_eq_nil_iff, List.forall_mem_map] at hline
    simp only [List.flatten_cons, List.cons_append, List.filter_cons, hstruct', ↓reduceIte,
      List.filter_append, List.flatMap_cons, List.flatMap_append, htext, List.append_cancel_left_eq,
      List.forall_mem_cons, byteLength_append, append_eq_iff_of_le hle, hline, hiff]
    exact ⟨by omega, Iff.rfl⟩

end Texts

section Swallowed

variable {source : List Char} {is : List Item} {file : SourceFile} {head : Stretch}

theorem mem_bodyDecls_of_declaresStruct {above : List Item} {i : Item} (hi : i ∈ is)
    (hstruct : i.declaresStruct) : ∃ d ∈ bodyDecls above is, d.span = i.span ∧ d.hasStruct := by
  obtain ⟨before, after, rfl⟩ := List.append_of_mem hi
  have hkind : i.construct = .declaration .type := by
    simp only [Item.declaresStruct, Bool.and_eq_true, decide_eq_true_eq] at hstruct
    exact hstruct.1
  obtain ⟨d, hd⟩ : ∃ d, i.decl? (docRun i.start.row (before.reverse ++ above)).reverse = some d := by
    rw [Item.decl?, hkind]
    exact ⟨_, rfl⟩
  refine ⟨d, ?_, (Item.decl?_eq_some hd).2.1, by rwa [Item.hasStruct_of_decl? hd]⟩
  rw [bodyDecls_append, bodyDecls, declAt?_eq_decl?, hd]
  simp

theorem Go.IsHeader.not_declaresStruct {hs : List Item} (h : IsHeader hs) {i : Item} (hi : i ∈ hs) :
    ¬ i.declaresStruct := by
  obtain ⟨cs, p, ms, rfl, hcs, hp, hms, -⟩ := h
  have hne : i.construct ≠ .declaration .type := by
    rcases List.mem_append.1 hi with hi | hi
    · simp [hcs i hi]
    · rcases List.mem_cons.1 hi with rfl | hi
      · simp [hp]
      · rcases hms i hi with hi | hi <;> simp [hi]
  simp [Item.declaresStruct, hne]

/-- A declaration of structs is swallowed if an item that declares one begins there. -/
theorem exists_swallows_iff (h : head.IsHead source is)
    (hdecls : file.decls = bodyDecls (head.item :: head.above.reverse) head.after) (stop : Nat) :
    (∃ d ∈ file.structDecls, Swallows source stop d) ↔
      ∃ i ∈ is, i.declaresStruct ∧ stop ≤ i.start.offset ∧
        i.start.offset < extendOverLine source stop := by
  constructor
  · rintro ⟨d, hd, hle, hlt⟩
    obtain ⟨hmem, hstruct⟩ := List.mem_filter.1 hd
    obtain ⟨before, i, after, hafter, hi⟩ := exists_of_mem_bodyDecls (hdecls ▸ hmem)
    rw [declAt?_eq_decl?] at hi
    have hspan := (Item.decl?_eq_some hi).2.1
    rw [hspan] at hle hlt
    exact ⟨i, by simp [h.items_eq, hafter], by rwa [← Item.hasStruct_of_decl? hi], hle, hlt⟩
  · rintro ⟨i, hi, hstruct, hle, hlt⟩
    rw [h.items_eq, List.append_cons] at hi
    rcases List.mem_append.1 hi with hi | hi
    · exact absurd hstruct (h.header.not_declaresStruct hi)
    · obtain ⟨d, hd, hspan, hds⟩ := mem_bodyDecls_of_declaresStruct hi hstruct
      refine ⟨d, List.mem_filter.2 ⟨hdecls ▸ hd, hds⟩, ?_⟩
      rw [Swallows, hspan]
      exact ⟨hle, hlt⟩

theorem Stretch.IsHead.exists_onLine_iff (h : head.IsHead source is) :
    (∃ i ∈ head.onLine, i.declaresStruct) ↔ ∃ i ∈ is, i.declaresStruct ∧
      byteLength head.text ≤ i.start.offset ∧
        i.start.offset < extendOverLine source (byteLength head.text) := by
  rw [h.extendOverLine_eq]
  constructor
  · rintro ⟨i, hi, hstruct⟩
    obtain ⟨hafter, hlt⟩ := List.mem_filter.1 hi
    exact ⟨i, by simp [h.items_eq, hafter], hstruct, h.le_start hafter, by simpa using hlt⟩
  · rintro ⟨i, hi, hstruct, -, hlt⟩
    rw [h.items_eq, List.append_cons] at hi
    rcases List.mem_append.1 hi with hi | hi
    · exact absurd hstruct (h.header.not_declaresStruct hi)
    · exact ⟨i, List.mem_filter.2 ⟨hi, by simpa using hlt⟩, hstruct⟩

theorem Site.Holds.exists_onLine_iff {s : Site} {d : Decl} {e : Bool} (h : s.Holds source is d)
    (hlaid : Laid true .zero source is e) :
    (∃ i ∈ s.stretch.onLine, i.declaresStruct) ↔ ∃ i ∈ is, i.declaresStruct ∧
      d.span.stop ≤ i.start.offset ∧ i.start.offset < extendOverLine source d.span.stop := by
  have hstop := h.span_stop_eq h.decl_eq
  have hextend : extendOverLine source d.span.stop = byteLength (s.pre ++ s.kept) :=
    congrArg Span.stop h.keptSpan_eq
  have hstretch := h.stretch_holds h.decl_eq
  rw [hextend, hstop]
  constructor
  · rintro ⟨j, hj, hstruct⟩
    obtain ⟨hafter, hlt⟩ := List.mem_filter.1 hj
    have hle := hstretch.le_start hafter
    refine ⟨j.moved s.place, ?_, hstruct, ?_, ?_⟩
    · rw [h.items_eq]
      exact List.mem_append_right _ (List.mem_map_of_mem (by simp [show j ∈ s.after from hafter]))
    · rw [byteLength_append]
      simpa [place, Place.add, Place.after, Place.zero, stretch] using hle
    · rw [byteLength_append]
      simpa [place, Place.add, Place.after, Place.zero, kept] using hlt
  · rintro ⟨i, hi, hstruct, hle, hlt⟩
    have hpos := (hlaid.bounds hi).2.1
    rw [h.items_eq] at hi
    simp only [byteLength_append] at hle hlt
    rcases List.mem_append.1 hi with hi | hi
    · have := h.stop_le i hi
      omega
    · obtain ⟨j, hj, rfl⟩ := List.mem_map.1 hi
      have hend : s.item.stop.offset = byteLength s.gap + byteLength s.text := by
        simpa [stretch] using hstretch.stop_offset
      have hoffset : (j.moved s.place).start.offset = byteLength s.pre + j.start.offset := by
        simp [place, Place.add, Place.after, Place.zero]
      obtain ⟨e', hrel⟩ := h.laid
      have hitem := (hrel.bounds (i := s.item) (by simp)).2.1
      have hj' := (hrel.bounds hj).2.1
      refine ⟨j, List.mem_filter.2 ⟨?_, ?_⟩, hstruct⟩
      · rcases List.mem_append.1 hj with hj | hj
        · have := (List.pairwise_append.1 hrel.pairwise).2.2 j hj s.item List.mem_cons_self
          omega
        · rcases List.mem_cons.1 hj with rfl | hj
          · omega
          · exact hj
      · have hkept : j.start.offset < byteLength s.kept := by omega
        simpa [kept] using hkept

theorem Joined.forall_onLine_iff {ss : List Site} (h : Joined source is file head ss) :
    (∀ i ∈ head.onLine, ¬ i.declaresStruct) ↔
      ∀ d ∈ file.structDecls, ¬ Swallows source (byteLength head.text) d := by
  have hiff := h.isHead.exists_onLine_iff.trans (exists_swallows_iff h.isHead h.decls_eq _).symm
  simpa using not_congr hiff

theorem Joined.forall_sites_iff {ss : List Site} (h : Joined source is file head ss) :
    (∀ s ∈ ss, ∀ i ∈ s.stretch.onLine, ¬ i.declaresStruct) ↔
      ∀ d ∈ file.structDecls, ∀ d' ∈ file.structDecls, ¬ Swallows source d.span.stop d' := by
  obtain ⟨e, hlaid⟩ := h.isHead.laid
  have hiff : ∀ (d : Decl) (s : Site), s.Whole source is d →
      ((∀ i ∈ s.stretch.onLine, ¬ i.declaresStruct) ↔
        ∀ d' ∈ file.structDecls, ¬ Swallows source d.span.stop d') := fun d s hs => by
    have hiff := (hs.toHolds.exists_onLine_iff hlaid).trans
      (exists_swallows_iff h.isHead h.decls_eq d.span.stop).symm
    simpa using not_congr hiff
  constructor
  · intro hss d hd
    obtain ⟨s, hs, hwhole⟩ := exists_mem_of_forall₂ h.sites.flip hd
    exact (hiff d s hwhole).1 (hss s hs)
  · intro hds s hs
    obtain ⟨d, hd, hwhole⟩ := exists_mem_of_forall₂ h.sites hs
    exact (hiff d s hwhole).2 (hds d hd)

end Swallowed

theorem outline_commentedLine_again : outline (commentedLine ++ "type A struct{} /* b */\n") = .ok
    ⟨none, [⟨.packageClause, ⟨0, 0⟩, ⟨9, 0⟩, none, []⟩, ⟨.comment, ⟨10, 0⟩, ⟨17, 0⟩, none, []⟩,
      ⟨.declaration .type, ⟨19, 0⟩, ⟨34, 0⟩, none, [⟨"A", .struct⟩]⟩,
      ⟨.comment, ⟨35, 0⟩, ⟨42, 0⟩, none, []⟩,
      ⟨.declaration .type, ⟨43, 1⟩, ⟨58, 1⟩, none, [⟨"A", .struct⟩]⟩,
      ⟨.comment, ⟨59, 1⟩, ⟨66, 1⟩, none, []⟩]⟩ :=
  outline_of_plain (by decide +kernel) (by decide +kernel)

end StructProjection
