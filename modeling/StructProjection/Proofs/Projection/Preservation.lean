import StructProjection.Proofs.Projection.Joined

/-! # What a projection preserves

Where only blanks and comments follow on the lines that a projection cuts behind, it is read as the
header of the file and its declarations of structs, and as nothing else.
-/

namespace StructProjection

open Text Go

/-- Behind an offset only blanks and whole comments follow on the line, and they are taken in. -/
structure EndsInComments (source : List Char) (is : List Item) (stop : Nat) : Prop where
  taken : extendOverLine source stop = stop + byteLength (restOfLine (dropBytes stop source))
  comments : ∀ i ∈ is, stop ≤ i.start.offset → i.start.offset < extendOverLine source stop →
    i.construct = .comment ∧ i.stop.offset ≤ extendOverLine source stop

/-- The text of the comments that belong to a declaration. -/
def docText (source : List Char) (d : Decl) : Option (List Char) :=
  d.docStart.map fun n => slice n d.span.start source

/-- Declarations in two texts that are written alike and have the same comments. -/
structure SameDecl (source : List Char) (source' : List Char) (d d' : Decl) : Prop where
  kind_eq : d'.kind = d.kind
  specs_eq : d'.specs = d.specs
  text_eq : d'.span.text source' = d.span.text source
  docText_eq : docText source' d' = docText source d

/-- The package clause and the imports, as they are written. -/
def Go.Outline.headerTexts (source : List Char) (o : Outline) : List (Construct × List Char) :=
  (o.items.filter (·.construct.isHeader)).map fun i => (i.construct, i.span.text source)

section Lines

variable {source : List Char} {is : List Item} {stop : Nat} {e : Bool}

theorem length_le_of_no_newline (h : '\n' ∉ restOfLine (dropBytes stop source)) :
    byteLength source ≤ stop + byteLength (restOfLine (dropBytes stop source)) := by
  have hrest : restOfLine (dropBytes stop source) = dropBytes stop source := by
    obtain ⟨line, stop, heq, -, rfl | ⟨rfl, hline⟩⟩ := exists_restOfLine (dropBytes stop source)
    · simp [heq] at h
    · rw [heq, hline, List.append_nil]
  have hlen := congrArg byteLength (takeBytes_append_dropBytes stop source)
  have hle := byteLength_takeBytes_le stop source
  rw [byteLength_append] at hlen
  rw [hrest]
  omega

theorem EndsInComments.endsLine (h : EndsInComments source is stop)
    (hlaid : Laid true .zero source is e) : EndsLine source is stop where
  taken := h.taken
  untorn i hi hle hlt := (h.comments i hi hle hlt).2
  newline i hi hstruct hle := by
    by_contra hnl
    have hlen := length_le_of_no_newline hnl
    have hbounds := hlaid.bounds hi
    simp only [Place.after, Place.zero] at hbounds
    have hcomment := (h.comments i hi hle (by rw [h.taken]; omega)).1
    simp [Item.declaresStruct, hcomment] at hstruct

end Lines

/-- The comments and the declaration of a stretch, as they are written wherever it stands. -/
theorem Site.Formed.exists_texts {s : Site} (h : s.Formed) : ∃ doc text, ∀ pre more d,
    s.declAt (.after .zero pre) = some d →
      d.span.text (pre ++ (s.gap ++ (s.text ++ more))) = text ∧
        docText (pre ++ (s.gap ++ (s.text ++ more))) d = s.docs.head?.map fun _ => doc := by
  obtain ⟨doc, text, htext, hstart, -⟩ := h.exists_text
  refine ⟨doc, text, fun pre more d hd => ?_⟩
  have hbegin : d.span.start = byteLength (pre ++ (s.gap ++ doc)) := by
    simp [span_eq hd, hstart]
  have hend : d.span.stop = byteLength (pre ++ (s.gap ++ doc)) + byteLength text := by
    rw [h.span_stop_eq hd, htext]
    simp [Nat.add_assoc]
  constructor
  · have hsource : pre ++ (s.gap ++ (s.text ++ more)) = (pre ++ (s.gap ++ doc)) ++ (text ++ more) := by
      simp [htext]
    rw [Span.text, hbegin, hend, hsource, slice_append]
  · rw [docText, docStart_eq hd, Option.map_map]
    cases hdocs : s.docs.head? with
    | none => rfl
    | some c =>
      have hc : c.start.offset = byteLength s.gap := by
        have := congrArg Place.offset h.start_eq
        simpa [hdocs, Place.after, Place.zero] using this
      have hsource : pre ++ (s.gap ++ (s.text ++ more)) = (pre ++ s.gap) ++ (doc ++ (text ++ more)) := by
        simp [htext]
      have hbegin' : d.span.start = byteLength (pre ++ s.gap) + byteLength doc := by
        rw [hbegin]
        simp [Nat.add_assoc]
      refine congrArg some ?_
      change slice (byteLength pre + c.start.offset) d.span.start _ = doc
      rw [hc, ← byteLength_append, hsource, hbegin', slice_append]

section Declarations

variable {source out : List Char} {is : List Item} {file : SourceFile} {head : Stretch}
  {ss : List Site}

theorem sameDecl_of_again {s : Site} {d d' : Decl} {pre more : List Char} (hs : s.Holds source is d)
    (h : Again s out d' pre more) : SameDecl source out d d' := by
  obtain ⟨doc, text, htexts⟩ := hs.exists_texts
  obtain ⟨htext, hdoc⟩ := htexts s.pre s.behind d hs.decl_eq
  obtain ⟨htext', hdoc'⟩ := htexts pre (lineTail s.behind ++ more) d' h.decl_eq
  rw [← hs.source_eq] at htext hdoc
  rw [← h.eq_append] at htext' hdoc'
  have hkind : d'.kind = d.kind := by
    simpa using (Site.Formed.kind_eq h.decl_eq).symm.trans (Site.Formed.kind_eq hs.decl_eq)
  refine ⟨hkind, ?_, htext'.trans htext.symm, hdoc'.trans hdoc.symm⟩
  rw [Site.Formed.specs_eq h.decl_eq, Site.Formed.specs_eq hs.decl_eq, hkind]

/-- Where only comments stand on the rest of their lines stretches have one declaration each. -/
theorem forall₂_sameDecl {ds : List Decl} {groups : List (List Decl)}
    (hds : List.Forall₂ (fun d s => s.Whole source is d) ds ss)
    (hgroups : List.Forall₂ (Copied out) ss groups)
    (hcomments : ∀ s ∈ ss, ∀ i ∈ s.stretch.onLine, i.construct = .comment) :
    List.Forall₂ (SameDecl source out) ds groups.flatten := by
  induction hds generalizing groups with
  | nil =>
    cases hgroups
    exact .nil
  | @cons d s ds ss hs _ ih =>
    rcases hgroups with _ | ⟨⟨d', pre, more, p, above, hagain, rfl⟩, hgroups⟩
    have hnone : bodyDecls above (s.stretch.onLine.map (·.moved p)) = [] :=
      bodyDecls_of_comments fun i hi => by
        obtain ⟨j, hj, rfl⟩ := List.mem_map.1 hi
        exact hcomments s List.mem_cons_self j hj
    rw [List.flatten_cons, hnone]
    exact .cons (sameDecl_of_again hs.toHolds hagain)
      (ih hgroups fun t ht => hcomments t (List.mem_cons_of_mem s ht))

/-- The header of a file is written in its beginning. -/
theorem Stretch.IsHead.headerTexts_eq (h : head.IsHead source is) :
    Outline.headerTexts source ⟨none, is⟩ =
      ((head.above ++ [head.item]).filter (·.construct.isHeader)).map fun i =>
        (i.construct, i.span.text head.text) := by
  have hnone : head.after.filter (·.construct.isHeader) = [] := by
    refine List.filter_eq_nil_iff.2 fun i hi => ?_
    have hbody := h.body i hi
    cases hc : i.construct <;> simp_all [Construct.isBody, Construct.isHeader]
  obtain ⟨e, hlaid⟩ := h.laid
  have hitems : is = (head.above ++ [head.item]) ++ head.after := by
    rw [h.items_eq, List.append_cons]
  have hfilter : is.filter (·.construct.isHeader) =
      (head.above ++ [head.item]).filter (·.construct.isHeader) := by
    rw [hitems, List.filter_append, hnone, List.append_nil]
  rw [Outline.headerTexts, hfilter]
  refine List.map_congr_left fun i hi => ?_
  have hmem := (List.mem_filter.1 hi).1
  rw [hitems] at hlaid
  obtain ⟨as, text, bs, hsource, hstart, hstop, -⟩ :=
    hlaid.place_of_mem (List.mem_append_left head.after hmem)
  have hle : byteLength (as ++ text) ≤ byteLength head.text := by
    have hstop' : i.stop.offset ≤ head.item.stop.offset := by
      rcases List.mem_append.1 hmem with habove | hitem
      · have hpairwise := (List.pairwise_append.1 hlaid.pairwise).1
        have hle := (List.pairwise_append.1 hpairwise).2.2 i habove head.item List.mem_cons_self
        have hlt := (hlaid.bounds (i := head.item) (by simp)).2.1
        omega
      · rw [List.mem_singleton.1 hitem]
    simpa [hstop, hstart, h.stop_eq, Place.after, Place.zero] using hstop'
  rw [← List.append_assoc] at hsource
  obtain ⟨more, hmore, -⟩ := exists_append_of_byteLength_le (hsource.symm.trans h.source_eq) hle
  have hspan : i.span = ⟨byteLength as, byteLength as + byteLength text⟩ := by
    simp [Item.span, hstop, hstart, Place.after, Place.zero]
  rw [hspan, Span.text, Span.text, hsource, hmore, List.append_assoc, List.append_assoc, slice_append,
    slice_append]

end Declarations

theorem Stretch.IsHead.construct_of_endsInComments {head : Stretch} {source : List Char}
    {is : List Item} (h : head.IsHead source is)
    (hline : EndsInComments source is (byteLength head.text)) {i : Item} (hi : i ∈ head.onLine) :
    i.construct = .comment := by
  obtain ⟨hafter, hlt⟩ := List.mem_filter.1 hi
  refine (hline.comments i (by simp [h.items_eq, hafter]) (h.le_start hafter) ?_).1
  rw [h.extendOverLine_eq]
  simpa using hlt

theorem Site.Holds.construct_of_endsInComments {s : Site} {source : List Char} {is : List Item}
    {d : Decl} (h : s.Holds source is d) (hline : EndsInComments source is d.span.stop) {i : Item}
    (hi : i ∈ s.stretch.onLine) : i.construct = .comment := by
  obtain ⟨hafter, hlt⟩ := List.mem_filter.1 hi
  have hle := (h.stretch_holds h.decl_eq).le_start hafter
  have hmem : i.moved s.place ∈ is := by
    rw [h.items_eq]
    exact List.mem_append_right _ (List.mem_map_of_mem (by simp [show i ∈ s.after from hafter]))
  have hextend := congrArg Span.stop h.keptSpan_eq
  rw [← Item.construct_moved s.place i]
  refine (hline.comments _ hmem ?_ ?_).1
  · rw [h.span_stop_eq h.decl_eq, byteLength_append]
    exact Nat.add_le_add (Nat.le_of_eq (Nat.zero_add _).symm) hle
  · change _ < (keptSpan source d).stop
    rw [hextend, byteLength_append]
    have hlt : i.start.offset < byteLength s.kept := by simpa [Site.kept] using hlt
    simp only [Item.start_moved, place, Place.add, Place.after, Place.zero]
    omega

end StructProjection
