import StructProjection.Proofs.Go.Linewise
import StructProjection.Proofs.Projection.Site

/-! # Seams

A projection puts stretches of a file one behind the other. Where each of them takes in its whole line,
the projection is read as the items of the stretches, each at its new place.
-/

namespace StructProjection

open Text Go

/-- The stretch at a site of a source file takes in its whole line. -/
structure Site.Whole (s : Site) (source : List Char) (is : List Item) (d : Decl) : Prop
    extends s.Holds source is d where
  whole : s.stretch.Whole
  body : ∀ i ∈ s.docs ++ s.item :: s.after, i.construct.isBody

/-- The items of stretches that stand one behind the other from a place on. -/
def joinedItems : Place → List Site → List Item
  | _, [] => []
  | p, s :: ss => s.stretch.items.map (·.moved p) ++ joinedItems (p.after s.kept) ss

theorem Site.Whole.isBody_items {s : Site} {source : List Char} {is : List Item} {d : Decl}
    (h : s.Whole source is d) {i : Item} (hi : i ∈ s.stretch.items) : i.construct.isBody := by
  refine h.body i ?_
  rcases List.mem_append.1 hi with hi | hi
  · exact List.mem_append_left _ hi
  · refine List.mem_append_right _ ?_
    rcases List.mem_cons.1 hi with rfl | hi
    · exact List.mem_cons_self
    · exact List.mem_cons_of_mem _ (List.mem_filter.1 hi).1

theorem isBody_of_mem_joinedItems {source : List Char} {is : List Item} {ss : List Site}
    (hss : ∀ s ∈ ss, ∃ d, s.Whole source is d) {p : Place} {i : Item} (hi : i ∈ joinedItems p ss) :
    i.construct.isBody := by
  induction ss generalizing p with
  | nil => simp [joinedItems] at hi
  | cons s ss ih =>
    rcases List.mem_append.1 hi with hi | hi
    · obtain ⟨j, hj, rfl⟩ := List.mem_map.1 hi
      obtain ⟨d, hs⟩ := hss s List.mem_cons_self
      rw [Item.construct_moved]
      exact hs.isBody_items hj
    · exact ih (fun t ht => hss t (List.mem_cons_of_mem s ht)) hi

section Reading

variable {r : Reader} {text : String} {as bs : List Char} {is js items : List Item} {d : Decl}
  {s : Site} {ss : List Site}

/-- A stretch of a file that is read is read behind any line. -/
theorem Go.Reader.Reads.append_kept (hr : r.Linewise) (h : r.Reads as is bs js)
    (hend : as.getLast? = some '\n') (hpackage : ∃ i ∈ is, i.construct = .packageClause)
    (htext : r text = .ok ⟨none, items⟩) (hs : s.Whole text.toList items d) :
    ∃ cs ks, r.Reads (as ++ s.kept) (is ++ s.stretch.items.map (·.moved (.after .zero as))) cs ks ∧
      ('\n' ∈ lineTail s.behind ∨ cs = []) := by
  obtain ⟨e, hlaid⟩ := hs.laid
  have hsource : r.Reads s.pre s.before (s.gap ++ (s.text ++ s.behind))
      (s.docs ++ s.item :: s.after) := by
    refine ⟨?_, hs.stop_le⟩
    rw [← hs.source_eq, String.ofList_toList, htext]
    exact congrArg (fun is => Except.ok (Outline.mk none is)) hs.items_eq
  have hread := hr.resume h hend hpackage hsource hs.body (itemsFit_of_laid hlaid)
  have hstretch := hs.stretch_holds hs.decl_eq
  obtain ⟨rest, ks, hcut, hitems, hnl⟩ := hstretch.exists_cut hs.whole
  rw [hcut, hitems] at hread
  exact ⟨rest, ks, hread.shift fun i hi => hstretch.stop_le hs.whole hi, hnl⟩

/-- Stretches that stand one behind the other are read as their items. -/
theorem Go.Reader.Reads.append_joined (hr : r.Linewise) (htext : r text = .ok ⟨none, items⟩)
    (hss : ∀ s ∈ ss, ∃ d, s.Whole text.toList items d)
    (hnl : ss.Pairwise fun s _ => '\n' ∈ lineTail s.behind) (h : r.Reads as is bs js)
    (hend : as.getLast? = some '\n' ∨ ss = [] ∧ bs = [])
    (hpackage : ∃ i ∈ is, i.construct = .packageClause) :
    r (String.ofList (as ++ ss.flatMap Site.kept)) =
      .ok ⟨none, is ++ joinedItems (.after .zero as) ss⟩ := by
  -- What has been put down ends with a line, or nothing comes behind it.
  induction ss generalizing as bs is js with
  | nil =>
    have hend : as.getLast? = some '\n' ∨ bs = [] := hend.imp_right And.right
    simpa [joinedItems] using h.ok_left hr hend hpackage
  | cons s ss ih =>
    obtain ⟨d, hs⟩ := hss s List.mem_cons_self
    have hend : as.getLast? = some '\n' := hend.resolve_right (by simp)
    obtain ⟨cs, ks, hkept, hcs⟩ := h.append_kept hr hend hpackage htext hs
    have hmore := ih (fun t ht => hss t (List.mem_cons_of_mem s ht)) hnl.of_cons hkept ?_ ?_
    · rw [List.append_assoc] at hmore
      rw [List.flatMap_cons, joinedItems, Place.after_after]
      simpa using hmore
    · rcases hcs with hcs | hcs
      · exact .inl (Stretch.getLast?_kept (s := s.stretch) hcs as)
      · cases ss with
        | nil => exact .inr ⟨rfl, hcs⟩
        | cons t ss =>
          have htail := List.rel_of_pairwise_cons hnl List.mem_cons_self
          exact .inl (Stretch.getLast?_kept (s := s.stretch) htail as)
    · obtain ⟨i, hi, hc⟩ := hpackage
      exact ⟨i, List.mem_append_left _ hi, hc⟩

end Reading

/-- What stands above the next stretch: whole lines, of which nothing belongs to what is below. -/
structure Front (as : List Char) (above : List Item) : Prop where
  newline : as.getLast? = some '\n'
  gapLines_eq : gapLines as = []
  docRun_eq : ∀ row, docRun row above = []
  row_lt : ∀ i ∈ above.head?, i.stop.row < (Place.zero.after as).row

/-- A stretch that ends with its line leaves a front. -/
theorem Stretch.Holds.front {s : Stretch} {source : List Char} {is : List Item}
    (h : s.Holds source is) (hw : s.Whole) (hnl : '\n' ∈ lineTail s.behind) (as : List Char)
    (above : List Item) :
    Front (as ++ s.kept) ((s.items.map (·.moved (.after .zero as))).reverse ++ above) where
  newline := getLast?_kept hnl as
  gapLines_eq := h.gapLines_kept as
  docRun_eq row := h.docRun_items hw _ row above
  row_lt i hi := by
    have hlast : ∃ j ∈ s.items.getLast?, i = j.moved (.after .zero as) := by
      rw [List.head?_append, List.head?_reverse, List.getLast?_map] at hi
      cases hl : s.items.getLast? with
      | none => simp [items] at hl
      | some j => exact ⟨j, rfl, by simpa [hl, eq_comm] using hi⟩
    obtain ⟨j, hj, rfl⟩ := hlast
    have hrow := h.row_lt hw hnl hj
    simp only [Item.stop_moved, Place.add, Place.after, Place.zero, List.count_append] at hrow ⊢
    omega

section Declarations

variable {as source out : List Char} {above is items : List Item} {d : Decl} {s : Site}
  {ss : List Site}

/-- Below a front a stretch has its declaration again, with the comments that belong to it. -/
theorem Site.Holds.bodyDecls_items (h : s.Holds source items d) (hf : Front as above) :
    ∃ d', s.declAt (.after .zero as) = some d' ∧ ∃ above',
      bodyDecls above (s.stretch.items.map (·.moved (.after .zero as))) =
        d' :: bodyDecls above' (s.stretch.onLine.map (·.moved (.after .zero as))) := by
  have hitem : s.declAt (.after .zero as) =
      some { kind := d.kind, span := (s.item.moved (.after .zero as)).span
             docStart := (s.docs.map (·.moved (.after .zero as))).head?.map (·.start.offset)
             specs := if d.kind = .type then s.item.specs else [] } := by
    rw [declAt, Item.decl?, Item.construct_moved, Formed.kind_eq h.decl_eq]
    rfl
  refine ⟨_, hitem, s.item.moved (.after .zero as) ::
    ((s.docs.map (·.moved (.after .zero as))).reverse ++ above), ?_⟩
  have hdocs : ∀ i ∈ s.docs, i.construct = .comment := fun i hi =>
    construct_of_mem_docRun (h.docs_eq ▸ List.mem_reverse.2 hi)
  have hnone : bodyDecls above (s.docs.map (·.moved (.after .zero as))) = [] :=
    bodyDecls_of_comments fun i hi => by
      obtain ⟨j, hj, rfl⟩ := List.mem_map.1 hi
      exact hdocs j hj
  have hrun : docRun (s.item.moved (.after .zero as)).start.row
      ((s.docs.map (·.moved (.after .zero as))).reverse ++ above) =
        (s.docs.map (·.moved (.after .zero as))).reverse := by
    refine docRun_append ?_ (fun i hi c hc => ?_) hf.docRun_eq
    · rw [← List.map_reverse, Item.start_moved]
      exact (docRun_moved _ _ _).trans (congrArg _ h.docs_eq)
    · have hrow := hf.row_lt i hi
      rw [List.getLast?_reverse, List.head?_map] at hc
      obtain ⟨c, -, rfl⟩ := Option.map_eq_some_iff.1 hc
      simp only [Item.start_moved, Place.add]
      omega
  rw [Stretch.items, stretch, List.map_append, List.map_cons, bodyDecls_append, hnone, List.nil_append,
    bodyDecls, declAt?_eq_decl?, hrun, List.reverse_reverse]
  exact congrArg (fun d => Option.toList d ++ _) hitem

/-- The stretch of a site stands between two texts again, with its declaration. -/
structure Again (s : Site) (out : List Char) (d : Decl) (pre more : List Char) : Prop where
  eq_append : out = pre ++ (s.gap ++ (s.text ++ (lineTail s.behind ++ more)))
  decl_eq : s.declAt (.after .zero pre) = some d
  newline : '\n' ∈ lineTail s.behind ∨ more = []
  gap_eq : gapLines (pre ++ s.gap) = s.gap

/-- The same is kept of it. -/
theorem Again.text_keptSpan {pre more : List Char} (h : Again s out d pre more) (hs : s.Formed)
    (hw : s.stretch.Whole) : (keptSpan out d).text out = s.kept := by
  have htail : lineTail (lineTail s.behind ++ more) = lineTail s.behind :=
    hw.isTail.lineTail_append h.newline
  rw [h.eq_append, hs.text_keptSpan h.decl_eq h.gap_eq, htail, Site.kept, Stretch.kept, Site.stretch,
    List.append_assoc]

theorem Site.Holds.isGap (h : s.Holds source items d) : ∀ c ∈ s.gap, isGap c := fun _ hc =>
  isGap_of_mem_gapLines (h.gap_eq.symm ▸ hc)

/-- Below a front stands the stretch again, and then what it has left stands below a front. -/
theorem Site.Whole.again (h : s.Whole source items d) (hf : Front as above) {more : List Char}
    (hnl : '\n' ∈ lineTail s.behind ∨ more = []) :
    ∃ d', Again s (as ++ (s.kept ++ more)) d' as more ∧ ∃ above',
      bodyDecls above (s.stretch.items.map (·.moved (.after .zero as))) =
        d' :: bodyDecls above' (s.stretch.onLine.map (·.moved (.after .zero as))) := by
  obtain ⟨d', hd', hdecls⟩ := h.bodyDecls_items hf
  refine ⟨d', ⟨?_, hd', hnl, gapLines_append_gap hf.gapLines_eq hf.newline h.isGap⟩, hdecls⟩
  rw [kept, Stretch.kept, stretch]
  simp

/-- The stretch stands in a text again, with its declaration and those on the rest of its line. -/
def Copied (out : List Char) (s : Site) (ds : List Decl) : Prop :=
  ∃ d pre more p above, Again s out d pre more ∧
    ds = d :: bodyDecls above (s.stretch.onLine.map (·.moved p))

/-- Below a front the declarations of stretches that stand one behind the other are those of each. -/
theorem exists_copied (hss : ∀ s ∈ ss, ∃ d, s.Whole source items d)
    (hnl : ss.Pairwise fun s _ => '\n' ∈ lineTail s.behind) (hf : ss ≠ [] → Front as above) :
    ∃ groups : List (List Decl),
      bodyDecls above (joinedItems (.after .zero as) ss) = groups.flatten ∧
        List.Forall₂ (Copied (as ++ ss.flatMap Site.kept)) ss groups := by
  -- Each stretch leaves a front for the next one.
  induction ss generalizing as above with
  | nil => exact ⟨[], rfl, .nil⟩
  | cons s ss ih =>
    obtain ⟨d, hs⟩ := hss s List.mem_cons_self
    have htail : ss = [] ∨ '\n' ∈ lineTail s.behind := by
      cases ss with
      | nil => exact .inl rfl
      | cons t ss => exact .inr (List.rel_of_pairwise_cons hnl List.mem_cons_self)
    have hmore : '\n' ∈ lineTail s.behind ∨ ss.flatMap Site.kept = [] :=
      htail.symm.imp_right fun h => by rw [h, List.flatMap_nil]
    obtain ⟨d', hagain, above', hdecls⟩ := hs.again (hf (List.cons_ne_nil s ss)) hmore
    obtain ⟨groups, hmore, hgroups⟩ := @ih (as ++ s.kept)
      ((s.stretch.items.map (·.moved (.after .zero as))).reverse ++ above)
      (fun t ht => hss t (List.mem_cons_of_mem s ht)) hnl.of_cons
      (fun hne => (hs.stretch_holds hs.decl_eq).front hs.whole (htail.resolve_left hne) as above)
    rw [List.append_assoc] at hgroups
    refine ⟨_ :: groups, ?_, .cons ⟨d', as, _, .after .zero as, above', hagain, rfl⟩ hgroups⟩
    rw [joinedItems, bodyDecls_append, hdecls, Place.after_after, hmore, List.flatten_cons]

end Declarations

end StructProjection
