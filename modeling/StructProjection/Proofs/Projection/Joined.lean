import StructProjection.Proofs.Go.LineReader
import StructProjection.Proofs.Lists
import StructProjection.Proofs.Projection.Disjoint
import StructProjection.Proofs.Projection.Seams

/-! # Projections of files that are cut at the ends of lines

Where the lines that a projection cuts behind are taken in whole, what it keeps are stretches of the
file, which are found again when the projection is read.
-/

namespace StructProjection

open Text Go

/-- An item that declares a struct. -/
def Go.Item.declaresStruct (i : Item) : Bool :=
  i.construct = .declaration .type && i.specs.any (·.shape = .struct)

/-- The rest of the line behind an offset is taken in, no item is torn at its end, and it has an end if
a struct is declared further down. -/
structure EndsLine (source : List Char) (is : List Item) (stop : Nat) : Prop where
  taken : extendOverLine source stop = stop + byteLength (restOfLine (dropBytes stop source))
  untorn : ∀ i ∈ is, stop ≤ i.start.offset → i.start.offset < extendOverLine source stop →
    i.stop.offset ≤ extendOverLine source stop
  newline : ∀ i ∈ is, i.declaresStruct → stop ≤ i.start.offset →
    '\n' ∈ restOfLine (dropBytes stop source)

theorem Go.Item.hasStruct_of_decl? {docs : List Item} {i : Item} {d : Decl}
    (h : i.decl? docs = some d) : d.hasStruct = i.declaresStruct := by
  obtain ⟨hkind, -, -, hspecs⟩ := decl?_eq_some h
  rw [Decl.hasStruct, hspecs, declaresStruct, hkind]
  by_cases hd : d.kind = .type <;> simp [hd]

theorem Go.Item.declaresStruct_moved (p : Place) (i : Item) :
    (i.moved p).declaresStruct = i.declaresStruct := rfl

/-- No struct is declared among items of which none declares one. -/
theorem filter_bodyDecls_eq_nil_iff {above is : List Item} :
    (bodyDecls above is).filter Decl.hasStruct = [] ↔ ∀ i ∈ is, ¬ i.declaresStruct := by
  induction is generalizing above with
  | nil => simp [bodyDecls]
  | cons i is ih =>
    rw [bodyDecls, List.filter_append, List.append_eq_nil_iff, ih, List.forall_mem_cons]
    refine and_congr_left fun _ => ?_
    rw [declAt?_eq_decl?]
    cases hd : i.decl? (docRun i.start.row above).reverse with
    | some d => simp [← Item.hasStruct_of_decl? hd]
    | none =>
      have hi : i.declaresStruct = false := by
        unfold Item.decl? at hd
        rw [Item.declaresStruct]
        split at hd
        · simp at hd
        · next hne => simpa using fun h => absurd h (hne .type)
      simp [hi]

section Stretches

variable {source : List Char} {is : List Item} {d : Decl}

private theorem whole_of_endsLine {h : Stretch} {pre : List Char}
    (hsource : source = pre ++ (h.text ++ h.behind))
    (hmem : ∀ i ∈ h.after, i.moved (.after .zero pre) ∈ is)
    (hle : ∀ i ∈ h.after, byteLength h.text ≤ i.start.offset)
    (hline : EndsLine source is (byteLength (pre ++ h.text))) : h.Whole := by
  rw [← List.append_assoc] at hsource
  have hextend : extendOverLine source (byteLength (pre ++ h.text)) =
      byteLength pre + byteLength h.kept := by
    rw [hsource, extendOverLine_append, List.append_assoc, byteLength_append, Stretch.kept]
  have htaken := hline.taken
  rw [hextend, hsource, dropBytes_byteLength_append, Stretch.kept] at htaken
  simp only [byteLength_append] at htaken
  refine ⟨lineTail_eq_of_byteLength (by omega), fun i hi hlt => ?_⟩
  have hstop := hline.untorn _ (hmem i hi)
  rw [hextend] at hstop
  have hstart := hle i hi
  simp only [Item.start_moved, Item.stop_moved, Place.add, Place.after, Place.zero,
    byteLength_append] at hstop
  omega

theorem Stretch.IsHead.whole {h : Stretch} (hh : h.IsHead source is)
    (hline : EndsLine source is (byteLength h.text)) : h.Whole := by
  refine whole_of_endsLine ((List.nil_append _).symm ▸ hh.source_eq) (fun i hi => ?_)
    (fun i hi => hh.le_start hi) ((List.nil_append h.text).symm ▸ hline)
  simp [hh.items_eq, hi]

theorem Site.Holds.whole {s : Site} (h : s.Holds source is d)
    (hline : EndsLine source is d.span.stop) : s.stretch.Whole := by
  rw [h.span_stop_eq h.decl_eq] at hline
  have hsource : source = s.pre ++ (s.stretch.text ++ s.stretch.behind) := by
    rw [h.source_eq, stretch, List.append_assoc]
  refine whole_of_endsLine hsource (fun i hi => ?_)
    (fun i hi => (h.stretch_holds h.decl_eq).le_start hi) hline
  · rw [h.items_eq]
    exact List.mem_append_right _ (List.mem_map_of_mem (by simp [show i ∈ s.after from hi]))

/-- What stands behind the header of a file are comments and declarations. -/
theorem Stretch.IsHead.isBody {h : Stretch} (hh : h.IsHead source is) {i : Item} (hi : i ∈ is)
    (hstart : h.item.stop.offset ≤ i.start.offset) : i.construct.isBody := by
  obtain ⟨e, hlaid⟩ := hh.laid
  have hlt := (hlaid.bounds hi).2.1
  rw [hh.items_eq, List.append_cons] at hi
  rcases List.mem_append.1 hi with hheader | hafter
  · have hle := hh.stop_le_text hheader
    rw [hh.stop_offset] at hstart
    omega
  · exact hh.body i hafter

end Stretches

/-- The stretches that a projection keeps of a file: its head, and one for each declaration of structs. -/
structure Joined (source : List Char) (is : List Item) (file : SourceFile) (head : Stretch)
    (ss : List Site) : Prop where
  isHead : head.IsHead source is
  decls_eq : file.decls = bodyDecls (head.item :: head.above.reverse) head.after
  whole : head.Whole
  sites : List.Forall₂ (fun d s => s.Whole source is d) file.structDecls ss
  newline : ss.Pairwise fun s _ => '\n' ∈ lineTail s.behind
  newline_head : ss ≠ [] → '\n' ∈ lineTail head.behind

section Existence

variable {source : List Char} {o : Outline} {file : SourceFile}

private theorem exists_forall₂ {α β : Type} {P : α → β → Prop} {as : List α}
    (h : ∀ a ∈ as, ∃ b, P a b) : ∃ bs, List.Forall₂ P as bs := by
  induction as with
  | nil => exact ⟨[], .nil⟩
  | cons a as ih =>
    obtain ⟨b, hb⟩ := h a List.mem_cons_self
    obtain ⟨bs, hbs⟩ := ih fun c hc => h c (List.mem_cons_of_mem a hc)
    exact ⟨b :: bs, .cons hb hbs⟩

private theorem pairwise_of_forall₂ {α β : Type} {P : α → β → Prop} {Q : β → Prop} {R : α → Prop}
    {as : List α} {bs : List β} (h : List.Forall₂ P as bs) (has : as.Pairwise fun a _ => R a)
    (hQ : ∀ a b, P a b → R a → Q b) : bs.Pairwise fun b _ => Q b := by
  induction h with
  | nil => exact .nil
  | @cons a b as bs hab hbs ih =>
    refine .cons (fun c hc => ?_) (ih has.of_cons)
    cases hbs with
    | nil => simp at hc
    | cons => exact hQ a b hab (List.rel_of_pairwise_cons has List.mem_cons_self)

section Head

variable {is : List Item} {head : Stretch} {d : Decl} (h : head.IsHead source is)
  (hd : d ∈ bodyDecls (head.item :: head.above.reverse) head.after)
include h hd

private theorem exists_whole_site (hline : EndsLine source is d.span.stop) :
    ∃ s : Site, s.Whole source is d := by
  obtain ⟨-, s, hs, hbefore⟩ := h.exists_site hd
  refine ⟨s, hs, hs.whole hline, fun i hi => ?_⟩
  have hi' : i.moved s.place ∈ is := by
    rw [hs.items_eq]
    exact List.mem_append_right _ (List.mem_map_of_mem hi)
  rw [← Item.construct_moved s.place i]
  refine h.isBody hi' ((hs.stop_le _ hbefore).trans ?_)
  simp [Site.place, Place.add, Place.after, Place.zero]

private theorem newline_of_hasStruct (hstruct : d.hasStruct) {stop : Nat}
    (hline : EndsLine source is stop) (hle : stop ≤ d.span.start) :
    '\n' ∈ restOfLine (dropBytes stop source) := by
  obtain ⟨-, s, hs, -⟩ := h.exists_site hd
  refine hline.newline (s.item.moved s.place) ?_ ?_ ?_
  · rw [hs.items_eq]
    exact List.mem_append_right _ (List.mem_map_of_mem (by simp))
  · rwa [← Item.hasStruct_of_decl? hs.decl_eq]
  · rwa [(Item.decl?_eq_some hs.decl_eq).2.1] at hle

end Head

/-- A file whose lines are taken in whole is projected to stretches. -/
theorem exists_joined {stop : Nat} (hfits : o.fits source) (h : o.sourceFile source = .ok file)
    (hstop : o.headerEnd source = .ok stop) (hheader : EndsLine source o.items stop)
    (hstructs : ∀ d ∈ file.structDecls, EndsLine source o.items d.span.stop) :
    ∃ head ss, Joined source o.items file head ss := by
  obtain ⟨head, ho, hhead, hdecls⟩ := exists_head hfits h
  obtain rfl : stop = byteLength head.text := by
    rw [ho, hhead.headerEnd_eq] at hstop
    exact (Except.ok.inj hstop).symm
  have hmem : ∀ d ∈ file.structDecls,
      d ∈ bodyDecls (head.item :: head.above.reverse) head.after ∧ d.hasStruct := fun d hd =>
    hdecls ▸ List.mem_filter.1 hd
  have hwhole := hhead.whole hheader
  obtain ⟨ss, hss⟩ := exists_forall₂ fun d hd => exists_whole_site hhead (hmem d hd).1 (hstructs d hd)
  refine ⟨head, ss, hhead, hdecls, hwhole, hss, ?_, fun hne => ?_⟩
  · have hpairwise : file.structDecls.Pairwise fun d _ =>
        '\n' ∈ restOfLine (dropBytes d.span.stop source) := by
      refine ((hhead.pairwise_swallows hdecls).filter Decl.hasStruct).imp_of_mem ?_
      intro d d' hd hd' hle
      obtain ⟨hbody, hstruct⟩ := hmem d' hd'
      exact newline_of_hasStruct hhead hbody hstruct (hstructs d hd) hle.1
    refine pairwise_of_forall₂ hss hpairwise fun d s hs hnl => ?_
    rw [hs.dropBytes_eq] at hnl
    exact hs.whole.taken ▸ hnl
  · obtain ⟨d, hd⟩ := List.exists_mem_of_ne_nil file.structDecls fun hnil => by
      rw [hnil, List.forall₂_nil_left_iff] at hss
      exact hne hss
    obtain ⟨hbody, hstruct⟩ := hmem d hd
    have hnl := newline_of_hasStruct hhead hbody hstruct hheader (hhead.le_keptSpan_iff hbody).1
    rw [hhead.source_eq, dropBytes_byteLength_append] at hnl
    rwa [hwhole.taken]

end Existence

namespace Joined

variable {r : Reader} {text : String} {source : List Char} {is : List Item} {file : SourceFile}
  {head : Stretch} {ss : List Site} (h : Joined source is file head ss)
include h

theorem exists_whole {s : Site} (hs : s ∈ ss) : ∃ d, s.Whole source is d :=
  (exists_mem_of_forall₂ h.sites hs).imp fun _ => And.right

theorem flatMap_text : file.structDecls.flatMap (fun d => (keptSpan source d).text source) =
    ss.flatMap Site.kept := by
  have hsites := h.sites
  generalize file.structDecls = ds at hsites
  clear h
  induction hsites with
  | nil => rfl
  | cons hs _ ih => rw [List.flatMap_cons, List.flatMap_cons, ih, hs.text_keptSpan]

/-- A projection puts the stretches one behind the other. -/
theorem projectOutline_eq (hfile : Outline.sourceFile source ⟨none, is⟩ = .ok file) :
    projectOutline source .none ⟨none, is⟩ =
      .ok (String.ofList (head.kept ++ ss.flatMap Site.kept)) := by
  rw [h.isHead.projectOutline_eq hfile, h.flatMap_text]

theorem newline_or : '\n' ∈ lineTail head.behind ∨ ss.flatMap Site.kept = [] := by
  by_cases hss : ss = []
  · exact .inr (by rw [hss, List.flatMap_nil])
  · exact .inl (h.newline_head hss)

/-- The projection is read as the items of the stretches. -/
theorem read_eq (hr : r.Linewise) (htext : r text = .ok ⟨none, is⟩) (hsource : text.toList = source) :
    r (String.ofList (head.kept ++ ss.flatMap Site.kept)) =
      .ok ⟨none, head.items ++ joinedItems (.after .zero head.kept) ss⟩ := by
  subst hsource
  obtain ⟨rest, js, hcut, hitems, hnl⟩ := h.isHead.exists_cut h.whole
  have hreads : r.Reads head.kept head.items rest js := by
    refine ⟨?_, fun i hi => h.isHead.stop_le h.whole hi⟩
    rw [← hcut, String.ofList_toList, htext]
    exact congrArg (fun is => Except.ok (Outline.mk none is)) hitems
  refine hreads.append_joined hr htext (fun s hs => h.exists_whole hs) h.newline ?_ ?_
  · by_cases htail : '\n' ∈ lineTail head.behind
    · exact .inl (Stretch.getLast?_kept htail [])
    · refine .inr ⟨?_, hnl.resolve_left htail⟩
      by_contra hne
      exact htail (h.newline_head hne)
  · obtain ⟨cs, p, ms, heq, -, hp, -, -⟩ := h.isHead.header
    have hmem : p ∈ head.above ++ [head.item] := by simp [heq]
    refine ⟨p, ?_, hp⟩
    rw [Stretch.items, List.append_cons]
    exact List.mem_append_left _ hmem

theorem isBody_joined {i : Item} (hi : i ∈ head.onLine ++ joinedItems (.after .zero head.kept) ss) :
    i.construct.isBody := by
  rcases List.mem_append.1 hi with hi | hi
  · exact h.isHead.body i (List.mem_filter.1 hi).1
  · exact isBody_of_mem_joinedItems (fun s hs => h.exists_whole hs) hi

/-- The file that the projection is read as: the same header, the declarations on the rest of its line,
and for each stretch its declaration and those on the rest of its line. -/
theorem exists_copies (hr : r.Linewise) (htext : r text = .ok ⟨none, is⟩)
    (hsource : text.toList = source) :
    ∃ is' groups head',
      r (String.ofList (head.kept ++ ss.flatMap Site.kept)) = .ok ⟨none, is'⟩ ∧
      Outline.sourceFile (head.kept ++ ss.flatMap Site.kept) ⟨none, is'⟩ =
        .ok ⟨bodyDecls (head.item :: head.above.reverse) head.onLine ++ groups.flatten⟩ ∧
      Stretch.IsHead head' (head.kept ++ ss.flatMap Site.kept) is' ∧ head'.kept = head.kept ∧
      head'.text = head.text ∧ head'.above = head.above ∧ head'.item = head.item ∧
      List.Forall₂ (Copied (head.kept ++ ss.flatMap Site.kept)) ss groups := by
  have hread := h.read_eq hr htext hsource
  have hitems : head.items ++ joinedItems (.after .zero head.kept) ss =
      head.above ++ head.item :: (head.onLine ++ joinedItems (.after .zero head.kept) ss) := by
    simp [Stretch.items]
  obtain ⟨e, hlaid⟩ := exists_laid_of_fits (hr.fits hread)
  rw [String.toList_ofList] at hlaid
  have hfront : ss ≠ [] → Front head.kept head.items.reverse := fun hne => by
    simpa using h.isHead.front h.whole (h.newline_head hne) [] []
  obtain ⟨groups, hdecls, hgroups⟩ :=
    exists_copied (fun s hs => h.exists_whole hs) h.newline hfront
  refine ⟨_, groups, ⟨head.text, lineTail head.behind ++ ss.flatMap Site.kept, head.above, head.item,
    head.onLine ++ joinedItems (.after .zero head.kept) ss⟩, hread, ?_, ?_, ?_, rfl, rfl, rfl, hgroups⟩
  · rw [hitems, List.append_cons, sourceFile_of_header h.isHead.header fun i hi => h.isBody_joined hi,
      bodyDecls_append, ← hdecls]
    simp [Stretch.items]
  · refine ⟨⟨?_, hitems, h.isHead.construct_ne, h.isHead.stop_eq, h.isHead.ends, e, hlaid⟩,
      h.isHead.header, fun i hi => h.isBody_joined hi⟩
    rw [Stretch.kept, List.append_assoc]
  · rw [Stretch.kept, h.whole.isTail.lineTail_append h.newline_or, Stretch.kept]

end Joined

/-- The lines of `separateLines`. -/
def knownLines : List KnownLine :=
  [⟨"package x".toList, .packageClause, [], by decide, by decide, by decide⟩,
    ⟨"// A is kept.".toList, .comment, [], by decide, by decide, by decide⟩,
    ⟨"type A struct{}".toList, .declaration .type, [⟨"A", .struct⟩], by decide, by decide, by decide⟩,
    ⟨"type B int".toList, .declaration .type, [⟨"B", .other⟩], by decide, by decide, by decide⟩]

theorem reader_separateLines : KnownLine.reader knownLines separateLines = outline separateLines := by
  rw [outline_separateLines]
  decide +kernel

end StructProjection
