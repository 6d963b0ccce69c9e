import StructProjection.Proofs.Go.TopLevel
import StructProjection.Proofs.Projection.Location
import StructProjection.Proofs.Projection.Slices
import StructProjection.Proofs.Results

/-! # Bounds

Nothing is cut out of a text that is not in it. The operations on a text are written down once more,
with a check of every offset that a text is cut at and of every difference. They have a result for
every text, and it is the one without the checks.
-/

namespace StructProjection

open Text Go Parsing

/-! ## Checked steps -/

namespace Text

/-- The text before an offset, which has to be a boundary. -/
def before? (n : Nat) (cs : List Char) : Option (List Char) :=
  if IsBoundary n cs then some (takeBytes n cs) else none

/-- The text behind an offset, which has to be a boundary. -/
def behind? (n : Nat) (cs : List Char) : Option (List Char) :=
  if IsBoundary n cs then some (dropBytes n cs) else none

/-- A difference that is not below zero. -/
def less? (m n : Nat) : Option Nat := if n ≤ m then some (m - n) else none

/-- Where the first line feed of a text stands. -/
def feed? (cs : List Char) : Option Nat :=
  if '\n' ∈ cs then some (byteLength (cs.takeWhile (· ≠ '\n'))) else none

/-- The text of a span, which has to lie in the source and to cut no character. -/
def Span.text? (s : Span) (source : List Char) : Option (List Char) :=
  if s.Within source then some (s.text source) else none

theorem before?_append (as bs : List Char) : before? (byteLength as) (as ++ bs) = some as := by
  rw [before?, if_pos (isBoundary_iff.2 ⟨as, bs, rfl, rfl⟩), takeBytes_byteLength_append]

/-- A character of two bytes is not cut in the middle. -/
example : before? 1 ['ä'] = none := by decide

theorem behind?_append (as bs : List Char) : behind? (byteLength as) (as ++ bs) = some bs := by
  rw [behind?, if_pos (isBoundary_iff.2 ⟨as, bs, rfl, rfl⟩), dropBytes_byteLength_append]

theorem less?_of_le {m n : Nat} (h : n ≤ m) : less? m n = some (m - n) := if_pos h

theorem feed?_append {line : List Char} (h : '\n' ∉ line) (rest : List Char) :
    feed? (line ++ '\n' :: rest) = some (byteLength line) := by
  rw [feed?, if_pos (by simp), List.takeWhile_append_of_pos fun c hc =>
    decide_eq_true (ne_of_mem_of_not_mem hc h)]
  simp

theorem feed?_of_not_mem {cs : List Char} (h : '\n' ∉ cs) : feed? cs = none := if_neg h

theorem byteLength_cons_feed (cs : List Char) : byteLength ('\n' :: cs) = 1 + byteLength cs := rfl

theorem Span.text?_of_within {s : Span} {source : List Char} (h : s.Within source) :
    s.text? source = some (s.text source) := if_pos h

end Text

/-! ## Ends and beginnings of spans -/

/-- The length of the rest of a line, with its line feed. -/
def lineLength (cs : List Char) : Nat := ((feed? cs).map (· + 1)).getD (byteLength cs)

def extendOverLine? (source : List Char) (stop : Nat) : Option Nat := do
  let rest ← behind? stop source
  let text := trim (← before? (lineLength rest) rest)
  return if text = [] || isTrailingComment text then stop + lineLength rest else stop

def gapStart? (source : List Char) (start : Nat) : Option Nat := do
  let head ← before? start source
  let gap ← less? (byteLength head) (byteLength (dropEndWhile isGap head))
  let stop ← less? start gap
  match feed? (← behind? stop head) with
  | some n => return stop + n + 1
  | none => return start

def keptSpan? (source : List Char) (d : Decl) : Option Span := do
  return ⟨← gapStart? source d.leadingStart, ← extendOverLine? source d.span.stop⟩

theorem lineLength_eq (cs : List Char) : lineLength cs = byteLength (restOfLine cs) := by
  by_cases h : '\n' ∈ cs
  · obtain ⟨line, rest, rfl, hline⟩ := List.eq_append_cons_of_mem h
    rw [lineLength, feed?_append hline, restOfLine_of_line hline,
      byteLength_append line ['\n']]
    rfl
  · obtain ⟨line, stop, heq, hline, rfl | ⟨rfl, rfl⟩⟩ := exists_restOfLine cs
    · have hrest := restOfLine_prefix cs
      exact absurd (hrest.subset (by simp [heq])) h
    · rw [lineLength, feed?_of_not_mem h, heq, List.append_nil]
      rfl

theorem before?_lineLength (cs : List Char) : before? (lineLength cs) cs = some (restOfLine cs) := by
  obtain ⟨rest, hrest⟩ := restOfLine_prefix cs
  have happend := before?_append (restOfLine cs) rest
  rwa [hrest, ← lineLength_eq] at happend

section Offsets

variable {source : List Char} {n : Nat} (h : IsBoundary n source)
include h

theorem extendOverLine?_of_isBoundary :
    extendOverLine? source n = some (extendOverLine source n) := by
  obtain ⟨pre, behind, rfl, rfl⟩ := isBoundary_iff.1 h
  rw [extendOverLine?, behind?_append, extendOverLine, dropBytes_byteLength_append,
    Option.bind_eq_bind, Option.bind_some, before?_lineLength, lineLength_eq]
  rfl

theorem within_extendOverLine : Span.Within ⟨n, extendOverLine source n⟩ source := by
  obtain ⟨pre, behind, rfl, rfl⟩ := isBoundary_iff.1 h
  rw [extendOverLine_append]
  exact (takesInLine_append pre behind).within

theorem gapStart?_of_isBoundary : gapStart? source n = some (gapStart source n) := by
  obtain ⟨pre, behind, rfl, rfl⟩ := isBoundary_iff.1 h
  obtain ⟨inner, gap, hinner, hgap⟩ : ∃ inner gap, dropEndWhile isGap pre = inner ∧
      takeEndWhile isGap pre = gap := ⟨_, _, rfl, rfl⟩
  have hpre : inner ++ gap = pre := by
    rw [← hinner, ← hgap, dropEndWhile_append_takeEndWhile]
  have hlength : byteLength pre = byteLength inner + byteLength gap := by
    rw [← hpre, byteLength_append]
  have hless : less? (byteLength pre) (byteLength inner) = some (byteLength gap) := by
    rw [less?_of_le (by omega), hlength, Nat.add_sub_cancel_left]
  have hless' : less? (byteLength pre) (byteLength gap) = some (byteLength inner) := by
    rw [less?_of_le (by omega), hlength, Nat.add_sub_cancel]
  have hbehind : behind? (byteLength inner) pre = some gap := by
    rw [← hpre, behind?_append]
  simp only [gapStart_append, gapLines, hgap, gapStart?, before?_append, hinner, hless, hless',
    hbehind, Option.bind_eq_bind, Option.bind_some]
  by_cases hfeed : '\n' ∈ gap
  · obtain ⟨line, lines, rfl, hline⟩ := List.eq_append_cons_of_mem hfeed
    have hdrop : (line ++ '\n' :: lines).dropWhile (· ≠ '\n') = '\n' :: lines := by
      rw [List.dropWhile_append_of_pos fun c hc => decide_eq_true (ne_of_mem_of_not_mem hc hline)]
      simp
    have hlines : byteLength (line ++ '\n' :: lines) = byteLength line + 1 + byteLength lines := by
      rw [byteLength_append, byteLength_cons_feed, Nat.add_assoc]
    rw [feed?_append hline, hdrop, List.tail_cons]
    exact congrArg some (by omega)
  · rw [feed?_of_not_mem hfeed, List.dropWhile_eq_nil_iff.2 fun c hc =>
      decide_eq_true (ne_of_mem_of_not_mem hc hfeed)]
    rfl

theorem within_gapStart : Span.Within ⟨gapStart source n, n⟩ source := by
  obtain ⟨pre, behind, rfl, rfl⟩ := isBoundary_iff.1 h
  obtain ⟨above, habove⟩ := gapLines_suffix pre
  have hstart : gapStart (pre ++ behind) (byteLength pre) = byteLength above := by
    have hlength := congrArg byteLength habove
    rw [byteLength_append] at hlength
    rw [gapStart_append, ← hlength, Nat.add_sub_cancel]
  rw [hstart]
  refine ⟨?_, isBoundary_iff.2 ⟨above, gapLines pre ++ behind, ?_, rfl⟩, h⟩
  · rw [← habove, byteLength_append]
    exact Nat.le_add_right _ _
  · rw [← List.append_assoc, habove]

end Offsets

/-! ## Outlines -/

namespace Go

variable {source : List Char} {o : Outline} {is : List Item} {i : Item} {p : Place}

/-- The items and the faults of an outline are stretches of the text, and no item begins before the one
above it ends. -/
structure Outline.Placed (source : List Char) (o : Outline) : Prop where
  faults : ∀ f ∈ o.faults, f.Within source
  items : ∀ i ∈ o.items, i.span.Within source
  ordered : o.items.Pairwise fun i j => i.stop.offset ≤ j.start.offset

theorem pairwise_of_itemsFit {sound ended : Bool} {rest : List Char}
    (h : Outline.itemsFit sound ended p rest is) :
    (∀ i ∈ is, p.offset ≤ i.start.offset) ∧
      is.Pairwise fun i j => i.stop.offset ≤ j.start.offset := by
  induction is generalizing ended p rest with
  | nil => exact ⟨by simp, .nil⟩
  | cons i is ih =>
    simp only [Outline.itemsFit, Bool.and_eq_true, decide_eq_true_eq] at h
    obtain ⟨⟨⟨hstart, hstop⟩, -⟩, hmore⟩ := h
    obtain ⟨hle, hordered⟩ := ih hmore
    have hle_start : p.offset ≤ i.start.offset := by
      rw [← hstart]
      exact Nat.le_add_right _ _
    have hle_stop : i.start.offset ≤ i.stop.offset := by
      rw [← hstop]
      exact Nat.le_add_right _ _
    refine ⟨List.forall_mem_cons.2 ⟨hle_start, fun j hj => ?_⟩, .cons hle hordered⟩
    exact (hle_start.trans hle_stop).trans (hle j hj)

theorem Outline.placed_of_fits (h : o.fits source) : o.Placed source := by
  refine ⟨fun f hf => ?_, fun i hi => within_of_fits h hi, ?_⟩
  · simp only [fits, Bool.and_eq_true, Option.all_eq_true, List.all_eq_true, decide_eq_true_eq] at h
    rcases List.mem_append.1 hf with hf | hf
    · exact h.1.1 f (Option.mem_toList.1 hf)
    · obtain ⟨i, hi, hf⟩ := List.mem_filterMap.1 hf
      exact h.1.2 i hi f hf
  · simp only [fits, Bool.and_eq_true] at h
    exact (pairwise_of_itemsFit h.2).2

theorem exists_stop_of_headerEndFrom {seen : Option Nat} {stop : Nat}
    (h : headerEndFrom source seen is = .ok stop) :
    seen = some stop ∨ ∃ i ∈ is, i.stop.offset = stop := by
  fun_induction headerEndFrom source seen is with
  | case1 | case4 | case6 | case9 => cases h
  | case2 | case8 => exact .inl (congrArg some (Except.ok.inj h))
  | case3 _ _ _ _ ih =>
    rcases ih h with hseen | ⟨j, hj, hstop⟩
    · exact .inl hseen
    · exact .inr ⟨j, List.mem_cons_of_mem _ hj, hstop⟩
  | case5 _ _ _ _ ih | case7 _ _ _ _ _ ih =>
    rcases ih h with hseen | ⟨j, hj, hstop⟩
    · exact .inr ⟨_, List.mem_cons_self, Option.some.inj hseen⟩
    · exact .inr ⟨j, List.mem_cons_of_mem _ hj, hstop⟩

theorem Outline.Placed.isBoundary_headerEnd (hplaced : o.Placed source) {stop : Nat}
    (h : o.headerEnd source = .ok stop) : IsBoundary stop source := by
  rcases exists_stop_of_headerEndFrom h with hseen | ⟨i, hi, rfl⟩
  · cases hseen
  · exact (hplaced.items i hi).2.2

/-- A declaration and the comments that belong to it are in the text. -/
structure Decl.Placed (source : List Char) (d : Decl) : Prop where
  leading : IsBoundary d.leadingStart source
  leading_le : d.leadingStart ≤ d.span.start
  within : d.span.Within source

theorem Outline.Placed.placed_decl (hplaced : o.Placed source) {file : SourceFile} {d : Decl}
    (h : o.sourceFile source = .ok file) (hd : d ∈ file.decls) : d.Placed source := by
  obtain ⟨-, hs, bs, hitems, -, -, hdecls⟩ := exists_header_of_sourceFile h
  obtain ⟨before, i, after, rfl, hi⟩ := exists_of_mem_bodyDecls (hdecls ▸ hd)
  rw [← List.append_assoc] at hitems
  obtain ⟨-, hspan, hdoc, -⟩ := declAt?_eq_some hi
  have hwithin := hplaced.items i (by simp [hitems])
  rw [← hspan] at hwithin
  cases hlast : (docRun i.start.row (before.reverse ++ hs.reverse)).getLast? with
  | none =>
    have hleading : d.leadingStart = d.span.start := by
      rw [Decl.leadingStart, hdoc, hlast]
      rfl
    exact ⟨hleading ▸ hwithin.2.1, hleading.le, hwithin⟩
  | some c =>
    have hleading : d.leadingStart = c.start.offset := by
      rw [Decl.leadingStart, hdoc, hlast]
      rfl
    -- The topmost comment is one of the items above, and these end where the declaration begins.
    obtain ⟨rest, hrest, -⟩ := exists_append_docRun i.start.row (before.reverse ++ hs.reverse)
    have hc : c ∈ hs ++ before := by
      have hmem : c ∈ before.reverse ++ hs.reverse := by
        rw [hrest]
        exact List.mem_append_left _ (List.mem_of_getLast? hlast)
      simpa [or_comm] using hmem
    have hordered := hplaced.ordered
    rw [hitems, List.pairwise_append] at hordered
    have hle := hordered.2.2 c hc i List.mem_cons_self
    have hcwithin := hplaced.items c (hitems ▸ List.mem_append_left _ hc)
    refine ⟨hleading ▸ hcwithin.2.1, ?_, hwithin⟩
    rw [hleading, hspan]
    exact hcwithin.1.trans hle

end Go

/-! ## Checked operations -/

section Checks

variable {ε α β : Type}

/-- Steps with checks have the result of those without, if each step has. -/
theorem run_bind {x : ExceptT ε Option α} {y : Except ε α} {f : α → ExceptT ε Option β}
    {g : α → Except ε β} (hx : x.run = some y) (hf : ∀ a, y = .ok a → (f a).run = some (g a)) :
    (x >>= f).run = some (y >>= g) := by
  rw [ExceptT.run_bind, hx]
  cases y with
  | error e => rfl
  | ok a => exact hf a rfl

theorem mapM_eq_some {f : α → Option β} {g : α → β} {as : List α}
    (h : ∀ a ∈ as, f a = some (g a)) : as.mapM f = some (as.map g) := by
  induction as with
  | nil => rfl
  | cons a as ih =>
    rw [List.mapM_cons, h a List.mem_cons_self, ih fun b hb => h b (List.mem_cons_of_mem a hb)]
    rfl

end Checks

section Operations

variable {source : List Char} {o : Outline} {d : Decl}

theorem keptSpan?_of_placed (h : d.Placed source) :
    keptSpan? source d = some (keptSpan source d) := by
  rw [keptSpan?, gapStart?_of_isBoundary h.leading, extendOverLine?_of_isBoundary h.within.2.2]
  rfl

theorem within_keptSpan (h : d.Placed source) : (keptSpan source d).Within source := by
  have hgap := within_gapStart h.leading
  have hline := within_extendOverLine h.within.2.2
  refine ⟨?_, hgap.2.1, hline.2.2⟩
  calc gapStart source d.leadingStart
    _ ≤ d.leadingStart := hgap.1
    _ ≤ d.span.start := h.leading_le
    _ ≤ d.span.stop := h.within.1
    _ ≤ extendOverLine source d.span.stop := hline.1

def headerSpanOf? (source : List Char) (o : Outline) : ExceptT Diagnostic Option Span := do
  let stop ← o.headerEnd source
  return ⟨0, ← extendOverLine? source stop⟩

def structSpansOf? (source : List Char) (o : Outline) : ExceptT Diagnostic Option (List Span) := do
  let file ← o.sourceFile source
  (file.structDecls.mapM (keptSpan? source) : Option (List Span))

def projectOutline? (source : List Char) (strip : StripRules) (o : Outline) :
    ExceptT Diagnostic Option String := do
  let header ← headerSpanOf? source o
  let structs ← structSpansOf? source o
  let head ← header.text? source
  let kept ← (structs.mapM (·.text? source) : Option (List (List Char)))
  return strip.apply (String.ofList (head ++ kept.flatten))

section Placed

variable (hplaced : o.Placed source)
include hplaced

theorem headerSpanOf?_of_placed : (headerSpanOf? source o).run = some (headerSpanOf source o) :=
  run_bind rfl fun stop hstop => by
    rw [extendOverLine?_of_isBoundary (hplaced.isBoundary_headerEnd hstop)]
    rfl

theorem within_headerSpanOf {s : Span} (h : headerSpanOf source o = .ok s) :
    s.start = 0 ∧ s.Within source := by
  obtain ⟨stop, hstop, hs⟩ := exists_of_bind h
  obtain rfl := Except.ok.inj hs
  refine ⟨rfl, Nat.zero_le _, isBoundary_iff.2 ⟨[], source, rfl, rfl⟩, ?_⟩
  exact (within_extendOverLine (hplaced.isBoundary_headerEnd hstop)).2.2

theorem structSpansOf?_of_placed :
    (structSpansOf? source o).run = some (structSpansOf source o) :=
  run_bind rfl fun file hfile => by
    have hspans : file.structDecls.mapM (keptSpan? source) =
        some (file.structDecls.map (keptSpan source)) := mapM_eq_some fun d hd =>
      keptSpan?_of_placed (hplaced.placed_decl hfile (List.mem_of_mem_filter hd))
    rw [hspans]
    rfl

theorem within_structSpansOf {ss : List Span} (h : structSpansOf source o = .ok ss) :
    ∀ s ∈ ss, s.Within source := by
  obtain ⟨file, hfile, hss⟩ := exists_of_bind h
  obtain rfl := Except.ok.inj hss
  intro s hs
  obtain ⟨d, hd, rfl⟩ := List.mem_map.1 hs
  exact within_keptSpan (hplaced.placed_decl hfile (List.mem_of_mem_filter hd))

theorem projectOutline?_of_placed (strip : StripRules) :
    (projectOutline? source strip o).run = some (projectOutline source strip o) :=
  run_bind (headerSpanOf?_of_placed hplaced) fun header hheader =>
    run_bind (structSpansOf?_of_placed hplaced) fun structs hstructs => by
      rw [Span.text?_of_within (within_headerSpanOf hplaced hheader).2, mapM_eq_some fun s hs =>
        Span.text?_of_within (within_structSpansOf hplaced hstructs s hs), List.flatMap_def]
      rfl

end Placed

end Operations

/-! ## Checked complaints -/

namespace Go

variable {source : List Char} {fs : List Fault} {f : Fault} {d : Diagnostic}

/-- The complaint at an offset, where the bytes before that are in the text and the line begins among
them. -/
def Diagnostic.locate? (text : List Char) (offset : Nat) (complaint : Complaint) :
    Option Diagnostic := do
  let offset := min offset (byteLength text)
  guard (offset ≤ byteLength text)
  let column ← less? offset (lineStart offset text)
  return { offset, line := rowAt offset text + 1, column := column + 1, complaint }

def Fault.complaint? (source : List Char) : Fault → Option Complaint
  | .unexpected s => do
    let line := (← s.text? source).takeWhile (· ≠ '\n')
    return .unexpected (String.ofList ((trim line).take 24))
  | .missing _ kind => return .missing kind

def Fault.diagnose? (source : List Char) (f : Fault) : Option Diagnostic := do
  Diagnostic.locate? source f.offset (← f.complaint? source)

/-- A complaint that comes about by checked steps. -/
inductive SafelyReported (source : List Char) (fs : List Fault) (d : Diagnostic) : Prop
  | fault {f : Fault} (h : f ∈ fs) (hd : f.diagnose? source = some d)
  | place (offset : Nat) (c : Complaint) (hd : Diagnostic.locate? source offset c = some d)

theorem Diagnostic.locate?_eq (source : List Char) (n : Nat) (c : Complaint) :
    locate? source n c = some (locate source n c) := by
  rw [locate?, less?_of_le (lineStart_le _ _)]
  simp [guard, locate]

theorem Fault.diagnose?_of_within (h : f.Within source) :
    f.diagnose? source = some (f.diagnose source) := by
  have hcomplaint : f.complaint? source = some (f.complaint source) := by
    cases f with
    | unexpected s =>
      rw [complaint?, Span.text?_of_within h]
      rfl
    | missing => rfl
  rw [diagnose?, hcomplaint]
  exact Diagnostic.locate?_eq _ _ _

theorem Reported.checked (h : Reported source fs d) (hfs : ∀ f ∈ fs, f.Within source) :
    SafelyReported source fs d := by
  cases h with
  | fault hf => exact .fault hf (Fault.diagnose?_of_within (hfs _ hf))
  | place n c => exact .place n c (Diagnostic.locate?_eq _ _ _)

theorem within_faultsIn (text : String) : ∀ f ∈ faultsIn text, f.Within text.toList := by
  unfold faultsIn
  split
  · next ho => exact (Outline.placed_of_fits (fits_of_outline ho)).faults
  · simp

/-- The operations on an outline have the results that they have without checks, their spans lie in the
text, and their complaints come about by checked steps. -/
structure Outline.InBounds (source : List Char) (o : Outline) : Prop where
  header : (headerSpanOf? source o).run = some (headerSpanOf source o)
  structs : (structSpansOf? source o).run = some (structSpansOf source o)
  project : ∀ strip, (projectOutline? source strip o).run = some (projectOutline source strip o)
  header_within : ∀ s, headerSpanOf source o = .ok s → s.start = 0 ∧ s.Within source
  structs_within : ∀ ss, structSpansOf source o = .ok ss → ∀ s ∈ ss, s.Within source
  reported : ∀ d, (headerSpanOf source o = .error d ∨ structSpansOf source o = .error d ∨
    ∃ strip, projectOutline source strip o = .error d) → SafelyReported source o.faults d

theorem Outline.Placed.inBounds {o : Outline} (h : o.Placed source) : o.InBounds source where
  header := headerSpanOf?_of_placed h
  structs := structSpansOf?_of_placed h
  project := projectOutline?_of_placed h
  header_within _ hs := within_headerSpanOf h hs
  structs_within _ hss := within_structSpansOf h hss
  reported d hd := by
    refine Reported.checked ?_ h.faults
    rcases hd with hd | hd | ⟨strip, hd⟩
    · exact reported_of_headerSpanOf hd
    · exact reported_of_structSpansOf hd
    · exact reported_of_projectOutline hd

/-! ## Names of types -/

def specOf? (source : List Char) (n : Node) : Option TypeSpec := do
  let parts := n.children.filter (!·.info.isExtra)
  let name ← (parts.head?.map fun m => (spanOf m).text? source).getD (some [])
  return { name := String.ofList name, shape := (parts.getLast?.map shapeOfNode).getD .other }

def specsOf? (source : List Char) (n : Node) : Option (List TypeSpec) :=
  let specs := n.namedChildren.filter fun m => m.info.kind = "type_spec" || m.info.kind = "type_alias"
  specs.mapM (specOf? source)

/-- The nodes of a tree are stretches of the text. -/
def NodesWithin (source : List Char) (root : Node) : Prop :=
  ∀ n ∈ root.inOrder, (spanOf n).Within source

theorem specOf?_of_within {n : Node} (h : NodesWithin source n) :
    specOf? source n = some (specOf source n) := by
  unfold specOf? specOf
  cases hname : (n.children.filter (!·.info.isExtra)).head? with
  | none => simp [hname]
  | some m =>
    have hm := List.mem_of_mem_filter (List.mem_of_head? hname)
    have hwithin := h m (Node.mem_inOrder_of_mem_children hm m.self_mem_inOrder)
    simp [hname, Span.text?_of_within hwithin]

theorem specsOf?_of_within {n : Node} (h : NodesWithin source n) :
    specsOf? source n = some (specsOf source n) := by
  refine mapM_eq_some fun m hm => specOf?_of_within fun k hk => ?_
  have hm := List.mem_of_mem_filter (List.mem_of_mem_filter hm)
  exact h k (Node.mem_inOrder_of_mem_children hm hk)

end Go

/-! ## Checked operations on texts -/

def headerSpan? (text : String) : ExceptT Diagnostic Option Span := do
  headerSpanOf? text.toList (← outline text)

def structSpans? (text : String) : ExceptT Diagnostic Option (List Span) := do
  structSpansOf? text.toList (← outline text)

def project? (text : String) (strip : StripRules) : ExceptT Diagnostic Option String := do
  projectOutline? text.toList strip (← outline text)

/-- Every operation on a text has a result with all its cuts and differences checked, and it is the one
without the checks. Spans lie in the text, end behind their beginning and cut no character. Complaints
about the text come about by checked steps, too. Nothing more is needed for this than that items and
faults lie in the text and that items do not overlap. The names of types are cut out of the text by
the nodes of a tree, and it is enough for them that these lie in it. -/
theorem checked_eq_unchecked (text : String) :
    (headerSpan? text).run = some (headerSpan text) ∧
      (structSpans? text).run = some (structSpans text) ∧
      (∀ strip, (project? text strip).run = some (project text strip)) ∧
      (∀ s, (headerSpan text = .ok s ∨ ∃ ss, structSpans text = .ok ss ∧ s ∈ ss) →
        s.start ≤ s.stop ∧ s.stop ≤ text.utf8ByteSize ∧
          IsBoundary s.start text.toList ∧ IsBoundary s.stop text.toList) ∧
      (∀ d, (headerSpan text = .error d ∨ structSpans text = .error d ∨
          ∃ strip, project text strip = .error d) →
        SafelyReported text.toList (faultsIn text) d) ∧
      (∀ o : Outline, o.Placed text.toList → o.InBounds text.toList) ∧
      ∀ root, NodesWithin text.toList root → ∀ n ∈ root.namedChildren,
        specsOf? text.toList n = some (specsOf text.toList n) := by
  have hbounds {o : Outline} (ho : outline text = .ok o) : o.InBounds text.toList :=
    (Outline.placed_of_fits (fits_of_outline ho)).inBounds
  refine ⟨run_bind rfl fun o ho => (hbounds ho).header, run_bind rfl fun o ho => (hbounds ho).structs,
    fun strip => run_bind rfl fun o ho => (hbounds ho).project strip, fun s hs => ?_,
    fun d hd => ?_, fun o ho => ho.inBounds, fun root hroot n hn => ?_⟩
  · have hwithin : s.Within text.toList := by
      rcases hs with h | ⟨ss, h, hs⟩
      · obtain ⟨o, ho, h⟩ := exists_of_bind h
        exact ((hbounds ho).header_within s h).2
      · obtain ⟨o, ho, h⟩ := exists_of_bind h
        exact (hbounds ho).structs_within ss h s hs
    refine ⟨hwithin.1, ?_, hwithin.2⟩
    rw [← byteLength_toList]
    exact le_of_isBoundary hwithin.2.2
  · refine Reported.checked ?_ (within_faultsIn text)
    rcases hd with h | h | ⟨strip, h⟩
    · exact reported_of_bind (fun _ => reported_of_headerSpanOf) h
    · exact reported_of_bind (fun _ => reported_of_structSpansOf) h
    · exact reported_of_bind (fun _ => reported_of_projectOutline) h
  · have hn := List.mem_of_mem_filter hn
    exact specsOf?_of_within fun m hm => hroot m (Node.mem_inOrder_of_mem_children hn hm)

/-- A file with characters of two bytes in its comments. -/
def umlauts : String :=
  "package x // ä\n\n// é\ntype A struct{} /* ö */\n\ntype B int\n"

theorem outline_umlauts : outline umlauts = .ok
    ⟨none, [⟨.packageClause, ⟨0, 0⟩, ⟨9, 0⟩, none, []⟩, ⟨.comment, ⟨10, 0⟩, ⟨15, 0⟩, none, []⟩,
      ⟨.comment, ⟨17, 2⟩, ⟨22, 2⟩, none, []⟩,
      ⟨.declaration .type, ⟨23, 3⟩, ⟨38, 3⟩, none, [⟨"A", .struct⟩]⟩,
      ⟨.comment, ⟨39, 3⟩, ⟨47, 3⟩, none, []⟩,
      ⟨.declaration .type, ⟨49, 5⟩, ⟨59, 5⟩, none, [⟨"B", .other⟩]⟩]⟩ :=
  outline_of_plain (by decide +kernel) (by decide +kernel)

theorem checked_eq_unchecked_umlauts :
    (headerSpan? umlauts).run = some (.ok ⟨0, 16⟩) ∧
      (structSpans? umlauts).run = some (.ok [⟨16, 48⟩]) ∧
      (project? umlauts .none).run =
        some (.ok "package x // ä\n\n// é\ntype A struct{} /* ö */\n") ∧
      16 ≤ umlauts.utf8ByteSize ∧ IsBoundary 16 umlauts.toList := by
  obtain ⟨hheader, hstructs, hproject, hspans, -⟩ := checked_eq_unchecked umlauts
  have hspan : headerSpan umlauts = .ok ⟨0, 16⟩ := by
    rw [headerSpan_of_ok outline_umlauts]
    rfl
  have hstruct : structSpans umlauts = .ok [⟨16, 48⟩] := by
    rw [structSpans_of_ok outline_umlauts]
    rfl
  have htext : project umlauts .none =
      .ok "package x // ä\n\n// é\ntype A struct{} /* ö */\n" := by
    rw [project, projectWith_of_ok outline_umlauts]
    rfl
  obtain ⟨-, hle, -, hboundary⟩ := hspans _ (.inl hspan)
  exact ⟨hspan ▸ hheader, hstruct ▸ hstructs, htext ▸ hproject .none, hle, hboundary⟩

end StructProjection
