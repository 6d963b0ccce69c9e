import StructProjection.Proofs.Go.Terminator
import StructProjection.Proofs.Projection.Site

/-! # A header before any body

The header of a text can be read whatever stands behind it, well-formed or not, as long as the
constructs of the header are found where they are found without that. The recovery from an error can go
back to the start of a text and take the header into the error, and then it is not found.
-/

namespace StructProjection

namespace Go

open Text Outline

/-! ## Items of any text -/

section Fitting

variable {sound ended : Bool} {p : Place} {rest : List Char} {is js : List Item} {i : Item}

/-- The first item of a text, with a fault or not. -/
theorem exists_of_itemsFit_cons (h : itemsFit sound ended p rest (i :: is)) :
    ∃ gap text more ended', rest = gap ++ (text ++ more) ∧ i.start = p.after gap ∧
      i.stop = i.start.after text ∧ itemsFit sound ended' i.stop more is := by
  simp only [itemsFit, Bool.and_eq_true, decide_eq_true_eq] at h
  obtain ⟨⟨⟨hstart, hstop⟩, -⟩, hmore⟩ := h
  refine ⟨_, _, _, _, ?_, hstart.symm, hstop.symm, hmore⟩
  rw [takeBytes_append_dropBytes, takeBytes_append_dropBytes]

/-- What stands behind an item of a text, with a fault or not. -/
theorem exists_of_itemsFit_append (h : itemsFit sound ended p rest (is ++ i :: js)) :
    ∃ pre more ended', rest = pre ++ more ∧ i.stop = p.after pre ∧
      itemsFit sound ended' i.stop more js := by
  induction is generalizing ended p rest with
  | nil =>
    obtain ⟨gap, text, more, ended', rfl, hstart, hstop, hmore⟩ := exists_of_itemsFit_cons h
    exact ⟨gap ++ text, more, ended', by simp, by simp [hstop, hstart], hmore⟩
  | cons k is ih =>
    obtain ⟨gap, text, more, ended', rfl, hstart, hstop, hmore⟩ := exists_of_itemsFit_cons h
    obtain ⟨pre, more, ended', rfl, hi, hjs⟩ := ih hmore
    exact ⟨gap ++ (text ++ pre), more, ended', by simp, by simp [hi, hstop, hstart], hjs⟩

end Fitting

/-! ## The loop over the header -/

section Header

variable {source : List Char} {above is : List Item}

/-- The reading of a header goes on behind items that it takes in. -/
theorem headerEndFrom_append {part : Part} {seen : Option Nat}
    (hseen : part = .start ∧ seen = none ∨ part = .imports ∧ ∃ stop, seen = some stop)
    (h : declarationsFrom source part above is = ([], none)) (hsound : ∀ i ∈ is, i.fault = none) :
    ∃ n, headerEndFrom source seen is = .ok n ∧
      ∀ source' rest, headerEndFrom source' seen (is ++ rest) =
        headerEndFrom source' (some n) rest := by
  induction is generalizing part seen above with
  | nil =>
    rcases hseen with ⟨rfl, rfl⟩ | ⟨rfl, stop, rfl⟩
    · simp [declarationsFrom] at h
    · exact ⟨stop, rfl, fun _ _ => rfl⟩
  | cons i is ih =>
    have hi := hsound i List.mem_cons_self
    have his := fun j hj => hsound j (List.mem_cons_of_mem i hj)
    cases hc : i.construct with
    | comment =>
      have hmore : declarationsFrom source part (i :: above) is = ([], none) := by
        rcases hseen with ⟨rfl, -⟩ | ⟨rfl, -⟩ <;> simpa [declarationsFrom, hc] using h
      simpa [headerEndFrom, hc] using ih hseen hmore his
    | packageClause =>
      rcases hseen with ⟨rfl, rfl⟩ | ⟨rfl, -⟩
      · have hmore : declarationsFrom source .imports (i :: above) is = ([], none) := by
          simpa [declarationsFrom, hc] using h
        simpa [headerEndFrom, hc, hi] using ih (.inr ⟨rfl, _, rfl⟩) hmore his
      · simp [declarationsFrom, hc] at h
    | importDeclaration =>
      rcases hseen with ⟨rfl, -⟩ | ⟨rfl, stop, rfl⟩
      · simp [declarationsFrom, hc] at h
      · have hmore : declarationsFrom source .imports (i :: above) is = ([], none) := by
          simpa [declarationsFrom, hc] using h
        simpa [headerEndFrom, hc, hi] using ih (.inr ⟨rfl, _, rfl⟩) hmore his
    | declaration kind =>
      rcases hseen with ⟨rfl, -⟩ | ⟨rfl, -⟩ <;> simp [declarationsFrom, hc] at h
    | other name =>
      rcases hseen with ⟨rfl, -⟩ | ⟨rfl, -⟩ <;> simp [declarationsFrom, hc] at h

/-- The reading of a header stops before anything that is no import. -/
theorem headerEndFrom_of_find? {stop : Nat} (h : ∀ i ∈ is.find? (·.construct ≠ .comment),
    i.construct ≠ .importDeclaration) : headerEndFrom source (some stop) is = .ok stop := by
  induction is with
  | nil => rfl
  | cons i is ih =>
    cases hc : i.construct with
    | comment => simpa [headerEndFrom, hc] using ih (by simpa [hc] using h)
    | importDeclaration => simp [hc] at h
    | packageClause | declaration | other => simp [headerEndFrom, hc]

end Header

/-! ## What stands behind the header -/

/-- What may stand between constructs. -/
def isFiller (c : Char) : Bool := isSpace c || isTerminator c

/-- Import declarations are found where the text has them, whatever faults it has elsewhere. Before
their keyword stand, besides comments, only blanks and terminators. -/
structure ImportsInPlace (source : List Char) (is : List Item) : Prop where
  keyword : ∀ i ∈ is, i.construct = .importDeclaration → "import".toList <+: i.span.text source
  comment : ∀ i ∈ is, i.construct = .comment → isCommentText (i.span.text source)
  filler : ∀ i comments j, Neighbours is i comments j → j.construct = .importDeclaration →
    ∀ c ∈ uncommented source i.stop.offset comments j.start.offset, isFiller c

/-- The word that a declaration begins with. -/
def DeclKind.keyword : DeclKind → String
  | .const => "const"
  | .var => "var"
  | .type => "type"
  | .func => "func"

/-- The text begins like a declaration. -/
def BeginsDeclaration (cs : List Char) : Prop :=
  ∃ kind : DeclKind, kind.keyword.toList ++ [' '] <+: cs

theorem BeginsDeclaration.exists_cons {cs : List Char} (h : BeginsDeclaration cs) :
    ∃ c rest, cs = c :: rest ∧ isFiller c = false ∧ c ≠ '/' ∧ c ≠ 'i' := by
  obtain ⟨kind, rest, rfl⟩ := h
  cases kind <;> exact ⟨_, _, rfl, by decide, by decide, by decide⟩

theorem exists_cons_of_isCommentText {cs : List Char} (h : isCommentText cs) :
    ∃ rest, cs = '/' :: rest := by
  unfold isCommentText at h
  split at h
  · exact ⟨_, rfl⟩
  · exact ⟨_, rfl⟩
  · simp at h

/-- The first character of a text that is no filler. -/
theorem eq_of_fillers {gap gap' cs cs' : List Char} {c c' : Char}
    (h : gap ++ c :: cs = gap' ++ c' :: cs') (hgap : ∀ d ∈ gap, isFiller d)
    (hgap' : ∀ d ∈ gap', isFiller d) (hc : isFiller c = false) (hc' : isFiller c' = false) :
    c = c' := by
  have hdrop := congrArg (List.dropWhile isFiller) h
  rw [List.dropWhile_append_of_pos hgap, List.dropWhile_append_of_pos hgap',
    List.dropWhile_cons_of_neg (by simp [hc]), List.dropWhile_cons_of_neg (by simp [hc'])] at hdrop
  exact (List.cons.inj hdrop).1

theorem uncommented_append (source : List Char) (start : Nat) (cs : List Item) (c : Item)
    (ds : List Item) (stop : Nat) : uncommented source start (cs ++ c :: ds) stop =
      uncommented source start cs c.start.offset ++ uncommented source c.stop.offset ds stop := by
  induction cs generalizing start with
  | nil => rfl
  | cons d cs ih => simp [uncommented, ih]

theorem Laid.isCommentText {ended e : Bool} {pre cs : List Char} {is : List Item} {i : Item}
    (h : Laid ended (.after .zero pre) cs is e) (hi : i ∈ is) (hc : i.construct = .comment) :
    isCommentText (i.span.text (pre ++ cs)) := by
  induction is generalizing ended pre cs with
  | nil => simp at hi
  | cons j is ih =>
    rcases h with _ | @⟨_, _, _, _, gap, text, rest, _, _, _, hstart, hstop, _, _, htext, hmore⟩
    rcases List.mem_cons.1 hi with rfl | hi
    · rw [← List.append_assoc pre, Item.text_span (by rw [hstart, Place.after_after]) hstop]
      exact htext hc
    · rw [hstop, hstart, Place.after_after, Place.after_after] at hmore
      simpa using ih hmore hi

/-- In a text without a fault all but the keyword is given. -/
theorem importsInPlace_of_laid {source : List Char} {is : List Item} {e : Bool}
    (h : Laid true .zero source is e)
    (hkeyword : ∀ i ∈ is, i.construct = .importDeclaration →
      "import".toList <+: i.span.text source) : ImportsInPlace source is where
  keyword := hkeyword
  comment i hi hc := by
    have hlaid : Laid true (.after .zero []) source is e := by simpa using h
    exact hlaid.isCommentText hi hc
  filler i comments j hn _ c hc := by simpa [isFiller] using (h.apart hn).blank c hc

/-- What stands between two constructs begins with the gap above the first comment there. -/
theorem mem_uncommented {source : List Char} {start : Nat} {cs : List Item} {i f : Item} {c : Char}
    (hf : (cs ++ [i]).head? = some f) (hc : c ∈ Span.text ⟨start, f.start.offset⟩ source) :
    c ∈ uncommented source start cs i.start.offset := by
  cases cs with
  | nil => simpa [uncommented, Option.some.inj hf] using hc
  | cons d cs =>
    obtain rfl : d = f := by simpa using hf
    exact List.mem_append_left _ hc

/-- What stands behind the last of some comments is part of what stands behind the construct above
them. -/
theorem mem_uncommented_above {source : List Char} {stop : Nat} {comments cs : List Item}
    {last : Item} {c : Char}
    (hc : c ∈ uncommented source (comments.getLast?.getD last).stop.offset cs stop) :
    c ∈ uncommented source last.stop.offset (comments ++ cs) stop := by
  rcases List.eq_nil_or_concat comments with rfl | ⟨comments, z, rfl⟩
  · exact hc
  · rw [List.concat_eq_append, List.append_assoc, List.singleton_append, uncommented_append]
    exact List.mem_append_right _ (by simpa using hc)

section Behind

variable {source as gap b : List Char} {is above comments rest : List Item} {last i f : Item}

/-- The item behind a gap begins like a declaration if the text there does. -/
theorem text_ne_of_beginsDeclaration {sound ended : Bool} {more : List Item}
    (hitems : itemsFit sound ended (.after .zero as) (gap ++ b) (f :: more))
    (hgap : ∀ c ∈ gap, isFiller c) (hb : BeginsDeclaration b)
    (hfill : ∀ c ∈ Span.text ⟨byteLength as, f.start.offset⟩ (as ++ (gap ++ b)), isFiller c)
    {c : Char} {cs : List Char} (hc : c = '/' ∨ c = 'i') :
    f.span.text (as ++ (gap ++ b)) ≠ c :: cs := by
  intro hf
  obtain ⟨gap', text, behind, -, hrest, hstart, hstop, -⟩ := exists_of_itemsFit_cons hitems
  obtain ⟨d, ds, rfl, hd, hslash, hi⟩ := hb.exists_cons
  have hgap' : Span.text ⟨byteLength as, f.start.offset⟩ (as ++ (gap ++ d :: ds)) = gap' := by
    rw [hrest, hstart]
    simp [Span.text, Place.after, Place.zero, slice_append]
  have htext : text = c :: cs := by
    rw [← hf, hrest, ← List.append_assoc as,
      Item.text_span (by rw [hstart, Place.after_after]) hstop]
  rw [hgap'] at hfill
  rw [htext, List.cons_append] at hrest
  have hcd := eq_of_fillers hrest hgap hfill hd (by rcases hc with rfl | rfl <;> decide)
  rcases hc with rfl | rfl
  · exact hslash hcd
  · exact hi hcd

/-- Where a text goes on like a declaration behind some items, comments at the end, the next construct
is no import. -/
theorem ImportsInPlace.find?_ne (h : ImportsInPlace (as ++ (gap ++ b)) is)
    (his : is = above ++ last :: (comments ++ rest)) (hlast : last.construct ≠ .comment)
    (hcomments : ∀ c ∈ comments, c.construct = .comment)
    {sound ended : Bool} (hitems : itemsFit sound ended (.after .zero as) (gap ++ b) rest)
    (hstop : (comments.getLast?.getD last).stop = .after .zero as)
    (hgap : ∀ c ∈ gap, isFiller c) (hb : BeginsDeclaration b) :
    ∀ i ∈ rest.find? (·.construct ≠ .comment), i.construct ≠ .importDeclaration := by
  intro i hi himport
  obtain ⟨-, cs, more, rfl, hcs⟩ := List.find?_eq_some_iff_append.1 hi
  have hcs : ∀ c ∈ cs, c.construct = .comment := by simpa using hcs
  have hne : i.construct ≠ .comment := by simp [himport]
  have hn : Neighbours is last (comments ++ cs) i :=
    { inOrder := ⟨above, more, by simp [his]⟩
      left := hlast
      right := hne
      comments := fun c hc => (List.mem_append.1 hc).elim (hcomments c) (hcs c) }
  have hoffset : (comments.getLast?.getD last).stop.offset = byteLength as := by
    simp [hstop, Place.after, Place.zero]
  obtain ⟨f, fs, hf⟩ := List.exists_cons_of_ne_nil (l := cs ++ [i]) (by simp)
  have hmem : f ∈ is ∧ (f.construct = .comment ∨ f.construct = .importDeclaration) := by
    have hf' : f ∈ cs ++ [i] := by simp [hf]
    rcases List.mem_append.1 hf' with hf' | hf'
    · exact ⟨by simp [his, hf'], .inl (hcs f hf')⟩
    · obtain rfl := List.mem_singleton.1 hf'
      exact ⟨by simp [his], .inr himport⟩
  -- the gap above the first item behind is part of what stands between the two neighbours
  have hfill : ∀ c ∈ Span.text ⟨byteLength as, f.start.offset⟩ (as ++ (gap ++ b)), isFiller c := by
    intro c hc
    rw [← hoffset] at hc
    exact h.filler _ _ _ hn himport c (mem_uncommented_above (mem_uncommented (by simp [hf]) hc))
  have hitems' : itemsFit sound ended (.after .zero as) (gap ++ b) (f :: (fs ++ more)) := by
    rw [← List.cons_append, ← hf]
    simpa using hitems
  rcases hmem.2 with hc | hc
  · obtain ⟨text, htext⟩ := exists_cons_of_isCommentText (h.comment f hmem.1 hc)
    exact text_ne_of_beginsDeclaration hitems' hgap hb hfill (.inl rfl) htext
  · obtain ⟨text, htext⟩ := h.keyword f hmem.1 hc
    exact text_ne_of_beginsDeclaration hitems' hgap hb hfill (.inr rfl) htext.symm

end Behind

/-- The items of a body without declarations are comments. -/
theorem construct_of_bodyDecls_eq_nil {above is : List Item} (h : bodyDecls above is = [])
    (his : ∀ i ∈ is, i.construct.isBody) : ∀ i ∈ is, i.construct = .comment := by
  induction is generalizing above with
  | nil => simp
  | cons i is ih =>
    obtain ⟨hi, hmore⟩ := List.append_eq_nil_iff.1 h
    refine List.forall_mem_cons.2 ⟨?_, ih hmore fun j hj => his j (List.mem_cons_of_mem i hj)⟩
    have hbody := his i List.mem_cons_self
    cases hc : i.construct with
    | comment => rfl
    | declaration kind => simp [declAt?, hc] at hi
    | packageClause | importDeclaration | other => simp [hc, Construct.isBody] at hbody

end Go

open Text Go Outline

/-- The rest of a line that ends does not depend on what comes below it. -/
theorem lineTail_append {cs : List Char} (h : '\n' ∈ cs) (rest : List Char) :
    lineTail (cs ++ rest) = lineTail cs := by
  rw [lineTail, lineTail, restOfLine_append h]

/-- Behind a text that holds only a header and comments, and then goes on like a declaration, the next
construct is no import. -/
theorem Stretch.IsHead.find?_ne {head : Stretch} {source b : List Char} {is rest : List Item}
    {fault : Option Fault} (h : head.IsHead source is)
    (hafter : ∀ i ∈ head.after, i.construct = .comment) (hb : BeginsDeclaration b)
    (hfits : Outline.fits (source ++ b) ⟨fault, is ++ rest⟩)
    (himports : ImportsInPlace (source ++ b) (is ++ rest)) :
    ∀ i ∈ rest.find? (·.construct ≠ .comment), i.construct ≠ .importDeclaration := by
  obtain ⟨e, hlaid⟩ := h.laid
  have hitems : ∃ init, is = init ++ [head.after.getLast?.getD head.item] := by
    rw [h.items_eq]
    rcases List.eq_nil_or_concat head.after with hnil | ⟨after, z, hz⟩
    · exact ⟨head.above, by simp [hnil]⟩
    · exact ⟨head.above ++ head.item :: after, by simp [hz]⟩
  obtain ⟨init, hinit⟩ := hitems
  rw [hinit] at hlaid
  obtain ⟨as, gap, e₁, rfl, -, -, hstop, hgap, -⟩ := hlaid.cut_behind
  have hgap : ∀ c ∈ gap, isFiller c := by
    cases hgap with
    | nil hgap => exact fun c hc => by simpa [isFiller] using isSpace_or_isTerminator hgap c hc
  simp only [fits, Bool.and_eq_true] at hfits
  have hfits := hfits.2
  rw [hinit, List.append_assoc init, List.singleton_append] at hfits
  obtain ⟨pre, more, ended, hsource, hpre, hrest⟩ := exists_of_itemsFit_append hfits
  have hlen : byteLength as = byteLength pre := by
    simpa [Place.after, Place.zero] using congrArg Place.offset (hstop.symm.trans hpre)
  rw [List.append_assoc] at hsource
  obtain ⟨rfl, rfl⟩ := append_inj_of_byteLength hsource hlen
  rw [List.append_assoc] at himports
  rw [hstop] at hrest
  have his : is ++ rest = head.above ++ head.item :: (head.after ++ rest) := by
    simp [h.items_eq]
  exact himports.find?_ne his h.construct_ne hafter hrest hstop hgap hb

/-- The header of a text without declarations is read as it is whatever comes behind it, if the
constructs of the text are still the first ones. -/
theorem header_append {h b : String} {o o' : Outline} (hread : SourceFile.read h = .ok ⟨[]⟩)
    (hline : h.toList.getLast? = some '\n') (hb : BeginsDeclaration b.toList)
    (ho : outline h = .ok o) (ho' : outline (h ++ b) = .ok o') (hkept : o.items <+: o'.items)
    (himports : ImportsInPlace (h ++ b).toList o'.items) :
    ∃ n s, headerEnd h = .ok n ∧ headerEnd (h ++ b) = .ok n ∧
      headerSpan h = .ok s ∧ headerSpan (h ++ b) = .ok s := by
  have hfile : o.sourceFile h.toList = .ok ⟨[]⟩ := (SourceFile.readWith_of_ok ho).symm.trans hread
  obtain ⟨head, hnone, hhead, hdecls⟩ := exists_head (fits_of_outline ho) hfile
  have hafter := construct_of_bodyDecls_eq_nil hdecls.symm hhead.body
  obtain ⟨e, hlaid⟩ := hhead.laid
  obtain ⟨n, hn, hmore⟩ := headerEndFrom_append (.inl ⟨rfl, rfl⟩)
    (declarationsFrom_of_sourceFile hfile).2 fun i hi => hlaid.sound hi
  have hlen : n = byteLength head.text := Except.ok.inj (hn.symm.trans hhead.headerEnd_eq)
  obtain ⟨fault, is⟩ := o'
  obtain ⟨rest, rfl⟩ := hkept
  have hsource : (h ++ b).toList = h.toList ++ b.toList := String.toList_append
  have hfits := fits_of_outline ho'
  rw [hsource] at hfits himports
  have hend : Outline.headerEnd (h ++ b).toList ⟨fault, o.items ++ rest⟩ = .ok n := by
    rw [Outline.headerEnd, hmore]
    exact headerEndFrom_of_find? (hhead.find?_ne hafter hb hfits himports)
  -- the rest of the last line of the header is not the last line of the text
  have hnewline : '\n' ∈ head.behind := by
    have hlast := hline
    rw [hhead.source_eq, List.getLast?_append] at hlast
    cases hbehind : head.behind.getLast? with
    | none =>
      rw [hbehind, Option.none_or] at hlast
      exact absurd hlast (getLast?_of_endsInLine hhead.ends)
    | some c =>
      obtain rfl : c = '\n' := by simpa [hbehind] using hlast
      exact List.mem_of_getLast? hbehind
  have htail : extendOverLine (h ++ b).toList n = extendOverLine h.toList n := by
    rw [hsource, hlen, hhead.source_eq, List.append_assoc, extendOverLine_append,
      extendOverLine_append, lineTail_append hnewline]
  refine ⟨n, ⟨0, extendOverLine h.toList n⟩, (headerEnd_of_ok ho).trans hn,
    (headerEnd_of_ok ho').trans hend, ?_, ?_⟩
  · rw [headerSpan_of_ok ho, headerSpanOf_of_ok hn]
  · rw [headerSpan_of_ok ho', headerSpanOf_of_ok hend, htail]

/-- A header with a comment in it and one below it. -/
def commentedHeader : String := "package x // c\n\nimport \"fmt\"\n// d\n"

theorem outline_commentedHeader : outline commentedHeader = .ok
    ⟨none, [⟨.packageClause, ⟨0, 0⟩, ⟨9, 0⟩, none, []⟩, ⟨.comment, ⟨10, 0⟩, ⟨14, 0⟩, none, []⟩,
      ⟨.importDeclaration, ⟨16, 2⟩, ⟨28, 2⟩, none, []⟩,
      ⟨.comment, ⟨29, 3⟩, ⟨33, 3⟩, none, []⟩]⟩ :=
  outline_of_plain (by decide +kernel) (by decide +kernel)

theorem outline_commentedHeader_append : outline (commentedHeader ++ "type A struct{}\n") = .ok
    ⟨none, [⟨.packageClause, ⟨0, 0⟩, ⟨9, 0⟩, none, []⟩, ⟨.comment, ⟨10, 0⟩, ⟨14, 0⟩, none, []⟩,
      ⟨.importDeclaration, ⟨16, 2⟩, ⟨28, 2⟩, none, []⟩,
      ⟨.comment, ⟨29, 3⟩, ⟨33, 3⟩, none, []⟩,
      ⟨.declaration .type, ⟨34, 4⟩, ⟨49, 4⟩, none, [⟨"A", .struct⟩]⟩]⟩ :=
  outline_of_plain (by decide +kernel) (by decide +kernel)

theorem header_append_commentedHeader : headerEnd commentedHeader = .ok 28 ∧
    headerEnd (commentedHeader ++ "type A struct{}\n") = .ok 28 ∧
    headerSpan (commentedHeader ++ "type A struct{}\n") = headerSpan commentedHeader := by
  have hread : SourceFile.read commentedHeader = .ok ⟨[]⟩ := by
    rw [SourceFile.read, SourceFile.readWith_of_ok outline_commentedHeader]
    rfl
  have hfits := fits_of_outline outline_commentedHeader_append
  obtain ⟨e, hlaid⟩ := exists_laid_of_fits hfits
  obtain ⟨n, s, hn, hn', hs, hs'⟩ := header_append hread (by decide +kernel)
    ⟨.type, by decide +kernel⟩ outline_commentedHeader outline_commentedHeader_append
    ⟨_, rfl⟩ (importsInPlace_of_laid hlaid (by decide +kernel))
  obtain rfl : n = 28 := by
    have hend : headerEnd commentedHeader = .ok 28 := by
      rw [headerEnd_of_ok outline_commentedHeader]
      rfl
    exact Except.ok.inj (hn.symm.trans hend)
  exact ⟨hn, hn', hs'.trans hs.symm⟩

end StructProjection
