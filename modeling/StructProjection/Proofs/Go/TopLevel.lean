import StructProjection.Proofs.Go.Body
import StructProjection.Proofs.Go.Shape
import StructProjection.Proofs.Parsing.FirstError

/-! # The order of the items in a file

Comments apart, a file is a package clause, imports and declarations, in this order. Everything else
is rejected at the first item with which it ceases to be the beginning of a file.
-/

namespace StructProjection.Go

open Text Parsing

/-- A package clause, imports and declarations, in this order. -/
def IsFile (cs : List Construct) : Prop :=
  ∃ imports decls, cs = .packageClause :: (imports ++ decls) ∧
    (∀ c ∈ imports, c = .importDeclaration) ∧ ∀ c ∈ decls, ∃ kind, c = .declaration kind

def BeginsFile (cs : List Construct) : Prop := ∃ rest, IsFile (cs ++ rest)

namespace Part

variable {part : Part} {c : Construct} {cs ds : List Construct}

/-- Where a file stands behind one more construct, if that may come next. -/
def next : Part → Construct → Option Part
  | .start, .packageClause => some .imports
  | .imports, .importDeclaration => some .imports
  | .imports, .declaration _ | .body, .declaration _ => some .body
  | _, _ => none

def nextAll (part : Part) (cs : List Construct) : Option Part := cs.foldlM next part

/-- What is complained of in a construct that may not come next. -/
def complaint : Part → Construct → Complaint
  | .start, _ => .noPackageClause
  | .body, .importDeclaration => .lateImport
  | _, c => .notADeclaration c.name

/-- The constructs complete a file that has been read up to a part. -/
def Completes : Part → List Construct → Prop
  | .start, cs => IsFile cs
  | .imports, cs => ∃ imports decls, cs = imports ++ decls ∧
      (∀ c ∈ imports, c = .importDeclaration) ∧ ∀ c ∈ decls, ∃ kind, c = .declaration kind
  | .body, cs => ∀ c ∈ cs, ∃ kind, c = .declaration kind

theorem completes_nil : part.Completes [] ↔ part ≠ .start := by
  cases part with
  | start => simp [Completes, IsFile]
  | imports => simp [Completes]
  | body => simp [Completes]

theorem completes_imports_of_body (h : body.Completes cs) : imports.Completes cs :=
  ⟨[], cs, rfl, by simp, h⟩

theorem completes_cons :
    part.Completes (c :: cs) ↔ ∃ part', part.next c = some part' ∧ part'.Completes cs := by
  cases part with
  | start =>
    constructor
    · rintro ⟨imports, decls, heq, himports, hdecls⟩
      obtain ⟨rfl, rfl⟩ := List.cons.inj heq
      exact ⟨.imports, rfl, imports, decls, rfl, himports, hdecls⟩
    · rintro ⟨part', hnext, h⟩
      cases c with
      | packageClause =>
        obtain rfl := Option.some.inj hnext
        obtain ⟨imports, decls, rfl, himports, hdecls⟩ := h
        exact ⟨imports, decls, rfl, himports, hdecls⟩
      | _ => cases hnext
  | imports =>
    constructor
    · rintro ⟨imports, decls, heq, himports, hdecls⟩
      cases imports with
      | nil =>
        obtain rfl : c :: cs = decls := heq
        obtain ⟨⟨kind, rfl⟩, hrest⟩ := List.forall_mem_cons.1 hdecls
        exact ⟨.body, rfl, hrest⟩
      | cons i imports =>
        obtain ⟨rfl, rfl⟩ := List.cons.inj heq
        obtain ⟨rfl, hrest⟩ := List.forall_mem_cons.1 himports
        exact ⟨.imports, rfl, imports, decls, rfl, hrest, hdecls⟩
    · rintro ⟨part', hnext, h⟩
      cases c with
      | importDeclaration =>
        obtain rfl := Option.some.inj hnext
        obtain ⟨imports, decls, rfl, himports, hdecls⟩ := h
        exact ⟨_ :: imports, decls, rfl, List.forall_mem_cons.2 ⟨rfl, himports⟩, hdecls⟩
      | declaration kind =>
        obtain rfl := Option.some.inj hnext
        exact completes_imports_of_body (List.forall_mem_cons.2 ⟨⟨kind, rfl⟩, h⟩)
      | _ => cases hnext
  | body =>
    constructor
    · intro h
      obtain ⟨⟨kind, rfl⟩, hrest⟩ := List.forall_mem_cons.1 h
      exact ⟨.body, rfl, hrest⟩
    · rintro ⟨part', hnext, h⟩
      cases c with
      | declaration kind =>
        obtain rfl := Option.some.inj hnext
        exact List.forall_mem_cons.2 ⟨⟨kind, rfl⟩, h⟩
      | _ => cases hnext

theorem completes_append : part.Completes (cs ++ ds) ↔
    ∃ part', part.nextAll cs = some part' ∧ part'.Completes ds := by
  induction cs generalizing part with
  | nil => simp [nextAll]
  | cons c cs ih =>
    rw [List.cons_append, completes_cons]
    simp only [nextAll, List.foldlM_cons, Option.bind_eq_bind, Option.bind_eq_some_iff]
    constructor
    · rintro ⟨p, hp, h⟩
      obtain ⟨part', hall, h⟩ := ih.1 h
      exact ⟨part', ⟨p, hp, hall⟩, h⟩
    · rintro ⟨part', ⟨p, hp, hall⟩, h⟩
      exact ⟨p, hp, ih.2 ⟨part', hall, h⟩⟩

theorem nextAll_cons_of_next {part' : Part} (h : part.next c = some part') (cs : List Construct) :
    part.nextAll (c :: cs) = part'.nextAll cs := by
  rw [nextAll, List.foldlM_cons, h]
  rfl

theorem nextAll_append :
    part.nextAll (cs ++ ds) = (part.nextAll cs).bind fun part' => part'.nextAll ds := by
  rw [nextAll, List.foldlM_append]
  rfl

/-- Nothing leads back to the start. -/
theorem next_ne_start : part.next c ≠ some .start := by
  intro h
  unfold next at h
  split at h <;> cases h

theorem eq_nil_of_nextAll_eq_start (h : part.nextAll cs = some .start) : cs = [] := by
  induction cs generalizing part with
  | nil => rfl
  | cons c cs ih =>
    obtain ⟨p, hp, hall⟩ := Option.bind_eq_some_iff.1 h
    obtain rfl := ih hall
    obtain rfl : p = .start := Option.some.inj hall
    exact absurd hp next_ne_start

/-- A file can be completed from every part. -/
theorem exists_completes (part : Part) : ∃ cs, part.Completes cs := by
  cases part with
  | start => exact ⟨[.packageClause], [], [], rfl, by simp, by simp⟩
  | imports => exact ⟨[], completes_nil.2 (by simp)⟩
  | body => exact ⟨[], completes_nil.2 (by simp)⟩

end Part

section Language

variable {cs : List Construct}

theorem isFile_iff : IsFile cs ↔ ∃ part, Part.start.nextAll cs = some part ∧ part ≠ .start := by
  have h := @Part.completes_append .start cs []
  rw [List.append_nil] at h
  simp only [Part.completes_nil] at h
  exact h

theorem beginsFile_iff : BeginsFile cs ↔ ∃ part, Part.start.nextAll cs = some part := by
  constructor
  · rintro ⟨rest, h⟩
    obtain ⟨part, hall, -⟩ := (@Part.completes_append .start cs rest).1 h
    exact ⟨part, hall⟩
  · rintro ⟨part, hall⟩
    obtain ⟨rest, h⟩ := part.exists_completes
    exact ⟨rest, (@Part.completes_append .start cs rest).2 ⟨part, hall, h⟩⟩

end Language

/-! ## Reading the items -/

/-- The constructs of items, without comments. -/
def constructs (is : List Item) : List Construct :=
  (is.map (·.construct)).filter (· ≠ .comment)

section Items

variable {source : List Char} {part part' : Part} {above is js : List Item} {i : Item}

theorem constructs_append : constructs (is ++ js) = constructs is ++ constructs js := by
  simp [constructs]

theorem constructs_cons_of_comment (h : i.construct = .comment) :
    constructs (i :: is) = constructs is := by
  simp [constructs, h]

theorem constructs_cons (h : i.construct ≠ .comment) :
    constructs (i :: is) = i.construct :: constructs is := by
  simp [constructs, h]

theorem declarationsFrom_of_comment (h : i.construct = .comment) :
    declarationsFrom source part above (i :: is) = declarationsFrom source part (i :: above) is := by
  cases part <;> simp [declarationsFrom, h]

theorem declarationsFrom_of_next (h : part.next i.construct = some part') :
    declarationsFrom source part above (i :: is) =
      ((declAt? above i).toList ++ (declarationsFrom source part' (i :: above) is).1,
        (declarationsFrom source part' (i :: above) is).2) := by
  unfold Part.next at h
  split at h
  case h_5 => cases h
  all_goals
    next hc =>
    obtain rfl := Option.some.inj h
    simp [declarationsFrom, declAt?, hc]

/-- An item that may not come next is complained of. -/
theorem declarationsFrom_of_stuck (hi : i.construct ≠ .comment) (hsound : i.fault = none)
    (h : part.next i.construct = none) :
    declarationsFrom source part above (i :: is) =
      ([], some (Diagnostic.locate source i.start.offset (part.complaint i.construct))) := by
  cases hc : i.construct with
  | comment => exact absurd hc hi
  | packageClause => cases part <;> simp_all [Part.next, declarationsFrom, Part.complaint]
  | importDeclaration =>
    cases part <;> simp_all [Part.next, declarationsFrom, misplaced, Part.complaint]
  | declaration kind =>
    cases part <;> simp_all [Part.next, declarationsFrom, misplaced, Part.complaint]
  | other name => cases part <;> simp_all [declarationsFrom, misplaced, Part.complaint]

/-- Items that may come next are read, and the declarations among them kept. -/
theorem declarationsFrom_append (h : part.nextAll (constructs is) = some part') :
    declarationsFrom source part above (is ++ js) =
      (bodyDecls above is ++ (declarationsFrom source part' (is.reverse ++ above) js).1,
        (declarationsFrom source part' (is.reverse ++ above) js).2) := by
  induction is generalizing part above with
  | nil =>
    obtain rfl : part = part' := Option.some.inj h
    rfl
  | cons i is ih =>
    have hreverse : (i :: is).reverse ++ above = is.reverse ++ i :: above := by simp
    rw [hreverse, bodyDecls, List.append_assoc, List.cons_append]
    by_cases hi : i.construct = .comment
    · rw [constructs_cons_of_comment hi] at h
      rw [declarationsFrom_of_comment hi, ih h, declAt?, hi]
      rfl
    · rw [constructs_cons hi] at h
      obtain ⟨p, hp, hall⟩ := Option.bind_eq_some_iff.1 h
      rw [declarationsFrom_of_next hp, ih hall]

/-- Either all items may come one after the other, or there is a first that may not. -/
theorem nextAll_or_stuck (part : Part) (is : List Item) :
    (∃ part', part.nextAll (constructs is) = some part') ∨
      ∃ before i after part', is = before ++ i :: after ∧ i.construct ≠ .comment ∧
        part.nextAll (constructs before) = some part' ∧ part'.next i.construct = none := by
  induction is generalizing part with
  | nil => exact .inl ⟨part, rfl⟩
  | cons i is ih =>
    by_cases hi : i.construct = .comment
    · rw [constructs_cons_of_comment hi]
      rcases ih part with h | ⟨before, j, after, p, rfl, hj, hp, hstuck⟩
      · exact .inl h
      · exact .inr ⟨i :: before, j, after, p, rfl, hj, by rwa [constructs_cons_of_comment hi], hstuck⟩
    · rw [constructs_cons hi]
      cases hnext : part.next i.construct with
      | none => exact .inr ⟨[], i, is, part, rfl, hi, rfl, hnext⟩
      | some q =>
        have hcons := Part.nextAll_cons_of_next hnext
        rcases ih q with ⟨p, hp⟩ | ⟨before, j, after, p, rfl, hj, hp, hstuck⟩
        · exact .inl ⟨p, (hcons _).trans hp⟩
        · refine .inr ⟨i :: before, j, after, p, rfl, hj, ?_, hstuck⟩
          rw [constructs_cons hi, hcons, hp]

/-- Nothing that comes behind an item makes up for it. -/
theorem nextAll_of_stuck (hi : i.construct ≠ .comment)
    (hall : part.nextAll (constructs is) = some part') (hstuck : part'.next i.construct = none)
    (js : List Item) : part.nextAll (constructs (is ++ i :: js)) = none := by
  rw [constructs_append, Part.nextAll_append, hall, constructs_cons hi, Option.bind_some,
    Part.nextAll, List.foldlM_cons, hstuck]
  rfl

end Items

/-! ## What is read -/

def Construct.isDeclaration : Construct → Bool
  | .declaration _ => true
  | _ => false

/-- The declarations are those among the items, in their order. -/
structure Listed (decls : List Decl) (is : List Item) : Prop where
  each : List.Forall₂ (fun d i => i.construct = .declaration d.kind ∧ d.span = i.span ∧
    (d.kind ≠ .type → d.specs = [])) decls (is.filter (·.construct.isDeclaration))
  bounds : ∀ d ∈ decls, d.span.start < d.span.stop
  apart : decls.Pairwise fun d e => d.span.stop ≤ e.span.start

/-- Before the item, the items are the beginning of a file. With it they are not. -/
def Offends (is : List Item) (i : Item) : Prop :=
  ∃ before after, is = before ++ i :: after ∧ i.construct ≠ .comment ∧
    BeginsFile (constructs before) ∧ ¬ BeginsFile (constructs (before ++ [i]))

section Read

variable {source : List Char} {text : String} {o : Outline} {above is : List Item}

theorem forall₂_bodyDecls (above is : List Item) :
    List.Forall₂ (fun d i => i.construct = .declaration d.kind ∧ d.span = i.span ∧
      (d.kind ≠ .type → d.specs = [])) (bodyDecls above is)
      (is.filter (·.construct.isDeclaration)) := by
  induction is generalizing above with
  | nil => exact .nil
  | cons i is ih =>
    rw [bodyDecls, declAt?]
    cases hi : i.construct with
    | declaration kind =>
      rw [List.filter_cons_of_pos (by rw [hi]; rfl)]
      exact .cons ⟨hi, rfl, fun hkind => if_neg hkind⟩ (ih _)
    | _ =>
      rw [List.filter_cons_of_neg (by rw [hi]; exact Bool.false_ne_true)]
      exact ih _

theorem listed_bodyDecls {e : Bool} (h : Laid true .zero source is e) :
    Listed (bodyDecls [] is) is := by
  have heach := forall₂_bodyDecls [] is
  have hspans : (bodyDecls [] is).map (·.span) =
      (is.filter (·.construct.isDeclaration)).map (·.span) := by
    refine List.forall₂_eq_eq_eq ▸ ?_
    rw [List.forall₂_map_left_iff, List.forall₂_map_right_iff]
    exact heach.imp fun d i hdi => hdi.2.1
  refine ⟨heach, fun d hd => ?_, ?_⟩
  · have hspan : d.span ∈ (is.filter (·.construct.isDeclaration)).map (·.span) :=
      hspans ▸ List.mem_map_of_mem hd
    obtain ⟨i, hi, hspan⟩ := List.mem_map.1 hspan
    rw [← hspan]
    exact (h.bounds (List.mem_of_mem_filter hi)).2.1
  · have hpairs : ((bodyDecls [] is).map (·.span)).Pairwise fun s s' => s.stop ≤ s'.start := by
      rw [hspans]
      exact List.pairwise_map.2 (h.pairwise.filter _)
    exact List.pairwise_map.1 hpairs

theorem offset_locate {n : Nat} (h : n ≤ byteLength source) (c : Complaint) :
    (Diagnostic.locate source n c).offset = n := Nat.min_eq_left h

theorem le_of_isBoundary {n : Nat} (h : IsBoundary n source) : n ≤ byteLength source := by
  obtain ⟨as, bs, rfl, rfl⟩ := isBoundary_iff.1 h
  simp

theorem Fault.Within.offset_le {f : Fault} (h : f.Within source) :
    f.offset ≤ byteLength source := by
  cases f with
  | unexpected s => exact le_of_isBoundary h.2.1
  | missing n kind => exact le_of_isBoundary h

theorem offset_faultOf (n : Node) : (faultOf n).offset = n.info.start.bytes := by
  rw [faultOf]
  split <;> rfl

theorem sourceFile_of_fault {f : Fault} (h : o.fault = some f) :
    o.sourceFile source = .error (f.diagnose source) := by
  rw [Outline.sourceFile, Outline.declarations, h]

/-- A complaint is located at the first item with which the items are not the beginning of a file, or
at the end of the source if there is none. -/
def Located (source : List Char) (is : List Item) (d : Diagnostic) : Prop :=
  constructs is = [] ∧ d.offset = byteLength source ∨ ∃ i, Offends is i ∧ d.offset = i.start.offset

theorem offends_of_stuck {before : List Item} {i : Item} {part : Part}
    (hi : i.construct ≠ .comment) (hall : Part.start.nextAll (constructs before) = some part)
    (hstuck : part.next i.construct = none) (after : List Item) :
    Offends (before ++ i :: after) i := by
  refine ⟨before, after, rfl, hi, beginsFile_iff.2 ⟨part, hall⟩, fun h => ?_⟩
  obtain ⟨p, hp⟩ := beginsFile_iff.1 h
  cases (nextAll_of_stuck hi hall hstuck []).symm.trans hp

/-- Where nothing is at fault, the order of the items decides. -/
theorem sourceFile_cases (hfits : o.fits source) (hsound : o.fault = none) :
    IsFile (constructs o.items) ∧ o.sourceFile source = .ok ⟨bodyDecls [] o.items⟩ ∨
      ¬ IsFile (constructs o.items) ∧
        ∃ d, o.sourceFile source = .error d ∧ Located source o.items d := by
  obtain ⟨fault, items⟩ := o
  obtain rfl : fault = none := hsound
  obtain ⟨e, hlaid⟩ := exists_laid_of_fits hfits
  rw [Outline.sourceFile, Outline.declarations]
  dsimp only
  rcases nextAll_or_stuck .start items with
    ⟨part, hall⟩ | ⟨before, i, after, part, rfl, hi, hall, hstuck⟩
  · have happend := @declarationsFrom_append source .start part [] items [] hall
    rw [List.append_nil] at happend
    rw [happend]
    cases part with
    | start =>
      refine .inr ⟨fun hfile => ?_, _, rfl,
        .inl ⟨Part.eq_nil_of_nextAll_eq_start hall, offset_locate le_rfl _⟩⟩
      obtain ⟨part, hall', hne⟩ := isFile_iff.1 hfile
      exact hne (Option.some.inj (hall'.symm.trans hall))
    | imports => exact .inl ⟨isFile_iff.2 ⟨_, hall, by simp⟩, by simp [declarationsFrom]⟩
    | body => exact .inl ⟨isFile_iff.2 ⟨_, hall, by simp⟩, by simp [declarationsFrom]⟩
  · have hmem : i ∈ before ++ i :: after := by simp
    have hle : i.start.offset ≤ byteLength source := by
      have := hlaid.bounds hmem
      simp only [Place.after, Place.zero] at this
      omega
    have herror : declarationsFrom source .start [] (before ++ i :: after) = (bodyDecls [] before,
        some (Diagnostic.locate source i.start.offset (part.complaint i.construct))) := by
      rw [declarationsFrom_append hall, declarationsFrom_of_stuck hi (hlaid.sound hmem) hstuck,
        List.append_nil]
    rw [herror]
    refine .inr ⟨fun hfile => ?_, _, rfl,
      .inr ⟨i, offends_of_stuck hi hall hstuck after, offset_locate hle _⟩⟩
    obtain ⟨p, hp, -⟩ := isFile_iff.1 hfile
    cases (nextAll_of_stuck hi hall hstuck after).symm.trans hp

theorem fault_of_plain {o' : Outline} (h : outline text = .ok o)
    (hplain : Plain.outline text.toList = some o') : o.fault = none := by
  obtain rfl := plain_of_outline h hplain
  simp only [Plain.outline, Option.bind_eq_bind, Option.bind_eq_some_iff] at hplain
  obtain ⟨ps, -, is, -, hplain⟩ := hplain
  obtain rfl := Option.some.inj hplain
  rfl

/-- A text with a fault is rejected there. All others are files if, comments apart, they consist of a
package clause, imports and declarations, in this order. They are rejected at the first item with
which they are not the beginning of a file, or at their end if there is nothing but comments. The
fault in a tree is its first faulty node, and plain files have none. -/
theorem SourceFile.exists_read_iff_isFile (h : outline text = .ok o) :
    (∀ f, o.fault = some f → ∃ d, SourceFile.read text = .error d ∧ d = f.diagnose text.toList ∧
        d.offset = f.offset) ∧
      (o.fault = none →
        ((∃ file, SourceFile.read text = .ok file) ↔ IsFile (constructs o.items)) ∧
        (∀ file, SourceFile.read text = .ok file → Listed file.decls o.items) ∧
        ∀ d, SourceFile.read text = .error d → Located text.toList o.items d) ∧
      (∀ o', Plain.outline text.toList = some o' → o.fault = none) ∧
      (Plain.outline text.toList = none → ∃ tree root, parse table.get text = some tree ∧
        rootOf table.get tree = some root ∧
        o.items = root.namedChildren.map (itemOf text.toList) ∧
        (o.fault = none ↔ ∀ n ∈ root.inOrder, n.faulty = false) ∧
        ∀ n, root.inOrder.find? Node.faulty = some n →
          ∃ d, SourceFile.read text = .error d ∧ d.offset = n.info.start.bytes) := by
  have hread : SourceFile.read text = o.sourceFile text.toList := SourceFile.readWith_of_ok h
  have hfits := fits_of_outline h
  have hfaulty : ∀ f, o.fault = some f → ∃ d, SourceFile.read text = .error d ∧
      d = f.diagnose text.toList ∧ d.offset = f.offset := by
    intro f hf
    refine ⟨_, hread.trans (sourceFile_of_fault hf), rfl, offset_locate ?_ _⟩
    simp only [Outline.fits, Bool.and_eq_true, hf, Option.all_some, decide_eq_true_eq] at hfits
    exact hfits.1.1.offset_le
  refine ⟨hfaulty, fun hsound => ?_, fun _ hplain => fault_of_plain h hplain, fun hplain => ?_⟩
  · rw [hread]
    rcases sourceFile_cases hfits hsound with ⟨hfile, hok⟩ | ⟨hfile, d, herror, hlocated⟩
    · rw [hok]
      refine ⟨⟨fun _ => hfile, fun _ => ⟨_, rfl⟩⟩, fun file hf => ?_, fun d hd => by cases hd⟩
      obtain rfl := Except.ok.inj hf
      obtain ⟨fault, items⟩ := o
      obtain rfl : fault = none := hsound
      obtain ⟨e, hlaid⟩ := exists_laid_of_fits hfits
      exact listed_bodyDecls hlaid
    · rw [herror]
      refine ⟨⟨?_, fun hf => absurd hf hfile⟩, ?_, ?_⟩
      · rintro ⟨file, hf⟩
        cases hf
      · rintro file hf
        cases hf
      · rintro d' hd
        obtain rfl := Except.error.inj hd
        exact hlocated
  · obtain ⟨tree, root, htree, hroot, rfl⟩ := exists_tree_of_ofTables (ofTables_of_outline h hplain)
    have hfirst : (outlineOf text.toList root).fault =
        (root.inOrder.find? Node.faulty).map faultOf := by
      rw [outlineOf, firstError_rootOf hroot]
    refine ⟨tree, root, htree, hroot, rfl, ?_, fun n hn => ?_⟩
    · rw [hfirst, Option.map_eq_none_iff, List.find?_eq_none]
      simp only [Bool.not_eq_true]
    · rw [hn] at hfirst
      obtain ⟨d, hd, -, hoffset⟩ := hfaulty _ hfirst
      exact ⟨d, hd, hoffset.trans (offset_faultOf n)⟩

/-- Comments before the package clause, between the imports and behind the last type. -/
def scatteredComments : String :=
  "// x\npackage x\n\nimport \"fmt\" // a\n/* b */ import \"os\"\ntype A int\n// c\ntype B A // d\n"

theorem outline_scatteredComments : outline scatteredComments = .ok
    ⟨none, [⟨.comment, ⟨0, 0⟩, ⟨4, 0⟩, none, []⟩, ⟨.packageClause, ⟨5, 1⟩, ⟨14, 1⟩, none, []⟩,
      ⟨.importDeclaration, ⟨16, 3⟩, ⟨28, 3⟩, none, []⟩, ⟨.comment, ⟨29, 3⟩, ⟨33, 3⟩, none, []⟩,
      ⟨.comment, ⟨34, 4⟩, ⟨41, 4⟩, none, []⟩, ⟨.importDeclaration, ⟨42, 4⟩, ⟨53, 4⟩, none, []⟩,
      ⟨.declaration .type, ⟨54, 5⟩, ⟨64, 5⟩, none, [⟨"A", .other⟩]⟩,
      ⟨.comment, ⟨65, 6⟩, ⟨69, 6⟩, none, []⟩,
      ⟨.declaration .type, ⟨70, 7⟩, ⟨78, 7⟩, none, [⟨"B", .other⟩]⟩,
      ⟨.comment, ⟨79, 7⟩, ⟨83, 7⟩, none, []⟩]⟩ :=
  outline_of_plain (by decide +kernel) (by decide +kernel)

theorem SourceFile.exists_read_scatteredComments :
    ∃ o file, outline scatteredComments = .ok o ∧ SourceFile.read scatteredComments = .ok file ∧
      constructs o.items = [.packageClause, .importDeclaration, .importDeclaration,
        .declaration .type, .declaration .type] ∧ Listed file.decls o.items := by
  obtain ⟨-, hsound, -⟩ := SourceFile.exists_read_iff_isFile outline_scatteredComments
  obtain ⟨hiff, hlisted, -⟩ := hsound rfl
  have hfile : IsFile [.packageClause, .importDeclaration, .importDeclaration,
      .declaration .type, .declaration .type] :=
    ⟨[.importDeclaration, .importDeclaration], [.declaration .type, .declaration .type], rfl,
      by simp, by simp⟩
  obtain ⟨file, hread⟩ := hiff.2 hfile
  exact ⟨_, file, outline_scatteredComments, hread, by decide, hlisted file hread⟩

end Read

end StructProjection.Go
