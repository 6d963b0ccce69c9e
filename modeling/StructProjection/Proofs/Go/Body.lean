import StructProjection.Proofs.Go.Layout

/-! # Header and body

The items of a file that is accepted are a header, which ends with the package clause or the last
import, and a body of declarations, with comments everywhere. The declarations are read off the body,
each with the run of comments above it.
-/

namespace StructProjection.Go

open Text

/-- A comment belongs to what is on the row below its last, unless the item above it ends on its
first. -/
def attaches (row : Nat) (i : Item) (above : List Item) : Bool :=
  i.construct = .comment && i.stop.row + 1 = row &&
    !(above.head?.any fun j => j.stop.row = i.start.row)

/-- The comments above a declaration that belong to it, the nearest first. -/
def docRun : (row : Nat) → (above : List Item) → List Item
  | _, [] => []
  | row, i :: above => if attaches row i above then i :: docRun i.start.row above else []

theorem docStart_eq_docRun (row : Nat) (above : List Item) :
    docStart row above = (docRun row above).getLast?.map (·.start.offset) := by
  induction above generalizing row with
  | nil => rfl
  | cons i above ih =>
    have hstart : docStart row (i :: above) = if attaches row i above then
        some ((docStart i.start.row above).getD i.start.offset) else none := rfl
    rw [hstart, docRun, ih]
    split
    · cases docRun i.start.row above <;> simp [List.getLast?_cons]
    · rfl


theorem construct_of_attaches {row : Nat} {i : Item} {above : List Item}
    (h : attaches row i above) : i.construct = .comment := by
  simp only [attaches, Bool.and_eq_true, decide_eq_true_eq] at h
  exact h.1.1

theorem construct_of_mem_docRun {row : Nat} {above : List Item} {i : Item}
    (h : i ∈ docRun row above) : i.construct = .comment := by
  induction above generalizing row with
  | nil => simp [docRun] at h
  | cons j above ih =>
    rw [docRun] at h
    split at h
    · next hj =>
      rcases List.mem_cons.1 h with rfl | h
      · exact construct_of_attaches hj
      · exact ih h
    · simp at h

theorem attaches_of_attaches {row : Nat} {i : Item} {above above' : List Item}
    (h : attaches row i above) (hrow : ∀ j ∈ above'.head?, j.stop.row ≠ i.start.row) :
    attaches row i above' := by
  have hfollows : (above'.head?.any fun j => j.stop.row = i.start.row) = false := by
    cases habove : above'.head? with
    | none => rfl
    | some j => simpa using hrow j habove
  simp only [attaches, Bool.and_eq_true] at h ⊢
  exact ⟨h.1, by simp [hfollows]⟩

theorem row_of_attaches {row : Nat} {i j : Item} {above : List Item} (h : attaches row i above)
    (hj : j ∈ above.head?) : j.stop.row ≠ i.start.row := by
  simp only [attaches, Bool.and_eq_true, Bool.not_eq_true', Option.mem_def.1 hj] at h
  simpa using h.2

/-- What stands above a run of comments does not end on the first line of the topmost. -/
theorem exists_append_docRun (row : Nat) (above : List Item) :
    ∃ rest, above = docRun row above ++ rest ∧
      ∀ d ∈ (docRun row above).getLast?, ∀ j ∈ rest.head?, j.stop.row ≠ d.start.row := by
  induction above generalizing row with
  | nil => exact ⟨[], rfl, by simp [docRun]⟩
  | cons i above ih =>
    rw [docRun]
    split
    · next hi =>
      obtain ⟨rest, hrest, hrow⟩ := ih i.start.row
      refine ⟨rest, by rw [List.cons_append, ← hrest], fun d hd j hj => ?_⟩
      rw [List.getLast?_cons] at hd
      cases hrun : (docRun i.start.row above).getLast? with
      | none =>
        rw [List.getLast?_eq_none_iff] at hrun
        obtain rfl : i = d := by simpa [hrun] using hd
        rw [hrun, List.nil_append] at hrest
        exact row_of_attaches hi (hrest ▸ hj)
      | some e =>
        obtain rfl : e = d := by simpa [hrun] using hd
        exact hrow e hrun j hj
    · exact ⟨i :: above, rfl, by simp⟩

theorem docRun_cons_of_ne {i : Item} (hi : i.construct ≠ .comment) (row : Nat) (above : List Item) :
    docRun row (i :: above) = [] := by
  rw [docRun, if_neg]
  exact fun h => hi (construct_of_attaches h)

/-- A comment that stands behind something else on a line does not belong to what is below. -/
theorem docRun_cons_of_follows {i j : Item} (hij : j.stop.row = i.start.row) (row : Nat)
    (above : List Item) : docRun row (i :: j :: above) = [] := by
  rw [docRun, if_neg]
  exact fun h => row_of_attaches h (j := j) rfl hij

/-- A run of comments is the whole run where nothing stands above it. -/
theorem docRun_docRun (row : Nat) (above : List Item) :
    docRun row (docRun row above) = docRun row above := by
  induction above generalizing row with
  | nil => rfl
  | cons i above ih =>
    by_cases h : attaches row i above
    · rw [docRun, if_pos h, docRun, ih, if_pos]
      refine attaches_of_attaches h fun j hj => row_of_attaches h ?_
      obtain ⟨rest, hrest, -⟩ := exists_append_docRun i.start.row above
      rw [hrest, List.head?_append, Option.mem_def.1 hj]
      rfl
    · rw [docRun, if_neg h]
      rfl

/-- Nothing is added to a run of comments by what stands above it, if that has no run itself and does
not end on the first line of the topmost comment. -/
theorem docRun_append {row : Nat} {docs above : List Item} (hdocs : docRun row docs = docs)
    (hrow : ∀ i ∈ above.head?, ∀ d ∈ docs.getLast?, i.stop.row ≠ d.start.row)
    (habove : ∀ row, docRun row above = []) : docRun row (docs ++ above) = docs := by
  induction docs generalizing row with
  | nil => exact habove row
  | cons d docs ih =>
    rw [docRun] at hdocs
    split at hdocs
    · next hd =>
      have htail := ih (List.cons.inj hdocs).2 (by
        intro i hi e he
        refine hrow i hi e ?_
        rw [List.getLast?_cons, Option.mem_def.1 he]
        rfl)
      rw [List.cons_append, docRun, if_pos, htail]
      refine attaches_of_attaches hd fun j hj => ?_
      cases docs with
      | nil => exact hrow j hj d (by simp)
      | cons e docs => exact row_of_attaches hd hj
    · simp at hdocs

theorem docRun_moved (p : Place) (row : Nat) (above : List Item) :
    docRun (p.row + row) (above.map (·.moved p)) = (docRun row above).map (·.moved p) := by
  induction above generalizing row with
  | nil => rfl
  | cons i above ih =>
    have h : attaches (p.row + row) (i.moved p) (above.map (·.moved p)) = attaches row i above := by
      rw [Bool.eq_iff_iff]
      simp only [attaches, Bool.and_eq_true, decide_eq_true_eq]
      cases above <;> simp [Place.add, Nat.add_assoc]
    rw [List.map_cons, docRun, docRun, h]
    split
    · rw [List.map_cons, ← ih]
      rfl
    · rfl

def Construct.isBody : Construct → Bool
  | .comment | .declaration _ => true
  | _ => false

def Construct.isHeader : Construct → Bool
  | .packageClause | .importDeclaration => true
  | _ => false

/-- The declaration that an item is, given the items above it, the nearest first. -/
def declAt? (above : List Item) (i : Item) : Option Decl :=
  match i.construct with
  | .declaration kind =>
    some { kind, span := i.span, docStart := docStart i.start.row above
           specs := if kind = .type then i.specs else [] }
  | _ => none

theorem declAt?_eq_some {above : List Item} {i : Item} {d : Decl} (h : declAt? above i = some d) :
    i.construct = .declaration d.kind ∧ d.span = i.span ∧
      d.docStart = (docRun i.start.row above).getLast?.map (·.start.offset) ∧
      d.specs = if d.kind = .type then i.specs else [] := by
  unfold declAt? at h
  split at h
  · next kind hkind =>
    rw [← Option.some.inj h]
    exact ⟨hkind, rfl, docStart_eq_docRun _ _, rfl⟩
  · simp at h

/-- The declarations among the items of a body. -/
def bodyDecls : (above : List Item) → List Item → List Decl
  | _, [] => []
  | above, i :: is => (declAt? above i).toList ++ bodyDecls (i :: above) is

theorem bodyDecls_append (above is js : List Item) :
    bodyDecls above (is ++ js) = bodyDecls above is ++ bodyDecls (is.reverse ++ above) js := by
  induction is generalizing above with
  | nil => rfl
  | cons i is ih => simp [bodyDecls, ih]

theorem bodyDecls_of_comments {above is : List Item} (h : ∀ i ∈ is, i.construct = .comment) :
    bodyDecls above is = [] := by
  induction is generalizing above with
  | nil => rfl
  | cons i is ih =>
    have hi : declAt? above i = none := by simp [declAt?, h i List.mem_cons_self]
    rw [bodyDecls, hi, ih fun j hj => h j (List.mem_cons_of_mem i hj)]
    rfl

theorem exists_of_mem_bodyDecls {above is : List Item} {d : Decl} (h : d ∈ bodyDecls above is) :
    ∃ before i after, is = before ++ i :: after ∧ declAt? (before.reverse ++ above) i = some d := by
  induction is generalizing above with
  | nil => simp [bodyDecls] at h
  | cons i is ih =>
    rcases List.mem_append.1 h with h | h
    · exact ⟨[], i, is, rfl, by simpa using h⟩
    · obtain ⟨before, j, after, rfl, hj⟩ := ih h
      exact ⟨i :: before, j, after, rfl, by simpa using hj⟩

/-- A package clause and imports, with comments before and between them. -/
def IsHeader (hs : List Item) : Prop :=
  ∃ cs p ms, hs = cs ++ p :: ms ∧ (∀ c ∈ cs, c.construct = .comment) ∧
    p.construct = .packageClause ∧
    (∀ m ∈ ms, m.construct = .comment ∨ m.construct = .importDeclaration) ∧
    ∀ m ∈ ms.getLast?, m.construct = .importDeclaration

section Acceptance

variable {source : List Char} {above is bs : List Item} {ds : List Decl}

theorem declarationsFrom_body (h : declarationsFrom source .body above is = (ds, none)) :
    (∀ i ∈ is, i.construct.isBody) ∧ ds = bodyDecls above is := by
  induction is generalizing above ds with
  | nil => exact ⟨by simp, (congrArg Prod.fst h).symm⟩
  | cons i is ih =>
    cases hi : i.construct with
    | comment =>
      simp only [declarationsFrom, hi] at h
      have := ih h
      simpa [bodyDecls, declAt?, hi, Construct.isBody] using this
    | declaration kind =>
      simp only [declarationsFrom, hi, Prod.mk.injEq] at h
      obtain ⟨rfl, hc⟩ := h
      have := ih (Prod.ext rfl hc)
      simpa [bodyDecls, declAt?, hi, Construct.isBody] using this
    | packageClause => simp [declarationsFrom, hi] at h
    | importDeclaration => simp [declarationsFrom, hi] at h
    | other name => simp [declarationsFrom, hi] at h

theorem declarationsFrom_of_body {part : Part} (hpart : part ≠ .start)
    (h : ∀ i ∈ is, i.construct.isBody) :
    declarationsFrom source part above is = (bodyDecls above is, none) := by
  induction is generalizing above part with
  | nil => cases part <;> simp_all [declarationsFrom, bodyDecls]
  | cons i is ih =>
    have his := fun j hj => h j (List.mem_cons_of_mem i hj)
    have hi := h i List.mem_cons_self
    cases hc : i.construct with
    | comment =>
      cases part <;> simp_all [declarationsFrom, bodyDecls, declAt?]
    | declaration kind =>
      have hbody := @ih (i :: above) .body (by simp) his
      cases part <;> simp_all [declarationsFrom, bodyDecls, declAt?]
    | packageClause => simp [hc, Construct.isBody] at hi
    | importDeclaration => simp [hc, Construct.isBody] at hi
    | other name => simp [hc, Construct.isBody] at hi

theorem declarationsFrom_imports (h : declarationsFrom source .imports above is = (ds, none)) :
    ∃ ms bs, is = ms ++ bs ∧
      (∀ m ∈ ms, m.construct = .comment ∨ m.construct = .importDeclaration) ∧
      (∀ m ∈ ms.getLast?, m.construct = .importDeclaration) ∧
      (∀ b ∈ bs, b.construct.isBody) ∧ ds = bodyDecls (ms.reverse ++ above) bs := by
  induction is generalizing above ds with
  | nil => exact ⟨[], [], rfl, by simp, by simp, by simp, (congrArg Prod.fst h).symm⟩
  | cons i is ih =>
    cases hi : i.construct with
    | comment =>
      simp only [declarationsFrom, hi] at h
      obtain ⟨ms, bs, rfl, hms, hlast, hbs, hds⟩ := ih h
      cases ms with
      | nil =>
        refine ⟨[], i :: bs, rfl, by simp, by simp, ?_, ?_⟩
        · simpa [hi, Construct.isBody] using hbs
        · simpa [bodyDecls, declAt?, hi] using hds
      | cons m ms =>
        refine ⟨i :: m :: ms, bs, rfl, ?_, ?_, hbs, by simpa using hds⟩
        · simpa [hi] using hms
        · simpa [List.getLast?_cons_cons] using hlast
    | importDeclaration =>
      simp only [declarationsFrom, hi] at h
      obtain ⟨ms, bs, rfl, hms, hlast, hbs, hds⟩ := ih h
      refine ⟨i :: ms, bs, rfl, ?_, ?_, hbs, by simpa using hds⟩
      · simpa [hi] using hms
      · cases ms with
        | nil => simpa using hi
        | cons m ms => simpa [List.getLast?_cons_cons] using hlast
    | declaration kind =>
      have hbody : declarationsFrom source .body above (i :: is) = (ds, none) := by
        simpa only [declarationsFrom, hi] using h
      obtain ⟨hbs, hds⟩ := declarationsFrom_body hbody
      exact ⟨[], i :: is, rfl, by simp, by simp, hbs, hds⟩
    | packageClause => simp [declarationsFrom, hi] at h
    | other name => simp [declarationsFrom, hi] at h

theorem declarationsFrom_start (h : declarationsFrom source .start above is = (ds, none)) :
    ∃ hs bs, is = hs ++ bs ∧ IsHeader hs ∧ (∀ b ∈ bs, b.construct.isBody) ∧
      ds = bodyDecls (hs.reverse ++ above) bs := by
  induction is generalizing above ds with
  | nil => simp [declarationsFrom] at h
  | cons i is ih =>
    cases hi : i.construct with
    | comment =>
      simp only [declarationsFrom, hi] at h
      obtain ⟨hs, bs, rfl, ⟨cs, p, ms, rfl, hcs, hp, hms, hlast⟩, hbs, hds⟩ := ih h
      refine ⟨i :: (cs ++ p :: ms), bs, rfl, ⟨i :: cs, p, ms, rfl, ?_, hp, hms, hlast⟩, hbs, ?_⟩
      · simpa [hi] using hcs
      · simpa using hds
    | packageClause =>
      simp only [declarationsFrom, hi] at h
      obtain ⟨ms, bs, rfl, hms, hlast, hbs, hds⟩ := declarationsFrom_imports h
      exact ⟨i :: ms, bs, rfl, ⟨[], i, ms, rfl, by simp, hi, hms, hlast⟩, hbs, by simpa using hds⟩
    | importDeclaration => simp [declarationsFrom, hi] at h
    | declaration kind => simp [declarationsFrom, hi] at h
    | other name => simp [declarationsFrom, hi] at h

theorem declarationsFrom_of_sourceFile {o : Outline} {file : SourceFile}
    (h : o.sourceFile source = .ok file) :
    o.fault = none ∧ declarationsFrom source .start [] o.items = (file.decls, none) := by
  unfold Outline.sourceFile at h
  split at h
  · next decls hdecls =>
    obtain rfl := Except.ok.inj h
    unfold Outline.declarations at hdecls
    split at hdecls
    · simp at hdecls
    · next hfault => exact ⟨hfault, hdecls⟩
  · simp at h

/-- The items of a file that is accepted, and its declarations. -/
theorem exists_header_of_sourceFile {o : Outline} {file : SourceFile}
    (h : o.sourceFile source = .ok file) :
    o.fault = none ∧ ∃ hs bs, o.items = hs ++ bs ∧ IsHeader hs ∧
      (∀ b ∈ bs, b.construct.isBody) ∧ file.decls = bodyDecls hs.reverse bs := by
  obtain ⟨hfault, hdecls⟩ := declarationsFrom_of_sourceFile h
  obtain ⟨hs, bs, his, hhs, hbs, hds⟩ := declarationsFrom_start hdecls
  exact ⟨hfault, hs, bs, his, hhs, hbs, by simpa using hds⟩

/-- Each declaration of a file is an item of it. -/
theorem exists_item_of_mem_decls {o : Outline} {file : SourceFile} {d : Decl}
    (h : o.sourceFile source = .ok file) (hd : d ∈ file.decls) :
    ∃ i ∈ o.items, i.construct = .declaration d.kind ∧ d.span = i.span ∧
      d.specs = if d.kind = .type then i.specs else [] := by
  obtain ⟨-, hs, bs, hitems, -, -, hdecls⟩ := exists_header_of_sourceFile h
  obtain ⟨before, i, after, rfl, hi⟩ := exists_of_mem_bodyDecls (hdecls ▸ hd)
  obtain ⟨hkind, hspan, -, hspecs⟩ := declAt?_eq_some hi
  exact ⟨i, by simp [hitems], hkind, hspan, hspecs⟩

theorem fits_of_outline {text : String} {o : Outline} (h : outline text = .ok o) :
    o.fits text.toList := by
  unfold outline at h
  split at h
  · next ho =>
    obtain rfl := Except.ok.inj h
    exact Outline.fits_of_ofText ho
  · simp at h

theorem exists_outline_of_read {text : String} {file : SourceFile}
    (h : SourceFile.read text = .ok file) :
    ∃ o, outline text = .ok o ∧ o.fits text.toList ∧ o.sourceFile text.toList = .ok file := by
  cases ho : outline text with
  | error => simp [SourceFile.read, SourceFile.readWith, ho, bind, Except.bind] at h
  | ok o => exact ⟨o, rfl, fits_of_outline ho, (SourceFile.readWith_of_ok ho).symm.trans h⟩

theorem declarationsFrom_of_imports
    (hms : ∀ m ∈ is, m.construct = .comment ∨ m.construct = .importDeclaration) :
    declarationsFrom source .imports above (is ++ bs) =
      declarationsFrom source .imports (is.reverse ++ above) bs := by
  induction is generalizing above with
  | nil => rfl
  | cons m ms ih =>
    rcases hms m List.mem_cons_self with hm | hm <;>
      simp [declarationsFrom, hm, ih fun n hn => hms n (List.mem_cons_of_mem m hn)]

theorem declarationsFrom_of_header {hs : List Item} (hhs : IsHeader hs)
    (hbs : ∀ b ∈ bs, b.construct.isBody) :
    declarationsFrom source .start [] (hs ++ bs) = (bodyDecls hs.reverse bs, none) := by
  obtain ⟨cs, p, ms, rfl, hcs, hp, hms, -⟩ := hhs
  have hstart : ∀ above : List Item, declarationsFrom source .start above (cs ++ p :: ms ++ bs) =
      declarationsFrom source .imports ((cs ++ p :: ms).reverse ++ above) bs := by
    induction cs with
    | nil =>
      intro above
      simp [declarationsFrom, hp, declarationsFrom_of_imports hms]
    | cons c cs ih =>
      intro above
      have hc := hcs c List.mem_cons_self
      have := ih (fun d hd => hcs d (List.mem_cons_of_mem c hd)) (c :: above)
      simpa [declarationsFrom, hc] using this
  rw [hstart, declarationsFrom_of_body (by simp) hbs, List.append_nil]

theorem sourceFile_of_header {hs : List Item} (hhs : IsHeader hs)
    (hbs : ∀ b ∈ bs, b.construct.isBody) :
    Outline.sourceFile source ⟨none, hs ++ bs⟩ = .ok ⟨bodyDecls hs.reverse bs⟩ := by
  simp [Outline.sourceFile, Outline.declarations, declarationsFrom_of_header hhs hbs]

theorem headerEndFrom_of_imports {stop : Nat} {i : Item} (hstop : i.stop.offset = stop)
    (hms : ∀ m ∈ is, m.construct = .comment ∨ m.construct = .importDeclaration)
    (hlast : ∀ m ∈ is.getLast?, m.construct = .importDeclaration)
    (hsound : ∀ m ∈ is, m.fault = none) (hbs : ∀ b ∈ bs, b.construct.isBody) :
    headerEndFrom source (some stop) (is ++ bs) =
      .ok ((is.getLast?.getD i).stop.offset) := by
  induction is generalizing stop i with
  | nil =>
    rw [List.nil_append, List.getLast?_nil, Option.getD_none, hstop]
    clear hms hlast hsound
    induction bs with
    | nil => rfl
    | cons b bs ih =>
      have hb := hbs b List.mem_cons_self
      cases hc : b.construct with
      | comment => simpa [headerEndFrom, hc] using ih fun c hc' => hbs c (List.mem_cons_of_mem b hc')
      | declaration kind => simp [headerEndFrom, hc]
      | packageClause => simp [hc, Construct.isBody] at hb
      | importDeclaration => simp [hc, Construct.isBody] at hb
      | other name => simp [hc, Construct.isBody] at hb
  | cons m ms ih =>
    have hms' := fun n hn => hms n (List.mem_cons_of_mem m hn)
    have hsound' := fun n hn => hsound n (List.mem_cons_of_mem m hn)
    have hlast' : ∀ n ∈ ms.getLast?, n.construct = .importDeclaration := by
      intro n hn
      refine hlast n ?_
      cases ms with
      | nil => simp at hn
      | cons _ _ => simpa [List.getLast?_cons_cons] using hn
    rcases hms m List.mem_cons_self with hm | hm
    · cases ms with
      | nil => simp [hm] at hlast
      | cons n ms =>
        simpa [headerEndFrom, hm, List.getLast?_cons] using ih hstop hms' hlast' hsound'
    · simpa [headerEndFrom, hm, hsound m List.mem_cons_self, List.getLast?_cons] using
        ih rfl hms' hlast' hsound'

theorem IsHeader.exists_last {hs : List Item} (hhs : IsHeader hs) :
    ∃ before last, hs = before ++ [last] ∧ last.construct.isHeader := by
  obtain ⟨cs, p, ms, rfl, -, hp, -, hlast⟩ := hhs
  rcases List.eq_nil_or_concat ms with rfl | ⟨ms, m, rfl⟩
  · exact ⟨cs, p, rfl, by simp [hp, Construct.isHeader]⟩
  · exact ⟨cs ++ p :: ms, m, by simp, by simp [hlast m (by simp), Construct.isHeader]⟩

/-- The header ends with its last item. -/
theorem headerEnd_of_header {before : List Item} {last : Item} (hhs : IsHeader (before ++ [last]))
    (hsound : ∀ i ∈ before ++ [last], i.fault = none) (hbs : ∀ b ∈ bs, b.construct.isBody) :
    Outline.headerEnd source ⟨none, before ++ [last] ++ bs⟩ = .ok last.stop.offset := by
  obtain ⟨cs, p, ms, heq, hcs, hp, hms, hlast⟩ := hhs
  rw [Outline.headerEnd]
  simp only [heq] at hsound ⊢
  have hend : last = ms.getLast?.getD p := by
    have := congrArg List.getLast? heq
    simpa [List.getLast?_append, List.getLast?_cons] using this
  have hstart : headerEndFrom source none (cs ++ p :: ms ++ bs) =
      headerEndFrom source (some p.stop.offset) (ms ++ bs) := by
    clear heq
    induction cs with
    | nil => simp [headerEndFrom, hp, hsound p (by simp)]
    | cons c cs ih =>
      have := ih (fun d hd => hcs d (List.mem_cons_of_mem c hd))
        fun d hd => hsound d (List.mem_cons_of_mem c hd)
      simpa [headerEndFrom, hcs c List.mem_cons_self] using this
  rw [hstart, headerEndFrom_of_imports rfl hms hlast (fun m hm => hsound m (by simp [hm])) hbs, hend]

end Acceptance

end StructProjection.Go
