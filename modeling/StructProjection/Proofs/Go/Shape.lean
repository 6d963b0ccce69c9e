import StructProjection.Proofs.Go.Body
import StructProjection.Proofs.Go.Supplied
import StructProjection.Projection

/-! # The shapes of types

The shape of a type is the one that it has within its parentheses, unless a comment comes first in one
of these.
-/

namespace StructProjection.Go

open Text Parsing

/-- A type as far as its shape goes. Of parentheses it is told whether a comment comes first in them. -/
inductive TypeForm
  | literal (shape : Shape)
  | parens (comment : Bool) (inner : TypeForm)
  deriving DecidableEq, Repr

namespace TypeForm

/-- The shape within the parentheses. -/
def bare : TypeForm → Shape
  | literal s => s
  | parens _ f => f.bare

/-- A comment comes first in one of the parentheses. -/
def covered : TypeForm → Bool
  | literal _ => false
  | parens c f => c || f.covered

/-- The type without its comments. -/
def cleared : TypeForm → TypeForm
  | literal s => literal s
  | parens _ f => parens false f.cleared

/-- The shape that what comes first in the parentheses gives to a type. -/
def shape : TypeForm → Shape
  | literal s => s
  | parens c f => if c then .other else f.shape

theorem shape_eq (f : TypeForm) : f.shape = if f.covered then .other else f.bare := by
  induction f with
  | literal s => rfl
  | parens c f ih => cases c <;> simp [shape, covered, bare, ih]

theorem shape_eq_iff {f : TypeForm} {s : Shape} (hs : s ≠ .other) :
    f.shape = s ↔ f.bare = s ∧ f.covered = false := by
  rw [shape_eq]
  cases f.covered <;> simp [hs.symm]

@[simp] theorem bare_cleared (f : TypeForm) : f.cleared.bare = f.bare := by
  induction f with
  | literal s => rfl
  | parens c f ih => exact ih

@[simp] theorem covered_cleared (f : TypeForm) : f.cleared.covered = false := by
  induction f with
  | literal s => rfl
  | parens c f ih => exact ih

end TypeForm

/-! ## Types in trees -/

/-- The first that is named among some nodes is a comment. -/
def commentFirst (ns : List Node) : Bool := (ns.find? (·.info.named)).any (·.info.kind = "comment")

mutual

/-- The form of the type that a node is. -/
def formOf : Node → TypeForm
  | .mk i cs =>
    if i.kind = "struct_type" then .literal .struct
    else if i.kind = "interface_type" then .literal .interface
    else if i.kind = "parenthesized_type" then .parens (commentFirst cs) (formOfFirst cs)
    else .literal .other

/-- The form of the first type among some nodes, comments apart. -/
def formOfFirst : List Node → TypeForm
  | [] => .literal .other
  | n :: ns => if n.info.named && n.info.kind ≠ "comment" then formOf n else formOfFirst ns

end

mutual

theorem shapeOfNode_eq : (n : Node) → shapeOfNode n = (formOf n).shape
  | .mk i cs => by
    rw [shapeOfNode, formOf, shapeOfFirst_eq cs]
    split
    · rfl
    · split
      · rfl
      · split <;> rfl

theorem shapeOfFirst_eq : (ns : List Node) →
    shapeOfFirst ns = (TypeForm.parens (commentFirst ns) (formOfFirst ns)).shape
  | [] => rfl
  | n :: ns => by
    have hcons : shapeOfFirst (n :: ns) = if n.info.named then (formOf n).shape else
        (TypeForm.parens (commentFirst ns) (formOfFirst ns)).shape := by
      rw [shapeOfFirst, shapeOfNode_eq n, shapeOfFirst_eq ns]
    rw [hcons, formOfFirst]
    by_cases hnamed : n.info.named
    · by_cases hcomment : n.info.kind = "comment"
      · have hother : formOf n = .literal .other := by
          obtain ⟨i, cs⟩ := n
          simp [formOf, show i.kind = "comment" from hcomment]
        simp [commentFirst, hnamed, hcomment, hother, TypeForm.shape]
      · simp [commentFirst, hnamed, hcomment, TypeForm.shape]
    · simp [commentFirst, hnamed]

end

mutual

/-- A node without the comments in it. -/
def withoutComments : Node → Node
  | .mk i cs => .mk i (withoutCommentsAll cs)

def withoutCommentsAll : List Node → List Node
  | [] => []
  | n :: ns =>
    if n.info.kind = "comment" then withoutCommentsAll ns
    else withoutComments n :: withoutCommentsAll ns

end

@[simp] theorem info_withoutComments (n : Node) : (withoutComments n).info = n.info := by
  cases n
  rfl

theorem commentFirst_withoutCommentsAll (ns : List Node) :
    commentFirst (withoutCommentsAll ns) = false := by
  induction ns with
  | nil => rfl
  | cons n ns ih =>
    rw [withoutCommentsAll]
    split
    · exact ih
    · next hn =>
      by_cases hnamed : n.info.named
      · simp [commentFirst, hnamed, hn]
      · simpa [commentFirst, hnamed] using ih

mutual

/-- Comments do not count for the form, except in front within parentheses. -/
theorem formOf_withoutComments : (n : Node) → formOf (withoutComments n) = (formOf n).cleared
  | .mk i cs => by
    rw [withoutComments, formOf, formOf, commentFirst_withoutCommentsAll,
      formOfFirst_withoutCommentsAll cs]
    split
    · rfl
    · split
      · rfl
      · split <;> rfl

theorem formOfFirst_withoutCommentsAll : (ns : List Node) →
    formOfFirst (withoutCommentsAll ns) = (formOfFirst ns).cleared
  | [] => rfl
  | n :: ns => by
    have hn := formOf_withoutComments n
    have hns := formOfFirst_withoutCommentsAll ns
    rw [withoutCommentsAll, formOfFirst]
    by_cases hcomment : n.info.kind = "comment"
    · simp [hcomment, hns]
    · by_cases hnamed : n.info.named <;> simp [hcomment, hnamed, formOfFirst, hn, hns]

end

/-- Two types that differ in comments only have the same shape within their parentheses. -/
theorem bare_formOf_congr {m n : Node} (h : withoutComments m = withoutComments n) :
    (formOf m).bare = (formOf n).bare := by
  rw [← TypeForm.bare_cleared, ← formOf_withoutComments, h, formOf_withoutComments,
    TypeForm.bare_cleared]

/-! ## Declarations in trees -/

/-- The nodes of a type declaration that declare one type each. -/
def specNodes (n : Node) : List Node :=
  n.namedChildren.filter fun m => m.info.kind = "type_spec" || m.info.kind = "type_alias"

/-- The name that such a node declares, which comes first in it. -/
def nameOfSpec (source : List Char) (n : Node) : String :=
  String.ofList (((n.children.filter (!·.info.isExtra)).head?.map fun m =>
    (spanOf m).text source).getD [])

/-- The type that such a node declares, which comes last in it. -/
def formOfSpec (n : Node) : TypeForm :=
  ((n.children.filter (!·.info.isExtra)).getLast?.map formOf).getD (.literal .other)

theorem specsOf_eq (source : List Char) (n : Node) :
    specsOf source n =
      (specNodes n).map fun m => ⟨nameOfSpec source m, (formOfSpec m).shape⟩ := by
  refine List.map_congr_left fun m _ => ?_
  rw [specOf, formOfSpec, nameOfSpec]
  cases (m.children.filter (!·.info.isExtra)).getLast? with
  | none => rfl
  | some type => simp [shapeOfNode_eq]

/-! ## Types in tokens -/

namespace Plain

/-- The form of the type that some tokens begin with. -/
def formOf : List Piece → TypeForm
  | [] => .literal .other
  | p :: ps =>
    match p.token with
    | .comment => formOf ps
    | .mark '(' => .parens (ps.head?.any (·.token = .comment)) (formOf ps)
    | .word "struct" => .literal .struct
    | .word "interface" => .literal .interface
    | _ => .literal .other

/-- The ways to read a type that does not begin with a comment. -/
inductive ReadsType (fuel : Nat) : List Piece → TypeEnd → Prop
  | parens {p q : Piece} {rest after : List Piece} {inner : TypeEnd} (hp : p.token = .mark '(')
      (hinner : typeFrom fuel rest = some inner) (hclose : skipComments inner.rest = q :: after) :
      ReadsType fuel (p :: rest)
        ⟨if rest.head?.any (·.token = .comment) then .other else inner.shape, true, q.stop, after⟩
  | element {p : Piece} {rest rest' : List Piece} {inner : TypeEnd}
      (hp : p.token = .mark '*' ∨ p.token = .mark '[') (hrest : rest' <:+ rest)
      (hinner : typeFrom fuel rest' = some inner) :
      ReadsType fuel (p :: rest) { inner with shape := .other, single := false }
  | struct {p q : Piece} {rest : List Piece} {t : TypeEnd} (hp : p.token = .word "struct")
      (hfields : fieldsFrom fuel rest = some t) : ReadsType fuel (p :: q :: rest) t
  | interface {p : Piece} {rest : List Piece} {t : TypeEnd} (hp : p.token = .word "interface")
      (hshape : t.shape = .interface) (hrest : t.rest <:+ rest) : ReadsType fuel (p :: rest) t
  | named {p : Piece} {rest : List Piece} {t : TypeEnd} {name : String} (hp : p.token = .word name)
      (hname : isName name) (hshape : t.shape = .other) (hrest : t.rest <:+ rest) :
      ReadsType fuel (p :: rest) t

theorem readsType_of_typeFrom {fuel : Nat} {ps : List Piece} {t : TypeEnd}
    (h : typeFrom (fuel + 1) ps = some t) : ReadsType fuel (skipComments ps) t := by
  simp only [typeFrom, Option.bind_eq_bind] at h
  split at h
  · next hps =>
    obtain ⟨inner, hinner, h⟩ := Option.bind_eq_some_iff.1 h
    split at h
    · next hclose =>
      obtain rfl := Option.some.inj h
      exact hps ▸ .parens rfl hinner hclose
    · simp at h
  · next hps =>
    obtain ⟨inner, hinner, h⟩ := Option.bind_eq_some_iff.1 h
    obtain rfl := Option.some.inj h
    exact hps ▸ .element (.inl rfl) (List.suffix_refl _) hinner
  · next hps =>
    obtain ⟨inner, hinner, h⟩ := Option.bind_eq_some_iff.1 h
    obtain rfl := Option.some.inj h
    exact hps ▸ .element (.inr rfl) (List.suffix_cons _ _) hinner
  · next name _ stop rest hps =>
    rw [hps]
    split at h
    · exact .struct rfl h
    · obtain rfl := Option.some.inj h
      exact .interface rfl rfl ⟨[_, _], rfl⟩
    · split at h
      · next hname =>
        obtain rfl := Option.some.inj h
        exact .named rfl (Bool.and_eq_true_iff.1 hname).1 rfl ⟨[_, _], rfl⟩
      · simp at h
    · split at h
      · next hname =>
        obtain rfl := Option.some.inj h
        exact .named rfl hname rfl (List.suffix_refl _)
      · simp at h
  · simp at h

/-- The ways to read on among the fields of a struct. -/
inductive ReadsFields (fuel : Nat) : List Piece → TypeEnd → Prop
  | close {p : Piece} {rest : List Piece} :
      ReadsFields fuel (p :: rest) ⟨.struct, true, p.stop, rest⟩
  | next {p q : Piece} {rest after : List Piece} {field t : TypeEnd}
      (htype : typeFrom fuel rest = some field) (htag : skipTag field.rest = q :: after)
      (hmore : fieldsFrom fuel after = some t) : ReadsFields fuel (p :: rest) t
  | last {p q : Piece} {rest after : List Piece} {field : TypeEnd}
      (htype : typeFrom fuel rest = some field) (htag : skipTag field.rest = q :: after) :
      ReadsFields fuel (p :: rest) ⟨.struct, true, q.stop, after⟩

theorem readsFields_of_fieldsFrom {fuel : Nat} {ps : List Piece} {t : TypeEnd}
    (h : fieldsFrom (fuel + 1) ps = some t) : ReadsFields fuel (skipLines ps) t := by
  simp only [fieldsFrom, Option.bind_eq_bind] at h
  split at h
  · next hps =>
    obtain rfl := Option.some.inj h
    exact hps ▸ .close
  · next hps =>
    rw [hps]
    split at h
    · simp at h
    · obtain ⟨field, hfield, h⟩ := Option.bind_eq_some_iff.1 h
      split at h
      · next htag => exact .next hfield htag h
      · next htag => exact .next hfield htag h
      · next htag =>
        obtain rfl := Option.some.inj h
        exact .last hfield htag
      · simp at h
  · simp at h

theorem shape_of_fieldsFrom {fuel : Nat} {ps : List Piece} {t : TypeEnd}
    (h : fieldsFrom fuel ps = some t) : t.shape = .struct := by
  induction fuel generalizing ps with
  | zero => simp [fieldsFrom] at h
  | succ fuel ih =>
    have hreads := readsFields_of_fieldsFrom h
    generalize skipLines ps = ps at hreads
    cases hreads with
    | close | last => rfl
    | next _ _ hmore => exact ih hmore

theorem formOf_skipComments (ps : List Piece) : formOf (skipComments ps) = formOf ps := by
  induction ps with
  | nil => rfl
  | cons p ps ih =>
    by_cases hp : p.token = .comment
    · simpa [skipComments, formOf, hp] using ih
    · simp [skipComments, hp]

/-- The shape of a type that is read is the one of its form. -/
theorem shape_of_typeFrom {fuel : Nat} {ps : List Piece} {t : TypeEnd}
    (h : typeFrom fuel ps = some t) : t.shape = (formOf ps).shape := by
  induction fuel generalizing ps t with
  | zero => simp [typeFrom] at h
  | succ fuel ih =>
    have hreads := readsType_of_typeFrom h
    rw [← formOf_skipComments]
    generalize skipComments ps = ps at hreads
    cases hreads with
    | parens hp hinner => simp [formOf, hp, TypeForm.shape, ih hinner]
    | element hp => rcases hp with hp | hp <;> simp [formOf, hp, TypeForm.shape]
    | struct hp hfields => simp [formOf, hp, TypeForm.shape, shape_of_fieldsFrom hfields]
    | interface hp hshape => simp [formOf, hp, TypeForm.shape, hshape]
    | @named p _ _ name hp hname hshape =>
      have hstruct : name ≠ "struct" := by
        rintro rfl
        exact absurd hname (by decide)
      have hinterface : name ≠ "interface" := by
        rintro rfl
        exact absurd hname (by decide)
      simp [formOf, hp, TypeForm.shape, hshape, hstruct, hinterface]

/-- Comments do not count for the form, except in front within parentheses. -/
theorem formOf_filter (ps : List Piece) :
    formOf (ps.filter (·.token ≠ .comment)) = (formOf ps).cleared := by
  induction ps with
  | nil => rfl
  | cons p ps ih =>
    by_cases hp : p.token = .comment
    · rw [List.filter_cons_of_neg (by simp [hp]), ih, formOf, hp]
    · have hfirst : (ps.filter (·.token ≠ .comment)).head?.any (·.token = .comment) = false := by
        cases hhead : (ps.filter (·.token ≠ .comment)).head? with
        | none => rfl
        | some q =>
          have hq := List.mem_filter.1 (List.mem_of_head? hhead)
          simpa using hq.2
      rw [List.filter_cons_of_pos (by simp [hp]), formOf, formOf, hfirst, ih]
      split <;> rfl

/-- Two types that differ in comments only have the same shape within their parentheses. -/
theorem bare_formOf_congr {ps qs : List Piece}
    (h : ps.filter (·.token ≠ .comment) = qs.filter (·.token ≠ .comment)) :
    (formOf ps).bare = (formOf qs).bare := by
  rw [← TypeForm.bare_cleared, ← formOf_filter, h, formOf_filter, TypeForm.bare_cleared]

/-! ## Declarations in tokens -/

theorem skipComments_suffix (ps : List Piece) : skipComments ps <:+ ps := List.dropWhile_suffix _

theorem skipLines_suffix (ps : List Piece) : skipLines ps <:+ ps := List.dropWhile_suffix _

theorem skipTag_suffix (ps : List Piece) : skipTag ps <:+ ps := by
  rw [skipTag]
  split
  · next hps =>
    have hcons := hps ▸ skipComments_suffix ps
    exact (skipComments_suffix _).trans ((List.suffix_cons _ _).trans hcons)
  · exact skipComments_suffix ps

theorem suffix_of_skipComments {p : Piece} {ps rest : List Piece}
    (h : skipComments ps = p :: rest) : rest <:+ ps :=
  (List.suffix_cons p rest).trans (h ▸ skipComments_suffix ps)

theorem suffix_of_skipTag {p : Piece} {ps rest : List Piece} (h : skipTag ps = p :: rest) :
    rest <:+ ps :=
  (List.suffix_cons p rest).trans (h ▸ skipTag_suffix ps)

/-- What follows a type, and what follows the fields of one, is the rest of the tokens. -/
theorem rest_suffix (fuel : Nat) :
    (∀ ps t, typeFrom fuel ps = some t → t.rest <:+ ps) ∧
      ∀ ps t, fieldsFrom fuel ps = some t → t.rest <:+ ps := by
  induction fuel with
  | zero => simp [typeFrom, fieldsFrom]
  | succ fuel ih =>
    obtain ⟨htype, hfields⟩ := ih
    refine ⟨fun ps t h => ?_, fun ps t h => ?_⟩
    · have hreads := readsType_of_typeFrom h
      refine List.IsSuffix.trans ?_ (skipComments_suffix ps)
      generalize skipComments ps = ps at hreads
      cases hreads with
      | parens _ hinner hclose =>
        exact (suffix_of_skipComments hclose).trans
          ((htype _ _ hinner).trans (List.suffix_cons _ _))
      | element _ hrest hinner =>
        exact (htype _ _ hinner).trans (hrest.trans (List.suffix_cons _ _))
      | struct _ hrest =>
        exact (hfields _ _ hrest).trans ((List.suffix_cons _ _).trans (List.suffix_cons _ _))
      | interface _ _ hrest | named _ _ _ hrest => exact hrest.trans (List.suffix_cons _ _)
    · have hreads := readsFields_of_fieldsFrom h
      refine List.IsSuffix.trans ?_ (skipLines_suffix ps)
      generalize skipLines ps = ps at hreads
      cases hreads with
      | close => exact List.suffix_cons _ _
      | next hfield htag hmore =>
        exact (hfields _ _ hmore).trans ((suffix_of_skipTag htag).trans
          ((htype _ _ hfield).trans (List.suffix_cons _ _)))
      | last hfield htag =>
        exact (suffix_of_skipTag htag).trans ((htype _ _ hfield).trans (List.suffix_cons _ _))

theorem importPath_suffix {ps rest : List Piece} {stop : Place}
    (h : importPath ps = some (stop, rest)) : rest <:+ ps := by
  unfold importPath at h
  split at h
  · next hps =>
    obtain ⟨-, rfl⟩ := Prod.mk.inj (Option.some.inj h)
    exact suffix_of_skipComments hps
  · next hps =>
    split at h
    · next hname =>
      split at h
      · obtain ⟨-, rfl⟩ := Prod.mk.inj (Option.some.inj h)
        exact (suffix_of_skipComments hname).trans (suffix_of_skipComments hps)
      · simp at h
    · simp at h
  · simp at h

theorem importGroup_suffix {fuel : Nat} {ps rest : List Piece} {stop : Place}
    (h : importGroup fuel ps = some (stop, rest)) : rest <:+ ps := by
  induction fuel generalizing ps with
  | zero => simp [importGroup] at h
  | succ fuel ih =>
    simp only [importGroup, Option.bind_eq_bind] at h
    refine List.IsSuffix.trans ?_ (skipLines_suffix ps)
    split at h
    · next hps =>
      obtain ⟨-, rfl⟩ := Prod.mk.inj (Option.some.inj h)
      exact hps ▸ List.suffix_cons _ _
    · obtain ⟨⟨_, after⟩, hpath, h⟩ := Option.bind_eq_some_iff.1 h
      split at h
      · next hline =>
        exact (ih h).trans ((suffix_of_skipComments hline).trans (importPath_suffix hpath))
      · simp at h

/-- The ways to read on among the constructs of a file. -/
inductive ReadsItems (fuel : Nat) : Piece → List Piece → List Item → Prop
  | skip {p : Piece} {ps : List Piece} {is : List Item} {before : Before} {ended : Bool}
      (hmore : itemsFrom fuel before ended ps = some is) : ReadsItems fuel p ps is
  | other {p : Piece} {ps rest : List Piece} {i : Item} {is : List Item} {before : Before}
      {ended : Bool} (hi : i.construct ≠ .declaration .type) (hrest : rest <:+ ps)
      (hmore : itemsFrom fuel before ended rest = some is) : ReadsItems fuel p ps (i :: is)
  | type {p q : Piece} {ps rest : List Piece} {t : TypeEnd} {is : List Item} {before : Before}
      {ended : Bool} {name : String} (hp : p.token = .word "type")
      (hname : skipComments ps = q :: rest) (hq : q.token = .word name)
      (htype : typeFrom fuel rest = some t) (hmore : itemsFrom fuel before ended t.rest = some is) :
      ReadsItems fuel p ps (⟨.declaration .type, p.start, t.stop, none, [⟨name, t.shape⟩]⟩ :: is)

theorem readsItems_of_itemsFrom {fuel : Nat} {before : Before} {ended : Bool} {p : Piece}
    {ps : List Piece} {is : List Item}
    (h : itemsFrom (fuel + 1) before ended (p :: ps) = some is) : ReadsItems fuel p ps is := by
  obtain ⟨token, start, stop⟩ := p
  unfold itemsFrom at h
  simp only [Option.bind_eq_bind] at h
  split at h
  · obtain ⟨more, hmore, h⟩ := Option.bind_eq_some_iff.1 h
    obtain rfl := Option.some.inj h
    exact .other (by simp [itemOf]) (List.suffix_refl _) hmore
  · exact .skip h
  · split at h
    · simp at h
    · exact .skip h
  · split at h
    · next hname =>
      split at h
      · simp at h
      · obtain ⟨more, hmore, h⟩ := Option.bind_eq_some_iff.1 h
        obtain rfl := Option.some.inj h
        exact .other (by simp [itemOf]) (suffix_of_skipComments hname) hmore
    · simp at h
  · split at h
    · simp at h
    · split at h
      · next hps =>
        obtain ⟨⟨_, rest⟩, hgroup, h⟩ := Option.bind_eq_some_iff.1 h
        obtain ⟨more, hmore, h⟩ := Option.bind_eq_some_iff.1 h
        obtain rfl := Option.some.inj h
        exact .other (by simp [itemOf])
          ((importGroup_suffix hgroup).trans (suffix_of_skipComments hps)) hmore
      · obtain ⟨⟨_, rest⟩, hpath, h⟩ := Option.bind_eq_some_iff.1 h
        obtain ⟨more, hmore, h⟩ := Option.bind_eq_some_iff.1 h
        obtain rfl := Option.some.inj h
        exact .other (by simp [itemOf])
          ((importPath_suffix hpath).trans (skipComments_suffix ps)) hmore
  · split at h
    · next hname =>
      split at h
      · simp at h
      · obtain ⟨t, htype, h⟩ := Option.bind_eq_some_iff.1 h
        obtain ⟨more, hmore, h⟩ := Option.bind_eq_some_iff.1 h
        obtain rfl := Option.some.inj h
        exact .type rfl hname rfl htype hmore
    · simp at h
  · simp at h

/-- The tokens begin, at a place, with a declaration of a type under a name. -/
def BeginsType (ps : List Piece) (start : Place) (name : String) (form : TypeForm) : Prop :=
  ∃ p rest q type, ps = p :: rest ∧ p.token = .word "type" ∧ p.start = start ∧
    skipComments rest = q :: type ∧ q.token = .word name ∧ formOf type = form

theorem exists_of_itemsFrom {fuel : Nat} {before : Before} {ended : Bool} {ps : List Piece}
    {is : List Item} (h : itemsFrom fuel before ended ps = some is) :
    ∀ i ∈ is, i.construct = .declaration .type →
      ∃ name form rest, rest <:+ ps ∧ BeginsType rest i.start name form ∧
        i.specs = [⟨name, form.shape⟩] := by
  induction fuel generalizing before ended ps is with
  | zero =>
    cases ps with
    | nil => simp_all [itemsFrom]
    | cons => simp [itemsFrom] at h
  | succ fuel ih =>
    cases ps with
    | nil => simp_all [itemsFrom]
    | cons p ps =>
      have hlift : ∀ {rest : List Piece} {i : Item}, rest <:+ ps →
          (∃ name form rest', rest' <:+ rest ∧ BeginsType rest' i.start name form ∧
            i.specs = [⟨name, form.shape⟩]) →
          ∃ name form rest', rest' <:+ p :: ps ∧ BeginsType rest' i.start name form ∧
            i.specs = [⟨name, form.shape⟩] := by
        rintro rest i hrest ⟨name, form, rest', hrest', hi⟩
        exact ⟨name, form, rest', (hrest'.trans hrest).trans (List.suffix_cons _ _), hi⟩
      cases readsItems_of_itemsFrom h with
      | skip hmore => exact fun i hi hc => hlift (List.suffix_refl _) (ih hmore i hi hc)
      | other hne hrest hmore =>
        refine List.forall_mem_cons.2 ⟨fun hc => absurd hc hne, fun i hi hc => ?_⟩
        exact hlift hrest (ih hmore i hi hc)
      | @type q _ rest t _ _ _ name hp hname hq htype hmore =>
        refine List.forall_mem_cons.2 ⟨fun _ => ?_, fun i hi hc => ?_⟩
        · exact ⟨name, formOf rest, p :: ps, List.suffix_refl _,
            ⟨p, ps, q, rest, rfl, hp, rfl, hname, hq, rfl⟩, by rw [shape_of_typeFrom htype]⟩
        · exact hlift (((rest_suffix fuel).1 _ _ htype).trans (suffix_of_skipComments hname))
            (ih hmore i hi hc)

end Plain

/-! ## Declarations of accepted texts -/

/-- The types that a declaration declares, each with its name. They are read off the tokens of a plain
file, and off the tree of any other. -/
inductive Declares (text : String) (d : Decl) : List (String × TypeForm) → Prop
  | tokens {ps rest : List Plain.Piece} {start : Place} {name : String} {form : TypeForm}
      (hpieces : Plain.pieces text.toList = some ps) (hrest : rest <:+ ps)
      (hbegins : Plain.BeginsType rest start name form) (hstart : start.offset = d.span.start) :
      Declares text d [(name, form)]
  | tree {tree : Tree} {root n : Node} (htree : parse table.get text = some tree)
      (hroot : rootOf table.get tree = some root) (hn : n ∈ root.namedChildren)
      (hkind : n.info.kind = "type_declaration") (hspan : spanOf n = d.span) :
      Declares text d ((specNodes n).map fun m => (nameOfSpec text.toList m, formOfSpec m))

theorem kind_of_ofName {kind : String} (h : Construct.ofName kind = .declaration .type) :
    kind = "type_declaration" := by
  unfold Construct.ofName at h
  split at h <;> simp_all

theorem plain_of_outline {text : String} {o o' : Outline} (ho : outline text = .ok o)
    (hplain : Plain.outline text.toList = some o') : o = o' := by
  simp only [outline, Outline.ofText, hplain, Option.orElse_eq_orElse, Option.orElse_eq_or,
    Option.some_or] at ho
  split at ho
  · next hfits =>
    obtain rfl := Except.ok.inj ho
    split at hfits <;> simp_all
  · simp at ho

/-- The types of a declaration in an outline, with the shapes that are read. -/
theorem exists_declares {text : String} {o : Outline} {i : Item} {d : Decl}
    (ho : outline text = .ok o) (hi : i ∈ o.items) (hc : i.construct = .declaration .type)
    (hspan : d.span = i.span) :
    ∃ types, Declares text d types ∧ i.specs = types.map fun t => ⟨t.1, t.2.shape⟩ := by
  cases hplain : Plain.outline text.toList with
  | none =>
    obtain ⟨tree, root, htree, hroot, rfl⟩ :=
      exists_tree_of_ofTables (ofTables_of_outline ho hplain)
    obtain ⟨n, hn, rfl⟩ := List.mem_map.1 hi
    refine ⟨_, .tree htree hroot hn (kind_of_ofName hc) hspan.symm, ?_⟩
    have hspecs : (itemOf text.toList n).specs = specsOf text.toList n := if_pos hc
    rw [hspecs, specsOf_eq, List.map_map]
    rfl
  | some o' =>
    obtain rfl := plain_of_outline ho hplain
    simp only [Plain.outline, Option.bind_eq_bind] at hplain
    obtain ⟨ps, hps, hplain⟩ := Option.bind_eq_some_iff.1 hplain
    obtain ⟨is, his, hplain⟩ := Option.bind_eq_some_iff.1 hplain
    obtain rfl := Option.some.inj hplain
    obtain ⟨name, form, rest, hrest, hbegins, hspecs⟩ := Plain.exists_of_itemsFrom his i hi hc
    exact ⟨_, .tokens hps hrest hbegins (by rw [hspan]; rfl), by simpa using hspecs⟩

/-- The shape of each type that a declaration of an accepted file declares is the one that the type has
within its parentheses, if no comment comes first in one of these. -/
theorem SourceFile.read_shapes {text : String} {file : SourceFile} {d : Decl}
    (h : SourceFile.read text = .ok file) (hd : d ∈ file.decls) (hkind : d.kind = .type) :
    ∃ types, Declares text d types ∧
      List.Forall₂ (fun spec type => spec.name = type.1 ∧
        (spec.shape = .struct ↔ type.2.bare = .struct ∧ type.2.covered = false) ∧
        (spec.shape = .interface ↔ type.2.bare = .interface ∧ type.2.covered = false))
        d.specs types ∧
      (d.hasStruct ↔ ∃ type ∈ types, type.2.bare = .struct ∧ type.2.covered = false) := by
  obtain ⟨o, ho, -, hfile⟩ := exists_outline_of_read h
  obtain ⟨i, hi, hc, hspan, hspecs⟩ := exists_item_of_mem_decls hfile hd
  rw [hkind] at hc
  obtain ⟨types, hdeclares, htypes⟩ := exists_declares ho hi hc hspan
  rw [if_pos hkind, htypes] at hspecs
  refine ⟨types, hdeclares, ?_, ?_⟩
  · rw [hspecs, List.forall₂_map_left_iff, List.forall₂_same]
    exact fun type _ => ⟨rfl, TypeForm.shape_eq_iff (by simp), TypeForm.shape_eq_iff (by simp)⟩
  · simp [Decl.hasStruct, hspecs, TypeForm.shape_eq_iff]

/-- A comment comes first in the parentheses around one type, and last in those around another. -/
def commentedParens : String :=
  "package x\ntype A (/* c */ struct{})\ntype B ((struct{}) /* c */)\n"

theorem outline_commentedParens : outline commentedParens = .ok
    ⟨none, [⟨.packageClause, ⟨0, 0⟩, ⟨9, 0⟩, none, []⟩,
      ⟨.declaration .type, ⟨10, 1⟩, ⟨35, 1⟩, none, [⟨"A", .other⟩]⟩,
      ⟨.declaration .type, ⟨36, 2⟩, ⟨63, 2⟩, none, [⟨"B", .struct⟩]⟩]⟩ :=
  outline_of_plain (by decide +kernel) (by decide +kernel)

theorem SourceFile.read_shapes_commentedParens :
    ∃ a b types, SourceFile.read commentedParens = .ok ⟨[a, b]⟩ ∧ Declares commentedParens b types ∧
      ∃ type ∈ types, type.2.bare = .struct ∧ type.2.covered = false := by
  have hread : SourceFile.read commentedParens = .ok
      ⟨[⟨.type, ⟨10, 35⟩, none, [⟨"A", .other⟩]⟩, ⟨.type, ⟨36, 63⟩, none, [⟨"B", .struct⟩]⟩]⟩ := by
    rw [SourceFile.read, SourceFile.readWith_of_ok outline_commentedParens]
    rfl
  obtain ⟨types, hdeclares, -, hstruct⟩ :=
    SourceFile.read_shapes hread (List.mem_cons_of_mem _ List.mem_cons_self) rfl
  exact ⟨_, _, types, hread, hdeclares, hstruct.1 rfl⟩

/-- With the comment the struct is not seen, without it it is. -/
theorem structSpans_commentFirst :
    structSpans "package x\ntype A (/* c */ struct{})\n" = .ok [] ∧
      structSpans "package x\ntype A (struct{})\n" = .ok [⟨10, 28⟩] := by
  have hcovered : outline "package x\ntype A (/* c */ struct{})\n" = .ok
      ⟨none, [⟨.packageClause, ⟨0, 0⟩, ⟨9, 0⟩, none, []⟩,
        ⟨.declaration .type, ⟨10, 1⟩, ⟨35, 1⟩, none, [⟨"A", .other⟩]⟩]⟩ :=
    outline_of_plain (by decide +kernel) (by decide +kernel)
  have hbare : outline "package x\ntype A (struct{})\n" = .ok
      ⟨none, [⟨.packageClause, ⟨0, 0⟩, ⟨9, 0⟩, none, []⟩,
        ⟨.declaration .type, ⟨10, 1⟩, ⟨27, 1⟩, none, [⟨"A", .struct⟩]⟩]⟩ :=
    outline_of_plain (by decide +kernel) (by decide +kernel)
  rw [structSpans_of_ok hcovered, structSpans_of_ok hbare]
  exact ⟨rfl, by decide +kernel⟩

end StructProjection.Go
