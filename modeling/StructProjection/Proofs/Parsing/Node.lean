import StructProjection.Parsing.Node
import StructProjection.Proofs.Parsing.Tree

/-! # Errors that are seen

The search for an error goes into visible nodes only, and only into those that cost something. What it
does not find outside of skipped text are tokens that are supplied and not visible.
-/

namespace StructProjection.Parsing

open Grammar

variable {t : Table}

/-- A tree stands in another one, and not in skipped text. -/
inductive Tree.ReadIn (s : Tree) : Tree → Prop
  | here : ReadIn s s
  | child {l : Label} {cs : List Tree} {c : Tree} (hc : c ∈ cs) (hkind : c.kind ≠ .skipped)
      (h : ReadIn s c) : ReadIn s (.node l cs)

/-- What costs something is no error, and it is not visible if it has been supplied. -/
def Tree.Unnoticed (s : Tree) : Prop :=
  0 < s.cost → s.kind ≠ .error ∧ (s.label.missing → s.label.visible = false)

theorem Tree.Sound.cost_pos {s tree : Tree} (h : Sound t tree) (hs : s.ReadIn tree)
    (hcost : 0 < s.cost) : 0 < tree.cost := by
  induction hs with
  | here => exact hcost
  | @child l cs c hc hkind _ ih =>
    cases h with
    | node _ _ hbelow hcs =>
      have hl := hbelow c hc hkind (ih (hcs c hc))
      simp only [Tree.cost]
      split
      · exact Nat.add_pos_left (by decide) _
      · exact hl

theorem firstErrorAmong_cons_eq_none {n : Node} {ns : List Node} :
    firstErrorAmong (n :: ns) = none ↔ firstError n = none ∧ firstErrorAmong ns = none := by
  rw [firstErrorAmong, Option.or_eq_none_iff]

theorem firstError_eq_none {i : NodeInfo} {ns : List Node} :
    firstError (.mk i ns) = none ↔
      i.isError = false ∧ i.isMissing = false ∧ (i.hasError → firstErrorAmong ns = none) := by
  rw [firstError]
  cases i.isError <;> cases i.isMissing <;> simp

mutual

/-- A tree whose nodes show no error, and what follows it. -/
theorem unnoticed_of_nodesOf {place : Extent} {shownAs : Option String} {more : List Node} :
    (tree : Tree) → tree.Sound t → firstErrorAmong (nodesOf t place shownAs more tree) = none →
      firstErrorAmong more = none ∧ ∀ s : Tree, s.ReadIn tree → s.Unnoticed
  | .node l cs, hsound, h => by
    cases hsound with
    | node hvisible _ hcost hcs =>
      simp only [nodesOf] at h
      split at h
      case isTrue hseen =>
        obtain ⟨hnode, hmore⟩ := firstErrorAmong_cons_eq_none.1 h
        obtain ⟨herror, hmissing, hbelow⟩ := firstError_eq_none.1 hnode
        refine ⟨hmore, fun s hs hpos => ?_⟩
        cases hs with
        | here =>
          exact ⟨of_decide_eq_false herror, fun hm => nomatch hmissing.symm.trans hm⟩
        | child hc hkind hs =>
          have hl := hcost _ hc hkind ((hcs _ hc).cost_pos hs hpos)
          exact (unnoticed_of_nodesOfAll cs hcs (hbelow (by simp [hl]))).2 _ hc s hs hpos
      case isFalse hseen =>
        obtain ⟨hmore, hall⟩ := unnoticed_of_nodesOfAll cs hcs h
        refine ⟨hmore, fun s hs hpos => ?_⟩
        cases hs with
        | here =>
          have hhidden : l.visible = false := by simp_all
          refine ⟨fun hkind => ?_, fun _ => hhidden⟩
          rw [hvisible, show l.kind = .error from hkind] at hhidden
          simp [visibleKind] at hhidden
        | child hc hkind hs => exact hall _ hc s hs hpos

theorem unnoticed_of_nodesOfAll {place : Extent} {names : List (Option String)}
    {more : List Node} :
    (trees : List Tree) → (∀ c ∈ trees, c.Sound t) →
      firstErrorAmong (nodesOfAll t place names more trees) = none →
      firstErrorAmong more = none ∧ ∀ c ∈ trees, ∀ s : Tree, s.ReadIn c → s.Unnoticed
  | [], _, h => ⟨h, by simp⟩
  | .node l cs :: rest, hsound, h => by
    rw [nodesOfAll] at h
    obtain ⟨hrest, hfirst⟩ := unnoticed_of_nodesOf (.node l cs) (hsound _ List.mem_cons_self) h
    obtain ⟨hmore, hall⟩ := unnoticed_of_nodesOfAll rest
      (fun c hc => hsound c (List.mem_cons_of_mem _ hc)) hrest
    exact ⟨hmore, List.forall_mem_cons.2 ⟨hfirst, hall⟩⟩

end

theorem Tree.Sound.of_readIn {s tree : Tree} (h : Sound t tree) (hs : s.ReadIn tree) :
    Sound t s := by
  induction hs with
  | here => exact h
  | child hc _ _ ih =>
    cases h with
    | node _ _ _ hcs => exact ih (hcs _ hc)

theorem nodesOf_eq_of_rootOf {tree : Tree} {root : Node} (hvisible : tree.label.visible)
    (hroot : rootOf t tree = some root) : nodesOf t .zero none [] tree = [root] := by
  cases tree with
  | node l cs =>
    simp only [Tree.label] at hvisible
    simp only [rootOf, nodesOf, hvisible, Bool.or_true, if_true, List.head?_cons,
      Option.some.injEq] at hroot ⊢
    rw [hroot]

/-- Where no error is found in the root of a tree, what costs something is no error, and what has been
supplied is not visible. -/
theorem of_firstError_eq_none {s tree : Tree} {root : Node} (h : tree.Sound t)
    (hvisible : tree.label.visible) (hroot : rootOf t tree = some root)
    (hnone : firstError root = none) (hs : s.ReadIn tree) :
    (0 < s.cost → s.kind ≠ .error) ∧
      (s.label.missing → ∃ n ∈ t.missing, s.kind = .symbol n ∧ visibleKind t s.kind = false) := by
  have hnodes : firstErrorAmong (nodesOf t .zero none [] tree) = none := by
    rw [nodesOf_eq_of_rootOf hvisible hroot]
    exact firstErrorAmong_cons_eq_none.2 ⟨hnone, rfl⟩
  have hunnoticed := (unnoticed_of_nodesOf tree h hnodes).2 s hs
  refine ⟨fun hcost => (hunnoticed hcost).1, fun hmissing => ?_⟩
  have hcost : 0 < s.cost := by
    rw [Tree.cost, if_pos hmissing]
    decide
  cases h.of_readIn hs with
  | node hkind htoken _ _ =>
    obtain ⟨-, n, hn, hsymbol⟩ := htoken hmissing
    exact ⟨n, hn, hsymbol, hkind.symm.trans ((hunnoticed hcost).2 hmissing)⟩

end StructProjection.Parsing
