import StructProjection.Parsing.Node

/-! # The first error of a node

The search for an error passes over nodes that are said to hold none. What is said is true, and so the
search finds the first faulty node in the order of the text.
-/

namespace StructProjection.Parsing

open Grammar

namespace Node

mutual

/-- The nodes of a tree in the order of the text. A node stands before what is below it. -/
def inOrder : Node → List Node
  | .mk i cs => .mk i cs :: inOrderAll cs

def inOrderAll : List Node → List Node
  | [] => []
  | n :: ns => n.inOrder ++ inOrderAll ns

end

theorem self_mem_inOrder (n : Node) : n ∈ n.inOrder := by
  cases n
  exact List.mem_cons_self

theorem mem_inOrderAll {n m : Node} {ns : List Node} (hn : n ∈ ns) (hm : m ∈ n.inOrder) :
    m ∈ inOrderAll ns := by
  induction ns with
  | nil => cases hn
  | cons k ns ih =>
    rcases List.mem_cons.1 hn with rfl | hn
    · exact List.mem_append_left _ hm
    · exact List.mem_append_right _ (ih hn)

theorem mem_inOrder_of_mem_children {n c m : Node} (hc : c ∈ n.children) (hm : m ∈ c.inOrder) :
    m ∈ n.inOrder := by
  cases n
  exact List.mem_cons_of_mem _ (mem_inOrderAll hc hm)

/-- A node is said to hold an error if there is a faulty node below it. -/
inductive Flagged : Node → Prop
  | mk {i : NodeInfo} {cs : List Node} (hbelow : ∀ c ∈ cs, c.showsError → i.hasError)
      (hcs : ∀ c ∈ cs, Flagged c) : Flagged (.mk i cs)

mutual

theorem not_faulty_of_flagged : {n : Node} → n.Flagged → n.showsError = false →
    ∀ m ∈ n.inOrder, m.faulty = false
  | .mk i cs, .mk hbelow hcs, h => by
    simp only [showsError, Bool.or_eq_false_iff] at h
    obtain ⟨hfaulty, hnone⟩ := h
    have hquiet : ∀ c ∈ cs, c.showsError = false := by
      intro c hc
      refine Bool.eq_false_iff.2 fun hshows => ?_
      exact Bool.false_ne_true (hnone.symm.trans (hbelow c hc hshows))
    intro m hm
    rcases List.mem_cons.1 hm with rfl | hm
    · exact hfaulty
    · exact not_faulty_of_flagged_all hcs hquiet m hm

theorem not_faulty_of_flagged_all : {ns : List Node} → (∀ n ∈ ns, n.Flagged) →
    (∀ n ∈ ns, n.showsError = false) → ∀ m ∈ inOrderAll ns, m.faulty = false
  | [], _, _ => by simp [inOrderAll]
  | n :: ns, h, hquiet => by
    obtain ⟨hn, hns⟩ := List.forall_mem_cons.1 h
    obtain ⟨hquiet, hquiets⟩ := List.forall_mem_cons.1 hquiet
    intro m hm
    rcases List.mem_append.1 hm with hm | hm
    · exact not_faulty_of_flagged hn hquiet m hm
    · exact not_faulty_of_flagged_all hns hquiets m hm

end

mutual

theorem firstError_eq_find? : {n : Node} → n.Flagged →
    firstError n = n.inOrder.find? faulty
  | .mk i cs, .mk hbelow hcs => by
    rw [firstError, inOrder, List.find?_cons]
    by_cases hfaulty : (mk i cs).faulty
    · rw [hfaulty, if_pos (by simpa [faulty, info] using hfaulty)]
    · rw [Bool.not_eq_true] at hfaulty
      rw [hfaulty, if_neg (by simpa [faulty, info] using hfaulty)]
      dsimp only
      by_cases hflag : i.hasError
      · rw [if_pos hflag, firstErrorAmong_eq_find? hcs]
      · rw [if_neg hflag, eq_comm, List.find?_eq_none]
        have hquiet : (mk i cs).showsError = false := by
          rw [showsError, hfaulty]
          simpa [info] using hflag
        intro m hm
        rw [not_faulty_of_flagged (.mk hbelow hcs) hquiet m (List.mem_cons_of_mem _ hm)]
        exact Bool.false_ne_true

theorem firstErrorAmong_eq_find? : {ns : List Node} → (∀ n ∈ ns, n.Flagged) →
    firstErrorAmong ns = (inOrderAll ns).find? faulty
  | [], _ => rfl
  | n :: ns, h => by
    obtain ⟨hn, hns⟩ := List.forall_mem_cons.1 h
    rw [firstErrorAmong, inOrderAll, List.find?_append, firstError_eq_find? hn,
      firstErrorAmong_eq_find? hns]

end

end Node

variable {t : Table}

mutual

theorem flagged_nodesOf {place : Extent} {shownAs : Option String} {more : List Node}
    (h : ∀ n ∈ more, n.Flagged) : (tree : Tree) →
      ∀ n ∈ nodesOf t place shownAs more tree, n.Flagged
  | .node l cs => by
    simp only [nodesOf]
    split
    · refine List.forall_mem_cons.2 ⟨.mk (fun c hc hshows => ?_) ?_, h⟩
      · rw [Bool.or_eq_true]
        exact .inr (List.any_eq_true.2 ⟨c, hc, hshows⟩)
      · exact flagged_nodesOfAll (by simp) cs
    · exact flagged_nodesOfAll h cs

theorem flagged_nodesOfAll {place : Extent} {names : List (Option String)} {more : List Node}
    (h : ∀ n ∈ more, n.Flagged) : (trees : List Tree) →
      ∀ n ∈ nodesOfAll t place names more trees, n.Flagged
  | [] => h
  | .node l cs :: rest => by
    rw [nodesOfAll]
    exact flagged_nodesOf (flagged_nodesOfAll h rest) (.node l cs)

end

/-- The search in a tree finds the first faulty node. -/
theorem firstError_rootOf {tree : Tree} {root : Node} (h : rootOf t tree = some root) :
    firstError root = root.inOrder.find? Node.faulty :=
  Node.firstError_eq_find? (flagged_nodesOf (by simp) tree root (List.mem_of_head? h))

end StructProjection.Parsing
