import StructProjection.Parsing.Parse

/-! # Trees that reading makes

The trees over a text are made in a few ways only. Each of them keeps what the cost of a tree tells:
a tree costs something if one of its children does, skipped text apart.
-/

namespace StructProjection.Parsing

open Grammar

/-- A property of trees that holds of the trees over a text, however they have been made. -/
structure TreeInvariant where
  table : Table
  Holds : Tree → Prop
  leaf (kind : Kind) (before size : Extent) (state : Nat) (isWord : Bool) :
    Holds (.leaf table kind before size state isWord)
  missing {token : Nat} (h : token ∈ table.missing) : Holds (.missingLeaf table token)
  node (kind : Kind) (shape : Nat) {cs : List Tree} (h : ∀ c ∈ cs, Holds c) :
    Holds (.over table kind shape cs)
  extra {tree : Tree} (e : Bool) (h : Holds tree) : Holds (tree.setExtra e)
  favour {tree : Tree} (f : Int) (h : Holds tree) : Holds (tree.addFavour f)
  word {tree word : Tree} {state : Nat} (h : Holds tree)
    (hword : asWordToken table state tree = some word) : Holds word
  children {tree : Tree} (h : Holds tree) : ∀ c ∈ tree.children, Holds c

namespace Tree

/-- The label of each tree fits what stands below it. -/
inductive Sound (t : Table) : Tree → Prop
  | node {l : Label} {cs : List Tree} (hvisible : l.visible = visibleKind t l.kind)
      (hmissing : l.missing → l.isWord = false ∧ ∃ n ∈ t.missing, l.kind = .symbol n)
      (hcost : ∀ c ∈ cs, c.kind ≠ .skipped → 0 < c.cost → 0 < l.cost)
      (hcs : ∀ c ∈ cs, Sound t c) : Sound t (.node l cs)

variable {t : Table}

/-- A word is another reading of one token. -/
theorem exists_of_asWordToken {tree word : Tree} {state : Nat}
    (h : asWordToken t state tree = some word) :
    ∃ l cs kind, l.isWord ∧ tree = .node l cs ∧
      word = .node { l with kind, visible := visibleKind t kind } cs := by
  cases tree with
  | node l cs =>
    simp only [asWordToken] at h
    split at h
    · split at h
      case isTrue hword => exact ⟨l, cs, _, by simp_all, rfl, (Option.some.inj h).symm⟩
      case isFalse => simp at h
    · simp at h

section AddChild

variable {fault : Bool} {acc : Label × List (Option String) × Bool} {cs : List Tree}

theorem foldl_addChild_eq :
    (cs.foldl (addChild fault) acc).1.kind = acc.1.kind ∧
      (cs.foldl (addChild fault) acc).1.visible = acc.1.visible ∧
      (cs.foldl (addChild fault) acc).1.missing = acc.1.missing := by
  induction cs generalizing acc with
  | nil => exact ⟨rfl, rfl, rfl⟩
  | cons c cs ih => exact ih

theorem cost_le_foldl_addChild : acc.1.cost ≤ (cs.foldl (addChild fault) acc).1.cost := by
  induction cs generalizing acc with
  | nil => exact Nat.le_refl _
  | cons c cs ih =>
    rw [List.foldl_cons]
    refine Nat.le_trans ?_ ih
    simp only [addChild, Nat.add_assoc]
    exact Nat.le_add_right _ _

theorem cost_le_foldl_addChild_of_mem {c : Tree} (hc : c ∈ cs) (hkind : c.kind ≠ .skipped) :
    c.cost ≤ (cs.foldl (addChild fault) acc).1.cost := by
  obtain ⟨before, after, rfl⟩ := List.append_of_mem hc
  rw [List.foldl_append, List.foldl_cons]
  refine Nat.le_trans ?_ cost_le_foldl_addChild
  simp only [addChild, hkind, if_false]
  omega

end AddChild

theorem sound_over (kind : Kind) (shape : Nat) {cs : List Tree} (h : ∀ c ∈ cs, Sound t c) :
    Sound t (.over t kind shape cs) := by
  refine .node ?_ ?_ (fun c hc hkind hcost => ?_) h
  · split <;> simp only [foldl_addChild_eq]
  · split <;> simp only [foldl_addChild_eq] <;> exact nofun
  · split
    · dsimp only
      rw [Nat.add_assoc]
      exact Nat.lt_of_lt_of_le hcost
        (Nat.le_add_right_of_le (cost_le_foldl_addChild_of_mem hc hkind))
    · exact Nat.lt_of_lt_of_le hcost (cost_le_foldl_addChild_of_mem hc hkind)

end Tree

/-- However a tree has been made, its labels fit. -/
def soundTrees (t : Table) : TreeInvariant where
  table := t
  Holds := Tree.Sound t
  leaf _ _ _ _ _ := .node rfl nofun (by simp) (by simp)
  missing h := .node rfl (fun _ => ⟨rfl, _, h, rfl⟩) (by simp) (by simp)
  node := Tree.sound_over
  extra
    | _, .node hvisible hmissing hcost hcs => .node hvisible hmissing hcost hcs
  favour
    | _, .node hvisible hmissing hcost hcs => .node hvisible hmissing hcost hcs
  word h hword := by
    obtain ⟨l, cs, kind, hl, rfl, rfl⟩ := Tree.exists_of_asWordToken hword
    cases h with
    | node _ hmissing hcost hcs =>
      exact .node rfl (fun hm => nomatch hl.symm.trans (hmissing hm).1) hcost hcs
  children
    | .node _ _ _ hcs => hcs

end StructProjection.Parsing
