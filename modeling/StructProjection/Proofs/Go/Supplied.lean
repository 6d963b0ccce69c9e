import StructProjection.Go.SourceFile
import StructProjection.Proofs.Parsing.Node
import StructProjection.Proofs.Parsing.Reading

/-! # Supplied tokens

Where a token is missing, one is supplied to go on. A file is rejected for it if the token can be seen
in the tree. A line feed cannot, nor can the text between the quotes of a string.
-/

namespace StructProjection.Go

open Grammar Parsing

/-! ## Numbers of tokens -/

theorem getD_foldl_insert_mem {l : List (String × Nat)} {m : Std.HashMap String Nat}
    {name : String} (h : ∃ i, (name, i) ∈ l) :
    (name, (l.foldl (fun m (name, i) => m.insert name i) m).getD name 0) ∈ l := by
  induction l using List.reverseRecOn with
  | nil => simp at h
  | append_singleton l p ih =>
    obtain ⟨key, n⟩ := p
    rw [List.foldl_append, List.foldl_cons, List.foldl_nil, Std.HashMap.getD_insert]
    by_cases hkey : key = name
    · simp [hkey]
    · obtain ⟨i, hi⟩ := h
      have hl : (name, i) ∈ l := by simpa [Ne.symm hkey] using hi
      simpa [hkey, Ne.symm hkey] using ih ⟨i, hl⟩

theorem find_lt {g : Language} {token : Token} (h : token ∈ g.tokens) :
    g.expand.find token.key < g.tokens.size := by
  obtain ⟨m, hnumber⟩ : ∃ m, g.expand.number =
      (g.tokens.mapIdx fun i t => (t.key, i)).toList.foldl (fun m (name, i) => m.insert name i) m :=
    ⟨_, (Array.foldl_toList _).symm⟩
  obtain ⟨i, hi, rfl⟩ := Array.getElem_of_mem h
  have hmem : (g.tokens[i].key, i) ∈ (g.tokens.mapIdx fun i t => (t.key, i)).toList := by
    rw [Array.mem_toList_iff, Array.mem_mapIdx]
    exact ⟨i, hi, rfl⟩
  have hfound := getD_foldl_insert_mem (m := m) ⟨i, hmem⟩
  rw [← hnumber, Array.mem_toList_iff, Array.mem_mapIdx] at hfound
  obtain ⟨j, hj, heq⟩ := hfound
  rw [Expansion.find, ← (Prod.mk.inj heq).2]
  exact hj

theorem lt_of_mem_missing {g : Language} {n : Nat}
    (hword : ∃ token ∈ g.tokens, token.key = g.wordToken)
    (h : n ∈ (Table.ofLanguage g).missing) : n < g.tokens.size := by
  obtain ⟨token, htoken, hkey⟩ := hword
  have hmissing : (Table.ofLanguage g).missing = g.expand.find g.wordToken ::
    (List.range g.tokens.size).filter (· ≠ g.expand.find g.wordToken) := rfl
  rw [hmissing, ← hkey] at h
  rcases List.mem_cons.1 h with rfl | h
  · exact find_lt htoken
  · exact List.mem_range.1 (List.mem_filter.1 h).1

theorem visibleKind_ofLanguage {g : Language} {n : Nat} (h : n < g.tokens.size) :
    visibleKind (.ofLanguage g) (.symbol n) = g.tokens[n].visible := by
  have hcount : (Table.ofLanguage g).expansion.tokenCount = g.tokens.size := rfl
  have htokens : (Table.ofLanguage g).expansion.language.tokens = g.tokens := rfl
  simp [visibleKind, hcount, htokens, h]

/-- The keys of the tokens that are not seen in a tree. -/
def hiddenKeys : List String := ["\n", "raw text", "quoted text"]

theorem exists_hidden_token {n : Nat} (hn : n ∈ table.get.missing)
    (hhidden : visibleKind table.get (.symbol n) = false) :
    ∃ token, tokens[n]? = some token ∧ token.key ∈ hiddenKeys := by
  have hkeys : ∀ token ∈ tokens.toList, token.visible = false → token.key ∈ hiddenKeys := by
    decide +kernel
  have hword : ∃ token ∈ tokens.toList, token.key = "identifier" := by decide +kernel
  obtain ⟨token, htoken, hkey⟩ := hword
  have hlt : n < tokens.size :=
    lt_of_mem_missing (g := language) ⟨token, Array.mem_toList_iff.1 htoken, hkey⟩ hn
  have hvisible : tokens[n].visible = false :=
    (visibleKind_ofLanguage (g := language) hlt).symm.trans hhidden
  exact ⟨tokens[n], Array.getElem?_eq_getElem hlt,
    hkeys _ (Array.mem_toList_iff.2 (Array.getElem_mem hlt)) hvisible⟩

/-! ## Accepted texts -/

/-- What a tree may hold that stands in no text, outside of skipped text: tokens that are not seen. -/
structure OnlyHidden (tree : Tree) : Prop where
  errors : ∀ s : Tree, s.ReadIn tree → 0 < s.cost → s.kind ≠ .error
  supplied : ∀ s : Tree, s.ReadIn tree → s.label.missing →
    ∃ n token, s.kind = .symbol n ∧ tokens[n]? = some token ∧ token.key ∈ hiddenKeys

theorem exists_tree_of_ofTables {text : String} {o : Outline} (h : Outline.ofTables text = some o) :
    ∃ tree root, parse table.get text = some tree ∧ rootOf table.get tree = some root ∧
      o = outlineOf text.toList root := by
  simp only [Outline.ofTables, Option.bind_eq_bind, Option.bind_eq_some_iff, Option.pure_def,
    Option.some.injEq] at h
  obtain ⟨tree, htree, root, hroot, rfl⟩ := h
  exact ⟨tree, root, htree, hroot, rfl⟩

theorem ofTables_of_outline {text : String} {o : Outline} (h : outline text = .ok o)
    (hplain : Plain.outline text.toList = none) : Outline.ofTables text = some o := by
  simp only [outline, Outline.ofText, hplain, Option.orElse_eq_orElse, Option.orElse_eq_or,
    Option.none_or] at h
  split at h
  case h_1 o' ho =>
    obtain rfl := Except.ok.inj h
    split at ho
    · split at ho <;> simp_all
    · simp at ho
  case h_2 => simp at h

/-- A text that is read with the tables and has no fault. -/
theorem onlyHidden_of_ofTables {text : String} {o : Outline} (h : Outline.ofTables text = some o)
    (hsound : o.fault = none) :
    ∃ tree, parse table.get text = some tree ∧ (tree.label.visible → OnlyHidden tree) := by
  obtain ⟨tree, root, htree, hroot, rfl⟩ := exists_tree_of_ofTables h
  have hnone : firstError root = none := Option.map_eq_none_iff.1 hsound
  have htrees := sound_of_parse htree
  refine ⟨tree, htree, fun hvisible => ⟨fun s hs => ?_, fun s hs hmissing => ?_⟩⟩
  · exact (of_firstError_eq_none htrees hvisible hroot hnone hs).1
  · obtain ⟨n, hn, hkind, hhidden⟩ :=
      (of_firstError_eq_none htrees hvisible hroot hnone hs).2 hmissing
    obtain ⟨token, htoken, hkey⟩ := exists_hidden_token hn (hkind ▸ hhidden)
    exact ⟨n, token, hkind, htoken, hkey⟩

end StructProjection.Go
