import StructProjection.Proofs.Toml.Sheets

/-! # The keys of a document

Whatever tables a document has, each key that is written at its top is a key of what is read.
-/

namespace StructProjection.Toml

/-- The keys at the top of a document: those of the first pairs, and those of all headers. -/
def topKeys : (inTable : Bool) → List Row → List String
  | _, [] => []
  | false, .pair key _ :: rows => key :: topKeys false rows
  | true, .pair _ _ :: rows => topKeys true rows
  | _, .header _ key :: rows => key :: topKeys true rows

namespace Draft

/-- The keys that have been read. -/
def keys (d : Draft) : List String :=
  match d.header with
  | none => d.current.names
  | some h => d.root.names ++ [h.key.name]

/-- No header leads below the top. -/
def AtTop (d : Draft) : Prop := ∀ h ∈ d.header, h.path = []

variable {d d' : Draft} {root es : Entries} {h : Header}

theorem names_set {name : String} {v : Value} : (es.set name v).names = es.names := by
  rw [Entries.set, Entries.names, Entries.names, List.map_map]
  refine List.map_congr_left fun e _ => ?_
  dsimp only [Function.comp]
  split <;> rfl

theorem keys_subset_of_close (htop : d.AtTop) (hclose : d.close = .ok es) :
    d.keys ⊆ es.names := by
  obtain ⟨root, header, cur⟩ := d
  cases header with
  | none =>
    obtain rfl := Except.ok.inj hclose
    exact List.Subset.refl _
  | some h =>
    have hpath : h.path = [] := htop h rfl
    rw [keys]
    dsimp only
    by_cases helement : h.element
    · rw [close_element helement hpath] at hclose
      split at hclose
      case h_1 =>
        obtain rfl := Except.ok.inj hclose
        simp [Entries.names]
      case h_2 hfind =>
        obtain rfl := Except.ok.inj hclose
        rw [names_set]
        have hname : h.key.name ∈ root.names := by
          by_contra hnew
          rw [find_eq_none_iff.2 hnew] at hfind
          cases hfind
        exact List.append_subset.2 ⟨List.Subset.refl _, List.cons_subset.2 ⟨hname, List.nil_subset _⟩⟩
      case h_3 => cases hclose
    · have hadd : (⟨root, some h, cur⟩ : Draft).close =
          .ok (root ++ [(h.key, .table h.span .header cur)]) := by
        rw [close]
        simp only [hpath, change, helement]
        rfl
      obtain rfl := Except.ok.inj (hadd.symm.trans hclose)
      simp [Entries.names]

theorem names_subset_of_remove (name : String) : root.names ⊆ (root.remove name).names ++ [name] := by
  intro key hkey
  obtain ⟨e, he, rfl⟩ := List.mem_map.1 hkey
  by_cases hname : e.1.name = name
  · exact List.mem_append_right _ (List.mem_singleton.2 hname)
  · refine List.mem_append_left _ (List.mem_map_of_mem (List.mem_filter.2 ⟨he, ?_⟩))
    exact decide_eq_true hname

theorem keys_of_start (hpath : h.path = []) (hstart : start root h = .ok d) :
    d.AtTop ∧ d.header.isSome ∧ h.key.name ∈ d.keys ∧ root.names ⊆ d.keys := by
  have htop : ∀ root' cur, (⟨root', some h, cur⟩ : Draft).AtTop := by
    rintro root' cur h' ⟨⟩
    exact hpath
  rw [start] at hstart
  split at hstart
  case isTrue =>
    obtain rfl := Except.ok.inj hstart
    exact ⟨htop _ _, rfl, List.mem_append_right _ List.mem_cons_self, List.subset_append_left _ _⟩
  case isFalse =>
    obtain ⟨cur, rfl⟩ : ∃ cur, d = ⟨root.remove h.key.name, some h, cur⟩ := by
      rw [hpath] at hstart
      cases hfind : (entriesAt [] root).find h.key.name with
      | none =>
        rw [hfind] at hstart
        exact ⟨_, (Except.ok.inj hstart).symm⟩
      | some v =>
        rw [hfind] at hstart
        cases v with
        | scalar => cases hstart
        | array => cases hstart
        | table span origin inner =>
          cases origin with
          | implied => exact ⟨_, (Except.ok.inj hstart).symm⟩
          | _ => cases hstart
    exact ⟨htop _ _, rfl, List.mem_append_right _ List.mem_cons_self, names_subset_of_remove _⟩

theorem keys_of_add_pair {e : Expression} {key : String} {w : Writing}
    (he : e.Spells (.pair key w)) (hadd : d.add e = .ok d') :
    d'.header = d.header ∧ d.keys ⊆ d'.keys ∧ (d.header = none → key ∈ d'.keys) := by
  obtain ⟨root, header, cur⟩ := d
  have hpair := @gives_pairs root cur header [e] [(key, w)] (.cons he .nil)
  rw [List.foldlM_cons, hadd] at hpair
  obtain ⟨more, rfl, hmore, -⟩ := hpair.holds d' rfl
  have hnames : (cur ++ more).names = cur.names ++ [key] := by
    have hmore : more.names = [key] := names_eq hmore
    rw [← hmore]
    exact List.map_append
  refine ⟨rfl, ?_, ?_⟩
  · cases header with
    | none =>
      change cur.names ⊆ (cur ++ more).names
      exact hnames ▸ List.subset_append_left _ _
    | some h => exact List.Subset.refl _
  · rintro rfl
    change key ∈ (cur ++ more).names
    exact hnames ▸ List.mem_append_right _ List.mem_cons_self

theorem keys_of_add_header {e : Expression} {element : Bool} {key : String} (htop : d.AtTop)
    (he : e.Spells (.header element key)) (hadd : d.add e = .ok d') :
    d'.AtTop ∧ d'.header.isSome ∧ key ∈ d'.keys ∧ d.keys ⊆ d'.keys := by
  obtain ⟨written, span, rfl, hkey⟩ := exists_of_spells_header he
  have heq : d.add (.header element [written] span) =
      d.close >>= fun root => start root ⟨element, [], ⟨key, written.span⟩, span⟩ := by
    rw [add, keyOf_singleton hkey]
    rfl
  rw [heq] at hadd
  obtain ⟨root, hclose, hstart⟩ := exists_of_bind hadd
  obtain ⟨htop', hsome, hmem, hsubset⟩ := keys_of_start rfl hstart
  exact ⟨htop', hsome, hmem, List.Subset.trans (keys_subset_of_close htop hclose) hsubset⟩

/-- Keys that have been read stay, and those that are written are added to them. -/
theorem topKeys_subset {rows : List Row} {exprs : List Expression}
    (hexprs : List.Forall₂ Expression.Spells exprs rows) (htop : d.AtTop)
    (hread : exprs.foldlM add d = .ok d') (hclose : d'.close = .ok es) :
    d.keys ++ topKeys d.header.isSome rows ⊆ es.names := by
  induction hexprs generalizing d with
  | nil =>
    obtain rfl := Except.ok.inj hread
    rw [topKeys, List.append_nil]
    exact keys_subset_of_close htop hclose
  | @cons e row exprs rows he _ ih =>
    rw [List.foldlM_cons] at hread
    obtain ⟨d₁, hadd, hread⟩ := exists_of_bind hread
    cases row with
    | pair key w =>
      obtain ⟨hheader, hsubset, hkey⟩ := keys_of_add_pair he hadd
      have hrest := ih (by rwa [AtTop, hheader]) hread
      rw [hheader] at hrest
      obtain ⟨hkeys, htopKeys⟩ := List.append_subset.1 hrest
      refine List.append_subset.2 ⟨List.Subset.trans hsubset hkeys, ?_⟩
      cases hnone : d.header with
      | none =>
        rw [hnone] at htopKeys
        exact List.cons_subset.2 ⟨hkeys (hkey hnone), htopKeys⟩
      | some h =>
        rw [hnone] at htopKeys
        exact htopKeys
    | header element key =>
      obtain ⟨htop', hsome, hmem, hsubset⟩ := keys_of_add_header htop he hadd
      have hrest := ih htop' hread
      rw [hsome] at hrest
      obtain ⟨hkeys, htopKeys⟩ := List.append_subset.1 hrest
      refine List.append_subset.2 ⟨List.Subset.trans hsubset hkeys, ?_⟩
      cases d.header <;> exact List.cons_subset.2 ⟨hkeys hmem, htopKeys⟩

end Draft

/-- No key at the top is lost. -/
theorem topKeys_subset_of_readDocument {rows : List Row} {es : Entries}
    (h : readDocument (writeRows rows) = .ok es) : topKeys false rows ⊆ es.names := by
  obtain ⟨exprs, hexprs, hread⟩ := readDocument_writeRows rows
  rw [hread] at h
  obtain ⟨d, hd, hclose⟩ := exists_of_bind h
  exact Draft.topKeys_subset hexprs (by rintro h ⟨⟩) hd hclose

end StructProjection.Toml
