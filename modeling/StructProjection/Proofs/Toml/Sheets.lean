import StructProjection.Proofs.Lists
import StructProjection.Proofs.Toml.Rows

/-! # The tables that are written

A document with pairs at its top and tables behind them is read like one table, in which the tables
are the elements of an array.
-/

namespace StructProjection.Toml

open Text

/-- The pairs of a whole document. Tables behind the first pairs are an array. -/
def sheetPairs (pairs : List (String × Writing)) (name : String)
    (tables : List (List (String × Writing))) : List (String × Writing) :=
  if tables.isEmpty then pairs else pairs ++ [(name, .array (tables.map .table))]

/-- A value that is not an array of tables with headers. Nothing can be added to it. -/
def Value.Closed (v : Value) : Prop := ∀ span items, v ≠ .array span true items

section Pairs

variable {root cur : Entries} {header : Option Header} {es : List Expression}

theorem closed_of_value {form : Form} {v : Value} (h : form.value = .ok v) : v.Closed := by
  rintro span items rfl
  cases form
  all_goals
    rw [Form.value] at h
    obtain ⟨_, -, h⟩ := exists_of_bind h
    cases h

/-- The pairs of a table are added to it. -/
theorem gives_pairs {ps : List (String × Writing)}
    (h : List.Forall₂ Expression.Spells es (ps.map fun p => .pair p.1 p.2)) :
    Gives (es.foldlM Draft.add ⟨root, header, cur⟩) (fun d => ∃ more,
      d = ⟨root, header, cur ++ more⟩ ∧ List.Forall₂ EntrySays more ps ∧
        ∀ e ∈ more, e.2.Closed) (Fresh cur ps) := by
  induction ps generalizing es cur with
  | nil =>
    cases h
    exact .of_ok ⟨[], by simp, .nil, by simp⟩
  | cons p ps ih =>
    obtain ⟨name, w⟩ := p
    cases h with
    | @cons e _ es _ he hes =>
      obtain @⟨written, form, _, _, hkey, hvalue⟩ := he
      have hadd : Draft.add ⟨root, header, cur⟩ (.pair [written] form) = (do
          let v ← form.value
          let es ← addPair [] ⟨name, written.span⟩ v cur
          return ⟨root, header, es⟩) := by
        rw [Draft.add, keyOf_singleton hkey]
        rfl
      rw [List.foldlM_cons, hadd, bind_assoc]
      have hv : Gives form.value (fun v => v.Says w ∧ v.Closed) w.Readable :=
        ⟨fun v hv => ⟨(gives_value w hvalue).holds v hv, closed_of_value hv⟩,
          (gives_value w hvalue).ok⟩
      refine (hv.bind (B := Fresh cur ((name, w) :: ps)) fun v hv => ?_).mono (fun _ => id)
        fun h => ⟨h.head.2, h⟩
      rw [bind_assoc]
      refine (gives_addPair.bind (B := Fresh cur ((name, w) :: ps)) fun es' hes' => ?_).mono
        (fun _ => id) fun h => ⟨h.head.1, h⟩
      subst hes'
      refine (ih hes).mono ?_ fun h => h.tail (k := ⟨name, written.span⟩)
      rintro d ⟨more, rfl, hmore, hclosed⟩
      refine ⟨(_, v) :: more, by rw [List.append_assoc]; rfl, .cons (.mk rfl hv.1) hmore, ?_⟩
      exact List.forall_mem_cons.2 ⟨hv.2, hclosed⟩

end Pairs

/-! ## Tables behind the pairs -/

/-- What a document holds, with its first pairs and with some of its tables. -/
structure Holds (first : Entries) (name : String) (tables : List (List (String × Writing)))
    (es : Entries) : Prop where
  nil : tables = [] → es = first
  cons : tables ≠ [] → ∃ k span items, k.name = name ∧ name ∉ first.names ∧
    es = first ++ [(k, .array span true items)] ∧
    List.Forall₂ Value.Says items (tables.map .table)

section Tables

variable {first root more : Entries} {name : String} {tables : List (List (String × Writing))}
  {ps : List (String × Writing)} {h : Header}

theorem find_append (hname : name ∉ first.names) {k : Key} {v : Value} (hk : k.name = name) :
    Entries.find (first ++ [(k, v)]) name = some v := by
  have hnone := find_eq_none_iff.2 hname
  rw [Entries.find, Option.map_eq_none_iff] at hnone
  rw [Entries.find, List.find?_append, hnone]
  simp [hk]

theorem set_append (hname : name ∉ first.names) {k : Key} {v w : Value} (hk : k.name = name) :
    Entries.set (first ++ [(k, v)]) name w = first ++ [(k, w)] := by
  have hfirst : Entries.set first name w = first := by
    refine (List.map_congr_left fun e he => ?_).trans (List.map_id _)
    exact if_neg fun heq => hname (List.mem_map.2 ⟨e, he, heq⟩)
  have happend : Entries.set (first ++ [(k, v)]) name w =
      Entries.set first name w ++ Entries.set [(k, v)] name w := List.map_append
  rw [happend, hfirst]
  simp [Entries.set, hk]

theorem closed_of_find (hclosed : ∀ e ∈ first, e.2.Closed) {v : Value}
    (hfind : first.find name = some v) : v.Closed := by
  obtain ⟨e, he, rfl⟩ := Option.map_eq_some_iff.1 hfind
  exact hclosed e (List.mem_of_find?_eq_some he)

theorem Draft.close_element (helement : h.element) (hpath : h.path = []) (cur : Entries) :
    (⟨root, some h, cur⟩ : Draft).close =
      match root.find h.key.name with
      | none => .ok (root ++ [(h.key, .array h.span true [.table h.span .header cur])])
      | some (.array span true items) =>
        .ok (root.set h.key.name (.array span true (items ++ [.table h.span .header cur])))
      | some _ => .error ⟨"duplicate key", h.key.span⟩ := by
  rw [Draft.close]
  simp only [hpath, change, helement, if_true]
  rfl

/-- Closing a table adds it to those before it. -/
theorem gives_close (hclosed : ∀ e ∈ first, e.2.Closed) (hroot : Holds first name tables root)
    (hmore : List.Forall₂ EntrySays more ps) (helement : h.element) (hpath : h.path = [])
    (hname : h.key.name = name) :
    Gives (⟨root, some h, more⟩ : Draft).close (Holds first name (tables ++ [ps]))
      (name ∉ first.names) := by
  rw [Draft.close_element helement hpath, hname]
  by_cases htables : tables = []
  · obtain rfl := hroot.nil htables
    subst htables
    cases hfind : root.find name with
    | none =>
      refine .of_ok ⟨by simp, fun _ => ⟨h.key, h.span, _, hname, find_eq_none_iff.1 hfind, rfl, ?_⟩⟩
      exact .cons (.table hmore) .nil
    | some v =>
      have hname' : ¬ name ∉ root.names := by
        rw [← find_eq_none_iff, hfind]
        simp
      have hv := closed_of_find hclosed hfind
      cases v with
      | scalar => exact .of_error hname'
      | table => exact .of_error hname'
      | array span ofTables items =>
        cases ofTables with
        | true => exact absurd rfl (hv span items)
        | false => exact .of_error hname'
  · obtain ⟨k, span, items, hk, hnew, rfl, hitems⟩ := hroot.cons htables
    rw [find_append hnew hk]
    dsimp only
    rw [set_append hnew hk]
    refine .of_ok ⟨by simp, fun _ => ⟨k, span, _, hk, hnew, rfl, ?_⟩⟩
    rw [List.map_append]
    exact List.rel_append hitems (.cons (.table hmore) .nil)

theorem exists_of_spells_header {e : Expression} {element : Bool}
    (h : e.Spells (.header element name)) :
    ∃ written span, e = .header element [written] span ∧ keyName written = .ok name := by
  cases h with
  | header hkey => exact ⟨_, _, rfl, hkey⟩

/-- The rows of the tables behind the pairs. -/
def tableRows (name : String) (tables : List (List (String × Writing))) : List Row :=
  tables.flatMap fun ps => .header true name :: ps.map fun p => .pair p.1 p.2

theorem gives_tables (hclosed : ∀ e ∈ first, e.2.Closed) {A : Prop}
    {more : List (List (String × Writing))} {es : List Expression} {d : Draft}
    (hes : List.Forall₂ Expression.Spells es (tableRows name more))
    (hd : Gives d.close (Holds first name tables) A) :
    Gives (es.foldlM Draft.add d >>= Draft.close) (Holds first name (tables ++ more))
      (A ∧ (more ≠ [] → name ∉ first.names) ∧ ∀ ps ∈ more, Fresh [] ps) := by
  induction more generalizing es d tables A with
  | nil =>
    cases hes
    rw [List.append_nil]
    exact hd.mono (fun _ => id) fun h => h.1
  | cons ps more ih =>
    rw [tableRows, List.flatMap_cons, List.cons_append] at hes
    cases hes with
    | @cons e _ es _ he hes =>
      obtain ⟨es₁, es₂, rfl, hes₁, hes₂⟩ := exists_append_of_forall₂ hes
      obtain ⟨written, span, rfl, hkey⟩ := exists_of_spells_header he
      let h : Header := ⟨true, [], ⟨name, written.span⟩, span⟩
      have hadd : Draft.add d (.header true [written] span) = (do
          let root ← d.close
          return ⟨root, some h, []⟩) := by
        rw [Draft.add, keyOf_singleton hkey]
        rfl
      rw [List.foldlM_cons, hadd]
      simp only [bind_assoc, pure_bind, List.foldlM_append]
      refine (hd.bind (B := Fresh [] ps ∧ name ∉ first.names ∧ (more ≠ [] → name ∉ first.names) ∧
        ∀ ps ∈ more, Fresh [] ps) fun root hroot => ?_).mono (fun _ => id) ?_
      · refine (gives_pairs hes₁).bind ?_
        rintro d' ⟨entries, rfl, hentries, -⟩
        have hclose : Gives (⟨root, some h, [] ++ entries⟩ : Draft).close
            (Holds first name (tables ++ [ps])) (name ∉ first.names) :=
          gives_close hclosed hroot hentries rfl rfl rfl
        have hrest := ih hes₂ hclose
        rwa [List.append_assoc] at hrest
      · rintro ⟨hA, hname, hfresh⟩
        obtain ⟨hps, hmore⟩ := List.forall_mem_cons.1 hfresh
        have hname := hname (List.cons_ne_nil _ _)
        exact ⟨hA, hps, hname, fun _ => hname, hmore⟩

end Tables

/-! ## The whole document -/

section Sheet

variable {pairs ps : List (String × Writing)} {name : String}
  {tables : List (List (String × Writing))}

theorem names_eq {es : Entries} (h : List.Forall₂ EntrySays es ps) : es.names = ps.map (·.1) := by
  induction h with
  | nil => rfl
  | cons he _ ih =>
    obtain ⟨rfl, -⟩ := he
    exact congrArg (_ :: ·) ih

theorem readable_sheetPairs_iff : (Writing.table (sheetPairs pairs name tables)).Readable ↔
    (Writing.table pairs).Readable ∧ (tables ≠ [] → name ∉ pairs.map (·.1)) ∧
      ∀ ps ∈ tables, (Writing.table ps).Readable := by
  cases tables with
  | nil => simp [sheetPairs]
  | cons ps tables =>
    have hsheet : sheetPairs pairs name (ps :: tables) =
        pairs ++ [(name, .array ((ps :: tables).map .table))] := rfl
    rw [hsheet, readable_table_iff, readable_table_iff, List.map_append, List.nodup_append,
      List.forall_mem_append]
    constructor
    · rintro ⟨⟨hkeys, -, hne⟩, hvalues, hlast⟩
      have hitems := readable_array_iff.1 (hlast _ List.mem_cons_self)
      exact ⟨⟨hkeys, hvalues⟩, fun _ hname => hne _ hname name List.mem_cons_self rfl,
        List.forall_mem_map.1 hitems⟩
    · rintro ⟨⟨hkeys, hvalues⟩, hname, htables⟩
      refine ⟨⟨hkeys, List.pairwise_singleton _ _, ?_⟩, hvalues, ?_⟩
      · rintro key hkey _ hlast rfl
        rw [List.mem_singleton.1 hlast] at hkey
        exact hname (List.cons_ne_nil _ _) hkey
      · intro p hp
        rw [List.mem_singleton.1 hp]
        exact .array (List.forall_mem_map.2 htables)

theorem says_of_holds {first es : Entries} (h : Holds first name tables es)
    (hfirst : List.Forall₂ EntrySays first pairs) :
    List.Forall₂ EntrySays es (sheetPairs pairs name tables) := by
  cases tables with
  | nil => exact h.nil rfl ▸ hfirst
  | cons ps tables =>
    obtain ⟨k, span, items, hk, -, rfl, hitems⟩ := h.cons (List.cons_ne_nil _ _)
    exact List.rel_append hfirst (.cons (.mk hk (.array hitems)) .nil)

/-- A document is read like the table of all its pairs. -/
theorem gives_sheet (pairs : List (String × Writing)) (name : String)
    (tables : List (List (String × Writing))) :
    Gives (readDocument (writeRows (sheet pairs name tables)))
      (List.Forall₂ EntrySays · (sheetPairs pairs name tables))
      (Writing.table (sheetPairs pairs name tables)).Readable := by
  obtain ⟨es, hes, hread⟩ := readDocument_writeRows (sheet pairs name tables)
  obtain ⟨es₁, es₂, rfl, hes₁, hes₂⟩ := exists_append_of_forall₂ hes
  rw [hread, List.foldlM_append, bind_assoc, readable_sheetPairs_iff]
  refine ((gives_pairs hes₁).bind (B := (tables ≠ [] → name ∉ pairs.map (·.1)) ∧
    ∀ ps ∈ tables, (Writing.table ps).Readable) ?_).mono (fun _ => id)
      fun h => ⟨fresh_of_readable h.1, h.2⟩
  rintro d ⟨first, rfl, hfirst, hclosed⟩
  have hclose : Gives (⟨[], none, [] ++ first⟩ : Draft).close (Holds first name []) True :=
    .of_ok ⟨fun _ => rfl, fun h => absurd rfl h⟩
  refine (gives_tables hclosed hes₂ hclose).mono (fun es hes => says_of_holds hes hfirst) fun h => ?_
  rw [names_eq hfirst]
  exact ⟨trivial, h.1, fun ps hps => fresh_of_readable (h.2 ps hps)⟩

end Sheet

end StructProjection.Toml
