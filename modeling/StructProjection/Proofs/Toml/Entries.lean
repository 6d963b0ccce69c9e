import StructProjection.Proofs.Results
import StructProjection.Proofs.Toml.Values

/-! # What the values say

What has been read says what is written. It is read without a fault if no table has two pairs with
one key, and no value is a bare word.
-/

namespace StructProjection.Toml

open Text

/-- There is no result but such as is wanted, and there is one if all is fine. -/
structure Gives {α : Type} (r : Except Fault α) (wanted : α → Prop) (fine : Prop) : Prop where
  holds : ∀ a, r = .ok a → wanted a
  ok : fine → ∃ a, r = .ok a

namespace Gives

variable {α β : Type} {r : Except Fault α} {p p' : α → Prop} {q : β → Prop} {A B : Prop}

theorem of_ok {a : α} (h : p a) : Gives (.ok a) p A where
  holds _ hb := Except.ok.inj hb ▸ h
  ok _ := ⟨a, rfl⟩

theorem of_error {f : Fault} (h : ¬ A) : Gives (.error f : Except Fault α) p A where
  holds a ha := by cases ha
  ok hA := absurd hA h

theorem mono (h : Gives r p A) (hp : ∀ a, p a → p' a) (hfine : B → A) : Gives r p' B where
  holds a ha := hp a (h.holds a ha)
  ok hB := h.ok (hfine hB)

theorem bind {f : α → Except Fault β} (h : Gives r p A) (hf : ∀ a, p a → Gives (f a) q B) :
    Gives (r >>= f) q (A ∧ B) := by
  cases r with
  | ok a =>
    have ha := hf a (h.holds a rfl)
    exact ⟨ha.holds, fun hfine => ha.ok hfine.2⟩
  | error f =>
    refine .of_error fun hfine => ?_
    obtain ⟨a, ha⟩ := h.ok hfine.1
    cases ha

end Gives

mutual

/-- A value says what is written. -/
inductive Value.Says : Value → Writing → Prop
  | word {span : Span} {s : Scalar} {w : Word} (hbare : ∀ x, s ≠ .string x) :
      Value.Says (.scalar span s) (.word w)
  | string {span : Span} {s : String} : Value.Says (.scalar span (.string s)) (.string s)
  | array {span : Span} {ofTables : Bool} {values : List Value} {ws : List Writing}
      (hitems : List.Forall₂ Value.Says values ws) :
      Value.Says (.array span ofTables values) (.array ws)
  | table {span : Span} {origin : Origin} {es : Entries} {ps : List (String × Writing)}
      (hentries : List.Forall₂ EntrySays es ps) : Value.Says (.table span origin es) (.table ps)

inductive EntrySays : Key × Value → String × Writing → Prop
  | mk {k : Key} {v : Value} {name : String} {w : Writing} (hname : k.name = name)
      (hvalue : v.Says w) : EntrySays (k, v) (name, w)

end

/-- What is read without a fault: no words, and no key twice in one table. -/
inductive Writing.Readable : Writing → Prop
  | string {s : String} : Readable (.string s)
  | array {ws : List Writing} (hitems : ∀ w ∈ ws, Readable w) : Readable (.array ws)
  | table {ps : List (String × Writing)} (hkeys : (ps.map (·.1)).Nodup)
      (hvalues : ∀ p ∈ ps, Readable p.2) : Readable (.table ps)

theorem readable_array_iff {ws : List Writing} :
    (Writing.array ws).Readable ↔ ∀ w ∈ ws, w.Readable := by
  constructor
  · intro h
    cases h with
    | array hitems => exact hitems
  · exact .array

theorem readable_table_iff {ps : List (String × Writing)} :
    (Writing.table ps).Readable ↔ (ps.map (·.1)).Nodup ∧ ∀ p ∈ ps, p.2.Readable := by
  constructor
  · intro h
    cases h with
    | table hkeys hvalues => exact ⟨hkeys, hvalues⟩
  · rintro ⟨hkeys, hvalues⟩
    exact .table hkeys hvalues

def Entries.names (es : Entries) : List String := es.map (·.1.name)

/-- Pairs that can be added to a table. -/
structure Fresh (es : Entries) (ps : List (String × Writing)) : Prop where
  keys : (es.names ++ ps.map (·.1)).Nodup
  values : ∀ p ∈ ps, p.2.Readable

theorem fresh_of_readable {ps : List (String × Writing)} (h : (Writing.table ps).Readable) :
    Fresh [] ps := by
  obtain ⟨hkeys, hvalues⟩ := readable_table_iff.1 h
  exact ⟨hkeys, hvalues⟩

section Entries

variable {es : Entries} {k : Key} {v : Value} {name : String}

theorem find_eq_none_iff : es.find name = none ↔ name ∉ es.names := by
  simp [Entries.find, Entries.names, List.find?_eq_none]

theorem gives_addPair : Gives (addPair [] k v es) (· = es ++ [(k, v)]) (k.name ∉ es.names) := by
  have hadd : addPair [] k v es = addNew k v es := rfl
  rw [hadd, addNew]
  cases hfind : es.find k.name with
  | none => exact .of_ok rfl
  | some w =>
    refine .of_error fun hnew => ?_
    rw [find_eq_none_iff.2 hnew] at hfind
    cases hfind

theorem Fresh.head {w : Writing} {ps : List (String × Writing)} (h : Fresh es ((name, w) :: ps)) :
    name ∉ es.names ∧ w.Readable := by
  refine ⟨fun hname => ?_, h.values _ List.mem_cons_self⟩
  exact (List.nodup_append.1 h.keys).2.2 _ hname _ List.mem_cons_self rfl

theorem Fresh.tail {w : Writing} {ps : List (String × Writing)}
    (h : Fresh es ((k.name, w) :: ps)) : Fresh (es ++ [(k, v)]) ps where
  keys := by simpa [Entries.names] using h.keys
  values p hp := h.values p (List.mem_cons_of_mem _ hp)

theorem keyOf_singleton {w : Written} (h : keyName w = .ok name) :
    keyOf [w] = .ok ([], ⟨name, w.span⟩) := by
  rw [keyOf, h]
  rfl

end Entries

theorem ne_string_of_readBareValue {w : Written} {s : Scalar} (h : readBareValue w = .ok s)
    (x : String) : s ≠ .string x := by
  rintro rfl
  unfold readBareValue at h
  dsimp only at h
  repeat' split at h
  all_goals cases h

mutual

/-- The value of a form says what is written. -/
theorem gives_value : (w : Writing) → {form : Form} → form.Spells w →
    Gives form.value (·.Says w) w.Readable
  | .word w, form, h => by
    cases h with
    | @word written _ hbare =>
      have hread : readScalar written = readBareValue written := by rw [readScalar, hbare]
      rw [Form.value, hread]
      refine ⟨fun v hv => ?_, fun h => by cases h⟩
      obtain ⟨s, hs, hv⟩ := exists_of_bind hv
      obtain rfl := Except.ok.inj hv
      exact .word (ne_string_of_readBareValue hs)
  | .string s, form, h => by
    cases h with
    | @string span =>
      rw [Form.value, readScalar]
      dsimp only
      rw [readQuoted_writeString]
      exact .of_ok .string
  | .array ws, form, h => by
    cases h with
    | array hitems =>
      rw [Form.value]
      exact ((gives_values ws hitems).bind fun vs hvs => .of_ok (.array hvs)).mono
        (fun _ => id) fun h => ⟨readable_array_iff.1 h, trivial⟩
  | .table ps, form, h => by
    cases h with
    | table hpairs =>
      rw [Form.value]
      refine ((gives_entries ps hpairs).bind (B := True) fun es hes => .of_ok ?_).mono
        (fun _ => id) fun h => ⟨fresh_of_readable h, trivial⟩
      obtain ⟨more, rfl, hmore⟩ := hes
      exact .table hmore

theorem gives_values : (ws : List Writing) → {forms : List Form} →
    List.Forall₂ Form.Spells forms ws →
    Gives (Form.values forms) (List.Forall₂ Value.Says · ws) (∀ w ∈ ws, w.Readable)
  | [], forms, h => by
    cases h
    exact .of_ok .nil
  | w :: ws, forms, h => by
    cases h with
    | cons hitem hitems =>
      rw [Form.values]
      refine ((gives_value w hitem).bind fun v hv =>
        (gives_values ws hitems).bind (B := True) fun vs hvs => .of_ok (.cons hv hvs)).mono
          (fun _ => id) fun h => ?_
      obtain ⟨hw, hws⟩ := List.forall_mem_cons.1 h
      exact ⟨hw, hws, trivial⟩

theorem gives_entries : (ps : List (String × Writing)) → {pairs : List (KeyPath × Form)} →
    {es : Entries} → List.Forall₂ PairSpells pairs ps →
    Gives (Form.entries es pairs) (fun es' => ∃ more, es' = es ++ more ∧
      List.Forall₂ EntrySays more ps) (Fresh es ps)
  | [], pairs, es, h => by
    cases h
    exact .of_ok ⟨[], by simp, .nil⟩
  | (name, w) :: ps, pairs, es, h => by
    cases h with
    | cons hpair hpairs =>
      obtain @⟨written, form, _, _, hkey, hvalue⟩ := hpair
      rw [Form.entries, keyOf_singleton hkey]
      change Gives (_ >>= fun v => addPair [] ⟨name, _⟩ v es >>= fun es => Form.entries es _) _ _
      refine ((gives_value w hvalue).bind fun v hv => gives_addPair.bind
        (B := Fresh es ((name, w) :: ps)) fun es' hes' => ?_).mono (fun _ => id) fun h => ?_
      · subst hes'
        refine (gives_entries ps hpairs).mono ?_ fun h => h.tail (k := ⟨name, written.span⟩)
        rintro es' ⟨more, rfl, hmore⟩
        exact ⟨(_, v) :: more, by rw [List.append_assoc]; rfl, .cons (.mk rfl hv) hmore⟩
      · obtain ⟨hnew, hw⟩ := h.head
        exact ⟨hw, hnew, h⟩

end

end StructProjection.Toml
