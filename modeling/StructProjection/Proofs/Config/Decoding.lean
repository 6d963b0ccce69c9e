import StructProjection.Config.Printer
import StructProjection.Proofs.Results
import StructProjection.Proofs.Toml.Sheets

/-! # What a configuration is read as

The entries of a table are looked at in the order of their names, but each adds its own value to the
configuration, so that their order does not matter. An entry that is wrong in itself is wrong among all
others.
-/

namespace StructProjection

open Text Toml

section Values

variable {v : Value} {k : Key} {es : Entries} {ps : List (String × Writing)}

theorem stringOf_of_says {s : String} (h : v.Says (.string s)) : stringOf v = .ok s := by
  cases h
  rfl

theorem listOf_of_says {β : Type} {item : Value → Except Fault β} {ws : List Writing} {bs : List β}
    (h : v.Says (.array ws))
    (hitems : List.Forall₂ (fun w b => ∀ v : Value, v.Says w → item v = .ok b) ws bs) :
    listOf item v = .ok bs := by
  cases h with
  | @array _ _ values _ hvalues =>
    refine mapM_of_forall₂ ?_
    induction hvalues generalizing bs with
    | nil =>
      cases hitems
      exact .nil
    | cons hv _ ih =>
      cases hitems with
      | cons hitem hitems => exact .cons (hitem _ hv) (ih hitems)

theorem listOf_stringOf {ss : List String} (h : v.Says (writeStrings ss)) :
    listOf stringOf v = .ok ss := by
  refine listOf_of_says h ?_
  rw [List.forall₂_map_left_iff, List.forall₂_same]
  exact fun s _ v hv => stringOf_of_says hv

theorem listOf_eq_error {β : Type} {item : Value → Except Fault β} {ws : List Writing} {w : Writing}
    (h : v.Says (.array ws)) (hw : w ∈ ws) (hitem : ∀ v : Value, v.Says w → ∃ e, item v = .error e) :
    ∃ e, listOf item v = .error e := by
  cases h with
  | @array _ _ values _ hvalues =>
    obtain ⟨u, hu, hsays⟩ := exists_mem_of_forall₂ hvalues hw
    exact mapM_eq_error hu (hitem u hsays)

theorem sorted_perm (es : Entries) : (sorted es).Perm es := List.mergeSort_perm _ _

/-! ## Formatters -/

/-- Gives a formatter the value of the line. -/
def ToolLine.apply (d : ToolDraft) : ToolLine → ToolDraft
  | program s => { d with program := some s }
  | args ss => { d with args := ss }

theorem addToTool_of_says {e : Key × Value} {l : ToolLine} (h : EntrySays e l.pair) (d : ToolDraft) :
    addToTool d e = .ok (l.apply d) := by
  cases l with
  | program s =>
    obtain ⟨hname, hvalue⟩ := h
    simp only [addToTool, hname, stringOf_of_says hvalue]
    rfl
  | args ss =>
    obtain ⟨hname, hvalue⟩ := h
    simp only [addToTool, hname, listOf_stringOf hvalue]
    rfl

theorem ToolText.apply_comm {w : ToolText} {x y : ToolLine} (hx : x ∈ w.lines) (hy : y ∈ w.lines)
    (d : ToolDraft) : y.apply (x.apply d) = x.apply (y.apply d) := by
  have hline : ∀ l ∈ w.lines, l = .program w.program ∨ ∃ ss, w.args = some ss ∧ l = .args ss := by
    intro l hl
    rw [lines] at hl
    split at hl <;> cases hargs : w.args <;> simp_all
    exact hl.symm
  rcases hline x hx with rfl | ⟨ss, hss, rfl⟩ <;> rcases hline y hy with rfl | ⟨ss', hss', rfl⟩
  · rfl
  · rfl
  · rfl
  · obtain rfl := Option.some.inj (hss.symm.trans hss')
    rfl

theorem ToolText.foldl_apply (w : ToolText) :
    w.lines.foldl ToolLine.apply ⟨none, []⟩ = ⟨some w.program, w.args.getD []⟩ := by
  obtain ⟨program, args, argsFirst⟩ := w
  cases args <;> cases argsFirst <;> rfl

theorem toolOf_of_foldlM {span : Span} {origin : Origin} {d : ToolDraft} {program : String}
    (h : (sorted es).foldlM addToTool ⟨none, []⟩ = .ok d) (hprogram : d.program = some program) :
    toolOf (.table span origin es) = .ok ⟨program, d.args⟩ := by
  rw [toolOf, h]
  dsimp only [bind, Except.bind]
  rw [hprogram]
  rfl

/-- A formatter is read from the table that is written for it. -/
theorem toolOf_of_says {w : ToolText} (h : v.Says (.table w.pairs)) : toolOf v = .ok w.tool := by
  cases h with
  | @table span origin es _ hentries =>
    have hlines : List.Forall₂ (fun e l => ∀ d, addToTool d e = .ok (l.apply d)) es w.lines :=
      (List.forall₂_map_right_iff.1 hentries).imp fun _ _ => addToTool_of_says
    have hread := foldlM_of_perm (sorted_perm es) hlines
      (fun x hx y hy => ToolText.apply_comm hx hy) ⟨none, []⟩
    rw [w.foldl_apply] at hread
    exact toolOf_of_foldlM hread rfl

/-- A table that is no formatter: it has another key, or no program. -/
def Toolless (ps : List (String × Writing)) : Prop :=
  (∃ p ∈ ps, p.1 ≠ "program" ∧ p.1 ≠ "args") ∨ ∀ p ∈ ps, p.1 ≠ "program"

theorem addToTool_eq_error {e : Key × Value} (hprogram : e.1.name ≠ "program")
    (hargs : e.1.name ≠ "args") (d : ToolDraft) : ∃ f, addToTool d e = .error f := by
  obtain ⟨k, v⟩ := e
  rw [addToTool]
  split
  case h_1 heq => exact absurd heq hprogram
  case h_2 heq => exact absurd heq hargs
  case h_3 => exact ⟨_, rfl⟩

theorem program_eq_none {d d' : ToolDraft} (hes : ∀ e ∈ es, e.1.name ≠ "program")
    (hd : d.program = none) (h : es.foldlM addToTool d = .ok d') : d'.program = none := by
  induction es generalizing d with
  | nil =>
    obtain rfl := Except.ok.inj h
    exact hd
  | cons e es ih =>
    obtain ⟨he, hes⟩ := List.forall_mem_cons.1 hes
    rw [List.foldlM_cons] at h
    obtain ⟨d₁, hadd, h⟩ := exists_of_bind h
    refine ih hes ?_ h
    obtain ⟨k, v⟩ := e
    rw [addToTool] at hadd
    split at hadd
    case h_1 heq => exact absurd heq he
    case h_2 =>
      obtain ⟨ss, -, hadd⟩ := exists_of_bind hadd
      obtain rfl := Except.ok.inj hadd
      exact hd
    case h_3 => cases hadd

theorem toolOf_eq_error (h : v.Says (.table ps)) (hps : Toolless ps) :
    ∃ f, toolOf v = .error f := by
  cases h with
  | @table span origin es _ hentries =>
    rw [toolOf]
    rcases hps with ⟨p, hp, hprogram, hargs⟩ | hnone
    · obtain ⟨e, he, hname, -⟩ := exists_mem_of_forall₂ hentries hp
      subst hname
      exact bind_eq_error_of_left (foldlM_eq_error ((sorted_perm es).mem_iff.2 he)
        (addToTool_eq_error hprogram hargs) ⟨none, []⟩)
    · have hes : ∀ e ∈ sorted es, e.1.name ≠ "program" := by
        intro e he heq
        have hname : "program" ∈ ps.map (·.1) := by
          rw [← names_eq hentries, ← heq]
          exact List.mem_map_of_mem ((sorted_perm es).mem_iff.1 he)
        obtain ⟨p, hp, hpname⟩ := List.mem_map.1 hname
        exact hnone p hp hpname
      refine bind_eq_error fun d hread => ?_
      rw [program_eq_none hes rfl hread]
      exact ⟨_, rfl⟩

/-! ## Modes -/

/-- What a mode can be written as: its name, or a table with its name as the only key and nothing
below it. -/
inductive NamesMode : Writing → Prop
  | name (mode : CommitMode) : NamesMode (.string mode.name)
  | array (mode : CommitMode) : NamesMode (.table [(mode.name, .array [])])
  | table (mode : CommitMode) : NamesMode (.table [(mode.name, .table [])])

theorem name_of_modeOf {name : String} {span : Span} {mode : CommitMode}
    (h : modeOf name span = .ok mode) : name = mode.name := by
  unfold modeOf at h
  split at h
  · obtain rfl := Except.ok.inj h
    rfl
  · obtain rfl := Except.ok.inj h
    rfl
  · cases h

theorem modeOf_eq_error {name : String} {span : Span} (h : ∀ mode : CommitMode, name ≠ mode.name) :
    ∃ f, modeOf name span = .error f := by
  cases hmode : modeOf name span with
  | error f => exact ⟨f, rfl⟩
  | ok mode => exact absurd (name_of_modeOf hmode) (h mode)

theorem commitOf_of_says {mode : CommitMode} (h : v.Says (.string mode.name)) :
    commitOf v = .ok mode := by
  cases h
  cases mode <;> rfl

theorem commitOf_eq_error {w : Writing} (h : v.Says w) (hw : ¬ NamesMode w) :
    ∃ f, commitOf v = .error f := by
  cases h with
  | @word span s _ hbare =>
    cases s with
    | string x => exact absurd rfl (hbare x)
    | _ => exact ⟨_, rfl⟩
  | @string span s =>
    refine modeOf_eq_error ?_
    rintro mode rfl
    exact hw (.name mode)
  | array => exact ⟨_, rfl⟩
  | @table span origin es ps hentries =>
    cases hentries with
    | nil => exact ⟨_, rfl⟩
    | @cons e p es ps he hes =>
      cases hes with
      | cons => exact ⟨_, rfl⟩
      | nil =>
        obtain @⟨k, u, name, w, rfl, hu⟩ := he
        rw [commitOf]
        refine bind_eq_error fun mode hmode => ?_
        have hname := name_of_modeOf hmode
        split
        case h_1 =>
          cases hu with
          | array hitems =>
            cases hitems
            exact absurd (hname ▸ .array mode) hw
        case h_2 =>
          cases hu with
          | table hentries =>
            cases hentries
            exact absurd (hname ▸ .table mode) hw
        case h_3 => exact ⟨_, rfl⟩
        case h_4 => exact ⟨_, rfl⟩
        case h_5 => exact ⟨_, rfl⟩

end Values

end StructProjection
