import Mathlib.Data.List.Nodup
import StructProjection.Proofs.Config.Decoding
import StructProjection.Proofs.Toml.TopKeys

/-! # Configurations are read as they are written

The keys of a configuration can be written in any order, and its formatters in a pair or in tables of
their own. What is read are the values that are written. Nothing else can be written.
-/

namespace StructProjection.Config

open Text Toml

/-- The keys that a configuration can have. -/
def fields : List String := ["suffix", "exclude", "strip", "commit", "formatter"]

section Lines

variable {es : Entries} {lines : List Line} {tables : List ToolText}

theorem addToConfig_of_says {e : Key × Value} {l : Line} (h : EntrySays e (l.key, l.value))
    (c : Config) : addToConfig c e = .ok (l.apply c) := by
  obtain ⟨k, v⟩ := e
  cases l with
  | suffix s =>
    obtain ⟨hname, hvalue⟩ := h
    simp only [addToConfig, hname, Line.key, stringOf_of_says hvalue]
    rfl
  | exclude ss =>
    obtain ⟨hname, hvalue⟩ := h
    simp only [addToConfig, hname, Line.key, listOf_stringOf hvalue]
    rfl
  | strip ss =>
    obtain ⟨hname, hvalue⟩ := h
    simp only [addToConfig, hname, Line.key, listOf_stringOf hvalue]
    rfl
  | commit mode =>
    obtain ⟨hname, hvalue⟩ := h
    simp only [addToConfig, hname, Line.key, commitOf_of_says hvalue]
    rfl
  | formatters tools =>
    obtain ⟨hname, hvalue⟩ := h
    have hread : listOf toolOf v = .ok (tools.map ToolText.tool) := by
      refine listOf_of_says hvalue ?_
      rw [List.forall₂_map_left_iff, List.forall₂_map_right_iff, List.forall₂_same]
      exact fun w _ v hv => toolOf_of_says hv
    simp only [addToConfig, hname, Line.key, hread]
    rfl

theorem Line.apply_comm {x y : Line} (h : x.key ≠ y.key) (c : Config) :
    y.apply (x.apply c) = x.apply (y.apply c) := by
  cases x <;> cases y <;> first | rfl | exact absurd rfl h

theorem ofEntries_of_says (hkeys : (lines.map Line.key).Nodup)
    (h : List.Forall₂ EntrySays es (lines.map fun l => (l.key, l.value))) :
    ofEntries es = .ok (lines.foldl Line.apply {}) := by
  refine foldlM_of_perm (sorted_perm es)
    ((List.forall₂_map_right_iff.1 h).imp fun _ _ => addToConfig_of_says) (fun x hx y hy c => ?_) {}
  by_cases hxy : x.key = y.key
  · rw [List.inj_on_of_nodup_map hkeys hx hy hxy]
  · exact Line.apply_comm hxy c

/-- All lines of a configuration. The tables behind the pairs stand for one more. -/
def allLines (lines : List Line) (tables : List ToolText) : List Line :=
  if tables.isEmpty then lines else lines ++ [.formatters tables]

theorem sheetPairs_lines (lines : List Line) (tables : List ToolText) :
    sheetPairs (lines.map fun l => (l.key, l.value)) "formatter" (tables.map ToolText.pairs) =
      (allLines lines tables).map fun l => (l.key, l.value) := by
  cases tables with
  | nil => rfl
  | cons w tables =>
    simp [sheetPairs, allLines, Line.key, Line.value, Function.comp_def]

theorem ofLines_eq (lines : List Line) (tables : List ToolText) :
    ofLines lines tables = (allLines lines tables).foldl Line.apply {} := by
  cases tables with
  | nil => rfl
  | cons w tables =>
    rw [ofLines, allLines, if_neg (List.cons_ne_nil _ _), if_neg (by simp), List.foldl_append]
    rfl

theorem readable_writeStrings (ss : List String) : (writeStrings ss).Readable :=
  .array (List.forall_mem_map.2 fun _ _ => .string)

theorem readable_pairs (w : ToolText) : (Writing.table w.pairs).Readable := by
  refine .table ?_ (List.forall_mem_map.2 fun l _ => ?_)
  · obtain ⟨program, args, argsFirst⟩ := w
    cases args <;> cases argsFirst <;> simp [ToolText.pairs, ToolText.lines, ToolLine.pair]
  · cases l with
    | program s => exact .string
    | args ss => exact readable_writeStrings ss

theorem readable_value (l : Line) : l.value.Readable := by
  cases l with
  | suffix s => exact .string
  | exclude ss => exact readable_writeStrings ss
  | strip ss => exact readable_writeStrings ss
  | commit mode => exact .string
  | formatters tools => exact .array (List.forall_mem_map.2 fun w _ => readable_pairs w)

/-- A configuration that mentions no key twice. -/
def Distinct (lines : List Line) (tables : List ToolText) : Prop :=
  ((allLines lines tables).map Line.key).Nodup

theorem readDocument_write (h : Distinct lines tables) :
    ∃ es, readDocument (write lines tables).toList = .ok es ∧
      List.Forall₂ EntrySays es ((allLines lines tables).map fun l => (l.key, l.value)) := by
  have hsheet := gives_sheet (lines.map fun l => (l.key, l.value)) "formatter"
    (tables.map ToolText.pairs)
  rw [sheetPairs_lines] at hsheet
  rw [write, text, String.toList_ofList]
  obtain ⟨es, hes⟩ := hsheet.ok (.table (by rwa [List.map_map])
    (List.forall_mem_map.2 fun l _ => readable_value l))
  exact ⟨es, hes, hsheet.holds es hes⟩

/-- What is read is what is written. -/
theorem read_write_eq (h : Distinct lines tables) (path : Files.Path) :
    read (write lines tables) path = .ok { ofLines lines tables with source := some path } := by
  obtain ⟨es, hes, hsays⟩ := readDocument_write h
  have hread : readDocument (write lines tables).toList >>= ofEntries = .ok (ofLines lines tables) := by
    rw [hes, ofLines_eq]
    exact ofEntries_of_says h hsays
  rw [read, hread]

end Lines

/-! ## What is said and what is used -/

section Fields

variable {lines : List Line} {tables : List ToolText} {c : Config}

/-- A value of a configuration that is given by lines with one key and no others. -/
structure IsField {γ : Type} (key : String) (p : Config → Option γ) : Prop where
  empty : p {} = none
  step : ∀ (l : Line) (c : Config), p (l.apply c) = (p (l.apply {})).or (p c)
  key_eq : ∀ l : Line, p (l.apply {}) ≠ none → l.key = key

variable {γ : Type} {key : String} {p : Config → Option γ} {x : γ}

theorem foldl_apply_eq_some (hp : IsField key p) (hkeys : (lines.map Line.key).Nodup) :
    p (lines.foldl Line.apply c) = some x ↔ (∃ l ∈ lines, p (l.apply {}) = some x) ∨
      p c = some x ∧ ∀ l ∈ lines, p (l.apply {}) = none := by
  induction lines generalizing c with
  | nil => simp
  | cons l lines ih =>
    rw [List.map_cons, List.nodup_cons] at hkeys
    obtain ⟨hnew, hkeys⟩ := hkeys
    rw [List.foldl_cons, ih hkeys, hp.step]
    cases hl : p (l.apply {}) with
    | none => simp [hl]
    | some y =>
      have hnone : ∀ l' ∈ lines, p (l'.apply {}) = none := by
        intro l' hl'
        by_contra hsome
        have hkey : l.key = key := hp.key_eq l (by rw [hl]; exact Option.some_ne_none y)
        exact hnew (List.mem_map.2 ⟨l', hl', (hp.key_eq l' hsome).trans hkey.symm⟩)
      simp only [Option.some_or, Option.some.injEq, List.exists_mem_cons_iff,
        List.forall_mem_cons, hl, reduceCtorEq, false_and, and_false, or_false]
      constructor
      · rintro (⟨l', hl', hx⟩ | ⟨rfl, -⟩)
        · exact .inr ⟨l', hl', hx⟩
        · exact .inl rfl
      · rintro (rfl | ⟨l', hl', hx⟩)
        · exact .inr ⟨rfl, hnone⟩
        · exact .inl ⟨l', hl', hx⟩

/-- The values of a configuration are those of its lines. -/
structure Decoded (lines : List Line) (tables : List ToolText) (c : Config) : Prop where
  suffix : ∀ s, c.suffix = some s ↔ .suffix s ∈ lines
  exclude : ∀ ss, c.exclude = some ss ↔ .exclude ss ∈ lines
  strip : ∀ ss, c.strip = some ss ↔ .strip ss ∈ lines
  commit : ∀ mode, c.commit = some mode ↔ .commit mode ∈ lines
  formatters : ∀ ts, c.formatters = some ts ↔
    ∃ ws, ts = ws.map ToolText.tool ∧ (.formatters ws ∈ lines ∨ ws = tables ∧ ws ≠ [])

theorem mem_allLines {l : Line} :
    l ∈ allLines lines tables ↔ l ∈ lines ∨ tables ≠ [] ∧ l = .formatters tables := by
  cases tables <;> simp [allLines]

/-- The configuration has a value if there is a line for it. -/
theorem ofLines_eq_some (hp : IsField key p) (h : Distinct lines tables) :
    p (ofLines lines tables) = some x ↔ ∃ l ∈ allLines lines tables, p (l.apply {}) = some x := by
  rw [ofLines_eq, foldl_apply_eq_some hp h, hp.empty]
  simp

theorem ofLines_eq_some_iff {line : Line} (hp : IsField key p) (h : Distinct lines tables)
    (hline : ∀ l, p (l.apply {}) = some x ↔ l = line) (hne : line ≠ .formatters tables) :
    p (ofLines lines tables) = some x ↔ line ∈ lines := by
  rw [ofLines_eq_some hp h]
  simp only [hline, exists_eq_right, mem_allLines, hne, and_false, or_false]

theorem isField_suffix : IsField "suffix" Config.suffix :=
  ⟨rfl, fun l _ => by cases l <;> rfl, fun l h => by cases l <;> first | rfl | exact absurd rfl h⟩

theorem isField_exclude : IsField "exclude" Config.exclude :=
  ⟨rfl, fun l _ => by cases l <;> rfl, fun l h => by cases l <;> first | rfl | exact absurd rfl h⟩

theorem isField_strip : IsField "strip" Config.strip :=
  ⟨rfl, fun l _ => by cases l <;> rfl, fun l h => by cases l <;> first | rfl | exact absurd rfl h⟩

theorem isField_commit : IsField "commit" Config.commit :=
  ⟨rfl, fun l _ => by cases l <;> rfl, fun l h => by cases l <;> first | rfl | exact absurd rfl h⟩

theorem isField_formatters : IsField "formatter" Config.formatters :=
  ⟨rfl, fun l _ => by cases l <;> rfl, fun l h => by cases l <;> first | rfl | exact absurd rfl h⟩

theorem decoded_of_distinct (h : Distinct lines tables) :
    Decoded lines tables (ofLines lines tables) where
  suffix s := ofLines_eq_some_iff isField_suffix h
    (fun l => by cases l <;> simp [Line.apply]) (by simp)
  exclude ss := ofLines_eq_some_iff isField_exclude h
    (fun l => by cases l <;> simp [Line.apply]) (by simp)
  strip ss := ofLines_eq_some_iff isField_strip h
    (fun l => by cases l <;> simp [Line.apply]) (by simp)
  commit mode := ofLines_eq_some_iff isField_commit h
    (fun l => by cases l <;> simp [Line.apply]) (by simp)
  formatters ts := by
    have hline : ∀ l : Line, (l.apply {}).formatters = some ts ↔
        ∃ ws, ws.map ToolText.tool = ts ∧ l = .formatters ws := by
      intro l
      cases l <;> simp [Line.apply, and_comm]
    rw [ofLines_eq_some isField_formatters h]
    simp only [hline, mem_allLines]
    constructor
    · rintro ⟨_, hl, ws, rfl, rfl⟩
      rcases hl with hl | ⟨hne, hl⟩
      · exact ⟨ws, rfl, .inl hl⟩
      · obtain rfl := Line.formatters.inj hl
        exact ⟨ws, rfl, .inr ⟨rfl, hne⟩⟩
    · rintro ⟨ws, rfl, hl | ⟨rfl, hne⟩⟩
      · exact ⟨_, .inl hl, ws, rfl, rfl⟩
      · exact ⟨_, .inr ⟨hne, rfl⟩, ws, rfl, rfl⟩

/-- Each value that is given is used in the place of the standard one. An empty list stands for no
rules, or for no formatters. -/
structure Used (lines : List Line) (tables : List ToolText) (c : Config) : Prop where
  suffix : ∀ s, .suffix s ∈ lines → c.settings.suffix = s
  exclude : ∀ ss, .exclude ss ∈ lines → c.settings.exclusions = ⟨ss⟩
  strip : ∀ ss, .strip ss ∈ lines → c.settings.strip = ⟨ss⟩
  commit : ∀ mode, .commit mode ∈ lines → c.settings.commit = mode
  formatters : ∀ ws, .formatters ws ∈ lines → c.tools = ws.map ToolText.tool
  tools : tables ≠ [] → c.tools = tables.map ToolText.tool
  exclude_nil : .exclude [] ∈ lines → c.settings.exclusions = .none
  strip_nil : .strip [] ∈ lines → c.settings.strip = .none
  formatters_nil : .formatters [] ∈ lines → c.tools = []
  suffix_standard : (∀ s, .suffix s ∉ lines) → c.settings.suffix = ".pb.go"
  exclude_standard : (∀ ss, .exclude ss ∉ lines) → c.settings.exclusions = .standard
  strip_standard : (∀ ss, .strip ss ∉ lines) → c.settings.strip = .standard
  commit_standard : (∀ mode, .commit mode ∉ lines) → c.settings.commit = .failFast
  tools_standard : (∀ ws, .formatters ws ∉ lines) → tables = [] → c.tools = Tool.standard

theorem eq_none_of_forall {o : Option γ} {P : γ → Prop} (h : ∀ x, o = some x ↔ P x)
    (hP : ∀ x, ¬ P x) : o = none :=
  Option.eq_none_iff_forall_ne_some.2 fun x hx => hP x ((h x).1 hx)

theorem used_of_decoded (h : Decoded lines tables c) : Used lines tables c where
  suffix s hs := by simp [settings, (h.suffix s).2 hs]
  exclude ss hss := by simp [settings, (h.exclude ss).2 hss]
  strip ss hss := by simp [settings, (h.strip ss).2 hss]
  commit mode hmode := by simp [settings, (h.commit mode).2 hmode]
  formatters ws hws := by simp [Config.tools, (h.formatters _).2 ⟨ws, rfl, .inl hws⟩]
  tools hne := by simp [Config.tools, (h.formatters _).2 ⟨tables, rfl, .inr ⟨rfl, hne⟩⟩]
  exclude_nil hss := by simp [settings, (h.exclude []).2 hss, ExclusionRules.none]
  strip_nil hss := by simp [settings, (h.strip []).2 hss, StripRules.none]
  formatters_nil hws := by simp [Config.tools, (h.formatters []).2 ⟨[], rfl, .inl hws⟩]
  suffix_standard hs := by simp [settings, eq_none_of_forall h.suffix hs]
  exclude_standard hss := by simp [settings, eq_none_of_forall h.exclude hss]
  strip_standard hss := by simp [settings, eq_none_of_forall h.strip hss]
  commit_standard hmode := by simp [settings, eq_none_of_forall h.commit hmode]
  tools_standard hws htables := by
    have hnone : c.formatters = none := by
      refine eq_none_of_forall h.formatters ?_
      rintro _ ⟨ws, -, hl | ⟨rfl, hne⟩⟩
      · exact hws ws hl
      · exact hne htables
    simp [Config.tools, hnone]

end Fields

/-! ## What cannot be written -/

/-- Pairs of which no configuration can be made. -/
inductive Improper (ps : List (String × Writing)) : Prop
  | key {p : String × Writing} (hp : p ∈ ps) (hkey : p.1 ∉ fields)
  | formatter {items : List Writing} {tool : List (String × Writing)}
      (hitems : ("formatter", .array items) ∈ ps) (htool : .table tool ∈ items)
      (hless : Toolless tool)
  | commit {w : Writing} (hw : ("commit", w) ∈ ps) (hmode : ¬ NamesMode w)

section Strict

variable {es : Entries} {ps : List (String × Writing)} {path : Files.Path}

theorem addToConfig_eq_error {e : Key × Value} (h : e.1.name ∉ fields) (c : Config) :
    ∃ f, addToConfig c e = .error f := by
  obtain ⟨k, v⟩ := e
  rw [addToConfig]
  split
  case h_6 => exact ⟨_, rfl⟩
  all_goals
    next heq =>
    dsimp only at h
    rw [heq] at h
    exact absurd (by decide) h

theorem ofEntries_eq_error {e : Key × Value} (he : e ∈ es)
    (h : ∀ c, ∃ f, addToConfig c e = .error f) : ∃ f, ofEntries es = .error f :=
  foldlM_eq_error ((sorted_perm es).mem_iff.2 he) h {}

theorem ofEntries_eq_error_of_improper (h : List.Forall₂ EntrySays es ps) (hps : Improper ps) :
    ∃ f, ofEntries es = .error f := by
  cases hps with
  | @key p hp hkey =>
    obtain ⟨e, he, hname, -⟩ := exists_mem_of_forall₂ h hp
    subst hname
    exact ofEntries_eq_error he (addToConfig_eq_error hkey)
  | @formatter items tool hitems htool hless =>
    obtain ⟨⟨k, v⟩, he, hname, hvalue⟩ := exists_mem_of_forall₂ h hitems
    refine ofEntries_eq_error he fun c => ?_
    simp only [addToConfig, hname]
    exact bind_eq_error_of_left (listOf_eq_error hvalue htool fun u hu => toolOf_eq_error hu hless)
  | @commit w hw hmode =>
    obtain ⟨⟨k, v⟩, he, hname, hvalue⟩ := exists_mem_of_forall₂ h hw
    refine ofEntries_eq_error he fun c => ?_
    simp only [addToConfig, hname]
    exact bind_eq_error_of_left (commitOf_eq_error hvalue hmode)

/-- A text is rejected if none of the entries that can be read in it make a configuration. -/
theorem read_eq_error {s : String}
    (h : ∀ es, readDocument s.toList = .ok es → ∃ f, ofEntries es = .error f) :
    ∃ f, read s path = .error (.configParsing path s.toList f) := by
  obtain ⟨f, hf⟩ := bind_eq_error h
  exact ⟨f, by rw [read, hf]⟩

end Strict

/-- A configuration is read as it is written: with the values of its lines, in whatever order they and
the pairs of its formatters are, and whether the formatters are in a pair or in tables of their own.
With another key at the top, whatever stands there, with something in the place of a formatter that is
none, or with another mode it is rejected. -/
theorem read_write (path : Files.Path) :
    (∀ lines tables, Distinct lines tables → ∃ c, read (write lines tables) path = .ok c ∧
        c.source = some path ∧ Decoded lines tables c ∧ Used lines tables c) ∧
      (∀ pairs tools, Improper (sheetPairs pairs "formatter" tools) →
        ∃ f, read (text pairs tools) path = .error (.configParsing path (text pairs tools).toList f)) ∧
      ∀ rows, (∃ key ∈ topKeys false rows, key ∉ fields) →
        ∃ f, read (String.ofList (writeRows rows)) path =
          .error (.configParsing path (writeRows rows) f) := by
  refine ⟨fun lines tables h => ?_, fun pairs tools hps => ?_, fun rows => ?_⟩
  · have hdecoded := decoded_of_distinct h
    have hsource : Decoded lines tables { ofLines lines tables with source := some path } :=
      ⟨hdecoded.suffix, hdecoded.exclude, hdecoded.strip, hdecoded.commit, hdecoded.formatters⟩
    exact ⟨_, read_write_eq h path, rfl, hsource, used_of_decoded hsource⟩
  · refine read_eq_error fun es hes => ?_
    rw [text, String.toList_ofList] at hes
    exact ofEntries_eq_error_of_improper ((gives_sheet pairs "formatter" tools).holds es hes) hps
  · rintro ⟨key, hkey, hnew⟩
    have hread : ∃ f, read (String.ofList (writeRows rows)) path =
        .error (.configParsing path (String.ofList (writeRows rows)).toList f) := by
      refine read_eq_error fun es hes => ?_
      rw [String.toList_ofList] at hes
      obtain ⟨e, he, rfl⟩ := List.mem_map.1 (topKeys_subset_of_readDocument hes hkey)
      exact ofEntries_eq_error he (addToConfig_eq_error hnew)
    rwa [String.toList_ofList] at hread

/-- A configuration without exclusions, with its keys and those of a formatter out of their usual
order, and two others with a key that is not known. -/
theorem read_write_looseOrder :
    (∃ c, read (write [.commit .staged, .exclude [], .suffix ".\"x\"\n"]
          [⟨"gofumpt", some ["-w", "-extra"], true⟩, ⟨"gci", none, false⟩]) (.ofString "a.toml") =
        .ok c ∧ c.suffix = some ".\"x\"\n" ∧ c.strip = none ∧ c.settings.commit = .staged ∧
      c.settings.exclusions = .none ∧ c.tools = [⟨"gofumpt", ["-w", "-extra"]⟩, ⟨"gci", []⟩]) ∧
    (∃ f, read (text [("suffix", .string ".x.go"), ("source", .string "b.toml")] [])
      (.ofString "a.toml") = .error f) ∧
    ∃ f, read (String.ofList (writeRows [.header true "formatters", .pair "program" (.string "gci")]))
      (.ofString "a.toml") = .error f := by
  obtain ⟨hread, himproper, htop⟩ := read_write (.ofString "a.toml")
  obtain ⟨c, hc, -, hdecoded, hused⟩ := hread
    [.commit .staged, .exclude [], .suffix ".\"x\"\n"]
    [⟨"gofumpt", some ["-w", "-extra"], true⟩, ⟨"gci", none, false⟩]
    (by unfold Distinct; decide)
  refine ⟨⟨c, hc, (hdecoded.suffix _).2 (by simp), ?_, hused.commit _ (by simp),
    hused.exclude_nil (by simp), hused.tools (by simp)⟩, ?_, ?_⟩
  · exact eq_none_of_forall hdecoded.strip (by simp)
  · obtain ⟨f, hf⟩ := himproper [("suffix", .string ".x.go"), ("source", .string "b.toml")] []
      (.key (p := ("source", .string "b.toml")) (by simp [sheetPairs]) (by decide))
    exact ⟨_, hf⟩
  · obtain ⟨f, hf⟩ := htop [.header true "formatters", .pair "program" (.string "gci")]
      ⟨"formatters", by simp [topKeys], by decide⟩
    exact ⟨_, hf⟩

end StructProjection.Config
