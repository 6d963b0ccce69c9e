import StructProjection.Command.Run
import StructProjection.Proofs.Batch.DryRun
import StructProjection.Proofs.Command.Arguments

/-! # A listing names the files that a dry run considers

A listing takes settings that a batch cannot work with. With all others, a dry run in its place
considers the files that have been listed, and fails only over one of them.
-/

namespace StructProjection.Command

open Files

variable {s : Settings} {formatters : List Formatter} {programs : Shell.Programs} {call : Call}
  {a : Arguments} {t : Tree} {access : Access} {root : Path} {e : Failure} {config : Config}
  {lines : List Line} {x : Selection}

def Line.text? : Line → Option String
  | .text s => some s
  | .event _ => none

/-- What is printed apart from events. -/
def Response.printed (r : Response) : List String := r.lines.filterMap Line.text?

/-- A batch has failed, and that is what is complained of in the end. -/
def Response.FailsWith (r : Response) (root : Path) (e : Failure) : Prop :=
  r.code = 1 ∧ ∃ before,
    r.errors = before ++ (troubleOf s!"Projection failed under {root.render}" e).render

/-- What a dry run comes to, seen from the files that it considers. -/
inductive DryRunOf (s : Settings) (a : Access) (t : Tree) (root : Path) (files : List Found)
    (r : Response) : Prop
  /-- A batch cannot work with the settings. -/
  | rejected {fault : SettingsFault} (hs : s.fault? = some fault)
      (fails : r.FailsWith root (.settings fault))
  /-- The report names all of the files, and of each whether it would change. -/
  | reported {xs : List Projected} {report : Report} (hs : s.fault? = none)
      (projected : List.Forall₂ (StagedAs s a t) files xs)
      (result : ∀ formatters, (runBatch s formatters a root t).result = .ok report)
      (changed : report.projected = (xs.filter (·.changed)).map (·.file.path))
      (unchanged : report.unchanged = (xs.filter (!·.changed)).map (·.file.path))
      (code : r.code = 0)
      (printed : r.printed = report.projected.map fun p => s!"Would rewrite {p.render}")
  /-- One of the files cannot be read, is no text or does not parse. -/
  | failed {f : Found} {e : Failure} (hs : s.fault? = none) (mem : f ∈ files)
      (bad : Unprojectable s a t f e)
      (result : ∀ formatters, (runBatch s formatters a root t).result = .error e)
      (fails : r.FailsWith root e)

theorem filterMap_text?_events (events : List Event) :
    (events.map Line.event).filterMap Line.text? = [] := by
  simp [Line.text?]

theorem filterMap_text?_texts {α : Type} (xs : List α) (f : α → String) :
    (xs.map fun x => Line.text (f x)).filterMap Line.text? = xs.map f := by
  simp [List.filterMap_map, Function.comp_def, Line.text?]

theorem filterMap_text?_filter {shown : Line → Bool} (h : ∀ s, shown (.text s) = true)
    (lines : List Line) : (lines.filter shown).filterMap Line.text? = lines.filterMap Line.text? := by
  rw [List.filterMap_filter]
  refine congrArg (List.filterMap · lines) (funext fun l => ?_)
  cases l with
  | event e => simp [Line.text?]
  | text s => simp [h s]

theorem runWith_of_read (programs : Shell.Programs) (t : Tree)
    (ha : Arguments.read call.config call.arguments = .ok a) :
    (runWith programs call t).code = (if (execute programs call a t).2.2.isSome then 1 else 0) ∧
      (runWith programs call t).printed = (execute programs call a t).2.1.filterMap Line.text? ∧
      ∃ before, (runWith programs call t).errors =
        before ++ ((execute programs call a t).2.2.map Trouble.render).getD "" := by
  rw [runWith, ha]
  exact ⟨rfl, filterMap_text?_filter (fun _ => rfl) _, _, rfl⟩

/-- What a listing and a batch have in common: there is something at the path, there is a
configuration, and files are selected. -/
structure Prepared (call : Call) (a : Arguments) (t : Tree) (config : Config) (x : Selection) :
    Prop where
  path : t.pathExists (.ofString a.path) = true
  loaded : (loadConfig call a t).2 = .ok config
  selected : select t (.ofString a.path) (mergeSettings config a) = .ok x

theorem Prepared.asDryRun (h : Prepared call a t config x) (given : List String) :
    Prepared { call with arguments := given } a.asDryRun t config x :=
  ⟨h.path, h.loaded, h.selected⟩

/-! ## Listing -/

theorem execute_listing (h : Prepared call a t config x) (hl : a.listOnly = true)
    (programs : Shell.Programs) :
    (execute programs call a t).2.2 = none ∧
      (execute programs call a t).2.1.filterMap Line.text? = x.files.map (·.path.render) := by
  obtain ⟨found, hf, rfl⟩ := exists_found_of_select h.selected
  have hloaded := h.loaded
  unfold execute
  dsimp only
  rw [if_neg (by simp [h.path])]
  generalize loadConfig call a t = loaded at hloaded ⊢
  obtain ⟨events, loaded⟩ := loaded
  obtain rfl : loaded = .ok config := hloaded
  simp only [hl, if_true, listFiles, hf, true_and]
  rw [List.filterMap_append, List.filterMap_append, List.filterMap_append, filterMap_text?_events,
    filterMap_text?_events, filterMap_text?_texts]
  simp [Line.text?]

theorem exists_prepared_of_execute (hl : a.listOnly = true)
    (h : (execute programs call a t).2.2 = none) : ∃ config x, Prepared call a t config x := by
  unfold execute at h
  dsimp only at h
  split at h
  · simp at h
  · next hp =>
    cases hc : loadConfig call a t with
    | mk events loaded =>
      obtain _ | config := loaded
      · simp [hc] at h
      · simp only [hc, listFiles] at h
        cases hf : findFiles t (.ofString a.path) with
        | error f => simp [hf] at h
        | ok found =>
          exact ⟨config, _, by simpa using hp, by rw [hc], select_of_found _ hf⟩

theorem runWith_listing (h : Prepared call a t config x)
    (ha : Arguments.read call.config call.arguments = .ok a) (hl : a.listOnly = true)
    (programs : Shell.Programs) :
    (runWith programs call t).code = 0 ∧
      (runWith programs call t).printed = x.files.map (·.path.render) := by
  obtain ⟨hcode, hprinted, -⟩ := runWith_of_read programs t ha
  obtain ⟨hnone, hlines⟩ := execute_listing h hl programs
  exact ⟨by simp [hcode, hnone], hprinted.trans hlines⟩

theorem exists_prepared_of_runWith (ha : Arguments.read call.config call.arguments = .ok a)
    (hl : a.listOnly = true) (hcode : (runWith programs call t).code = 0) :
    ∃ config x, Prepared call a t config x := by
  have hnone : (execute programs call a t).2.2 = none := by
    by_contra h
    rw [(runWith_of_read programs t ha).1, if_pos (Option.isSome_iff_ne_none.mpr h)] at hcode
    exact absurd hcode (by decide)
  exact exists_prepared_of_execute hl hnone

/-! ## Running -/

theorem execute_batch (h : Prepared call a t config x) (hl : a.listOnly = false)
    (programs : Shell.Programs) :
    ∃ formatters,
      (execute programs call a t).2.2 =
        (runAll (mergeSettings config a) formatters call.access (.ofString a.path) t).2.2 ∧
      (execute programs call a t).2.1.filterMap Line.text? =
        (runAll (mergeSettings config a) formatters call.access (.ofString a.path) t).2.1.filterMap
          Line.text? := by
  have hloaded := h.loaded
  unfold execute
  dsimp only
  rw [if_neg (by simp [h.path])]
  generalize loadConfig call a t = loaded at hloaded ⊢
  obtain ⟨events, loaded⟩ := loaded
  obtain rfl : loaded = .ok config := hloaded
  simp only [hl, Bool.false_eq_true, if_false]
  refine ⟨_, rfl, ?_⟩
  rw [List.filterMap_append, filterMap_text?_events, List.nil_append]

theorem runAll_of_ok {r : Report} (h : (runBatch s formatters access root t).result = .ok r)
    (hr : r.dryRun = true) :
    (runAll s formatters access root t).2.2 = none ∧
      (runAll s formatters access root t).2.1.filterMap Line.text? =
        r.projected.map fun p => s!"Would rewrite {p.render}" := by
  rw [runAll]
  dsimp only
  rw [h]
  refine ⟨rfl, ?_⟩
  dsimp only
  rw [List.filterMap_append, filterMap_text?_events, reportLines, hr, List.filterMap_append,
    filterMap_text?_texts]
  have hverb : toString "Would rewrite" ++ toString " " = toString "Would rewrite " := by
    decide +kernel
  simp [Line.text?, hverb]

theorem runAll_of_error (h : (runBatch s formatters access root t).result = .error e) :
    (runAll s formatters access root t).2.2 =
      some (troubleOf s!"Projection failed under {root.render}" e) := by
  rw [runAll]
  dsimp only
  rw [h]

theorem runWith_dryRun (ht : t.Proper) (h : Prepared call a t config x)
    (ha : Arguments.read call.config call.arguments = .ok a) (hl : a.listOnly = false)
    (hd : a.dryRun = true) (programs : Shell.Programs) :
    DryRunOf (mergeSettings config a) call.access t (.ofString a.path) x.files
      (runWith programs call t) := by
  obtain ⟨hcode, hprinted, before, herrors⟩ := runWith_of_read programs t ha
  obtain ⟨formatters, htrouble, htexts⟩ := execute_batch h hl programs
  rw [htrouble] at hcode herrors
  have hfails : ∀ e, (runBatch (mergeSettings config a) formatters call.access (.ofString a.path)
      t).result = .error e → (runWith programs call t).FailsWith (.ofString a.path) e := by
    intro e he
    rw [runAll_of_error he] at hcode herrors
    exact ⟨hcode, before, herrors⟩
  cases hs : (mergeSettings config a).fault? with
  | some fault => exact .rejected hs (hfails _ (by rw [runBatch, hs]))
  | none =>
    rcases runBatch_dry_cases ht hs hd h.selected call.access with
      ⟨xs, r, hxs, hr, rfl⟩ | ⟨early, f, late, e, hfiles, -, he, hr⟩
    · obtain ⟨hok, hshown⟩ := runAll_of_ok (hr formatters) rfl
      rw [hok] at hcode
      exact .reported hs hxs hr rfl rfl hcode (hprinted.trans (htexts.trans hshown))
    · exact .failed hs (by simp [hfiles]) he hr (hfails e (hr formatters))

/-- Where a listing comes to its end, a dry run in its place considers the files that it has named.
It comes to its end or fails over one of them, unless a batch cannot work with the settings. -/
theorem listing_dryRun (ht : t.Proper) {before after : List String} (hb : "--" ∉ before)
    (ha : Arguments.read call.config (before ++ "--list-only" :: after) = .ok a)
    (hd : a.dryRun = false) (programs : Shell.Programs)
    (hcode : (runWith programs { call with
      arguments := before ++ "--list-only" :: after } t).code = 0) :
    ∃ config x, (loadConfig call a t).2 = .ok config ∧
      select t (.ofString a.path) (mergeSettings config a) = .ok x ∧
      (runWith programs { call with arguments := before ++ "--list-only" :: after } t).printed =
        x.files.map (·.path.render) ∧
      DryRunOf { mergeSettings config a with dryRun := true } call.access t (.ofString a.path)
        x.files (runWith programs { call with arguments := before ++ "--dry-run" :: after } t) := by
  obtain ⟨hl, ha'⟩ := read_asDryRun hb hd ha
  have hlist : Arguments.read { call with arguments := before ++ "--list-only" :: after }.config
    { call with arguments := before ++ "--list-only" :: after }.arguments = .ok a := ha
  obtain ⟨config, x, h⟩ := exists_prepared_of_runWith hlist hl hcode
  refine ⟨config, x, h.loaded, h.selected, (runWith_listing h hlist hl programs).2, ?_⟩
  exact runWith_dryRun ht (h.asDryRun (before ++ "--dry-run" :: after)) ha' rfl rfl programs

/-- The command in a folder, without anything from elsewhere. -/
def plainCall (given : List String) : Call := ⟨given, none, none, ⟨[0x2F]⟩, .free⟩

theorem prepared_messages (given : List String) (hp : a.path = ".") (hc : a.config = none) :
    Prepared (plainCall given) a messages {} (.ofFound (mergeSettings {} a)
      [messageFile 0x61, messageFile 0x62, messageFile 0x63]) := by
  have hroot : Path.ofString "." = ⟨[0x2E]⟩ := by decide +kernel
  have hload : Config.discover messages .free ⟨[]⟩ ⟨[0x2F]⟩ = .ok {} := by decide +kernel
  refine ⟨?_, by simp [loadConfig, hc, plainCall, hload], ?_⟩
  · rw [hp]
    decide +kernel
  · rw [hp, hroot]
    exact select_of_found _ findFiles_messages

theorem listing_dryRun_messages :
    let listed := run (plainCall ["-v", "--list-only", "--no-format"]) messages
    let dry := run (plainCall ["-v", "--dry-run", "--no-format"]) messages
    listed.printed = ["./a.pb.go", "./b.pb.go", "./c.pb.go"] ∧
      DryRunOf { dryRun := true } .free messages (.ofString ".")
        [messageFile 0x61, messageFile 0x62, messageFile 0x63] dry := by
  intro listed dry
  have hb : "--" ∉ ["-v"] := by decide
  have ha : Arguments.read none (["-v"] ++ "--list-only" :: ["--no-format"]) =
      .ok { noFormat := true, listOnly := true, verbosity := 1 } := by decide +kernel
  have h := prepared_messages ["-v", "--list-only", "--no-format"]
    (a := ⟨".", none, none, [], [], true, false, false, true, 1⟩) rfl rfl
  have hcode : (run { plainCall [] with
      arguments := ["-v"] ++ "--list-only" :: ["--no-format"] } messages).code = 0 :=
    (runWith_listing h ha rfl _).1
  obtain ⟨config, x, hc, hx, hprinted, hdry⟩ :=
    listing_dryRun proper_messages hb ha rfl (Shell.run false) hcode
  obtain rfl : config = {} := Except.ok.inj (hc.symm.trans h.loaded)
  have hfiles : x.files = [messageFile 0x61, messageFile 0x62, messageFile 0x63] := by
    obtain rfl := Except.ok.inj (hx.symm.trans h.selected)
    decide +kernel
  rw [hfiles] at hprinted hdry
  exact ⟨hprinted.trans (by decide +kernel), hdry⟩

/-- A listing takes a suffix with which no batch would begin. -/
theorem listing_emptySuffix :
    let listed := run (plainCall ["--list-only", "--suffix", ""]) messages
    let dry := run (plainCall ["--dry-run", "--suffix", ""]) messages
    listed.code = 0 ∧ listed.printed = ["./a.pb.go", "./b.pb.go", "./c.pb.go"] ∧
      dry.FailsWith (.ofString ".") (.settings .emptySuffix) := by
  intro listed dry
  have ha : Arguments.read none ["--list-only", "--suffix", ""] =
      .ok { suffix := some "", listOnly := true } := by decide +kernel
  have ha' : Arguments.read none ["--dry-run", "--suffix", ""] =
      .ok { suffix := some "", dryRun := true } := by decide +kernel
  have h := prepared_messages ["--list-only", "--suffix", ""]
    (a := ⟨".", none, some "", [], [], false, false, false, true, 0⟩) rfl rfl
  obtain ⟨hcode, hprinted⟩ := runWith_listing h ha rfl (Shell.run false)
  refine ⟨hcode, hprinted.trans (by decide +kernel), ?_⟩
  have hdry := runWith_dryRun proper_messages (h.asDryRun ["--dry-run", "--suffix", ""]) ha' rfl rfl
    (Shell.run false)
  cases hdry with
  | rejected hs fails =>
    obtain rfl : SettingsFault.emptySuffix = _ := Option.some.inj hs
    exact fails
  | reported hs => exact absurd hs (by decide +kernel)
  | failed hs => exact absurd hs (by decide +kernel)

end StructProjection.Command
