import StructProjection.Proofs.Batch.Phases
import StructProjection.Proofs.Files.Walk

/-! # A batch that ends at the first file that fails -/

namespace StructProjection

open Text Files Go

variable {s : Settings} {a : Access} {t u v : Tree} {p : Progress} {f : Found} {fs : List Found}
  {e : Failure} {text output : String}

/-- The files are projected and hold their projections. -/
def Written (s : Settings) (a : Access) (t : Tree) (files : List Found) (u : Tree) : Prop :=
  ∀ g ∈ files, ∃ text output, Succeeds s a t g text output ∧
    u.content g.location = some output.toUTF8

/-- All files are projected and written; nothing else has changed. -/
structure Completed (s : Settings) (a : Access) (t : Tree) (files : List Found) (u : Tree) :
    Prop where
  written : Written s a t files u
  elsewhere : ∀ l, (∀ g ∈ files, l ≠ g.location) → Tree.SameAt l t u

/-- The files before a file are projected and written, and the file has failed; nothing else has
changed. -/
structure StoppedAt (s : Settings) (a : Access) (t : Tree) (before : List Found) (f : Found)
    (e : Failure) (u : Tree) : Prop where
  written : Written s a t before u
  failed : ∃ left, Fails s a t f e left ∧ u.content f.location = left
  elsewhere : ∀ l, l ≠ f.location → (∀ g ∈ before, l ≠ g.location) → Tree.SameAt l t u

section Cons

variable (hs : Succeeds s a t f text output) (hc : v.content f.location = some output.toUTF8)
  (hv : ∀ l, l ≠ f.location → Tree.SameAt l t v)

include hs hc hv

private theorem Written.cons (h : Written s a v fs u) (hn : ∀ g ∈ fs, g.location ≠ f.location)
    (hu : Tree.SameAt f.location v u) : Written s a t (f :: fs) u := by
  intro g hg
  rcases List.mem_cons.mp hg with rfl | hg
  · exact ⟨text, output, hs, hu.content.trans hc⟩
  · obtain ⟨text', output', hs', hc'⟩ := h g hg
    exact ⟨text', output', hs'.of_sameAt (hv _ (hn g hg)), hc'⟩

private theorem Completed.cons (h : Completed s a v fs u)
    (hn : ∀ g ∈ fs, g.location ≠ f.location) : Completed s a t (f :: fs) u where
  written := h.written.cons hs hc hv hn (h.elsewhere _ fun g hg => (hn g hg).symm)
  elsewhere l hl :=
    (hv l (hl f (by simp))).trans (h.elsewhere l fun g hg => hl g (List.mem_cons_of_mem _ hg))

private theorem StoppedAt.cons {before : List Found} {g : Found} (h : StoppedAt s a v before g e u)
    (hn : ∀ g ∈ before, g.location ≠ f.location) (hg : g.location ≠ f.location) :
    StoppedAt s a t (f :: before) g e u where
  written := h.written.cons hs hc hv hn (h.elsewhere _ hg.symm fun g hg => (hn g hg).symm)
  failed := by
    obtain ⟨left, hf, hl⟩ := h.failed
    exact ⟨left, hf.of_sameAt (hv _ hg), hl⟩
  elsewhere l hlg hl :=
    (hv l (hl f (by simp))).trans
      (h.elsewhere l hlg fun g hg => hl g (List.mem_cons_of_mem _ hg))

end Cons

/-- The files are handled one after the other up to the first that fails. -/
theorem runFailFast_cases (hd : s.dryRun = false) (a : Access) (p : Progress)
    (hn : (fs.map (·.location)).Nodup) :
    (∃ p', runFailFast s a p fs = (p', none) ∧ Completed s a p.tree fs p'.tree ∧ Quiet p p') ∨
      ∃ before f after p' e, fs = before ++ f :: after ∧ runFailFast s a p fs = (p', some e) ∧
        StoppedAt s a p.tree before f e p'.tree ∧ Quiet p p' := by
  induction fs generalizing p with
  | nil => exact .inl ⟨p, rfl, ⟨by simp [Written], fun l _ => .refl l _⟩, .refl p⟩
  | cons f fs ih =>
    rw [List.map_cons, List.nodup_cons] at hn
    -- What is written here is not seen by the files behind, for they lie elsewhere.
    have hne : ∀ g ∈ fs, g.location ≠ f.location := fun g hg hgf =>
      hn.1 (List.mem_map.mpr ⟨g, hg, hgf⟩)
    rcases handle_cases hd a p f with
      ⟨p₁, text, output, hh, hs, hc, hst⟩ | ⟨p₁, e, left, hh, hf, hc, hst⟩
    · have hrun := runFailFast_of_handled fs hh
      rcases ih p₁ hn.2 with ⟨p', hr, hcm, hq⟩ | ⟨before, g, after, p', e, rfl, hr, hat, hq⟩
      · exact .inl ⟨p', hrun.trans hr, hcm.cons hs hc hst.elsewhere hne, hst.quiet.trans hq⟩
      · refine .inr ⟨f :: before, g, after, p', e, rfl, hrun.trans hr, ?_, hst.quiet.trans hq⟩
        exact hat.cons hs hc hst.elsewhere (fun x hx => hne x (by simp [hx])) (hne g (by simp))
    · obtain ⟨p', hr, ht, hq⟩ := runFailFast_of_failed fs hh
      refine .inr ⟨[], f, fs, p', e, rfl, hr, ?_, hst.quiet.trans hq⟩
      rw [ht]
      exact ⟨by simp [Written], ⟨left, hf, hc⟩, fun l hl _ => hst.elsewhere l hl⟩

section Run

variable {root : Path} {found : List Found} {p' : Progress} (hs : s.fault? = none)
  (hc : s.commit = .failFast) (hf : findFiles t root = .ok found)

include hs hc hf

private theorem runBatch_of_completed (hd : s.dryRun = false) (formatters : List Formatter)
    (h : runFailFast s a (selected s root t found) (Selection.ofFound s found).files = (p', none)) :
    runBatch s formatters a root t =
      (runFormatters root p' formatters).1.outcome (runFormatters root p' formatters).2 := by
  rw [selected] at h
  simp only [runBatch, hs, hf, hc, h]
  rw [hd]
  rfl

private theorem runBatch_of_stopped (formatters : List Formatter)
    (h : runFailFast s a (selected s root t found) (Selection.ofFound s found).files = (p', some e)) :
    runBatch s formatters a root t = p'.outcome (some e) := by
  rw [selected] at h
  simp only [runBatch, hs, hf, hc, h]

end Run

/-- A fail-fast batch ends at the first file that cannot be read, projected or written, and calls
no formatter. The files before it hold their projections. What is left in the file itself is said by
`Fails`; all others are as they were. If no file fails, the batch goes on to the formatters. -/
theorem runBatch_failFast {root : Path} {x : Selection} (ht : t.Proper) (hs : s.fault? = none)
    (hc : s.commit = .failFast) (hd : s.dryRun = false) (hx : select t root s = .ok x)
    (a : Access) :
    (∃ before f after e o, x.files = before ++ f :: after ∧
        (∀ formatters, runBatch s formatters a root t = o) ∧ Unformatted o.events ∧
        o.result = .error e ∧ e.path? = some f.path ∧
        (∀ g ∈ before, ∀ e left, ¬ Fails s a t g e left) ∧ StoppedAt s a t before f e o.tree ∧
        ∀ g ∈ after, o.tree.content g.location = t.content g.location) ∨
      ∃ p, Completed s a t x.files p.tree ∧ ∀ formatters,
        runBatch s formatters a root t =
          (runFormatters root p formatters).1.outcome (runFormatters root p formatters).2 := by
  have hn := nodup_selected ht hx
  unfold select at hx
  cases hf : findFiles t root with
  | error e => simp [hf, Except.map] at hx
  | ok found =>
    simp only [hf, Except.map, Except.ok.injEq] at hx
    subst hx
    rcases runFailFast_cases hd a (selected s root t found) hn with
      ⟨p', hr, hcm, -⟩ | ⟨before, f, after, p', e, hfs, hr, hat, events, hev, hu⟩
    · exact .inr ⟨p', hcm, fun formatters => runBatch_of_completed hs hc hf hd formatters hr⟩
    · obtain ⟨left, hfail, -⟩ := hat.failed
      have hev' : Unformatted p'.events := by
        rw [hev]
        exact unformatted_append (unformatted_selected s root t found) hu
      refine .inl ⟨before, f, after, e, p'.outcome (some e), hfs,
        fun formatters => runBatch_of_stopped hs hc hf formatters hr, hev', rfl, hfail.path?_eq,
        ?_, hat, ?_⟩
      · intro g hg e left hge
        obtain ⟨text, output, hsucc, -⟩ := hat.written g hg
        exact hge.not_succeeds hsucc
      · intro g hg
        rw [hfs, List.map_append, List.map_cons, List.nodup_middle, List.nodup_cons,
          List.mem_append, List.nodup_append] at hn
        have hgl := List.mem_map_of_mem (f := (·.location)) hg
        refine (hat.elsewhere g.location (fun h => hn.1 (.inr (h ▸ hgl))) fun x hx h => ?_).content
        exact hn.2.2.2 _ (List.mem_map_of_mem hx) _ hgl h.symm

/-- A source file with a declaration that its projection leaves out. -/
def message : String := "package x\n\ntype A struct{}\n\ntype B int\n"

def keptMessage : String := "package x\n\ntype A struct{}\n"

theorem keptMessage_ne_message : keptMessage ≠ message := by decide +kernel

theorem project_message : project message .none = .ok keptMessage := by
  have ho : outline message = .ok
      ⟨none, [⟨.packageClause, ⟨0, 0⟩, ⟨9, 0⟩, none, []⟩,
        ⟨.declaration .type, ⟨11, 2⟩, ⟨26, 2⟩, none, [⟨"A", .struct⟩]⟩,
        ⟨.declaration .type, ⟨28, 4⟩, ⟨38, 4⟩, none, [⟨"B", .other⟩]⟩]⟩ :=
    outline_of_plain (by decide +kernel) (by decide +kernel)
  rw [project, projectWith, ho]
  decide +kernel

def messageName (letter : UInt8) : Name := letter :: [0x2E, 0x70, 0x62, 0x2E, 0x67, 0x6F]

def messageFile (letter : UInt8) : Found :=
  ⟨⟨[0x2E, 0x2F] ++ messageName letter⟩, [messageName letter], messageName letter⟩

/-- Three messages in a folder. -/
def messages : Tree :=
  ⟨[(messageName 0x61, .file message.toUTF8), (messageName 0x62, .file message.toUTF8),
    (messageName 0x63, .file message.toUTF8)]⟩

theorem findFiles_messages : findFiles messages ⟨[0x2E]⟩ =
    .ok [messageFile 0x61, messageFile 0x62, messageFile 0x63] := by
  have hr : messages.resolve ⟨[0x2E]⟩ false = .ok [] := by decide +kernel
  have hw : messages.walk ⟨[0x2E]⟩ =
      .ok (Entry.files ⟨[0x2E]⟩ [] (Path.fileName ⟨[0x2E]⟩) messages.root) := by
    rw [Tree.walk, hr]
    rfl
  rw [findFiles, hw, Tree.root, Entry.files_folder_of_sorted _ _ _ (by decide +kernel)]
  refine congrArg Except.ok ?_
  decide +kernel

theorem select_messages : select messages ⟨[0x2E]⟩ { strip := .none } =
    .ok ⟨[messageFile 0x61, messageFile 0x62, messageFile 0x63], []⟩ := by
  rw [select_of_found _ findFiles_messages]
  refine congrArg Except.ok ?_
  decide +kernel

theorem proper_messages : messages.Proper :=
  .folder (by decide +kernel) (by simp [messages, Entry.Proper.file])

theorem projects_messages {letter : UInt8} (hl : letter ∈ [0x61, 0x62, 0x63])
    (hs : s.strip = .none) (ha : a.unreadable [messageName letter] = none) :
    Projects s a messages (messageFile letter) message keptMessage := by
  have hat : messages.at? [messageName letter] = some (.file message.toUTF8) := by
    simp only [List.mem_cons, List.not_mem_nil, or_false] at hl
    rcases hl with rfl | rfl | rfl <;> rfl
  refine ⟨?_, hs ▸ project_message⟩
  rw [Tree.read, messageFile, hat]
  dsimp only
  rw [ha]

/-- Room for the beginning of the second message only. -/
def narrow : Access :=
  { Access.free with room := fun l => if l = [messageName 0x62] then some 20 else none }

/-- The first message is written, the second cut off, and the third left alone. -/
theorem runBatch_cutOff :
    ∃ o, (∀ formatters, runBatch { strip := .none } formatters narrow ⟨[0x2E]⟩ messages = o) ∧
      o.result = .error (.writing (messageFile 0x62).path .tooLarge) ∧
      o.tree.content [messageName 0x61] = some keptMessage.toUTF8 ∧
      o.tree.content [messageName 0x62] = some (keptMessage.toUTF8.extract 0 20) ∧
      o.tree.content [messageName 0x63] = some message.toUTF8 := by
  have hproject := project_message
  have hchanged : keptMessage ≠ message := by decide +kernel
  have hwritten : Succeeds { strip := .none } narrow messages (messageFile 0x61) message
      keptMessage :=
    { read := rfl
      projected := hproject
      written := fun _ => ⟨rfl, by simp [narrow, messageFile, messageName]⟩ }
  have hcut : Fails { strip := .none } narrow messages (messageFile 0x62)
      (.writing (messageFile 0x62).path .tooLarge) (some (keptMessage.toUTF8.extract 0 20)) :=
    .cutOff ⟨rfl, hproject⟩ hchanged rfl rfl (by decide +kernel)
  rcases runBatch_failFast proper_messages (by decide +kernel) rfl rfl select_messages narrow with
    ⟨before, f, after, e, o, hfs, ho, -, hr, -, hfirst, hat, hafter⟩ | ⟨p, hp, -⟩
  · cases before with
    | nil =>
      obtain ⟨rfl, -⟩ := List.cons.inj hfs
      obtain ⟨left, hfail, -⟩ := hat.failed
      exact absurd hwritten hfail.not_succeeds
    | cons g before =>
      obtain ⟨rfl, hrest⟩ := List.cons.inj hfs
      cases before with
      | nil =>
        obtain ⟨rfl, rfl⟩ := List.cons.inj hrest
        obtain ⟨left, hfail, hleft⟩ := hat.failed
        obtain ⟨rfl, rfl⟩ := hcut.unique hfail
        obtain ⟨text, output, hs, hc⟩ := hat.written (messageFile 0x61) (by simp)
        obtain ⟨rfl, rfl⟩ := hwritten.toProjects.unique hs.toProjects
        exact ⟨o, ho, hr, hc, hleft, hafter (messageFile 0x63) (by simp)⟩
      | cons g before =>
        obtain ⟨rfl, -⟩ := List.cons.inj hrest
        exact absurd hcut (hfirst _ (by simp) _ _)
  · obtain ⟨text, output, hs, -⟩ := hp.written (messageFile 0x62) (by simp)
    exact absurd hs hcut.not_succeeds

end StructProjection
