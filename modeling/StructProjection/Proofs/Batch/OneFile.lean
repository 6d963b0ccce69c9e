import StructProjection.Batch
import StructProjection.Proofs.Files.Content

/-! # Projecting and writing one file -/

namespace StructProjection

open Text Files Go

variable {s : Settings} {a : Access} {t u : Tree} {p : Progress} {f : Found} {e : Failure}
  {text output : String} {left : Option ByteArray}

/-- The file holds a text that has a projection. -/
structure Projects (s : Settings) (a : Access) (t : Tree) (f : Found) (text output : String) :
    Prop where
  read : t.read a f.location = .ok text.toUTF8
  projected : project text s.strip = .ok output

/-- The file has no projection. -/
inductive Unprojectable (s : Settings) (a : Access) (t : Tree) (f : Found) : Failure → Prop
  | unreadable {r : Refusal} (refused : t.read a f.location = .error r) :
      Unprojectable s a t f (.reading f.path r)
  | notText {content : ByteArray} (read : t.read a f.location = .ok content)
      (bad : String.fromUTF8? content = none) : Unprojectable s a t f (.encoding f.path)
  | notParsable {text : String} {d : Diagnostic} (read : t.read a f.location = .ok text.toUTF8)
      (bad : project text s.strip = .error d) : Unprojectable s a t f (.parsing f.path d)

/-- The file is projected, and written if that changes it. -/
structure Succeeds (s : Settings) (a : Access) (t : Tree) (f : Found) (text output : String) : Prop
    extends Projects s a t f text output where
  written : output ≠ text → a.Takes f.location output.toUTF8

/-- The failure that the file causes, and what is left in it. -/
inductive Fails (s : Settings) (a : Access) (t : Tree) (f : Found) :
    Failure → Option ByteArray → Prop
  | unprojectable {e : Failure} (h : Unprojectable s a t f e) :
      Fails s a t f e (t.content f.location)
  | notOpened {text output : String} {r : Refusal} (h : Projects s a t f text output)
      (changed : output ≠ text) (refused : a.unwritable f.location = some r) :
      Fails s a t f (.writing f.path r) (t.content f.location)
  | cutOff {text output : String} {n : Nat} (h : Projects s a t f text output)
      (changed : output ≠ text) (opened : a.unwritable f.location = none)
      (room : a.room f.location = some n) (short : n < output.toUTF8.size) :
      Fails s a t f (.writing f.path .tooLarge) (some (output.toUTF8.extract 0 n))

theorem Projects.unique {text' output' : String} (h : Projects s a t f text output)
    (h' : Projects s a t f text' output') : text' = text ∧ output' = output := by
  have hr := Except.ok.inj (h'.read.symm.trans h.read)
  have ht : text' = text := String.toByteArray_inj.mp hr
  subst ht
  exact ⟨rfl, Except.ok.inj (h'.projected.symm.trans h.projected)⟩

theorem fromUTF8?_toUTF8 (text : String) : String.fromUTF8? text.toUTF8 = some text := by
  exact dif_pos text.isValidUTF8

theorem toUTF8_of_fromUTF8? {content : ByteArray} (h : String.fromUTF8? content = some text) :
    content = text.toUTF8 := by
  unfold String.fromUTF8? at h
  split at h
  · obtain rfl := Option.some.inj h
    rfl
  · simp at h

theorem Unprojectable.not_projects (h : Unprojectable s a t f e) :
    ¬ Projects s a t f text output := by
  intro hp
  cases h with
  | unreadable refused =>
    rw [hp.read] at refused
    simp at refused
  | notText read bad =>
    rw [hp.read] at read
    obtain rfl := Except.ok.inj read
    rw [fromUTF8?_toUTF8] at bad
    simp at bad
  | notParsable read bad =>
    rw [hp.read] at read
    obtain rfl := String.toByteArray_inj.mp (Except.ok.inj read)
    rw [hp.projected] at bad
    simp at bad

theorem Fails.not_succeeds (h : Fails s a t f e left) : ¬ Succeeds s a t f text output := by
  intro hs
  cases h with
  | unprojectable h => exact h.not_projects hs.toProjects
  | notOpened h changed refused =>
    obtain ⟨rfl, rfl⟩ := hs.toProjects.unique h
    rw [(hs.written changed).opened] at refused
    simp at refused
  | cutOff h changed opened room short =>
    obtain ⟨rfl, rfl⟩ := hs.toProjects.unique h
    have hn := (hs.written changed).room _ room
    omega

theorem Unprojectable.unique {e' : Failure} (h : Unprojectable s a t f e)
    (h' : Unprojectable s a t f e') : e' = e := by
  cases h with
  | unreadable refused =>
    cases h' with
    | unreadable refused' => rw [Except.error.inj (refused'.symm.trans refused)]
    | notText read => simp [read] at refused
    | notParsable read => simp [read] at refused
  | notText read bad =>
    cases h' with
    | unreadable refused => simp [read] at refused
    | notText _ _ => rfl
    | notParsable read' =>
      obtain rfl := Except.ok.inj (read'.symm.trans read)
      rw [fromUTF8?_toUTF8] at bad
      simp at bad
  | notParsable read bad =>
    cases h' with
    | unreadable refused => simp [read] at refused
    | notText read' bad' =>
      obtain rfl := Except.ok.inj (read'.symm.trans read)
      rw [fromUTF8?_toUTF8] at bad'
      simp at bad'
    | notParsable read' bad' =>
      obtain rfl := String.toByteArray_inj.mp (Except.ok.inj (read'.symm.trans read))
      rw [Except.error.inj (bad'.symm.trans bad)]

theorem Fails.unique {e' : Failure} {left' : Option ByteArray} (h : Fails s a t f e left)
    (h' : Fails s a t f e' left') : e' = e ∧ left' = left := by
  cases h with
  | unprojectable h =>
    cases h' with
    | unprojectable h' => exact ⟨h.unique h', rfl⟩
    | notOpened h' => exact absurd h' h.not_projects
    | cutOff h' => exact absurd h' h.not_projects
  | notOpened h changed refused =>
    cases h' with
    | unprojectable h' => exact absurd h h'.not_projects
    | notOpened h' _ refused' =>
      obtain rfl := Option.some.inj (refused'.symm.trans refused)
      exact ⟨rfl, rfl⟩
    | cutOff _ _ opened => simp [opened] at refused
  | cutOff h changed opened room short =>
    cases h' with
    | unprojectable h' => exact absurd h h'.not_projects
    | notOpened _ _ refused => simp [opened] at refused
    | cutOff h' _ _ room' =>
      obtain ⟨rfl, rfl⟩ := h.unique h'
      obtain rfl := Option.some.inj (room'.symm.trans room)
      exact ⟨rfl, rfl⟩

theorem Unprojectable.path?_eq (h : Unprojectable s a t f e) : e.path? = some f.path := by
  cases h <;> rfl

theorem Fails.path?_eq (h : Fails s a t f e left) : e.path? = some f.path := by
  cases h with
  | unprojectable h => exact h.path?_eq
  | _ => rfl

/-- What is said of a file depends on what is in it only. -/
theorem Projects.of_sameAt (h : Tree.SameAt f.location t u) (hp : Projects s a u f text output) :
    Projects s a t f text output := ⟨(h a).symm.trans hp.read, hp.projected⟩

theorem Succeeds.of_sameAt (h : Tree.SameAt f.location t u) (hs : Succeeds s a u f text output) :
    Succeeds s a t f text output := ⟨hs.toProjects.of_sameAt h, hs.written⟩

theorem Unprojectable.of_sameAt (h : Tree.SameAt f.location t u) (hu : Unprojectable s a u f e) :
    Unprojectable s a t f e := by
  cases hu with
  | unreadable refused => exact .unreadable ((h a).symm.trans refused)
  | notText read bad => exact .notText ((h a).symm.trans read) bad
  | notParsable read bad => exact .notParsable ((h a).symm.trans read) bad

theorem Fails.of_sameAt (h : Tree.SameAt f.location t u) (hf : Fails s a u f e left) :
    Fails s a t f e left := by
  cases hf with
  | unprojectable hu =>
    rw [h.content]
    exact .unprojectable (hu.of_sameAt h)
  | notOpened hp changed refused =>
    rw [h.content]
    exact .notOpened (hp.of_sameAt h) changed refused
  | cutOff hp changed opened room short => exact .cutOff (hp.of_sameAt h) changed opened room short

/-- No formatter is mentioned. -/
def Unformatted (events : List Event) : Prop := ∀ name target, .formatting name target ∉ events

theorem unformatted_append {events more : List Event} (h : Unformatted events)
    (h' : Unformatted more) : Unformatted (events ++ more) := by
  intro name target hm
  rcases List.mem_append.mp hm with hm | hm
  · exact h name target hm
  · exact h' name target hm

/-- Only details are told. -/
def Minor (events : List Event) : Prop :=
  ∀ event ∈ events, event.level = .debug ∨ event.level = .trace

theorem minor_append {events more : List Event} (h : Minor events) (h' : Minor more) :
    Minor (events ++ more) := by
  intro event hm
  rcases List.mem_append.mp hm with hm | hm
  · exact h event hm
  · exact h' event hm

theorem Minor.unformatted {events : List Event} (h : Minor events) : Unformatted events :=
  fun _ _ hm => by simpa [Event.level] using h _ hm

private theorem minor_readingEvents (source : List Char) (o : Outline) :
    Minor (readingEvents source o) := by
  have hh : Minor (headerEvents source o) := by
    unfold headerEvents
    split <;> simp [Minor, Event.level]
  have hd : Minor (declarationEvents source o) := by
    intro event hm
    unfold declarationEvents at hm
    split at hm
    simp only [List.mem_append, List.mem_map] at hm
    rcases hm with ⟨d, -, rfl⟩ | hm
    · exact .inr rfl
    · split at hm
      · simp at hm
      · rcases List.mem_cons.mp hm with rfl | hm
        · exact .inr rfl
        · obtain ⟨d, -, rfl⟩ := List.mem_map.mp hm
          exact .inr rfl
  unfold readingEvents
  split
  · simp [Minor]
  · exact minor_append hh hd

private theorem projectText_eq (strip : StripRules) (text : String) :
    (projectText strip text).2 = project text strip := by
  unfold projectText project projectWith
  cases outline text <;> rfl

private theorem minor_projectText (strip : StripRules) (text : String) :
    Minor (projectText strip text).1 := by
  unfold projectText
  split
  · exact minor_readingEvents _ _
  · simp [Minor]

theorem minor_projectFile (s : Settings) (a : Access) (t : Tree) (f : Found) :
    Minor (projectFile s a t f).1 := by
  unfold projectFile
  split
  · simp [Minor]
  · split
    · simp [Minor]
    · rename_i text _
      have h := minor_projectText s.strip text
      split <;> rename_i hp <;> rw [hp] at h
      · exact h
      · exact minor_append h (by simp [Minor, Event.level])

theorem unformatted_projectFile (s : Settings) (a : Access) (t : Tree) (f : Found) :
    Unformatted (projectFile s a t f).1 := (minor_projectFile s a t f).unformatted

/-- A file either has no projection, or it is projected. -/
theorem projectFile_cases (s : Settings) (a : Access) (t : Tree) (f : Found) :
    (∃ e, (projectFile s a t f).2 = .error e ∧ Unprojectable s a t f e) ∨
      ∃ text output, (projectFile s a t f).2 = .ok ⟨f, output, decide (output ≠ text)⟩ ∧
        Projects s a t f text output := by
  unfold projectFile
  split
  · next hr => exact .inl ⟨_, rfl, .unreadable hr⟩
  · next content hr =>
    split
    · next hu => exact .inl ⟨_, rfl, .notText hr hu⟩
    · next text hu =>
      rw [toUTF8_of_fromUTF8? hu] at hr
      have hp := projectText_eq s.strip text
      split <;> rename_i ht <;> rw [ht] at hp
      · exact .inl ⟨_, rfl, .notParsable hr hp.symm⟩
      · exact .inr ⟨text, _, rfl, hr, hp.symm⟩

/-- Between the two states no formatter has been called. -/
def Quiet (p p' : Progress) : Prop := ∃ events, p'.events = p.events ++ events ∧ Unformatted events

namespace Quiet

theorem refl (p : Progress) : Quiet p p := ⟨[], by simp, by simp [Unformatted]⟩

theorem emit {events : List Event} (p : Progress) (h : Unformatted events) :
    Quiet p (p.emit events) := ⟨events, rfl, h⟩

theorem trans {p p' p'' : Progress} (h : Quiet p p') (h' : Quiet p' p'') : Quiet p p'' := by
  obtain ⟨events, he, hu⟩ := h
  obtain ⟨more, hm, hu'⟩ := h'
  exact ⟨events ++ more, by simp [he, hm], unformatted_append hu hu'⟩

end Quiet

/-- What a batch does at a file leaves all others as they are, and calls no formatter. -/
structure Step (f : Found) (p p' : Progress) : Prop where
  elsewhere : ∀ l, l ≠ f.location → Tree.SameAt l p.tree p'.tree
  quiet : Quiet p p'

private theorem commit_unchanged (s : Settings) (a : Access) (p : Progress) (f : Found)
    (text : String) :
    commit s a p ⟨f, text, decide (text ≠ text)⟩ =
      ({ p with report := { p.report with unchanged := p.report.unchanged ++ [f.path] } }, none) := by
  simp [commit]

private theorem commit_changed (hd : s.dryRun = false) (hx : output ≠ text)
    (h : p.tree.overwrite a f.location output.toUTF8 = (u, none)) :
    commit s a p ⟨f, output, decide (output ≠ text)⟩ =
      ({ p with
          tree := u
          report := { p.report with projected := p.report.projected ++ [f.path] } }, none) := by
  rw [commit, decide_eq_true hx, hd]
  simp only [Bool.not_true, Bool.false_eq_true, if_false, h]

private theorem commit_refused {r : Refusal} (hd : s.dryRun = false) (hx : output ≠ text)
    (h : p.tree.overwrite a f.location output.toUTF8 = (u, some r)) :
    commit s a p ⟨f, output, decide (output ≠ text)⟩ =
      ({ p with tree := u }, some (.writing f.path r)) := by
  rw [commit, decide_eq_true hx, hd]
  simp only [Bool.not_true, Bool.false_eq_true, if_false, h]

/-- A projection is written in full or not at all, or it is cut off. -/
theorem commit_cases (hd : s.dryRun = false) (h : Projects s a p.tree f text output) :
    (∃ p', commit s a p ⟨f, output, decide (output ≠ text)⟩ = (p', none) ∧
        Succeeds s a p.tree f text output ∧ p'.tree.content f.location = some output.toUTF8 ∧
        Step f p p') ∨
      ∃ p' e left, commit s a p ⟨f, output, decide (output ≠ text)⟩ = (p', some e) ∧
        Fails s a p.tree f e left ∧ p'.tree.content f.location = left ∧ Step f p p' := by
  have hr := Tree.content_of_read h.read
  have hc : p.tree.content f.location ≠ none := by simp [hr]
  have hq : Quiet p p := .refl p
  by_cases hx : output = text
  · subst hx
    rw [commit_unchanged]
    exact .inl ⟨_, rfl, ⟨h, fun hn => absurd rfl hn⟩, hr, fun l _ => .refl l _, hq⟩
  · have hw := fun c l (hl : l ≠ f.location) => Tree.sameAt_setContent hl p.tree c
    have hs := Tree.content_setContent_self hc
    rcases Tree.overwrite_cases hc a output.toUTF8 with
      ⟨ho, ht⟩ | ⟨r, ho, hr⟩ | ⟨n, ho, hr, hn, hlt⟩
    · exact .inl ⟨_, commit_changed hd hx ho, ⟨h, fun _ => ht⟩, hs _, hw _, hq⟩
    · exact .inr ⟨_, _, _, commit_refused hd hx ho, .notOpened h hx hr, rfl,
        fun l _ => .refl l _, hq⟩
    · exact .inr ⟨_, _, _, commit_refused hd hx ho, .cutOff h hx hr hn hlt, hs _, hw _, hq⟩

theorem Step.of_emit {p p' : Progress} {events : List Event} (h : Step f (p.emit events) p')
    (he : Unformatted events) : Step f p p' :=
  ⟨h.elsewhere, (Quiet.emit p he).trans h.quiet⟩

/-- A file is either projected and written in full, or it fails. -/
theorem handle_cases (hd : s.dryRun = false) (a : Access) (p : Progress) (f : Found) :
    (∃ p' text output, handle s a p f = (p', none) ∧ Succeeds s a p.tree f text output ∧
        p'.tree.content f.location = some output.toUTF8 ∧ Step f p p') ∨
      ∃ p' e left, handle s a p f = (p', some e) ∧ Fails s a p.tree f e left ∧
        p'.tree.content f.location = left ∧ Step f p p' := by
  have hu := unformatted_projectFile s a p.tree f
  cases hf : projectFile s a p.tree f with
  | mk events result =>
    have hc := projectFile_cases s a p.tree f
    rw [hf] at hu hc
    rcases hc with ⟨e, rfl, he⟩ | ⟨text, output, rfl, hp⟩
    · have hh : handle s a p f = (p.emit events, some e) := by rw [handle, hf]
      exact .inr ⟨_, e, _, hh, .unprojectable he, rfl, fun l _ => .refl l _, .emit p hu⟩
    · have hh : handle s a p f =
          commit s a (p.emit events) ⟨f, output, decide (output ≠ text)⟩ := by rw [handle, hf]
      rw [hh]
      rcases commit_cases (p := p.emit events) hd hp with
        ⟨p', h, hs, ht, hst⟩ | ⟨p', e, left, h, hs, ht, hst⟩
      · exact .inl ⟨p', text, output, h, hs, ht, hst.of_emit hu⟩
      · exact .inr ⟨p', e, left, h, hs, ht, hst.of_emit hu⟩

end StructProjection
