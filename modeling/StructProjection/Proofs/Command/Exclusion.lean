import StructProjection.Command.Run
import StructProjection.Proofs.Selection

/-! # Excluding further files

Endings that are given as arguments are excluded besides those of a configuration. They move files
from one list of a selection to the other, and bring none back.
-/

namespace StructProjection

open Files

variable {t : Tree} {root : Path} {s s' : Settings} {found : List Found} {f : Found} {name : Name}
  {endings more : List String}

/-- The name is text that ends with one of the endings. -/
def Files.Name.EndsWithOne (name : Name) (endings : List String) : Prop :=
  ∃ n, name.text? = some n ∧ ∃ ending ∈ endings, ending.toList <:+ n.toList

namespace Files.Name

theorem endsWithOne_append :
    name.EndsWithOne (endings ++ more) ↔ name.EndsWithOne endings ∨ name.EndsWithOne more := by
  constructor
  · rintro ⟨n, hn, ending, he, hs⟩
    rcases List.mem_append.mp he with he | he
    · exact .inl ⟨n, hn, ending, he, hs⟩
    · exact .inr ⟨n, hn, ending, he, hs⟩
  · rintro (⟨n, hn, ending, he, hs⟩ | ⟨n, hn, ending, he, hs⟩)
    · exact ⟨n, hn, ending, List.mem_append_left _ he, hs⟩
    · exact ⟨n, hn, ending, List.mem_append_right _ he, hs⟩

theorem endsWithOne_congr (h : ∀ ending, ending ∈ endings ↔ ending ∈ more) :
    name.EndsWithOne endings ↔ name.EndsWithOne more := by
  simp only [EndsWithOne, h]

instance : Decidable (name.EndsWithOne endings) :=
  decidable_of_iff (name.text?.any fun n => endings.any (endsWith n)) <| by
    cases h : name.text? with
    | none => simp [EndsWithOne, h]
    | some n => simp [EndsWithOne, h, endsWith]

end Files.Name

namespace Settings

instance : Decidable (s.Generated name) :=
  decidable_of_iff (name.text?.any fun n => endsWith n s.suffix) <| by
    cases h : name.text? with
    | none => simp [Generated, h]
    | some n => simp [Generated, h, endsWith]

/-- The generated files among those that a walk has met. -/
def generated (s : Settings) (found : List Found) : List Found :=
  found.filter fun f => s.Generated f.name

theorem generated_congr (h : s'.suffix = s.suffix) : s'.generated found = s.generated found := by
  refine List.filter_congr fun f _ => decide_eq_decide.mpr ?_
  rw [Generated, Generated, h]

end Settings

namespace Selection

/-- Each of the generated files is in one of the two lists, in which they keep their order. -/
structure Divides (x : Selection) (generated : List Found) : Prop where
  files : x.files = generated.filter (· ∉ x.excluded)
  excluded : x.excluded = generated.filter (· ∈ x.excluded)

theorem files_ofFound : (ofFound s found).files =
    (s.generated found).filter fun f => ¬ f.name.EndsWithOne s.exclusions.suffixes := by
  rw [Settings.generated, List.filter_filter]
  refine List.filter_congr fun f _ => ?_
  rw [← Bool.decide_and]
  exact decide_eq_decide.mpr (Settings.verdict_eq_project_iff.trans and_comm)

theorem excluded_ofFound : (ofFound s found).excluded =
    (s.generated found).filter fun f => f.name.EndsWithOne s.exclusions.suffixes := by
  rw [Settings.generated, List.filter_filter]
  refine List.filter_congr fun f _ => ?_
  rw [← Bool.decide_and]
  exact decide_eq_decide.mpr (Settings.verdict_eq_exclude_iff.trans and_comm)

theorem divides_ofFound : (ofFound s found).Divides (s.generated found) := by
  have hmem : ∀ f ∈ s.generated found,
      f ∈ (ofFound s found).excluded ↔ f.name.EndsWithOne s.exclusions.suffixes := by
    intro f hf
    rw [excluded_ofFound, List.mem_filter, decide_eq_true_iff, and_iff_right hf]
  constructor
  · rw [files_ofFound]
    exact List.filter_congr fun f hf => decide_eq_decide.mpr (not_congr (hmem f hf).symm)
  · rw [excluded_ofFound]
    refine List.filter_congr fun f hf => decide_eq_decide.mpr ?_
    rw [← excluded_ofFound]
    exact (hmem f hf).symm

end Selection

namespace Command

open Selection

variable {c : Config} {a b : Arguments}

theorem suffixes_foldl_add (r : ExclusionRules) (endings : List String) :
    (endings.foldl ExclusionRules.add r).suffixes = r.suffixes ++ endings := by
  induction endings generalizing r with
  | nil => simp
  | cons ending endings ih =>
    rw [List.foldl_cons, ih, ExclusionRules.add, List.append_assoc, List.singleton_append]

/-- The endings of a configuration take the place of the standard ones. Those of the arguments are
added to them. -/
theorem suffixes_mergeSettings : (mergeSettings c a).exclusions.suffixes =
    c.exclude.getD ExclusionRules.standard.suffixes ++ a.exclude := by
  have hc : c.settings.exclusions.suffixes = c.exclude.getD ExclusionRules.standard.suffixes := by
    rw [Config.settings]
    cases c.exclude <;> rfl
  rw [mergeSettings, suffixes_foldl_add, hc]

/-- The second arguments ask for the suffix of the first, and exclude what the first exclude and
more. What else they ask for is open. -/
structure Arguments.Excluding (a : Arguments) (more : List String) (b : Arguments) : Prop where
  suffix : b.suffix = a.suffix
  exclude : ∀ ending, ending ∈ b.exclude ↔ ending ∈ a.exclude ∨ ending ∈ more

namespace Arguments.Excluding

theorem generated (h : a.Excluding more b) :
    (mergeSettings c b).generated found = (mergeSettings c a).generated found :=
  Settings.generated_congr (by rw [mergeSettings, mergeSettings, h.suffix])

theorem endsWithOne_iff (h : a.Excluding more b) :
    name.EndsWithOne (mergeSettings c b).exclusions.suffixes ↔
      name.EndsWithOne (mergeSettings c a).exclusions.suffixes ∨ name.EndsWithOne more := by
  rw [← Name.endsWithOne_append]
  refine Name.endsWithOne_congr fun ending => ?_
  rw [suffixes_mergeSettings, suffixes_mergeSettings, List.mem_append, List.mem_append,
    List.mem_append, h.exclude, or_assoc]

theorem files_ofFound (h : a.Excluding more b) : (ofFound (mergeSettings c b) found).files =
    (ofFound (mergeSettings c a) found).files.filter fun f => ¬ f.name.EndsWithOne more := by
  rw [Selection.files_ofFound, Selection.files_ofFound, List.filter_filter, h.generated]
  refine List.filter_congr fun f _ => ?_
  rw [← Bool.decide_and]
  refine decide_eq_decide.mpr ?_
  rw [h.endsWithOne_iff, not_or, and_comm]

theorem excluded_sublist (h : a.Excluding more b) :
    (ofFound (mergeSettings c a) found).excluded.Sublist
      (ofFound (mergeSettings c b) found).excluded := by
  rw [excluded_ofFound, excluded_ofFound, h.generated]
  refine List.monotone_filter_right _ fun f hf => ?_
  rw [decide_eq_true_iff] at hf ⊢
  exact h.endsWithOne_iff.mpr (.inl hf)

end Arguments.Excluding

theorem ofFound_mergeSettings_congr (hs : b.suffix = a.suffix)
    (he : ∀ ending, ending ∈ b.exclude ↔ ending ∈ a.exclude) :
    ofFound (mergeSettings c b) found = ofFound (mergeSettings c a) found := by
  have h : a.Excluding [] b := ⟨hs, by simp [he]⟩
  have hnone (name : Name) : ¬ name.EndsWithOne [] := by simp [Name.EndsWithOne]
  have hfiles : (ofFound (mergeSettings c b) found).files =
      (ofFound (mergeSettings c a) found).files := by
    rw [h.files_ofFound]
    simp [hnone]
  have hexcluded : (ofFound (mergeSettings c b) found).excluded =
      (ofFound (mergeSettings c a) found).excluded := by
    rw [excluded_ofFound, excluded_ofFound, h.generated]
    exact List.filter_congr fun f _ => decide_eq_decide.mpr (by simp [h.endsWithOne_iff, hnone])
  exact congrArg₂ Selection.mk hfiles hexcluded

/-- Whatever the arguments are, the walk fails alike or meets the same files. Further endings take
from the selected files those whose names end with one of them. The generated files are divided up as
before, and what the configuration excludes is excluded. The order of the endings does not count, and
neither does how often one is given. -/
theorem select_mergeSettings (t : Tree) (root : Path) (c : Config) :
    (∃ e, ∀ a, select t root (mergeSettings c a) = .error e) ∨
      ∃ found, t.walk root = .ok found ∧ ∀ a : Arguments, ∃ x,
        select t root (mergeSettings c a) = .ok x ∧
        x.Divides ((mergeSettings c a).generated found) ∧
        (∀ f ∈ (mergeSettings c a).generated found,
          f.name.EndsWithOne (c.exclude.getD ExclusionRules.standard.suffixes) → f ∈ x.excluded) ∧
        (∀ more b, a.Excluding more b → ∃ y, select t root (mergeSettings c b) = .ok y ∧
          y.Divides ((mergeSettings c a).generated found) ∧
          y.files = x.files.filter (fun f => ¬ f.name.EndsWithOne more) ∧
          x.excluded.Sublist y.excluded) ∧
        ∀ b : Arguments, b.suffix = a.suffix →
          (∀ ending, ending ∈ b.exclude ↔ ending ∈ a.exclude) →
          select t root (mergeSettings c b) = .ok x := by
  cases hw : t.walk root with
  | error r => exact .inl ⟨.listing root r, fun a => by rw [select, findFiles, hw]; rfl⟩
  | ok found =>
    have hsel (a : Arguments) : select t root (mergeSettings c a) =
        .ok (ofFound (mergeSettings c a) found) := by
      rw [select, findFiles, hw]
      rfl
    refine .inr ⟨found, rfl, fun a => ⟨_, hsel a, divides_ofFound, ?_, ?_, ?_⟩⟩
    · intro f hf he
      rw [excluded_ofFound, List.mem_filter, decide_eq_true_iff, suffixes_mergeSettings]
      exact ⟨hf, Name.endsWithOne_append.mpr (.inl he)⟩
    · intro more b h
      exact ⟨_, hsel b, h.generated ▸ divides_ofFound, h.files_ofFound, h.excluded_sublist⟩
    · intro b hs he
      rw [hsel b, ofFound_mergeSettings_congr hs he]

/-- One of the further endings is that of a file that is excluded already, and one is given twice.
The strip rules and the mode are others. -/
theorem select_mergeSettings_nestedMessages :
    let given : Arguments :=
      { exclude := ["c.pb.go", "code.pb.go", "c.pb.go"], strip := ["state"], staged := true }
    ∃ x, select nestedMessages ⟨[0x2E]⟩ (mergeSettings {} given) = .ok x ∧
      x.files.map (·.path) = [.ofString "./sub.pb.go"] ∧
      Path.ofString "./error_code.pb.go" ∈ x.excluded.map (·.path) := by
  intro given
  have hplain : select nestedMessages ⟨[0x2E]⟩ (mergeSettings {} {}) =
      select nestedMessages ⟨[0x2E]⟩ {} := rfl
  rcases select_mergeSettings nestedMessages ⟨[0x2E]⟩ {} with ⟨e, he⟩ | ⟨found, -, h⟩
  · cases (he {}).symm.trans (hplain.trans select_nestedMessages)
  · obtain ⟨x, hx, -, -, hmore, -⟩ := h {}
    obtain rfl := Except.ok.inj (hx.symm.trans (hplain.trans select_nestedMessages))
    obtain ⟨y, hy, -, hfiles, hexcluded⟩ := hmore ["c.pb.go", "code.pb.go"] given
      ⟨rfl, fun ending => by simp only [given, List.mem_cons, List.not_mem_nil]; tauto⟩
    refine ⟨y, hy, ?_, ?_⟩
    · rw [hfiles]
      decide +kernel
    · exact List.mem_map_of_mem (hexcluded.subset (List.mem_singleton_self _))

end Command

end StructProjection
