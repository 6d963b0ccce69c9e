import StructProjection.Rules

/-! # Settings of a batch -/

namespace StructProjection

/-- When the files of a batch are written. -/
inductive CommitMode
  /-- Each file as soon as it is projected. -/
  | failFast
  /-- All files when all are projected. -/
  | staged
  deriving DecidableEq, Repr

/-- The name of a mode in a configuration. -/
def CommitMode.name : CommitMode → String
  | .failFast => "fail-fast"
  | .staged => "staged"

structure Settings where
  /-- How the name of a generated file ends. -/
  suffix : String := ".pb.go"
  exclusions : ExclusionRules := .standard
  strip : StripRules := .standard
  commit : CommitMode := .failFast
  /-- Nothing is written and nothing is formatted. -/
  dryRun : Bool := false
  deriving DecidableEq, Repr

/-- Why a batch cannot work with its settings. -/
inductive SettingsFault
  | emptySuffix
  | emptyLiteral
  | emptyExclusion
  | other (message : String)
  deriving DecidableEq, Repr

def SettingsFault.message : SettingsFault → String
  | .emptySuffix => "generated-file suffix must not be empty"
  | .emptyLiteral => "strip rules must not be empty strings"
  | .emptyExclusion => "exclusion suffixes must not be empty strings"
  | .other message => message

namespace Settings

def fault? (s : Settings) : Option SettingsFault :=
  if s.suffix = "" then some .emptySuffix
  else if "" ∈ s.strip.literals then some .emptyLiteral
  else if "" ∈ s.exclusions.suffixes then some .emptyExclusion
  else none

theorem fault?_eq_none_iff {s : Settings} :
    s.fault? = none ↔ s.suffix ≠ "" ∧ "" ∉ s.strip.literals ∧ "" ∉ s.exclusions.suffixes := by
  unfold fault?
  split <;> simp_all
  split <;> simp_all

end Settings

end StructProjection
