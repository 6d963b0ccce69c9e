import Mathlib.Data.List.TakeWhile
import Mathlib.Data.Prod.Lex
import Mathlib.Data.Set.Function
import Mathlib.Order.Interval.Set.Defs
import StructProjection.Projection

/-! # Lines and columns

The line and the column of a complaint say as much as its offset: they lead back to it, and they grow
with it. Whatever is wrong with a text, the complaint about it is located in that way.
-/

namespace StructProjection

open Text Go

namespace Text

variable {m n k start start' line line' column column' : Nat} {cs : List Char}

theorem takeBytes_prefix_takeBytes (h : m ≤ n) (cs : List Char) :
    takeBytes m cs <+: takeBytes n cs := by
  induction cs generalizing m n with
  | nil => exact List.prefix_refl _
  | cons c cs ih =>
    by_cases hc : c.utf8Size ≤ m
    · rw [takeBytes, takeBytes, if_pos hc, if_pos (hc.trans h)]
      exact (List.prefix_cons_inj c).2 (ih (Nat.sub_le_sub_right h _))
    · rw [takeBytes, if_neg hc]
      exact List.nil_prefix

theorem rowAt_le_rowAt (h : m ≤ n) (cs : List Char) : rowAt m cs ≤ rowAt n cs :=
  (takeBytes_prefix_takeBytes h cs).sublist.count_le _

/-- A line feed stands at an offset. -/
def FeedAt (n : Nat) (cs : List Char) : Prop := ∃ as bs, cs = as ++ '\n' :: bs ∧ byteLength as = n

theorem FeedAt.rowAt_succ (h : FeedAt n cs) : rowAt (n + 1) cs = rowAt n cs + 1 := by
  obtain ⟨as, bs, rfl, rfl⟩ := h
  have hnext := takeBytes_byteLength_append (as ++ ['\n']) bs
  rw [byteLength_append, List.append_assoc] at hnext
  have hfeed : byteLength ['\n'] = 1 := rfl
  rw [hfeed, List.singleton_append] at hnext
  rw [rowAt, rowAt, hnext, takeBytes_byteLength_append, List.count_append, List.count_singleton_self]

/-- A line feed between two offsets puts them in different rows. -/
theorem FeedAt.rowAt_lt (h : FeedAt k cs) (hm : m ≤ k) (hn : k < n) : rowAt m cs < rowAt n cs :=
  calc rowAt m cs
    _ ≤ rowAt k cs := rowAt_le_rowAt hm cs
    _ < rowAt (k + 1) cs := by rw [h.rowAt_succ]; exact Nat.lt_succ_self _
    _ ≤ rowAt n cs := rowAt_le_rowAt hn cs

/-- A line, counted from 1, begins at an offset: with the text if it is the first, and otherwise behind
the line feed that ends the line before it. -/
structure LineBeginsAt (cs : List Char) (line start : Nat) : Prop where
  row : rowAt start cs + 1 = line
  feed : line = 1 ∧ start = 0 ∨ ∃ n, start = n + 1 ∧ FeedAt n cs

theorem LineBeginsAt.le (h : LineBeginsAt cs line start) (h' : LineBeginsAt cs line start') :
    start ≤ start' := by
  rcases h.feed with ⟨-, rfl⟩ | ⟨n, rfl, hn⟩
  · exact Nat.zero_le _
  · by_contra hlt
    have hrow := hn.rowAt_lt (m := start') (n := n + 1) (by omega) (Nat.lt_succ_self n)
    have := h.row.trans h'.row.symm
    omega

theorem LineBeginsAt.unique (h : LineBeginsAt cs line start) (h' : LineBeginsAt cs line start') :
    start = start' := Nat.le_antisymm (h.le h') (h'.le h)

private theorem byteLength_reverse (cs : List Char) : byteLength cs.reverse = byteLength cs := by
  induction cs with
  | nil => rfl
  | cons c cs ih => simp [byteLength, ih, Nat.add_comm]

/-- The text before an offset is whole lines and the beginning of another. -/
private theorem exists_lines (n : Nat) (cs : List Char) :
    ∃ lines inner, takeBytes n cs = lines ++ inner ∧ '\n' ∉ inner ∧
      (lines = [] ∨ ∃ as, lines = as ++ ['\n']) ∧ lineStart n cs = byteLength lines := by
  have happend := dropEndWhile_append_takeEndWhile (· ≠ '\n') (takeBytes n cs)
  refine ⟨_, _, happend.symm, fun hmem => ?_, ?_, ?_⟩
  · rw [takeEndWhile, List.mem_reverse] at hmem
    simpa using List.mem_takeWhile_imp hmem
  · cases hrest : (takeBytes n cs).reverse.dropWhile (· ≠ '\n') with
    | nil => exact .inl (by rw [dropEndWhile, hrest, List.reverse_nil])
    | cons c rest =>
      have hc := List.head?_dropWhile_not (· ≠ '\n') (takeBytes n cs).reverse
      rw [hrest] at hc
      obtain rfl : c = '\n' := by simpa using hc
      exact .inr ⟨rest.reverse, by rw [dropEndWhile, hrest, List.reverse_cons]⟩
  · rw [lineStart, dropEndWhile, byteLength_reverse]

theorem lineStart_le (n : Nat) (cs : List Char) : lineStart n cs ≤ n := by
  obtain ⟨lines, inner, htake, -, -, hstart⟩ := exists_lines n cs
  have hle := byteLength_takeBytes_le n cs
  rw [htake, byteLength_append] at hle
  omega

theorem rowAt_lineStart (n : Nat) (cs : List Char) : rowAt (lineStart n cs) cs = rowAt n cs := by
  obtain ⟨lines, inner, htake, hinner, -, hstart⟩ := exists_lines n cs
  have hlines : takeBytes (byteLength lines) cs = lines := by
    rw [← takeBytes_append_dropBytes n cs, htake, List.append_assoc, takeBytes_byteLength_append]
  rw [rowAt, rowAt, hstart, hlines, htake, List.count_append, List.count_eq_zero.2 hinner,
    Nat.add_zero]

theorem lineBeginsAt_lineStart (n : Nat) (cs : List Char) :
    LineBeginsAt cs (rowAt n cs + 1) (lineStart n cs) := by
  refine ⟨by rw [rowAt_lineStart], ?_⟩
  obtain ⟨lines, inner, htake, hinner, rfl | ⟨as, rfl⟩, hstart⟩ := exists_lines n cs
  · refine .inl ⟨?_, hstart⟩
    rw [rowAt, htake, List.nil_append, List.count_eq_zero.2 hinner]
  · refine .inr ⟨byteLength as, by rw [hstart, byteLength_append]; rfl, as, inner ++ dropBytes n cs,
      ?_, rfl⟩
    have happend := takeBytes_append_dropBytes n cs
    rw [htake] at happend
    simpa using happend.symm

/-- A line and a column, both counted from 1, lead to an offset: the line begins as many bytes before
it as the column says, and no line feed stands between. -/
def LeadsTo (cs : List Char) (line column offset : Nat) : Prop :=
  1 ≤ column ∧ ∃ start, LineBeginsAt cs line start ∧ offset = start + (column - 1) ∧
    ∀ k, start ≤ k → k < offset → ¬ FeedAt k cs

theorem LeadsTo.unique (h : LeadsTo cs line column m) (h' : LeadsTo cs line column n) : m = n := by
  obtain ⟨-, start, hstart, rfl, -⟩ := h
  obtain ⟨-, start', hstart', rfl, -⟩ := h'
  rw [hstart.unique hstart']

theorem leadsTo_offset (n : Nat) (cs : List Char) :
    LeadsTo cs (rowAt n cs + 1) (n - lineStart n cs + 1) n := by
  have hle := lineStart_le n cs
  refine ⟨by omega, lineStart n cs, lineBeginsAt_lineStart n cs, by omega, fun k hk hkn hfeed => ?_⟩
  exact absurd (hfeed.rowAt_lt hk hkn) (by simp [rowAt_lineStart])

theorem toLex_lt_toLex_of_lt (h : m < n) (cs : List Char) :
    toLex (rowAt m cs + 1, m - lineStart m cs + 1) <
      toLex (rowAt n cs + 1, n - lineStart n cs + 1) := by
  rw [Prod.Lex.toLex_lt_toLex]
  rcases Nat.lt_or_eq_of_le (rowAt_le_rowAt h.le cs) with hrow | hrow
  · exact .inl (Nat.succ_lt_succ hrow)
  · have hstart : lineStart m cs = lineStart n cs :=
      (hrow ▸ lineBeginsAt_lineStart m cs).unique (lineBeginsAt_lineStart n cs)
    have hle := lineStart_le m cs
    exact .inr ⟨congrArg (· + 1) hrow, by dsimp only; omega⟩

end Text

namespace Go

variable {source : List Char} {fs : List Fault} {o : Outline} {is : List Item} {d : Diagnostic}

/-- The line and the column of a complaint, lines first. -/
def Diagnostic.position (d : Diagnostic) : ℕ ×ₗ ℕ := toLex (d.line, d.column)

/-- A complaint about a text: it shows one of some faults, or only names an offset. -/
inductive Reported (source : List Char) (fs : List Fault) : Diagnostic → Prop
  | fault {f : Fault} (h : f ∈ fs) : Reported source fs (f.diagnose source)
  | place (offset : Nat) (c : Complaint) : Reported source fs (.locate source offset c)

/-- All faults that an outline shows. -/
def Outline.faults (o : Outline) : List Fault := o.fault.toList ++ o.items.filterMap (·.fault)

theorem reported_misplaced {i : Item} (hf : ∀ f ∈ i.fault, f ∈ fs) :
    Reported source fs (misplaced source i) := by
  unfold misplaced
  split
  · next f hfault => exact .fault (hf f hfault)
  · exact .place _ _

theorem reported_of_headerEndFrom {seen : Option Nat} (hf : ∀ i ∈ is, ∀ f ∈ i.fault, f ∈ fs)
    (h : headerEndFrom source seen is = .error d) : Reported source fs d := by
  fun_induction headerEndFrom source seen is with
  | case1 =>
    obtain rfl := Except.error.inj h
    exact .place _ _
  | case2 | case8 => cases h
  | case3 _ _ _ _ ih | case5 _ _ _ _ ih | case7 _ _ _ _ _ ih =>
    exact ih (List.forall_mem_cons.1 hf).2 h
  | case4 i _ _ f hfault | case6 i _ _ _ f hfault =>
    obtain rfl := Except.error.inj h
    exact .fault (hf i List.mem_cons_self f hfault)
  | case9 i =>
    obtain rfl := Except.error.inj h
    exact reported_misplaced (hf i List.mem_cons_self)

theorem reported_of_declarationsFrom {part : Part} {above : List Item}
    (hf : ∀ i ∈ is, ∀ f ∈ i.fault, f ∈ fs)
    (h : (declarationsFrom source part above is).2 = some d) : Reported source fs d := by
  fun_induction declarationsFrom source part above is with
  | case1 | case7 | case9 =>
    obtain rfl := Option.some.inj h
    exact .place _ _
  | case2 => cases h
  | case3 _ _ _ _ _ ih | case4 _ _ _ _ ih | case6 _ _ _ _ ih =>
    exact ih (List.forall_mem_cons.1 hf).2 h
  | case5 _ i =>
    obtain rfl := Option.some.inj h
    exact reported_misplaced (hf i List.mem_cons_self)
  | case8 _ _ _ _ _ _ _ _ _ hmore _ ih =>
    exact ih (List.forall_mem_cons.1 hf).2 (by rw [hmore]; exact h)

theorem Outline.mem_faults_of_item {i : Item} (hi : i ∈ o.items) : ∀ f ∈ i.fault, f ∈ o.faults :=
  fun _ hf => List.mem_append_right _ (List.mem_filterMap.2 ⟨i, hi, hf⟩)

theorem reported_of_headerEnd (h : o.headerEnd source = .error d) : Reported source o.faults d :=
  reported_of_headerEndFrom (fun _ hi => Outline.mem_faults_of_item hi) h

theorem reported_of_sourceFile (h : o.sourceFile source = .error d) :
    Reported source o.faults d := by
  unfold Outline.sourceFile at h
  split at h
  · cases h
  · next hdecls =>
    obtain rfl := Except.error.inj h
    unfold Outline.declarations at hdecls
    split at hdecls
    · next f hfault =>
      obtain rfl := Option.some.inj (Prod.mk.inj hdecls).2
      exact .fault (List.mem_append_left _ (Option.mem_toList.2 hfault))
    · exact reported_of_declarationsFrom (fun _ hi => Outline.mem_faults_of_item hi)
        (congrArg Prod.snd hdecls)

theorem reported_of_headerSpanOf (h : headerSpanOf source o = .error d) :
    Reported source o.faults d := by
  cases hstop : o.headerEnd source with
  | error e =>
    rw [headerSpanOf, hstop] at h
    obtain rfl : e = d := Except.error.inj h
    exact reported_of_headerEnd hstop
  | ok stop => cases (headerSpanOf_of_ok hstop).symm.trans h

theorem reported_of_structSpansOf (h : structSpansOf source o = .error d) :
    Reported source o.faults d := by
  cases hfile : o.sourceFile source with
  | error e =>
    rw [structSpansOf, hfile] at h
    obtain rfl : e = d := Except.error.inj h
    exact reported_of_sourceFile hfile
  | ok file => cases (structSpansOf_of_ok hfile).symm.trans h

theorem reported_of_projectOutline {strip : StripRules}
    (h : projectOutline source strip o = .error d) : Reported source o.faults d := by
  cases hheader : headerSpanOf source o with
  | error e =>
    rw [projectOutline, hheader] at h
    obtain rfl : e = d := Except.error.inj h
    exact reported_of_headerSpanOf hheader
  | ok header =>
    cases hstructs : structSpansOf source o with
    | error e =>
      rw [projectOutline, hheader, hstructs] at h
      obtain rfl : e = d := Except.error.inj h
      exact reported_of_structSpansOf hstructs
    | ok structs => cases (projectOutline_of_ok hheader hstructs strip).symm.trans h

/-- The faults that are found in a text. -/
def faultsIn (text : String) : List Fault :=
  match outline text with
  | .ok o => o.faults
  | .error _ => []

theorem locate_zero (source : List Char) (c : Complaint) :
    Diagnostic.locate source 0 c = ⟨0, 1, 1, c⟩ := by
  have htake : takeBytes 0 source = [] := by
    cases source with
    | nil => rfl
    | cons c cs => rw [takeBytes, if_neg (Nat.not_le.2 c.utf8Size_pos)]
  rw [Diagnostic.locate, Nat.zero_min, rowAt, htake, Nat.zero_sub]
  rfl

theorem reported_of_outline {text : String} (h : outline text = .error d) :
    Reported text.toList (faultsIn text) d := by
  unfold outline at h
  split at h
  · cases h
  · obtain rfl := Except.error.inj h
    have hzero : Reported text.toList (faultsIn text) _ := .place 0 .unreadable
    rw [locate_zero] at hzero
    exact hzero

/-- What is wrong with a text is wrong with its outline, or it has none. -/
theorem reported_of_bind {α : Type} {text : String} {f : Outline → Except Diagnostic α}
    (hf : ∀ o, f o = .error d → Reported text.toList o.faults d)
    (h : (outline text >>= f) = .error d) : Reported text.toList (faultsIn text) d := by
  cases ho : outline text with
  | error e =>
    rw [ho] at h
    obtain rfl : e = d := Except.error.inj h
    exact reported_of_outline ho
  | ok o =>
    rw [ho] at h
    rw [faultsIn, ho]
    exact hf o h

theorem Reported.eq_locate (h : Reported source fs d) :
    d = Diagnostic.locate source d.offset d.complaint := by
  have hlocate (n : Nat) (c : Complaint) : Diagnostic.locate source n c =
      Diagnostic.locate source (min n (byteLength source)) c := by
    rw [Diagnostic.locate, Diagnostic.locate, Nat.min_assoc, Nat.min_self]
  cases h with
  | fault => exact hlocate _ _
  | place offset c => exact hlocate _ _

end Go

/-- The line and the column of a complaint lead to its offset and to no other. This is the offset that
has been complained about, or the end of the text if it lies behind that. Lines and columns are in the
order of the offsets, and tell them apart. All that can be wrong with a text is located in this way. -/
theorem leadsTo_locate (text : String) :
    (∀ n c, let d := Diagnostic.locate text.toList n c
      d.offset = min n text.utf8ByteSize ∧
        ∀ m, LeadsTo text.toList d.line d.column m ↔ m = d.offset) ∧
      (∀ c, StrictMonoOn (fun n => (Diagnostic.locate text.toList n c).position)
        (Set.Iic text.utf8ByteSize)) ∧
      (∀ c, Set.InjOn (fun n => (Diagnostic.locate text.toList n c).position)
        (Set.Iic text.utf8ByteSize)) ∧
      ∀ d, headerEnd text = .error d ∨ SourceFile.read text = .error d ∨
          (∃ strip, project text strip = .error d) →
        d = Diagnostic.locate text.toList d.offset d.complaint := by
  have hsize := byteLength_toList text
  have hmono (c : Complaint) : StrictMonoOn
      (fun n => (Diagnostic.locate text.toList n c).position) (Set.Iic text.utf8ByteSize) := by
    intro m hm n hn hmn
    rw [Set.mem_Iic, ← hsize] at hm hn
    have hlt := toLex_lt_toLex_of_lt hmn text.toList
    simpa [Diagnostic.position, Diagnostic.locate, Nat.min_eq_left hm, Nat.min_eq_left hn] using hlt
  refine ⟨fun n c => ⟨by rw [← hsize]; rfl, fun m => ⟨fun hm => ?_, ?_⟩⟩, hmono,
    fun c => (hmono c).injOn, fun d hd => ?_⟩
  · exact hm.unique (leadsTo_offset _ _)
  · rintro rfl
    exact leadsTo_offset _ _
  · rcases hd with hd | hd | ⟨strip, hd⟩
    · exact (reported_of_bind (fun _ => reported_of_headerEnd) hd).eq_locate
    · exact (reported_of_bind (fun _ => reported_of_sourceFile) hd).eq_locate
    · exact (reported_of_bind (fun _ => reported_of_projectOutline) hd).eq_locate

/-- A text that ends in the middle of its third line. -/
def brokenOff : String := "package ö\n\nimport"

theorem leadsTo_locate_brokenOff :
    (Diagnostic.locate brokenOff.toList 100 .noPackageClause).offset = 18 ∧
      (∀ m, LeadsTo brokenOff.toList 3 7 m ↔ m = 18) ∧
      (Diagnostic.locate brokenOff.toList 11 .noPackageClause).position <
        (Diagnostic.locate brokenOff.toList 12 .noPackageClause).position := by
  obtain ⟨hlocate, hmono, -⟩ := leadsTo_locate brokenOff
  have hsize : brokenOff.utf8ByteSize = 18 := by decide +kernel
  obtain ⟨hoffset, hleads⟩ := hlocate 100 .noPackageClause
  have hline : (Diagnostic.locate brokenOff.toList 100 .noPackageClause).line = 3 := by
    decide +kernel
  have hcolumn : (Diagnostic.locate brokenOff.toList 100 .noPackageClause).column = 7 := by
    decide +kernel
  rw [hsize] at hoffset hmono
  rw [hline, hcolumn, hoffset] at hleads
  exact ⟨hoffset, hleads, hmono .noPackageClause (by simp) (by simp) (by simp)⟩

end StructProjection
