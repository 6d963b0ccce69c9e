import StructProjection.Proofs.Go.Linewise

/-! # A reader of lines

A reader that knows some lines, each of which is one construct, and reads the texts that are made up of
these and of empty lines. It reads line by line.
-/

namespace StructProjection.Go

open Text Outline

/-- A line that is one construct. -/
structure KnownLine where
  text : List Char
  construct : Construct
  specs : List TypeSpec
  newline_not_mem : '\n' ∉ text
  ends : endsInLine text
  comment : construct = .comment → isCommentText text

namespace KnownLine

/-- The item that a line is, if it is not empty. -/
def itemsOn (known : List KnownLine) (line : List Char) : Option (List Item) :=
  if line = [] then some []
  else (known.find? (·.text = line)).map fun k =>
    [⟨k.construct, .zero, .after .zero k.text, none, k.specs⟩]

/-- Reads lines of which the first has begun with `line`. -/
def itemsFrom (known : List KnownLine) : Place → (line : List Char) → List Char → Option (List Item)
  | _, line, [] => if line = [] then some [] else none
  | p, line, c :: cs =>
    if c = '\n' then do
      let is ← itemsOn known line
      return is.map (·.moved p) ++ (← itemsFrom known (p.after (line ++ ['\n'])) [] cs)
    else itemsFrom known p (line ++ [c]) cs

def reader (known : List KnownLine) : Reader := fun text =>
  match itemsFrom known .zero [] text.toList with
  | some is => .ok ⟨none, is⟩
  | none => .error (Diagnostic.locate text.toList 0 .unreadable)

/-- Lines with the items that they are. -/
inductive Lines (known : List KnownLine) : Place → List Char → List Item → Prop
  | nil (p : Place) : Lines known p [] []
  | line {p line cs is js} (hnl : '\n' ∉ line) (hline : itemsOn known line = some is)
      (hmore : Lines known (p.after (line ++ ['\n'])) cs js) :
      Lines known p (line ++ '\n' :: cs) (is.map (·.moved p) ++ js)

section Reading

variable {known : List KnownLine} {p : Place} {as bs cs line : List Char} {is js ks ls : List Item}

theorem lines_of_itemsFrom (hnl : '\n' ∉ line) (h : itemsFrom known p line cs = some is) :
    Lines known p (line ++ cs) is := by
  induction cs generalizing p line is with
  | nil =>
    simp only [itemsFrom] at h
    split at h
    · next hline =>
      obtain rfl := Option.some.inj h
      simpa [hline] using Lines.nil p
    · simp at h
  | cons c cs ih =>
    simp only [itemsFrom] at h
    split at h
    · next hc =>
      obtain ⟨is, his, h⟩ := Option.bind_eq_some_iff.1 h
      obtain ⟨js, hjs, h⟩ := Option.bind_eq_some_iff.1 h
      obtain rfl := Option.some.inj h
      subst hc
      exact .line hnl his (ih (by simp) hjs)
    · next hc =>
      rw [List.append_cons]
      exact ih (by simp [hnl, Ne.symm hc]) h

theorem itemsFrom_append (hnl : '\n' ∉ line) (pre : List Char) :
    itemsFrom known p pre (line ++ '\n' :: cs) = itemsFrom known p (pre ++ line) ('\n' :: cs) := by
  induction line generalizing pre with
  | nil => simp
  | cons c line ih =>
    have hc : c ≠ '\n' := fun hc => hnl (by simp [hc])
    rw [List.cons_append, itemsFrom, if_neg hc, ih fun hmem => hnl (List.mem_cons_of_mem c hmem)]
    simp

theorem itemsFrom_of_lines (h : Lines known p cs is) : itemsFrom known p [] cs = some is := by
  induction h with
  | nil => rfl
  | line hnl hline _ ih => simp [itemsFrom_append hnl, itemsFrom, hline, ih]

theorem reader_eq_ok_iff {text : String} {o : Outline} :
    reader known text = .ok o ↔ o.fault = none ∧ Lines known .zero text.toList o.items := by
  have hiff : itemsFrom known .zero [] text.toList = some o.items ↔
      Lines known .zero text.toList o.items :=
    ⟨fun h => lines_of_itemsFrom (by simp) h, itemsFrom_of_lines⟩
  rw [← hiff, reader]
  obtain ⟨fault, items⟩ := o
  cases itemsFrom known .zero [] text.toList <;> simp [eq_comm]

theorem itemsOn_eq_some (h : itemsOn known line = some is) : line = [] ∧ is = [] ∨
    ∃ i, is = [i] ∧ i.start = .zero ∧ i.stop = .after .zero line ∧ i.fault = none ∧
      endsInLine line ∧ (i.construct = .comment → isCommentText line) := by
  unfold itemsOn at h
  split at h
  · next hline => exact .inl ⟨hline, (Option.some.inj h).symm⟩
  · obtain ⟨k, hk, rfl⟩ := Option.map_eq_some_iff.1 h
    obtain rfl : k.text = line := by simpa using List.find?_some hk
    exact .inr ⟨_, rfl, rfl, rfl, rfl, k.ends, k.comment⟩

/-- A line is a layout by itself, and ends what stands on it. -/
theorem laid_of_itemsOn (h : itemsOn known line = some is) (ended : Bool) (p : Place) :
    Laid ended p (line ++ ['\n']) (is.map (·.moved p)) true := by
  have hend : ∀ e, endedAfter e ['\n'] = some true := fun e => by simp [endedAfter]
  rcases itemsOn_eq_some h with ⟨rfl, rfl⟩ | ⟨i, rfl, hstart, hstop, hfault, hline, hcomment⟩
  · exact .nil (hend ended)
  · have hstart' : (i.moved p).start = p.after [] := by simp [hstart]
    refine .cons rfl hstart' ?_ hfault hline hcomment (.nil (hend _))
    rw [Item.stop_moved, Item.start_moved, hstart, hstop, Place.add_zero, ← Place.after_eq_add]

theorem Lines.laid (h : Lines known p cs is) (ended : Bool) : ∃ e, Laid ended p cs is e := by
  induction h generalizing ended with
  | nil => exact ⟨ended, .nil rfl⟩
  | @line p line cs is js _ hline _ ih =>
    obtain ⟨e, hmore⟩ := ih true
    refine ⟨e, ?_⟩
    rw [List.append_cons]
    exact (laid_of_itemsOn hline ended p).append hmore

theorem Lines.append (h : Lines known p as is) (h' : Lines known (p.after as) bs js) :
    Lines known p (as ++ bs) (is ++ js) := by
  induction h with
  | nil => simpa using h'
  | line hnl hline _ ih =>
    rw [List.append_assoc, List.append_assoc]
    refine .line hnl hline (ih ?_)
    simpa using h'

theorem Lines.moved (h : Lines known p cs is) (q : Place) :
    Lines known (q.add p) cs (is.map (·.moved q)) := by
  induction h with
  | nil => exact .nil _
  | line hnl hline _ ih =>
    rw [List.map_append, map_moved_moved]
    exact .line hnl hline (by rwa [← Place.add_after] at ih)

theorem Lines.exists_moved {q : Place} (h : Lines known (q.add p) cs is) :
    ∃ js, is = js.map (·.moved q) ∧ Lines known p cs js := by
  generalize hp : q.add p = p' at h
  induction h generalizing p with
  | nil => exact ⟨[], rfl, .nil p⟩
  | line hnl hline _ ih =>
    obtain ⟨js, hjs, hlines⟩ := ih (by rw [← hp, Place.add_after])
    refine ⟨_, ?_, .line hnl hline hlines⟩
    rw [List.map_append, map_moved_moved, hjs, hp]

theorem Lines.eq_nil_of_stop_le (h : Lines known p cs (is ++ js))
    (his : ∀ i ∈ is, i.stop.offset ≤ p.offset) : is = [] := by
  obtain ⟨e, hlaid⟩ := h.laid true
  cases is with
  | nil => rfl
  | cons i is =>
    have hbounds := hlaid.bounds (i := i) (by simp)
    have := his i List.mem_cons_self
    omega

/-- A line is cut before or behind what stands on it. -/
private theorem cut_on_line {rest : List Char} (has : as ≠ []) (hnl : '\n' ∉ as ++ rest)
    (hline : itemsOn known (as ++ rest) = some ks)
    (hmore : Lines known (p.after (as ++ rest ++ ['\n'])) cs ls)
    (hks : is ++ js = ks.map (·.moved p) ++ ls)
    (his : ∀ i ∈ is, i.stop.offset ≤ (p.after as).offset)
    (hjs : ∀ j ∈ js, (p.after as).offset ≤ j.start.offset) :
    Lines known (p.after as) (rest ++ '\n' :: cs) js := by
  have hpos := byteLength_pos has
  rcases itemsOn_eq_some hline with ⟨hnil, -⟩ | ⟨i, rfl, hstart, hstop, -⟩
  · exact absurd (List.append_eq_nil_iff.1 hnil).1 has
  · cases is with
    | nil =>
      have hle := hjs (i.moved p) (by simp [show js = _ from hks])
      simp only [Item.start_moved, hstart, Place.add, Place.after, Place.zero] at hle
      omega
    | cons k is =>
      obtain ⟨rfl, hls⟩ : k = i.moved p ∧ is ++ js = ls := List.cons.inj hks
      have hle := his (i.moved p) List.mem_cons_self
      have hrest : rest = [] := by
        by_contra hne
        have := byteLength_pos hne
        simp only [Item.stop_moved, hstop, Place.add, Place.after, Place.zero,
          byteLength_append] at hle
        omega
      subst hrest
      rw [List.append_nil, ← hls] at hmore
      obtain rfl : is = [] := hmore.eq_nil_of_stop_le fun k hk => by
        have := his k (List.mem_cons_of_mem _ hk)
        simp only [Place.after, byteLength_append] at this ⊢
        omega
      have hempty : itemsOn known [] = some [] := rfl
      rw [List.nil_append, ← Place.after_after] at hmore
      exact .line List.not_mem_nil hempty hmore

/-- A cut lies on the first line or behind it. -/
private theorem cut_first_line {as bs line cs : List Char} (h : as ++ bs = line ++ '\n' :: cs) :
    (∃ rest, line = as ++ rest ∧ bs = rest ++ '\n' :: cs) ∨
      ∃ more, as = line ++ ['\n'] ++ more ∧ cs = more ++ bs := by
  rcases List.append_eq_append_iff.1 h with ⟨rest, hrest, hbs⟩ | ⟨more, has, hmore⟩
  · exact .inl ⟨rest, hrest, hbs⟩
  · cases more with
    | nil => exact .inl ⟨[], by simpa using has.symm, by simpa using hmore.symm⟩
    | cons c more =>
      obtain ⟨rfl, hcs⟩ := List.cons.inj hmore
      exact .inr ⟨more, by simpa using has, hcs⟩

/-- What begins behind the first line is not on it. -/
private theorem cut_first_items {line : List Char} {ls ks : List Item}
    (hline : itemsOn known line = some ls) (h : is ++ js = ls.map (·.moved p) ++ ks)
    (hjs : ∀ j ∈ js, (p.after (line ++ ['\n'])).offset ≤ j.start.offset) :
    ∃ is', is = ls.map (·.moved p) ++ is' ∧ ks = is' ++ js := by
  rcases List.append_eq_append_iff.1 h with ⟨on, hls, hjs'⟩ | ⟨is', his', hks'⟩
  · cases on with
    | nil => exact ⟨[], by simpa using hls.symm, by simpa using hjs'.symm⟩
    | cons j on =>
      have hle := hjs j (by simp [hjs'])
      have hbounds := (laid_of_itemsOn hline true p).bounds (i := j) (by simp [hls])
      simp only [Place.after, byteLength_append] at hle hbounds
      omega
  · exact ⟨is', his', hks'⟩

/-- Lines can be cut within a line, before or behind what stands on it. -/
theorem Lines.cut (h : Lines known p (as ++ bs) (is ++ js))
    (his : ∀ i ∈ is, i.stop.offset ≤ (p.after as).offset)
    (hjs : ∀ j ∈ js, (p.after as).offset ≤ j.start.offset) :
    Lines known (p.after as) bs js ∧ (as = [] ∨ as.getLast? = some '\n' → Lines known p as is) := by
  generalize hcs : as ++ bs = cs at h
  generalize hks : is ++ js = ks at h
  induction h generalizing as is with
  | nil p =>
    obtain ⟨rfl, rfl⟩ := List.append_eq_nil_iff.1 hcs
    obtain ⟨rfl, rfl⟩ := List.append_eq_nil_iff.1 hks
    exact ⟨by simpa using Lines.nil p, fun _ => .nil p⟩
  | @line p line cs ls ks hnl hline hmore ih =>
    have hall := hks ▸ hcs ▸ Lines.line hnl hline hmore
    by_cases has : as = []
    · subst has
      obtain rfl := hall.eq_nil_of_stop_le (by simpa using his)
      exact ⟨by simpa using hall, fun _ => .nil p⟩
    -- The cut is on the first line, or it is one of the lines behind it.
    · rcases cut_first_line hcs with ⟨rest, rfl, rfl⟩ | ⟨more, rfl, rfl⟩
      · refine ⟨cut_on_line has hnl hline hmore hks his hjs, fun hend => ?_⟩
        have hlast := hend.resolve_left has
        exact absurd (List.mem_append_left rest (List.mem_of_getLast? hlast)) hnl
      · obtain ⟨is, rfl, rfl⟩ := cut_first_items hline hks fun j hj => by
          have hle := hjs j hj
          simp only [Place.after, byteLength_append] at hle ⊢
          omega
        have his' : ∀ i ∈ is, i.stop.offset ≤ ((p.after (line ++ ['\n'])).after more).offset :=
          fun i hi => by simpa using his i (List.mem_append_right _ hi)
        obtain ⟨hbs, hlines⟩ := ih his' (by simpa using hjs) rfl rfl
        rw [Place.after_after] at hbs
        refine ⟨hbs, fun hend => ?_⟩
        rw [List.append_assoc]
        refine .line hnl hline (hlines ?_)
        cases hm : more.getLast? with
        | none => exact .inl (List.getLast?_eq_none_iff.1 hm)
        | some c =>
          have hend := hend.resolve_left has
          rw [List.getLast?_append, hm] at hend
          exact .inr hend

/-- A reader of lines reads line by line. -/
theorem linewise (known : List KnownLine) : (reader known).Linewise where
  fits {text o} h := by
    obtain ⟨hfault, hlines⟩ := reader_eq_ok_iff.1 h
    obtain ⟨e, hlaid⟩ := hlines.laid true
    simp only [Outline.fits, hfault, Option.all_none, Option.isNone_none, itemsFit_of_laid hlaid,
      Bool.and_true, Bool.true_and, List.all_eq_true]
    intro i hi
    rw [hlaid.sound hi]
    rfl
  resume {as as' bs bs' is is' js js'} h hend _ h' _ _ := by
    have hlines := (reader_eq_ok_iff.1 h.eq_ok).2
    have hlines' := (reader_eq_ok_iff.1 h'.eq_ok).2
    rw [String.toList_ofList] at hlines hlines'
    have hstart : ∀ (cs : List Char) (ks : List Item), ∀ k ∈ ks.map (·.moved (.after .zero cs)),
        (Place.zero.after cs).offset ≤ k.start.offset := by
      simp [Place.add]
    have hstop : ∀ {cs ds ks ls}, (reader known).Reads cs ks ds ls →
        ∀ k ∈ ks, k.stop.offset ≤ (Place.zero.after cs).offset := fun h k hk => by
      simpa [Place.after, Place.zero] using h.stop_le k hk
    have hfront := (hlines.cut (hstop h) (hstart as js)).2 (.inr hend)
    have hback := (hlines'.cut (hstop h') (hstart as' js')).1
    rw [← Place.add_zero (Place.zero.after as')] at hback
    obtain ⟨ks, hks, hback⟩ := hback.exists_moved
    rw [Place.add_zero] at hks
    obtain rfl := map_moved_injective hks
    have hmoved := hback.moved (.after .zero as)
    rw [Place.add_zero] at hmoved
    refine ⟨reader_eq_ok_iff.2 ⟨rfl, ?_⟩, h.stop_le⟩
    rw [String.toList_ofList]
    exact hfront.append hmoved

end Reading

end KnownLine

end StructProjection.Go
