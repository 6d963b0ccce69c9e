/-! # Byte offsets

Places in a text are counted in the bytes of its UTF-8 form.
-/

namespace StructProjection.Text

def byteLength : List Char → Nat
  | [] => 0
  | c :: cs => c.utf8Size + byteLength cs

/-- The characters that end at the offset or before it. -/
def takeBytes : Nat → List Char → List Char
  | _, [] => []
  | n, c :: cs => if c.utf8Size ≤ n then c :: takeBytes (n - c.utf8Size) cs else []

/-- The characters that `takeBytes` leaves. -/
def dropBytes : Nat → List Char → List Char
  | _, [] => []
  | n, c :: cs => if c.utf8Size ≤ n then dropBytes (n - c.utf8Size) cs else c :: cs

/-- The characters between two offsets. -/
def slice (start stop : Nat) (cs : List Char) : List Char := takeBytes (stop - start) (dropBytes start cs)

/-- No character goes across the offset, and the text reaches it. -/
def IsBoundary (n : Nat) (cs : List Char) : Prop := byteLength (takeBytes n cs) = n

instance (n : Nat) (cs : List Char) : Decidable (IsBoundary n cs) :=
  inferInstanceAs (Decidable (_ = _))

@[simp] theorem byteLength_append (as bs : List Char) :
    byteLength (as ++ bs) = byteLength as + byteLength bs := by
  induction as with
  | nil => simp [byteLength]
  | cons c as ih => simp [byteLength, ih, Nat.add_assoc]

@[simp] theorem takeBytes_append_dropBytes (n : Nat) (cs : List Char) :
    takeBytes n cs ++ dropBytes n cs = cs := by
  induction cs generalizing n with
  | nil => rfl
  | cons c cs ih => by_cases h : c.utf8Size ≤ n <;> simp [takeBytes, dropBytes, h, ih]

theorem byteLength_takeBytes_le (n : Nat) (cs : List Char) : byteLength (takeBytes n cs) ≤ n := by
  induction cs generalizing n with
  | nil => simp [takeBytes, byteLength]
  | cons c cs ih =>
    by_cases h : c.utf8Size ≤ n
    · have := ih (n - c.utf8Size)
      simp only [takeBytes, h, ↓reduceIte, byteLength]
      omega
    · simp [takeBytes, h, byteLength]

theorem takeBytes_byteLength_append (as bs : List Char) :
    takeBytes (byteLength as) (as ++ bs) = as := by
  induction as with
  | nil =>
    cases bs with
    | nil => rfl
    | cons c bs =>
      have := c.utf8Size_pos
      simp only [byteLength, List.nil_append, takeBytes]
      rw [if_neg (by omega)]
  | cons c as ih => simp [byteLength, takeBytes, ih]

theorem dropBytes_byteLength_append (as bs : List Char) :
    dropBytes (byteLength as) (as ++ bs) = bs := by
  have h := takeBytes_append_dropBytes (byteLength as) (as ++ bs)
  rw [takeBytes_byteLength_append] at h
  exact List.append_cancel_left h

theorem slice_append (as bs cs : List Char) :
    slice (byteLength as) (byteLength as + byteLength bs) (as ++ (bs ++ cs)) = bs := by
  rw [slice, Nat.add_sub_cancel_left, dropBytes_byteLength_append, takeBytes_byteLength_append]

theorem slice_between (as bs cs : List Char) :
    slice (byteLength as) (byteLength (as ++ bs)) (as ++ (bs ++ cs)) = bs := by
  rw [byteLength_append, slice_append]

theorem utf8ByteSize_ofList (cs : List Char) : (String.ofList cs).utf8ByteSize = byteLength cs := by
  induction cs with
  | nil => rfl
  | cons c cs ih => simp [byteLength, ← ih]

theorem byteLength_toList (text : String) : byteLength text.toList = text.utf8ByteSize := by
  rw [← utf8ByteSize_ofList, String.ofList_toList]

theorem byteLength_pos {cs : List Char} (h : cs ≠ []) : 0 < byteLength cs := by
  cases cs with
  | nil => exact absurd rfl h
  | cons c cs => exact Nat.add_pos_left c.utf8Size_pos _

theorem byteLength_le_of_sublist {as bs : List Char} (h : as.Sublist bs) :
    byteLength as ≤ byteLength bs := by
  induction h with
  | slnil => exact Nat.le_refl _
  | cons c _ ih => exact Nat.le_trans ih (Nat.le_add_left _ _)
  | cons_cons c _ ih => exact Nat.add_le_add_left ih _

/-- Of two ways to cut a text the one that cuts later leaves the cut of the other in its first part. -/
theorem exists_append_of_byteLength_le {as bs cs ds : List Char} (h : as ++ bs = cs ++ ds)
    (hle : byteLength as ≤ byteLength cs) : ∃ gs, cs = as ++ gs ∧ bs = gs ++ ds := by
  rcases List.append_eq_append_iff.1 h with ⟨gs, hcs, hbs⟩ | ⟨gs, has, hds⟩
  · exact ⟨gs, hcs, hbs⟩
  · have hlen : byteLength gs = 0 := by rw [has, byteLength_append] at hle; omega
    cases gs with
    | nil => exact ⟨[], by simpa using has.symm, by simpa using hds.symm⟩
    | cons c gs => exact absurd (byteLength_pos (List.cons_ne_nil c gs)) (by omega)

theorem append_inj_of_byteLength {as bs cs ds : List Char} (h : as ++ bs = cs ++ ds)
    (hlen : byteLength as = byteLength cs) : as = cs ∧ bs = ds := by
  obtain ⟨gs, rfl, rfl⟩ := exists_append_of_byteLength_le h (Nat.le_of_eq hlen)
  rw [byteLength_append] at hlen
  cases gs with
  | nil => simp
  | cons c gs => exact absurd (byteLength_pos (List.cons_ne_nil c gs)) (by omega)

/-- A boundary is where one of two parts of the text ends. -/
theorem isBoundary_iff {n : Nat} {cs : List Char} :
    IsBoundary n cs ↔ ∃ as bs, cs = as ++ bs ∧ byteLength as = n := by
  constructor
  · intro h
    exact ⟨takeBytes n cs, dropBytes n cs, (takeBytes_append_dropBytes n cs).symm, h⟩
  · rintro ⟨as, bs, rfl, rfl⟩
    rw [IsBoundary, takeBytes_byteLength_append]

/-- The number of line feeds before the offset. -/
def rowAt (n : Nat) (cs : List Char) : Nat := (takeBytes n cs).count '\n'

/-- Where the line that the offset lies in begins. -/
def lineStart (n : Nat) (cs : List Char) : Nat :=
  byteLength ((takeBytes n cs).reverse.dropWhile (· ≠ '\n'))

/-- A place in a text: how many bytes and how many line feeds stand before it. -/
structure Place where
  offset : Nat
  row : Nat
  deriving DecidableEq, Repr, Inhabited

namespace Place

def zero : Place := ⟨0, 0⟩

/-- The place behind some text that begins at `p`. -/
def after (p : Place) (cs : List Char) : Place := ⟨p.offset + byteLength cs, p.row + cs.count '\n'⟩

@[simp] theorem after_after (p : Place) (as bs : List Char) :
    (p.after as).after bs = p.after (as ++ bs) := by
  simp [after, Nat.add_assoc]

/-- The place behind the beginning of a text is a boundary, and its row is the one of its offset. -/
theorem isBoundary_after (as bs : List Char) : IsBoundary (zero.after as).offset (as ++ bs) :=
  isBoundary_iff.2 ⟨as, bs, rfl, by simp [after, zero]⟩

end Place

/-- A stretch of text, by the offsets of its first byte and of the byte after it. -/
structure Span where
  start : Nat
  stop : Nat
  deriving DecidableEq, Repr, Inhabited

namespace Span

def text (s : Span) (source : List Char) : List Char := slice s.start s.stop source

/-- The span lies in the text and cuts no character. -/
def Within (s : Span) (source : List Char) : Prop :=
  s.start ≤ s.stop ∧ IsBoundary s.start source ∧ IsBoundary s.stop source

instance (s : Span) (source : List Char) : Decidable (s.Within source) :=
  inferInstanceAs (Decidable (_ ∧ _ ∧ _))

end Span

end StructProjection.Text
