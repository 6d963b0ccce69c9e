/-! # Showing bytes as text -/

namespace StructProjection.Text

/-- The number of bytes that follow a first byte. -/
private def tailLength (lead : UInt8) : Nat :=
  if lead < 0xC2 || 0xF4 < lead then 0 else if lead < 0xE0 then 1 else if lead < 0xF0 then 2 else 3

private def isTail (b : UInt8) : Bool := 0x80 ≤ b && b ≤ 0xBF

/-- Which bytes can be second depends on the first: no code point has two forms, and none is a
surrogate or too large. -/
private def isSecond (lead b : UInt8) : Bool :=
  (if lead = 0xE0 then 0xA0 else if lead = 0xF0 then 0x90 else 0x80) ≤ b &&
    b ≤ (if lead = 0xED then 0x9F else if lead = 0xF4 then 0x8F else 0xBF)

/-- The bytes at the beginning that can follow a first byte. -/
private def tailOf (lead : UInt8) (bs : List UInt8) : List UInt8 :=
  match bs.take (tailLength lead) with
  | [] => []
  | b :: rest => if isSecond lead b then b :: rest.takeWhile isTail else []

/-- The character that a first byte begins, and how many of the bytes behind it belong to it. -/
private def decodeOne (lead : UInt8) (bs : List UInt8) : Char × Nat :=
  let wanted := tailLength lead
  let tail := tailOf lead bs
  if lead < 0x80 then (Char.ofNat lead.toNat, 0)
  else if 0 < wanted && tail.length = wanted then
    let start := lead.toNat % 1 <<< (6 - wanted)
    (Char.ofNat (tail.foldl (fun n b => n * 64 + b.toNat % 64) start), wanted)
  else ('\ufffd', tail.length)

private def decodeFrom : (skip : Nat) → List UInt8 → List Char
  | _, [] => []
  | skip + 1, _ :: bs => decodeFrom skip bs
  | 0, b :: bs =>
    let (c, used) := decodeOne b bs
    c :: decodeFrom used bs

/-- Decodes UTF-8. The longest beginning of a character that is broken off gives one replacement
character, and so does any other byte that belongs to none. -/
def decodeLossy (bs : List UInt8) : List Char := decodeFrom 0 bs

end StructProjection.Text
