/-!
# Reading UTF-8

A byte sequence is read character by character.  The lead byte fixes the
number of bytes and the range of the second one; every later byte lies
between 80 and BF.  The lenient reading replaces each longest beginning of
a character that breaks off by one U+FFFD.
-/

namespace LintLayer.Text.Utf8

/-- The bytes that may follow a lead byte, each as its least and greatest
value.  A byte that starts no character has none. -/
def followers (lead : Nat) : Option (List (Nat × Nat)) :=
  let tail := (0x80, 0xBF)
  if lead < 0x80 then some []
  else if lead < 0xC2 then none
  else if lead < 0xE0 then some [tail]
  else if lead = 0xE0 then some [(0xA0, 0xBF), tail]
  else if lead = 0xED then some [(0x80, 0x9F), tail]
  else if lead < 0xF0 then some [tail, tail]
  else if lead = 0xF0 then some [(0x90, 0xBF), tail, tail]
  else if lead < 0xF4 then some [tail, tail, tail]
  else if lead = 0xF4 then some [(0x80, 0x8F), tail, tail]
  else none

/-- The bytes that follow in range, and whether all of them do. -/
def takeFollowers : List (Nat × Nat) → List UInt8 → List UInt8 × Bool
  | [], _ => ([], true)
  | _ :: _, [] => ([], false)
  | (least, greatest) :: ranges, b :: bytes =>
    if least ≤ b.toNat ∧ b.toNat ≤ greatest then
      let (taken, complete) := takeFollowers ranges bytes
      (b :: taken, complete)
    else ([], false)

/-- The bits of a lead byte that belong to the character. -/
def leadBits (lead : Nat) : Nat :=
  if lead < 0x80 then lead
  else if lead < 0xE0 then lead % 0x20
  else if lead < 0xF0 then lead % 0x10
  else lead % 0x08

/-- One step of reading: a character, or nothing for a broken one, and the
number of bytes after the lead byte that belong to it. -/
def step (lead : UInt8) (bytes : List UInt8) : Option Char × Nat :=
  match followers lead.toNat with
  | none => (none, 0)
  | some ranges =>
    let (taken, complete) := takeFollowers ranges bytes
    let value := taken.foldl (fun value b => value * 0x40 + b.toNat % 0x40) (leadBits lead.toNat)
    (if complete then some (Char.ofNat value) else none, taken.length)

/-- The characters of the bytes, nothing for a broken one.  The first
`skip` bytes belong to the character before. -/
def read : Nat → List UInt8 → List (Option Char)
  | _, [] => []
  | skip + 1, _ :: bytes => read skip bytes
  | 0, lead :: bytes =>
    let (c, taken) := step lead bytes
    c :: read taken bytes

/-- The text of the bytes, if all of them are characters. -/
def decode? (bytes : List UInt8) : Option String :=
  ((read 0 bytes).mapM id).map String.ofList

/-- The text of the bytes with U+FFFD for what is broken. -/
def decodeLossy (bytes : List UInt8) : String :=
  String.ofList ((read 0 bytes).map fun c => c.getD (Char.ofNat 0xFFFD))

end LintLayer.Text.Utf8
