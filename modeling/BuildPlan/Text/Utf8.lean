/-!
# UTF-8

Texts as bytes and back. `ofUtf8?` is strict; `ofUtf8Lossy` puts one replacement character for each
maximal part of an ill-formed sequence: the longest run of bytes that could still have begun a
character, or else a single byte.
-/

namespace BuildPlan

/-- File contents and everything else that need not be text. -/
abbrev Bytes := List UInt8

namespace Text

def toUtf8 (s : String) : Bytes :=
  s.toUTF8.data.toList

/-- The text that the bytes encode, if they are well-formed. -/
def ofUtf8? (bytes : Bytes) : Option String :=
  String.fromUTF8? ⟨bytes.toArray⟩

def utf8Length (s : String) : Nat :=
  s.utf8ByteSize

/-! ## Lossy reading -/

def inRange (b lo hi : UInt8) : Bool :=
  lo ≤ b && b ≤ hi

/-- The number of bytes of a sequence after its first byte, with the range of its second byte;
none where no sequence starts with that byte. -/
def sequence? (b : UInt8) : Option (Nat × UInt8 × UInt8) :=
  if inRange b 0xC2 0xDF then some (1, 0x80, 0xBF)
  else if b == 0xE0 then some (2, 0xA0, 0xBF)
  else if inRange b 0xE1 0xEC then some (2, 0x80, 0xBF)
  else if b == 0xED then some (2, 0x80, 0x9F)
  else if inRange b 0xEE 0xEF then some (2, 0x80, 0xBF)
  else if b == 0xF0 then some (3, 0x90, 0xBF)
  else if inRange b 0xF1 0xF3 then some (3, 0x80, 0xBF)
  else if b == 0xF4 then some (3, 0x80, 0x8F)
  else none

/-- The character that stands for an ill-formed part. -/
def replacementChar : Char := '\uFFFD'

/-- Reads bytes from left to right. `pending` is the sequence under way: its value so far, the
number of bytes still to come and the range of the next one. -/
def lossyFrom : (pending : Option (Nat × Nat × UInt8 × UInt8)) → Bytes → List Char
  | none, [] => []
  | some _, [] => [replacementChar]
  | some (value, left, lo, hi), b :: rest =>
    if inRange b lo hi then
      let value := value * 64 + (b.toNat - 0x80)
      if left = 1 then Char.ofNat value :: lossyFrom none rest
      else lossyFrom (some (value, left - 1, 0x80, 0xBF)) rest
    else if b < 0x80 then replacementChar :: Char.ofNat b.toNat :: lossyFrom none rest
    else
      match sequence? b with
      | some (left, lo, hi) =>
        replacementChar :: lossyFrom (some (b.toNat % 2 ^ (6 - left), left, lo, hi)) rest
      | none => replacementChar :: replacementChar :: lossyFrom none rest
  | none, b :: rest =>
    if b < 0x80 then Char.ofNat b.toNat :: lossyFrom none rest
    else
      match sequence? b with
      | some (left, lo, hi) => lossyFrom (some (b.toNat % 2 ^ (6 - left), left, lo, hi)) rest
      | none => replacementChar :: lossyFrom none rest

/-- The text of the bytes, with each ill-formed part replaced. -/
def ofUtf8Lossy (bytes : Bytes) : String :=
  String.ofList (lossyFrom none bytes)

end Text

end BuildPlan
