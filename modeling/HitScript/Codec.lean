/-!
# Little-endian byte codec

A value is written as a list of bytes and read back from the front of one.
Integers have a fixed width and their low byte first; a list is a 32-bit count
followed by its elements. A reader that fails reports how far it got: what was
read before the failure is gone, and the read that failed takes nothing.
-/
namespace HitScript

/-- Why bytes could not be read as a value. -/
inductive DecodeError where
  /-- The input ends inside the value. -/
  | endOfInput
  /-- Bytes are left over where the value had to span all of them. -/
  | leftover
  | tableTooLarge
  deriving Repr, DecidableEq

/-- What reading from the front of some bytes gives, with the unread rest. -/
inductive Reading (α : Type) where
  | done (value : α) (rest : List UInt8)
  | failed (error : DecodeError) (rest : List UInt8)
  deriving Repr, DecidableEq

def Reading.andThen {α β : Type} (r : Reading α) (next : α → List UInt8 → Reading β) :
    Reading β :=
  match r with
  | .done value rest => next value rest
  | .failed error rest => .failed error rest

def Reading.map {α β : Type} (f : α → β) : Reading α → Reading β
  | .done value rest => .done (f value) rest
  | .failed error rest => .failed error rest

class Codec (α : Type) where
  encode : α → List UInt8
  /-- The length of the binary form, without building it. -/
  size : α → Nat
  /-- Reads one value from the front of the bytes. -/
  decode : List UInt8 → Reading α

namespace Codec

/-- Reads a value that has to span all of the bytes. -/
def decodeAll {α : Type} [Codec α] (bytes : List UInt8) : Except DecodeError α :=
  match decode bytes with
  | .done value [] => .ok value
  | .done _ _ => .error .leftover
  | .failed error _ => .error error

/-- The lowest `width` bytes of a number, low byte first. -/
def lowBytes : (width n : Nat) → List UInt8
  | 0, _ => []
  | width + 1, n => UInt8.ofNat n :: lowBytes width (n / 256)

/-- The number with the given bytes, low byte first. -/
def ofLowBytes : List UInt8 → Nat
  | [] => 0
  | b :: bs => b.toNat + 256 * ofLowBytes bs

def splitFront? : (count : Nat) → List UInt8 → Option (List UInt8 × List UInt8)
  | 0, bytes => some ([], bytes)
  | _ + 1, [] => none
  | count + 1, b :: bytes =>
    (splitFront? count bytes).map fun (front, rest) => (b :: front, rest)

def decodeNat (width : Nat) (bytes : List UInt8) : Reading Nat :=
  match splitFront? width bytes with
  | some (front, rest) => .done (ofLowBytes front) rest
  | none => .failed .endOfInput bytes

instance : Codec UInt8 where
  encode v := lowBytes 1 v.toNat
  size _ := 1
  decode bytes := (decodeNat 1 bytes).map UInt8.ofNat

instance : Codec UInt16 where
  encode v := lowBytes 2 v.toNat
  size _ := 2
  decode bytes := (decodeNat 2 bytes).map UInt16.ofNat

instance : Codec UInt32 where
  encode v := lowBytes 4 v.toNat
  size _ := 4
  decode bytes := (decodeNat 4 bytes).map UInt32.ofNat

/-- Negative numbers are written in two's complement. -/
instance : Codec Int16 where
  encode v := lowBytes 2 v.toUInt16.toNat
  size _ := 2
  decode bytes := (decodeNat 2 bytes).map fun n => (UInt16.ofNat n).toInt16

instance : Codec Int32 where
  encode v := lowBytes 4 v.toUInt32.toNat
  size _ := 4
  decode bytes := (decodeNat 4 bytes).map fun n => (UInt32.ofNat n).toInt32

def maxTableLength : Nat := 65536

def decodeMany {α : Type} [Codec α] : (count : Nat) → List UInt8 → Reading (List α)
  | 0, bytes => .done [] bytes
  | count + 1, bytes =>
    (decode bytes).andThen fun value rest =>
      (decodeMany count rest).map fun values => value :: values

/-- A table: its 32-bit count, then its elements. -/
instance {α : Type} [Codec α] : Codec (List α) where
  encode vs := encode (UInt32.ofNat vs.length) ++ vs.flatMap encode
  size vs := vs.foldr (fun v n => size v + n) 4
  decode bytes :=
    (decode bytes : Reading UInt32).andThen fun count rest =>
      -- the bound is checked first: a count is not trusted to be that of what follows
      if maxTableLength < count.toNat then .failed .tableTooLarge rest
      else decodeMany count.toNat rest

end Codec

structure Tag where
  first : UInt8
  second : UInt8
  third : UInt8
  fourth : UInt8
  deriving Repr, DecidableEq

namespace Tag

def toList (t : Tag) : List UInt8 := [t.first, t.second, t.third, t.fourth]

/-- A tag is read byte by byte. -/
instance : Codec Tag where
  encode t := t.toList
  size _ := 4
  decode bytes :=
    (Codec.decode bytes : Reading UInt8).andThen fun first rest =>
    (Codec.decode rest : Reading UInt8).andThen fun second rest =>
    (Codec.decode rest : Reading UInt8).andThen fun third rest =>
    (Codec.decode rest : Reading UInt8).map fun fourth => ⟨first, second, third, fourth⟩

end Tag

end HitScript
