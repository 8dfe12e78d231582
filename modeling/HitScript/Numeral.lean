import HitScript.Text

/-!
# Integer numerals

A numeral is a decimal integer or `0x` and a hexadecimal one. Signs are
generous: one minus may stand in front of everything, and the digits after it
(or after `0x`) may have a sign of their own. The digits with their own sign
denote a number of 64 bits.

The module also writes hexadecimal digits.
-/
namespace HitScript.Numeral

/-- The numbers of 64 bits lie from minus this up to, and without, this. -/
def int64Limit : Int := 9223372036854775808

/-- The signed words lie from minus this up to, and without, this. -/
def int32Limit : Int := 2147483648

/-- The unsigned words lie from zero up to, and without, this. -/
def wordLimit : Int := 4294967296

def digit? (radix : Nat) (c : Char) : Option Nat :=
  let value :=
    if '0' ≤ c ∧ c ≤ '9' then some (c.toNat - 48)
    else if 'a' ≤ c ∧ c ≤ 'f' then some (c.toNat - 87)
    else if 'A' ≤ c ∧ c ≤ 'F' then some (c.toNat - 55)
    else none
  value.filter (· < radix)

/-- Reads on: `n` is the value of the digits before. -/
def digits? (radix n : Nat) : List Char → Option Nat
  | [] => some n
  | c :: cs => (digit? radix c).bind fun d => digits? radix (n * radix + d) cs

def magnitude? (radix : Nat) : List Char → Option Nat
  | [] => none
  | cs => digits? radix 0 cs

/-- Digits with at most one sign. -/
def signed? (radix : Nat) : List Char → Option Int
  | '+' :: cs => (magnitude? radix cs).map Int.ofNat
  | '-' :: cs => (magnitude? radix cs).map fun n => -Int.ofNat n
  | cs => (magnitude? radix cs).map Int.ofNat

def int64? (radix : Nat) (cs : List Char) : Option Int :=
  (signed? radix cs).filter fun v => decide (-int64Limit ≤ v ∧ v < int64Limit)

/-- A numeral without the sign in front. -/
def unsignedForm? : List Char → Option Int
  | '0' :: 'x' :: cs => int64? 16 cs
  | '0' :: 'X' :: cs => int64? 16 cs
  | cs => int64? 10 cs

def parseChars? : List Char → Option Int
  -- what follows may have a sign too, so two minuses denote a positive number
  | '-' :: cs => (unsignedForm? cs).map fun v => -v
  | cs => unsignedForm? cs

def parse? (s : String) : Option Int :=
  parseChars? s.toList

def parseIn? (lo hi : Int) (s : String) : Option Int :=
  (parse? s).filter fun v => decide (lo ≤ v ∧ v < hi)

def word? (s : String) : Option UInt32 :=
  (parseIn? 0 wordLimit s).map fun v => UInt32.ofNat v.toNat

/-- A positive decimal number below `limit`. A plus sign is allowed. -/
def positive? (limit : Int) (cs : List Char) : Option Nat :=
  ((signed? 10 cs).filter fun v => decide (0 < v ∧ v < limit)).map Int.toNat

def hex (n : Nat) : String :=
  String.ofList (Nat.toDigits 16 n)

/-- The text filled up with `fill` on the left to at least `width` characters. -/
def padLeft (width : Nat) (fill : Char) (s : String) : String :=
  String.ofList (List.replicate (width - s.length) fill ++ s.toList)

def hexPadded (width n : Nat) : String :=
  padLeft width '0' (hex n)

end HitScript.Numeral
