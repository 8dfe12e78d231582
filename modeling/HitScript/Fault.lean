import HitScript.Numeral

/-!
# Faults

The ways in which a running program can go wrong. A fault ends one call of the
interpreter; it never reaches another program.
-/
namespace HitScript

inductive Fault where
  /-- No opcode has this byte. -/
  | unknownOpcode (byte : UInt8) (offset : Nat)
  /-- An operand reaches past the end of the image. -/
  | endOfCode (ip requested available : Nat)
  /-- A jump leaves the code. -/
  | badAddress (address : Nat)
  /-- Arithmetic on a location outside the register file. -/
  | notARegister (location : UInt8)
  | divisionByZero
  deriving Repr, DecidableEq

def Fault.message : Fault → String
  | unknownOpcode byte offset =>
    let shown := Numeral.hexPadded 2 byte.toNat
    s!"invalid instruction 0x{shown} at offset {offset}"
  | endOfCode ip requested available =>
    s!"unexpected end of bytecode at {ip}: wanted {requested} bytes, {available} available"
  | badAddress address => s!"invalid instruction pointer {address}"
  | notARegister location => s!"location {location} is not a register"
  | divisionByZero => "division by zero"

end HitScript
