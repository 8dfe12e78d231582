import HitScript.Image
import HitScript.Numeral
import HitScript.Text

/-!
# What can be wrong with an assembly source

A cause says what is wrong with one token or one statement; an error adds the
line and the column of a token. The finished image can be refused as well,
which has no place in the source.
-/
namespace HitScript.Assembly

/-- What a token was to denote. -/
inductive Role where
  | location
  | imm8
  | imm32
  | address
  | trackId
  deriving Repr, DecidableEq

def Role.name : Role → String
  | .location => "variable"
  | .imm8 => "imm8"
  | .imm32 => "imm32"
  | .address => "address"
  | .trackId => "track id"

inductive Cause where
  | unknownMnemonic (name : String)
  | arity (statement : String) (expected actual : Nat)
  | badOperand (role : Role) (token : String)
  /-- A jump to an offset that would be read as a jump through a variable. -/
  | narrowJump (token : String) (address : UInt32)
  | duplicateLabel (label : String)
  | undefinedLabel (label : String)
  deriving Repr, DecidableEq

def Cause.message : Cause → String
  | .unknownMnemonic name => s!"invalid instruction name: {name}"
  | .arity statement expected actual =>
    s!"{statement} expects {expected} operands, got {actual}"
  | .badOperand role token => s!"invalid {role.name} operand: {token}"
  | .narrowJump token address =>
    let shown := Numeral.hex address.toNat
    s!"invalid jump address (low byte must exceed 15) operand: {token} = 0x{shown}"
  | .duplicateLabel label => s!"duplicate label: {label}"
  | .undefinedLabel label => s!"undefined label: {label}"

inductive Error where
  /-- The statement at this line and column, both counted from one and the
  column in bytes, is wrong. -/
  | located (line column : Nat) (cause : Cause)
  | image (error : ImageError)
  deriving Repr, DecidableEq

namespace Error

/-- The line of the source under a caret that points to the column. -/
def excerpt (source : List Char) (line column : Nat) : String :=
  match (Text.lines source)[line - 1]? with
  | none => ""
  | some cs =>
    let number := Numeral.padLeft 4 ' ' (toString line)
    let text := String.ofList (Text.dropEndWhile (· == '\r') cs)
    let indent := String.ofList (List.replicate (column - 1) ' ')
    s!"  |\n{number} | {text}\n  | {indent}^\n"

/-- The report of an error in the source that was read from `file`. -/
def diagnostic (file : String) (source : List Char) (error : Error) : String :=
  match error with
  | located line column cause =>
    let shown := excerpt source line column
    s!"error: {cause.message}\n --> {file}:{line}:{column}\n{shown}"
  | image malformed => s!"error: malformed program: {malformed.reason}"

end Error

end HitScript.Assembly
