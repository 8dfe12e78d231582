import HitScript.Text

/-!
# Log levels
-/
namespace HitScript

/-- How much a line of the log matters, from least to most. -/
inductive Level where
  | debug
  | info
  | warn
  | error
  deriving Repr, DecidableEq

namespace Level

def rank : Level → Nat
  | debug => 0
  | info => 1
  | warn => 2
  | error => 3

def name : Level → String
  | debug => "DEBUG"
  | info => "INFO"
  | warn => "WARN"
  | error => "ERROR"

/-- The level with this name, in any case and between blanks. -/
def parse? (s : String) : Option Level :=
  let folded := Text.fold s
  if folded = "debug" then some debug
  else if folded = "info" then some info
  else if folded = "warn" ∨ folded = "warning" then some warn
  else if folded = "error" then some error
  else none

def isShown (level least : Level) : Bool := !decide (level.rank < least.rank)

def tagged (level : Level) (message : String) : String := s!"[{level.name}] {message}\n"

/-- What a log that starts at `least` shows of a message: nothing below that
level, else one line, tagged with the level if asked for. -/
def line (least : Level) (withTag : Bool) (level : Level) (message : String) : String :=
  if !level.isShown least then ""
  else if withTag then level.tagged message
  else s!"{message}\n"

end Level

end HitScript
