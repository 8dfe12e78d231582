import HitScript.Notice

/-!
# Settings

The settings come from named texts, such as the variables of a process. A text
that is no good is ignored, with a notice, so the numbers are always positive.
-/
namespace HitScript

/-- The least level that the log shows before the settings are known. -/
def Config.defaultLevel : Level := .info

structure Config where
  /-- How many opcodes a subroutine may run in a frame. -/
  opcodeBudget : UInt32 := 4096
  /-- How many milliseconds a frame takes off a wait. -/
  tick : Int32 := 16
  level : Level := Config.defaultLevel
  deriving Repr, DecidableEq

namespace Config

def budgetSetting : String := "HITVM_OPCODE_BUDGET"

def tickSetting : String := "HITVM_TICK_MS"

def levelSetting : String := "HITVM_LOG"

/-- Takes over a setting if its text can be read. -/
def override {α : Type} (read? : String → Option α) (complaint : String → Notice)
    (apply : α → Config) (keep : Config) : Option String → Config × List Notice
  | none => (keep, [])
  | some raw =>
    match read? raw with
    | some value => (apply value, [])
    | none => (keep, [complaint raw])

def ofLookup (lookup : String → Option String) : Config × List Notice :=
  let positive? (limit : Int) (raw : String) := Numeral.positive? limit (Text.trim raw.toList)
  let c : Config := {}
  let (c, ns₁) := override (positive? Numeral.wordLimit) (.ignoredNumber budgetSetting)
    (fun n => { c with opcodeBudget := UInt32.ofNat n }) c (lookup budgetSetting)
  let (c, ns₂) := override (positive? Numeral.int32Limit) (.ignoredNumber tickSetting)
    (fun n => { c with tick := Int32.ofNat n }) c (lookup tickSetting)
  let (c, ns₃) := override Level.parse? (.ignoredLevel levelSetting)
    (fun level => { c with level := level }) c (lookup levelSetting)
  (c, ns₁ ++ ns₂ ++ ns₃)

end Config

/-- How many opcodes may be run, and how many were. -/
structure Budget where
  limit : UInt32
  used : UInt32 := 0
  deriving Repr, DecidableEq

namespace Budget

def left (b : Budget) : Nat := b.limit.toNat - b.used.toNat

/-- Takes one opcode, if there is one left. -/
def take? (b : Budget) : Option Budget :=
  if b.used < b.limit then some { b with used := b.used + 1 } else none

end Budget

/-- The budget at the start of a turn. -/
def Config.budget (c : Config) : Budget := { limit := c.opcodeBudget }

@[simp] theorem Config.left_budget (c : Config) : c.budget.left = c.opcodeBudget.toNat := rfl

end HitScript
