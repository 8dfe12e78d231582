import HitScript.Assembly.Token

/-!
# Statements of a source

A line holds an export directive, or a label definition, or an instruction, or
a label definition and an instruction behind it. Nothing is checked yet: an
instruction is whatever is neither an export directive nor a label.
-/
namespace HitScript.Assembly

inductive Statement where
  | exporting (line : Nat) (head : Token) (arguments : List Token)
  | label (line : Nat) (head : Token)
  | instruction (line : Nat) (head : Token) (arguments : List Token)
  deriving Repr, DecidableEq

namespace Statement

def ofTokens (line : Nat) : List Token → List Statement
  | [] => []
  | head :: rest =>
    if head.isExport then [exporting line head rest]
    else if head.isLabel then
      label line head ::
        match rest with
        | [] => []
        | mnemonic :: arguments => [instruction line mnemonic arguments]
    else [instruction line head rest]

end Statement

/-- The statements of the lines, of which the first has the given number. -/
def statementsFrom (line : Nat) : List (List Char) → List Statement
  | [] => []
  | cs :: rest => Statement.ofTokens line (tokenize cs) ++ statementsFrom (line + 1) rest

def statements (source : List Char) : List Statement :=
  statementsFrom 1 (Text.lines source)

end HitScript.Assembly
