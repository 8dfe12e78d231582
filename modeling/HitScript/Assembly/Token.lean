import HitScript.Text

/-!
# Tokens of a line

A token is a maximal run of characters that are neither commas nor blanks, in
the part of the line before the first `#` or `;`. Its column is counted in
bytes of UTF-8, from one.
-/
namespace HitScript.Assembly

structure Token where
  chars : List Char
  column : Nat
  deriving Repr, DecidableEq

namespace Token

def text (t : Token) : String := String.ofList t.chars

def labelMark : Char := ':'

def isLabel (t : Token) : Bool :=
  t.chars.getLast? == some labelMark && 1 < t.chars.length

def labelName (t : Token) : String := String.ofList t.chars.dropLast

def isExport (t : Token) : Bool :=
  Text.lower t.chars == "export".toList

end Token

def isSeparator (c : Char) : Bool := c == ',' || Text.isBlank c

def startsComment (c : Char) : Bool := c == '#' || c == ';'

/-- The tokens of characters of which the first stands in the given column. -/
def scan (column : Nat) : List Char → List Token
  | [] => []
  | c :: cs =>
    if isSeparator c then scan (column + c.utf8Size) cs
    else
      match cs.head?.filter (fun d => !isSeparator d), scan (column + c.utf8Size) cs with
      | some _, t :: ts => ⟨c :: t.chars, column⟩ :: ts
      | _, ts => ⟨[c], column⟩ :: ts

def tokenize (line : List Char) : List Token :=
  scan 1 (Text.beforeComment startsComment line)

end HitScript.Assembly
