/-!
# Lines, fields and case of plain text

Every text the library reads (assembly sources, event lists, symbol lists,
settings) is cut up with the functions of this module. They work on lists of
characters, so that each one is a structural recursion. Blanks are the
characters of the Unicode property White_Space; changes of case touch the
ASCII letters only.
-/
namespace HitScript.Text

/-- The Unicode property White_Space. -/
def isBlank (c : Char) : Bool :=
  let n := c.toNat
  (9 ≤ n && n ≤ 13) || n == 0x20 || n == 0x85 || n == 0xA0 || n == 0x1680 ||
    (0x2000 ≤ n && n ≤ 0x200A) || n == 0x2028 || n == 0x2029 || n == 0x202F ||
    n == 0x205F || n == 0x3000

def dropEndWhile (p : Char → Bool) (cs : List Char) : List Char :=
  (cs.reverse.dropWhile p).reverse

def trim (cs : List Char) : List Char :=
  dropEndWhile isBlank (cs.dropWhile isBlank)

/-- Replaces each ASCII capital by its small letter. -/
def lower (cs : List Char) : List Char :=
  cs.map Char.toLower

/-- Trimmed and lower-cased: the form in which names are compared. -/
def fold (s : String) : String :=
  String.ofList (lower (trim s.toList))

/-- The pieces between separators; there is one more piece than separators. -/
def fields (isSeparator : Char → Bool) : List Char → List (List Char)
  | [] => [[]]
  | c :: cs =>
    if isSeparator c then [] :: fields isSeparator cs
    else
      match fields isSeparator cs with
      | [] => [[c]]
      | f :: fs => (c :: f) :: fs

def words (cs : List Char) : List (List Char) :=
  (fields isBlank cs).filter (fun w => !w.isEmpty)

/-- The lines of a text. A line ends at a line feed, which takes one carriage
return before it along; text after the last line feed is a line if there is
any. -/
def lines : List Char → List (List Char)
  | [] => []
  | '\n' :: cs => [] :: lines cs
  | '\r' :: '\n' :: cs => [] :: lines cs
  | c :: cs =>
    match lines cs with
    | [] => [[c]]
    | l :: ls => (c :: l) :: ls

def beforeComment (starts : Char → Bool) (cs : List Char) : List Char :=
  cs.takeWhile (fun c => !starts c)

end HitScript.Text
