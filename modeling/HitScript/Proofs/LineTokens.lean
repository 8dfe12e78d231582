import HitScript.Assembly.Token
import HitScript.Proofs.PlainText
import Mathlib.Algebra.GroupWithZero.Nat
import Mathlib.Data.List.TakeWhile

/-!
# Lines and their tokens

A text is put together from lines and a line from words and gaps. Cutting it up
again gives the lines back, and the words as tokens, each with the column in
which it was put.
-/
namespace HitScript.Text

theorem lines_cons {c : Char} (hfeed : c ≠ '\n') (hreturn : c ≠ '\r') (cs : List Char) :
    lines (c :: cs) =
      match lines cs with
      | [] => [[c]]
      | l :: ls => (c :: l) :: ls :=
  lines.eq_4 c cs hfeed fun _ hc _ => hreturn hc

/-- The text has no end of a line in it, and no character that an end of a line
takes along. -/
def Unbroken (cs : List Char) : Prop := ∀ c ∈ cs, c ≠ '\n' ∧ c ≠ '\r'

theorem lines_line {line : List Char} (h : Unbroken line) (rest : List Char) :
    lines (line ++ '\n' :: rest) = line :: lines rest := by
  induction line with
  | nil => rw [List.nil_append, lines]
  | cons c line ih =>
      obtain ⟨hfeed, hreturn⟩ := h c List.mem_cons_self
      rw [List.cons_append, lines_cons hfeed hreturn,
        ih fun c hc => h c (List.mem_cons_of_mem _ hc)]

theorem lines_last {line : List Char} (h : Unbroken line) (hne : line ≠ []) :
    lines line = [line] := by
  induction line with
  | nil => exact absurd rfl hne
  | cons c line ih =>
      obtain ⟨hfeed, hreturn⟩ := h c List.mem_cons_self
      rw [lines_cons hfeed hreturn]
      cases line with
      | nil => rfl
      | cons d line =>
          rw [ih (fun c hc => h c (List.mem_cons_of_mem _ hc)) (List.cons_ne_nil d line)]

end HitScript.Text

namespace HitScript.Assembly

/-- The number of bytes of the characters. -/
def width (cs : List Char) : Nat := (cs.map Char.utf8Size).sum

theorem width_cons (c : Char) (cs : List Char) : width (c :: cs) = c.utf8Size + width cs := rfl

theorem width_append (cs ds : List Char) : width (cs ++ ds) = width cs + width ds := by
  rw [width, List.map_append, List.sum_append]
  rfl

/-- A word ends in front of this. -/
def EndsWord (cs : List Char) : Prop := ∀ c ∈ cs.head?, isSeparator c = true

/-- No word goes on behind the text. -/
def Opens (cs : List Char) : Prop := ∀ c ∈ cs.getLast?, isSeparator c = true

theorem opens_gap {gap : List Char} (h : ∀ c ∈ gap, isSeparator c = true) : Opens gap :=
  fun c hc => h c (List.mem_of_mem_getLast? hc)

theorem scan_gap {gap : List Char} (h : ∀ c ∈ gap, isSeparator c = true) (column : Nat)
    (cs : List Char) : scan column (gap ++ cs) = scan (column + width gap) cs := by
  induction gap generalizing column with
  | nil => rfl
  | cons c gap ih =>
      rw [List.cons_append, scan, if_pos (h c List.mem_cons_self),
        ih (fun c hc => h c (List.mem_cons_of_mem _ hc)), width_cons, Nat.add_assoc]

theorem scan_word {word : List Char} (hne : word ≠ [])
    (h : ∀ c ∈ word, isSeparator c = false) {cs : List Char} (hcs : EndsWord cs) (column : Nat) :
    scan column (word ++ cs) = ⟨word, column⟩ :: scan (column + width word) cs := by
  induction word generalizing column with
  | nil => exact absurd rfl hne
  | cons c word ih =>
      have hc : ¬ isSeparator c = true := by
        rw [h c List.mem_cons_self]
        exact Bool.false_ne_true
      rw [List.cons_append, scan, if_neg hc]
      cases word with
      | nil =>
          -- The character is the last of its word: what follows ends it.
          have hlast : cs.head?.filter (fun d => !isSeparator d) = none := by
            rw [Option.filter_eq_none_iff]
            intro d hd
            simp [hcs d hd]
          rw [List.nil_append, hlast]
          rfl
      | cons d word =>
          have hd : isSeparator d = false := h d (by simp)
          have hnext : ((d :: word) ++ cs).head?.filter (fun d => !isSeparator d) = some d := by
            simp [hd]
          rw [hnext, ih (List.cons_ne_nil d word) (fun c hc => h c (List.mem_cons_of_mem _ hc)),
            width_cons c, Nat.add_assoc]

/-- What holds of gaps, and of a text whenever it holds behind its first word, holds of
every text. -/
@[elab_as_elim]
theorem induction_on_words {P : List Char → Prop} (cs : List Char)
    (gap : ∀ cs, (∀ c ∈ cs, isSeparator c = true) → P cs)
    (word : ∀ gap word rest, (∀ c ∈ gap, isSeparator c = true) → word ≠ [] →
      (∀ c ∈ word, isSeparator c = false) → EndsWord rest → P rest → P (gap ++ (word ++ rest))) :
    P cs :=
  Text.induction_on_words isSeparator cs gap word

theorem tokenize_eq_scan {line : List Char} (h : ∀ c ∈ line, startsComment c = false) :
    tokenize line = scan 1 line := by
  have hwhole : Text.beforeComment startsComment line = line :=
    List.takeWhile_eq_self_iff.mpr fun c hc => by simp [h c hc]
  rw [tokenize, hwhole]

end HitScript.Assembly
