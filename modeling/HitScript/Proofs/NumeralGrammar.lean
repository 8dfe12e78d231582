import HitScript.Proofs.WrittenNumerals
import Mathlib.Data.List.Forall2
import Mathlib.Data.Nat.Digits.Defs
import Mathlib.Tactic.Ring

/-!
# The grammar of numerals

The reader of numerals takes a text apart from the left: a minus in front, then `0x`,
then a sign of the digits, then the digits. This module describes the numerals without
the reader, from the digits outwards, and shows that the reader accepts the texts of
this grammar and no others, with the number that the grammar gives them.

Each layer of the grammar belongs to one function of the reader, and the two are joined
by one equivalence. The layers overlap (a minus may be the one in front or the sign of
the digits, a zero may be a digit or begin a `0x`), so each equivalence also says that
the layer above does not take away what belongs to the layer below.
-/
namespace HitScript.Numeral

section digits
variable {radix d n m : Nat} {c : Char} {cs : List Char}

/-- The character is the digit `d` of the radix, in a letter of either size. -/
def IsDigit (radix : Nat) (c : Char) (d : Nat) : Prop :=
  d < radix ∧ c.toLower = d.digitChar

/-- The text is one or more digits of the radix, and `n` is their value: the last digit
counts for itself, and each place before it weighs `radix` times as much as the next. -/
def Digits (radix : Nat) (cs : List Char) (n : Nat) : Prop :=
  cs ≠ [] ∧ ∃ ds, List.Forall₂ (IsDigit radix) cs ds ∧ n = Nat.ofDigits radix ds.reverse

theorem toNat_digitChar (hd : d < 16) :
    d.digitChar.toNat = if d < 10 then d + 48 else d + 87 := by
  have hvalue : ∀ d : Fin 16,
      d.val.digitChar.toNat = if d.val < 10 then d.val + 48 else d.val + 87 := by decide
  exact hvalue ⟨d, hd⟩

theorem digit?_eq_some_iff (hradix : radix ≤ 16) :
    digit? radix c = some d ↔ IsDigit radix c d := by
  constructor
  · intro h
    rw [digit?_eq, Option.filter_eq_some_iff, decide_eq_true_iff] at h
    obtain ⟨hvalue, hd⟩ := h
    refine ⟨hd, Char.toNat_inj.mp ?_⟩
    rw [Text.toNat_toLower, toNat_digitChar (Nat.lt_of_lt_of_le hd hradix)]
    split_ifs at hvalue ⊢ <;> simp only [Option.some.injEq] at hvalue <;> omega
  · intro h
    obtain ⟨hd, hc⟩ := h
    rw [← digit?_toLower, hc, digit?_digitChar hradix hd]

/-- The digits that were read before count as one more digit, in front of the others. -/
theorem digits?_eq_some_iff (hradix : radix ≤ 16) :
    digits? radix n cs = some m ↔
      ∃ ds, List.Forall₂ (IsDigit radix) cs ds ∧ m = Nat.ofDigits radix (ds.reverse ++ [n]) := by
  induction cs generalizing n with
  | nil => simp [digits?, eq_comm]
  | cons c cs ih =>
      have hfront (d : Nat) (ds : List Nat) :
          Nat.ofDigits radix (ds.reverse ++ [n * radix + d]) =
            Nat.ofDigits radix ((d :: ds).reverse ++ [n]) := by
        simp only [List.reverse_cons, List.append_assoc, List.singleton_append,
          Nat.ofDigits_append, Nat.ofDigits_cons, Nat.ofDigits_nil]
        ring
      rw [digits?, Option.bind_eq_some_iff]
      simp only [ih, digit?_eq_some_iff hradix, List.forall₂_cons_left_iff]
      constructor
      · rintro ⟨d, hd, ds, hds, rfl⟩
        exact ⟨d :: ds, ⟨d, ds, hd, hds, rfl⟩, hfront d ds⟩
      · rintro ⟨_, ⟨d, ds, hd, hds, rfl⟩, rfl⟩
        exact ⟨d, hd, ds, hds, (hfront d ds).symm⟩

theorem magnitude?_eq_some_iff (hradix : radix ≤ 16) :
    magnitude? radix cs = some n ↔ Digits radix cs n := by
  cases cs with
  | nil => simp [magnitude?, Digits]
  | cons c cs =>
      rw [magnitude?_eq (List.cons_ne_nil c cs), digits?_eq_some_iff hradix, Digits,
        and_iff_right (List.cons_ne_nil c cs)]
      simp only [Nat.ofDigits_append_zero]

end digits

section layers
variable {radix : Nat} {cs : List Char} {v : Int}

/-- Digits, with at most one sign before them. -/
inductive Signed (radix : Nat) : List Char → Int → Prop
  | bare {cs : List Char} {n : Nat} : Digits radix cs n → Signed radix cs n
  | plus {cs : List Char} {n : Nat} : Digits radix cs n → Signed radix ('+' :: cs) n
  | minus {cs : List Char} {n : Nat} : Digits radix cs n → Signed radix ('-' :: cs) (-n)

/-- A number of 64 bits. -/
def IsInt64 (v : Int) : Prop := -int64Limit ≤ v ∧ v < int64Limit

/-- A decimal number of 64 bits, or a hexadecimal one behind `0x`. The sign, if there is
one, belongs to the digits: it comes behind the `0x`. -/
inductive Body : List Char → Int → Prop
  | decimal {cs : List Char} {v : Int} : Signed 10 cs v → IsInt64 v → Body cs v
  | hexadecimal {x : Char} {cs : List Char} {v : Int} :
      x = 'x' ∨ x = 'X' → Signed 16 cs v → IsInt64 v → Body ('0' :: x :: cs) v

/-- The text is a numeral for the number. A minus that comes first is always the one in
front: what is behind it has to be a number of 64 bits, and is negated. The lowest number
therefore has no decimal numeral, since its opposite is too large. -/
inductive Denotes : List Char → Int → Prop
  | plain {cs : List Char} {v : Int} : cs.head? ≠ some '-' → Body cs v → Denotes cs v
  | negated {cs : List Char} {v : Int} : Body cs v → Denotes ('-' :: cs) (-v)

theorem signed?_eq_some_iff (hradix : radix ≤ 16) :
    signed? radix cs = some v ↔ Signed radix cs v := by
  constructor
  · fun_cases signed? radix cs with
    | case1 cs =>
        intro h
        obtain ⟨n, hn, rfl⟩ := Option.map_eq_some_iff.mp h
        exact .plus ((magnitude?_eq_some_iff hradix).mp hn)
    | case2 cs =>
        intro h
        obtain ⟨n, hn, rfl⟩ := Option.map_eq_some_iff.mp h
        exact .minus ((magnitude?_eq_some_iff hradix).mp hn)
    | case3 cs hplus hminus =>
        intro h
        obtain ⟨n, hn, rfl⟩ := Option.map_eq_some_iff.mp h
        exact .bare ((magnitude?_eq_some_iff hradix).mp hn)
  · intro h
    cases h with
    | bare hdigits => exact signed?_of_magnitude? ((magnitude?_eq_some_iff hradix).mpr hdigits)
    | plus hdigits =>
        rw [signed?, (magnitude?_eq_some_iff hradix).mpr hdigits]
        rfl
    | minus hdigits =>
        rw [signed?, (magnitude?_eq_some_iff hradix).mpr hdigits]
        rfl

theorem int64?_eq_some_iff (hradix : radix ≤ 16) :
    int64? radix cs = some v ↔ Signed radix cs v ∧ IsInt64 v := by
  rw [int64?, Option.filter_eq_some_iff, signed?_eq_some_iff hradix, decide_eq_true_iff, IsInt64]

/-- Behind a zero, an `x` is no decimal digit, so a decimal number does not begin like a
hexadecimal one. -/
theorem not_signed_x {x : Char} (hx : x = 'x' ∨ x = 'X') : ¬ Signed 10 ('0' :: x :: cs) v := by
  rw [← signed?_eq_some_iff (by decide)]
  obtain rfl | rfl := hx <;> exact nofun

theorem unsignedForm?_eq_some_iff : unsignedForm? cs = some v ↔ Body cs v := by
  constructor
  · fun_cases unsignedForm? cs with
    | case1 cs =>
        intro h
        obtain ⟨hsigned, hrange⟩ := (int64?_eq_some_iff (by decide)).mp h
        exact .hexadecimal (.inl rfl) hsigned hrange
    | case2 cs =>
        intro h
        obtain ⟨hsigned, hrange⟩ := (int64?_eq_some_iff (by decide)).mp h
        exact .hexadecimal (.inr rfl) hsigned hrange
    | case3 cs hsmall hlarge =>
        intro h
        obtain ⟨hsigned, hrange⟩ := (int64?_eq_some_iff (by decide)).mp h
        exact .decimal hsigned hrange
  · intro h
    cases h with
    | decimal hsigned hrange =>
        fun_cases unsignedForm? cs with
        | case1 cs => exact (not_signed_x (.inl rfl) hsigned).elim
        | case2 cs => exact (not_signed_x (.inr rfl) hsigned).elim
        | case3 cs hsmall hlarge => exact (int64?_eq_some_iff (by decide)).mpr ⟨hsigned, hrange⟩
    | hexadecimal hx hsigned hrange =>
        have hread := (int64?_eq_some_iff (by decide)).mpr ⟨hsigned, hrange⟩
        obtain rfl | rfl := hx <;> exact hread

theorem parseChars?_eq_some_iff : parseChars? cs = some v ↔ Denotes cs v := by
  constructor
  · fun_cases parseChars? cs with
    | case1 cs =>
        intro h
        obtain ⟨w, hw, rfl⟩ := Option.map_eq_some_iff.mp h
        exact .negated (unsignedForm?_eq_some_iff.mp hw)
    | case2 cs hminus =>
        intro h
        have hhead : cs.head? ≠ some '-' := by
          intro hfirst
          obtain ⟨rest, rfl⟩ := List.head?_eq_some_iff.mp hfirst
          exact hminus rest rfl
        exact .plain hhead (unsignedForm?_eq_some_iff.mp h)
  · intro h
    cases h with
    | plain hhead hbody =>
        fun_cases parseChars? cs with
        | case1 cs => exact (hhead rfl).elim
        | case2 cs hminus => exact unsignedForm?_eq_some_iff.mpr hbody
    | negated hbody =>
        rw [parseChars?, unsignedForm?_eq_some_iff.mpr hbody]
        rfl

theorem Body.isInt64 (h : Body cs v) : IsInt64 v := by
  cases h <;> assumption

/-- Only the opposite of the lowest number leaves the 64 bits. -/
theorem Denotes.isInt64 (h : Denotes cs v)
    (hlowest : ∀ rest, cs = '-' :: rest → ¬ Body rest (-int64Limit)) : IsInt64 v := by
  cases h with
  | plain hhead hbody => exact hbody.isInt64
  | @negated rest v hbody =>
      have hne : v ≠ -int64Limit := by
        rintro rfl
        exact hlowest rest rfl hbody
      obtain ⟨hlow, hhigh⟩ := hbody.isInt64
      constructor <;> omega

end layers

section writing

/-- The number behind `0x` in at least `width` hexadecimal digits. A negative number has
a minus in front, and its absolute value behind `0x`. -/
def hexNumeral (width : Nat) (n : Int) : String :=
  (if n < 0 then "-0x" else "0x") ++ hexPadded width n.natAbs

theorem parse?_toString {n : Int} (h : |n| < int64Limit) : parse? (toString n) = some n := by
  rw [abs_lt] at h
  rw [Int.toString_eq_repr, parse?]
  exact (Writes.decimal n).parseChars? h.1 h.2

theorem toList_hexNumeral (width : Nat) (n : Int) :
    (hexNumeral width n).toList =
      if n < 0 then '-' :: '0' :: 'x' :: (hexPadded width n.natAbs).toList
      else '0' :: 'x' :: (hexPadded width n.natAbs).toList := by
  rw [hexNumeral, String.toList_append]
  split_ifs <;> rfl

theorem parse?_hexNumeral {n : Int} (h : |n| < int64Limit) (width : Nat) :
    parse? (hexNumeral width n) = some n := by
  have hread : int64? 16 (hexPadded width n.natAbs).toList = some |n| := by
    rw [← Int.natCast_natAbs] at h ⊢
    exact int64?_of_magnitude? (magnitude?_hexPadded width n.natAbs) h
  rw [parse?, toList_hexNumeral]
  split_ifs with hn
  · rw [parseChars?, unsignedForm?, hread, Option.map_some, abs_of_neg hn, neg_neg]
  · rw [parseChars?, unsignedForm?, hread, abs_of_nonneg (by omega)]
    · exact nofun

end writing

/-- A text is read as a number exactly when it is a numeral for it, and the number then
has 64 bits, unless what is behind the minus in front is the lowest number, whose
opposite has more. Every number between the lowest and its opposite is read from its
decimal text and from its hexadecimal one. -/
theorem numerals_follow_the_grammar :
    (∀ text : String, (∀ rest, text.toList = '-' :: rest → ¬ Body rest (-int64Limit)) →
      ∀ v, (parse? text = some v ↔ Denotes text.toList v) ∧
        (parse? text = some v → IsInt64 v)) ∧
    ∀ n : Int, |n| < int64Limit →
      parse? (toString n) = some n ∧ ∀ width, parse? (hexNumeral width n) = some n := by
  constructor
  · intro text hlowest v
    have hread : parse? text = some v ↔ Denotes text.toList v := parseChars?_eq_some_iff
    exact ⟨hread, fun h => (hread.mp h).isInt64 hlowest⟩
  · intro n hn
    exact ⟨parse?_toString hn, parse?_hexNumeral hn⟩

/-- The largest number, with a sign in every place that has room for one. -/
def twiceNegated : String := "-0X-7fffffffFFFFFFFF"

theorem numerals_follow_the_grammar_twiceNegated :
    (∀ rest, twiceNegated.toList = '-' :: rest → ¬ Body rest (-int64Limit)) ∧
      Denotes twiceNegated.toList (int64Limit - 1) ∧ IsInt64 (int64Limit - 1) ∧
      |1 - int64Limit| < int64Limit ∧
      parse? "-9223372036854775807" = some (1 - int64Limit) ∧
      parse? "-0x7fffffffffffffff" = some (1 - int64Limit) := by
  have hlowest : ∀ rest, twiceNegated.toList = '-' :: rest → ¬ Body rest (-int64Limit) := by
    rintro rest ⟨⟩
    rw [← unsignedForm?_eq_some_iff]
    decide +kernel
  have hread : parse? twiceNegated = some (int64Limit - 1) := by decide +kernel
  have hlow : |1 - int64Limit| < int64Limit := by decide +kernel
  obtain ⟨hdenotes, hrange⟩ :=
    numerals_follow_the_grammar.1 twiceNegated hlowest (int64Limit - 1)
  obtain ⟨hdecimal, hhex⟩ := numerals_follow_the_grammar.2 (1 - int64Limit) hlow
  exact ⟨hlowest, hdenotes.mp hread, hrange hread, hlow, hdecimal, hhex 0⟩

-- The lowest number has no decimal numeral, but its sign may come behind the `0x`.
example : parse? "-9223372036854775808" = none := by decide
example : parse? "0x-8000000000000000" = some (-int64Limit) := by decide

end HitScript.Numeral
