import HitScript.Numeral
import HitScript.Proofs.NameFolding

/-!
# Numbers as they are written

A number is written in decimal, with a minus in front if it is negative, or, if
it is not, as `0x` and hexadecimal digits, with zeros in front and in letters
of either size. The reader of numerals gives the number back from all of these,
as long as it has 64 bits.

The digits alone decide: a text that is a string of digits has no sign and no
`0x`, so each layer of the reader passes it on to the next.
-/
namespace HitScript.Numeral

theorem digit?_eq (radix : Nat) (c : Char) :
    digit? radix c =
      (if 48 ≤ c.toNat ∧ c.toNat ≤ 57 then some (c.toNat - 48)
        else if 97 ≤ c.toNat ∧ c.toNat ≤ 102 then some (c.toNat - 87)
        else if 65 ≤ c.toNat ∧ c.toNat ≤ 70 then some (c.toNat - 55)
        else none).filter (· < radix) := rfl

/-- Small and large letters are the same digits. -/
theorem digit?_toLower (radix : Nat) (c : Char) : digit? radix c.toLower = digit? radix c := by
  rw [digit?_eq, digit?_eq, Text.toNat_toLower]
  by_cases hlarge : 65 ≤ c.toNat ∧ c.toNat ≤ 90
  · have hvalue : c.toNat + 32 - 87 = c.toNat - 55 := by omega
    rw [if_pos hlarge, hvalue]
    congr 1
    split_ifs <;> first | omega | rfl
  · rw [if_neg hlarge]

theorem digit?_digitChar {radix d : Nat} (hradix : radix ≤ 16) (hd : d < radix) :
    digit? radix d.digitChar = some d := by
  have hvalue : ∀ d : Fin 16, digit? 16 d.val.digitChar = some d.val := by decide
  have h := hvalue ⟨d, by omega⟩
  rw [digit?] at h ⊢
  rw [Option.filter_eq_some_iff] at h ⊢
  exact ⟨h.1, decide_eq_true hd⟩

/-- The characters that are digits in some radix, with what lies between. -/
theorem digit?_eq_some {radix d : Nat} {c : Char} (h : digit? radix c = some d) :
    48 ≤ c.toNat ∧ c.toNat ≤ 57 ∨ 65 ≤ c.toNat ∧ c.toNat ≤ 102 := by
  rw [digit?_eq, Option.filter_eq_some_iff] at h
  obtain ⟨h, -⟩ := h
  split_ifs at h <;> omega

theorem digits?_append (radix n : Nat) (cs ds : List Char) :
    digits? radix n (cs ++ ds) = (digits? radix n cs).bind fun m => digits? radix m ds := by
  induction cs generalizing n with
  | nil => rfl
  | cons c cs ih =>
      rw [List.cons_append, digits?, digits?, Option.bind_assoc]
      simp only [ih]

theorem digits?_lower (radix n : Nat) (cs : List Char) :
    digits? radix n (Text.lower cs) = digits? radix n cs := by
  induction cs generalizing n with
  | nil => rfl
  | cons c cs ih =>
      have hcons : Text.lower (c :: cs) = c.toLower :: Text.lower cs := rfl
      rw [hcons, digits?, digits?, digit?_toLower]
      simp only [ih]

theorem digits?_toDigits {radix : Nat} (hradix : 1 < radix) (hle : radix ≤ 16) (n : Nat) :
    digits? radix 0 (Nat.toDigits radix n) = some n := by
  induction n using Nat.strong_induction_on with
  | _ n ih =>
      by_cases hn : n < radix
      · rw [Nat.toDigits_of_lt_base hn, digits?, digit?_digitChar hle hn]
        simp [digits?]
      · -- The last digit comes off the end, and the digits before it are those of a smaller number.
        have hdiv : n / radix < n := Nat.div_lt_self (by omega) hradix
        have hmod : n % radix < radix := Nat.mod_lt n (by omega)
        rw [Nat.toDigits_of_base_le hradix (by omega), digits?_append, ih _ hdiv,
          Option.bind_some, digits?, digit?_digitChar hle hmod]
        simp only [Option.bind_some, digits?, Nat.div_add_mod']

theorem digits?_zeros (radix zeros : Nat) (h : 0 < radix) :
    digits? radix 0 (List.replicate zeros '0') = some 0 := by
  have hzero : digit? radix '0' = some 0 := by
    rw [digit?_eq]
    simp [h]
  induction zeros with
  | zero => rfl
  | succ zeros ih =>
      rw [List.replicate_succ, digits?, hzero, Option.bind_some, Nat.zero_mul]
      exact ih

theorem magnitude?_eq {radix : Nat} {cs : List Char} (h : cs ≠ []) :
    magnitude? radix cs = digits? radix 0 cs := by
  cases cs with
  | nil => exact absurd rfl h
  | cons c cs => rfl

theorem toDigits_ne_nil (radix n : Nat) : Nat.toDigits radix n ≠ [] :=
  List.ne_nil_of_length_pos Nat.length_toDigits_pos

theorem magnitude?_toDigits {radix : Nat} (hradix : 1 < radix) (hle : radix ≤ 16) (n : Nat) :
    magnitude? radix (Nat.toDigits radix n) = some n := by
  rw [magnitude?_eq (toDigits_ne_nil radix n), digits?_toDigits hradix hle]

theorem toList_hexPadded (width n : Nat) : ∃ zeros,
    (hexPadded width n).toList = List.replicate zeros '0' ++ Nat.toDigits 16 n := by
  refine ⟨width - (hex n).length, ?_⟩
  rw [hexPadded, padLeft, String.toList_ofList, hex, String.toList_ofList]

theorem magnitude?_hexPadded (width n : Nat) :
    magnitude? 16 (hexPadded width n).toList = some n := by
  obtain ⟨zeros, h⟩ := toList_hexPadded width n
  have hne : List.replicate zeros '0' ++ Nat.toDigits 16 n ≠ [] :=
    List.append_ne_nil_of_right_ne_nil _ (toDigits_ne_nil 16 n)
  rw [h, magnitude?_eq hne, digits?_append, digits?_zeros 16 zeros (by decide), Option.bind_some,
    digits?_toDigits (by decide) (by decide)]

theorem magnitude?_lower (radix : Nat) (cs : List Char) :
    magnitude? radix (Text.lower cs) = magnitude? radix cs := by
  cases cs with
  | nil => rfl
  | cons c cs => exact digits?_lower radix 0 (c :: cs)

theorem digits?_mem {radix n m : Nat} {cs : List Char} (h : digits? radix n cs = some m)
    {c : Char} (hc : c ∈ cs) : ∃ d, digit? radix c = some d := by
  induction cs generalizing n with
  | nil => cases hc
  | cons c' cs ih =>
      rw [digits?, Option.bind_eq_some_iff] at h
      obtain ⟨d, hd, h⟩ := h
      cases hc with
      | head => exact ⟨d, hd⟩
      | tail _ hc => exact ih h hc

theorem magnitude?_mem {radix n : Nat} {cs : List Char} (h : magnitude? radix cs = some n)
    {c : Char} (hc : c ∈ cs) : ∃ d, digit? radix c = some d := by
  rw [magnitude?_eq (List.ne_nil_of_mem hc)] at h
  exact digits?_mem h hc

/-- No character outside of the digits occurs in a string of digits. -/
theorem magnitude?_not_mem {radix n : Nat} {cs : List Char} (h : magnitude? radix cs = some n)
    {c : Char} (hc : digit? radix c = none) : c ∉ cs := by
  intro hmem
  obtain ⟨d, hd⟩ := magnitude?_mem h hmem
  rw [hc] at hd
  cases hd

theorem digit?_sign (radix : Nat) : digit? radix '+' = none ∧ digit? radix '-' = none :=
  ⟨rfl, rfl⟩

theorem digit?_x (radix : Nat) : digit? radix 'x' = none ∧ digit? radix 'X' = none :=
  ⟨rfl, rfl⟩

theorem signed?_of_magnitude? {radix n : Nat} {cs : List Char}
    (h : magnitude? radix cs = some n) : signed? radix cs = some (n : Int) := by
  unfold signed?
  split
  · exact absurd List.mem_cons_self (magnitude?_not_mem h (digit?_sign radix).1)
  · exact absurd List.mem_cons_self (magnitude?_not_mem h (digit?_sign radix).2)
  · rw [h]
    rfl

theorem int64?_of_magnitude? {radix n : Nat} {cs : List Char}
    (h : magnitude? radix cs = some n) (hn : (n : Int) < int64Limit) :
    int64? radix cs = some (n : Int) := by
  rw [int64?, signed?_of_magnitude? h, Option.filter_eq_some_iff]
  have hlow : -int64Limit ≤ (n : Int) := by
    unfold int64Limit
    omega
  exact ⟨rfl, decide_eq_true ⟨hlow, hn⟩⟩

theorem unsignedForm?_of_magnitude? {n : Nat} {cs : List Char} (h : magnitude? 10 cs = some n)
    (hn : (n : Int) < int64Limit) : unsignedForm? cs = some (n : Int) := by
  have hx := digit?_x 10
  unfold unsignedForm?
  split
  · exact absurd (List.mem_cons_of_mem _ List.mem_cons_self) (magnitude?_not_mem h hx.1)
  · exact absurd (List.mem_cons_of_mem _ List.mem_cons_self) (magnitude?_not_mem h hx.2)
  · exact int64?_of_magnitude? h hn

theorem parseChars?_of_magnitude? {n : Nat} {cs : List Char} (h : magnitude? 10 cs = some n)
    (hn : (n : Int) < int64Limit) : parseChars? cs = some (n : Int) := by
  unfold parseChars?
  split
  · exact absurd List.mem_cons_self (magnitude?_not_mem h (digit?_sign 10).2)
  · exact unsignedForm?_of_magnitude? h hn

/-- The text denotes the number, in decimal or behind `0x` in hexadecimal. -/
inductive Writes : Int → List Char → Prop
  | decimal (n : Int) : Writes n n.repr.toList
  | hexadecimal {n width : Nat} {text : List Char}
      (h : Text.lower text = '0' :: 'x' :: (hexPadded width n).toList) : Writes n text

/-- A hexadecimal text starts with `0x` or `0X`, and digits follow. -/
theorem exists_hex_digits {text : List Char} {n width : Nat}
    (h : Text.lower text = '0' :: 'x' :: (hexPadded width n).toList) :
    ∃ x cs, text = '0' :: x :: cs ∧ (x = 'x' ∨ x = 'X') ∧ magnitude? 16 cs = some n := by
  match text, h with
  | zero :: x :: cs, h =>
      obtain ⟨hzero, h⟩ := List.cons.inj h
      obtain ⟨hx, hcs⟩ := List.cons.inj h
      obtain rfl := Text.eq_of_toLower_eq (by decide) hzero
      refine ⟨x, cs, rfl, ?_, ?_⟩
      · have hnat := Text.toNat_toLower x
        rw [hx] at hnat
        change 120 = _ at hnat
        split_ifs at hnat with hlarge
        · have hX : x.toNat = 'X'.toNat := Nat.add_right_cancel hnat.symm
          exact .inr (Char.toNat_inj.mp hX)
        · exact .inl (Char.toNat_inj.mp hnat.symm)
      · rw [← magnitude?_lower, ← magnitude?_hexPadded width n, ← hcs]
        rfl
  | [_], h => cases (List.cons.inj h).2
  | [], h => cases h

/-- Reading gives back the number that was written. -/
theorem Writes.parseChars? {n : Int} {text : List Char} (h : Writes n text)
    (hlow : -int64Limit < n) (hhigh : n < int64Limit) : parseChars? text = some n := by
  cases h with
  | decimal =>
      cases n with
      | ofNat n =>
          rw [Int.repr, Nat.toList_repr]
          exact parseChars?_of_magnitude? (magnitude?_toDigits (by decide) (by decide) n) hhigh
      | negSucc n =>
          have hn : ((n + 1 : Nat) : Int) < int64Limit := by omega
          have hread := unsignedForm?_of_magnitude?
            (magnitude?_toDigits (by decide) (by decide) (n + 1)) hn
          rw [Int.repr, String.toList_append, Nat.toList_repr]
          change (unsignedForm? (Nat.toDigits 10 (n + 1))).map (fun v => -v) = _
          rw [hread]
          rfl
  | @hexadecimal n width text h =>
      obtain ⟨x, cs, rfl, hx, hdigits⟩ := exists_hex_digits h
      have hread := int64?_of_magnitude? hdigits hhigh
      obtain rfl | rfl := hx <;> exact hread

end HitScript.Numeral
