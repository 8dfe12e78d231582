import HitScript.Proofs.Suspension
import HitScript.Proofs.VariableStores
import HitScript.SoundBank
import Mathlib.Algebra.Group.Nat.Defs

/-!
# Random choices

A number between two bounds is the remainder of a word, counted from the lower
bound. The bounds have 32 bits, but the way from the word to the number leads
through words of 64, where nothing can get lost: not even the distance between
the least and the greatest number is too large for them. So the number lies
between the bounds, and every number between them belongs to some word.

An entry of a hitlist is chosen by such a number. The length of the list is cut
down to 32 bits for it, so of a list that is too long for them only some entries
can come up. None of them lies outside the list.

Nothing is said here about how likely the numbers are. Unless the number of
possibilities divides that of the words, some belong to one word more than
others.
-/
namespace HitScript

namespace Dice
variable {lo hi : Int32}

/-- The numbers that come up on the way from a word to the number that it stands
for are what they would be if words had no limits. -/
structure Exact (lo hi : Int32) (word : UInt64) : Prop where
  distance : (hi.toInt64 - lo.toInt64 + 1).toInt = hi.toInt - lo.toInt + 1
  span : ((span lo hi).toNat : Int) = hi.toInt - lo.toInt + 1
  remainder : (word % Dice.span lo hi).toInt64.toInt = word.toNat % (hi.toInt - lo.toInt + 1)
  sum : (lo.toInt64 + (word % Dice.span lo hi).toInt64).toInt =
    lo.toInt + word.toNat % (hi.toInt - lo.toInt + 1)
  pick : (pick lo hi word).toInt = lo.toInt + word.toNat % (hi.toInt - lo.toInt + 1)

theorem toInt_distance (lo hi : Int32) :
    (hi.toInt64 - lo.toInt64 + 1).toInt = hi.toInt - lo.toInt + 1 := by
  have hlo := lo.le_toInt
  have hlo' := lo.toInt_lt
  have hhi := hi.le_toInt
  have hhi' := hi.toInt_lt
  rw [Int64.toInt_add, Int64.toInt_sub, Int32.toInt_toInt64, Int32.toInt_toInt64, Int64.toInt_one,
    Int.bmod_eq_of_le (n := hi.toInt - lo.toInt) (by omega) (by omega),
    Int.bmod_eq_of_le (by omega) (by omega)]

theorem toNat_span (h : lo ≤ hi) : ((span lo hi).toNat : Int) = hi.toInt - lo.toInt + 1 := by
  have hle := Int32.le_iff_toInt_le.mp h
  have hdistance := toInt_distance lo hi
  have hpos : 0 ≤ hi.toInt64 - lo.toInt64 + 1 := by
    rw [Int64.le_iff_toInt_le, hdistance, Int64.toInt_zero]
    omega
  rw [span, Int64.toNat_toUInt64_of_le hpos, ← Int64.toInt_eq_toNatClampNeg hpos, hdistance]

/-- A word keeps its value as a signed number if its first bit is not needed. -/
theorem toInt_toInt64_of_lt {word : UInt64} (h : word.toNat < 2 ^ 63) :
    word.toInt64.toInt = word.toNat := by
  rw [← Int64.toInt_toBitVec, UInt64.toBitVec_toInt64, BitVec.toInt_eq_toNat_bmod,
    UInt64.toNat_toBitVec]
  exact Int.bmod_eq_of_le (by omega) (by omega)

theorem remainder_bounds (h : lo < hi) (word : UInt64) :
    0 ≤ (word.toNat : Int) % (hi.toInt - lo.toInt + 1) ∧
      (word.toNat : Int) % (hi.toInt - lo.toInt + 1) ≤ hi.toInt - lo.toInt := by
  have hlt := Int32.lt_iff_toInt_lt.mp h
  exact ⟨Int.emod_nonneg _ (by omega), Int.lt_add_one_iff.mp (Int.emod_lt_of_pos _ (by omega))⟩

theorem exact_of_lt (h : lo < hi) (word : UInt64) : Exact lo hi word := by
  have hlo := lo.le_toInt
  have hhi := hi.toInt_lt
  have hspan := toNat_span (Int32.le_of_lt h)
  obtain ⟨hnonneg, hle⟩ := remainder_bounds h word
  have hmod : ((word % span lo hi).toNat : Int) = word.toNat % (hi.toInt - lo.toInt + 1) := by
    rw [UInt64.toNat_mod, Int.natCast_emod, hspan]
  have hremainder : (word % span lo hi).toInt64.toInt =
      word.toNat % (hi.toInt - lo.toInt + 1) := by
    rw [toInt_toInt64_of_lt (by omega), hmod]
  have hsum : (lo.toInt64 + (word % span lo hi).toInt64).toInt =
      lo.toInt + word.toNat % (hi.toInt - lo.toInt + 1) := by
    rw [Int64.toInt_add, Int32.toInt_toInt64, hremainder, Int.bmod_eq_of_le (by omega) (by omega)]
  refine ⟨toInt_distance lo hi, hspan, hremainder, hsum, ?_⟩
  rw [pick, Int64.toInt_toInt32, hsum, Int.bmod_eq_of_le (by omega) (by omega)]

theorem pick_bounds (h : lo < hi) (word : UInt64) :
    lo ≤ pick lo hi word ∧ pick lo hi word ≤ hi := by
  obtain ⟨hnonneg, hle⟩ := remainder_bounds h word
  rw [Int32.le_iff_toInt_le, Int32.le_iff_toInt_le, (exact_of_lt h word).pick]
  omega

/-- The distance of a number from the lower bound is a word that stands for it. -/
theorem exists_pick {r : Int32} (h : lo < hi) (hlo : lo ≤ r) (hhi : r ≤ hi) :
    ∃ word, pick lo hi word = r := by
  have hlo' := Int32.le_iff_toInt_le.mp hlo
  have hhi' := Int32.le_iff_toInt_le.mp hhi
  have hmin := lo.le_toInt
  have hmax := r.toInt_lt
  have hword : ((UInt64.ofNat (r.toInt - lo.toInt).toNat).toNat : Int) = r.toInt - lo.toInt := by
    rw [UInt64.toNat_ofNat_of_lt' (by rw [UInt64.size]; omega)]
    omega
  refine ⟨UInt64.ofNat (r.toInt - lo.toInt).toNat, ?_⟩
  rw [← Int32.toInt_inj, (exact_of_lt h _).pick, hword, Int.emod_eq_of_lt (by omega) (by omega)]
  omega

theorem between_of_lt (d : Dice) (h : lo < hi) :
    d.between lo hi = (pick lo hi (d.word d.drawn), { d with drawn := d.drawn + 1 }) :=
  if_neg (Int32.not_le.mpr h)

theorem between_of_le (d : Dice) (h : hi ≤ lo) : d.between lo hi = (lo, d) := if_pos h

/-- The number of one of so many entries, from zero on. That of the last entry is
cut down to 32 bits. -/
def index (d : Dice) (count : Nat) : Int32 × Dice := d.between 0 (Int32.ofNat (count - 1))

/-- Cutting a number down does not make it larger. -/
theorem toInt_ofNat_le (n : Nat) : (Int32.ofNat n).toInt ≤ n := by
  rw [Int32.toInt_ofNat', Int.bmod_def, Int32.size]
  split <;> omega

theorem index_bounds (d : Dice) {count : Nat} (h : 0 < count) :
    0 ≤ (d.index count).1.toInt ∧ (d.index count).1.toInt < count := by
  have hlast := toInt_ofNat_le (count - 1)
  by_cases hchoice : 0 < Int32.ofNat (count - 1)
  · obtain ⟨hnonneg, hle⟩ := pick_bounds hchoice (d.word d.drawn)
    rw [Int32.le_iff_toInt_le] at hnonneg hle
    rw [index, between_of_lt d hchoice]
    refine ⟨hnonneg, ?_⟩
    dsimp only
    omega
  · rw [index, between_of_le d (Int32.not_lt.mp hchoice)]
    exact ⟨Int.le_refl 0, Int.natCast_pos.mpr h⟩

/-- Every entry of a list that is not too long comes up for some word. -/
theorem exists_index {count number : Nat} (hcount : count ≤ 2 ^ 31) (hnumber : number < count) :
    ∃ word, ∀ d : Dice, d.word d.drawn = word → (d.index count).1.toInt = number := by
  have hlast : (Int32.ofNat (count - 1)).toInt = (count - 1 : Nat) :=
    Int32.toInt_ofNat_of_lt (by omega)
  have hsmall : (Int32.ofNat number).toInt = number := Int32.toInt_ofNat_of_lt (by omega)
  by_cases hchoice : 0 < Int32.ofNat (count - 1)
  · have hnonneg : 0 ≤ Int32.ofNat number := by
      rw [Int32.le_iff_toInt_le, hsmall, Int32.toInt_zero]
      omega
    have hle : Int32.ofNat number ≤ Int32.ofNat (count - 1) := by
      rw [Int32.le_iff_toInt_le, hsmall, hlast]
      omega
    obtain ⟨word, hword⟩ := exists_pick hchoice hnonneg hle
    refine ⟨word, fun d hd => ?_⟩
    rw [index, between_of_lt d hchoice, hd, hword, hsmall]
  · -- there is only one entry, and no word is drawn for it
    have hone : ¬ 0 < count - 1 := by
      rw [Int32.lt_iff_toInt_lt, hlast, Int32.toInt_zero] at hchoice
      omega
    refine ⟨0, fun d _ => ?_⟩
    rw [index, between_of_le d (Int32.not_lt.mp hchoice), Int32.toInt_zero]
    omega

end Dice

/-- Stores a random entry of the hitlist. -/
def Instruction.smartChoose (dest : UInt8) : Instruction := ⟨.smartChoose, (dest, ())⟩

namespace Subroutine
variable {H : Type}

/-- The number that the dice come up with is a place in the list, and the entry
there is stored. -/
theorem choose_of_entries (s : Subroutine) (w : Shared H) (op : Opcode) (dest : UInt8)
    (h : s.entries ≠ []) : ∃ i : Fin s.entries.length,
      (i.val : Int) = (w.dice.index s.entries.length).1.toInt ∧
      Stores s { w with dice := (w.dice.index s.entries.length).2 } dest
        (s.entries.get i).toInt32 (s.choose w op dest) := by
  obtain ⟨hnonneg, hlt⟩ := w.dice.index_bounds (List.length_pos_iff.mpr h)
  have hplace : (w.dice.index s.entries.length).1.toInt.toNat < s.entries.length := by omega
  refine ⟨⟨_, hplace⟩, Int.toNat_of_nonneg hnonneg, ?_⟩
  have hchoice : s.choose w op dest =
      s.assign { w with dice := (w.dice.index s.entries.length).2 } dest
        ((s.entries[(w.dice.index s.entries.length).1.toInt.toNat]?).getD 0).toInt32 :=
    if_neg (by simpa using h)
  rw [hchoice, List.getElem?_eq_getElem hplace]
  exact stores_assign _ _ _ _

/-- Each place in a list that is not too long comes up for some word. -/
theorem exists_word_choose (s : Subroutine) (op : Opcode) (dest : UInt8)
    (hlength : s.entries.length ≤ 2 ^ 31) (i : Fin s.entries.length) :
    ∃ word, ∀ w : Shared H, w.dice.word w.dice.drawn = word →
      Stores s { w with dice := (w.dice.index s.entries.length).2 } dest
        (s.entries.get i).toInt32 (s.choose w op dest) := by
  obtain ⟨word, hword⟩ := Dice.exists_index hlength i.isLt
  refine ⟨word, fun w hw => ?_⟩
  have hentries : s.entries ≠ [] := List.ne_nil_of_length_pos (Nat.zero_lt_of_lt i.isLt)
  obtain ⟨j, hj, hstores⟩ := choose_of_entries s w op dest hentries
  have hij : j = i := Fin.ext (Int.ofNat_inj.mp (hj.trans (hword w.dice hw)))
  rw [← hij]
  exact hstores

theorem choose_of_empty (s : Subroutine) (w : Shared H) (op : Opcode) (dest : UInt8)
    (h : s.entries = []) : Stores s w dest 0 (s.choose w op dest) := by
  have hchoice : s.choose w op dest = s.assign (w.note (.noHitlist op s.track)) dest 0 :=
    if_pos (List.isEmpty_iff.mpr h)
  rw [hchoice]
  exact (stores_assign _ _ _ _).of_note

variable [Host H] {s : Subroutine} {dest : UInt8} {next : Nat}

theorem Reads.step_smartChoose (h : s.Reads (.smartChoose dest) next) (w : Shared H)
    (tick : Int32) : s.step w tick = { s with ip := next }.choose w .smartChoose dest :=
  h.step w tick

end Subroutine

open Subroutine in
/-- Random choices stay in bounds and reach everything. If there is a choice
between two bounds, one word is drawn, the number lies between the bounds, no
number on the way to it is cut down, and every number between the bounds belongs
to some word; if there is none, no word is drawn and the answer is the lower
bound. A `smart_choose` takes an entry from a place in the hitlist, if that has
entries, and the destination is read afterwards as this entry, bit for bit, if
it has storage; each entry of a list with at most half as many entries as there
are words of 32 bits comes up for some word. If the hitlist is empty, the
destination is read as zero and no word is drawn. In both cases the opcode goes
on, and no other location is read differently. -/
theorem random_choices_cover_their_bounds :
    (∀ lo hi : Int32, lo < hi →
      (∀ d : Dice,
        let r := (d.between lo hi).1
        (d.between lo hi).2 = { d with drawn := d.drawn + 1 } ∧ lo ≤ r ∧ r ≤ hi ∧
          r.toInt = lo.toInt + (d.word d.drawn).toNat % (hi.toInt - lo.toInt + 1) ∧
          Dice.Exact lo hi (d.word d.drawn)) ∧
      ∀ r, lo ≤ r → r ≤ hi →
        ∃ word, ∀ d : Dice, d.word d.drawn = word → (d.between lo hi).1 = r) ∧
    (∀ (lo hi : Int32) (d : Dice), hi ≤ lo → d.between lo hi = (lo, d)) ∧
    ∀ {H : Type} [Host H] (s : Subroutine) (dest : UInt8) (next : Nat) (tick : Int32),
      s.Reads (.smartChoose dest) next →
      let after (w : Shared H) := s.step w tick
      let stores (i : Fin s.entries.length) (w : Shared H) : Prop :=
        Stores { s with ip := next } { w with dice := (w.dice.index s.entries.length).2 } dest
            (s.entries.get i).toInt32 (after w) ∧
          (HasStorage dest.toNat →
            ((after w).sub.read (after w).shared dest).toUInt32 = s.entries.get i)
      (s.entries ≠ [] → ∀ w, ∃ i, stores i w ∧
        (i.val : Int) = (w.dice.index s.entries.length).1.toInt) ∧
      (s.entries.length ≤ 2 ^ 31 → ∀ i, ∃ word,
        ∀ w : Shared H, w.dice.word w.dice.drawn = word → stores i w) ∧
      (s.entries = [] → ∀ w : Shared H,
        Stores { s with ip := next } w dest 0 (after w) ∧ (after w).shared.dice = w.dice) := by
  refine ⟨fun lo hi h => ⟨fun d => ?_, fun r hlo hhi => ?_⟩, fun lo hi d h => d.between_of_le h, ?_⟩
  · have hexact := Dice.exact_of_lt h (d.word d.drawn)
    obtain ⟨hlo, hhi⟩ := Dice.pick_bounds h (d.word d.drawn)
    rw [d.between_of_lt h]
    exact ⟨rfl, hlo, hhi, hexact.pick, hexact⟩
  · obtain ⟨word, hword⟩ := Dice.exists_pick h hlo hhi
    refine ⟨word, fun d hd => ?_⟩
    rw [d.between_of_lt h, hd, hword]
  · intro H _ s dest next tick hreads after stores
    have hafter : ∀ w, after w = { s with ip := next }.choose w .smartChoose dest := fun w =>
      hreads.step_smartChoose w tick
    refine ⟨fun hentries w => ?_, fun hlength i => ?_, fun hempty w => ?_⟩
    · obtain ⟨i, hi, hstores⟩ :=
        choose_of_entries { s with ip := next } w .smartChoose dest hentries
      rw [← hafter w] at hstores
      exact ⟨i, ⟨hstores, hstores.toUInt32_read⟩, hi⟩
    · obtain ⟨word, hword⟩ :=
        exists_word_choose (H := H) { s with ip := next } .smartChoose dest hlength i
      refine ⟨word, fun w hw => ?_⟩
      have hstores := hword w hw
      rw [← hafter w] at hstores
      exact ⟨hstores, hstores.toUInt32_read⟩
    · have hstores := choose_of_empty { s with ip := next } w .smartChoose dest hempty
      rw [← hafter w] at hstores
      exact ⟨hstores, hstores.dice⟩

/-- A program that stores a random entry of its hitlist. -/
def raffle : Image where
  minorVersion := 0
  exports := [⟨13, 28⟩]
  bytes := (Image.assembleBytes [⟨13, 28⟩] [0x26, 20, 0x0B]).toArray
  entries_in_code := by decide

/-- A subroutine with three entries to choose from, one of them too large for a
signed number. -/
def ticketHolder : Subroutine :=
  { Subroutine.start ⟨.load 0, raffle⟩ 13 28 with hitlist := some [5, 0xFFFFFFFF, 7] }

/-- The last word of all is drawn first. -/
def tombola : Shared SoundBank := { host := {}, dice := .cycle [0xFFFFFFFFFFFFFFFF, 4] }

theorem random_choices_cover_their_bounds_raffle :
    let after (w : Shared SoundBank) := ticketHolder.step w 16
    let drawn := after tombola
    (tombola.dice.between Int32.minValue Int32.maxValue).1 = Int32.maxValue ∧
    Dice.Exact Int32.minValue Int32.maxValue 0xFFFFFFFFFFFFFFFF ∧
    drawn.outcome = .ok .next ∧ drawn.sub.ip = 30 ∧ drawn.sub.read drawn.shared 20 = 5 ∧
    drawn.shared.dice.drawn = 1 ∧
    ∃ word, ∀ w : Shared SoundBank, w.dice.word w.dice.drawn = word →
      ((after w).sub.read (after w).shared 20).toUInt32 = 0xFFFFFFFF := by
  intro after drawn
  obtain ⟨hbetween, -, hchoose⟩ := random_choices_cover_their_bounds
  obtain ⟨-, -, -, hvalue, hexact⟩ :=
    (hbetween Int32.minValue Int32.maxValue (by decide)).1 tombola.dice
  obtain ⟨hstores, hreaches, -⟩ := hchoose (H := SoundBank) ticketHolder 20 30 16 rfl
  obtain ⟨i, ⟨hstore, -⟩, hi⟩ := hstores (by decide) tombola
  have hfirst : (tombola.dice.index ticketHolder.entries.length).1.toInt = 0 := by
    decide +kernel
  have hplace : i = ⟨0, by decide⟩ := Fin.ext (Int.ofNat_inj.mp (hi.trans hfirst))
  rw [hplace] at hstore
  obtain ⟨word, hword⟩ := hreaches (by decide) ⟨1, by decide⟩
  refine ⟨?_, hexact, hstore.outcome, congrArg Subroutine.ip hstore.sub,
    hstore.kept (by decide), ?_, word, fun w hw => (hword w hw).2 (by decide)⟩
  · rw [← Int32.toInt_inj, hvalue]
    decide +kernel
  · rw [hstore.dice]
    decide +kernel

end HitScript
