import HitScript.Text
import Mathlib.Data.List.DropRight

/-!
# Folded names

Names are compared after trimming and lower-casing. Both can be done in either
order, and doing them twice changes nothing, so a folded name is its own folded
form. This rests on one fact about characters: lower-casing turns no character
into a blank and no blank into anything else.
-/
namespace HitScript.Text

theorem toNat_toLower (c : Char) :
    c.toLower.toNat = if 65 ≤ c.toNat ∧ c.toNat ≤ 90 then c.toNat + 32 else c.toNat := by
  unfold Char.toLower
  split_ifs with h₁ h₂ h₂
  · obtain ⟨-, h⟩ := h₂
    simp only [Char.toNat, UInt32.toNat_add, Nat.reducePow] at h ⊢
    change (c.val.toNat + 32) % 4294967296 = c.val.toNat + 32
    omega
  · exact (h₂ ⟨h₁.1, h₁.2⟩).elim
  · exact (h₁ ⟨h₂.1, h₂.2⟩).elim
  · rfl

theorem toLower_toLower (c : Char) : c.toLower.toLower = c.toLower := by
  apply Char.ext
  apply UInt32.toNat_inj.mp
  change c.toLower.toLower.toNat = c.toLower.toNat
  rw [toNat_toLower, toNat_toLower]
  split_ifs <;> omega

/-- What is in front of the small letters is not changed into something else. -/
theorem eq_of_toLower_eq {c d : Char} (hd : d.toNat < 97) (h : c.toLower = d) : c = d := by
  have hnat := toNat_toLower c
  rw [h] at hnat
  apply Char.toNat_inj.mp
  split_ifs at hnat <;> omega

theorem isBlank_eq_false {c : Char} (h₁ : 65 ≤ c.toNat) (h₂ : c.toNat ≤ 122) :
    isBlank c = false := by
  simp only [isBlank, Bool.or_eq_false_iff, Bool.and_eq_false_iff, decide_eq_false_iff_not,
    beq_eq_false_iff_ne]
  omega

theorem isBlank_toLower (c : Char) : isBlank c.toLower = isBlank c := by
  by_cases h : 65 ≤ c.toNat ∧ c.toNat ≤ 90
  · have hl : c.toLower.toNat = c.toNat + 32 := by rw [toNat_toLower, if_pos h]
    rw [isBlank_eq_false (by omega) (by omega), isBlank_eq_false (by omega) (by omega)]
  · have hl : c.toLower.toNat = c.toNat := by rw [toNat_toLower, if_neg h]
    unfold isBlank
    rw [hl]

theorem dropWhile_lower (cs : List Char) :
    (lower cs).dropWhile isBlank = lower (cs.dropWhile isBlank) := by
  induction cs with
  | nil => rfl
  | cons c cs ih =>
      simp only [lower, List.map_cons, List.dropWhile_cons, isBlank_toLower] at ih ⊢
      split_ifs
      · exact ih
      · rfl

theorem dropEndWhile_lower (cs : List Char) :
    dropEndWhile isBlank (lower cs) = lower (dropEndWhile isBlank cs) := by
  have h := dropWhile_lower cs.reverse
  simp only [lower, dropEndWhile, List.map_reverse] at h ⊢
  rw [h]

theorem trim_lower (cs : List Char) : trim (lower cs) = lower (trim cs) := by
  unfold trim
  rw [dropWhile_lower, dropEndWhile_lower]

theorem lower_lower (cs : List Char) : lower (lower cs) = lower cs := by
  simp only [lower, List.map_map]
  exact List.map_congr_left fun c _ => toLower_toLower c

theorem trim_trim (cs : List Char) : trim (trim cs) = trim cs := by
  have hhead : (trim cs).dropWhile isBlank = trim cs := by
    rw [List.dropWhile_eq_self_iff]
    intro hl hblank
    have hprefix : trim cs <+: cs.dropWhile isBlank :=
      List.rdropWhile_prefix isBlank (cs.dropWhile isBlank)
    refine List.dropWhile_get_zero_not isBlank cs (Nat.lt_of_lt_of_le hl hprefix.length_le) ?_
    rw [List.get_eq_getElem, ← hprefix.getElem hl]
    exact hblank
  calc trim (trim cs) = dropEndWhile isBlank (trim cs) := by rw [trim, hhead]
    _ = trim cs := List.rdropWhile_idempotent isBlank (cs.dropWhile isBlank)

theorem fold_trim (cs : List Char) :
    fold (String.ofList (trim cs)) = fold (String.ofList cs) := by
  simp only [fold, String.toList_ofList, trim_trim]

theorem fold_fold (s : String) : fold (fold s) = fold s := by
  unfold fold
  rw [String.toList_ofList, trim_lower, lower_lower, trim_trim]

end HitScript.Text
