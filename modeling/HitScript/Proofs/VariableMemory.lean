import HitScript.Variable
import Mathlib.Data.List.Induction
import Mathlib.Logic.Function.Basic

/-!
# Variables are a memory

Locations lead to five stores, of which two begin with locations that have no
slot, and a write may touch a second store or the selected sound. Seen through
reading, none of this shows: a write changes what is read at its own location
and nowhere else. This module first says what a write does to each store, and
reading and writing meet only in these lemmas.

What reading does not show is the register behind an argument and the selected
sound. Two states that agree on these and on all that can be read are equal, so
nothing else is hidden.

Last come several frames over the same tables. Their writes are followed one
after the other, in any order; nothing is said here about who writes when.
-/
namespace HitScript

/-- The location keeps what is written to it. -/
def HasStorage (location : Int) : Prop :=
  (0 ≤ location ∧ location < 70) ∨ (100 ≤ location ∧ location < 136) ∨
    (0x271A ≤ location ∧ location < 0x2737)

/-- The location belongs to a table that all frames share. -/
def IsShared (location : Int) : Prop := 70 ≤ location ∧ location < 0x2737

instance (location : Int) : Decidable (HasStorage location) :=
  inferInstanceAs (Decidable (_ ∨ _))

instance (location : Int) : Decidable (IsShared location) :=
  inferInstanceAs (Decidable (_ ∧ _))

theorem get_vector_set {α : Type} {n : Nat} (xs : Vector α n) {i : Nat} (hi : i < n) (v : α)
    (j : Fin n) : (xs.set i v hi).get j = if i = j.val then v else xs.get j := by
  change (xs.set i v hi)[j.val] = if i = j.val then v else xs[j.val]
  exact Vector.getElem_set ..

namespace SlotTable
variable {base : Int} {size : Nat}

theorem slot?_eq_none {location : Int} (h : ¬ (base ≤ location ∧ location < base + size)) :
    slot? base size location = none :=
  dif_neg h

/-- Locations have the same slot only if they are the same. -/
theorem get_set (t : SlotTable base size) (l m : Int) (v : Int32) :
    (t.set l v).get m = if m = l ∧ base ≤ l ∧ l < base + size then v else t.get m := by
  by_cases hl : base ≤ l ∧ l < base + size
  · have hslot : slot? base size l = some ⟨(l - base).toNat, by omega⟩ := dif_pos hl
    by_cases hm : base ≤ m ∧ m < base + size
    · have hslot' : slot? base size m = some ⟨(m - base).toNat, by omega⟩ := dif_pos hm
      have hsame : (l - base).toNat = (m - base).toNat ↔ m = l := by omega
      simp only [get, set, hslot, hslot', get_vector_set, hsame, hl, and_self, and_true]
    · have hne : ¬ (m = l ∧ base ≤ l ∧ l < base + size) := by omega
      simp only [get, slot?_eq_none hm, if_neg hne]
  · rw [set, slot?_eq_none hl, if_neg (fun h => hl h.2)]

theorem get_of_no_slot (t : SlotTable base size) {l : Int}
    (h : ¬ (base ≤ l ∧ l < base + size)) : t.get l = 0 := by
  rw [get, slot?_eq_none h]

/-- A table is what is read from it. -/
theorem ext_get {t u : SlotTable base size} (h : ∀ l, t.get l = u.get l) : t = u := by
  cases t with
  | mk xs =>
      cases u with
      | mk ys =>
          congr 1
          apply Vector.ext
          intro i hi
          have hl : base ≤ base + i ∧ base + i < base + size := by omega
          have hslot : slot? base size (base + i) = some ⟨i, hi⟩ := by
            rw [slot?, dif_pos hl]
            congr 2
            omega
          have hread := h (base + i)
          simp only [get, hslot] at hread
          exact hread

end SlotTable

/-- The stores that locations lead to, with the place of a location in its store. -/
inductive Region : Int → Prop
  | argument (i : Fin 5) : Region i.val
  | register (i : Fin 16) : 5 ≤ i.val → Region i.val
  | cell (i : Fin 54) : Region (i.val + 16)
  | global {l : Int} : 70 ≤ l → l < 136 → Region l
  | property {l : Int} : 136 ≤ l → l < 0x2737 → Region l
  | outside {l : Int} : l < 0 ∨ 0x2737 ≤ l → Region l

theorem region (l : Int) : Region l := by
  by_cases hnegative : l < 0
  · exact .outside (.inl hnegative)
  obtain ⟨n, rfl⟩ := Int.eq_ofNat_of_zero_le (Int.not_lt.mp hnegative)
  by_cases hargument : n < 5
  · exact .argument ⟨n, hargument⟩
  by_cases hregister : n < 16
  · exact .register ⟨n, hregister⟩ (Nat.le_of_not_lt hargument)
  by_cases hcell : n < 70
  · have hplace : (n : Int) = ((n - 16 : Nat) : Int) + 16 := by omega
    rw [hplace]
    exact .cell ⟨n - 16, by omega⟩
  by_cases hglobal : (n : Int) < 136
  · exact .global (by omega) hglobal
  by_cases hproperty : (n : Int) < 0x2737
  · exact .property (by omega) hproperty
  · exact .outside (.inr (by omega))

namespace Place

theorem ofLocation?_argument (i : Fin 5) : ofLocation? i.val = some (.argument i) := by
  unfold ofLocation?
  rw [if_neg (by omega), dif_pos (by omega)]
  rfl

theorem ofLocation?_register {i : Fin 16} (hi : 5 ≤ i.val) :
    ofLocation? i.val = some (.register i) := by
  unfold ofLocation?
  rw [if_neg (by omega), dif_neg (by omega), dif_pos (by omega)]
  rfl

theorem ofLocation?_cell (i : Fin 54) : ofLocation? (i.val + 16) = some (.cell i) := by
  have hplace : ((i.val : Int) + 16 - 16).toNat = i.val := by omega
  unfold ofLocation?
  rw [if_neg (by omega), dif_neg (by omega), dif_neg (by omega), dif_pos (by omega)]
  simp only [hplace]

theorem ofLocation?_global {l : Int} (hle : 70 ≤ l) (hlt : l < 136) :
    ofLocation? l = some (.global (l - globalBase)) := by
  unfold ofLocation?
  rw [if_neg (by omega), dif_neg (by omega), dif_neg (by omega), dif_neg (by omega), if_pos hlt]

theorem ofLocation?_property {l : Int} (hle : 136 ≤ l) (hlt : l < 0x2737) :
    ofLocation? l = some (.property (l - propertyBase)) := by
  unfold ofLocation?
  rw [if_neg (by omega), dif_neg (by omega), dif_neg (by omega), dif_neg (by omega),
    if_neg (by omega), if_pos hlt]

theorem ofLocation?_outside {l : Int} (h : l < 0 ∨ 0x2737 ≤ l) : ofLocation? l = none := by
  unfold ofLocation?
  by_cases hnegative : l < 0
  · rw [if_pos hnegative]
  · rw [if_neg hnegative, dif_neg (by omega), dif_neg (by omega), dif_neg (by omega),
      if_neg (by omega), if_neg (by omega)]

end Place

namespace Space
open Place

section reading
variable (s : Space)

theorem get_argument (i : Fin 5) : s.get i.val = s.frame.arguments.get i := by
  rw [get, ofLocation?_argument]

theorem get_register {i : Fin 16} (hi : 5 ≤ i.val) : s.get i.val = s.frame.registers.get i := by
  rw [get, ofLocation?_register hi]

theorem get_cell (i : Fin 54) : s.get (i.val + 16) = s.frame.cells.get i := by
  rw [get, ofLocation?_cell]

theorem get_global {l : Int} (hle : 70 ≤ l) (hlt : l < 136) : s.get l = s.globals.get l := by
  rw [get, ofLocation?_global hle hlt]

theorem get_property {l : Int} (hle : 136 ≤ l) (hlt : l < 0x2737) :
    s.get l = s.properties.get l := by
  rw [get, ofLocation?_property hle hlt]

theorem get_outside {l : Int} (h : l < 0 ∨ 0x2737 ≤ l) : s.get l = 0 := by
  rw [get, ofLocation?_outside h]

end reading

section writing
variable (s : Space) (v : Int32)

theorem set_argument (i : Fin 5) (hi : i.val < 16) : s.set i.val v =
    { s with frame := { s.frame with
        arguments := s.frame.arguments.set i.val v i.isLt
        registers := s.frame.registers.set i.val v hi } } := by
  rw [set, ofLocation?_argument]

theorem set_register {i : Fin 16} (hi : 5 ≤ i.val) : s.set i.val v =
    { s with frame := { s.frame with registers := s.frame.registers.set i v } } := by
  rw [set, ofLocation?_register hi]

theorem set_cell (i : Fin 54) : s.set (i.val + 16) v =
    { s with frame := { s.frame with
        cells := s.frame.cells.set i.val v i.isLt
        sound := if (i.val : Int) + 16 = patchLocation then v.toUInt32 else s.frame.sound } } := by
  rw [set, ofLocation?_cell]

theorem set_global {l : Int} (hle : 70 ≤ l) (hlt : l < 136) :
    s.set l v = { s with globals := s.globals.set l v } := by
  rw [set, ofLocation?_global hle hlt]

theorem set_property {l : Int} (hle : 136 ≤ l) (hlt : l < 0x2737) :
    s.set l v = { s with properties := s.properties.set l v } := by
  rw [set, ofLocation?_property hle hlt]

theorem set_outside {l : Int} (h : l < 0 ∨ 0x2737 ≤ l) : s.set l v = s := by
  rw [set, ofLocation?_outside h]

variable (l : Int)

theorem get_arguments_set (j : Fin 5) : (s.set l v).frame.arguments.get j =
    if (j.val : Int) = l then v else s.frame.arguments.get j := by
  by_cases hl : (j.val : Int) = l
  · subst hl
    rw [set_argument _ _ _ (by omega), get_vector_set, if_pos rfl, if_pos rfl]
  · rw [if_neg hl]
    cases region l with
    | argument i => rw [set_argument _ _ _ (by omega), get_vector_set, if_neg (by omega)]
    | register i hi => rw [set_register _ _ hi]
    | cell i => rw [set_cell]
    | global hle hlt => rw [set_global _ _ hle hlt]
    | property hle hlt => rw [set_property _ _ hle hlt]
    | outside h => rw [set_outside _ _ h]

/-- A register is written at its own location, also where an argument stands
before it. -/
theorem get_registers_set (j : Fin 16) : (s.set l v).frame.registers.get j =
    if (j.val : Int) = l then v else s.frame.registers.get j := by
  have hsame (n : Nat) : n = j.val ↔ (j.val : Int) = n := by omega
  cases region l with
  | argument i =>
      rw [set_argument _ _ _ (by omega), get_vector_set]
      simp only [hsame]
  | register i hi =>
      rw [set_register _ _ hi, get_vector_set]
      simp only [hsame]
  | cell i => rw [if_neg (show (j.val : Int) ≠ i.val + 16 by omega), set_cell]
  | global hle hlt => rw [if_neg (show (j.val : Int) ≠ l by omega), set_global _ _ hle hlt]
  | property hle hlt => rw [if_neg (show (j.val : Int) ≠ l by omega), set_property _ _ hle hlt]
  | outside h => rw [if_neg (show (j.val : Int) ≠ l by omega), set_outside _ _ h]

theorem get_cells_set (j : Fin 54) : (s.set l v).frame.cells.get j =
    if (j.val : Int) + 16 = l then v else s.frame.cells.get j := by
  by_cases hl : (j.val : Int) + 16 = l
  · subst hl
    rw [set_cell, get_vector_set, if_pos rfl, if_pos rfl]
  · rw [if_neg hl]
    cases region l with
    | argument i => rw [set_argument _ _ _ (by omega)]
    | register i hi => rw [set_register _ _ hi]
    | cell i => rw [set_cell, get_vector_set, if_neg (by omega)]
    | global hle hlt => rw [set_global _ _ hle hlt]
    | property hle hlt => rw [set_property _ _ hle hlt]
    | outside h => rw [set_outside _ _ h]

/-- Only the patch local selects a sound. -/
theorem sound_set : (s.set l v).frame.sound =
    if l = patchLocation then v.toUInt32 else s.frame.sound := by
  have hpatch : patchLocation = 18 := rfl
  cases region l with
  | argument i => rw [if_neg (by omega), set_argument _ _ _ (by omega)]
  | register i hi => rw [if_neg (by omega), set_register _ _ hi]
  | cell i => rw [set_cell]
  | global hle hlt => rw [if_neg (by omega), set_global _ _ hle hlt]
  | property hle hlt => rw [if_neg (by omega), set_property _ _ hle hlt]
  | outside h => rw [if_neg (by omega), set_outside _ _ h]

theorem get_globals_set (m : Int) : (s.set l v).globals.get m =
    if m = l ∧ 100 ≤ l ∧ l < 136 then v else s.globals.get m := by
  cases region l with
  | argument i => rw [if_neg (by omega), set_argument _ _ _ (by omega)]
  | register i hi => rw [if_neg (by omega), set_register _ _ hi]
  | cell i => rw [if_neg (by omega), set_cell]
  | global hle hlt =>
      rw [set_global _ _ hle hlt]
      exact s.globals.get_set l m v
  | property hle hlt => rw [if_neg (by omega), set_property _ _ hle hlt]
  | outside h => rw [if_neg (by omega), set_outside _ _ h]

theorem get_properties_set (m : Int) : (s.set l v).properties.get m =
    if m = l ∧ 0x271A ≤ l ∧ l < 0x2737 then v else s.properties.get m := by
  cases region l with
  | argument i => rw [if_neg (by omega), set_argument _ _ _ (by omega)]
  | register i hi => rw [if_neg (by omega), set_register _ _ hi]
  | cell i => rw [if_neg (by omega), set_cell]
  | global hle hlt => rw [if_neg (by omega), set_global _ _ hle hlt]
  | property hle hlt =>
      rw [set_property _ _ hle hlt]
      exact s.properties.get_set l m v
  | outside h => rw [if_neg (by omega), set_outside _ _ h]

end writing

/-- A write is read at its own location and nowhere else. -/
theorem get_set (s : Space) (l m : Int) (v : Int32) :
    (s.set l v).get m = if m = l ∧ HasStorage l then v else s.get m := by
  unfold HasStorage
  cases region m with
  | argument i =>
      rw [get_argument, get_argument, get_arguments_set]
      congr 1
      grind
  | register i hi =>
      rw [get_register _ hi, get_register _ hi, get_registers_set]
      congr 1
      grind
  | cell i =>
      rw [get_cell, get_cell, get_cells_set]
      congr 1
      grind
  | global hle hlt =>
      rw [get_global _ hle hlt, get_global _ hle hlt, get_globals_set]
      congr 1
      grind
  | property hle hlt =>
      rw [get_property _ hle hlt, get_property _ hle hlt, get_properties_set]
      congr 1
      grind
  | outside h => rw [get_outside _ h, get_outside _ h, if_neg (by omega)]

theorem get_of_no_storage (s : Space) {l : Int} (hl : ¬ HasStorage l) : s.get l = 0 := by
  unfold HasStorage at hl
  cases region l with
  | argument i => omega
  | register i hi => omega
  | cell i => omega
  | global hle hlt =>
      rw [get_global _ hle hlt]
      exact s.globals.get_of_no_slot (by unfold globalBase; omega)
  | property hle hlt =>
      rw [get_property _ hle hlt]
      exact s.properties.get_of_no_slot (by unfold propertyBase; omega)
  | outside h => exact s.get_outside h

/-- Two states are equal if they agree on all that can be read, on the registers
behind the arguments and on the selected sound. -/
theorem ext_get {s t : Space} (hget : ∀ l, s.get l = t.get l)
    (hregisters : ∀ i : Fin 16, i.val < 5 → s.frame.registers.get i = t.frame.registers.get i)
    (hsound : s.frame.sound = t.frame.sound) : s = t := by
  have harguments : s.frame.arguments = t.frame.arguments := by
    apply Vector.ext
    intro i hi
    have hread := hget i
    rwa [s.get_argument ⟨i, hi⟩, t.get_argument ⟨i, hi⟩] at hread
  have hfile : s.frame.registers = t.frame.registers := by
    apply Vector.ext
    intro i hi
    by_cases hargument : i < 5
    · exact hregisters ⟨i, hi⟩ hargument
    · have hread := hget i
      have hle : 5 ≤ (⟨i, hi⟩ : Fin 16).val := Nat.le_of_not_lt hargument
      rwa [s.get_register hle, t.get_register hle] at hread
  have hcells : s.frame.cells = t.frame.cells := by
    apply Vector.ext
    intro i hi
    have hread := hget (i + 16)
    rwa [s.get_cell ⟨i, hi⟩, t.get_cell ⟨i, hi⟩] at hread
  have hglobals : s.globals = t.globals := by
    apply SlotTable.ext_get
    intro l
    by_cases hl : globalBase ≤ l ∧ l < globalBase + (36 : Nat)
    · unfold globalBase at hl
      have hle : 70 ≤ l := by omega
      have hlt : l < 136 := by omega
      rw [← s.get_global hle hlt, ← t.get_global hle hlt, hget]
    · rw [s.globals.get_of_no_slot hl, t.globals.get_of_no_slot hl]
  have hproperties : s.properties = t.properties := by
    apply SlotTable.ext_get
    intro l
    by_cases hl : propertyBase ≤ l ∧ l < propertyBase + (29 : Nat)
    · unfold propertyBase at hl
      have hle : 136 ≤ l := by omega
      have hlt : l < 0x2737 := by omega
      rw [← s.get_property hle hlt, ← t.get_property hle hlt, hget]
    · rw [s.properties.get_of_no_slot hl, t.properties.get_of_no_slot hl]
  cases s with
  | mk frame globals properties =>
      cases frame
      cases t with
      | mk frame' globals' properties' =>
          cases frame'
          simp_all only

/-- A write without storage leaves nothing behind, not even where reading does
not show it. -/
theorem set_of_no_storage (s : Space) {l : Int} (hl : ¬ HasStorage l) (v : Int32) :
    s.set l v = s := by
  apply ext_get
  · intro m
    rw [get_set, if_neg (fun h => hl h.2)]
  · intro i _
    have hne : (i.val : Int) ≠ l := by
      unfold HasStorage at hl
      omega
    rw [get_registers_set, if_neg hne]
  · have hne : l ≠ patchLocation := by
      unfold HasStorage at hl
      unfold patchLocation
      omega
    rw [sound_set, if_neg hne]

/-- Shared locations are read from the tables alone. -/
theorem get_eq_of_shared {s t : Space} {l : Int} (hl : IsShared l)
    (hglobals : s.globals = t.globals) (hproperties : s.properties = t.properties) :
    s.get l = t.get l := by
  unfold IsShared at hl
  cases region l with
  | argument i => omega
  | register i hi => omega
  | cell i => omega
  | global hle hlt => rw [s.get_global hle hlt, t.get_global hle hlt, hglobals]
  | property hle hlt => rw [s.get_property hle hlt, t.get_property hle hlt, hproperties]
  | outside h => omega

/-- All other locations are read from the frame alone. -/
theorem get_eq_of_frame {s t : Space} {l : Int} (hl : ¬ IsShared l)
    (hframe : s.frame = t.frame) : s.get l = t.get l := by
  unfold IsShared at hl
  cases region l with
  | argument i => rw [s.get_argument, t.get_argument, hframe]
  | register i hi => rw [s.get_register hi, t.get_register hi, hframe]
  | cell i => rw [s.get_cell, t.get_cell, hframe]
  | global hle hlt => omega
  | property hle hlt => omega
  | outside h => rw [s.get_outside h, t.get_outside h]

end Space

/-- Frames over the same tables. -/
structure Memory (ι : Type) where
  frames : ι → Frame
  globals : Globals
  properties : Properties

/-- A write through one of the frames. -/
structure Write (ι : Type) where
  frame : ι
  location : Int
  value : Int32
  deriving DecidableEq

namespace Memory
variable {ι : Type}

/-- What can be named through a frame. -/
def space (m : Memory ι) (f : ι) : Space := ⟨m.frames f, m.globals, m.properties⟩

/-- The value at a location, read through a frame. -/
def read (m : Memory ι) (f : ι) (l : Int) : Int32 := (m.space f).get l

/-- The value that the last of the writes for which `p` holds has written. -/
def lastValue (p : Write ι → Bool) (writes : List (Write ι)) : Option Int32 :=
  (writes.reverse.find? p).map Write.value

theorem lastValue_concat (p : Write ι → Bool) (writes : List (Write ι)) (x : Write ι) :
    lastValue p (writes ++ [x]) = if p x then some x.value else lastValue p writes := by
  unfold lastValue
  rw [List.reverse_append, List.reverse_singleton, List.singleton_append, List.find?_cons]
  cases p x with
  | true => rfl
  | false => rfl

variable [DecidableEq ι]

/-- Writes through a frame. -/
def write (m : Memory ι) (x : Write ι) : Memory ι :=
  let after := (m.space x.frame).set x.location x.value
  { frames := Function.update m.frames x.frame after.frame
    globals := after.globals
    properties := after.properties }

/-- Writes one after the other. -/
def writeAll (m : Memory ι) (writes : List (Write ι)) : Memory ι := writes.foldl write m

theorem space_write_self (m : Memory ι) (x : Write ι) :
    (m.write x).space x.frame = (m.space x.frame).set x.location x.value := by
  simp only [space, write, Function.update_self]

/-- A write is read back through its own frame, and through all others if the
location is shared. -/
theorem read_write (m : Memory ι) (x : Write ι) (f : ι) (l : Int) :
    (m.write x).read f l =
      if x.location = l ∧ HasStorage l ∧ (IsShared l ∨ x.frame = f) then x.value
      else m.read f l := by
  by_cases hseen : IsShared l ∨ x.frame = f
  · have hview : ∀ n : Memory ι, n.read f l = n.read x.frame l := by
      intro n
      obtain hshared | rfl := hseen
      · exact Space.get_eq_of_shared hshared rfl rfl
      · rfl
    have hsame : (l = x.location ∧ HasStorage x.location) ↔
        (x.location = l ∧ HasStorage l ∧ (IsShared l ∨ x.frame = f)) := by
      constructor
      · rintro ⟨rfl, hstorage⟩
        exact ⟨rfl, hstorage, hseen⟩
      · rintro ⟨rfl, hstorage, -⟩
        exact ⟨rfl, hstorage⟩
    rw [hview (m.write x), hview m, read, space_write_self, Space.get_set, read]
    simp only [hsame]
  · rw [not_or] at hseen
    have hother : (m.write x).frames f = m.frames f :=
      Function.update_of_ne (Ne.symm hseen.2) _ _
    rw [if_neg (fun h => h.2.2.elim hseen.1 hseen.2)]
    exact Space.get_eq_of_frame hseen.1 hother

/-- After writes through any frames, in any order: a location is read as the last
write has left it, of those that are seen through the frame. -/
theorem read_writeAll (m : Memory ι) (writes : List (Write ι)) (f : ι) {l : Int}
    (hl : HasStorage l) :
    (m.writeAll writes).read f l =
      (lastValue (fun x => decide (x.location = l ∧ (IsShared l ∨ x.frame = f))) writes).getD
        (m.read f l) := by
  induction writes using List.reverseRecOn with
  | nil => rfl
  | append_singleton writes x ih =>
      have hwrites : m.writeAll (writes ++ [x]) = (m.writeAll writes).write x :=
        List.foldl_append
      rw [hwrites, read_write, lastValue_concat]
      by_cases hx : x.location = l ∧ (IsShared l ∨ x.frame = f)
      · rw [if_pos ⟨hx.1, hl, hx.2⟩, if_pos (decide_eq_true hx), Option.getD_some]
      · rw [if_neg (fun h => hx ⟨h.1, h.2.2⟩), decide_eq_false hx, if_neg Bool.false_ne_true, ih]

end Memory

/-- Variables are a memory. What is written to a location with storage is read
there and changes no other location; a location without storage is read as zero,
and a write to it changes nothing at all. Beside what can be read, a write to an
argument sets the register behind it and a write to the patch local selects a
sound, and no more is hidden: a state is what can be read from it, the registers
behind the arguments, and the selected sound. So after any writes through any
frames over the same tables, a shared location is read through every frame as
the last write to it has left it, and any other location as the last write
through the same frame. -/
theorem variables_are_a_memory :
    (∀ (s : Space) (l m : Int) (v : Int32),
      (s.set l v).get m = if m = l ∧ HasStorage l then v else s.get m) ∧
    (∀ (s : Space) (l : Int), ¬ HasStorage l → s.get l = 0 ∧ ∀ v, s.set l v = s) ∧
    (∀ (s : Space) (l : Int) (v : Int32),
      (∀ i : Fin 16, (s.set l v).frame.registers.get i =
        if (i.val : Int) = l then v else s.frame.registers.get i) ∧
      (s.set l v).frame.sound = if l = 18 then v.toUInt32 else s.frame.sound) ∧
    (∀ s t : Space, (∀ l, s.get l = t.get l) →
      (∀ i : Fin 16, i.val < 5 → s.frame.registers.get i = t.frame.registers.get i) →
      s.frame.sound = t.frame.sound → s = t) ∧
    ∀ {ι : Type} [DecidableEq ι] (m : Memory ι) (writes : List (Write ι)) (f : ι) (l : Int),
      HasStorage l →
        (IsShared l → (m.writeAll writes).read f l =
          (Memory.lastValue (fun x => decide (x.location = l)) writes).getD (m.read f l)) ∧
        (¬ IsShared l → (m.writeAll writes).read f l =
          (Memory.lastValue (fun x => decide (x.location = l ∧ x.frame = f)) writes).getD
            (m.read f l)) := by
  refine ⟨Space.get_set, ?_, ?_, ?_, ?_⟩
  · intro s l hl
    exact ⟨s.get_of_no_storage hl, s.set_of_no_storage hl⟩
  · intro s l v
    exact ⟨s.get_registers_set v l, s.sound_set v l⟩
  · intro s t hget hregisters hsound
    exact Space.ext_get hget hregisters hsound
  · intro ι _ m writes f l hl
    have hlast := m.read_writeAll writes f hl
    constructor
    · intro hshared
      simpa only [hshared, true_or, and_true] using hlast
    · intro hshared
      simpa only [hshared, false_or] using hlast

namespace Memory

def blank : Memory Bool := ⟨fun _ => {}, {}, {}⟩

/-- Two frames that write to each other's locations, to the patch local, and to a
global without a slot. -/
def exchange : List (Write Bool) :=
  [⟨false, 3, 7⟩, ⟨true, 100, 5⟩, ⟨true, 3, 1⟩, ⟨false, 100, -2⟩, ⟨true, 18, -1⟩,
   ⟨true, 70, 9⟩]

end Memory

theorem variables_are_a_memory_exchange :
    (Memory.blank.writeAll Memory.exchange).read true 100 = -2 ∧
    (Memory.blank.writeAll Memory.exchange).read false 3 = 7 ∧
    (Memory.blank.writeAll Memory.exchange).read false 18 = 0 ∧
    (Memory.blank.writeAll Memory.exchange).read true 70 = 0 ∧
    (({} : Space).set 18 (-1)).frame.sound = 0xFFFFFFFF ∧
    (({} : Space).set 18 (-1)).set 18 0 = {} := by
  obtain ⟨hwrite, hdropped, hhidden, hext, hlast⟩ := variables_are_a_memory
  have hglobal := (hlast Memory.blank Memory.exchange true 100 (by decide)).1 (by decide)
  have hargument := (hlast Memory.blank Memory.exchange false 3 (by decide)).2 (by decide)
  have hlocal := (hlast Memory.blank Memory.exchange false 18 (by decide)).2 (by decide)
  refine ⟨hglobal.trans ?_, hargument.trans ?_, hlocal.trans ?_, ?_, ?_, ?_⟩
  · decide
  · decide
  · decide
  · exact (hdropped _ 70 (by decide)).1
  · exact (hhidden {} 18 (-1)).2
  · refine hext _ _ ?_ ?_ ?_
    · intro l
      rw [hwrite, hwrite]
      split_ifs with h
      · rw [h.1]
        decide
      · rfl
    · intro i hi
      rw [(hhidden _ _ _).1, (hhidden _ _ _).1]
      split_ifs with h
      · omega
      · rfl
    · rw [(hhidden _ _ _).2]
      rfl

end HitScript
