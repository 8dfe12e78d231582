import HitScript.Notice

/-!
# Variables

A program names its variables by location, an integer. The locations fall into
partitions:

* arguments, 0 to 4, and registers, 5 to 15, of the subroutine;
* locals of the subroutine, 16 to 69;
* globals, 70 to 135, of which those from 100 on have a slot;
* properties of the scene object, 136 to 10038, of which those from 10010 on
  have a slot.

A location without a slot reads as zero and drops what is written to it.
-/
namespace HitScript

/-- The partition of a location and the place in it. The place of a global or a
property is counted from the first slot, so it is negative before that. -/
inductive Place where
  | argument (index : Fin 5)
  | register (index : Fin 16)
  | cell (index : Fin 54)
  | global (offset : Int)
  | property (offset : Int)
  deriving Repr, DecidableEq

/-- The location of the first global with a slot. -/
def globalBase : Int := 0x64

/-- The location of the first property with a slot. -/
def propertyBase : Int := 0x271A

/-- The local that also selects the current sound of the subroutine. -/
def patchLocation : Int := 0x12

@[inline] def Place.ofLocation? (location : Int) : Option Place :=
  if location < 0 then none
  else if h : location < 5 then some (.argument ⟨location.toNat, by omega⟩)
  else if h : location < 16 then some (.register ⟨location.toNat, by omega⟩)
  else if h : location < 70 then some (.cell ⟨(location - 16).toNat, by omega⟩)
  else if location < 136 then some (.global (location - globalBase))
  else if location < 0x2737 then some (.property (location - propertyBase))
  else none

/-- A table of `size` slots for the locations from `base` on. -/
structure SlotTable (base : Int) (size : Nat) where
  values : Vector Int32 size := Vector.replicate size 0
  deriving DecidableEq

namespace SlotTable

@[inline] def slot? (base : Int) (size : Nat) (location : Int) : Option (Fin size) :=
  if h : base ≤ location ∧ location < base + size then
    some ⟨(location - base).toNat, by omega⟩
  else none

/-- The value at a location; zero if it has no slot. -/
def get {base : Int} {size : Nat} (t : SlotTable base size) (location : Int) : Int32 :=
  match slot? base size location with
  | some i => t.values.get i
  | none => 0

/-- Writes to a location; nothing changes if it has no slot. -/
def set {base : Int} {size : Nat} (t : SlotTable base size) (location : Int) (value : Int32) :
    SlotTable base size :=
  match slot? base size location with
  | some i => ⟨t.values.set i value⟩
  | none => t

def hasSlot {base : Int} {size : Nat} (_ : SlotTable base size) (location : Int) : Bool :=
  (slot? base size location).isSome

end SlotTable

abbrev Globals := SlotTable globalBase 36

abbrev Properties := SlotTable propertyBase 29

/-- The variables of one subroutine. There is a register behind every argument
too: arithmetic sees an argument through it. -/
structure Frame where
  arguments : Vector Int32 5 := Vector.replicate 5 0
  registers : Vector Int32 16 := Vector.replicate 16 0
  cells : Vector Int32 54 := Vector.replicate 54 0
  /-- The sound that was last written to the patch local; zero for none. -/
  sound : SoundId := 0
  deriving DecidableEq

/-- All that a subroutine can name: its own frame and the shared tables. -/
structure Space where
  frame : Frame := {}
  globals : Globals := {}
  properties : Properties := {}
  deriving DecidableEq

namespace Space

@[inline] def get (s : Space) (location : Int) : Int32 :=
  match Place.ofLocation? location with
  | some (.argument i) => s.frame.arguments.get i
  | some (.register i) => s.frame.registers.get i
  | some (.cell i) => s.frame.cells.get i
  | some (.global _) => s.globals.get location
  | some (.property _) => s.properties.get location
  | none => 0

/-- Writes to a location. An argument is also written to the register behind
it, and the patch local selects a sound. -/
@[inline] def set (s : Space) (location : Int) (value : Int32) : Space :=
  match Place.ofLocation? location with
  | some (.argument i) =>
    { s with frame := { s.frame with
        arguments := s.frame.arguments.set i value
        registers := s.frame.registers.set i.val value (by omega) } }
  | some (.register i) =>
    { s with frame := { s.frame with registers := s.frame.registers.set i value } }
  | some (.cell i) =>
    { s with frame := { s.frame with
        cells := s.frame.cells.set i value
        sound := if location = patchLocation then value.toUInt32 else s.frame.sound } }
  | some (.global _) => { s with globals := s.globals.set location value }
  | some (.property _) => { s with properties := s.properties.set location value }
  | none => s

/-- What there is to say about a write to a location: that it is dropped. -/
def dropNotice? (location : Int) : Option Notice :=
  match Place.ofLocation? location with
  | some (.global offset) => if offset < 0 then some (.droppedGlobal location) else none
  | some (.property offset) => if offset < 0 then some (.droppedObject location) else none
  | some _ => none
  | none => some (.droppedOutside location)

end Space

end HitScript
