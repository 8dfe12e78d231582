import HitScript.Proofs.OpcodeEffects
import HitScript.Proofs.VariableMemory

/-!
# Opcodes that store

A good part of the opcodes ends by storing a number in a variable. What they leave is
said here as it is seen through reading: the variable is read as the number, if it has
storage, and every other location is read as before. Beside the variables only the log
can differ, which tells of writes that were dropped.

Arithmetic is not among these opcodes. It writes to a register without touching the
argument in front of it.
-/
namespace HitScript

namespace Subroutine
variable {H : Type} {s : Subroutine} {w : Shared H} {dest : UInt8} {value : Int32}

/-- The opcode went on, with a value stored in a variable, and left all else as it is in
this subroutine and this shared state. -/
structure Stores (s : Subroutine) (w : Shared H) (dest : UInt8) (value : Int32)
    (t : Turn H Signal) : Prop where
  outcome : t.outcome = .ok .next
  kept : HasStorage dest.toNat → t.sub.read t.shared dest = value
  others : ∀ l : Int, l ≠ dest.toNat → (t.sub.space t.shared).get l = (s.space w).get l
  sub : t.sub = { s with frame := t.sub.frame }
  shared : t.shared =
    { w with
      globals := t.shared.globals
      properties := t.shared.properties
      log := t.shared.log }

theorem space_assign (s : Subroutine) (w : Shared H) (dest : UInt8) (value : Int32) :
    (s.assign w dest value).sub.space (s.assign w dest value).shared =
      (s.space w).set dest.toNat value := by
  simp [assign, write, writeAt, Turn.next, space, Shared.noteAll_eq]

theorem stores_assign (s : Subroutine) (w : Shared H) (dest : UInt8) (value : Int32) :
    Stores s w dest value (s.assign w dest value) where
  outcome := rfl
  kept hstorage := by
    rw [read, space_assign, Space.get_set, if_pos ⟨rfl, hstorage⟩]
  others l hl := by
    rw [space_assign, Space.get_set, if_neg fun h => hl h.1]
  sub := rfl
  shared := by
    simp only [assign, write, writeAt, Turn.next, Shared.noteAll_eq]

namespace Stores
variable {t : Turn H Signal}

/-- What was noted before does not matter. -/
theorem of_note {n : Notice} (h : Stores s (w.note n) dest value t) : Stores s w dest value t :=
  ⟨h.outcome, h.kept, h.others, h.sub, h.shared⟩

theorem of_noteAll {ns : List Notice} (h : Stores s (w.noteAll ns) dest value t) :
    Stores s w dest value t := by
  rw [Shared.noteAll_eq] at h
  exact ⟨h.outcome, h.kept, h.others, h.sub, h.shared⟩

/-- An entry of a hitlist is stored bit for bit. -/
theorem toUInt32_read {entry : TrackId} (h : Stores s w dest entry.toInt32 t)
    (hstorage : HasStorage dest.toNat) : (t.sub.read t.shared dest).toUInt32 = entry := by
  rw [h.kept hstorage, UInt32.toUInt32_toInt32]

theorem dice (h : Stores s w dest value t) : t.shared.dice = w.dice := by
  rw [h.shared]

end Stores

end Subroutine

end HitScript
