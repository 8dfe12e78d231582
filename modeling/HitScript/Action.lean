import HitScript.Instruction

/-!
# What instructions mean

Fifty-odd opcodes share about twenty meanings: the four ways to copy a
variable, for instance, do the same. An action is such a meaning with its
operands.
-/
namespace HitScript

/-- Register arithmetic. Comparing is subtracting. -/
inductive Arithmetic where
  | add | sub | mul | div
  deriving Repr, DecidableEq

inductive Relation where
  | eq | ne | gt | lt | ge | le
  deriving Repr, DecidableEq

def Relation.holds (r : Relation) (a b : Int32) : Bool :=
  match r with
  | eq => a == b
  | ne => a != b
  | gt => decide (b < a)
  | lt => decide (a < b)
  | ge => decide (b ≤ a)
  | le => decide (a ≤ b)

/-- Whether the relation to zero holds for a value with the given flags. -/
def Relation.holdsFlags (r : Relation) (zero negative : Bool) : Bool :=
  match r with
  | eq => zero
  | ne => !zero
  | gt => !zero && !negative
  | lt => negative
  | ge => !negative
  | le => zero || negative

inductive Action where
  /-- Start a note and store its handle. -/
  | startNote (dest : UInt8) (looped : Bool)
  /-- Stop the note whose handle is in the variable. -/
  | stopNote (src : UInt8)
  /-- Ask for a track to be started. -/
  | playTrack (src : UInt8)
  /-- Ask for a track to be killed. -/
  | killTrack (src : UInt8)
  | store (dest : UInt8) (value : Int32)
  | copy (dest src : UInt8)
  | arithmetic (f : Arithmetic) (dest src : UInt8)
  /-- Set the flags from a variable. -/
  | test (src : UInt8)
  /-- Store a random number between two variables. -/
  | random (dest lo hi : UInt8)
  | call (address : UInt32)
  /-- End the subroutine. -/
  | finish
  | jump (target : Target)
  /-- Jump if the flags say so. -/
  | branch (r : Relation) (address : UInt32)
  /-- Go back to the loop point. -/
  | loop
  /-- Put the loop point here. -/
  | setLoop
  | wait (src : UInt8)
  /-- Stay here until the relation holds between two variables. -/
  | waitUntil (r : Relation) (a b : UInt8)
  /-- Store a random entry of the hitlist. -/
  | choose (dest : UInt8)
  /-- Take the hitlist with the number in the variable. -/
  | useList (src : UInt8)
  /-- Select the entry of the hitlist with the index in a variable. -/
  | select (dest src : UInt8)
  | skip
  /-- Do nothing, and say so. -/
  | noEffect
  deriving DecidableEq

def Instruction.action : Instruction → Action
  | ⟨.noteOn, (dest, _)⟩ => .startNote dest false
  | ⟨.noteOff, (src, _)⟩ => .stopNote src
  | ⟨.noteOnLoop, (dest, _)⟩ => .startNote dest true
  | ⟨.playTrack, (src, _)⟩ => .playTrack src
  | ⟨.killTrack, (src, _)⟩ => .killTrack src
  | ⟨.loadByte, (dest, imm, _)⟩ => .store dest imm.toInt8.toInt32
  | ⟨.loadLong, (dest, imm, _)⟩ => .store dest imm
  | ⟨.set, (dest, src, _)⟩ => .copy dest src
  | ⟨.setLL, (dest, src, _)⟩ => .copy dest src
  | ⟨.setLT, (dest, src, _)⟩ => .copy dest src
  | ⟨.setTT, (dest, src, _)⟩ => .copy dest src
  | ⟨.add, (dest, src, _)⟩ => .arithmetic .add dest src
  | ⟨.sub, (dest, src, _)⟩ => .arithmetic .sub dest src
  | ⟨.div, (dest, src, _)⟩ => .arithmetic .div dest src
  | ⟨.mul, (dest, src, _)⟩ => .arithmetic .mul dest src
  | ⟨.cmp, (dest, src, _)⟩ => .arithmetic .sub dest src
  | ⟨.test, (src, _)⟩ => .test src
  | ⟨.rand, (dest, lo, hi, _)⟩ => .random dest lo hi
  | ⟨.call, (address, _)⟩ => .call address
  | ⟨.ret, _⟩ => .finish
  | ⟨.stop, _⟩ => .finish
  | ⟨.jump, (target, _)⟩ => .jump target
  | ⟨.nop, _⟩ => .skip
  | ⟨.ifEq, (address, _)⟩ => .branch .eq address
  | ⟨.ifNe, (address, _)⟩ => .branch .ne address
  | ⟨.ifGt, (address, _)⟩ => .branch .gt address
  | ⟨.ifLt, (address, _)⟩ => .branch .lt address
  | ⟨.ifGe, (address, _)⟩ => .branch .ge address
  | ⟨.ifLe, (address, _)⟩ => .branch .le address
  | ⟨.loop, _⟩ => .loop
  | ⟨.setLoop, _⟩ => .setLoop
  | ⟨.wait, (src, _)⟩ => .wait src
  | ⟨.waitEq, (a, b, _)⟩ => .waitUntil .eq a b
  | ⟨.waitNe, (a, b, _)⟩ => .waitUntil .ne a b
  | ⟨.waitGt, (a, b, _)⟩ => .waitUntil .gt a b
  | ⟨.waitLt, (a, b, _)⟩ => .waitUntil .lt a b
  | ⟨.waitGe, (a, b, _)⟩ => .waitUntil .ge a b
  | ⟨.waitLe, (a, b, _)⟩ => .waitUntil .le a b
  | ⟨.smartChoose, (dest, _)⟩ => .choose dest
  | ⟨.smartSetList, (src, _)⟩ => .useList src
  | ⟨.smartIndex, (dest, src, _)⟩ => .select dest src
  | ⟨.unduck, _⟩ => .skip
  | ⟨.test1, _⟩ => .noEffect
  | ⟨.test2, _⟩ => .noEffect
  | ⟨.test3, _⟩ => .noEffect
  | ⟨.test4, _⟩ => .noEffect
  | ⟨.seqGroupKill, _⟩ => .noEffect
  | ⟨.seqGroupWait, _⟩ => .noEffect
  | ⟨.seqGroupReturn, _⟩ => .noEffect
  | ⟨.getSourceField, _⟩ => .noEffect
  | ⟨.seqGroupTrackId, _⟩ => .noEffect
  | ⟨.duck, _⟩ => .noEffect
  | ⟨.setSourceField, _⟩ => .noEffect

end HitScript
