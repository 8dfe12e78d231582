import HitScript.Execution

/-!
# Control flow of a subroutine

The control of a subroutine is the part of it that decides which opcode runs
next. This module says once what reading an instruction, an action, an opcode,
a turn and a caller can do to it. An action keeps the control, goes back to its
own opcode, leaps to an address that it was checked against the code, or moves
the loop point; there is nothing else. Every invariant of the control is then a
matter of these four cases.

Notes, variables and flags are not part of the control: nothing is said here
about what else an opcode does.
-/
namespace HitScript

namespace Fetched
variable {α β : Type}

/-- Where the reader stands afterwards, whether it got a value or not. -/
def ip : Fetched α → Nat
  | got _ ip => ip
  | stuck _ ip => ip

@[simp] theorem ip_map (f : α → β) (r : Fetched α) : (r.map f).ip = r.ip := by
  cases r <;> rfl

end Fetched

namespace Fetch

theorem lt_size_of_getElem? {code : Array UInt8} {ip : Nat} {b : UInt8}
    (h : code[ip]? = some b) : ip < code.size :=
  (Array.getElem?_eq_some_iff.mp h).choose

theorem byte_ip {code : Array UInt8} {ip : Nat} (h : ip ≤ code.size) :
    ip ≤ (byte code ip).ip ∧ (byte code ip).ip ≤ code.size := by
  unfold byte
  split
  · next b hb =>
      have hlt := lt_size_of_getElem? hb
      exact ⟨Nat.le_succ ip, hlt⟩
  · exact ⟨Nat.le_refl _, h⟩

theorem word_ip {code : Array UInt8} {ip : Nat} (h : ip ≤ code.size) :
    ip ≤ (word code ip).ip ∧ (word code ip).ip ≤ code.size := by
  unfold word
  split
  · next hd =>
      have hlt := lt_size_of_getElem? hd
      exact ⟨Nat.le_add_right ip 4, hlt⟩
  · exact ⟨Nat.le_refl _, h⟩

theorem target_ip {code : Array UInt8} {ip : Nat} (h : ip ≤ code.size) :
    ip ≤ (target code ip).ip ∧ (target code ip).ip ≤ code.size := by
  unfold target
  split
  · exact ⟨Nat.le_refl _, h⟩
  · next a ha =>
      have hlt := lt_size_of_getElem? ha
      split
      · exact ⟨Nat.le_succ ip, hlt⟩
      · split
        · next hd =>
            have hlt := lt_size_of_getElem? hd
            exact ⟨Nat.le_add_right ip 4, hlt⟩
        · exact ⟨Nat.le_refl _, h⟩

/-- Reading an operand inside the image moves forward and stays inside, also
when the operand is missing. -/
theorem operand_ip {code : Array UInt8} {ip : Nat} (h : ip ≤ code.size) (k : OperandKind) :
    ip ≤ (operand code ip k).ip ∧ (operand code ip k).ip ≤ code.size := by
  cases k with
  | var => exact byte_ip h
  | imm8 => exact byte_ip h
  | imm32 =>
      have hw := word_ip h
      simpa only [operand, Fetched.ip_map] using hw
  | addr => exact word_ip h
  | target => exact target_ip h

theorem operands_ip {code : Array UInt8} (ks : List OperandKind) {ip : Nat}
    (h : ip ≤ code.size) :
    ip ≤ (operands code ks ip).ip ∧ (operands code ks ip).ip ≤ code.size := by
  induction ks generalizing ip with
  | nil => exact ⟨Nat.le_refl _, h⟩
  | cons k ks ih =>
      have hk := operand_ip h k
      cases hv : operand code ip k with
      | stuck fault next =>
          rw [hv] at hk
          simp only [operands, hv]
          exact hk
      | got v next =>
          rw [hv] at hk
          have hs : next ≤ (operands code ks next).ip ∧ _ := ih hk.2
          have hn : ip ≤ next := hk.1
          cases hvs : operands code ks next with
          | stuck fault last =>
              rw [hvs] at hs
              simp only [operands, hv, hvs]
              exact ⟨Nat.le_trans hn hs.1, hs.2⟩
          | got vs last =>
              rw [hvs] at hs
              simp only [operands, hv, hvs]
              exact ⟨Nat.le_trans hn hs.1, hs.2⟩

/-- Reading an instruction takes at least its opcode byte and stays inside the
image, also when the instruction cannot be read. -/
theorem instruction?_ip {code : Array UInt8} {ip : Nat} {r : Fetched Instruction}
    (h : instruction? code ip = some r) :
    ip < code.size ∧ ip < r.ip ∧ r.ip ≤ code.size := by
  obtain ⟨b, hb, rfl⟩ := Option.map_eq_some_iff.mp h
  have hlt := lt_size_of_getElem? hb
  refine ⟨hlt, ?_⟩
  unfold instructionAfter
  split
  · exact ⟨Nat.lt_succ_self ip, hlt⟩
  · next op _ =>
      have hs := operands_ip op.reads (Nat.succ_le_of_lt hlt)
      rw [Fetched.ip_map]
      exact hs

theorem instruction?_eq_none_iff {code : Array UInt8} {ip : Nat} :
    instruction? code ip = none ↔ code.size ≤ ip := by
  rw [instruction?, Option.map_eq_none_iff, Array.getElem?_eq_none_iff]

end Fetch

/-- Whether the fault is that bytes are no instruction. -/
def Fault.isUnreadable : Fault → Bool
  | unknownOpcode _ _ => true
  | endOfCode _ _ _ => true
  | badAddress _ => false
  | notARegister _ => false
  | divisionByZero => false

namespace Subroutine

/-- The part of a subroutine that decides which opcode runs next. -/
structure Control where
  program : Program
  track : TrackId
  entry : UInt32
  ip : Nat
  loopPoint : Option UInt32
  completed : Bool

def control (s : Subroutine) : Control :=
  ⟨s.program, s.track, s.entry, s.ip, s.loopPoint, s.completed⟩

section actions
variable {H : Type}

/-- The address that an action may leap to. -/
def destination? (s : Subroutine) (w : Shared H) : Action → Option UInt32
  | .call address => some address
  | .jump (.through location) => some (s.read w (UInt8.ofNat location.val)).toUInt32
  | .jump (.offset address _) => some address
  | .branch _ address => some address
  | .loop => some (s.loopPoint.getD s.entry)
  | _ => none

/-- All that an action, whose opcode started at `start`, can do to the control,
with the outcome that goes with it. -/
inductive Transfer (s : Subroutine) (w : Shared H) (start : Nat) (a : Action)
    (t : Turn H Signal) : Prop
  | stay (control : t.sub.control = s.control)
      (outcome : t.outcome = .ok .next ∨ t.outcome = .ok .done)
  | fault {f : Fault} (control : t.sub.control = s.control) (outcome : t.outcome = .error f)
      (readable : f.isUnreadable = false)
  | rewind (control : t.sub.control = { s.control with ip := start })
      (outcome : t.outcome = .ok .hold)
  | leap {address : UInt32} (destination : s.destination? w a = some address)
      (start_le : s.program.image.codeStart ≤ address.toNat)
      (lt_size : address.toNat < s.program.image.bytes.size)
      (control : t.sub.control = { s.control with ip := address.toNat })
      (outcome : t.outcome = .ok .next)
  | mark (control : t.sub.control = { s.control with loopPoint := some (UInt32.ofNat s.ip) })
      (outcome : t.outcome = .ok .next)

variable {s s' : Subroutine} {w w' : Shared H} {start : Nat} {a : Action}

theorem Transfer.identity {t : Turn H Signal} (h : Transfer s w start a t) :
    t.sub.program = s.program ∧ t.sub.track = s.track ∧ t.sub.entry = s.entry := by
  cases h with
  | stay control _ | fault control _ _ | rewind control _ | leap _ _ _ control _
  | mark control _ =>
      exact ⟨congrArg Control.program control, congrArg Control.track control,
        congrArg Control.entry control⟩

/-- An action never faults for want of an instruction to read. -/
theorem Transfer.readable {t : Turn H Signal} (h : Transfer s w start a t) {f : Fault}
    (hf : t.outcome = .error f) : f.isUnreadable = false := by
  cases h with
  | stay _ outcome =>
      rcases outcome with outcome | outcome
      · rw [outcome] at hf
        cases hf
      · rw [outcome] at hf
        cases hf
  | fault _ outcome readable =>
      rw [outcome] at hf
      cases hf
      exact readable
  | rewind _ outcome | leap _ _ _ _ outcome | mark _ outcome =>
      rw [outcome] at hf
      cases hf

/-- Every way to go on without touching the control. -/
theorem Transfer.next (h : s'.control = s.control) : Transfer s w start a (.next s' w') :=
  .stay h (.inl rfl)

theorem Transfer.assign (h : s'.control = s.control) (dest : UInt8) (value : Int32) :
    Transfer s w start a (s'.assign w' dest value) :=
  .stay h (.inl rfl)

theorem Transfer.goTo {address : UInt32} (h : s'.control = s.control)
    (hd : s.destination? w a = some address) : Transfer s w start a (s'.goTo w' address) := by
  have hp : s'.program = s.program := congrArg Control.program h
  unfold Subroutine.goTo
  dsimp only
  split
  · next inside =>
      rw [hp] at inside
      refine .leap hd inside.1 inside.2 ?_ rfl
      exact congrArg (fun c : Control => { c with ip := address.toNat }) h
  · exact .fault h rfl rfl

theorem Transfer.compute (f : Arithmetic) (dest src : UInt8) :
    Transfer s w start a (s.compute w' f dest src) := by
  unfold Subroutine.compute
  split
  · split
    · dsimp only
      split
      · exact .next rfl
      · exact .fault rfl rfl rfl
    · exact .fault rfl rfl rfl
  · exact .fault rfl rfl rfl

theorem Transfer.pause (tick : Int32) (src : UInt8) :
    Transfer s w start a (s.pause w' tick start src) := by
  unfold Subroutine.pause
  dsimp only
  split
  · exact .rewind rfl rfl
  · exact .next rfl

theorem Transfer.choose (op : Opcode) (dest : UInt8) :
    Transfer s w start a (s.choose w' op dest) := by
  unfold Subroutine.choose
  split
  · exact .assign rfl _ _
  · exact .assign rfl _ _

variable [Host H]

theorem Transfer.playNote (op : Opcode) (dest : UInt8) (looped : Bool) :
    Transfer s w start a (s.playNote w' op dest looped) := by
  unfold Subroutine.playNote
  dsimp only
  split
  · apply Transfer.assign
    rfl
  · exact .assign rfl _ _

theorem Transfer.useList (op : Opcode) (list : UInt32) :
    Transfer s w start a (s.useList w' op list) := by
  unfold Subroutine.useList
  split
  · exact .next rfl
  · exact .next rfl

theorem Transfer.select (op : Opcode) (dest : UInt8) (index : Int32) :
    Transfer s w start a (s.select w' op dest index) := by
  unfold Subroutine.select
  split
  · apply Transfer.assign
    rfl
  · exact .assign rfl _ _

/-- The cases of `Transfer` cover every action. -/
theorem perform_transfer (s : Subroutine) (w : Shared H) (tick : Int32) (op : Opcode)
    (start : Nat) (a : Action) : Transfer s w start a (s.perform w tick op start a) := by
  cases a with
  | startNote dest looped => exact .playNote op dest looped
  | stopNote src => exact .next rfl
  | playTrack src => exact .next rfl
  | killTrack src => exact .next rfl
  | store dest value => exact .assign rfl dest value
  | copy dest src => exact .assign rfl dest _
  | arithmetic f dest src => exact .compute f dest src
  | test src => exact .next rfl
  | random dest lo hi => exact .assign rfl dest _
  | call address => exact .goTo rfl rfl
  | finish => exact .stay rfl (.inr rfl)
  | jump target =>
      cases target with
      | through location => exact .goTo rfl rfl
      | offset address wide => exact .goTo rfl rfl
  | branch r address =>
      simp only [perform]
      split
      · exact .goTo rfl rfl
      · exact .next rfl
  | loop => exact .goTo rfl rfl
  | setLoop => exact .mark rfl rfl
  | wait src => exact .pause tick src
  | waitUntil r x y =>
      simp only [perform]
      split
      · exact .next rfl
      · exact .rewind rfl rfl
  | choose dest => exact .choose op dest
  | useList src => exact .useList op _
  | select dest src => exact .select op dest _
  | skip => exact .next rfl
  | noEffect => exact .next rfl

end actions

section turns
variable {H : Type} [Host H]

/-- All that running the opcode at the instruction pointer can do. -/
inductive Ran (s : Subroutine) (w : Shared H) (t : Turn H Signal) : Prop
  | ended (beyond : s.program.image.bytes.size ≤ s.ip) (sub : t.sub = s)
      (outcome : t.outcome = .ok .done)
  | unreadable {f : Fault} {ip : Nat}
      (fetched : Fetch.instruction? s.program.image.bytes s.ip = some (.stuck f ip))
      (sub : t.sub = { s with ip := ip }) (outcome : t.outcome = .error f)
  | performed {i : Instruction} {ip : Nat}
      (fetched : Fetch.instruction? s.program.image.bytes s.ip = some (.got i ip))
      (transfer : Transfer { s with ip := ip } w s.ip i.action t)

theorem step_ran (s : Subroutine) (w : Shared H) (tick : Int32) : Ran s w (s.step w tick) := by
  unfold step
  split
  · next h => exact .ended (Fetch.instruction?_eq_none_iff.mp h) rfl rfl
  · next f ip h => exact .unreadable h rfl rfl
  · next i ip h => exact .performed h (perform_transfer _ w tick i.op s.ip i.action)

/-- No opcode changes the program, the track or the entry. -/
theorem step_identity (s : Subroutine) (w : Shared H) (tick : Int32) :
    (s.step w tick).sub.program = s.program ∧ (s.step w tick).sub.track = s.track ∧
      (s.step w tick).sub.entry = s.entry := by
  cases step_ran s w tick with
  | ended _ sub _ =>
      rw [sub]
      exact ⟨rfl, rfl, rfl⟩
  | unreadable _ sub _ =>
      rw [sub]
      exact ⟨rfl, rfl, rfl⟩
  | performed _ transfer => exact transfer.identity

/-- The states in which a run turns to the next opcode, in order. -/
def visits (tick : Int32) : (budget : Nat) → Subroutine → Shared H → List (Subroutine × Shared H)
  | 0, _, _ => []
  | budget + 1, s, w =>
    let t := s.step w tick
    (s, w) ::
      match t.outcome with
      | .ok .next => visits tick budget t.sub t.shared
      | _ => []

/-- How a run ends whose last opcode went like this. -/
def conclude (t : Turn H Signal) : Turn H Progress :=
  match t.outcome with
  | .ok .next => ⟨t.sub, t.shared, .ok .running⟩
  | .ok .done => ⟨{ t.sub with completed := true }, t.shared, .ok .completed⟩
  | .ok .hold => ⟨t.sub, t.shared, .ok .suspended⟩
  | .error f => ⟨t.sub, t.shared, .error f⟩

/-- The visits are the run itself: its result is that of the last of them. -/
theorem run_eq_conclude (tick : Int32) (budget : Nat) (s : Subroutine) (w : Shared H) :
    run tick budget s w =
      match (visits tick budget s w).getLast? with
      | none => ⟨s, w, .ok .running⟩
      | some v => conclude (v.1.step v.2 tick) := by
  induction budget generalizing s w with
  | zero => rfl
  | succ budget ih =>
      simp only [run, visits]
      split
      · next h =>
          rw [ih]
          cases hv : (visits tick budget (s.step w tick).sub (s.step w tick).shared).getLast? with
          | none =>
              rw [List.getLast?_eq_none_iff] at hv
              simp only [hv, List.getLast?_singleton, conclude, h]
          | some v => simp only [List.getLast?_cons, h, hv, Option.getD_some]
      · next h => simp only [List.getLast?_singleton, conclude, h]
      · next h => simp only [List.getLast?_singleton, conclude, h]
      · next h => simp only [List.getLast?_singleton, conclude, h]

/-- What every opcode keeps holds at every visit. -/
theorem forall_visits {P : Subroutine → Prop} {tick : Int32}
    (opcode : ∀ (s : Subroutine) (w : Shared H), P s → P (s.step w tick).sub)
    (budget : Nat) {s : Subroutine} (w : Shared H) (hs : P s) :
    ∀ v ∈ visits tick budget s w, P v.1 := by
  induction budget generalizing s w with
  | zero =>
      intro v hv
      cases hv
  | succ budget ih =>
      intro v hv
      simp only [visits, List.mem_cons] at hv
      rcases hv with rfl | hv
      · exact hs
      · split at hv
        · exact ih _ (opcode s w hs) v hv
        · cases hv

/-- What every opcode keeps, and being completed does not touch, a run keeps. -/
theorem run_keeps {P : Subroutine → Prop} {tick : Int32}
    (opcode : ∀ (s : Subroutine) (w : Shared H), P s → P (s.step w tick).sub)
    (complete : ∀ s : Subroutine, P s → P { s with completed := true })
    (budget : Nat) {s : Subroutine} (w : Shared H) (hs : P s) :
    P (run tick budget s w).sub := by
  rw [run_eq_conclude]
  split
  · exact hs
  · next v hv =>
      have hlast := forall_visits opcode budget w hs v (List.mem_of_getLast? hv)
      have hstep := opcode v.1 v.2 hlast
      unfold conclude
      split
      · exact hstep
      · exact complete _ hstep
      · exact hstep
      · exact hstep

/-- A run faults only where the opcode of its last visit does. -/
theorem run_fault {tick : Int32} {budget : Nat} {s : Subroutine} {w : Shared H} {f : Fault}
    (h : (run tick budget s w).outcome = .error f) :
    ∃ v ∈ visits tick budget s w, (v.1.step v.2 tick).outcome = .error f := by
  rw [run_eq_conclude] at h
  split at h
  · cases h
  · next v hv =>
      refine ⟨v, List.mem_of_getLast? hv, ?_⟩
      unfold conclude at h
      split at h
      · cases h
      · cases h
      · cases h
      · next g hg =>
          cases h
          exact hg

/-- The visits of the run in a turn. There is no run if the subroutine is done
or plays the sound of its track. -/
def turnVisits (s : Subroutine) (w : Shared H) (c : Config) : List (Subroutine × Shared H) :=
  if s.completed then []
  else if s.isSimple then []
  else visits c.tick c.opcodeBudget.toNat (s.bindHitlist w) w

@[simp] theorem control_bindHitlist (s : Subroutine) (w : Shared H) :
    (s.bindHitlist w).control = s.control := by
  unfold bindHitlist
  split
  · rfl
  · rfl

theorem control_playSimple (s : Subroutine) (w : Shared H) :
    (s.playSimple w).sub.control = { s.control with completed := true } := by
  unfold playSimple
  dsimp only
  split
  · rfl
  · rfl

theorem forall_turnVisits {P : Control → Prop}
    (opcode : ∀ (s : Subroutine) (w : Shared H) (tick : Int32),
      P s.control → P (s.step w tick).sub.control)
    {s : Subroutine} (w : Shared H) (c : Config) (hs : P s.control) :
    ∀ v ∈ s.turnVisits w c, P v.1.control := by
  intro v hv
  unfold turnVisits at hv
  split at hv
  · cases hv
  · split at hv
    · cases hv
    · have hb : P (s.bindHitlist w).control := by
        rw [control_bindHitlist]
        exact hs
      exact forall_visits (P := fun s => P s.control) (fun s w => opcode s w c.tick) _ w hb v hv

/-- What every opcode keeps of the control, and being completed does not touch,
a turn keeps. -/
theorem advance_keeps {P : Control → Prop}
    (opcode : ∀ (s : Subroutine) (w : Shared H) (tick : Int32),
      P s.control → P (s.step w tick).sub.control)
    (complete : ∀ c : Control, P c → P { c with completed := true })
    {s : Subroutine} (w : Shared H) (c : Config) (hs : P s.control) :
    P (s.advance w c).sub.control := by
  have hb : P (s.bindHitlist w).control := by
    rw [control_bindHitlist]
    exact hs
  have hr := run_keeps (P := fun s => P s.control) (fun s w => opcode s w c.tick)
    (fun s => complete s.control) c.opcodeBudget.toNat w hb
  unfold advance
  split
  · exact hs
  · split
    · rw [control_playSimple]
      exact complete _ hs
    · dsimp only
      split
      · exact hr
      · exact hr

/-- A turn faults only where the opcode of one of its visits does. -/
theorem advance_fault {s : Subroutine} {w : Shared H} {c : Config} {f : Fault}
    (h : (s.advance w c).outcome = .error f) :
    ∃ v ∈ s.turnVisits w c, (v.1.step v.2 c.tick).outcome = .error f := by
  unfold advance at h
  unfold turnVisits
  split at h
  · cases h
  · split at h
    · unfold playSimple at h
      cases h
    · next hc hsimple =>
        rw [if_neg hc, if_neg hsimple]
        dsimp only at h
        split at h
        · next hrun =>
            rw [hrun] at h
            cases h
        · exact run_fault h

/-- The offsets at which a turn reads opcode bytes, in order. At the end of the
image there is none to read. -/
def opcodeOffsets (s : Subroutine) (w : Shared H) (c : Config) : List Nat :=
  (s.turnVisits w c).filterMap fun v =>
    (Fetch.instruction? v.1.program.image.bytes v.1.ip).map fun _ => v.1.ip

theorem mem_opcodeOffsets {s : Subroutine} {w : Shared H} {c : Config} {offset : Nat}
    (h : offset ∈ s.opcodeOffsets w c) :
    ∃ v ∈ s.turnVisits w c, v.1.ip = offset ∧ offset < v.1.program.image.bytes.size := by
  obtain ⟨v, hv, hfetch⟩ := List.mem_filterMap.mp h
  obtain ⟨r, hr, rfl⟩ := Option.map_eq_some_iff.mp hfetch
  exact ⟨v, hv, rfl, (Fetch.instruction?_ip hr).1⟩

end turns

/-- The states to which a caller can bring a subroutine: by turns in any
surroundings, by writing to its frame and by stopping its notes. -/
inductive Reached (s₀ : Subroutine) : Subroutine → Prop
  | start : Reached s₀ s₀
  | advance {s : Subroutine} {H : Type} [Host H] (w : Shared H) (c : Config) :
      Reached s₀ s → Reached s₀ (s.advance w c).sub
  | reframe {s : Subroutine} (frame : Frame) :
      Reached s₀ s → Reached s₀ { s with frame := frame }
  | stopNotes {s : Subroutine} {H : Type} [Host H] (w : Shared H) :
      Reached s₀ s → Reached s₀ (s.stopNotes w).1
  | stopLooped {s : Subroutine} {H : Type} [Host H] (w : Shared H) :
      Reached s₀ s → Reached s₀ (s.stopLooped w).1

/-- What every opcode keeps of the control, and being completed does not touch,
holds in every state that a caller can bring about. -/
theorem Reached.control {P : Control → Prop}
    (opcode : ∀ {H : Type} [Host H] (s : Subroutine) (w : Shared H) (tick : Int32),
      P s.control → P (s.step w tick).sub.control)
    (complete : ∀ c : Control, P c → P { c with completed := true })
    {s₀ s : Subroutine} (h : Reached s₀ s) (h₀ : P s₀.control) : P s.control := by
  induction h with
  | start => exact h₀
  | advance w c _ ih => exact advance_keeps opcode complete w c ih
  | reframe frame _ ih => exact ih
  | stopNotes w _ ih => exact ih
  | stopLooped w _ ih => exact ih

end Subroutine

end HitScript
