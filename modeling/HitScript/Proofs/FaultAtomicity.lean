import HitScript.Proofs.Suspension

/-!
# Faults leave no trace

An instruction that faults has no effect. It has five ways to do so: its opcode
is unknown, an operand is missing, it would leave the code, it names a register
that does not exist, or it divides by zero. What the instructions before it did
in the same turn stays done.

Four things tell that it was tried. The instruction pointer stands behind what
was read of it; a division sets the flags before it looks at the divisor; a
call notes where it would return to before it looks at the address. Nothing is
written to the log.
-/
namespace HitScript

namespace Fetch
variable {code : Array UInt8} {ip next : Nat} {f : Fault}

/-- An operand of `requested` bytes does not fit between the offset and the end
of the image. -/
def RunsShort (code : Array UInt8) (ip : Nat) (f : Fault) : Prop :=
  ∃ requested, f = .endOfCode ip requested (code.size - ip) ∧ code.size - ip < requested

theorem byte_stuck (h : byte code ip = .stuck f next) : next = ip ∧ RunsShort code ip f := by
  unfold byte at h
  split at h
  · cases h
  · next hnone =>
      rw [Array.getElem?_eq_none_iff] at hnone
      cases h
      exact ⟨rfl, 1, rfl, by omega⟩

theorem word_stuck (h : word code ip = .stuck f next) : next = ip ∧ RunsShort code ip f := by
  unfold word at h
  split at h
  · cases h
  · next hmissing =>
      cases h
      refine ⟨rfl, 4, rfl, Nat.lt_of_not_le fun hlong => ?_⟩
      exact hmissing _ _ _ _ (Array.getElem?_eq_getElem (by omega))
        (Array.getElem?_eq_getElem (by omega)) (Array.getElem?_eq_getElem (by omega))
        (Array.getElem?_eq_getElem (by omega))

theorem target_stuck (h : target code ip = .stuck f next) : next = ip ∧ RunsShort code ip f := by
  unfold target at h
  split at h
  · next hnone =>
      rw [Array.getElem?_eq_none_iff] at hnone
      cases h
      exact ⟨rfl, 1, rfl, by omega⟩
  · split at h
    · cases h
    · split at h
      · cases h
      · next hmissing =>
          cases h
          refine ⟨rfl, 4, rfl, Nat.lt_of_not_le fun hlong => ?_⟩
          exact hmissing _ _ _ (Array.getElem?_eq_getElem (by omega))
            (Array.getElem?_eq_getElem (by omega)) (Array.getElem?_eq_getElem (by omega))

/-- An operand that cannot be read takes nothing. -/
theorem operand_stuck {k : OperandKind} (h : operand code ip k = .stuck f next) :
    next = ip ∧ RunsShort code ip f := by
  cases k with
  | var => exact byte_stuck h
  | imm8 => exact byte_stuck h
  | imm32 =>
      simp only [operand] at h
      cases hword : word code ip with
      | got v ip' =>
          rw [hword] at h
          cases h
      | stuck f' ip' =>
          rw [hword] at h
          cases h
          exact word_stuck hword
  | addr => exact word_stuck h
  | target => exact target_stuck h

theorem operands_stuck {ks : List OperandKind} (h : operands code ks ip = .stuck f next) :
    RunsShort code next f := by
  induction ks generalizing ip with
  | nil => cases h
  | cons k ks ih =>
      cases hv : operand code ip k with
      | stuck f' ip' =>
          simp only [operands, hv] at h
          cases h
          obtain ⟨rfl, hshort⟩ := operand_stuck hv
          exact hshort
      | got v ip' =>
          cases hvs : operands code ks ip' with
          | stuck f' ip'' =>
              simp only [operands, hv, hvs] at h
              cases h
              exact ih hvs
          | got vs ip'' =>
              simp only [operands, hv, hvs] at h
              cases h

/-- An instruction that cannot be read has an unknown opcode, or one of its
operands is missing. -/
theorem instruction?_stuck (h : instruction? code ip = some (.stuck f next)) :
    (∃ b, code[ip]? = some b ∧ Opcode.ofByte? b = none ∧ f = .unknownOpcode b ip ∧
        next = ip + 1) ∨
      ip < next ∧ RunsShort code next f := by
  have hip := (instruction?_ip h).2.1
  obtain ⟨b, hb, hafter⟩ := Option.map_eq_some_iff.mp h
  unfold instructionAfter at hafter
  split at hafter
  · next hunknown =>
      cases hafter
      exact .inl ⟨b, hb, hunknown, rfl, rfl⟩
  · next op _ =>
      cases hvs : operands code op.reads (ip + 1) with
      | got vs ip' =>
          rw [hvs] at hafter
          cases hafter
      | stuck f' ip' =>
          rw [hvs] at hafter
          cases hafter
          exact .inr ⟨hip, operands_stuck hvs⟩

end Fetch

theorem Arithmetic.apply?_eq_none {f : Arithmetic} {a b : Int32} (h : f.apply? a b = none) :
    f = .div ∧ b = 0 := by
  cases f with
  | add => cases h
  | sub => cases h
  | mul => cases h
  | div =>
      change (if b = 0 then none else some (a / b)) = none at h
      split at h
      · next hzero => exact ⟨rfl, hzero⟩
      · cases h

namespace Subroutine

section opcodes
variable {H : Type}

/-- All the ways in which the instruction at the instruction pointer can fault,
with the subroutine that each of them leaves. -/
inductive Mishap (s : Subroutine) (w : Shared H) : Fault → Subroutine → Prop
  | unknownOpcode {b : UInt8} (byte : s.program.image.bytes[s.ip]? = some b)
      (unknown : Opcode.ofByte? b = none) :
      Mishap s w (.unknownOpcode b s.ip) { s with ip := s.ip + 1 }
  | endOfCode {ip requested : Nat} (begun : s.ip < ip)
      (short : s.program.image.bytes.size - ip < requested) :
      Mishap s w (.endOfCode ip requested (s.program.image.bytes.size - ip)) { s with ip := ip }
  | badAddress {i : Instruction} {next : Nat} {address : UInt32} (reads : s.Reads i next)
      (noCall : ∀ address, i.action ≠ .call address)
      (destination : { s with ip := next }.destination? w i.action = some address)
      (outside : ¬ (s.program.image.codeStart ≤ address.toNat ∧
        address.toNat < s.program.image.bytes.size)) :
      Mishap s w (.badAddress address.toNat) { s with ip := next }
  | badCall {i : Instruction} {next : Nat} {address : UInt32} (reads : s.Reads i next)
      (call : i.action = .call address)
      (outside : ¬ (s.program.image.codeStart ≤ address.toNat ∧
        address.toNat < s.program.image.bytes.size)) :
      Mishap s w (.badAddress address.toNat)
        { s with ip := next, callStack := UInt32.ofNat next :: s.callStack }
  | notARegister {i : Instruction} {next : Nat} {f : Arithmetic} {dest src location : UInt8}
      (reads : s.Reads i next) (arithmetic : i.action = .arithmetic f dest src)
      (operand : location = dest ∨ location = src) (large : 16 ≤ location.toNat) :
      Mishap s w (.notARegister location) { s with ip := next }
  | divisionByZero {i : Instruction} {next : Nat} {dest src : UInt8} (reads : s.Reads i next)
      (division : i.action = .arithmetic .div dest src) (small : dest.toNat < 16)
      (zero : ∃ h : src.toNat < 16, s.frame.registers.get ⟨_, h⟩ = 0) :
      Mishap s w .divisionByZero { s with ip := next, zero := dest == 0, negative := false }

variable {s : Subroutine} {w : Shared H} {i : Instruction} {next : Nat} {f : Fault}

theorem goTo_fault {address : UInt32} (h : (s.goTo w address).outcome = .error f) :
    ¬ (s.program.image.codeStart ≤ address.toNat ∧
        address.toNat < s.program.image.bytes.size) ∧
      f = .badAddress address.toNat ∧ s.goTo w address = .fault s w f := by
  unfold goTo at h ⊢
  dsimp only at h ⊢
  split at h
  · cases h
  · next outside =>
      cases h
      exact ⟨outside, rfl, if_neg outside⟩

theorem compute_fault {g : Arithmetic} {dest src : UInt8}
    (h : (s.compute w g dest src).outcome = .error f) :
    (∃ location, (location = dest ∨ location = src) ∧ 16 ≤ location.toNat ∧
        f = .notARegister location ∧ s.compute w g dest src = .fault s w f) ∨
      g = .div ∧ dest.toNat < 16 ∧ (∃ h : src.toNat < 16, s.frame.registers.get ⟨_, h⟩ = 0) ∧
        f = .divisionByZero ∧
        s.compute w g dest src = .fault { s with zero := dest == 0, negative := false } w f := by
  unfold compute at h ⊢
  split at h
  · next hd =>
      split at h
      · next hs =>
          dsimp only at h
          split at h
          · cases h
          · next hnone =>
              cases h
              obtain ⟨rfl, hzero⟩ := Arithmetic.apply?_eq_none hnone
              refine .inr ⟨rfl, hd, ⟨hs, hzero⟩, rfl, ?_⟩
              rw [dif_pos hd, dif_pos hs]
              dsimp only
              rw [hnone]
      · next hs =>
          cases h
          refine .inl ⟨src, .inr rfl, Nat.le_of_not_lt hs, rfl, ?_⟩
          rw [dif_pos hd, dif_neg hs]
  · next hd =>
      cases h
      refine .inl ⟨dest, .inl rfl, Nat.le_of_not_lt hd, rfl, ?_⟩
      rw [dif_neg hd]

/-- An instruction that goes to an address faults only for the address. -/
theorem mishap_goTo {address : UInt32} (hreads : s.Reads i next)
    (hcall : ∀ address, i.action ≠ .call address)
    (hd : { s with ip := next }.destination? w i.action = some address)
    (h : ({ s with ip := next }.goTo w address).outcome = .error f) :
    ({ s with ip := next }.goTo w address).shared = w ∧
      Mishap s w f ({ s with ip := next }.goTo w address).sub := by
  obtain ⟨outside, rfl, heq⟩ := goTo_fault h
  rw [heq]
  exact ⟨rfl, .badAddress hreads hcall hd outside⟩

variable [Host H]

theorem mishap_perform {tick : Int32} (hreads : s.Reads i next)
    (h : ({ s with ip := next }.perform w tick i.op s.ip i.action).outcome = .error f) :
    ({ s with ip := next }.perform w tick i.op s.ip i.action).shared = w ∧
      Mishap s w f ({ s with ip := next }.perform w tick i.op s.ip i.action).sub := by
  cases ha : i.action with
  | arithmetic g dest src =>
      rw [ha] at h
      rcases compute_fault h with ⟨location, hlocation, hlarge, rfl, heq⟩ |
        ⟨rfl, hd, hzero, rfl, heq⟩
      · simp only [perform, heq]
        exact ⟨rfl, .notARegister hreads ha hlocation hlarge⟩
      · simp only [perform, heq]
        exact ⟨rfl, .divisionByZero hreads ha hd hzero⟩
  | call address =>
      rw [ha] at h
      obtain ⟨outside, rfl, heq⟩ := goTo_fault h
      simp only [perform, heq]
      exact ⟨rfl, .badCall hreads ha outside⟩
  | jump target =>
      rw [ha] at h
      cases target with
      | through location => exact mishap_goTo hreads (by simp [ha]) (by rw [ha]; rfl) h
      | offset address wide => exact mishap_goTo hreads (by simp [ha]) (by rw [ha]; rfl) h
  | branch r address =>
      rw [ha] at h
      simp only [perform] at h ⊢
      split at h
      · next htaken =>
          rw [if_pos htaken]
          exact mishap_goTo hreads (by simp [ha]) (by rw [ha]; rfl) h
      · cases h
  | loop =>
      rw [ha] at h
      exact mishap_goTo hreads (by simp [ha]) (by rw [ha]; rfl) h
  | _ =>
      simp only [ha, perform, playNote, pause, choose, useList, select] at h
      repeat' split at h
      all_goals cases h

/-- An opcode that faults leaves all that is shared as it was. -/
theorem mishap_step {tick : Int32} (h : (s.step w tick).outcome = .error f) :
    (s.step w tick).shared = w ∧ Mishap s w f (s.step w tick).sub := by
  cases hread : Fetch.instruction? s.program.image.bytes s.ip with
  | none =>
      simp only [step, hread] at h
      cases h
  | some fetched =>
      cases fetched with
      | stuck fault ip =>
          simp only [step, hread] at h ⊢
          cases h
          refine ⟨rfl, ?_⟩
          rcases Fetch.instruction?_stuck hread with ⟨b, hb, hunknown, rfl, rfl⟩ |
            ⟨hlt, requested, rfl, hshort⟩
          · exact .unknownOpcode hb hunknown
          · exact .endOfCode hlt hshort
      | got i next =>
          rw [Reads.step hread] at h ⊢
          exact mishap_perform hread h

end opcodes

/-- What a fault leaves differs from what it found in the instruction pointer;
in the flags, if it was a division by zero; and in one more offset to return to,
if it was a call that would leave the code. -/
theorem Mishap.traces {H : Type} {s t : Subroutine} {w : Shared H} {f : Fault}
    (h : Mishap s w f t) :
    t = { s with ip := t.ip, zero := t.zero, negative := t.negative, callStack := t.callStack } ∧
      (f ≠ .divisionByZero → t.zero = s.zero ∧ t.negative = s.negative) ∧
      (t.callStack = s.callStack ∨ ∃ i next address, s.Reads i next ∧ i.action = .call address ∧
        f = .badAddress address.toNat ∧ t.callStack = UInt32.ofNat next :: s.callStack) := by
  cases h with
  | unknownOpcode byte unknown => exact ⟨rfl, fun _ => ⟨rfl, rfl⟩, .inl rfl⟩
  | endOfCode begun short => exact ⟨rfl, fun _ => ⟨rfl, rfl⟩, .inl rfl⟩
  | badAddress reads noCall destination outside =>
      exact ⟨rfl, fun _ => ⟨rfl, rfl⟩, .inl rfl⟩
  | badCall reads call outside =>
      exact ⟨rfl, fun _ => ⟨rfl, rfl⟩, .inr ⟨_, _, _, reads, call, rfl, rfl⟩⟩
  | notARegister reads arithmetic operand large =>
      exact ⟨rfl, fun _ => ⟨rfl, rfl⟩, .inl rfl⟩
  | divisionByZero reads division small zero =>
      exact ⟨rfl, fun hf => (hf rfl).elim, .inl rfl⟩

section turns
variable {H : Type} [Host H]

/-- A visit is what so many opcodes lead to. -/
theorem exists_run_of_visit {tick : Int32} {budget : Nat} {s : Subroutine} {w : Shared H}
    {v : Subroutine × Shared H} (hv : v ∈ visits tick budget s w) :
    ∃ k < budget, run tick k s w = ⟨v.1, v.2, .ok .running⟩ := by
  induction budget generalizing s w with
  | zero => cases hv
  | succ budget ih =>
      simp only [visits, List.mem_cons] at hv
      rcases hv with rfl | hv
      · exact ⟨0, Nat.succ_pos budget, rfl⟩
      · split at hv
        · next hnext =>
            obtain ⟨k, hk, hrun⟩ := ih hv
            refine ⟨k + 1, Nat.succ_lt_succ hk, ?_⟩
            rw [run, hnext]
            exact hrun
        · cases hv

/-- A turn that faults has run some opcodes, fewer than its budget, and then come
to one that faults in one of five ways. All that is shared is as those opcodes
left it, and so is the subroutine, but for its instruction pointer, for the flags
after a division by zero, and for one more offset to return to after a call that
would leave the code. It is not done. -/
theorem faults_leave_no_trace {s : Subroutine} {w : Shared H} {c : Config} {f : Fault}
    (h : (s.advance w c).outcome = .error f) :
    let after := s.advance w c
    ∃ k s' w', k < c.opcodeBudget.toNat ∧
      run c.tick k (s.bindHitlist w) w = ⟨s', w', .ok .running⟩ ∧
      after.shared = w' ∧ Mishap s' w' f after.sub ∧
      after.sub = { s' with
        ip := after.sub.ip
        zero := after.sub.zero
        negative := after.sub.negative
        callStack := after.sub.callStack } ∧
      (f ≠ .divisionByZero →
        after.sub.zero = s'.zero ∧ after.sub.negative = s'.negative) ∧
      (after.sub.callStack = s'.callStack ∨
        ∃ i next address, s'.Reads i next ∧ i.action = .call address ∧
          f = .badAddress address.toNat ∧
          after.sub.callStack = UInt32.ofNat next :: s'.callStack) ∧
      after.sub.completed = false := by
  intro after
  obtain ⟨v, hv, hfault⟩ := advance_fault h
  have hafter : after = ⟨(v.1.step v.2 c.tick).sub, (v.1.step v.2 c.tick).shared, .error f⟩ := by
    refine (advance_of_visit hv (by rw [hfault]; nofun)).trans ?_
    simp only [conclude, hfault]
  obtain ⟨hshared, hmishap⟩ := mishap_step hfault
  have hcompleted := (step_completed v.1 v.2 c.tick).trans (underway_of_visit hv).completed
  rw [(turnVisits_eq hv).2.2] at hv
  obtain ⟨k, hk, hrun⟩ := exists_run_of_visit hv
  obtain ⟨hsub, hflags, hstack⟩ := hmishap.traces
  rw [hafter]
  exact ⟨k, v.1, v.2, hk, hrun, hshared, hmishap, hsub, hflags, hstack, hcompleted⟩

/-- A program that loads a variable and then calls into its own header. -/
def stumble : Image where
  minorVersion := 0
  exports := [⟨8, 28⟩]
  bytes := (Image.assembleBytes [⟨8, 28⟩] [0x03, 20, 7, 0x06, 3, 0, 0, 0]).toArray
  entries_in_code := by decide

def stumbler : Subroutine := start ⟨.load 0, stumble⟩ 8 28

def footpath : Shared SoundBank := { host := {} }

theorem faults_leave_no_trace_stumbler :
    let after := stumbler.advance footpath {}
    after.outcome = .error (.badAddress 3) ∧ after.sub.ip = 36 ∧ after.sub.callStack = [36] ∧
    after.sub.read after.shared 20 = 7 ∧
    ∃ k s' w', k < 4096 ∧
      run 16 k (stumbler.bindHitlist footpath) footpath = ⟨s', w', .ok .running⟩ ∧
      after.shared = w' ∧ after.sub.frame = s'.frame ∧ after.sub.zero = s'.zero ∧
      Mishap s' w' (.badAddress 3) after.sub := by
  intro after
  have hfault : after.outcome = .error (.badAddress 3) := by rfl
  obtain ⟨k, s', w', hk, hrun, hshared, hmishap, hsub, hflags, -, -⟩ :=
    faults_leave_no_trace hfault
  exact ⟨hfault, by decide +kernel, by decide +kernel, by decide +kernel,
    k, s', w', hk, hrun, hshared, (congrArg frame hsub).trans rfl, (hflags nofun).1, hmishap⟩

end turns

end Subroutine

end HitScript
