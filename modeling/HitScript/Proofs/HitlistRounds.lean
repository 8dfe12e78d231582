import HitScript.SoundBank
import HitScript.Proofs.Unloading

/-!
# Handlers walk in rounds

A handler goes through the hitlist that its track had when the handler was made,
entry after entry, and starts over at the end. What moves it on is an attempt to
start a sound, whether the host has this sound or not. A tick at which the last
note is still heard is no attempt and changes nothing.

The surroundings of each tick are arbitrary here: between two ticks notes may end
and the host may change in any way, its hitlists included. Only the sound of the
entry is looked up at the time of the attempt.
-/
namespace HitScript

namespace TvOn
variable {H : Type} [Host H]

/-- The handler has no note, or its note is not heard any more. -/
def Idle (t : TvOn) (w : Shared H) : Prop :=
  t.note = none ∨ ∃ n, t.note = some n ∧ Host.isPlaying w.host n = false

theorem idle_iff (t : TvOn) (w : Shared H) : t.Idle w ↔ t.isBusy w = false := by
  cases hnote : t.note with
  | none => simp [Idle, isBusy, hnote]
  | some n => simp [Idle, isBusy, hnote]

instance (t : TvOn) (w : Shared H) : Decidable (t.Idle w) :=
  decidable_of_iff _ (t.idle_iff w).symm

/-- How it goes to try a sound. The host plays it once from now on, if it has it;
otherwise the handler is left without a note, and says so unless it did. -/
def Attempts (t : TvOn) (w : Shared H) (sound : SoundId) (after : TvOn × Shared H) : Prop :=
  match Host.sound? w.host sound with
  | some asset =>
    let playback : Playback := ⟨sound, asset, false⟩
    let played := Host.play w.host playback
    let said := Host.remarks w.host (.play played.1 playback)
    after.1.note = some played.1 ∧
      after.2 = { w with host := played.2 }.noteAll
        (said ++ [Notice.tvOnPlaying t.name sound played.1])
  | none =>
    after.1.note = none ∧
      after.2 = w.noteAll (if t.warned then [] else [.tvOnSoundMissing t.name sound])

/-- The handler after ticks in these surroundings, one after the other. -/
def afterTicks (t : TvOn) (ws : List (Shared H)) : TvOn := ws.foldl (fun t w => (t.tick w).1) t

/-- How many of the ticks find the handler idle. -/
def attempts (t : TvOn) : List (Shared H) → Nat
  | [] => 0
  | w :: ws => (if t.Idle w then 1 else 0) + (t.tick w).1.attempts ws

section ticks
variable {t : TvOn} {w : Shared H}

theorem tick_of_busy (h : ¬ t.Idle w) : t.tick w = (t, w) := by
  rw [idle_iff, Bool.not_eq_false] at h
  exact if_pos h

theorem tick_of_idle (h : t.Idle w) :
    t.Attempts w (trackSound w.host t.nextTrack) (t.tick w) ∧
      (t.tick w).1.position = t.nextPosition := by
  rw [idle_iff] at h
  unfold Attempts
  rcases t.tick_cases w with ⟨hbusy, -⟩ | ⟨-, asset, hsound, htick⟩ | ⟨-, hsound, htick⟩
  · rw [h] at hbusy
    cases hbusy
  · rw [htick, hsound]
    refine ⟨⟨rfl, ?_⟩, rfl⟩
    -- what the host says comes first, then what the handler says
    symm
    exact List.foldl_append
  · rw [htick, hsound]
    exact ⟨⟨rfl, rfl⟩, rfl⟩

/-- A tick looks neither for another track nor for another hitlist. -/
theorem made_for_tick (t : TvOn) (w : Shared H) :
    (t.tick w).1.track = t.track ∧ (t.tick w).1.hitlist = t.hitlist := by
  rcases t.tick_cases w with ⟨-, htick⟩ | ⟨-, _, -, htick⟩ | ⟨-, -, htick⟩
  · rw [htick]
    exact ⟨rfl, rfl⟩
  · rw [htick]
    exact ⟨rfl, rfl⟩
  · rw [htick]
    exact ⟨rfl, rfl⟩

/-- An attempt moves the handler to the next entry, and nothing else does. -/
theorem position_tick (h : t.position < t.hitlist.length) (w : Shared H) :
    (t.tick w).1.position =
      (t.position + if t.Idle w then 1 else 0) % t.hitlist.length := by
  have hempty : t.hitlist.isEmpty = false := by
    rw [List.isEmpty_eq_false_iff]
    exact List.ne_nil_of_length_pos (Nat.zero_lt_of_lt h)
  by_cases hidle : t.Idle w
  · rw [(tick_of_idle hidle).2, if_pos hidle, nextPosition, hempty, if_neg Bool.false_ne_true]
  · rw [tick_of_busy hidle, if_neg hidle, Nat.add_zero, Nat.mod_eq_of_lt h]

theorem position_tick_of_empty (h : t.hitlist = []) (w : Shared H) :
    (t.tick w).1.position = t.position := by
  by_cases hidle : t.Idle w
  · rw [(tick_of_idle hidle).2, nextPosition, h, List.isEmpty_nil, if_pos rfl]
  · rw [tick_of_busy hidle]

end ticks

section runs
variable {t : TvOn}

theorem made_for_afterTicks (t : TvOn) (ws : List (Shared H)) :
    (t.afterTicks ws).track = t.track ∧ (t.afterTicks ws).hitlist = t.hitlist := by
  induction ws generalizing t with
  | nil => exact ⟨rfl, rfl⟩
  | cons w ws ih =>
      obtain ⟨htrack, hlist⟩ := t.made_for_tick w
      obtain ⟨htracks, hlists⟩ := ih (t.tick w).1
      exact ⟨htracks.trans htrack, hlists.trans hlist⟩

theorem position_afterTicks (h : t.position < t.hitlist.length) (ws : List (Shared H)) :
    (t.afterTicks ws).position = (t.position + t.attempts ws) % t.hitlist.length := by
  induction ws generalizing t with
  | nil => exact (Nat.mod_eq_of_lt h).symm
  | cons w ws ih =>
      have hposition := position_tick h w
      have hlist := (t.made_for_tick w).2
      have hnext : (t.tick w).1.position < (t.tick w).1.hitlist.length := by
        rw [hposition, hlist]
        exact Nat.mod_lt _ (Nat.zero_lt_of_lt h)
      calc (t.afterTicks (w :: ws)).position
          = ((t.tick w).1.position + (t.tick w).1.attempts ws) % t.hitlist.length := by
            rw [← hlist]
            exact ih hnext
        _ = (t.position + t.attempts (w :: ws)) % t.hitlist.length := by
            rw [hposition, Nat.mod_add_mod, Nat.add_assoc, attempts]

theorem position_afterTicks_of_empty (h : t.hitlist = []) (ws : List (Shared H)) :
    (t.afterTicks ws).position = t.position := by
  induction ws generalizing t with
  | nil => rfl
  | cons w ws ih =>
      have hlist : (t.tick w).1.hitlist = [] := (t.made_for_tick w).2.trans h
      exact (ih hlist).trans (position_tick_of_empty h w)

omit [Host H] in
theorem nextTrack_eq {entries : List TrackId} {k : Nat} (hlist : t.hitlist = entries)
    (h : 0 < entries.length) (hposition : t.position = k % entries.length) :
    t.nextTrack = entries.get ⟨k % entries.length, Nat.mod_lt k h⟩ := by
  rw [nextTrack, hposition, hlist, Nat.mod_mod, List.getElem?_eq_getElem (Nat.mod_lt k h)]
  rfl

omit [Host H] in
theorem nextTrack_of_empty (h : t.hitlist = []) : t.nextTrack = t.track := by
  simp [nextTrack, h]

end runs

/-- The handler was made for some host and has only been ticked since. -/
def OnlyTicked (H : Type) [Host H] (t : TvOn) : Prop :=
  ∃ (host : H) (ws : List (Shared H)), t = (start host t.name t.track).afterTicks ws

theorem OnlyTicked.start (host : H) (name : String) (track : TrackId) :
    (TvOn.start host name track).OnlyTicked H :=
  ⟨host, [], rfl⟩

theorem OnlyTicked.tick {t : TvOn} (h : t.OnlyTicked H) (w : Shared H) :
    (t.tick w).1.OnlyTicked H := by
  obtain ⟨host, ws, ht⟩ := h
  refine ⟨host, ws ++ [w], ?_⟩
  rw [name_tick, (t.made_for_tick w).1, afterTicks, List.foldl_append]
  exact congrArg (fun u => (u.tick w).1) ht

end TvOn

namespace Scheduler
variable {H : Type} [Host H]

theorem lasting_onlyTicked :
    Lasting fun (s : Scheduler) (_ : H) => ∀ t ∈ s.tvOn, t.OnlyTicked H where
  spawn _ _ _ _ h := h
  install {s} w name track h := by
    unfold install
    split
    · exact h
    · intro t ht
      rcases List.mem_cons.mp ((TvOn.insert_perm _ s.tvOn).mem_iff.mp ht) with rfl | ht
      · exact .start w.host name track
      · exact h t ht
  killWhere _ _ h := h
  killTvOn {s} w name h := by
    unfold killTvOn
    split
    · exact h
    · exact fun t ht => h t (List.mem_filter.mp ht).1
  clear _ _ := nofun
  step {s} w c h := by
    intro t ht
    simp only [step, tickAll_eq, List.mem_map] at ht
    obtain ⟨v, hv, rfl⟩ := ht
    have hmem := List.mem_map_of_mem (f := Prod.fst) hv
    rw [map_fst_meetings] at hmem
    exact (h v.1 hmem).tick v.2

end Scheduler

theorem Machine.Reachable.onlyTicked {H : Type} [Host H] {m : Machine H} (h : m.Reachable) :
    ∀ t ∈ m.scheduler.tvOn, t.OnlyTicked H := by
  induction h with
  | create host config dice => exact nofun
  | @obey m operation _ ih =>
      exact Has.obey (I := fun s _ => ∀ t ∈ s.tvOn, t.OnlyTicked H) Scheduler.lasting_onlyTicked
        ih operation (fun _ _ => ih)

namespace TvOn

/-- A handler walks through its hitlist in rounds. Take a handler after any
ticks, each in surroundings of its own. If its note is still heard, the next tick
changes nothing; if it has no note, or one that is not heard any more, the tick
is an attempt. With entries in the hitlist that its track had when the handler
was made, the attempt is for the sound of the entry whose number is that of the
attempts so far, modulo the number of entries, and so is the position. Without
entries every attempt is for the sound of the track, and the position stays
zero. All handlers of a machine are of this kind: nothing but ticks ever touches
them. -/
theorem handlers_walk_in_rounds {H : Type} [Host H] :
    (∀ (host : H) (name : String) (track : TrackId) (ws : List (Shared H)) (w : Shared H),
      let t := (start host name track).afterTicks ws
      let entries := (Host.hitlist? host track).getD []
      let k := (start host name track).attempts ws
      (¬ t.Idle w → t.tick w = (t, w)) ∧
      (∀ h : 0 < entries.length,
        t.position = k % entries.length ∧
        (t.Idle w → t.Attempts w
          (trackSound w.host (entries.get ⟨k % entries.length, Nat.mod_lt k h⟩)) (t.tick w))) ∧
      (entries = [] →
        t.position = 0 ∧ (t.Idle w → t.Attempts w (trackSound w.host track) (t.tick w)))) ∧
    ∀ m : Machine H, m.Reachable → ∀ t ∈ m.scheduler.tvOn,
      ∃ (host : H) (ws : List (Shared H)), t = (start host t.name t.track).afterTicks ws := by
  refine ⟨fun host name track ws w => ?_, fun m hm => hm.onlyTicked⟩
  intro t entries k
  obtain ⟨htrack, hlist⟩ : t.track = track ∧ t.hitlist = entries := made_for_afterTicks _ ws
  refine ⟨tick_of_busy, fun h => ?_, fun hempty => ?_⟩
  · have hposition : t.position = k % entries.length := by
      have hrun := position_afterTicks (t := start host name track) h ws
      rwa [show (start host name track).position = 0 from rfl, Nat.zero_add] at hrun
    refine ⟨hposition, fun hidle => ?_⟩
    have hattempt := (tick_of_idle hidle).1
    rwa [nextTrack_eq hlist h hposition] at hattempt
  · refine ⟨position_afterTicks_of_empty hempty ws, fun hidle => ?_⟩
    have hattempt := (tick_of_idle hidle).1
    rwa [nextTrack_of_empty (hlist.trans hempty), htrack] at hattempt

/-- A host with a hitlist of three entries, the second of which has no sound. -/
def broadcaster : SoundBank :=
  ((SoundBank.addSound {} 2 (SoundBank.silence 4 SoundBank.defaultRate)).addSound 3
    (SoundBank.silence 4 SoundBank.defaultRate)).setHitlist 9 [2, 4, 3]

/-- Nothing is heard. -/
def offAir : Shared SoundBank := { host := broadcaster }

/-- The first note is heard. -/
def onAir : Shared SoundBank := { host := { broadcaster with playing := {1} } }

/-- By then the host has another hitlist for the track, and a sound of its own for
the last entry. -/
def nextSeason : Shared SoundBank :=
  { host := (broadcaster.setHitlist 9 [8]).setTrack 3 2 }

theorem handlers_walk_in_rounds_season :
    let new := start broadcaster "news" 9
    let t := new.afterTicks [offAir, onAir, offAir]
    new.attempts [offAir, onAir, offAir] = 2 ∧ t.position = 2 ∧
    ¬ (new.tick offAir).1.Idle onAir ∧
    (new.tick offAir).1.tick onAir = ((new.tick offAir).1, onAir) ∧
    t.Attempts nextSeason 2 (t.tick nextSeason) := by
  intro new t
  have hcount : new.attempts [offAir, onAir, offAir] = 2 := by decide +kernel
  have hbusy : ¬ (new.tick offAir).1.Idle onAir := by decide +kernel
  have hidle : t.Idle nextSeason := by decide +kernel
  have hwalk := (handlers_walk_in_rounds (H := SoundBank)).1 broadcaster "news" 9
  have hlater := hwalk [offAir, onAir, offAir] nextSeason
  obtain ⟨-, hround, -⟩ := hlater
  obtain ⟨hposition, hattempt⟩ := hround (by decide)
  exact ⟨hcount, hposition.trans (by rw [hcount]; rfl), hbusy, (hwalk [offAir] onAir).1 hbusy,
    hattempt hidle⟩

end TvOn

end HitScript
