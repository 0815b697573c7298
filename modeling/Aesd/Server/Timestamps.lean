/- Aesd/Server/Timestamps
   layer: system
   digest: When the timer thread writes a timestamp, and how many it writes. -/

import Aesd.Foundation.Pacing
import Aesd.Foundation.Run
import Aesd.Server.FileHandler

set_option autoImplicit false
set_option relaxedAutoImplicit false

namespace Aesd.Server.Timestamps

open Aesd.Foundation.FileStream
open Aesd.Foundation.Pacing
open Aesd.Foundation.Run
open Aesd.Server.FileHandler

section Invariant

variable {s s' : FileServer} {c : FileChoice} {g g' : TimerFrame}

/-- A reading is late: ten seconds after `base` by its seconds, where the nanoseconds are always
compared with those of the first reading. -/
def late (start base r : Time) : Bool := isPast r { start with sec := base.sec + 10 }

/-- The lines of the timer in the file. -/
def timerUnits (r : FileRecord) : List (Writer × List UInt8) :=
  r.units.filter fun u => decide (u.1 = .timer)

/-- The timer has a line that it has not written yet. -/
def lineInHand : TimerPc → Bool
  | .lock | .seekEnd | .write => true
  | _ => false

/-- What the timer has done. Until its first reading it has done nothing. -/
structure Paced (tm : Timer) (r : FileRecord) : Prop where
  idle : tm.readings = [] → (tm.pc = .start ∨ tm.pc = .done) ∧ tm.stamps = []
  started : tm.pc = .start → tm.readings = []
  stamps : ∀ start rest, tm.readings = start :: rest →
    tm.stamps = picks (late start) start rest ∧
      tm.target = { start with sec := (tm.stamps.getLastD start).sec + 10 }
  lines : (timerUnits r).length + (lineInHand tm.pc).toNat = tm.stamps.length

theorem Paced.congr {tm : Timer} {r r' : FileRecord} (h : Paced tm r)
    (hunits : timerUnits r' = timerUnits r) : Paced tm r' :=
  ⟨h.idle, h.started, h.stamps, by rw [hunits]; exact h.lines⟩

/-- A step of the timer that reads no clock and writes nothing. -/
theorem Paced.move {tm tm' : Timer} {r r' : FileRecord} (h : Paced tm r)
    (hreadings : tm'.readings = tm.readings) (hstamps : tm'.stamps = tm.stamps)
    (htarget : tm'.target = tm.target) (hpc : tm.pc ≠ .start) (hpc' : tm'.pc ≠ .start)
    (hdone : tm.pc ≠ .done)
    (hlines : (timerUnits r').length + (lineInHand tm'.pc).toNat =
      (timerUnits r).length + (lineInHand tm.pc).toNat) : Paced tm' r' where
  idle := by
    intro hnone
    rcases (h.idle (hreadings ▸ hnone)).1 with hstart | hend
    · exact absurd hstart hpc
    · exact absurd hend hdone
  started := fun hstart => absurd hstart hpc'
  stamps := by
    rw [hreadings, hstamps, htarget]
    exact h.stamps
  lines := by
    rw [hlines, hstamps]
    exact h.lines

theorem paced_start (now : Time) (h : Paced g.timer g.record) (hpc : g.timer.pc = .start) :
    Paced (startStep now g).timer (startStep now g).record := by
  have hnone := h.started hpc
  have hstamps := (h.idle hnone).2
  have hlines := h.lines
  rw [hpc] at hlines
  refine ⟨?_, ?_, ?_, ?_⟩
  · simp [startStep]
  · simp [startStep]
  · intro start rest hreadings
    simp only [startStep, hnone, List.nil_append] at hreadings
    obtain ⟨rfl, rfl⟩ := List.cons.inj hreadings
    simp [startStep, hstamps, picks]
  · exact hlines

theorem paced_clock (current : Time) (text : TimeText) (h : Paced g.timer g.record)
    (hpc : g.timer.pc = .clock) :
    Paced (clockStep current text g).timer (clockStep current text g).record := by
  have hlines := h.lines
  rw [hpc] at hlines
  cases hreadings : g.timer.readings with
  | nil => rcases (h.idle hreadings).1 with hp | hp <;> rw [hpc] at hp <;> cases hp
  | cons start rest =>
    obtain ⟨hstamps, htarget⟩ := h.stamps start rest hreadings
    have hlate : isPast current g.timer.target =
        late start ((picks (late start) start rest).getLastD start) current := by
      rw [htarget, hstamps, late]
    have hsplit : ∀ start' rest', start :: rest ++ [current] = start' :: rest' →
        start = start' ∧ rest' = rest ++ [current] := by
      intro start' rest' heq
      obtain ⟨rfl, rfl⟩ := List.cons.inj heq
      exact ⟨rfl, rfl⟩
    rw [clockStep]
    split
    next hpast =>
      refine ⟨by simp, by simp, ?_, ?_⟩
      · intro start' rest' hmore
        rw [hreadings] at hmore
        obtain ⟨rfl, rfl⟩ := hsplit start' rest' hmore
        refine ⟨?_, ?_⟩
        · rw [picks_concat, ← hlate, if_pos hpast, hstamps]
        · simp only [htarget, List.getLastD_concat]
      · simp only [lineInHand, Bool.toNat_false, Bool.toNat_true, List.length_append,
          List.length_singleton] at hlines ⊢
        omega
    next hearly =>
      refine ⟨by simp, by simp, ?_, ?_⟩
      · intro start' rest' hmore
        rw [hreadings] at hmore
        obtain ⟨rfl, rfl⟩ := hsplit start' rest' hmore
        refine ⟨?_, htarget⟩
        rw [picks_concat, ← hlate, if_neg hearly, List.append_nil]
        exact hstamps
      · exact hlines

theorem paced_timer (h : TimerCase c g g') (hpaced : Paced g.timer g.record) :
    Paced g'.timer g'.record := by
  cases h with
  | start hpc => exact paced_start c.now hpaced hpc
  | clock hpc => exact paced_clock c.now c.text hpaced hpc
  | loopTest hpc =>
    refine hpaced.move rfl rfl rfl (by simp [hpc]) ?_ (by simp [hpc]) ?_
    · dsimp only
      split <;> simp
    · rw [hpc]
      dsimp only
      split <;> simp [lineInHand]
  | write hpc =>
    refine hpaced.move rfl rfl rfl (by simp [hpc]) (by simp [timerWriteStep]) (by simp [hpc]) ?_
    simp [timerWriteStep, timerUnits, hpc, lineInHand]
  | lock hpc hfree =>
    exact hpaced.move rfl rfl rfl (by simp [hpc]) (by simp) (by simp [hpc])
      (by simp [hpc, lineInHand])
  | seekEnd hpc =>
    exact hpaced.move rfl rfl rfl (by simp [hpc]) (by simp [timerSeekStep]) (by simp [hpc])
      (by simp [hpc, lineInHand, timerSeekStep])
  | unlock hpc =>
    exact hpaced.move rfl rfl rfl (by simp [hpc]) (by simp [timerUnlockStep]) (by simp [hpc])
      (by simp [hpc, lineInHand, timerUnlockStep])
  | sleep hpc =>
    exact hpaced.move rfl rfl rfl (by simp [hpc]) (by simp) (by simp [hpc])
      (by simp [hpc, lineInHand])

/-- Handlers write no line of the timer. -/
theorem handler_timerUnits {t : Nat} {f f' : FileFrame} (h : HandlerCase t c f f') :
    timerUnits f'.record = timerUnits f.record := by
  cases h with
  | recv hpc => cases c.recv <;> simp [recvStep]
  | write hpc => simp [writeStep, timerUnits]
  | _ hpc => rfl

theorem paced_step {l : FileLabel} (h : Paced s.timer s.record) (hstep : fileStep s l = .ok s') :
    Paced s'.timer s'.record := by
  cases fileStep_cases hstep with
  | connect hopen => exact h
  | signal => exact h
  | handler hth hf => exact h.congr (handler_timerUnits hf)
  | timer hf => exact paced_timer hf h

theorem paced_run {created : Bool} {labels : List FileLabel}
    (hrun : run fileStep (startFileServer created) labels = .ok s) : Paced s.timer s.record := by
  apply run_invariant (I := fun s => Paced s.timer s.record)
    (fun _ _ _ h hstep => paced_step h hstep) _ hrun
  refine ⟨?_, by simp [startFileServer], by simp [startFileServer], ?_⟩
  · cases created <;> simp [startFileServer]
  · cases created <;> simp [startFileServer, timerUnits, lineInHand]

end Invariant

section Results

theorem isPast_iff (current target : Time) :
    isPast current target = true ↔ target.nanos < current.nanos := by
  have hcurrent := current.valid
  have htarget := target.valid
  simp only [isPast, Bool.or_eq_true, Bool.and_eq_true, decide_eq_true_eq, Time.nanos]
  unfold nanosPerSec at *
  omega

/-- `b` is more than ten seconds later than a point of time with the seconds of `a`. -/
theorem late_iff (start a b : Time) :
    late start a b = true ↔ (a.sec + 10) * nanosPerSec + start.nsec < b.nanos :=
  isPast_iff b _

theorem add_le_of_late {start a b : Time} (h : late start a b = true) : a.sec + 10 ≤ b.sec := by
  have hb := b.valid
  rw [late_iff, Time.nanos] at h
  unfold nanosPerSec at *
  omega

theorem le_of_not_late {start a b : Time} (h : late start a b = false) : b.sec ≤ a.sec + 10 := by
  have hstart := start.valid
  rw [← Bool.not_eq_true, late_iff, Time.nanos] at h
  unfold nanosPerSec at *
  omega

/-- Seconds count as a whole, so that a reading may be late within ten seconds. -/
theorem nine_of_late {start a b : Time} (h : late start a b = true) :
    a.nanos + 9 * nanosPerSec < b.nanos := by
  have ha := a.valid
  rw [late_iff] at h
  simp only [Time.nanos] at h ⊢
  unfold nanosPerSec at *
  omega

/-- But this does not add up, since the nanoseconds are always those of the first reading. -/
theorem tens_of_late {start base : Time} {xs : List Time}
    (h : (base :: xs).IsChain fun a b => late start a b = true) {pre : List Time} {b : Time}
    {post : List Time} (hsplit : xs = pre ++ b :: post) :
    (base.sec + 10 * (pre.length + 1)) * nanosPerSec + start.nsec < b.nanos := by
  induction pre generalizing base xs with
  | nil =>
    subst hsplit
    exact (late_iff start base b).mp (List.isChain_cons_cons.mp h).1
  | cons p pre ih =>
    subst hsplit
    obtain ⟨hp, hrest⟩ := List.isChain_cons_cons.mp h
    have hsec := add_le_of_late hp
    have hle : (base.sec + 10 * ((p :: pre).length + 1)) * nanosPerSec ≤
        (p.sec + 10 * (pre.length + 1)) * nanosPerSec := by
      apply Nat.mul_le_mul_right
      rw [List.length_cons]
      omega
    exact Nat.lt_of_le_of_lt (Nat.add_le_add_right hle _) (ih hrest rfl)

/-- The clock reads `now`. -/
def clockAt (now : Time) : FileLabel :=
  .timer ⟨.again, true, timeStrSize, 0, 0, now, ⟨[], Nat.zero_le _⟩⟩

/-- A second timestamp 9.1 seconds after the first one, with readings in between that are not
late. -/
def twoStamps : List FileLabel :=
  List.replicate 3 (clockAt ⟨3, 5, by decide⟩) ++ List.replicate 3 (clockAt ⟨13, 5, by decide⟩) ++
    List.replicate 7 (clockAt ⟨14, 900000000, by decide⟩) ++
    List.replicate 3 (clockAt ⟨24, 5, by decide⟩) ++ List.replicate 4 (clockAt ⟨24, 6, by decide⟩)

end Results

end Aesd.Server.Timestamps
