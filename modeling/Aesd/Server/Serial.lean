/- Aesd/Server/Serial
   layer: system
   digest: Critical sections in which every call succeeds are a sequence of writes and replies. -/

import Aesd.Driver.Readers
import Aesd.Server.Safety

set_option autoImplicit false
set_option relaxedAutoImplicit false

namespace Aesd.Server.Serial

open Aesd.Foundation.BlockHeap
open Aesd.Foundation.DescriptorTable
open Aesd.Foundation.RecordLog
open Aesd.Foundation.Run
open Aesd.Driver.CircularBuffer
open Aesd.Driver.Device
open Aesd.Driver.LogRelation
open Aesd.Driver.ReadCorrect
open Aesd.Driver.WriteCorrect
open Aesd.Driver.Session
open Aesd.Driver.Ownership
open Aesd.Server.Handler
open Aesd.Server.Safety

section Reply

/-- The retained committed bytes of a log, which is what a section is to send. -/
def reply (log : Log) : List UInt8 := (log.retained maxWriteOperationsSupported).flatten

theorem drop_evicted (log : Log) :
    log.committed.drop (log.evicted maxWriteOperationsSupported) = reply log :=
  Cut.committed_drop_evicted maxWriteOperationsSupported log

theorem reply_length_le (log : Log) : (reply log).length ≤ log.committed.length := by
  rw [← drop_evicted, List.length_drop]
  exact Nat.sub_le _ _

/-- Behind a reading position lies what has been read of the reply so far. -/
structure Gathered (log : Log) (device : DriverState) (pos : Nat) (bytes : List UInt8) : Prop where
  pos : snapped device pos = log.evicted maxWriteOperationsSupported + bytes.length
  bytes : bytes <+: reply log

variable {log : Log} {device : DriverState} {slots : List Slot} {lost : Set Nat}

/-- A fresh descriptor stands before the whole reply. -/
theorem gathered_start (h : Represents device log slots lost) : Gathered log device 0 [] where
  pos := by
    unfold snapped
    rw [Nat.zero_max, h.owns.evicted]
    rfl
  bytes := List.nil_prefix

/-- One read goes on where the last one stopped, and returns zero only behind the whole reply. -/
theorem gathered_read (h : Represents device log slots lost) {pos : Nat} {bytes : List UInt8}
    (hg : Gathered log device pos bytes) {env : ReadEnv} {result : ReadResult}
    (hrun : aesdRead env bufSize pos device = .ok result) (hret : 0 ≤ result.ret) :
    (0 < result.ret ∧ result.user ≠ [] ∧ result.user.length ≤ bufSize ∧
      Gathered log result.state result.fPos (bytes ++ result.user)) ∨
    (result.ret = 0 ∧ bytes = reply log) := by
  obtain ⟨hpos, rest, hrest⟩ := hg
  obtain ⟨_, htotal, hu⟩ := aesdRead_total h env bufSize pos
  obtain rfl := Except.ok.inj (hrun.symm.trans htotal)
  obtain ⟨huser, hlen, hfPos⟩ := aesdRead_delivered h hrun hret
  have hdata : result.user = rest.take bufSize := by
    rw [huser, available, hpos, ← List.drop_drop, drop_evicted, ← hrest, List.drop_left]
  by_cases hnil : result.user = []
  · right
    have hend : rest = [] := by
      rw [hdata] at hnil
      exact (List.take_eq_nil_iff.mp hnil).resolve_left (by decide)
    refine ⟨?_, ?_⟩
    · rw [hlen, hnil]
      rfl
    · rw [← hrest, hend, List.append_nil]
  · left
    refine ⟨?_, hnil, ?_, ?_, rest.drop bufSize, ?_⟩
    · rw [hlen]
      exact Int.natCast_pos.mpr (List.length_pos_iff.mpr hnil)
    · rw [hdata]
      exact List.length_take_le _ _
    · have hsnap : device.dev.totalBytesEvicted ≤ snapped device pos := Nat.le_max_right _ _
      rw [hfPos]
      unfold snapped at hpos hsnap ⊢
      simp only [hu.dev, List.length_append]
      omega
    · rw [hdata, List.append_assoc, List.take_append_drop, hrest]

end Reply

section Invariant

/-- The chunk of the section is on the device. -/
def hasWritten : Pc → Bool
  | .openRead | .readBack | .send | .closeWrite | .closeRead | .unlock => true
  | _ => false

/-- How far the reply of the section has got. -/
def ReplyOk (log : Log) (p : Process) (th : Thread) : Prop :=
  match th.pc with
  | .openWrite | .write | .openRead => th.sent = []
  | .readBack => ∃ pos, p.table.lookup th.localReadFd = some (.device pos) ∧
      Gathered log p.device pos th.sent
  | .send => ∃ pos, p.table.lookup th.localReadFd = some (.device pos) ∧
      Gathered log p.device pos (th.sent ++ th.sendBuf) ∧ th.sendBuf ≠ []
  | .closeWrite | .closeRead | .unlock => th.sent = reply log
  | _ => False

theorem ReplyOk.notStarted {log : Log} {p : Process} {th : Thread} (h : ReplyOk log p th)
    (hpc : th.pc = .openWrite ∨ th.pc = .write ∨ th.pc = .openRead) : th.sent = [] := by
  unfold ReplyOk at h
  rcases hpc with hpc | hpc | hpc
  all_goals
    rw [hpc] at h
    exact h

theorem ReplyOk.complete {log : Log} {p : Process} {th : Thread} (h : ReplyOk log p th)
    (hpc : th.pc = .closeWrite ∨ th.pc = .closeRead ∨ th.pc = .unlock) : th.sent = reply log := by
  unfold ReplyOk at h
  rcases hpc with hpc | hpc | hpc
  all_goals
    rw [hpc] at h
    exact h

theorem ReplyOk.reading {log : Log} {p : Process} {th : Thread} (h : ReplyOk log p th)
    (hpc : th.pc = .readBack) : ∃ pos, p.table.lookup th.localReadFd = some (.device pos) ∧
      Gathered log p.device pos th.sent := by
  unfold ReplyOk at h
  rw [hpc] at h
  exact h

theorem ReplyOk.sending {log : Log} {p : Process} {th : Thread} (h : ReplyOk log p th)
    (hpc : th.pc = .send) : ∃ pos, p.table.lookup th.localReadFd = some (.device pos) ∧
      Gathered log p.device pos (th.sent ++ th.sendBuf) ∧ th.sendBuf ≠ [] := by
  unfold ReplyOk at h
  rw [hpc] at h
  exact h

/-- A section that goes wrong has no place in a reply. -/
theorem ReplyOk.pc_ne_unlockContinue {log : Log} {p : Process} {th : Thread}
    (h : ReplyOk log p th) : th.pc ≠ .unlockContinue := by
  intro hpc
  unfold ReplyOk at h
  rw [hpc] at h
  exact h

/-- The section in progress: all earlier ones are complete, and it has done its part up to where
its thread stands. -/
structure HolderOk (log₀ : Log) (f : Frame) : Prop where
  ticket : f.thread.ticket = f.record.sections.length
  locks : f.record.locks = f.record.sections.length + 1
  written : f.record.writes.map Prod.snd = f.record.sections.map Section.chunk ++
    (if hasWritten f.thread.pc then [f.thread.recvBuf] else [])
  reply : ReplyOk (accept log₀ (stream f.record)) f.process f.thread

/-- A complete section behind the sections `pre`. -/
structure SectionOk (log₀ : Log) (pre : List Section) (sec : Section) : Prop where
  ticket : sec.ticket = pre.length
  after : ∃ slots lost, Represents sec.after
    (accept log₀ ((pre ++ [sec]).map Section.chunk).flatten) slots lost
  sent : sec.sent = reply (accept log₀ ((pre ++ [sec]).map Section.chunk).flatten)

/-- Every write found room for the unfinished record and its own bytes. -/
def Fits (log₀ : Log) (writes : List (List UInt8)) : Prop :=
  ∀ pre bytes, pre ++ [bytes] <+: writes →
    (accept log₀ pre.flatten).pending.length + bytes.length < kmallocLimit

/-- The sections of the server so far, in which nothing failed. -/
structure Serialised (log₀ : Log) (s : ServerState) : Prop where
  idle : s.process.fmutex = none → s.record.locks = s.record.sections.length ∧
    s.record.writes.map Prod.snd = s.record.sections.map Section.chunk
  holder : ∀ (t : Nat) (th : Thread), s.process.fmutex = some t → s.threads[t]? = some th →
    HolderOk log₀ (s.frame th)
  sections : ∀ pre sec, pre ++ [sec] <+: s.record.sections → SectionOk log₀ pre sec
  fits : Fits log₀ (s.record.writes.map Prod.snd)

theorem stream_eq (r : Record) : stream r = (r.writes.map Prod.snd).flatten := List.flatMap_def

theorem fits_nil (log₀ : Log) : Fits log₀ [] := by
  intro pre bytes h
  have hlen := h.length_le
  rw [List.length_append, List.length_singleton, List.length_nil] at hlen
  omega

theorem Fits.concat {log₀ : Log} {writes : List (List UInt8)} (h : Fits log₀ writes)
    {bytes : List UInt8}
    (hnew : (accept log₀ writes.flatten).pending.length + bytes.length < kmallocLimit) :
    Fits log₀ (writes ++ [bytes]) := by
  intro pre b hpre
  rcases List.prefix_concat_iff.mp hpre with heq | hold
  · obtain ⟨rfl, hb⟩ := List.append_inj' heq rfl
    obtain rfl := List.singleton_inj.mp hb
    exact hnew
  · exact h pre b hold

end Invariant

section HolderSteps

variable {log₀ : Log} {t : Nat} {c : Choice} {f f' : Frame}

/-- An upper bound for the number of steps that the holder of the lock still has to take. -/
def work (log : Log) (th : Thread) : Nat :=
  match th.pc with
  | .openWrite => 2 * (log.committed.length + log.pending.length + th.recvBuf.length) + 7
  | .write => 2 * (log.committed.length + log.pending.length + th.recvBuf.length) + 6
  | .openRead => 2 * (reply log).length + 5
  | .readBack => 2 * ((reply log).length - th.sent.length) + 4
  | .send => 2 * ((reply log).length - th.sent.length) + 3
  | .closeWrite => 3
  | .closeRead => 2
  | .unlock => 1
  | _ => 0

/-- The section goes on, nearer to its end. -/
structure Continues (log₀ : Log) (t : Nat) (f f' : Frame) : Prop where
  mutex : f'.process.fmutex = some t
  sections : f'.record.sections = f.record.sections
  holder : HolderOk log₀ f'
  fits : Fits log₀ (f'.record.writes.map Prod.snd)
  nearer : work (accept log₀ (stream f'.record)) f'.thread <
    work (accept log₀ (stream f.record)) f.thread

/-- The section is complete. -/
structure Completes (log₀ : Log) (t : Nat) (f f' : Frame) : Prop where
  mutex : f'.process.fmutex = none
  sections : ∃ sec, f'.record.sections = f.record.sections ++ [sec] ∧
    sec.thread = t ∧ sec.chunk = f.thread.recvBuf ∧ SectionOk log₀ f.record.sections sec
  locks : f'.record.locks = f'.record.sections.length
  written : f'.record.writes.map Prod.snd = f'.record.sections.map Section.chunk
  fits : Fits log₀ (f'.record.writes.map Prod.snd)

theorem openWriteStep_continues (hmine : f.process.fmutex = some t) (hh : HolderOk log₀ f)
    (hfits : Fits log₀ (f.record.writes.map Prod.snd)) (hpc : f.thread.pc = .openWrite)
    (opens : Bool) (hfull : (openWriteStep opens f).record.inFull = true) :
    Continues log₀ t f (openWriteStep opens f) := by
  obtain ⟨hticket, hlocks, hwritten, hreply⟩ := hh
  have hsent := hreply.notStarted (.inl hpc)
  rw [hpc] at hwritten
  cases opens with
  | false => cases hfull
  | true =>
    refine ⟨hmine, rfl, ⟨hticket, hlocks, hwritten, hsent⟩, hfits, ?_⟩
    unfold work
    rw [hpc]
    exact Nat.lt_succ_self _

theorem writeStep_continues (hmine : f.process.fmutex = some t)
    (hok : ThreadOk f.process t f.thread) (hdev : DeviceOk log₀ f.process f.record)
    (hh : HolderOk log₀ f) (hfits : Fits log₀ (f.record.writes.map Prod.snd))
    (hpc : f.thread.pc = .write) (env : WriteEnv) (h : writeStep t env f = .ok f')
    (hfull : f'.record.inFull = true) : Continues log₀ t f f' := by
  obtain ⟨hticket, hlocks, hwritten, hreply⟩ := hh
  obtain ⟨pos, hwrite⟩ := hok.writeFd (by rw [hpc]; rfl)
  obtain ⟨slots, lost, hrep⟩ := hdev
  obtain ⟨r, device, slots', hrun, hrep', -, hroom, -⟩ :=
    aesdWrite_spec hrep env f.thread.recvBuf
  simp only [writeStep, hwrite, hrun] at h
  obtain rfl := Except.ok.inj h
  have hr : r = (f.thread.recvBuf.length : Nat) := by
    have hboth := Bool.and_eq_true_iff.mp hfull
    exact of_decide_eq_true hboth.2
  have hall : f.thread.recvBuf.take r.toNat = f.thread.recvBuf := by
    rw [hr]
    exact List.take_length
  have hsent := hreply.notStarted (.inr (.inl hpc))
  rw [hpc] at hwritten
  have hwritten' : (f.record.writes ++ [(t, f.thread.recvBuf.take r.toNat)]).map Prod.snd =
      f.record.writes.map Prod.snd ++ [f.thread.recvBuf] := by
    rw [List.map_append, hall]
    rfl
  have hstream : (f.record.writes ++ [(t, f.thread.recvBuf.take r.toNat)]).flatMap Prod.snd =
      stream f.record ++ f.thread.recvBuf := by
    rw [List.flatMap_append, List.flatMap_singleton, hall]
    rfl
  refine ⟨hmine, rfl, ⟨hticket, hlocks, ?_, hsent⟩, ?_, ?_⟩
  · show (f.record.writes ++ [(t, f.thread.recvBuf.take r.toNat)]).map Prod.snd = _
    rw [hwritten', hwritten]
    simp only [hasWritten, Bool.false_eq_true, if_false, if_true, List.append_nil]
  · show Fits log₀ ((f.record.writes ++ [(t, f.thread.recvBuf.take r.toNat)]).map Prod.snd)
    rw [hwritten']
    apply hfits.concat
    have hpending := hrep.pendingSize
    have hlt := hroom (by rw [hr]; exact Int.natCast_nonneg _)
    rw [stream_eq] at hpending
    omega
  · have hlen := congrArg List.length
      (@Cut.feed_flatten_append _ isNewline (accept log₀ (stream f.record)) f.thread.recvBuf)
    have hle := reply_length_le (accept log₀ (stream f.record ++ f.thread.recvBuf))
    show work (accept log₀ ((f.record.writes ++ [(t, f.thread.recvBuf.take r.toNat)]).flatMap
      Prod.snd)) { f.thread with pc := .openRead } < _
    rw [hstream]
    rw [accept_append] at hle ⊢
    unfold work
    rw [hpc]
    simp only [List.length_append, Cut.committed, accept] at hlen hle ⊢
    omega

theorem openReadStep_continues (hmine : f.process.fmutex = some t)
    (hdev : DeviceOk log₀ f.process f.record) (hh : HolderOk log₀ f)
    (hfits : Fits log₀ (f.record.writes.map Prod.snd)) (hpc : f.thread.pc = .openRead)
    (opens : Bool) (hfull : (openReadStep opens f).record.inFull = true) :
    Continues log₀ t f (openReadStep opens f) := by
  obtain ⟨hticket, hlocks, hwritten, hreply⟩ := hh
  obtain ⟨slots, lost, hrep⟩ := hdev
  have hsent := hreply.notStarted (.inr (.inr hpc))
  rw [hpc] at hwritten
  cases opens with
  | false => cases hfull
  | true =>
    refine ⟨hmine, rfl, ⟨hticket, hlocks, hwritten, 0, ?_, ?_⟩, hfits, ?_⟩
    · exact Table.lookup_install_self _ _
    · show Gathered (accept log₀ (stream f.record)) f.process.device 0 f.thread.sent
      rw [hsent]
      exact gathered_start hrep
    · show 2 * ((reply (accept log₀ (stream f.record))).length - f.thread.sent.length) + 4 < _
      unfold work
      rw [hpc]
      simp only []
      omega

theorem readBackStep_continues (hmine : f.process.fmutex = some t)
    (hdev : DeviceOk log₀ f.process f.record) (hh : HolderOk log₀ f)
    (hfits : Fits log₀ (f.record.writes.map Prod.snd)) (hpc : f.thread.pc = .readBack)
    (env : ReadEnv) (h : readBackStep env f = .ok f') (hfull : f'.record.inFull = true) :
    Continues log₀ t f f' := by
  obtain ⟨hticket, hlocks, hwritten, hreply⟩ := hh
  obtain ⟨slots, lost, hrep⟩ := hdev
  obtain ⟨pos, hread, hg⟩ := hreply.reading hpc
  obtain ⟨result, hrun, hu⟩ := aesdRead_total hrep env bufSize pos
  simp only [readBackStep, hread, hrun] at h
  obtain rfl := Except.ok.inj h
  have hret : 0 ≤ result.ret := of_decide_eq_true (Bool.and_eq_true_iff.mp hfull).2
  rw [hpc] at hwritten
  have hwork : work (accept log₀ (stream f.record)) f.thread =
      2 * ((reply (accept log₀ (stream f.record))).length - f.thread.sent.length) + 4 := by
    unfold work
    rw [hpc]
  rcases gathered_read hrep hg hrun hret with ⟨hpos, hne, -, hg'⟩ | ⟨hzero, hall⟩
  · refine ⟨hmine, rfl, ⟨hticket, hlocks, ?_, ?_⟩, hfits, ?_⟩
    · simp only [if_pos hpos]
      exact hwritten
    · unfold ReplyOk
      simp only [if_pos hpos, if_pos hret]
      exact ⟨result.fPos, Table.lookup_replace_self _ hread, hg', hne⟩
    · rw [hwork]
      unfold work
      simp only [if_pos hpos]
      exact Nat.lt_succ_self _
  · have hnot : ¬0 < result.ret := by omega
    refine ⟨hmine, rfl, ⟨hticket, hlocks, ?_, ?_⟩, hfits, ?_⟩
    · simp only [if_neg hnot]
      exact hwritten
    · unfold ReplyOk
      simp only [if_neg hnot]
      exact hall
    · rw [hwork]
      unfold work
      simp only [if_neg hnot]
      omega

theorem sendStep_continues (hmine : f.process.fmutex = some t)
    (hok : ThreadOk f.process t f.thread) (hh : HolderOk log₀ f)
    (hfits : Fits log₀ (f.record.writes.map Prod.snd)) (hpc : f.thread.pc = .send) (room : Nat)
    (hfull : (sendStep room f).record.inFull = true) :
    Continues log₀ t f (sendStep room f) := by
  obtain ⟨hticket, hlocks, hwritten, hreply⟩ := hh
  have hconn := hok.conn (by rw [hpc]; decide)
  obtain ⟨pos, hread, hg, hne⟩ := hreply.sending hpc
  unfold sendStep at hfull ⊢
  simp only [hconn] at hfull ⊢
  have hroom : f.thread.sendBuf.length ≤ room :=
    of_decide_eq_true (Bool.and_eq_true_iff.mp hfull).2
  have hall : f.thread.sendBuf.take room = f.thread.sendBuf := List.take_of_length_le hroom
  rw [hpc] at hwritten
  refine ⟨hmine, rfl, ⟨hticket, hlocks, hwritten, pos, hread, ?_⟩, hfits, ?_⟩
  · simp only [hall]
    exact hg
  · have hpos := List.length_pos_iff.mpr hne
    have hle := hg.bytes.length_le
    show 2 * ((reply (accept log₀ (stream f.record))).length -
      (f.thread.sent ++ f.thread.sendBuf.take room).length) + 4 < _
    unfold work
    rw [hpc, hall]
    rw [List.length_append] at hle ⊢
    simp only []
    omega

theorem closeWriteStep_continues (hmine : f.process.fmutex = some t) (hh : HolderOk log₀ f)
    (hfits : Fits log₀ (f.record.writes.map Prod.snd)) (hpc : f.thread.pc = .closeWrite) :
    Continues log₀ t f (closeWriteStep f) := by
  obtain ⟨hticket, hlocks, hwritten, hreply⟩ := hh
  have hsent := hreply.complete (.inl hpc)
  rw [hpc] at hwritten
  refine ⟨hmine, rfl, ⟨hticket, hlocks, hwritten, hsent⟩, hfits, ?_⟩
  unfold work
  rw [hpc]
  exact Nat.lt_succ_self _

theorem closeReadStep_continues (hmine : f.process.fmutex = some t) (hh : HolderOk log₀ f)
    (hfits : Fits log₀ (f.record.writes.map Prod.snd)) (hpc : f.thread.pc = .closeRead) :
    Continues log₀ t f (closeReadStep f) := by
  obtain ⟨hticket, hlocks, hwritten, hreply⟩ := hh
  have hsent := hreply.complete (.inr (.inl hpc))
  rw [hpc] at hwritten
  refine ⟨hmine, rfl, ⟨hticket, hlocks, hwritten, hsent⟩, hfits, ?_⟩
  unfold work
  rw [hpc]
  exact Nat.lt_succ_self _

theorem unlockStep_completes (hdev : DeviceOk log₀ f.process f.record) (hh : HolderOk log₀ f)
    (hfits : Fits log₀ (f.record.writes.map Prod.snd)) (hpc : f.thread.pc = .unlock) :
    Completes log₀ t f (unlockStep t f) := by
  obtain ⟨hticket, hlocks, hwritten, hreply⟩ := hh
  obtain ⟨slots, lost, hrep⟩ := hdev
  have hsent := hreply.complete (.inr (.inr hpc))
  rw [hpc] at hwritten
  have hwritten' : f.record.writes.map Prod.snd =
      (f.record.sections ++ [{
        ticket := f.thread.ticket
        thread := t
        chunk := f.thread.recvBuf
        sent := f.thread.sent
        after := f.process.device : Section }]).map Section.chunk := by
    rw [hwritten, List.map_append]
    rfl
  refine ⟨rfl, ⟨_, rfl, rfl, rfl, hticket, ⟨slots, lost, ?_⟩, ?_⟩, ?_, hwritten', hfits⟩
  · rw [← hwritten', ← stream_eq]
    exact hrep
  · rw [← hwritten', ← stream_eq]
    exact hsent
  · show f.record.locks = (f.record.sections ++ [_]).length
    rw [hlocks, List.length_append]
    rfl

/-- In a step in which nothing fails, the holder of the lock comes nearer to the end of its
section or completes it. -/
theorem holder_step (hmine : f.process.fmutex = some t) (hok : ThreadOk f.process t f.thread)
    (hdev : DeviceOk log₀ f.process f.record) (hh : HolderOk log₀ f)
    (hfits : Fits log₀ (f.record.writes.map Prod.snd)) (h : handlerStep t c f = .ok f')
    (hfull : f'.record.inFull = true) : Continues log₀ t f f' ∨ Completes log₀ t f f' := by
  have hholds := hok.lock.mpr hmine
  cases hpc : f.thread.pc <;> rw [hpc] at hholds <;>
    simp only [handlerStep, hpc, Except.ok.injEq, reduceCtorEq] at h
  case openWrite =>
    subst h
    exact .inl (openWriteStep_continues hmine hh hfits hpc c.opens hfull)
  case write => exact .inl (writeStep_continues hmine hok hdev hh hfits hpc c.write h hfull)
  case openRead =>
    subst h
    exact .inl (openReadStep_continues hmine hdev hh hfits hpc c.opens hfull)
  case readBack => exact .inl (readBackStep_continues hmine hdev hh hfits hpc c.read h hfull)
  case send =>
    subst h
    exact .inl (sendStep_continues hmine hok hh hfits hpc c.room hfull)
  case closeWrite =>
    subst h
    exact .inl (closeWriteStep_continues hmine hh hfits hpc)
  case closeRead =>
    subst h
    exact .inl (closeReadStep_continues hmine hh hfits hpc)
  case unlock =>
    subst h
    exact .inr (unlockStep_completes hdev hh hfits hpc)
  case unlockContinue => exact absurd hpc hh.reply.pc_ne_unlockContinue
  all_goals cases hholds

end HolderSteps

section OtherSteps

variable {log₀ : Log} {t : Nat} {c : Choice} {f f' : Frame}

/-- What a step outside the critical section leaves alone. -/
structure Quiet (f f' : Frame) : Prop where
  mutex : f'.process.fmutex = f.process.fmutex
  device : f'.process.device = f.process.device
  writes : f'.record.writes = f.record.writes
  locks : f'.record.locks = f.record.locks
  sections : f'.record.sections = f.record.sections

theorem quiet_of_outside (hout : holdsLock f.thread.pc = false) (hlock : f.thread.pc ≠ .lock)
    (h : handlerStep t c f = .ok f') : Quiet f f' := by
  cases hpc : f.thread.pc <;> rw [hpc] at hout hlock <;>
    simp only [handlerStep, hpc, Except.ok.injEq, reduceCtorEq] at h
  case loopTest => exact h ▸ ⟨rfl, rfl, rfl, rfl, rfl⟩
  case recv =>
    subst h
    cases c.recv <;> exact ⟨rfl, rfl, rfl, rfl, rfl⟩
  case closeConn => exact h ▸ ⟨rfl, rfl, rfl, rfl, rfl⟩
  case lock => exact absurd rfl hlock
  all_goals cases hout

/-- What every step of handler `t` leaves in the record: a failure is there for ever, and at most
a section of its own is added. -/
structure Recorded (t : Nat) (r r' : Record) : Prop where
  inFull : r'.inFull = true → r.inFull = true
  sections : r'.sections = r.sections ∨
    ∃ sec, r'.sections = r.sections ++ [sec] ∧ sec.thread = t

theorem Recorded.of_eq {r r' : Record} (hf : r'.inFull = true → r.inFull = true)
    (hs : r'.sections = r.sections) : Recorded t r r' := ⟨hf, .inl hs⟩

/-- A step in which something failed. -/
theorem Recorded.of_failed {r r' : Record} (hf : r'.inFull = false)
    (hs : r'.sections = r.sections) : Recorded t r r' := by
  apply Recorded.of_eq _ hs
  intro h
  rw [hf] at h
  cases h

theorem Recorded.of_and {r r' : Record} {b : Bool} (hf : r'.inFull = (r.inFull && b))
    (hs : r'.sections = r.sections) : Recorded t r r' := by
  apply Recorded.of_eq _ hs
  intro h
  rw [hf] at h
  exact (Bool.and_eq_true_iff.mp h).1

theorem handlerStep_recorded (h : handlerStep t c f = .ok f') :
    Recorded t f.record f'.record := by
  cases handlerStep_inv h with
  | recv hpc =>
    cases c.recv with
    | error => exact Recorded.of_failed (by rfl) (by rfl)
    | again => exact Recorded.of_eq (fun h => h) (by rfl)
    | eof => exact Recorded.of_eq (fun h => h) (by rfl)
    | data chunk => exact Recorded.of_eq (fun h => h) (by rfl)
  | openWrite hpc =>
    cases c.opens
    · exact Recorded.of_failed (by rfl) (by rfl)
    · exact Recorded.of_eq (fun h => h) (by rfl)
  | write hpc hfd hrun => exact Recorded.of_and (by rfl) (by rfl)
  | writeElsewhere hpc hnot => exact Recorded.of_failed (by rfl) (by rfl)
  | openRead hpc =>
    cases c.opens
    · exact Recorded.of_failed (by rfl) (by rfl)
    · exact Recorded.of_eq (fun h => h) (by rfl)
  | readBack hpc hfd hrun => exact Recorded.of_and (by rfl) (by rfl)
  | readElsewhere hpc hnot => exact Recorded.of_failed (by rfl) (by rfl)
  | send hpc hfd => exact Recorded.of_and (by rfl) (by rfl)
  | sendElsewhere hpc hnot => exact Recorded.of_failed (by rfl) (by rfl)
  | unlock hpc => exact ⟨fun h => h, .inr ⟨_, rfl, rfl⟩⟩
  | _ => exact Recorded.of_eq (fun h => h) (by rfl)

/-- A step of another thread does not disturb the section in progress. -/
theorem HolderOk.congr {th : Thread} (hh : HolderOk log₀ ⟨f.process, th, f.record⟩)
    (hq : Quiet f f') (hdevices : ∀ fd pos, f.process.table.lookup fd = some (.device pos) →
      f'.process.table.lookup fd = some (.device pos)) :
    HolderOk log₀ ⟨f'.process, th, f'.record⟩ := by
  obtain ⟨hticket, hlocks, hwritten, hreply⟩ := hh
  have hstream : stream f'.record = stream f.record := by
    unfold stream
    rw [hq.writes]
  refine ⟨?_, ?_, ?_, ?_⟩
  · simp only [hq.sections]
    exact hticket
  · simp only [hq.sections, hq.locks]
    exact hlocks
  · simp only [hq.sections, hq.writes]
    exact hwritten
  · simp only [hstream]
    unfold ReplyOk at hreply ⊢
    simp only [] at hreply ⊢
    rw [hq.device]
    cases hpc : th.pc <;> simp only [hpc] at hreply ⊢
    case readBack =>
      obtain ⟨pos, hpos, hg⟩ := hreply
      exact ⟨pos, hdevices _ _ hpos, hg⟩
    case send =>
      obtain ⟨pos, hpos, hg⟩ := hreply
      exact ⟨pos, hdevices _ _ hpos, hg⟩
    all_goals exact hreply

end OtherSteps

section Runs

variable {log₀ : Log} {s s' : ServerState} {t : Nat} {c : Choice}

/-- A step of a handler outside its critical section. -/
theorem Serialised.outside (hs : Safe log₀ s) (h : Serialised log₀ s) {th : Thread} {f' : Frame}
    (hth : s.threads[t]? = some th) (hstep : handlerStep t c (s.frame th) = .ok f')
    (hout : holdsLock th.pc = false) (hlock : th.pc ≠ .lock) :
    Serialised log₀ (s.update t f') := by
  have hq := quiet_of_outside hout hlock hstep
  have hok : ThreadOk (s.frame th).process t (s.frame th).thread := hs.threads t th hth
  have he := handlerStep_effect hok hs.device hstep
  refine ⟨?_, ?_, ?_, ?_⟩
  · intro hfree
    have hfree' : s.process.fmutex = none := hq.mutex ▸ hfree
    obtain ⟨hlocks, hwritten⟩ := h.idle hfree'
    refine ⟨?_, ?_⟩
    · show f'.record.locks = f'.record.sections.length
      rw [hq.locks, hq.sections]
      exact hlocks
    · show f'.record.writes.map Prod.snd = f'.record.sections.map Section.chunk
      rw [hq.writes, hq.sections]
      exact hwritten
  · intro u thu hmine hu
    have hmine' : s.process.fmutex = some u := hq.mutex ▸ hmine
    have hne : u ≠ t := by
      rintro rfl
      exact hok.not_holder hout hmine'
    rw [getElem?_update hth, if_neg hne] at hu
    exact (h.holder u thu hmine' hu).congr hq (he.devices hout)
  · intro pre sec hpre
    apply h.sections
    rw [← show f'.record.sections = s.record.sections from hq.sections]
    exact hpre
  · show Fits log₀ (f'.record.writes.map Prod.snd)
    rw [hq.writes]
    exact h.fits

/-- A handler takes the lock. -/
theorem Serialised.lock (h : Serialised log₀ s) {th : Thread} {f' : Frame}
    (hth : s.threads[t]? = some th) (hstep : lockStep t (s.frame th) = .ok f') :
    Serialised log₀ (s.update t f') := by
  unfold lockStep at hstep
  split at hstep
  next hfree =>
    obtain rfl := Except.ok.inj hstep
    obtain ⟨hlocks, hwritten⟩ := h.idle hfree
    refine ⟨nofun, ?_, h.sections, h.fits⟩
    intro u thu hmine hu
    obtain rfl : t = u := Option.some.inj hmine
    rw [getElem?_update hth, if_pos rfl] at hu
    obtain rfl := Option.some.inj hu
    refine ⟨hlocks, congrArg Nat.succ hlocks, ?_, rfl⟩
    exact hwritten.trans (List.append_nil _).symm
  next => cases hstep

/-- A step of the handler that holds the lock. -/
theorem Serialised.holding (hs : Safe log₀ s) (h : Serialised log₀ s) {th : Thread} {f' : Frame}
    (hth : s.threads[t]? = some th) (hstep : handlerStep t c (s.frame th) = .ok f')
    (hmine : s.process.fmutex = some t) (hfull : f'.record.inFull = true) :
    Serialised log₀ (s.update t f') := by
  have hok : ThreadOk (s.frame th).process t (s.frame th).thread := hs.threads t th hth
  have hh := h.holder t th hmine hth
  rcases holder_step hmine hok hs.device hh h.fits hstep hfull with hgoes | hends
  · refine ⟨?_, ?_, ?_, hgoes.fits⟩
    · intro hfree
      rw [show (s.update t f').process.fmutex = some t from hgoes.mutex] at hfree
      cases hfree
    · intro u thu hmine' hu
      rw [show (s.update t f').process.fmutex = some t from hgoes.mutex] at hmine'
      obtain rfl := Option.some.inj hmine'
      rw [getElem?_update hth, if_pos rfl] at hu
      obtain rfl := Option.some.inj hu
      exact hgoes.holder
    · intro pre sec hpre
      apply h.sections
      rw [← show f'.record.sections = s.record.sections from hgoes.sections]
      exact hpre
  · obtain ⟨sec, hsec, -, -, hsecok⟩ := hends.sections
    refine ⟨fun _ => ⟨hends.locks, hends.written⟩, ?_, ?_, hends.fits⟩
    · intro u thu hmine' _
      rw [show (s.update t f').process.fmutex = none from hends.mutex] at hmine'
      cases hmine'
    · intro pre sec' hpre
      rw [show (s.update t f').record.sections = s.record.sections ++ [sec] from hsec] at hpre
      rcases List.prefix_concat_iff.mp hpre with heq | hold
      · obtain ⟨rfl, he⟩ := List.append_inj' heq rfl
        obtain rfl := List.singleton_inj.mp he
        exact hsecok
      · exact h.sections pre sec' hold

theorem inFull_of_serverStep {l : Label} (h : serverStep s l = .ok s')
    (hfull : s'.record.inFull = true) : s.record.inFull = true := by
  cases l with
  | connect =>
    obtain rfl := connect_inv h
    exact hfull
  | signal =>
    obtain rfl := (Except.ok.inj h).symm
    exact hfull
  | handler t c =>
    obtain ⟨th, f', hth, hstep, rfl⟩ := handler_inv h
    exact (handlerStep_recorded hstep).inFull hfull

theorem Serialised.step (hs : Safe log₀ s) (h : Serialised log₀ s) {l : Label}
    (hstep : serverStep s l = .ok s') (hfull : s'.record.inFull = true) :
    Serialised log₀ s' := by
  cases l with
  | connect =>
    obtain rfl := connect_inv hstep
    refine ⟨h.idle, ?_, h.sections, h.fits⟩
    intro u thu hmine hu
    have hlt := hs.holder u hmine
    rw [List.getElem?_append_left hlt] at hu
    have hquiet : Quiet (s.frame thu) { s.frame thu with
        process := { s.process with
          table := s.process.table.install (.socket s.threads.length) } } :=
      ⟨rfl, rfl, rfl, rfl, rfl⟩
    exact (h.holder u thu hmine hu).congr hquiet fun fd pos hpos => Table.lookup_install _ hpos
  | signal =>
    obtain rfl := (Except.ok.inj hstep).symm
    refine ⟨h.idle, ?_, h.sections, h.fits⟩
    intro u thu hmine hu
    have hquiet : Quiet (s.frame thu) { s.frame thu with
        process := { s.process with closeServer := true } } := ⟨rfl, rfl, rfl, rfl, rfl⟩
    exact (h.holder u thu hmine hu).congr hquiet fun fd pos hpos => hpos
  | handler t c =>
    obtain ⟨th, f', hth, hf, rfl⟩ := handler_inv hstep
    cases hholds : holdsLock th.pc with
    | true => exact h.holding hs hth hf ((hs.threads t th hth).lock.mp hholds) hfull
    | false =>
      by_cases hlock : th.pc = .lock
      · have hpc : (s.frame th).thread.pc = .lock := hlock
        simp only [handlerStep, hpc] at hf
        exact h.lock hth hf
      · exact h.outside hs hth hf hholds hlock

theorem serialised_start (log₀ : Log) (device : DriverState) :
    Serialised log₀ (startServer device) where
  idle := fun _ => ⟨rfl, rfl⟩
  holder := by
    intro t th hmine
    cases hmine
  sections := by
    intro pre sec h
    have hlen : (pre ++ [sec]).length ≤ 0 := h.length_le
    rw [List.length_append, List.length_singleton] at hlen
    omega
  fits := fits_nil log₀

theorem serialised_run {device : DriverState} {slots : List Slot} {lost : Set Nat}
    (hrep : Represents device log₀ slots lost) {labels : List Label}
    (hrun : run serverStep (startServer device) labels = .ok s)
    (hfull : s.record.inFull = true) : Serialised log₀ s := by
  have hinv : Safe log₀ s ∧ (s.record.inFull = true → Serialised log₀ s) := by
    apply run_invariant (I := fun s => Safe log₀ s ∧
      (s.record.inFull = true → Serialised log₀ s)) _ _ hrun
    · rintro s l s' ⟨hs, h⟩ hstep
      exact ⟨hs.step hstep, fun hf => (h (inFull_of_serverStep hstep hf)).step hs hstep hf⟩
    · exact ⟨safe_start hrep, fun _ => serialised_start log₀ device⟩
  exact hinv.2 hfull

end Runs

section Sequential

variable {log₀ : Log} {s : ServerState}

/-- A write in which every allocation and the copy succeed. -/
def fullWrite (bytes : List UInt8) : WriteCall := ⟨⟨fun _ => true, bytes.length⟩, bytes⟩

theorem Fits.of_prefix {writes writes' : List (List UInt8)} (h : Fits log₀ writes')
    (hpre : writes <+: writes') : Fits log₀ writes :=
  fun pre bytes hp => h pre bytes (hp.trans hpre)

/-- Writes that find room are accepted one after the other. -/
theorem sequential_writes {device : DriverState} {slots : List Slot} {lost : Set Nat}
    (hrep : Represents device log₀ slots lost) (chunks : List (List UInt8))
    (hfits : Fits log₀ chunks) :
    ∃ state slots lost, run writeCall (device, []) (chunks.map fullWrite) =
        .ok (state, chunks.flatten) ∧
      Represents state (accept log₀ chunks.flatten) slots lost := by
  induction chunks using List.reverseRecOn with
  | nil => exact ⟨device, slots, lost, rfl, hrep⟩
  | append_singleton chunks chunk ih =>
    obtain ⟨state, slots₁, lost₁, hrun, hrep₁⟩ := ih (hfits.of_prefix (List.prefix_append _ _))
    have hroom := hfits chunks chunk (List.prefix_refl _)
    obtain ⟨r, state', slots', hwrite, hrep', -, -, hall⟩ :=
      aesdWrite_spec hrep₁ (fullWrite chunk).env chunk
    have hr : r = (chunk.length : Nat) :=
      hall (fun _ => rfl) le_rfl (by rw [hrep₁.pendingSize]; exact hroom)
    have htake : chunk.take r.toNat = chunk := by
      rw [hr]
      exact List.take_length
    have hflat : (chunks ++ [chunk]).flatten = chunks.flatten ++ chunk := by
      rw [List.flatten_append, List.flatten_singleton]
    have hstep : writeCall (state, chunks.flatten) (fullWrite chunk) =
        .ok (state', chunks.flatten ++ chunk) := by
      show (aesdWrite (fullWrite chunk).env chunk state >>= fun x =>
        pure (x.2, chunks.flatten ++ chunk.take x.1.toNat)) = _
      rw [hwrite, ok_bind, htake]
      rfl
    refine ⟨state', slots', lostAfterWrite (fullWrite chunk).env chunk state lost₁, ?_, ?_⟩
    · rw [List.map_append, List.map_singleton, run_concat hrun, hstep, hflat]
    · rw [htake, ← accept_append, ← hflat] at hrep'
      exact hrep'

/-- What has been written is the chunks of the complete sections, and perhaps one more. -/
theorem Serialised.chunks_prefix (hs : Safe log₀ s) (h : Serialised log₀ s) :
    s.record.sections.map Section.chunk <+: s.record.writes.map Prod.snd := by
  cases hm : s.process.fmutex with
  | none =>
    refine ⟨[], ?_⟩
    rw [List.append_nil, (h.idle hm).2]
  | some t =>
    obtain ⟨th, hth⟩ := hs.holder_thread hm
    have hh := h.holder t th hm hth
    exact ⟨_, hh.written.symm⟩

end Sequential

section Termination

variable {log₀ : Log} {s s' : ServerState} {t : Nat}

/-- The number of steps of handler `t`. -/
def stepsOf (t : Nat) (labels : List Label) : Nat :=
  labels.countP fun
    | .handler u _ => u == t
    | _ => false

/-- The lock keeps another handler out of its critical section. -/
theorem quiet_of_locked (hs : Safe log₀ s) (hmine : s.process.fmutex = some t) {u : Nat}
    {thu : Thread} (hu : s.threads[u]? = some thu) (hut : u ≠ t) {c : Choice} {f' : Frame}
    (hf : handlerStep u c (s.frame thu) = .ok f') :
    holdsLock thu.pc = false ∧ Quiet (s.frame thu) f' := by
  have hout : holdsLock thu.pc = false := by
    rw [← Bool.not_eq_true, (hs.threads u thu hu).lock]
    exact fun hyours => hut (Option.some.inj (hyours.symm.trans hmine))
  refine ⟨hout, quiet_of_outside hout ?_ hf⟩
  intro hpc
  have hbusy : (s.frame thu).process.fmutex ≠ none := by
    show s.process.fmutex ≠ none
    rw [hmine]
    exact Option.some_ne_none t
  simp only [handlerStep, hpc, lockStep, if_neg hbusy] at hf
  cases hf

/-- Whatever the environment decides, the holder of the lock can take its next step. -/
theorem holder_enabled (hs : Safe log₀ s) (hmine : s.process.fmutex = some t) (c : Choice) :
    ∃ s', serverStep s (.handler t c) = .ok s' := by
  obtain ⟨th, hth⟩ := hs.holder_thread hmine
  have hok := hs.threads t th hth
  have hholds := hok.lock.mpr hmine
  obtain ⟨slots, lost, hrep⟩ := hs.device
  have hstep : ∃ f', handlerStep t c (s.frame th) = .ok f' := by
    cases hpc : th.pc <;> rw [hpc] at hholds <;>
      simp only [handlerStep, ServerState.frame, hpc]
    case write =>
      obtain ⟨pos, hwrite⟩ := hok.writeFd (by rw [hpc]; rfl)
      obtain ⟨r, device, slots', hrun, -⟩ := aesdWrite_spec hrep c.write th.recvBuf
      simp only [writeStep, hwrite, hrun]
      exact ⟨_, rfl⟩
    case readBack =>
      obtain ⟨pos, hread⟩ := hok.readFd (by rw [hpc]; rfl)
      obtain ⟨result, hrun, -⟩ := aesdRead_total hrep c.read bufSize pos
      simp only [readBackStep, hread, hrun]
      exact ⟨_, rfl⟩
    all_goals first | exact ⟨_, rfl⟩ | cases hholds
  obtain ⟨f', hf⟩ := hstep
  refine ⟨s.update t f', ?_⟩
  simp only [serverStep, hth, hf]

/-- Complete sections stay on record. -/
theorem sections_grow {l : Label} (h : serverStep s l = .ok s') :
    s.record.sections.length ≤ s'.record.sections.length := by
  cases l with
  | connect =>
    obtain rfl := connect_inv h
    exact le_rfl
  | signal =>
    obtain rfl := (Except.ok.inj h).symm
    exact le_rfl
  | handler t c =>
    obtain ⟨th, f', hth, hf, rfl⟩ := handler_inv h
    show s.record.sections.length ≤ f'.record.sections.length
    rcases (handlerStep_recorded hf).sections with heq | ⟨sec, heq, -⟩
    · exact le_of_eq (congrArg List.length heq.symm)
    · rw [heq, List.length_append]
      exact Nat.le_add_right _ _

/-- While a handler holds the lock, a step of the server completes its section, or leaves it in
place, and then nearer to its end if the step was its own. -/
theorem holder_progress (hs : Safe log₀ s) (h : Serialised log₀ s) {th : Thread} {l : Label}
    (hmine : s.process.fmutex = some t) (hth : s.threads[t]? = some th)
    (hstep : serverStep s l = .ok s') (hfull : s'.record.inFull = true) :
    s.record.sections.length < s'.record.sections.length ∨
    ∃ th', s'.process.fmutex = some t ∧ s'.threads[t]? = some th' ∧
      work (accept log₀ (stream s'.record)) th' + stepsOf t [l] ≤
        work (accept log₀ (stream s.record)) th := by
  cases l with
  | connect =>
    obtain rfl := connect_inv hstep
    right
    refine ⟨th, hmine, ?_, le_rfl⟩
    exact (List.getElem?_append_left (hs.holder t hmine)).trans hth
  | signal =>
    obtain rfl := (Except.ok.inj hstep).symm
    exact .inr ⟨th, hmine, hth, le_rfl⟩
  | handler u c =>
    obtain ⟨thu, f', hu, hf, rfl⟩ := handler_inv hstep
    have hoku : ThreadOk (s.frame thu).process u (s.frame thu).thread := hs.threads u thu hu
    by_cases hut : u = t
    · subst hut
      obtain rfl := Option.some.inj (hth.symm.trans hu)
      have hh := h.holder u th hmine hth
      rcases holder_step hmine hoku hs.device hh h.fits hf hfull with hgoes | hends
      · right
        refine ⟨f'.thread, hgoes.mutex, ?_, ?_⟩
        · rw [getElem?_update hth, if_pos rfl]
        · have hone : stepsOf u [.handler u c] = 1 := by simp [stepsOf]
          rw [hone]
          exact hgoes.nearer
      · left
        obtain ⟨sec, hsec, -⟩ := hends.sections
        show s.record.sections.length < f'.record.sections.length
        rw [hsec, List.length_append]
        exact Nat.lt_succ_self _
    · right
      obtain ⟨-, hq⟩ := quiet_of_locked hs hmine hu hut hf
      refine ⟨th, hq.mutex.trans hmine, ?_, ?_⟩
      · rw [getElem?_update hu, if_neg fun he => hut he.symm]
        exact hth
      · have hnone : stepsOf t [.handler u c] = 0 := by simp [stepsOf, hut]
        have hstream : stream f'.record = stream s.record := by
          unfold stream
          rw [hq.writes]
          rfl
        show work (accept log₀ (stream f'.record)) th + _ ≤ _
        rw [hnone, hstream]
        exact le_rfl

theorem inFull_of_run {labels : List Label} (hrun : run serverStep s labels = .ok s')
    (hfull : s'.record.inFull = true) : s.record.inFull = true :=
  run_invariant (I := fun x => x.record.inFull = true → s.record.inFull = true)
    (fun _ _ _ hx hstep hf => hx (inFull_of_serverStep hstep hf)) id hrun hfull

/-- The holder completes its section within as many own steps as `work` says. -/
theorem section_ends (labels : List Label) :
    ∀ (s : ServerState) (th : Thread), Safe log₀ s → Serialised log₀ s →
      s.process.fmutex = some t → s.threads[t]? = some th →
      run serverStep s labels = .ok s' → s'.record.inFull = true →
      work (accept log₀ (stream s.record)) th < stepsOf t labels →
      s.record.sections.length < s'.record.sections.length := by
  induction labels with
  | nil =>
    intro s th _ _ _ _ _ _ hwork
    exact absurd hwork (Nat.not_lt_zero _)
  | cons l labels ih =>
    intro s th hs h hmine hth hrun hfull hwork
    obtain ⟨s₁, hstep, hrest⟩ := run_cons_inv hrun
    have hfull₁ := inFull_of_run hrest hfull
    have hcount : stepsOf t (l :: labels) = stepsOf t labels + stepsOf t [l] := by
      simp [stepsOf, List.countP_cons]
    rcases holder_progress hs h hmine hth hstep hfull₁ with hdone | ⟨th₁, hmine₁, hth₁, hle⟩
    · have hgrow : s₁.record.sections.length ≤ s'.record.sections.length :=
        run_invariant (I := fun x => s₁.record.sections.length ≤ x.record.sections.length)
          (fun _ _ _ hx hstep => hx.trans (sections_grow hstep)) le_rfl hrest
      exact hdone.trans_le hgrow
    · have hnext := ih s₁ th₁ (hs.step hstep) (h.step hs hstep hfull₁) hmine₁ hth₁ hrest hfull
        (by omega)
      exact (sections_grow hstep).trans_lt hnext

end Termination

section Arrival

variable {s : ServerState} {t : Nat} {th : Thread}

/-- A handler that receives a chunk goes for the lock with it. -/
theorem recv_data (hth : s.threads[t]? = some th) (hpc : th.pc = .recv) {c : Choice}
    {chunk : Chunk} (hc : c.recv = .data chunk) :
    ∃ s₁ th₁, serverStep s (.handler t c) = .ok s₁ ∧ s₁.threads[t]? = some th₁ ∧
      th₁.pc = .lock ∧ th₁.recvBuf = chunk.bytes := by
  have hf : handlerStep t c (s.frame th) = .ok (recvStep t c.recv (s.frame th)) := by
    simp only [handlerStep, ServerState.frame, hpc]
  obtain ⟨hlt, -⟩ := List.getElem?_eq_some_iff.mp hth
  refine ⟨s.update t (recvStep t c.recv (s.frame th)),
    { th with recvBuf := chunk.bytes, pc := .lock }, ?_, ?_, rfl, rfl⟩
  · simp only [serverStep, hth, hf]
  · rw [hc]
    exact List.getElem?_set_self hlt

theorem lock_free (hth : s.threads[t]? = some th) (hpc : th.pc = .lock)
    (hfree : s.process.fmutex = none) (c : Choice) :
    ∃ s₁, serverStep s (.handler t c) = .ok s₁ ∧ s₁.process.fmutex = some t := by
  simp only [serverStep, hth, handlerStep, ServerState.frame, hpc, lockStep, hfree, if_true]
  exact ⟨_, rfl, rfl⟩

end Arrival

section Results

/-- Handlers on a device that only they use, in any interleaving of their steps in which no call
fails or falls short. The complete sections took the lock one after the other. Behind each of
them the device is as after writing the chunks of all sections up to it one after the other, and
it sent exactly the records retained there. A handler that receives a chunk goes for the lock with
it, and takes it when it is free. The handler that holds the lock is never held up, and a bound on
its further steps is the end of its section. -/
theorem sections_serialised (calls : List Call) :
    ∃ device, run callStep aesdInitModule calls = .ok device ∧
      ∀ labels s, run serverStep (startServer device) labels = .ok s → s.record.inFull = true →
        (∀ pre sec, pre ++ [sec] <+: s.record.sections → sec.ticket = pre.length ∧
          ∃ state v, run writeCall (device, []) ((pre ++ [sec]).map fun x => fullWrite x.chunk) =
              .ok (state, ((pre ++ [sec]).map Section.chunk).flatten) ∧
            snapshot sec.after = snapshot state ∧ view state = .ok v ∧
            sec.sent = v.records.flatten) ∧
        (∀ t th, s.threads[t]? = some th → th.pc = .recv → ∀ c chunk, c.recv = .data chunk →
          ∃ s₁ th₁, serverStep s (.handler t c) = .ok s₁ ∧ s₁.threads[t]? = some th₁ ∧
            th₁.pc = .lock ∧ th₁.recvBuf = chunk.bytes) ∧
        (∀ t th, s.threads[t]? = some th → th.pc = .lock → s.process.fmutex = none →
          ∀ c, ∃ s₁, serverStep s (.handler t c) = .ok s₁ ∧ s₁.process.fmutex = some t) ∧
        (∀ t, s.process.fmutex = some t → (∀ c, ∃ s', serverStep s (.handler t c) = .ok s') ∧
          ∃ bound, ∀ labels' s', run serverStep s labels' = .ok s' → s'.record.inFull = true →
            bound < stepsOf t labels' → s.record.sections.length < s'.record.sections.length) := by
  obtain ⟨device, hcalls, log₀, slots, lost, hrep⟩ := runCalls calls
  refine ⟨device, hcalls, ?_⟩
  intro labels s hrun hfull
  have hs := safe_run hrep hrun
  have h := serialised_run hrep hrun hfull
  refine ⟨?_, fun t th hth hpc c chunk hc => recv_data hth hpc hc,
    fun t th hth hpc hfree c => lock_free hth hpc hfree c, ?_⟩
  · intro pre sec hpre
    obtain ⟨hticket, ⟨slots₁, lost₁, hafter⟩, hsent⟩ := h.sections pre sec hpre
    have hchunks : (pre ++ [sec]).map Section.chunk <+: s.record.writes.map Prod.snd :=
      (hpre.map Section.chunk).trans (h.chunks_prefix hs)
    obtain ⟨state, slots₂, lost₂, hseq, hstate⟩ :=
      sequential_writes hrep _ (h.fits.of_prefix hchunks)
    refine ⟨hticket, state, _, ?_, ?_, view_eq hstate, hsent⟩
    · rw [List.map_map] at hseq
      exact hseq
    · rw [snapshot_eq hafter, snapshot_eq hstate]
  · intro t hmine
    refine ⟨fun c => holder_enabled hs hmine c, ?_⟩
    obtain ⟨th, hth⟩ := hs.holder_thread hmine
    refine ⟨work (accept log₀ (stream s.record)) th, ?_⟩
    intro labels' s' hrun' hfull' hbound
    exact section_ends labels' s _ hs h hmine hth hrun' hfull' hbound

/-- Everything succeeds, and the client sends a line. -/
def tellsLine (b : UInt8) : Choice :=
  ⟨.data (.line b), true, ⟨fun _ => true, bufSize⟩, ⟨true, bufSize⟩, bufSize⟩

set_option maxRecDepth 20000 in
/-- Two handlers with a line each: the second one waits for the lock while the first has it. -/
example : (run serverStep (startServer aesdInitModule)
    (List.replicate 2 .connect ++ List.replicate 3 (.handler 0 (tellsLine 97)) ++
      List.replicate 2 (.handler 1 (tellsLine 98)) ++
      List.replicate 9 (.handler 0 (tellsLine 97)) ++
      List.replicate 10 (.handler 1 (tellsLine 98)))).toOption.map
    (fun s => s.record.sections.map fun sec => (sec.thread, sec.chunk, sec.sent)) =
      some [(0, [97, 10], [97, 10]), (1, [98, 10], [97, 10, 98, 10])] := rfl

end Results

end Aesd.Server.Serial
