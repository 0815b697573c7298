/- Aesd/Server/Safety
   layer: system
   digest: What every step of every handler keeps: the lock, the descriptors and the device's log. -/

import Aesd.Driver.Session
import Aesd.Server.Handler

set_option autoImplicit false
set_option relaxedAutoImplicit false

namespace Aesd.Server.Safety

open Aesd.Foundation.BlockHeap
open Aesd.Foundation.DescriptorTable
open Aesd.Foundation.RecordLog
open Aesd.Foundation.Run
open Aesd.Driver.Device
open Aesd.Driver.LogRelation
open Aesd.Driver.ReadCorrect
open Aesd.Driver.WriteCorrect
open Aesd.Driver.Session
open Aesd.Server.Handler

section Invariant

/-- The thread is between its lock and its unlock. -/
def holdsLock : Pc → Bool
  | .openWrite | .write | .openRead | .readBack | .send | .closeWrite | .closeRead | .unlock
  | .unlockContinue => true
  | _ => false

/-- `write_fd` is open. -/
def writeOpen : Pc → Bool
  | .write | .openRead | .readBack | .send | .closeWrite => true
  | _ => false

/-- `local_read_fd` is open. -/
def readOpen : Pc → Bool
  | .readBack | .send | .closeWrite | .closeRead => true
  | _ => false

/-- The thread holds the lock where its code says so, and its numbers refer to its own files. -/
structure ThreadOk (p : Process) (t : Nat) (th : Thread) : Prop where
  lock : holdsLock th.pc = true ↔ p.fmutex = some t
  conn : th.pc ≠ .done → p.table.lookup th.connFd = some (.socket t)
  writeFd : writeOpen th.pc = true → ∃ pos, p.table.lookup th.writeFd = some (.device pos)
  readFd : readOpen th.pc = true → ∃ pos, p.table.lookup th.localReadFd = some (.device pos)
  distinct : writeOpen th.pc = true → readOpen th.pc = true → th.writeFd ≠ th.localReadFd

/-- All bytes that the device accepted from the handlers. -/
def stream (r : Record) : List UInt8 := r.writes.flatMap Prod.snd

/-- The device stands for the log it had at first, extended by the accepted bytes. -/
def DeviceOk (log₀ : Log) (p : Process) (r : Record) : Prop :=
  ∃ slots lost, Represents p.device (accept log₀ (stream r)) slots lost

/-- What a write accepted extends the log. -/
theorem DeviceOk.write {log₀ : Log} {p p' : Process} {r r' : Record} (hdev : DeviceOk log₀ p r)
    {env : WriteEnv} {buf : List UInt8} {nmemWritten : Int}
    (hrun : aesdWrite env buf p.device = .ok (nmemWritten, p'.device)) {t : Nat}
    (hw : r'.writes = r.writes ++ [(t, buf.take nmemWritten.toNat)]) : DeviceOk log₀ p' r' := by
  obtain ⟨slots, lost, hrep⟩ := hdev
  obtain ⟨_, _, slots', hspec, hrep', -⟩ := aesdWrite_spec hrep env buf
  rw [hrun] at hspec
  obtain ⟨rfl, rfl⟩ := Prod.mk.inj (Except.ok.inj hspec)
  have hstream : stream r' = stream r ++ buf.take nmemWritten.toNat := by
    rw [stream, hw, List.flatMap_append, List.flatMap_singleton]
    rfl
  refine ⟨slots', lostAfterWrite env buf p.device lost, ?_⟩
  rw [hstream, accept_append]
  exact hrep'

structure Safe (log₀ : Log) (s : ServerState) : Prop where
  threads : ∀ (t : Nat) (th : Thread), s.threads[t]? = some th → ThreadOk s.process t th
  holder : ∀ t : Nat, s.process.fmutex = some t → t < s.threads.length
  device : DeviceOk log₀ s.process s.record

end Invariant

section Effect

variable {log₀ : Log} {t : Nat} {c : Choice} {f f' : Frame}

/-- What a step of handler `t` does as seen by the others: the lock moves only to it or from it,
sockets of others stay open, and so do open devices unless it holds the lock. -/
structure Effect (log₀ : Log) (t : Nat) (f f' : Frame) : Prop where
  mutex : ∀ u, u ≠ t → (f'.process.fmutex = some u ↔ f.process.fmutex = some u)
  sockets : ∀ fd u, u ≠ t → f.process.table.lookup fd = some (.socket u) →
    f'.process.table.lookup fd = some (.socket u)
  devices : holdsLock f.thread.pc = false → ∀ fd pos,
    f.process.table.lookup fd = some (.device pos) →
    f'.process.table.lookup fd = some (.device pos)
  own : ThreadOk f'.process t f'.thread
  device : DeviceOk log₀ f'.process f'.record

/-- A step that leaves what is shared alone. -/
theorem Effect.of_process_eq (hdev : DeviceOk log₀ f.process f.record)
    (hp : f'.process = f.process) (hw : f'.record.writes = f.record.writes)
    (own : ThreadOk f.process t f'.thread) : Effect log₀ t f f' where
  mutex := by
    intro u _
    rw [hp]
  sockets := by
    intro fd u _ h
    rw [hp]
    exact h
  devices := by
    intro _ fd pos h
    rw [hp]
    exact h
  own := hp ▸ own
  device := by
    unfold DeviceOk stream
    rw [hp, hw]
    exact hdev

theorem ThreadOk.socket_ne_device {p : Process} {th : Thread} (h : ThreadOk p t th)
    (hpc : th.pc ≠ .done) {fd pos : Nat} (hfd : p.table.lookup fd = some (.device pos)) :
    th.connFd ≠ fd := by
  rintro rfl
  rw [h.conn hpc] at hfd
  cases hfd

theorem holdsLock_of_writeOpen {pc : Pc} (h : writeOpen pc = true) : holdsLock pc = true := by
  cases pc <;> first | rfl | cases h

theorem holdsLock_of_readOpen {pc : Pc} (h : readOpen pc = true) : holdsLock pc = true := by
  cases pc <;> first | rfl | cases h

/-- Outside its critical section a thread has its connection and nothing else. -/
theorem ThreadOk.outside {p : Process} {th : Thread} (hout : holdsLock th.pc = false)
    (hfree : p.fmutex ≠ some t) (hconn : th.pc ≠ .done → p.table.lookup th.connFd = some (.socket t)) :
    ThreadOk p t th where
  lock := iff_of_false (by rw [hout]; exact Bool.false_ne_true) hfree
  conn := hconn
  writeFd := by
    intro h
    rw [holdsLock_of_writeOpen h] at hout
    cases hout
  readFd := by
    intro h
    rw [holdsLock_of_readOpen h] at hout
    cases hout
  distinct := by
    intro h
    rw [holdsLock_of_writeOpen h] at hout
    cases hout

theorem ThreadOk.not_holder {p : Process} {th : Thread} (h : ThreadOk p t th)
    (hout : holdsLock th.pc = false) : p.fmutex ≠ some t := by
  intro hmine
  rw [h.lock.mpr hmine] at hout
  cases hout

theorem recvStep_effect (hok : ThreadOk f.process t f.thread)
    (hdev : DeviceOk log₀ f.process f.record) (hpc : f.thread.pc = .recv)
    (outcome : RecvOutcome) : Effect log₀ t f (recvStep t outcome f) := by
  have hfree := hok.not_holder (by rw [hpc]; rfl)
  have hconn := hok.conn (by rw [hpc]; decide)
  have hout : holdsLock (recvStep t outcome f).thread.pc = false := by cases outcome <;> rfl
  have hfd : (recvStep t outcome f).thread.connFd = f.thread.connFd := by cases outcome <;> rfl
  refine Effect.of_process_eq hdev (by cases outcome <;> rfl) (by cases outcome <;> rfl) ?_
  apply ThreadOk.outside hout hfree
  intro _
  rw [hfd]
  exact hconn

theorem loopTest_effect (hok : ThreadOk f.process t f.thread)
    (hdev : DeviceOk log₀ f.process f.record) (hpc : f.thread.pc = .loopTest) :
    Effect log₀ t f (loopTest f) := by
  have hfree := hok.not_holder (by rw [hpc]; rfl)
  have hconn := hok.conn (by rw [hpc]; decide)
  have hout : holdsLock (loopTest f).thread.pc = false := by
    unfold loopTest
    split <;> rfl
  exact Effect.of_process_eq hdev rfl rfl (ThreadOk.outside hout hfree fun _ => hconn)

theorem lockStep_effect (hok : ThreadOk f.process t f.thread)
    (hdev : DeviceOk log₀ f.process f.record) (hpc : f.thread.pc = .lock)
    (h : lockStep t f = .ok f') : Effect log₀ t f f' := by
  have hconn := hok.conn (by rw [hpc]; decide)
  unfold lockStep at h
  split at h
  next hnone =>
    obtain rfl := Except.ok.inj h
    refine ⟨?_, fun _ _ _ h => h, fun _ _ _ h => h, ?_, hdev⟩
    · intro u hu
      show some t = some u ↔ _
      rw [hnone]
      exact iff_of_false (fun he => hu (Option.some.inj he).symm) nofun
    · exact ⟨iff_of_true rfl rfl, fun _ => hconn, nofun, nofun, nofun⟩
  next => cases h

/-- Opening the device leaves every open file as it is. -/
theorem open_effect {th : Thread} (hdev : DeviceOk log₀ f.process f.record)
    (own : ThreadOk { f.process with table := f.process.table.install (.device 0) } t th)
    (hf : f' = { f with
      process := { f.process with table := f.process.table.install (.device 0) }
      thread := th }) : Effect log₀ t f f' := by
  subst hf
  refine ⟨fun _ _ => Iff.rfl, ?_, ?_, own, hdev⟩
  · intro fd u _ h
    exact Table.lookup_install _ h
  · intro _ fd pos h
    exact Table.lookup_install _ h

theorem openWriteStep_effect (hok : ThreadOk f.process t f.thread)
    (hdev : DeviceOk log₀ f.process f.record) (hpc : f.thread.pc = .openWrite) (opens : Bool) :
    Effect log₀ t f (openWriteStep opens f) := by
  have hmine : f.process.fmutex = some t := hok.lock.mp (by rw [hpc]; rfl)
  have hconn := hok.conn (by rw [hpc]; decide)
  cases opens with
  | true =>
    refine open_effect hdev ?_ (by rfl)
    refine ⟨iff_of_true rfl hmine, fun _ => Table.lookup_install _ hconn, fun _ => ⟨0, ?_⟩, nofun,
      nofun⟩
    exact Table.lookup_install_self _ _
  | false =>
    refine Effect.of_process_eq hdev (by rfl) (by rfl) ?_
    exact ⟨iff_of_true rfl hmine, fun _ => hconn, nofun, nofun, nofun⟩

theorem openReadStep_effect (hok : ThreadOk f.process t f.thread)
    (hdev : DeviceOk log₀ f.process f.record) (hpc : f.thread.pc = .openRead) (opens : Bool) :
    Effect log₀ t f (openReadStep opens f) := by
  have hmine : f.process.fmutex = some t := hok.lock.mp (by rw [hpc]; rfl)
  have hconn := hok.conn (by rw [hpc]; decide)
  obtain ⟨pos, hwrite⟩ := hok.writeFd (by rw [hpc]; rfl)
  cases opens with
  | true =>
    refine open_effect hdev ?_ (by rfl)
    refine ⟨iff_of_true rfl hmine, fun _ => Table.lookup_install _ hconn, fun _ => ⟨pos, ?_⟩,
      fun _ => ⟨0, ?_⟩, fun _ _ => ?_⟩
    · exact Table.lookup_install _ hwrite
    · exact Table.lookup_install_self _ _
    · exact Table.ne_lowestFree hwrite
  | false =>
    refine Effect.of_process_eq hdev (by rfl) (by rfl) ?_
    exact ⟨iff_of_true rfl hmine, fun _ => hconn, nofun, nofun, nofun⟩

theorem writeStep_effect (hok : ThreadOk f.process t f.thread)
    (hdev : DeviceOk log₀ f.process f.record) (hpc : f.thread.pc = .write) (env : WriteEnv)
    (h : writeStep t env f = .ok f') : Effect log₀ t f f' := by
  have hmine : f.process.fmutex = some t := hok.lock.mp (by rw [hpc]; rfl)
  have hconn := hok.conn (by rw [hpc]; decide)
  obtain ⟨pos, hwrite⟩ := hok.writeFd (by rw [hpc]; rfl)
  have hlog := hdev
  obtain ⟨slots, lost, hrep⟩ := hlog
  obtain ⟨nmemWritten, device, slots', hrun, -⟩ := aesdWrite_spec hrep env f.thread.recvBuf
  simp only [writeStep, hwrite, hrun] at h
  obtain rfl := Except.ok.inj h
  refine ⟨fun _ _ => Iff.rfl, fun _ _ _ h => h, fun _ _ _ h => h, ?_, hdev.write hrun (by rfl)⟩
  refine ⟨iff_of_true rfl hmine, fun _ => hconn, fun _ => ⟨pos, hwrite⟩, ?_, ?_⟩
  · intro hopen
    cases hopen
  · intro _ hopen
    cases hopen

theorem readBackStep_effect (hok : ThreadOk f.process t f.thread)
    (hdev : DeviceOk log₀ f.process f.record) (hpc : f.thread.pc = .readBack) (env : ReadEnv)
    (h : readBackStep env f = .ok f') : Effect log₀ t f f' := by
  have hmine : f.process.fmutex = some t := hok.lock.mp (by rw [hpc]; rfl)
  have hconn := hok.conn (by rw [hpc]; decide)
  obtain ⟨wpos, hwrite⟩ := hok.writeFd (by rw [hpc]; rfl)
  obtain ⟨pos, hread⟩ := hok.readFd (by rw [hpc]; rfl)
  have hdistinct := hok.distinct (by rw [hpc]; rfl) (by rw [hpc]; rfl)
  obtain ⟨slots, lost, hrep⟩ := hdev
  obtain ⟨result, hrun, hu⟩ := aesdRead_total hrep env bufSize pos
  simp only [readBackStep, hread, hrun] at h
  obtain rfl := Except.ok.inj h
  have hother : ∀ fd x, fd ≠ f.thread.localReadFd → f.process.table.lookup fd = some x →
      (if 0 ≤ result.ret then f.process.table.replace f.thread.localReadFd (.device result.fPos)
        else f.process.table).lookup fd = some x := by
    intro fd x hne hx
    split
    · rw [Table.lookup_replace_of_ne _ hne, hx]
    · exact hx
  have hnotSocket : ∀ fd u, f.process.table.lookup fd = some (.socket u) →
      fd ≠ f.thread.localReadFd := by
    rintro fd u hx rfl
    rw [hread] at hx
    cases hx
  refine ⟨fun _ _ => Iff.rfl, ?_, ?_, ?_, slots, lost, hu.represents hrep⟩
  · intro fd u _ hx
    exact hother fd _ (hnotSocket fd u hx) hx
  · intro hout
    rw [hpc] at hout
    cases hout
  · have hpc' : holdsLock (if 0 < result.ret then Pc.send else Pc.closeWrite) = true := by
      split <;> rfl
    refine ⟨iff_of_true hpc' hmine, fun _ => ?_, fun _ => ⟨wpos, ?_⟩, fun _ => ?_,
      fun _ _ => hdistinct⟩
    · exact hother _ _ (hnotSocket _ _ hconn) hconn
    · exact hother _ _ hdistinct hwrite
    · by_cases hret : 0 ≤ result.ret
      · refine ⟨result.fPos, ?_⟩
        rw [if_pos hret]
        exact Table.lookup_replace_self _ hread
      · refine ⟨pos, ?_⟩
        rw [if_neg hret]
        exact hread

theorem sendStep_effect (hok : ThreadOk f.process t f.thread)
    (hdev : DeviceOk log₀ f.process f.record) (hpc : f.thread.pc = .send) (room : Nat) :
    Effect log₀ t f (sendStep room f) := by
  have hmine : f.process.fmutex = some t := hok.lock.mp (by rw [hpc]; rfl)
  have hconn := hok.conn (by rw [hpc]; decide)
  have hwrite := hok.writeFd (by rw [hpc]; rfl)
  have hread := hok.readFd (by rw [hpc]; rfl)
  have hdistinct := hok.distinct (by rw [hpc]; rfl) (by rw [hpc]; rfl)
  unfold sendStep
  rw [hconn]
  refine Effect.of_process_eq hdev (by rfl) (by rfl) ?_
  exact ⟨iff_of_true rfl hmine, fun _ => hconn, fun _ => hwrite, fun _ => hread,
    fun _ _ => hdistinct⟩

/-- Closing a device leaves every other open file as it is. -/
theorem close_effect {th : Thread} {fd pos : Nat} (hdev : DeviceOk log₀ f.process f.record)
    (hholds : holdsLock f.thread.pc = true) (hfd : f.process.table.lookup fd = some (.device pos))
    (own : ThreadOk { f.process with table := f.process.table.close fd } t th)
    (hf : f' = { f with
      process := { f.process with table := f.process.table.close fd }
      thread := th }) : Effect log₀ t f f' := by
  subst hf
  refine ⟨fun _ _ => Iff.rfl, ?_, ?_, own, hdev⟩
  · intro fd' u _ hx
    have hne : fd' ≠ fd := by
      rintro rfl
      rw [hfd] at hx
      cases hx
    show (f.process.table.close fd).lookup fd' = _
    rw [Table.lookup_close_of_ne hne, hx]
  · intro hout
    rw [hholds] at hout
    cases hout

theorem closeWriteStep_effect (hok : ThreadOk f.process t f.thread)
    (hdev : DeviceOk log₀ f.process f.record) (hpc : f.thread.pc = .closeWrite) :
    Effect log₀ t f (closeWriteStep f) := by
  have hmine : f.process.fmutex = some t := hok.lock.mp (by rw [hpc]; rfl)
  have hconn := hok.conn (by rw [hpc]; decide)
  obtain ⟨wpos, hwrite⟩ := hok.writeFd (by rw [hpc]; rfl)
  obtain ⟨pos, hread⟩ := hok.readFd (by rw [hpc]; rfl)
  have hdistinct := hok.distinct (by rw [hpc]; rfl) (by rw [hpc]; rfl)
  have hne := hok.socket_ne_device (by rw [hpc]; decide) hwrite
  refine close_effect hdev (by rw [hpc]; rfl) hwrite ?_ (by rfl)
  refine ⟨iff_of_true rfl hmine, fun _ => ?_, nofun, fun _ => ⟨pos, ?_⟩, nofun⟩
  · show (f.process.table.close f.thread.writeFd).lookup f.thread.connFd = _
    rw [Table.lookup_close_of_ne hne, hconn]
  · show (f.process.table.close f.thread.writeFd).lookup f.thread.localReadFd = _
    rw [Table.lookup_close_of_ne hdistinct.symm, hread]

theorem closeReadStep_effect (hok : ThreadOk f.process t f.thread)
    (hdev : DeviceOk log₀ f.process f.record) (hpc : f.thread.pc = .closeRead) :
    Effect log₀ t f (closeReadStep f) := by
  have hmine : f.process.fmutex = some t := hok.lock.mp (by rw [hpc]; rfl)
  have hconn := hok.conn (by rw [hpc]; decide)
  obtain ⟨pos, hread⟩ := hok.readFd (by rw [hpc]; rfl)
  have hne := hok.socket_ne_device (by rw [hpc]; decide) hread
  refine close_effect hdev (by rw [hpc]; rfl) hread ?_ (by rfl)
  refine ⟨iff_of_true rfl hmine, fun _ => ?_, nofun, nofun, nofun⟩
  show (f.process.table.close f.thread.localReadFd).lookup f.thread.connFd = _
  rw [Table.lookup_close_of_ne hne, hconn]

/-- Giving the lock back. -/
theorem release_effect (hok : ThreadOk f.process t f.thread)
    (hdev : DeviceOk log₀ f.process f.record) (hholds : holdsLock f.thread.pc = true)
    (hopen : f.thread.pc ≠ .done) {record : Record} (hw : record.writes = f.record.writes) :
    Effect log₀ t f
      { process := { f.process with fmutex := none }
        thread := { f.thread with pc := .loopTest }
        record := record } := by
  have hmine : f.process.fmutex = some t := hok.lock.mp hholds
  refine ⟨?_, fun _ _ _ h => h, fun _ _ _ h => h, ?_, ?_⟩
  · intro u hu
    rw [hmine]
    exact iff_of_false nofun fun he => hu (Option.some.inj he).symm
  · exact ThreadOk.outside rfl nofun fun _ => hok.conn hopen
  · unfold DeviceOk stream
    rw [hw]
    exact hdev

theorem closeConnStep_effect (hok : ThreadOk f.process t f.thread)
    (hdev : DeviceOk log₀ f.process f.record) (hpc : f.thread.pc = .closeConn) :
    Effect log₀ t f (closeConnStep f) := by
  have hfree := hok.not_holder (by rw [hpc]; rfl)
  have hconn := hok.conn (by rw [hpc]; decide)
  have hother : ∀ fd x, f.process.table.lookup fd = some x → x ≠ .socket t →
      (f.process.table.close f.thread.connFd).lookup fd = some x := by
    intro fd x hx hne
    have hfd : fd ≠ f.thread.connFd := by
      rintro rfl
      rw [hconn] at hx
      exact hne (Option.some.inj hx).symm
    rw [Table.lookup_close_of_ne hfd, hx]
  refine ⟨fun _ _ => Iff.rfl, ?_, ?_, ?_, hdev⟩
  · intro fd u hu hx
    exact hother fd _ hx fun he => hu (OpenFile.socket.inj he)
  · intro _ fd pos hx
    exact hother fd _ hx nofun
  · exact ThreadOk.outside rfl hfree fun hne => absurd rfl hne

/-- Every step of a handler in order has the effects above. -/
theorem handlerStep_effect (hok : ThreadOk f.process t f.thread)
    (hdev : DeviceOk log₀ f.process f.record) (h : handlerStep t c f = .ok f') :
    Effect log₀ t f f' := by
  cases hpc : f.thread.pc <;> simp only [handlerStep, hpc, Except.ok.injEq, reduceCtorEq] at h
  case loopTest => exact h ▸ loopTest_effect hok hdev hpc
  case recv => exact h ▸ recvStep_effect hok hdev hpc c.recv
  case lock => exact lockStep_effect hok hdev hpc h
  case openWrite => exact h ▸ openWriteStep_effect hok hdev hpc c.opens
  case write => exact writeStep_effect hok hdev hpc c.write h
  case openRead => exact h ▸ openReadStep_effect hok hdev hpc c.opens
  case readBack => exact readBackStep_effect hok hdev hpc c.read h
  case send => exact h ▸ sendStep_effect hok hdev hpc c.room
  case closeWrite => exact h ▸ closeWriteStep_effect hok hdev hpc
  case closeRead => exact h ▸ closeReadStep_effect hok hdev hpc
  case unlock =>
    exact h ▸ release_effect hok hdev (by rw [hpc]; rfl) (by rw [hpc]; decide) rfl
  case unlockContinue =>
    exact h ▸ release_effect hok hdev (by rw [hpc]; rfl) (by rw [hpc]; decide) rfl
  case closeConn => exact h ▸ closeConnStep_effect hok hdev hpc

/-- No step of another handler disturbs a thread. -/
theorem Effect.others (he : Effect log₀ t f f') (hok : ThreadOk f.process t f.thread) {u : Nat}
    (hu : u ≠ t) {th : Thread} (hth : ThreadOk f.process u th) : ThreadOk f'.process u th := by
  have hdevices : holdsLock th.pc = true → ∀ fd pos,
      f.process.table.lookup fd = some (.device pos) →
      f'.process.table.lookup fd = some (.device pos) := by
    intro hholds
    apply he.devices
    rw [← Bool.not_eq_true]
    intro hmine
    have hut := (hth.lock.mp hholds).symm.trans (hok.lock.mp hmine)
    exact hu (Option.some.inj hut)
  refine ⟨?_, ?_, ?_, ?_, hth.distinct⟩
  · rw [he.mutex u hu]
    exact hth.lock
  · intro hpc
    exact he.sockets _ _ hu (hth.conn hpc)
  · intro hopen
    obtain ⟨pos, hpos⟩ := hth.writeFd hopen
    exact ⟨pos, hdevices (holdsLock_of_writeOpen hopen) _ _ hpos⟩
  · intro hopen
    obtain ⟨pos, hpos⟩ := hth.readFd hopen
    exact ⟨pos, hdevices (holdsLock_of_readOpen hopen) _ _ hpos⟩

end Effect

section Runs

variable {log₀ : Log} {s s' : ServerState}

/-- The holder of the lock is one of the handlers. -/
theorem Safe.holder_thread (hs : Safe log₀ s) {t : Nat} (h : s.process.fmutex = some t) :
    ∃ th, s.threads[t]? = some th :=
  ⟨_, List.getElem?_eq_getElem (hs.holder t h)⟩

/-- A step of a handler, taken apart. -/
theorem handler_inv {t : Nat} {c : Choice} (h : serverStep s (.handler t c) = .ok s') :
    ∃ th f', s.threads[t]? = some th ∧ handlerStep t c (s.frame th) = .ok f' ∧
      s' = s.update t f' := by
  simp only [serverStep] at h
  cases hth : s.threads[t]? with
  | none =>
    rw [hth] at h
    cases h
  | some th =>
    simp only [hth] at h
    cases hstep : handlerStep t c (s.frame th) with
    | error e =>
      rw [hstep] at h
      cases h
    | ok f' =>
      rw [hstep] at h
      exact ⟨th, f', rfl, hstep, (Except.ok.inj h).symm⟩

theorem connect_inv (h : serverStep s .connect = .ok s') :
    s' = { s with
      process := { s.process with
        table := s.process.table.install (.socket s.threads.length) }
      threads := s.threads ++ [startThread s.process.table.lowestFree] } := by
  simp only [serverStep] at h
  split at h
  next => cases h
  next => exact (Except.ok.inj h).symm

theorem getElem?_update {t : Nat} {th : Thread} (hth : s.threads[t]? = some th) (f : Frame)
    (u : Nat) : (s.update t f).threads[u]? = if u = t then some f.thread else s.threads[u]? := by
  have hlt : t < s.threads.length := (List.getElem?_eq_some_iff.mp hth).1
  show (s.threads.set t f.thread)[u]? = _
  split
  next heq =>
    subst heq
    exact List.getElem?_set_self hlt
  next hne => exact List.getElem?_set_ne fun he => hne he.symm

theorem Safe.handler (hs : Safe log₀ s) {t : Nat} {c : Choice}
    (h : serverStep s (.handler t c) = .ok s') : Safe log₀ s' := by
  obtain ⟨th, f', hth, hstep, rfl⟩ := handler_inv h
  have hok : ThreadOk (s.frame th).process t (s.frame th).thread := hs.threads t th hth
  have he := handlerStep_effect hok hs.device hstep
  refine ⟨?_, ?_, he.device⟩
  · intro u thu hu
    rw [getElem?_update hth] at hu
    split at hu
    next heq =>
      obtain rfl := Option.some.inj hu
      rw [heq]
      exact he.own
    next hne => exact he.others hok hne (hs.threads u thu hu)
  · intro u hu
    show u < (s.threads.set t f'.thread).length
    rw [List.length_set]
    by_cases heq : u = t
    · rw [heq]
      exact (List.getElem?_eq_some_iff.mp hth).1
    · exact hs.holder u ((he.mutex u heq).mp hu)

/-- The entries of a list with one more entry: the old ones, and the new one. -/
theorem getElem?_concat {α : Type} (xs : List α) (x : α) (u : Nat) :
    (xs ++ [x])[u]? = xs[u]? ∨ u = xs.length ∧ xs[u]? = none ∧ (xs ++ [x])[u]? = some x := by
  rcases Nat.lt_trichotomy u xs.length with hlt | rfl | hgt
  · exact .inl (List.getElem?_append_left hlt)
  · exact .inr ⟨rfl, List.getElem?_eq_none (Nat.le_refl _), List.getElem?_concat_length⟩
  · refine .inl ?_
    rw [List.getElem?_eq_none (Nat.le_of_lt hgt), List.getElem?_eq_none]
    rw [List.length_append, List.length_singleton]
    omega

/-- Opening a file disturbs no handler. -/
theorem Safe.install (hs : Safe log₀ s) (x : OpenFile) :
    Safe log₀ { s with process := { s.process with table := s.process.table.install x } } where
  threads := by
    intro u th hu
    obtain ⟨hlock, hconn, hwrite, hread, hdistinct⟩ := hs.threads u th hu
    refine ⟨hlock, fun hpc => Table.lookup_install _ (hconn hpc), fun hopen => ?_,
      fun hopen => ?_, hdistinct⟩
    · obtain ⟨pos, hpos⟩ := hwrite hopen
      exact ⟨pos, Table.lookup_install _ hpos⟩
    · obtain ⟨pos, hpos⟩ := hread hopen
      exact ⟨pos, Table.lookup_install _ hpos⟩
  holder := hs.holder
  device := hs.device

/-- A new handler with a connection of its own. -/
theorem Safe.spawn (hs : Safe log₀ s) {fd : Nat}
    (hfd : s.process.table.lookup fd = some (.socket s.threads.length)) :
    Safe log₀ { s with threads := s.threads ++ [startThread fd] } where
  threads := by
    intro u th hu
    rcases getElem?_concat s.threads (startThread fd) u with hsame | ⟨rfl, -, hnew⟩
    · exact hs.threads u th (hsame ▸ hu)
    · obtain rfl := Option.some.inj (hnew.symm.trans hu)
      have hnot : s.process.fmutex ≠ some s.threads.length := by
        intro hmine
        exact absurd (hs.holder _ hmine) (Nat.lt_irrefl _)
      exact ThreadOk.outside rfl hnot fun _ => hfd
  holder := by
    intro u hu
    show u < (s.threads ++ [_]).length
    rw [List.length_append]
    exact Nat.lt_add_right _ (hs.holder u hu)
  device := hs.device

theorem Safe.closeServer (hs : Safe log₀ s) :
    Safe log₀ { s with process := { s.process with closeServer := true } } where
  threads := by
    intro t th ht
    obtain ⟨hlock, hconn, hwrite, hread, hdistinct⟩ := hs.threads t th ht
    exact ⟨hlock, hconn, hwrite, hread, hdistinct⟩
  holder := hs.holder
  device := hs.device

theorem Safe.connect (hs : Safe log₀ s) (h : serverStep s .connect = .ok s') : Safe log₀ s' := by
  obtain rfl := connect_inv h
  exact (hs.install (.socket s.threads.length)).spawn (Table.lookup_install_self _ _)

theorem Safe.step (hs : Safe log₀ s) {l : Label} (h : serverStep s l = .ok s') :
    Safe log₀ s' := by
  cases l with
  | connect => exact hs.connect h
  | signal =>
    obtain rfl := (Except.ok.inj h).symm
    exact hs.closeServer
  | handler t c => exact hs.handler h

theorem safe_start {device : DriverState} {slots : List Slot} {lost : Set Nat}
    (h : Represents device log₀ slots lost) : Safe log₀ (startServer device) where
  threads := by
    intro t th ht
    cases ht
  holder := by
    intro t ht
    cases ht
  device := ⟨slots, lost, h⟩

theorem safe_run {device : DriverState} {slots : List Slot} {lost : Set Nat}
    (h : Represents device log₀ slots lost) {labels : List Label}
    (hrun : run serverStep (startServer device) labels = .ok s) : Safe log₀ s :=
  run_invariant (fun _ _ _ hs hstep => Safe.step hs hstep) (safe_start h) hrun

end Runs

end Aesd.Server.Safety
