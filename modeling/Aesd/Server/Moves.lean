/- Aesd/Server/Moves
   layer: system
   digest: Everything a step of a handler can do, told apart once for all later invariants. -/

import Aesd.Server.Safety

set_option autoImplicit false
set_option relaxedAutoImplicit false

namespace Aesd.Server.Moves

open Aesd.Foundation.DescriptorTable
open Aesd.Foundation.Run
open Aesd.Driver.Device
open Aesd.Driver.LogRelation
open Aesd.Driver.ReadCorrect
open Aesd.Driver.WriteCorrect
open Aesd.Server.Handler
open Aesd.Server.Safety

section Moves

/-- The steps of handler `t` while its numbers refer to its own files. -/
inductive HandlerMove (t : Nat) (c : Choice) (f : Frame) : Frame → Prop
  | loopTest : f.thread.pc = .loopTest → HandlerMove t c f (loopTest f)
  | recv : f.thread.pc = .recv → HandlerMove t c f (recvStep t c.recv f)
  | lock : f.thread.pc = .lock → f.process.fmutex = none →
      HandlerMove t c f
        { process := { f.process with fmutex := some t }
          thread := { f.thread with pc := .openWrite, ticket := f.record.locks, sent := [] }
          record := { f.record with locks := f.record.locks + 1 } }
  | openWrite : f.thread.pc = .openWrite → HandlerMove t c f (openWriteStep c.opens f)
  | write {pos : Nat} {device : DriverState} : f.thread.pc = .write →
      f.process.table.lookup f.thread.writeFd = some (.device pos) →
      aesdWrite c.write f.thread.recvBuf f.process.device = .ok
        (writeReturn c.write f.thread.recvBuf f.process.device.dev.currInput.size, device) →
      HandlerMove t c f
        { process := { f.process with device := device }
          thread := { f.thread with pc := .openRead }
          record := { f.record with
            writes := f.record.writes ++ [(t, f.thread.recvBuf.take (writeReturn c.write
              f.thread.recvBuf f.process.device.dev.currInput.size).toNat)]
            inFull := f.record.inFull && decide (writeReturn c.write f.thread.recvBuf
              f.process.device.dev.currInput.size = f.thread.recvBuf.length) } }
  | openRead : f.thread.pc = .openRead → HandlerMove t c f (openReadStep c.opens f)
  | readBack {pos : Nat} {result : ReadResult} : f.thread.pc = .readBack →
      f.process.table.lookup f.thread.localReadFd = some (.device pos) →
      aesdRead c.read bufSize pos f.process.device = .ok result →
      Undisturbed f.process.device result.state →
      HandlerMove t c f
        { process := { f.process with
            device := result.state
            table := if 0 ≤ result.ret
              then f.process.table.replace f.thread.localReadFd (.device result.fPos)
              else f.process.table }
          thread := { f.thread with
            sendBuf := result.user
            pc := if 0 < result.ret then .send else .closeWrite }
          record := { f.record with inFull := f.record.inFull && decide (0 ≤ result.ret) } }
  | send : f.thread.pc = .send → f.process.table.lookup f.thread.connFd = some (.socket t) →
      HandlerMove t c f
        { f with
          thread := { f.thread with
            pc := .readBack, sent := f.thread.sent ++ f.thread.sendBuf.take c.room }
          record := { f.record with
            delivered := Function.update f.record.delivered t
              (f.record.delivered t ++ f.thread.sendBuf.take c.room)
            inFull := f.record.inFull && decide (f.thread.sendBuf.length ≤ c.room) } }
  | closeWrite {pos : Nat} : f.thread.pc = .closeWrite →
      f.process.table.lookup f.thread.writeFd = some (.device pos) →
      HandlerMove t c f (closeWriteStep f)
  | closeRead {pos : Nat} : f.thread.pc = .closeRead →
      f.process.table.lookup f.thread.localReadFd = some (.device pos) →
      HandlerMove t c f (closeReadStep f)
  | unlock : f.thread.pc = .unlock → HandlerMove t c f (unlockStep t f)
  | unlockContinue : f.thread.pc = .unlockContinue → HandlerMove t c f (unlockContinueStep f)
  | closeConn : f.thread.pc = .closeConn →
      f.process.table.lookup f.thread.connFd = some (.socket t) →
      HandlerMove t c f (closeConnStep f)

theorem handlerStep_move {log₀ : Log} {t : Nat} {c : Choice} {f f' : Frame}
    (hok : ThreadOk f.process t f.thread) (hdev : DeviceOk log₀ f.process f.record)
    (h : handlerStep t c f = .ok f') : HandlerMove t c f f' := by
  obtain ⟨slots, lost, hrep⟩ := hdev
  cases handlerStep_inv h with
  | loopTest hpc => exact .loopTest hpc
  | recv hpc => exact .recv hpc
  | lock hpc hfree => exact .lock hpc hfree
  | openWrite hpc => exact .openWrite hpc
  | write hpc hfd hrun =>
    obtain ⟨device, slots', hexact, -⟩ := aesdWrite_exact hrep c.write f.thread.recvBuf
    rw [hrun] at hexact
    obtain ⟨rfl, rfl⟩ := Prod.mk.inj (Except.ok.inj hexact)
    exact .write hpc hfd hrun
  | writeElsewhere hpc hnot =>
    obtain ⟨pos, hfd⟩ := hok.writeFd (by rw [hpc]; rfl)
    exact absurd hfd (hnot pos)
  | openRead hpc => exact .openRead hpc
  | readBack hpc hfd hrun =>
    obtain ⟨result, htotal, hu⟩ := aesdRead_total hrep c.read bufSize _
    rw [hrun] at htotal
    obtain rfl := Except.ok.inj htotal
    exact .readBack hpc hfd hrun hu
  | readElsewhere hpc hnot =>
    obtain ⟨pos, hfd⟩ := hok.readFd (by rw [hpc]; rfl)
    exact absurd hfd (hnot pos)
  | send hpc hfd =>
    have hconn := hok.conn (by rw [hpc]; decide)
    obtain ⟨rfl⟩ := OpenFile.socket.inj (Option.some.inj (hfd.symm.trans hconn))
    exact .send hpc hconn
  | sendElsewhere hpc hnot => exact absurd (hok.conn (by rw [hpc]; decide)) (hnot t)
  | closeWrite hpc =>
    obtain ⟨pos, hfd⟩ := hok.writeFd (by rw [hpc]; rfl)
    exact .closeWrite hpc hfd
  | closeRead hpc =>
    obtain ⟨pos, hfd⟩ := hok.readFd (by rw [hpc]; rfl)
    exact .closeRead hpc hfd
  | unlock hpc => exact .unlock hpc
  | unlockContinue hpc => exact .unlockContinue hpc
  | closeConn hpc => exact .closeConn hpc (hok.conn (by rw [hpc]; decide))

/-- A step of a handler in a safe state of the server. -/
theorem serverStep_move {log₀ : Log} {s s' : ServerState} {t : Nat} {c : Choice}
    (hs : Safe log₀ s) (h : serverStep s (.handler t c) = .ok s') :
    ∃ th f', s.threads[t]? = some th ∧ HandlerMove t c (s.frame th) f' ∧ s' = s.update t f' := by
  obtain ⟨th, f', hth, hstep, rfl⟩ := handler_inv h
  exact ⟨th, f', hth, handlerStep_move (hs.threads t th hth) hs.device hstep, rfl⟩

end Moves

end Aesd.Server.Moves
