/- Aesd/Server/Handler
   layer: faithful model
   digest: handleRequests of server.c, one step for each system call, over the driver's device. -/

import Aesd.Driver.Device
import Aesd.Foundation.DescriptorTable

set_option autoImplicit false
set_option relaxedAutoImplicit false

namespace Aesd.Server.Handler

open Aesd.Foundation.BlockHeap
open Aesd.Foundation.DescriptorTable
open Aesd.Driver.Device

/-- BUFSIZE. -/
def bufSize : Nat := 2048

/-- What one `recv` can put into `recv_buf`. -/
structure Chunk where
  bytes : List UInt8
  nonempty : bytes ≠ []
  bounded : bytes.length ≤ bufSize

/-- A line of one character. -/
def Chunk.line (b : UInt8) : Chunk :=
  ⟨[b, newline], List.cons_ne_nil _ _, by simp [bufSize]⟩

section Environment

inductive RecvOutcome
  | again
  | error
  | eof
  | data (chunk : Chunk)

/-- What the environment decides about the system call of a step: the outcome of `recv`, whether
`open` succeeds, the circumstances of the driver's `write` and `read`, and how many bytes the
socket's send buffer has room for. A step asks for one of these at most. -/
structure Choice where
  recv : RecvOutcome
  opens : Bool
  write : WriteEnv
  read : ReadEnv
  room : Nat

end Environment

section State

/-- An open file description. For the device it has the file position. -/
inductive OpenFile
  | other
  | listening
  | socket (conn : Nat)
  | device (fPos : Nat)
  deriving DecidableEq, Repr

/-- The statement of `handleRequests` that comes next. `readBack` is either of the two reads,
`unlockContinue` the unlock in front of a `continue`. -/
inductive Pc
  | loopTest
  | recv
  | lock
  | openWrite
  | write
  | openRead
  | readBack
  | send
  | closeWrite
  | closeRead
  | unlock
  | unlockContinue
  | closeConn
  | done
  deriving DecidableEq, Repr

/-- The variables of a handler: `recv_buf` with the bytes received, `send_buf` with the bytes to
send. No step depends on `ticket`, the number of lock acquisitions before the last one of this
handler, and `sent`, what its socket took since then. -/
structure Thread where
  connFd : Nat
  connClosed : Bool
  pc : Pc
  recvBuf : List UInt8
  writeFd : Nat
  localReadFd : Nat
  sendBuf : List UInt8
  ticket : Nat
  sent : List UInt8

/-- What the threads share: the device, the descriptors, the holder of `fmutex` and
`CLOSE_SERVER`. -/
structure Process where
  device : DriverState
  table : Table OpenFile
  fmutex : Option Nat
  closeServer : Bool

/-- A critical section that ran to its end: its ticket and thread, what it had received, what it
sent, and the device when it gave the lock back. -/
structure Section where
  ticket : Nat
  thread : Nat
  chunk : List UInt8
  sent : List UInt8
  after : DriverState

/-- What has happened so far. No step depends on it. `inFull` says that no call failed and none
fell short. -/
structure Record where
  received : Nat → List UInt8
  writes : List (Nat × List UInt8)
  delivered : Nat → List UInt8
  locks : Nat
  sections : List Section
  inFull : Bool

/-- One handler with all it can reach. -/
structure Frame where
  process : Process
  thread : Thread
  record : Record

/-- Why a step cannot be taken. -/
inductive Refusal
  | blocked
  | finished
  | fault (f : Fault)

end State

section Steps

/-- The loop test `!CLOSE_SERVER || !conn_closed`. -/
def loopTest (f : Frame) : Frame :=
  { f with thread := { f.thread with
      pc := if !f.process.closeServer || !f.thread.connClosed then .recv else .closeConn } }

def recvStep (t : Nat) (outcome : RecvOutcome) (f : Frame) : Frame :=
  match outcome with
  | .again => { f with thread := { f.thread with pc := .loopTest } }
  | .error =>
    { f with
      thread := { f.thread with connClosed := true, pc := .closeConn }
      record := { f.record with inFull := false } }
  | .eof => { f with thread := { f.thread with connClosed := true, pc := .closeConn } }
  | .data chunk =>
    { f with
      thread := { f.thread with recvBuf := chunk.bytes, pc := .lock }
      record := { f.record with
        received := Function.update f.record.received t (f.record.received t ++ chunk.bytes) } }

/-- `pthread_mutex_lock(fmutex)`. -/
def lockStep (t : Nat) (f : Frame) : Except Refusal Frame :=
  if f.process.fmutex = none then
    .ok { process := { f.process with fmutex := some t }
          thread := { f.thread with pc := .openWrite, ticket := f.record.locks, sent := [] }
          record := { f.record with locks := f.record.locks + 1 } }
  else .error .blocked

/-- `open(FILENAME, O_WRONLY)`. -/
def openWriteStep (opens : Bool) (f : Frame) : Frame :=
  if opens then
    { f with
      process := { f.process with table := f.process.table.install (.device 0) }
      thread := { f.thread with writeFd := f.process.table.lowestFree, pc := .write } }
  else
    { f with
      thread := { f.thread with pc := .unlockContinue }
      record := { f.record with inFull := false } }

/-- `write(write_fd, recv_buf, bytes_read_socket)`. A number that is not open on the device fails;
the handler goes on in any case. -/
def writeStep (t : Nat) (env : WriteEnv) (f : Frame) : Except Refusal Frame :=
  match f.process.table.lookup f.thread.writeFd with
  | some (.device _) =>
    match aesdWrite env f.thread.recvBuf f.process.device with
    | .error e => .error (.fault e)
    | .ok (nmemWritten, device) =>
      .ok { process := { f.process with device := device }
            thread := { f.thread with pc := .openRead }
            record := { f.record with
              writes := f.record.writes ++ [(t, f.thread.recvBuf.take nmemWritten.toNat)]
              inFull := f.record.inFull && decide (nmemWritten = f.thread.recvBuf.length) } }
  | _ =>
    .ok { f with
          thread := { f.thread with pc := .openRead }
          record := { f.record with inFull := false } }

/-- `open(FILENAME, O_RDONLY)`. -/
def openReadStep (opens : Bool) (f : Frame) : Frame :=
  if opens then
    { f with
      process := { f.process with table := f.process.table.install (.device 0) }
      thread := { f.thread with localReadFd := f.process.table.lowestFree, pc := .readBack } }
  else
    { f with
      thread := { f.thread with pc := .unlockContinue }
      record := { f.record with inFull := false } }

/-- `read(local_read_fd, send_buf, BUFSIZE)` and the test `bytes_to_send > 0`. The system call
moves the file position only if the driver reports no error. -/
def readBackStep (env : ReadEnv) (f : Frame) : Except Refusal Frame :=
  match f.process.table.lookup f.thread.localReadFd with
  | some (.device fPos) =>
    match aesdRead env bufSize fPos f.process.device with
    | .error e => .error (.fault e)
    | .ok result =>
      .ok { process := { f.process with
              device := result.state
              table := if 0 ≤ result.ret
                then f.process.table.replace f.thread.localReadFd (.device result.fPos)
                else f.process.table }
            thread := { f.thread with
              sendBuf := result.user
              pc := if 0 < result.ret then .send else .closeWrite }
            record := { f.record with
              inFull := f.record.inFull && decide (0 ≤ result.ret) } }
  | _ =>
    .ok { f with
          thread := { f.thread with pc := .closeWrite }
          record := { f.record with inFull := false } }

/-- `sendto(conn_fd, send_buf, bytes_to_send, …)` on a socket that does not block, with no room where
it fails. The SIGPIPE of a connection that the client has closed, which ends the process and the run
with it, is left out. -/
def sendStep (room : Nat) (f : Frame) : Frame :=
  match f.process.table.lookup f.thread.connFd with
  | some (.socket conn) =>
    { f with
      thread := { f.thread with
        pc := .readBack
        sent := f.thread.sent ++ f.thread.sendBuf.take room }
      record := { f.record with
        delivered := Function.update f.record.delivered conn
          (f.record.delivered conn ++ f.thread.sendBuf.take room)
        inFull := f.record.inFull && decide (f.thread.sendBuf.length ≤ room) } }
  | _ =>
    { f with
      thread := { f.thread with pc := .readBack }
      record := { f.record with inFull := false } }

def closeWriteStep (f : Frame) : Frame :=
  { f with
    process := { f.process with table := f.process.table.close f.thread.writeFd }
    thread := { f.thread with pc := .closeRead } }

def closeReadStep (f : Frame) : Frame :=
  { f with
    process := { f.process with table := f.process.table.close f.thread.localReadFd }
    thread := { f.thread with pc := .unlock } }

/-- `pthread_mutex_unlock(fmutex)` at the end of the iteration. -/
def unlockStep (t : Nat) (f : Frame) : Frame where
  process := { f.process with fmutex := none }
  thread := { f.thread with pc := .loopTest }
  record := { f.record with
    sections := f.record.sections ++ [{
      ticket := f.thread.ticket
      thread := t
      chunk := f.thread.recvBuf
      sent := f.thread.sent
      after := f.process.device }] }

/-- The unlock in front of a `continue`. Descriptors opened in this iteration stay open. -/
def unlockContinueStep (f : Frame) : Frame :=
  { f with
    process := { f.process with fmutex := none }
    thread := { f.thread with pc := .loopTest } }

def closeConnStep (f : Frame) : Frame :=
  { f with
    process := { f.process with table := f.process.table.close f.thread.connFd }
    thread := { f.thread with pc := .done } }

/-- The next step of the handler with number `t`. -/
def handlerStep (t : Nat) (c : Choice) (f : Frame) : Except Refusal Frame :=
  match f.thread.pc with
  | .loopTest => .ok (loopTest f)
  | .recv => .ok (recvStep t c.recv f)
  | .lock => lockStep t f
  | .openWrite => .ok (openWriteStep c.opens f)
  | .write => writeStep t c.write f
  | .openRead => .ok (openReadStep c.opens f)
  | .readBack => readBackStep c.read f
  | .send => .ok (sendStep c.room f)
  | .closeWrite => .ok (closeWriteStep f)
  | .closeRead => .ok (closeReadStep f)
  | .unlock => .ok (unlockStep t f)
  | .unlockContinue => .ok (unlockContinueStep f)
  | .closeConn => .ok (closeConnStep f)
  | .done => .error .finished

end Steps

section Inversion

variable {t : Nat} {c : Choice} {f f' : Frame}

/-- The steps of handler `t`, told apart by its statement and by what its numbers refer to. -/
inductive HandlerCase (t : Nat) (c : Choice) (f : Frame) : Frame → Prop
  | loopTest : f.thread.pc = .loopTest → HandlerCase t c f (loopTest f)
  | recv : f.thread.pc = .recv → HandlerCase t c f (recvStep t c.recv f)
  | lock : f.thread.pc = .lock → f.process.fmutex = none →
      HandlerCase t c f
        { process := { f.process with fmutex := some t }
          thread := { f.thread with pc := .openWrite, ticket := f.record.locks, sent := [] }
          record := { f.record with locks := f.record.locks + 1 } }
  | openWrite : f.thread.pc = .openWrite → HandlerCase t c f (openWriteStep c.opens f)
  | write {pos : Nat} {nmemWritten : Int} {device : DriverState} : f.thread.pc = .write →
      f.process.table.lookup f.thread.writeFd = some (.device pos) →
      aesdWrite c.write f.thread.recvBuf f.process.device = .ok (nmemWritten, device) →
      HandlerCase t c f
        { process := { f.process with device := device }
          thread := { f.thread with pc := .openRead }
          record := { f.record with
            writes := f.record.writes ++ [(t, f.thread.recvBuf.take nmemWritten.toNat)]
            inFull := f.record.inFull && decide (nmemWritten = f.thread.recvBuf.length) } }
  | writeElsewhere : f.thread.pc = .write →
      (∀ pos, f.process.table.lookup f.thread.writeFd ≠ some (.device pos)) →
      HandlerCase t c f
        { f with
          thread := { f.thread with pc := .openRead }
          record := { f.record with inFull := false } }
  | openRead : f.thread.pc = .openRead → HandlerCase t c f (openReadStep c.opens f)
  | readBack {pos : Nat} {result : ReadResult} : f.thread.pc = .readBack →
      f.process.table.lookup f.thread.localReadFd = some (.device pos) →
      aesdRead c.read bufSize pos f.process.device = .ok result →
      HandlerCase t c f
        { process := { f.process with
            device := result.state
            table := if 0 ≤ result.ret
              then f.process.table.replace f.thread.localReadFd (.device result.fPos)
              else f.process.table }
          thread := { f.thread with
            sendBuf := result.user
            pc := if 0 < result.ret then .send else .closeWrite }
          record := { f.record with inFull := f.record.inFull && decide (0 ≤ result.ret) } }
  | readElsewhere : f.thread.pc = .readBack →
      (∀ pos, f.process.table.lookup f.thread.localReadFd ≠ some (.device pos)) →
      HandlerCase t c f
        { f with
          thread := { f.thread with pc := .closeWrite }
          record := { f.record with inFull := false } }
  | send {conn : Nat} : f.thread.pc = .send →
      f.process.table.lookup f.thread.connFd = some (.socket conn) →
      HandlerCase t c f
        { f with
          thread := { f.thread with
            pc := .readBack, sent := f.thread.sent ++ f.thread.sendBuf.take c.room }
          record := { f.record with
            delivered := Function.update f.record.delivered conn
              (f.record.delivered conn ++ f.thread.sendBuf.take c.room)
            inFull := f.record.inFull && decide (f.thread.sendBuf.length ≤ c.room) } }
  | sendElsewhere : f.thread.pc = .send →
      (∀ conn, f.process.table.lookup f.thread.connFd ≠ some (.socket conn)) →
      HandlerCase t c f
        { f with
          thread := { f.thread with pc := .readBack }
          record := { f.record with inFull := false } }
  | closeWrite : f.thread.pc = .closeWrite → HandlerCase t c f (closeWriteStep f)
  | closeRead : f.thread.pc = .closeRead → HandlerCase t c f (closeReadStep f)
  | unlock : f.thread.pc = .unlock → HandlerCase t c f (unlockStep t f)
  | unlockContinue : f.thread.pc = .unlockContinue → HandlerCase t c f (unlockContinueStep f)
  | closeConn : f.thread.pc = .closeConn → HandlerCase t c f (closeConnStep f)

theorem handlerStep_inv (h : handlerStep t c f = .ok f') : HandlerCase t c f f' := by
  cases hpc : f.thread.pc <;> simp only [handlerStep, hpc, Except.ok.injEq, reduceCtorEq] at h
  case loopTest => exact h ▸ .loopTest hpc
  case recv => exact h ▸ .recv hpc
  case lock =>
    rw [lockStep] at h
    split_ifs at h with hfree
    obtain rfl := Except.ok.inj h
    exact .lock hpc hfree
  case openWrite => exact h ▸ .openWrite hpc
  case write =>
    rw [writeStep] at h
    split at h
    next pos hfd =>
      split at h
      next => cases h
      next nmemWritten device hrun =>
        obtain rfl := Except.ok.inj h
        exact .write hpc hfd hrun
    next hnot =>
      obtain rfl := Except.ok.inj h
      exact .writeElsewhere hpc hnot
  case openRead => exact h ▸ .openRead hpc
  case readBack =>
    rw [readBackStep] at h
    split at h
    next pos hfd =>
      split at h
      next => cases h
      next result hrun =>
        obtain rfl := Except.ok.inj h
        exact .readBack hpc hfd hrun
    next hnot =>
      obtain rfl := Except.ok.inj h
      exact .readElsewhere hpc hnot
  case send =>
    subst h
    rw [sendStep]
    split
    next conn hfd => exact .send hpc hfd
    next hnot => exact .sendElsewhere hpc hnot
  case closeWrite => exact h ▸ .closeWrite hpc
  case closeRead => exact h ▸ .closeRead hpc
  case unlock => exact h ▸ .unlock hpc
  case unlockContinue => exact h ▸ .unlockContinue hpc
  case closeConn => exact h ▸ .closeConn hpc

end Inversion

section System

/-- The server: what is shared, its handlers in the order in which their connections were
accepted, and what has happened. -/
structure ServerState where
  process : Process
  threads : List Thread
  record : Record

/-- `connect` is a round of the accept loop of `main` in which every call succeeds, `signal` the
signal handler. -/
inductive Label
  | connect
  | signal
  | handler (t : Nat) (c : Choice)

/-- The server as it starts to accept connections, with the standard streams, the log and the
listening socket open. -/
def startServer (device : DriverState) : ServerState where
  process :=
    { device := device
      table := [some .other, some .other, some .other, some .other, some .listening]
      fmutex := none
      closeServer := false }
  threads := []
  record :=
    { received := fun _ => []
      writes := []
      delivered := fun _ => []
      locks := 0
      sections := []
      inFull := true }

/-- A handler as `main` starts it. -/
def startThread (connFd : Nat) : Thread where
  connFd := connFd
  connClosed := false
  pc := .loopTest
  recvBuf := []
  writeFd := 0
  localReadFd := 0
  sendBuf := []
  ticket := 0
  sent := []

def ServerState.frame (s : ServerState) (th : Thread) : Frame := ⟨s.process, th, s.record⟩

def ServerState.update (s : ServerState) (t : Nat) (f : Frame) : ServerState where
  process := f.process
  threads := s.threads.set t f.thread
  record := f.record

def serverStep (s : ServerState) : Label → Except Refusal ServerState
  | .connect =>
    if s.process.closeServer then .error .finished
    else .ok { s with
      process := { s.process with
        table := s.process.table.install (.socket s.threads.length) }
      threads := s.threads ++ [startThread s.process.table.lowestFree] }
  | .signal => .ok { s with process := { s.process with closeServer := true } }
  | .handler t c =>
    match s.threads[t]? with
    | none => .error .finished
    | some th =>
      match handlerStep t c (s.frame th) with
      | .error e => .error e
      | .ok f => .ok (s.update t f)

end System

end Aesd.Server.Handler
