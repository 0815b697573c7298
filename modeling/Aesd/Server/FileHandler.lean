/- Aesd/Server/FileHandler
   layer: faithful model
   digest: The build of server.c without the character device: handlers and timer on one file. -/

import Aesd.Foundation.FileStream
import Aesd.Server.Handler

set_option autoImplicit false
set_option relaxedAutoImplicit false

namespace Aesd.Server.FileHandler

open Aesd.Foundation.FileStream
open Aesd.Driver.Device
open Aesd.Server.Handler

section Environment

/-- TIME_STR_SIZE. -/
def timeStrSize : Nat := 100

/-- What `strftime` can put into `timestr`, nothing if it fails. -/
structure TimeText where
  bytes : List UInt8
  bounded : bytes.length ≤ timeStrSize

def nanosPerSec : Nat := 1000000000

/-- `struct timespec`, as CLOCK_MONOTONIC gives it. -/
structure Time where
  sec : Nat
  nsec : Nat
  valid : nsec < nanosPerSec
  deriving DecidableEq, Repr

def Time.nanos (t : Time) : Nat := t.sec * nanosPerSec + t.nsec

def Time.zero : Time := ⟨0, 0, by decide⟩

/-- What the environment decides about the call of a step: the outcome of `recv`, whether `fseek`
succeeds, how many bytes `fwrite` can store and `fread` can get before an error, the room in the
send buffer of the socket, the clock, and the formatted time. -/
structure FileChoice where
  recv : RecvOutcome
  seeks : Bool
  stored : Nat
  readable : Nat
  room : Nat
  now : Time
  text : TimeText

end Environment

section State

/-- The statement of `handleRequests` that comes next. `read` is either of the two `fread` calls. -/
inductive FilePc
  | loopTest
  | recv
  | lock
  | seekEnd
  | write
  | seekStart
  | read
  | send
  | unlock
  | closeConn
  | done
  deriving DecidableEq, Repr

/-- The variables of a handler. No step depends on `sent`, what its socket took since its last lock,
and `inFull`, which says that since then no call of this handler failed or fell short. -/
structure FileThread where
  connClosed : Bool
  pc : FilePc
  recvBuf : List UInt8
  sendBuf : List UInt8
  sent : List UInt8
  inFull : Bool

/-- The statement of `writeTimeEvery10sec` that comes next. -/
inductive TimerPc
  | start
  | loopTest
  | clock
  | lock
  | seekEnd
  | write
  | unlock
  | sleep
  | done
  deriving DecidableEq, Repr

/-- The variables of the timer thread, `line` being what it writes. No step depends on `readings`,
the clock at all its readings, and `stamps`, the clock at those that led to a line. -/
structure Timer where
  pc : TimerPc
  target : Time
  line : List UInt8
  readings : List Time
  stamps : List Time

/-- A thread that writes to the file. -/
inductive Writer
  | handler (t : Nat)
  | timer
  deriving DecidableEq, Repr

/-- What the threads share: the stream `wptr`, the holder of `fmutex` and `CLOSE_SERVER`. -/
structure FileProcess where
  wptr : Stream UInt8
  fmutex : Option Writer
  closeServer : Bool

/-- A critical section of a handler that ran to its end. -/
structure FileSection where
  thread : Nat
  chunk : List UInt8
  sent : List UInt8
  inFull : Bool

/-- What has happened so far: what was stored and by whom, what each socket took, and the sections
of the handlers. No step depends on it. -/
structure FileRecord where
  units : List (Writer × List UInt8)
  delivered : Nat → List UInt8
  sections : List FileSection

/-- One handler with all it can reach. -/
structure FileFrame where
  process : FileProcess
  thread : FileThread
  record : FileRecord

end State

section HandlerSteps

/-- The loop test `!CLOSE_SERVER || !conn_closed`. -/
def loopTest (f : FileFrame) : FileFrame :=
  { f with thread := { f.thread with
      pc := if !f.process.closeServer || !f.thread.connClosed then .recv else .closeConn } }

def recvStep (outcome : RecvOutcome) (f : FileFrame) : FileFrame :=
  match outcome with
  | .again => { f with thread := { f.thread with pc := .loopTest } }
  | .error | .eof => { f with thread := { f.thread with connClosed := true, pc := .closeConn } }
  | .data chunk => { f with thread := { f.thread with recvBuf := chunk.bytes, pc := .lock } }

/-- `pthread_mutex_lock(fmutex)`. -/
def lockStep (t : Nat) (f : FileFrame) : Except Refusal FileFrame :=
  if f.process.fmutex = none then
    .ok { f with
      process := { f.process with fmutex := some (.handler t) }
      thread := { f.thread with pc := .seekEnd, sent := [], inFull := true } }
  else .error .blocked

/-- `fseek(wptr, 0, SEEK_END)`. -/
def seekEndStep (seeks : Bool) (f : FileFrame) : FileFrame :=
  { f with
    process := { f.process with wptr := if seeks then f.process.wptr.toEnd else f.process.wptr }
    thread := { f.thread with pc := .write, inFull := f.thread.inFull && seeks } }

/-- `fwrite(recv_buf, bytes_read_socket, 1, wptr)`. -/
def writeStep (t : Nat) (stored : Nat) (f : FileFrame) : FileFrame where
  process := { f.process with wptr := f.process.wptr.put (f.thread.recvBuf.take stored) }
  thread := { f.thread with
    pc := .seekStart
    inFull := f.thread.inFull && decide (f.thread.recvBuf.length ≤ stored) }
  record := { f.record with
    units := f.record.units ++ [(.handler t, f.thread.recvBuf.take stored)] }

/-- `fseek(wptr, 0, SEEK_SET)`. -/
def seekStartStep (seeks : Bool) (f : FileFrame) : FileFrame :=
  { f with
    process := { f.process with wptr := if seeks then f.process.wptr.toStart else f.process.wptr }
    thread := { f.thread with pc := .read, inFull := f.thread.inFull && seeks } }

/-- `fread(send_buf, 1, BUFSIZE, wptr)` and the test `bytes_to_send > 0`. -/
def readStep (readable : Nat) (f : FileFrame) : FileFrame :=
  let sendBuf := f.process.wptr.peek (min readable bufSize)
  { f with
    process := { f.process with wptr := f.process.wptr.get (min readable bufSize) }
    thread := { f.thread with
      sendBuf := sendBuf
      pc := if sendBuf = [] then .unlock else .send
      inFull := f.thread.inFull && decide (bufSize ≤ readable) } }

/-- `sendto(conn_fd, send_buf, bytes_to_send, …)`, with no room where it fails. SIGPIPE, which ends
the process and the run with it, is left out. -/
def sendStep (t : Nat) (room : Nat) (f : FileFrame) : FileFrame :=
  { f with
    thread := { f.thread with
      pc := .read
      sent := f.thread.sent ++ f.thread.sendBuf.take room
      inFull := f.thread.inFull && decide (f.thread.sendBuf.length ≤ room) }
    record := { f.record with
      delivered := Function.update f.record.delivered t
        (f.record.delivered t ++ f.thread.sendBuf.take room) } }

/-- `pthread_mutex_unlock(fmutex)`. -/
def unlockStep (t : Nat) (f : FileFrame) : FileFrame where
  process := { f.process with fmutex := none }
  thread := { f.thread with pc := .loopTest }
  record := { f.record with
    sections := f.record.sections ++
      [⟨t, f.thread.recvBuf, f.thread.sent, f.thread.inFull⟩] }

/-- The next step of the handler with number `t`. -/
def handlerStep (t : Nat) (c : FileChoice) (f : FileFrame) : Except Refusal FileFrame :=
  match f.thread.pc with
  | .loopTest => .ok (loopTest f)
  | .recv => .ok (recvStep c.recv f)
  | .lock => lockStep t f
  | .seekEnd => .ok (seekEndStep c.seeks f)
  | .write => .ok (writeStep t c.stored f)
  | .seekStart => .ok (seekStartStep c.seeks f)
  | .read => .ok (readStep c.readable f)
  | .send => .ok (sendStep t c.room f)
  | .unlock => .ok (unlockStep t f)
  | .closeConn => .ok { f with thread := { f.thread with pc := .done } }
  | .done => .error .finished

end HandlerSteps

section TimerSteps

/-- The timer with all it can reach. -/
structure TimerFrame where
  process : FileProcess
  timer : Timer
  record : FileRecord

/-- `clock_gettime(CLOCK_MONOTONIC, &start)` and the first target. -/
def startStep (now : Time) (f : TimerFrame) : TimerFrame :=
  { f with timer := { f.timer with
      target := { now with sec := now.sec + 10 }
      readings := f.timer.readings ++ [now]
      pc := .loopTest } }

/-- Whether `current` is past `target`. -/
def isPast (current target : Time) : Bool :=
  decide (current.sec > target.sec) ||
    (decide (current.sec = target.sec) && decide (current.nsec > target.nsec))

/-- `clock_gettime(CLOCK_MONOTONIC, &current)`, and behind the target a new one and the line. Only
the seconds of the target change. -/
def clockStep (current : Time) (text : TimeText) (f : TimerFrame) : TimerFrame :=
  if isPast current f.timer.target then
    { f with timer := { f.timer with
        target := { f.timer.target with sec := current.sec + 10 }
        line := text.bytes ++ [newline]
        readings := f.timer.readings ++ [current]
        stamps := f.timer.stamps ++ [current]
        pc := .lock } }
  else
    { f with timer := { f.timer with
        readings := f.timer.readings ++ [current]
        pc := .sleep } }

def timerLockStep (f : TimerFrame) : Except Refusal TimerFrame :=
  if f.process.fmutex = none then
    .ok { f with
      process := { f.process with fmutex := some .timer }
      timer := { f.timer with pc := .seekEnd } }
  else .error .blocked

def timerSeekStep (seeks : Bool) (f : TimerFrame) : TimerFrame :=
  { f with
    process := { f.process with wptr := if seeks then f.process.wptr.toEnd else f.process.wptr }
    timer := { f.timer with pc := .write } }

/-- `fwrite(timestr, timestr_size+1, 1, wptr)`. -/
def timerWriteStep (stored : Nat) (f : TimerFrame) : TimerFrame where
  process := { f.process with wptr := f.process.wptr.put (f.timer.line.take stored) }
  timer := { f.timer with pc := .unlock }
  record := { f.record with
    units := f.record.units ++ [(.timer, f.timer.line.take stored)] }

def timerUnlockStep (f : TimerFrame) : TimerFrame :=
  { f with
    process := { f.process with fmutex := none }
    timer := { f.timer with pc := .sleep } }

/-- The next step of `writeTimeEvery10sec`. -/
def timerStep (c : FileChoice) (f : TimerFrame) : Except Refusal TimerFrame :=
  match f.timer.pc with
  | .start => .ok (startStep c.now f)
  | .loopTest =>
    .ok { f with timer := { f.timer with
      pc := if !f.process.closeServer then .clock else .done } }
  | .clock => .ok (clockStep c.now c.text f)
  | .lock => timerLockStep f
  | .seekEnd => .ok (timerSeekStep c.seeks f)
  | .write => .ok (timerWriteStep c.stored f)
  | .unlock => .ok (timerUnlockStep f)
  | .sleep => .ok { f with timer := { f.timer with pc := .loopTest } }
  | .done => .error .finished

end TimerSteps

section System

structure FileServer where
  process : FileProcess
  threads : List FileThread
  timer : Timer
  record : FileRecord

inductive FileLabel
  | connect
  | signal
  | handler (t : Nat) (c : FileChoice)
  | timer (c : FileChoice)

/-- The server in front of its accept loop, the file just created. If the timer thread could not be
created, `CLOSE_SERVER` is set. -/
def startFileServer (created : Bool) : FileServer where
  process := ⟨.empty, none, !created⟩
  threads := []
  timer := ⟨if created then .start else .done, .zero, [], [], []⟩
  record := ⟨[], fun _ => [], []⟩

/-- A handler as `main` starts it. -/
def startThread : FileThread := ⟨false, .loopTest, [], [], [], true⟩

def FileServer.frame (s : FileServer) (th : FileThread) : FileFrame := ⟨s.process, th, s.record⟩

def FileServer.update (s : FileServer) (t : Nat) (f : FileFrame) : FileServer :=
  { s with
    process := f.process
    threads := s.threads.set t f.thread
    record := f.record }

def FileServer.timerFrame (s : FileServer) : TimerFrame := ⟨s.process, s.timer, s.record⟩

def FileServer.updateTimer (s : FileServer) (f : TimerFrame) : FileServer :=
  { s with
    process := f.process
    timer := f.timer
    record := f.record }

/-- One step of the accept loop, the signal handler, a handler or the timer. `connect` is a round of
the accept loop in which every call succeeds. -/
def fileStep (s : FileServer) : FileLabel → Except Refusal FileServer
  | .connect =>
    if s.process.closeServer then .error .finished
    else .ok { s with threads := s.threads ++ [startThread] }
  | .signal => .ok { s with process := { s.process with closeServer := true } }
  | .handler t c =>
    match s.threads[t]? with
    | none => .error .finished
    | some th =>
      match handlerStep t c (s.frame th) with
      | .error e => .error e
      | .ok f => .ok (s.update t f)
  | .timer c =>
    match timerStep c s.timerFrame with
    | .error e => .error e
    | .ok f => .ok (s.updateTimer f)

end System

section Inversion

variable {t : Nat} {c : FileChoice} {s s' : FileServer}

/-- The steps of handler `t`, told apart by its statement. -/
inductive HandlerCase (t : Nat) (c : FileChoice) (f : FileFrame) : FileFrame → Prop
  | loopTest : f.thread.pc = .loopTest → HandlerCase t c f (loopTest f)
  | recv : f.thread.pc = .recv → HandlerCase t c f (recvStep c.recv f)
  | lock : f.thread.pc = .lock → f.process.fmutex = none →
      HandlerCase t c f { f with
        process := { f.process with fmutex := some (.handler t) }
        thread := { f.thread with pc := .seekEnd, sent := [], inFull := true } }
  | seekEnd : f.thread.pc = .seekEnd → HandlerCase t c f (seekEndStep c.seeks f)
  | write : f.thread.pc = .write → HandlerCase t c f (writeStep t c.stored f)
  | seekStart : f.thread.pc = .seekStart → HandlerCase t c f (seekStartStep c.seeks f)
  | read : f.thread.pc = .read → HandlerCase t c f (readStep c.readable f)
  | send : f.thread.pc = .send → HandlerCase t c f (sendStep t c.room f)
  | unlock : f.thread.pc = .unlock → HandlerCase t c f (unlockStep t f)
  | closeConn : f.thread.pc = .closeConn →
      HandlerCase t c f { f with thread := { f.thread with pc := .done } }

theorem handlerStep_cases {f f' : FileFrame} (h : handlerStep t c f = .ok f') :
    HandlerCase t c f f' := by
  cases hpc : f.thread.pc <;> simp only [handlerStep, hpc, Except.ok.injEq, reduceCtorEq] at h
  case loopTest => exact h ▸ .loopTest hpc
  case recv => exact h ▸ .recv hpc
  case lock =>
    rw [lockStep] at h
    split_ifs at h with hfree
    obtain rfl := Except.ok.inj h
    exact .lock hpc hfree
  case seekEnd => exact h ▸ .seekEnd hpc
  case write => exact h ▸ .write hpc
  case seekStart => exact h ▸ .seekStart hpc
  case read => exact h ▸ .read hpc
  case send => exact h ▸ .send hpc
  case unlock => exact h ▸ .unlock hpc
  case closeConn => exact h ▸ .closeConn hpc

/-- The steps of the timer, told apart by its statement. -/
inductive TimerCase (c : FileChoice) (f : TimerFrame) : TimerFrame → Prop
  | start : f.timer.pc = .start → TimerCase c f (startStep c.now f)
  | loopTest : f.timer.pc = .loopTest → TimerCase c f
      { f with timer := { f.timer with
        pc := if !f.process.closeServer then .clock else .done } }
  | clock : f.timer.pc = .clock → TimerCase c f (clockStep c.now c.text f)
  | lock : f.timer.pc = .lock → f.process.fmutex = none →
      TimerCase c f { f with
        process := { f.process with fmutex := some .timer }
        timer := { f.timer with pc := .seekEnd } }
  | seekEnd : f.timer.pc = .seekEnd → TimerCase c f (timerSeekStep c.seeks f)
  | write : f.timer.pc = .write → TimerCase c f (timerWriteStep c.stored f)
  | unlock : f.timer.pc = .unlock → TimerCase c f (timerUnlockStep f)
  | sleep : f.timer.pc = .sleep →
      TimerCase c f { f with timer := { f.timer with pc := .loopTest } }

theorem timerStep_cases {f f' : TimerFrame} (h : timerStep c f = .ok f') : TimerCase c f f' := by
  cases hpc : f.timer.pc <;> simp only [timerStep, hpc, Except.ok.injEq, reduceCtorEq] at h
  case start => exact h ▸ .start hpc
  case loopTest => exact h ▸ .loopTest hpc
  case clock => exact h ▸ .clock hpc
  case lock =>
    rw [timerLockStep] at h
    split_ifs at h with hfree
    obtain rfl := Except.ok.inj h
    exact .lock hpc hfree
  case seekEnd => exact h ▸ .seekEnd hpc
  case write => exact h ▸ .write hpc
  case unlock => exact h ▸ .unlock hpc
  case sleep => exact h ▸ .sleep hpc

/-- The steps of the server. -/
inductive FileCase (s : FileServer) : FileLabel → FileServer → Prop
  | connect : s.process.closeServer = false →
      FileCase s .connect { s with threads := s.threads ++ [startThread] }
  | signal : FileCase s .signal { s with process := { s.process with closeServer := true } }
  | handler {t : Nat} {c : FileChoice} {th : FileThread} {f' : FileFrame} :
      s.threads[t]? = some th → HandlerCase t c (s.frame th) f' →
      FileCase s (.handler t c) (s.update t f')
  | timer {c : FileChoice} {f' : TimerFrame} : TimerCase c s.timerFrame f' →
      FileCase s (.timer c) (s.updateTimer f')

theorem fileStep_cases {l : FileLabel} (h : fileStep s l = .ok s') : FileCase s l s' := by
  cases l with
  | connect =>
    simp only [fileStep] at h
    split_ifs at h with hclosed
    obtain rfl := Except.ok.inj h
    exact .connect (Bool.eq_false_of_not_eq_true hclosed)
  | signal =>
    obtain rfl := (Except.ok.inj h).symm
    exact .signal
  | handler t c =>
    simp only [fileStep] at h
    split at h
    next => cases h
    next th hth =>
      split at h
      next => cases h
      next f' hf =>
        obtain rfl := Except.ok.inj h
        exact .handler hth (handlerStep_cases hf)
  | timer c =>
    simp only [fileStep] at h
    split at h
    next => cases h
    next f' hf =>
      obtain rfl := Except.ok.inj h
      exact .timer (timerStep_cases hf)

end Inversion

end Aesd.Server.FileHandler
