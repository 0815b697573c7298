/- Aesd/Driver/Interleaving
   layer: system
   digest: Any number of processes in aesd_read and aesd_write at once, step by step. -/

import Aesd.Driver.Session
import Aesd.Foundation.Atomicity

set_option autoImplicit false
set_option relaxedAutoImplicit false

namespace Aesd.Driver.Interleaving

open Aesd.Foundation.Atomicity
open Aesd.Foundation.BlockHeap
open Aesd.Foundation.RecordLog
open Aesd.Foundation.Run
open Aesd.Driver.CircularBuffer
open Aesd.Driver.Device
open Aesd.Driver.LogRelation
open Aesd.Driver.ReadCorrect
open Aesd.Driver.Session
open Aesd.Driver.WriteCorrect

section Routine

/-- A call of a process, with what the kernel will do to it. `*f_pos` is the position of that
call alone. -/
inductive DriverCall
  | write (env : WriteEnv) (buf : List UInt8)
  | read (env : ReadEnv) (count fPos : Nat)

/-- What a call returns, for a read with `*f_pos` and what the user's buffer received. -/
inductive DriverReturn
  | wrote (ret : Int)
  | gave (ret : Int) (fPos : Nat) (user : List UInt8)
  deriving DecidableEq, Repr

/-- Where a call is between `down(&dev->sem)` and `up(&dev->sem)`, with its local variables. The
first six belong to `aesd_write`, the others to `aesd_read`. -/
inductive Locals
  | allocNew (env : WriteEnv) (buf : List UInt8)
  | moveInput (env : WriteEnv) (buf : List UInt8) (currSize : Nat) (newBuf : Ptr)
  | copyIn (env : WriteEnv) (buf : List UInt8) (currSize : Nat) (newBuf : Ptr)
  | scan (env : WriteEnv) (count left i currSize : Nat) (newBuf : Ptr)
  | takeOver (env : WriteEnv) (count left i currSize : Nat) (oldBuf : Ptr)
  | moveRest (env : WriteEnv) (count left i currSize remaining : Nat) (oldBuf newBuf : Ptr)
  | allocKernel (env : ReadEnv) (count fPos : Nat)
  | find (env : ReadEnv) (count fPos : Nat) (kernelBuf : Ptr)
  | gather (env : ReadEnv) (count fPos : Nat) (kernelBuf : Ptr)
      (left bufIndex startCharIndex bytesRead : Nat)
  | copyOut (env : ReadEnv) (fPos : Nat) (kernelBuf : Ptr) (bytesRead : Nat)
  | freeKernel (kernelBuf : Ptr) (retval : Int) (fPos : Nat) (user : List UInt8)

def enter : DriverCall → Locals
  | .write env buf => .allocNew env buf
  | .read env count fPos => .allocKernel env count fPos

/-- A step of `aesd_write` or `aesd_read` inside its critical section. -/
def driverStep : Locals → DriverState → Except Fault ((Locals ⊕ DriverReturn) × DriverState)
  | .allocNew env buf, s =>
    let currSize := s.dev.currInput.size
    let (newBuf, heap) := kmalloc (env.kmalloc 0) (currSize + buf.length) s.heap
    if newBuf = .null then pure (.inr (.wrote (-ENOMEM)), { s with heap := heap })
    else pure (.inl (.moveInput env buf currSize newBuf), { s with heap := heap })
  | .moveInput env buf currSize newBuf, s => do
    let heap ← moveCurrInput s.dev newBuf s.heap
    let dev := { s.dev with currInput := { s.dev.currInput with buffptr := newBuf } }
    pure (.inl (.copyIn env buf currSize newBuf), { dev := dev, heap := heap })
  | .copyIn env buf currSize newBuf, s => do
    let (missing, heap) ← copyFromUser s.heap newBuf currSize buf env.readable
    if missing ≠ 0 then pure (.inr (.wrote (-EFAULT)), { s with heap := heap })
    else pure (.inl (.scan env buf.length buf.length 0 currSize newBuf), { s with heap := heap })
  | .scan _ count 0 _ currSize newBuf, s =>
    pure (.inr (.wrote (count : Int)),
      { s with dev := { s.dev with currInput := ⟨newBuf, currSize⟩ } })
  | .scan env count (left + 1) i currSize newBuf, s => do
    let c ← s.heap.load newBuf currSize 1
    if c = [newline] then do
      let s ← commitEntry s newBuf currSize
      pure (.inl (.takeOver env count left i currSize newBuf), s)
    else pure (.inl (.scan env count left (i + 1) (currSize + 1) newBuf), s)
  | .takeOver env count left i currSize oldBuf, s => do
    let remaining ← checkedSub count i
    let remaining ← checkedSub remaining 1
    let (newBuf, heap) := kmalloc (env.kmalloc (i + 1)) (remaining + 1) s.heap
    if newBuf = .null then
      pure (.inr (.wrote ((i + 1 : Nat) : Int)),
        { dev := { s.dev with currInput := ⟨.null, 0⟩ }, heap := heap })
    else
      pure (.inl (.moveRest env count left i currSize remaining oldBuf newBuf),
        { s with heap := heap })
  | .moveRest env count left i currSize remaining oldBuf newBuf, s => do
    let heap ← copyRemaining newBuf oldBuf currSize remaining s.heap
    pure (.inl (.scan env count left (i + 1) 0 newBuf),
      { dev := { s.dev with currInput := ⟨newBuf, remaining⟩ }, heap := heap })
  | .allocKernel env count fPos, s =>
    let fPos := if fPos < s.dev.totalBytesEvicted then s.dev.totalBytesEvicted else fPos
    let (kernelBuf, heap) := kmalloc env.kmalloc count s.heap
    if kernelBuf = .null then
      pure (.inl (.freeKernel kernelBuf (-ENOMEM) fPos []), { s with heap := heap })
    else pure (.inl (.find env count fPos kernelBuf), { s with heap := heap })
  | .find env count fPos kernelBuf, s =>
    let (bufIndex, startCharIndex) := aesdDevFindEntryOffsetForFpos s.dev fPos 0
    if bufIndex = maxWriteOperationsSupported then
      pure (.inl (.freeKernel kernelBuf 0 fPos []), s)
    else
      pure (.inl (.gather env count fPos kernelBuf (totalEntries s.dev bufIndex) bufIndex
        startCharIndex 0), s)
  | .gather env count fPos kernelBuf left bufIndex startCharIndex bytesRead, s => do
    let next ← aesdReadRound s.dev kernelBuf count
      ⟨left, bufIndex, startCharIndex, bytesRead, s.heap⟩
    match next with
    | .inl head =>
      pure (.inl (.gather env count fPos kernelBuf head.left head.bufIndex head.startCharIndex
        head.bytesRead), { s with heap := head.heap })
    | .inr (bytesRead, heap) =>
      pure (.inl (.copyOut env fPos kernelBuf bytesRead), { s with heap := heap })
  | .copyOut env fPos kernelBuf bytesRead, s => do
    let (missing, user) ← copyToUser s.heap kernelBuf bytesRead env.writable
    let retval := if missing ≠ 0 then -EFAULT else (bytesRead : Int)
    pure (.inl (.freeKernel kernelBuf retval (fPos + bytesRead) user), s)
  | .freeKernel kernelBuf retval fPos user, s => do
    let heap ← s.heap.free kernelBuf
    pure (.inr (.gave retval fPos user), { s with heap := heap })

/-- The rounds that `aesd_read` may still have before its copy loop is entered. -/
def readRounds : Nat := 256

/-- A bound on the steps a call has left in its critical section. -/
def stepsLeft : Locals → Nat
  | .allocNew _ buf => 3 * buf.length + 3
  | .moveInput _ buf _ _ => 3 * buf.length + 2
  | .copyIn _ buf _ _ => 3 * buf.length + 1
  | .scan _ _ left _ _ _ => 3 * left
  | .takeOver _ _ left _ _ _ => 3 * left + 2
  | .moveRest _ _ left _ _ _ _ _ => 3 * left + 1
  | .allocKernel _ _ _ => readRounds + 3
  | .find _ _ _ _ => readRounds + 2
  | .gather _ _ _ _ left _ _ _ => left + 2
  | .copyOut _ _ _ _ => 1
  | .freeKernel _ _ _ _ => 0

theorem totalEntries_lt (dev : AesdDev) (bufIndex : Nat) :
    totalEntries dev bufIndex < readRounds := by
  unfold totalEntries
  split_ifs
  · decide
  · unfold toUint8 readRounds
    omega

theorem aesdReadRound_left {dev : AesdDev} {kernelBuf : Ptr} {count : Nat} {head head' : ReadHead}
    (h : aesdReadRound dev kernelBuf count head = .ok (.inl head')) :
    head'.left < head.left := by
  unfold aesdReadRound at h
  split at h
  next => cases h
  next left hleft =>
    split at h
    next =>
      split at h
      next => cases h
      next =>
        obtain ⟨bytesLeft, -, h⟩ := bind_ok h
        split at h
        next =>
          obtain ⟨part, -, h⟩ := bind_ok h
          obtain ⟨m, -, h⟩ := bind_ok h
          cases h
        next =>
          obtain ⟨m, -, h⟩ := bind_ok h
          split at h
          next => cases h
          next =>
            obtain rfl := Sum.inl.inj (Except.ok.inj h)
            rw [hleft]
            exact Nat.lt_succ_self left
    next => cases h

/-- A step that stays in the critical section leaves fewer steps than `bound`. -/
def Lowers (bound : Nat) (r : Except Fault ((Locals ⊕ DriverReturn) × DriverState)) : Prop :=
  ∀ l s, r = .ok (.inl l, s) → stepsLeft l < bound

section Lowers

variable {bound : Nat} {s : DriverState}

theorem lowers_goto {l : Locals} (h : stepsLeft l < bound) : Lowers bound (pure (.inl l, s)) := by
  intro l' s' heq
  obtain ⟨⟨rfl⟩, -⟩ := Prod.mk.inj (Except.ok.inj heq)
  exact h

theorem lowers_return (r : DriverReturn) : Lowers bound (pure (.inr r, s)) :=
  fun _ _ h => nomatch h

theorem lowers_bind {α : Type} {x : Except Fault α}
    {f : α → Except Fault ((Locals ⊕ DriverReturn) × DriverState)}
    (h : ∀ a, x = .ok a → Lowers bound (f a)) : Lowers bound (x >>= f) := by
  intro l s heq
  obtain ⟨a, ha, hrest⟩ := bind_ok heq
  exact h a ha l s hrest

end Lowers

theorem driverStep_lowers (l : Locals) (s : DriverState) :
    Lowers (stepsLeft l) (driverStep l s) := by
  cases l with
  | allocNew env buf =>
    simp only [driverStep]
    split_ifs
    · exact lowers_return _
    · exact lowers_goto (by simp only [stepsLeft]; omega)
  | moveInput env buf currSize newBuf =>
    exact lowers_bind fun _ _ => lowers_goto (by simp only [stepsLeft]; omega)
  | copyIn env buf currSize newBuf =>
    refine lowers_bind fun (missing, heap) _ => ?_
    dsimp only
    split_ifs
    · exact lowers_return _
    · exact lowers_goto (by simp only [stepsLeft]; omega)
  | scan env count left i currSize newBuf =>
    cases left with
    | zero => exact lowers_return _
    | succ left =>
      refine lowers_bind fun c _ => ?_
      split_ifs
      · exact lowers_bind fun _ _ => lowers_goto (by simp only [stepsLeft]; omega)
      · exact lowers_goto (by simp only [stepsLeft]; omega)
  | takeOver env count left i currSize oldBuf =>
    refine lowers_bind fun _ _ => lowers_bind fun remaining _ => ?_
    dsimp only
    split_ifs
    · exact lowers_return _
    · exact lowers_goto (by simp only [stepsLeft]; omega)
  | moveRest env count left i currSize remaining oldBuf newBuf =>
    exact lowers_bind fun _ _ => lowers_goto (by simp only [stepsLeft]; omega)
  | allocKernel env count fPos =>
    simp only [driverStep]
    split_ifs
    all_goals exact lowers_goto (by simp only [stepsLeft]; omega)
  | find env count fPos kernelBuf =>
    have hlt := totalEntries_lt s.dev (aesdDevFindEntryOffsetForFpos s.dev fPos 0).1
    simp only [driverStep]
    split_ifs
    all_goals exact lowers_goto (by simp only [stepsLeft]; omega)
  | gather env count fPos kernelBuf left bufIndex startCharIndex bytesRead =>
    refine lowers_bind fun next hround => ?_
    obtain head | ⟨total, heap⟩ := next
    · have hlt := aesdReadRound_left hround
      exact lowers_goto (by simp only [stepsLeft] at hlt ⊢; omega)
    · exact lowers_goto (by simp only [stepsLeft]; omega)
  | copyOut env fPos kernelBuf bytesRead =>
    exact lowers_bind fun _ _ => lowers_goto Nat.zero_lt_one
  | freeKernel kernelBuf retval fPos user =>
    exact lowers_bind fun _ _ => lowers_return _

/-- `aesd_read` and `aesd_write` between `down` and `up`. -/
def driver : Routine DriverCall Locals DriverReturn DriverState Fault where
  enter := enter
  step := driverStep
  rank := stepsLeft
  rank_step := fun h => driverStep_lowers _ _ _ _ h

end Routine

section Whole

/-- The result of `aesd_write` as that of a call. -/
def wroteResult (result : Int × DriverState) : DriverReturn × DriverState :=
  (.wrote result.1, result.2)

/-- The result of `aesd_read` as that of a call. -/
def readResult (result : ReadResult) : DriverReturn × DriverState :=
  (.gave result.ret result.fPos result.user, result.state)

theorem rest_scan (env : WriteEnv) (count left i currSize : Nat) (newBuf : Ptr)
    (s : DriverState) :
    driver.rest (.scan env count left i currSize newBuf) s =
      wroteResult <$> aesdWriteLoop env count left i currSize newBuf s := by
  induction left generalizing i currSize newBuf s with
  | zero => rw [Routine.rest_eq]; rfl
  | succ left ih =>
    rw [Routine.rest_eq, aesdWriteLoop, map_bind]
    show (s.heap.load newBuf currSize 1 >>= _) >>= _ = _
    rw [bind_assoc]
    congr 1
    funext c
    split_ifs with hc
    · -- a newline: the commit, the allocation and the copy are steps of their own
      rw [map_bind, bind_assoc]
      congr 1
      funext s₁
      show driver.rest (.takeOver env count left i currSize newBuf) s₁ = _
      rw [Routine.rest_eq]
      show (checkedSub count i >>= _) >>= _ = _
      rw [map_bind, bind_assoc]
      congr 1
      funext remaining₁
      rw [map_bind, bind_assoc]
      congr 1
      funext remaining
      dsimp only
      split_ifs with hnull
      · rfl
      · show driver.rest (.moveRest env count left i currSize remaining newBuf _) _ = _
        rw [Routine.rest_eq]
        show (copyRemaining _ _ _ _ _ >>= _) >>= _ = _
        rw [map_bind, bind_assoc]
        congr 1
        funext heap
        exact ih (i + 1) 0 _ _
    · exact ih (i + 1) (currSize + 1) newBuf s

/-- A write that runs step by step is a write. -/
theorem whole_write (env : WriteEnv) (buf : List UInt8) (s : DriverState) :
    driver.whole (.write env buf) s = wroteResult <$> aesdWrite env buf s := by
  show driver.rest (.allocNew env buf) s = _
  rw [Routine.rest_eq, aesdWrite]
  show driverStep (.allocNew env buf) s >>= _ = _
  simp only [driverStep]
  split_ifs with hnull
  · rfl
  · show driver.rest (.moveInput env buf _ _) _ = _
    rw [Routine.rest_eq, map_bind]
    show (moveCurrInput _ _ _ >>= _) >>= _ = _
    rw [bind_assoc]
    congr 1
    funext heap
    show driver.rest (.copyIn env buf _ _) _ = _
    rw [Routine.rest_eq, map_bind]
    show (copyFromUser _ _ _ _ _ >>= _) >>= _ = _
    rw [bind_assoc]
    congr 1
    funext copy
    dsimp only
    split_ifs with hshort
    · rfl
    · exact rest_scan env buf.length buf.length 0 _ _ _

theorem rest_freeKernel (kernelBuf : Ptr) (retval : Int) (fPos : Nat) (user : List UInt8)
    (s : DriverState) :
    driver.rest (.freeKernel kernelBuf retval fPos user) s =
      readResult <$> (do
        let heap ← s.heap.free kernelBuf
        pure ⟨retval, fPos, user, { s with heap := heap }⟩) := by
  rw [Routine.rest_eq, map_bind]
  show (s.heap.free kernelBuf >>= _) >>= _ = _
  rw [bind_assoc]
  rfl

/-- What is left of a read behind its copy loop. -/
def copyAndFree (env : ReadEnv) (fPos : Nat) (kernelBuf : Ptr) (s : DriverState)
    (loop : Nat × Heap UInt8) : Except Fault ReadResult := do
  let (missing, user) ← copyToUser loop.2 kernelBuf loop.1 env.writable
  let retval := if missing ≠ 0 then -EFAULT else (loop.1 : Int)
  let heap ← loop.2.free kernelBuf
  pure ⟨retval, fPos + loop.1, user, { s with heap := heap }⟩

theorem rest_copyOut (env : ReadEnv) (fPos : Nat) (kernelBuf : Ptr) (s : DriverState)
    (loop : Nat × Heap UInt8) :
    driver.rest (.copyOut env fPos kernelBuf loop.1) { s with heap := loop.2 } =
      readResult <$> copyAndFree env fPos kernelBuf s loop := by
  rw [Routine.rest_eq, copyAndFree, map_bind]
  show (copyToUser _ _ _ _ >>= _) >>= _ = _
  rw [bind_assoc]
  congr 1
  funext copy
  exact rest_freeKernel kernelBuf _ _ _ _

theorem rest_gather (env : ReadEnv) (count fPos : Nat) (kernelBuf : Ptr) (s : DriverState)
    (head : ReadHead) :
    driver.rest (.gather env count fPos kernelBuf head.left head.bufIndex head.startCharIndex
        head.bytesRead) { s with heap := head.heap } =
      readResult <$> (readFrom s.dev kernelBuf count head >>= copyAndFree env fPos kernelBuf s) := by
  induction hn : head.left using Nat.strong_induction_on generalizing head with
  | _ n ih =>
    subst hn
    rw [Routine.rest_eq, readFrom_eq, map_bind, bind_assoc]
    show (aesdReadRound s.dev kernelBuf count head >>= _) >>= _ = _
    rw [bind_assoc]
    cases hround : aesdReadRound s.dev kernelBuf count head with
    | error e => rfl
    | ok next =>
      obtain head' | loop := next
      · have hlt := aesdReadRound_left hround
        show _ = (readFrom s.dev kernelBuf count head' >>= fun loop =>
          readResult <$> copyAndFree env fPos kernelBuf s loop)
        rw [← map_bind]
        exact ih head'.left hlt head' rfl
      · exact rest_copyOut env fPos kernelBuf s loop

/-- A read that runs step by step is a read. -/
theorem whole_read (env : ReadEnv) (count fPos : Nat) (s : DriverState) :
    driver.whole (.read env count fPos) s = readResult <$> aesdRead env count fPos s := by
  show driver.rest (.allocKernel env count fPos) s = _
  rw [Routine.rest_eq, aesdRead]
  show driverStep (.allocKernel env count fPos) s >>= _ = _
  simp only [driverStep]
  obtain ⟨p, hp⟩ : ∃ p, p = if fPos < s.dev.totalBytesEvicted then s.dev.totalBytesEvicted
    else fPos := ⟨_, rfl⟩
  rw [← hp]
  split_ifs with hnull hnone
  · exact rest_freeKernel _ _ _ _ _
  · show driver.rest (.find env count p _) _ = _
    rw [Routine.rest_eq]
    show driverStep (.find env count p _) _ >>= _ = _
    simp only [driverStep, if_pos hnone]
    exact rest_freeKernel _ _ _ _ _
  · show driver.rest (.find env count p _) _ = _
    rw [Routine.rest_eq]
    show driverStep (.find env count p _) _ >>= _ = _
    simp only [driverStep, if_neg hnone]
    exact rest_gather env count p _ s ⟨_, _, _, 0, _⟩

end Whole

section OneAtATime

/-- A call that returned, with its result. -/
abbrev Finished : Type := Done DriverCall DriverReturn

/-- The device after calls of `aesd_write` and `aesd_read` that run one at a time on a fresh
device, each from entry to exit, and give the recorded results. -/
inductive OneAtATime : List Finished → DriverState → Prop
  | nil : OneAtATime [] aesdInitModule
  | write {done : List Finished} {s s' : DriverState} {n : Nat} {env : WriteEnv}
      {buf : List UInt8} {r : Int} : OneAtATime done s → aesdWrite env buf s = .ok (r, s') →
      OneAtATime (done ++ [⟨n, .write env buf, .wrote r⟩]) s'
  | read {done : List Finished} {s : DriverState} {n : Nat} {env : ReadEnv} {count fPos : Nat}
      {result : ReadResult} : OneAtATime done s → aesdRead env count fPos s = .ok result →
      OneAtATime (done ++ [⟨n, .read env count fPos,
        .gave result.ret result.fPos result.user⟩]) result.state

theorem map_ok {α β : Type} {f : α → β} {x : Except Fault α} {b : β}
    (h : f <$> x = .ok b) : ∃ a, x = .ok a ∧ f a = b := by
  cases x with
  | error e => cases h
  | ok a => exact ⟨a, rfl, Except.ok.inj h⟩

theorem oneAtATime_of_serial {done : List Finished} {s : DriverState}
    (h : Serial driver aesdInitModule done s) : OneAtATime done s := by
  induction h with
  | nil => exact .nil
  | @snoc done d s s' _ hwhole ih =>
    obtain ⟨n, call, ret⟩ := d
    cases call with
    | write env buf =>
      rw [whole_write] at hwhole
      obtain ⟨⟨r, s''⟩, hrun, heq⟩ := map_ok hwhole
      obtain ⟨rfl, rfl⟩ := Prod.mk.inj heq
      exact .write ih hrun
    | read env count fPos =>
      rw [whole_read] at hwhole
      obtain ⟨result, hrun, heq⟩ := map_ok hwhole
      obtain ⟨rfl, rfl⟩ := Prod.mk.inj heq
      exact .read ih hrun

/-- The bytes that a call adds to the stream of the device: the prefix of the payload that it
reports as written. -/
def added : Finished → List UInt8
  | ⟨_, .write _ buf, .wrote r⟩ => buf.take r.toNat
  | _ => []

/-- The stream that calls one at a time leave in the device. -/
def streamOf (done : List Finished) : List UInt8 := done.flatMap added

theorem OneAtATime.represents {done : List Finished} {s : DriverState} (h : OneAtATime done s) :
    ∃ slots lost, Represents s (accept Cut.empty (streamOf done)) slots lost := by
  induction h with
  | nil => exact ⟨[], ∅, represents_init⟩
  | @write done s s' n env buf r _ hrun ih =>
    obtain ⟨slots, lost, hrep⟩ := ih
    obtain ⟨r', s'', slots', hrun', hrep', -⟩ := aesdWrite_spec hrep env buf
    obtain ⟨rfl, rfl⟩ := Prod.mk.inj (Except.ok.inj (hrun'.symm.trans hrun))
    refine ⟨slots', lostAfterWrite env buf s lost, ?_⟩
    rw [streamOf, List.flatMap_append, List.flatMap_singleton, accept_append]
    exact hrep'
  | @read done s n env count fPos result _ hrun ih =>
    obtain ⟨slots, lost, hrep⟩ := ih
    obtain ⟨result', hrun', hu⟩ := aesdRead_total hrep env count fPos
    obtain rfl := Except.ok.inj (hrun'.symm.trans hrun)
    refine ⟨slots, lost, ?_⟩
    have hnothing : streamOf (done ++ [⟨n, .read env count fPos,
        .gave result'.ret result'.fPos result'.user⟩]) = streamOf done := by
      simp [streamOf, added]
    rw [hnothing]
    exact hu.represents hrep

/-- After any calls one at a time, every call completes without a fault. -/
theorem driver_total : Total driver aesdInitModule := by
  intro done s hserial call
  obtain ⟨slots, lost, hrep⟩ := (oneAtATime_of_serial hserial).represents
  cases call with
  | write env buf =>
    obtain ⟨r, s', -, hrun, -⟩ := aesdWrite_spec hrep env buf
    exact ⟨_, _, by rw [whole_write, hrun]; rfl⟩
  | read env count fPos =>
    obtain ⟨result, hrun, -⟩ := aesdRead_total hrep env count fPos
    exact ⟨_, _, by rw [whole_read, hrun]; rfl⟩

end OneAtATime

section System

/-- Processes that call the driver, from the fresh device on. -/
abbrev Processes : Type := Machine DriverCall Locals DriverReturn DriverState

def startProcesses (n : Nat) : Processes := start n aesdInitModule

/-- The device is linearizable. Whatever any number of processes do in it at once, step by step,
the calls that gave the semaphore back have the results they have one at a time in that order,
and while no call is inside, the device is the one they leave that way: it shows the records of
the stream of whole writes. No two calls are inside at once. Every call is in the order once,
with the arguments it was made with, and a call that returned is in it with the result it
returned, before every call that was made later. -/
theorem linearizable (n : Nat) (labels : List (Label DriverCall)) (m : Processes)
    (hrun : run (machineStep driver) (startProcesses n) labels = .ok m) :
    (∃ s, OneAtATime m.done s ∧ view s = .ok (logView (accept Cut.empty (streamOf m.done))) ∧
      ((∀ task ∈ m.tasks, ¬task.Holds) → m.shared = s)) ∧
    (∀ (t u : Nat) (task task' : Task DriverCall Locals DriverReturn), m.tasks[t]? = some task →
      m.tasks[u]? = some task' → task.Holds → task'.Holds → t = u) ∧
    (m.done.map Done.number).Nodup ∧
    (∀ d ∈ m.done, (labels.filterMap Label.requested)[d.number]? = some d.call) ∧
    ∀ ret ∈ m.returned, ∃ before after, m.done = before ++ after ∧
      (∃ d ∈ before, d.number = ret.number ∧ d.result = ret.result) ∧
      ∀ d ∈ m.done, ret.requested ≤ d.number → d ∈ after := by
  obtain ⟨⟨s, hexplained⟩, hnumbered⟩ := run_explained hrun
  have horder := oneAtATime_of_serial hexplained.serial
  obtain ⟨slots, lost, hrep⟩ := horder.represents
  refine ⟨⟨s, horder, view_eq hrep, ?_⟩, ?_, hnumbered.nodup, ?_, ?_⟩
  · intro hnone
    by_cases hfree : 0 < m.permits
    · exact (hexplained.free hfree).2.1
    · obtain ⟨t, task, ht, hcont, -⟩ := hexplained.held (Nat.eq_zero_of_not_pos hfree)
      have hnot := hnone task (List.mem_of_getElem? ht)
      cases task <;> first | exact absurd trivial hnot | exact hcont.elim
  · intro t u task task' ht hu hholds hholds'
    exact ((hexplained.holder ht hholds).2.2 u task' hu hholds').symm
  · intro d hd
    rw [← run_requests hrun]
    exact hnumbered.calls d hd
  · intro ret hret
    obtain ⟨before, after, hsplit, hin, hlt⟩ := hnumbered.returned ret hret
    refine ⟨before, after, hsplit, hin, ?_⟩
    intro d hd hlater
    rw [hsplit] at hd
    rcases List.mem_append.mp hd with hd | hd
    · exact absurd (hlt d hd) (Nat.not_lt.mpr hlater)
    · exact hd

/-- No call of the driver faults, whatever runs beside it, and the calls that were made always can
be completed: the steps that make no new call are bounded in number, and whichever are taken
first, they can be continued until every call has returned and the semaphore is free. -/
theorem calls_complete (n : Nat) (labels : List (Label DriverCall)) (m : Processes)
    (hrun : run (machineStep driver) (startProcesses n) labels = .ok m) :
    (∀ l fault, machineStep driver m l ≠ .error (.fault fault)) ∧
    ∃ bound, ∀ more m', run (machineStep driver) m more = .ok m' → (∀ l ∈ more, l.goesOn = true) →
      more.length ≤ bound ∧ ∃ rest m'', (∀ l ∈ rest, l.goesOn = true) ∧
        run (machineStep driver) m' rest = .ok m'' ∧ Quiet m'' ∧ m''.permits = 1 := by
  obtain ⟨⟨s, hexplained⟩, -⟩ := run_explained hrun
  refine ⟨hexplained.no_fault driver_total, m.rank driver, ?_⟩
  intro more m' hmore hgo
  have hlowers := machine_lowers driver aesdInitModule
  have halong : Along (machineStep driver) (fun _ l => l.goesOn = true) m more :=
    along_of_mem (fun l hl _ => hgo l hl) m
  obtain ⟨hexplained', hle⟩ := hlowers.run ⟨s, hexplained⟩ hmore halong
  have hcount : more.countP (fun _ => true) = more.length :=
    List.countP_eq_length.mpr fun _ _ => rfl
  have hnext : ∀ m₁, (∃ s₁, Explained driver aesdInitModule m₁ s₁) → ¬Quiet m₁ →
      ∃ l m₂, true = true ∧ l.goesOn = true ∧ machineStep driver m₁ l = .ok m₂ := by
    rintro m₁ ⟨s₁, h₁⟩ hbusy
    obtain ⟨l, m₂, hgoes, hstep⟩ := h₁.next driver_total hbusy
    exact ⟨l, m₂, rfl, hgoes, hstep⟩
  obtain ⟨rest, m'', hrest, hrestAlong, hquiet⟩ := hlowers.completes hnext hexplained'
  obtain ⟨⟨s'', hexplained''⟩, -⟩ := hlowers.run hexplained' hrest hrestAlong
  exact ⟨by omega, rest, m'', mem_of_along hrestAlong hrest, hrest, hquiet,
    hexplained''.permits_of_quiet hquiet⟩

/-- A process writes one line while another one waits to read four bytes. -/
def writeThenRead : List (Label DriverCall) :=
  .request 0 (.write ⟨fun _ => true, 2⟩ [97, newline]) :: .request 1 (.read ⟨true, 4⟩ 4 0) ::
    .down 0 :: List.replicate 8 (.work 0) ++ .up 0 :: .down 1 :: List.replicate 6 (.work 1) ++
      [.up 1, .finish 1, .finish 0]

theorem writeThenRead_results :
    ((run (machineStep driver) (startProcesses 2) writeThenRead).toOption.map fun m =>
      (m.done.map Done.result, streamOf m.done)) =
      some ([.wrote 2, .gave 2 2 [97, newline]], [97, newline]) := by
  decide +kernel

theorem writeThenRead_run : ∃ m,
    run (machineStep driver) (startProcesses 2) writeThenRead = .ok m ∧
      m.done.map Done.result = [.wrote 2, .gave 2 2 [97, newline]] ∧
      streamOf m.done = [97, newline] := by
  have hresults := writeThenRead_results
  cases hrun : run (machineStep driver) (startProcesses 2) writeThenRead with
  | error e =>
    rw [hrun] at hresults
    cases hresults
  | ok m =>
    rw [hrun] at hresults
    obtain ⟨hdone, hstream⟩ := Prod.mk.inj (Option.some.inj hresults)
    exact ⟨m, rfl, hdone, hstream⟩

/-- The line that was written before the read got the semaphore is what the read gives. -/
theorem linearizable_line : ∃ m s,
    run (machineStep driver) (startProcesses 2) writeThenRead = .ok m ∧ OneAtATime m.done s ∧
      m.done.map Done.result = [.wrote 2, .gave 2 2 [97, newline]] ∧
      view s = .ok ⟨[[97, newline]], [], 0⟩ := by
  obtain ⟨m, hrun, hdone, hstream⟩ := writeThenRead_run
  obtain ⟨⟨s, horder, hview, -⟩, -⟩ := linearizable 2 writeThenRead m hrun
  rw [hstream] at hview
  exact ⟨m, s, hrun, horder, hdone, hview⟩

/-- The write is under way and the read waits for the semaphore. -/
def underWay : List (Label DriverCall) :=
  .request 0 (.write ⟨fun _ => true, 2⟩ [97, newline]) :: .request 1 (.read ⟨true, 4⟩ 4 0) ::
    .down 0 :: List.replicate 3 (.work 0)

theorem underWay_permits : ((run (machineStep driver) (startProcesses 2) underWay).toOption.map
    Machine.permits) = some 0 := by
  decide +kernel

theorem calls_complete_line : ∃ m rest m'',
    run (machineStep driver) (startProcesses 2) underWay = .ok m ∧ m.permits = 0 ∧
      run (machineStep driver) m rest = .ok m'' ∧ Quiet m'' ∧ m''.permits = 1 := by
  have hpermits := underWay_permits
  cases hrun : run (machineStep driver) (startProcesses 2) underWay with
  | error e =>
    rw [hrun] at hpermits
    cases hpermits
  | ok m =>
    rw [hrun] at hpermits
    obtain ⟨-, bound, hbound⟩ := calls_complete 2 underWay m hrun
    obtain ⟨-, rest, m'', -, hrest, hquiet, hfree⟩ := hbound [] m rfl (fun _ hl => nomatch hl)
    exact ⟨m, rest, m'', rfl, Option.some.inj hpermits, hrest, hquiet, hfree⟩

end System

end Aesd.Driver.Interleaving
