/- Aesd/Driver/Device
   layer: faithful model
   digest: The device record of aesdchar.h and the functions of main.c, over a heap with faults. -/

import Aesd.Driver.CircularBuffer
import Aesd.Foundation.BlockHeap

set_option autoImplicit false
set_option relaxedAutoImplicit false

namespace Aesd.Driver.Device

open Aesd.Foundation.BlockHeap
open Aesd.Driver.CircularBuffer

def ENOMEM : Int := 12

def EFAULT : Int := 14

def newline : UInt8 := 10

/-- `struct aesd_dev` without its `cdev` and its semaphore: `aesd_read` and `aesd_write` hold the
semaphore from entry to exit, so a call is one step. `totalBytesEvicted` does not wrap: it is the
`size_t` of the source as long as fewer than 2^64 bytes have been given up. -/
structure AesdDev where
  entry : Nat → AesdBufferEntry
  currInput : AesdBufferEntry
  outOffs : Nat
  inOffs : Nat
  totalBytesEvicted : Nat
  full : Bool

/-- The device together with the kernel heap its buffers live in. -/
structure DriverState where
  dev : AesdDev
  heap : Heap UInt8

section Kernel

/-- No architecture serves a `kmalloc` request of this size. -/
def kmallocLimit : Nat := 2 ^ 31

/-- `kmalloc(n, GFP_KERNEL)`: a request of zero bytes gives ZERO_SIZE_PTR, one that is too large
fails, any other fails when the environment says so. -/
def kmalloc (ok : Bool) (n : Nat) (m : Heap UInt8) : Ptr × Heap UInt8 :=
  if n = 0 then (.zeroSize, m)
  else if ok = true ∧ n < kmallocLimit then (.block m.next, m.alloc n)
  else (.null, m)

theorem kmalloc_cases (ok : Bool) (n : Nat) (m : Heap UInt8) :
    (n = 0 ∧ kmalloc ok n m = (.zeroSize, m)) ∨
    (0 < n ∧ (ok = true ∧ n < kmallocLimit) ∧ kmalloc ok n m = (.block m.next, m.alloc n)) ∨
    (0 < n ∧ ¬(ok = true ∧ n < kmallocLimit) ∧ kmalloc ok n m = (.null, m)) := by
  by_cases hn : n = 0
  · exact .inl ⟨hn, by simp [kmalloc, hn]⟩
  · by_cases hok : ok = true ∧ n < kmallocLimit
    · exact .inr (.inl ⟨by omega, hok, by simp [kmalloc, hn, hok]⟩)
    · exact .inr (.inr ⟨by omega, hok, by rw [kmalloc, if_neg hn, if_neg hok]⟩)

/-- `copy_from_user` from a user buffer of which only the first `readable` bytes can be read; the
rest of the target is zeroed. The result is the number of bytes not copied. -/
def copyFromUser (m : Heap UInt8) (dst : Ptr) (off : Nat) (buf : List UInt8) (readable : Nat) :
    Except Fault (Nat × Heap UInt8) := do
  let missing := buf.length - readable
  let m ← m.writeCells dst off ((buf.take readable ++ List.replicate missing 0).map some)
  pure (missing, m)

/-- `copy_to_user` to a user buffer of which only the first `writable` bytes can be written. The
result is the number of bytes not copied and what the user's buffer received. -/
def copyToUser (m : Heap UInt8) (src : Ptr) (n writable : Nat) :
    Except Fault (Nat × List UInt8) := do
  let bytes ← m.load src 0 n
  pure (n - writable, bytes.take writable)

/-- What the kernel does to one `aesd_write`: the outcome of the first `kmalloc`, of the one at
each loop index `i` (as number `i + 1`), and how much of the user's buffer can be read. -/
structure WriteEnv where
  kmalloc : Nat → Bool
  readable : Nat

/-- What the kernel does to one `aesd_read`. -/
structure ReadEnv where
  kmalloc : Bool
  writable : Nat

end Kernel

section Helpers

/-- The index found, or `maxWriteOperationsSupported`, with `*entry_offset_byte_rtn` afterwards. -/
def aesdDevFindEntryOffsetForFpos (buffer : AesdDev) (charOffset entryOffsetByteRtn : Nat) :
    Nat × Nat :=
  if charOffset < buffer.totalBytesEvicted then (maxWriteOperationsSupported, entryOffsetByteRtn)
  else
    match findLoop buffer.entry buffer.outOffs (charOffset - buffer.totalBytesEvicted)
      entryOffsetByteRtn (numEntries buffer.inOffs buffer.outOffs buffer.full) 0 0 with
    | (some currIndex, rtn) => (currIndex, rtn)
    | (none, rtn) => (maxWriteOperationsSupported, rtn)

def aesdDevAddEntry (buffer : AesdDev) (addEntry : AesdBufferEntry) : AesdDev :=
  let writeIndex := buffer.inOffs
  let newWriteIndex := (writeIndex + 1) % maxWriteOperationsSupported
  let buffer := { buffer with
    entry := Function.update buffer.entry writeIndex addEntry
    inOffs := newWriteIndex }
  if buffer.full then { buffer with outOffs := newWriteIndex }
  else if newWriteIndex = buffer.outOffs then { buffer with full := true }
  else buffer

/-- The walk over a ring that is not full. A ring whose offsets name slots needs fewer rounds
than there are slots. -/
def freeWalk (entry : Nat → AesdBufferEntry) (inOffs : Nat) :
    (rounds i : Nat) → Heap UInt8 → Except Fault (Heap UInt8)
  | 0, _, _ => .error .diverged
  | rounds + 1, i, m =>
    if i = inOffs then .ok m
    else do
      let m ← m.free (entry i).buffptr
      freeWalk entry inOffs rounds ((i + 1) % maxWriteOperationsSupported) m

/-- The loop over all slots of a full ring, from slot `i` on. -/
def freeSlots (entry : Nat → AesdBufferEntry) :
    (left i : Nat) → Heap UInt8 → Except Fault (Heap UInt8)
  | 0, _, m => .ok m
  | left + 1, i, m => do
    let m ← m.free (entry i).buffptr
    freeSlots entry left (i + 1) m

def freeAllAesdDevBuffer (buffer : AesdDev) (m : Heap UInt8) : Except Fault (Heap UInt8) := do
  let m ←
    if buffer.full then freeSlots buffer.entry maxWriteOperationsSupported 0 m
    else freeWalk buffer.entry buffer.inOffs maxWriteOperationsSupported buffer.outOffs m
  m.free buffer.currInput.buffptr

end Helpers

section Module

/-- The device as `aesd_init_module` leaves it. -/
def aesdInitModule : DriverState where
  dev :=
    { entry := fun _ => ⟨.null, 0⟩
      currInput := ⟨.null, 0⟩
      outOffs := 0
      inOffs := 0
      totalBytesEvicted := 0
      full := false }
  heap := Heap.empty

/-- The heap that `aesd_cleanup_module` leaves. -/
def aesdCleanupModule (s : DriverState) : Except Fault (Heap UInt8) :=
  freeAllAesdDevBuffer s.dev s.heap

end Module

section Write

/-- The newline branch of `aesd_write` up to and including the commit of the entry: when the ring
is full, the oldest entry is accounted for and freed first. -/
def commitEntry (s : DriverState) (newBuf : Ptr) (currSize : Nat) :
    Except Fault DriverState := do
  let dev := s.dev
  let newDevInOffs := (dev.inOffs + 1) % maxWriteOperationsSupported
  let s ←
    if dev.full then do
      let heap ← s.heap.free (dev.entry dev.outOffs).buffptr
      pure { dev := { dev with
               totalBytesEvicted := dev.totalBytesEvicted + (dev.entry dev.outOffs).size
               outOffs := (dev.outOffs + 1) % maxWriteOperationsSupported }
             heap := heap : DriverState }
    else if newDevInOffs = dev.outOffs then
      pure { s with dev := { dev with full := true } }
    else pure s
  pure { s with dev := { s.dev with
    entry := Function.update s.dev.entry s.dev.inOffs ⟨newBuf, currSize + 1⟩
    inOffs := newDevInOffs } }

/-- The bytes after the newline move to the buffer that takes over, if there are any. -/
def copyRemaining (newBuf oldBuf : Ptr) (currSize remaining : Nat) (m : Heap UInt8) :
    Except Fault (Heap UInt8) :=
  if remaining > 0 then m.memcpy newBuf 0 oldBuf (currSize + 1) remaining else pure m

/-- The byte loop of `aesd_write` at loop index `i`, with `left = count - i` rounds to go. Once the
first `kmalloc` succeeded `count` is below `kmallocLimit`, so the `int` counter does not wrap. -/
def aesdWriteLoop (env : WriteEnv) (count : Nat) :
    (left i currSize : Nat) → (newBuf : Ptr) → DriverState → Except Fault (Int × DriverState)
  | 0, _, currSize, newBuf, s =>
    .ok ((count : Int), { s with dev := { s.dev with currInput := ⟨newBuf, currSize⟩ } })
  | left + 1, i, currSize, newBuf, s => do
    let c ← s.heap.load newBuf currSize 1
    if c = [newline] then do
      let s ← commitEntry s newBuf currSize
      let remaining ← checkedSub count i
      let remaining ← checkedSub remaining 1
      let oldBuf := newBuf
      let (newBuf, heap) := kmalloc (env.kmalloc (i + 1)) (remaining + 1) s.heap
      if newBuf = .null then
        pure (((i + 1 : Nat) : Int), { dev := { s.dev with currInput := ⟨.null, 0⟩ }, heap := heap })
      else do
        let heap ← copyRemaining newBuf oldBuf currSize remaining heap
        aesdWriteLoop env count left (i + 1) 0 newBuf
          { dev := { s.dev with currInput := ⟨newBuf, remaining⟩ }, heap := heap }
    else aesdWriteLoop env count left (i + 1) (currSize + 1) newBuf s

/-- The unfinished record moves to the new buffer and the old buffer is freed, both only if there
is an unfinished record. -/
def moveCurrInput (dev : AesdDev) (newBuf : Ptr) (m : Heap UInt8) : Except Fault (Heap UInt8) :=
  if dev.currInput.size ≠ 0 then do
    let m ← m.memcpy newBuf 0 dev.currInput.buffptr 0 dev.currInput.size
    m.free dev.currInput.buffptr
  else pure m

/-- `aesd_write` of the user's bytes `buf`, with `count` their number. -/
def aesdWrite (env : WriteEnv) (buf : List UInt8) (s : DriverState) :
    Except Fault (Int × DriverState) := do
  let count := buf.length
  let currSize := s.dev.currInput.size
  let newBufsize := currSize + count
  let (newBuf, heap) := kmalloc (env.kmalloc 0) newBufsize s.heap
  if newBuf = .null then pure (-ENOMEM, { s with heap := heap })
  else do
    let heap ← moveCurrInput s.dev newBuf heap
    let dev := { s.dev with currInput := { s.dev.currInput with buffptr := newBuf } }
    let (missing, heap) ← copyFromUser heap newBuf currSize buf env.readable
    if missing ≠ 0 then pure (-EFAULT, { dev := dev, heap := heap })
    else aesdWriteLoop env count count 0 currSize newBuf { dev := dev, heap := heap }

end Write

section Read

/-- The entries from `buf_index` to the newest one, counted as `aesd_read` counts them. -/
def totalEntries (dev : AesdDev) (bufIndex : Nat) : Nat :=
  if dev.full = true ∧ bufIndex = dev.inOffs then maxWriteOperationsSupported
  else toUint8 (((dev.inOffs : Int) - bufIndex + maxWriteOperationsSupported).tmod
    maxWriteOperationsSupported)

/-- The copy loop of `aesd_read` with `left = total_entries - entries_read`. The result is
`bytes_read` and the heap when control reaches `copy_to_userspace`; with no entry left every one
of the loop's tests leads there. -/
def aesdReadLoop (dev : AesdDev) (kernelBuf : Ptr) (count : Nat) :
    (left bufIndex startCharIndex bytesRead : Nat) → Heap UInt8 → Except Fault (Nat × Heap UInt8)
  | 0, _, _, bytesRead, m => .ok (bytesRead, m)
  | left + 1, bufIndex, startCharIndex, bytesRead, m =>
    if bytesRead < count then
      if bufIndex = dev.inOffs ∧ dev.full = false then .ok (bytesRead, m)
      else do
        let entry := dev.entry bufIndex
        let bytesLeftCurrEntry ← checkedSub entry.size startCharIndex
        if bytesRead + bytesLeftCurrEntry > count then do
          let part ← checkedSub count bytesRead
          let m ← m.memcpy kernelBuf bytesRead entry.buffptr startCharIndex part
          pure (count, m)
        else do
          let m ← m.memcpy kernelBuf bytesRead entry.buffptr startCharIndex bytesLeftCurrEntry
          if bytesRead + bytesLeftCurrEntry = count then pure (count, m)
          else
            aesdReadLoop dev kernelBuf count left ((bufIndex + 1) % maxWriteOperationsSupported) 0
              (bytesRead + bytesLeftCurrEntry) m
    else .ok (bytesRead, m)

/-- What one `aesd_read` returns, `*f_pos` after it, and what the user's buffer received. -/
structure ReadResult where
  ret : Int
  fPos : Nat
  user : List UInt8
  state : DriverState

def aesdRead (env : ReadEnv) (count fPos : Nat) (s : DriverState) : Except Fault ReadResult := do
  let dev := s.dev
  let fPos := if fPos < dev.totalBytesEvicted then dev.totalBytesEvicted else fPos
  let (kernelBuf, heap) := kmalloc env.kmalloc count s.heap
  if kernelBuf = .null then do
    let heap ← heap.free kernelBuf
    pure ⟨-ENOMEM, fPos, [], { s with heap := heap }⟩
  else do
    let (bufIndex, startCharIndex) := aesdDevFindEntryOffsetForFpos dev fPos 0
    if bufIndex = maxWriteOperationsSupported then do
      let heap ← heap.free kernelBuf
      pure ⟨0, fPos, [], { s with heap := heap }⟩
    else do
      let (bytesRead, heap) ← aesdReadLoop dev kernelBuf count (totalEntries dev bufIndex)
        bufIndex startCharIndex 0 heap
      let (missing, user) ← copyToUser heap kernelBuf bytesRead env.writable
      let retval := if missing ≠ 0 then -EFAULT else (bytesRead : Int)
      let heap ← heap.free kernelBuf
      pure ⟨retval, fPos + bytesRead, user, { s with heap := heap }⟩

end Read

end Aesd.Driver.Device
