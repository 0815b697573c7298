/- Aesd/Driver/Session
   layer: system
   digest: Whole runs of driver calls: the stream law, and that no run ever faults. -/

import Aesd.Driver.ReadCorrect
import Aesd.Driver.WriteCorrect
import Aesd.Foundation.Run

set_option autoImplicit false
set_option relaxedAutoImplicit false

namespace Aesd.Driver.Session

open Aesd.Foundation.BlockHeap
open Aesd.Foundation.RecordLog
open Aesd.Foundation.Run
open Aesd.Driver.CircularBuffer
open Aesd.Driver.Device
open Aesd.Driver.LogRelation
open Aesd.Driver.ReadCorrect
open Aesd.Driver.WriteCorrect

variable {s : DriverState} {log : Log} {slots : List Slot} {lost : Set Nat}

section View

/-- What can be observed of a device: the bytes of the occupied slots from `outOffs` on, those of
the unfinished record, and the counter of evicted bytes. -/
structure View where
  records : List (List UInt8)
  pending : List UInt8
  evicted : Nat
  deriving DecidableEq, Repr

/-- The bytes of an entry. -/
def contents (m : Heap UInt8) (e : AesdBufferEntry) : Except Fault (List UInt8) :=
  m.load e.buffptr 0 e.size

def view (s : DriverState) : Except Fault View := do
  let records ← (ring s.dev).occupied.mapM (contents s.heap)
  let pending ← contents s.heap s.dev.currInput
  pure ⟨records, pending, s.dev.totalBytesEvicted⟩

/-- What is to be observed of a log. -/
def logView (log : Log) : View where
  records := log.retained maxWriteOperationsSupported
  pending := log.pending
  evicted := log.evicted maxWriteOperationsSupported

theorem contents_of_holds {m : Heap UInt8} {h : Nat} {bs : List UInt8} (hh : m.Holds h bs) :
    contents m ⟨.block h, bs.length⟩ = .ok bs := by
  have hwhole : m.Holds h ([] ++ bs ++ []) := by
    rw [List.nil_append, List.append_nil]
    exact hh
  exact Heap.load_eq hwhole rfl rfl

theorem mapM_contents {m : Heap UInt8} (slots : List Slot) (h : ∀ x ∈ slots, m.Holds x.1 x.2) :
    (slots.map slotEntry).mapM (contents m) = .ok (slots.map Prod.snd) := by
  induction slots with
  | nil => rfl
  | cons x slots ih =>
    have hx : contents m (slotEntry x) = .ok x.2 := contents_of_holds (h x List.mem_cons_self)
    have hrest := ih fun y hy => h y (List.mem_cons_of_mem x hy)
    rw [List.map_cons, List.mapM_cons, hx, hrest]
    rfl

/-- A device that stands for a log shows that log. -/
theorem view_eq (h : Represents s log slots lost) : view s = .ok (logView log) := by
  have hrecords : (ring s.dev).occupied.mapM (contents s.heap) =
      .ok (log.retained maxWriteOperationsSupported) := by
    rw [h.owns.occupied, mapM_contents slots h.owns.stored, h.owns.records]
  have hpending : contents s.heap s.dev.currInput = .ok log.pending := by
    unfold contents
    rw [h.pendingSize]
    by_cases hp : log.pending = []
    · rw [hp]
      exact Heap.load_zero _ _ _
    · have hne : log.pending ++ [] ≠ [] := by rwa [List.append_nil]
      obtain ⟨k, hbuf, hk⟩ := h.owns.buffer hne
      rw [List.append_nil] at hk
      rw [hbuf]
      exact contents_of_holds hk
  unfold view
  rw [hrecords, hpending, h.owns.evicted]
  rfl

/-- The whole of a device but for the addresses of its buffers. -/
structure Snapshot where
  view : View
  inOffs : Nat
  outOffs : Nat
  full : Bool
  deriving DecidableEq, Repr

def snapshot (s : DriverState) : Except Fault Snapshot := do
  let v ← view s
  pure ⟨v, s.dev.inOffs, s.dev.outOffs, s.dev.full⟩

def logSnapshot (log : Log) : Snapshot where
  view := logView log
  inOffs := log.records.length % maxWriteOperationsSupported
  outOffs := if log.records.length < maxWriteOperationsSupported then 0
    else log.records.length % maxWriteOperationsSupported
  full := decide (maxWriteOperationsSupported ≤ log.records.length)

theorem snapshot_eq (h : Represents s log slots lost) : snapshot s = .ok (logSnapshot log) := by
  have hin : s.dev.inOffs = log.records.length % maxWriteOperationsSupported := h.owns.inOffs
  have hout : s.dev.outOffs = if log.records.length < maxWriteOperationsSupported then 0
      else log.records.length % maxWriteOperationsSupported := h.owns.outOffs_eq
  have hfull : s.dev.full = decide (maxWriteOperationsSupported ≤ log.records.length) := by
    rw [Bool.eq_iff_iff, decide_eq_true_iff, ← Nat.not_lt]
    exact h.owns.full_iff
  unfold snapshot
  rw [view_eq h, hin, hout, hfull]
  rfl

end View

section Stream

/-- One `aesd_write` and the circumstances under which it runs. -/
structure WriteCall where
  env : WriteEnv
  payload : List UInt8

/-- A call on a device, and the stream accepted so far: the prefix of the payload that the call
reports, and nothing of it when the call fails. -/
def writeCall (st : DriverState × List UInt8) (call : WriteCall) :
    Except Fault (DriverState × List UInt8) := do
  let (r, s) ← aesdWrite call.env call.payload st.1
  pure (s, st.2 ++ call.payload.take r.toNat)

/-- The device stands for the log of the stream accepted so far. -/
def Accepted (st : DriverState × List UInt8) : Prop :=
  ∃ slots lost, Represents st.1 (accept Cut.empty st.2) slots lost

theorem accept_append (log : Log) (xs ys : List UInt8) :
    accept log (xs ++ ys) = accept (accept log xs) ys := Cut.feed_append isNewline log xs ys

theorem accepted_init : Accepted (aesdInitModule, []) := ⟨[], ∅, represents_init⟩

theorem writeCall_accepted {st : DriverState × List UInt8} (h : Accepted st) (call : WriteCall) :
    ∃ st', writeCall st call = .ok st' ∧ Accepted st' := by
  obtain ⟨slots, lost, h⟩ := h
  obtain ⟨r, s', slots', hrun, hrep, -⟩ := aesdWrite_spec h call.env call.payload
  refine ⟨(s', st.2 ++ call.payload.take r.toNat), ?_, slots',
    lostAfterWrite call.env call.payload st.1 lost, ?_⟩
  · unfold writeCall
    rw [hrun]
    rfl
  · rw [accept_append]
    exact hrep

theorem runWrites (calls : List WriteCall) :
    ∃ st, run writeCall (aesdInitModule, []) calls = .ok st ∧ Accepted st :=
  run_total (fun _ call h => writeCall_accepted h call) accepted_init calls

/-- The log of a stream is its decomposition into records and a rest without newline. -/
theorem accept_decomposition (stream : List UInt8) :
    stream = (accept Cut.empty stream).records.flatten ++ (accept Cut.empty stream).pending ∧
    (∀ r ∈ (accept Cut.empty stream).records, Cut.IsRecord isNewline r) ∧
    (∀ c ∈ (accept Cut.empty stream).pending, isNewline c = false) := by
  have hcut := @Cut.feed_flatten_append _ isNewline Cut.empty stream
  have hwell := (Cut.wellCut_empty isNewline).feed stream
  exact ⟨hcut.symm, hwell.records, hwell.pending⟩

/-- A call that fails shows the same device, and one that reports a count shows the device that a
complete write of that many bytes shows. A call that nothing fails in reports its whole payload. -/
theorem call_view (h : Represents s log slots lost) (env : WriteEnv) (payload : List UInt8) :
    ∃ r s', aesdWrite env payload s = .ok (r, s') ∧ r ≤ payload.length ∧
      ((∀ j, env.kmalloc j = true) → payload.length ≤ env.readable →
        s.dev.currInput.size + payload.length < kmallocLimit → r = payload.length) ∧
      (r < 0 → view s' = view s) ∧
      (0 ≤ r → ∀ env' : WriteEnv, (∀ j, env'.kmalloc j = true) → r.toNat ≤ env'.readable →
        ∃ s'', aesdWrite env' (payload.take r.toNat) s = .ok (r, s'') ∧ view s'' = view s') := by
  obtain ⟨r, s', slots', hrun, hrep, hret, hsmall, hwhole⟩ := aesdWrite_spec h env payload
  have hle : r ≤ payload.length := by
    rcases hret with ⟨rfl, -⟩ | rfl | ⟨n, hn, rfl⟩
    · exact le_trans (show -ENOMEM ≤ 0 by decide) (Int.natCast_nonneg _)
    · exact le_trans (show -EFAULT ≤ 0 by decide) (Int.natCast_nonneg _)
    · exact_mod_cast hn
  refine ⟨r, s', hrun, hle, hwhole, ?_, ?_⟩
  · intro hneg
    have hzero : r.toNat = 0 := Int.toNat_of_nonpos (Int.le_of_lt hneg)
    rw [hzero, List.take_zero] at hrep
    rw [view_eq h, view_eq hrep]
    rfl
  · intro hpos env' hok hread
    have hlen : (payload.take r.toNat).length = r.toNat := by
      rw [List.length_take]
      omega
    obtain ⟨r', s'', slots'', hrun', hrep', -, -, hall⟩ :=
      aesdWrite_spec h env' (payload.take r.toNat)
    have hfits := hsmall hpos
    have hr' : r' = r := by
      rw [hall hok (by omega) (by omega), hlen]
      exact Int.toNat_of_nonneg hpos
    subst hr'
    refine ⟨s'', hrun', ?_⟩
    rw [List.take_take, Nat.min_self] at hrep'
    rw [view_eq hrep, view_eq hrep']

/-- The stream law of the write path. Any sequence of writes on the fresh device completes, and
leaves the records of the accepted stream: the last ten in the ring, what follows the last newline
in the unfinished record, the length of the others in the counter. The device shows nothing else
of how the stream was cut into calls. A call accepts its whole payload if its allocations and its
copy succeed. A failed call changes nothing of this, and a call that reports a short count acts like
a complete write of that many bytes. The counter counts as the `size_t` of the source does as long
as fewer than 2^64 bytes have been given up. -/
theorem stream_law (calls : List WriteCall) :
    ∃ s stream, run writeCall (aesdInitModule, []) calls = .ok (s, stream) ∧
      (∃ (records : List (List UInt8)) (pending : List UInt8),
        stream = records.flatten ++ pending ∧ (∀ r ∈ records, Cut.IsRecord isNewline r) ∧
        (∀ c ∈ pending, isNewline c = false) ∧
        view s = .ok ⟨records.rtake maxWriteOperationsSupported, pending,
          (records.rdrop maxWriteOperationsSupported).flatten.length⟩) ∧
      (∀ calls' s', run writeCall (aesdInitModule, []) calls' = .ok (s', stream) →
        view s' = view s) ∧
      (∀ env payload, ∃ r s', aesdWrite env payload s = .ok (r, s') ∧ r ≤ payload.length ∧
        ((∀ j, env.kmalloc j = true) → payload.length ≤ env.readable →
          s.dev.currInput.size + payload.length < kmallocLimit → r = payload.length) ∧
        (r < 0 → view s' = view s) ∧
        (0 ≤ r → ∀ env' : WriteEnv, (∀ j, env'.kmalloc j = true) → r.toNat ≤ env'.readable →
          ∃ s'', aesdWrite env' (payload.take r.toNat) s = .ok (r, s'') ∧ view s'' = view s')) := by
  obtain ⟨⟨s, stream⟩, hrun, slots, lost, hrep⟩ := runWrites calls
  obtain ⟨hcut, hrecords, hpending⟩ := accept_decomposition stream
  refine ⟨s, stream, hrun, ⟨_, _, hcut, hrecords, hpending, view_eq hrep⟩, ?_,
    fun env payload => call_view hrep env payload⟩
  intro calls' s' hrun'
  obtain ⟨st, hst, slots', lost', hrep'⟩ := runWrites calls'
  rw [hrun'] at hst
  obtain rfl := Except.ok.inj hst
  rw [view_eq hrep, view_eq hrep']

end Stream

end Aesd.Driver.Session
