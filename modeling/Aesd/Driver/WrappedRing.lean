/- Aesd/Driver/WrappedRing
   layer: refinement
   digest: The lookup on every well-formed ring, where the occupied slots may wrap. -/

import Aesd.Driver.Ownership
import Aesd.Driver.RingRefinement

set_option autoImplicit false
set_option relaxedAutoImplicit false

namespace Aesd.Driver.WrappedRing

open Aesd.Foundation.BlockHeap
open Aesd.Foundation.SegmentLookup
open Aesd.Driver.CircularBuffer
open Aesd.Driver.Device
open Aesd.Driver.LogRelation
open Aesd.Driver.ReadCorrect
open Aesd.Driver.Ownership
open Aesd.Driver.RingRefinement

section Walk

/-- A negative remainder stored in a `uint8_t` is larger by the 246 that 256 exceeds 10 by. -/
theorem numEntries_wrapped {b : AesdCircularBuffer} (h : b.WellFormed) (hf : b.full = false)
    (hlt : b.inOffs < b.outOffs) :
    numEntries b.inOffs b.outOffs b.full = b.count + 246 := by
  have hout := h.outOffs_lt
  simp only [maxWriteOperationsSupported] at hout
  have hrem : ((b.inOffs : Int) - b.outOffs).tmod (10 : Nat) = b.inOffs - b.outOffs := by
    have hneg : (b.inOffs : Int) - b.outOffs = -((b.outOffs - b.inOffs : Nat) : Int) := by omega
    rw [hneg, Int.neg_tmod, ← Int.ofNat_tmod, Nat.mod_eq_of_lt (by omega)]
  simp only [numEntries, AesdCircularBuffer.count, hf, maxWriteOperationsSupported, hrem, toUint8,
    Bool.false_eq_true, if_false]
  omega

/-- The sizes of the `len` slots from `start` on. -/
def slotSizes (entry : Nat → AesdBufferEntry) (start len : Nat) : List Nat :=
  (window entry maxWriteOperationsSupported start len).map AesdBufferEntry.size

theorem slotSizes_sum_concat (entry : Nat → AesdBufferEntry) (start len : Nat) :
    (slotSizes entry start (len + 1)).sum =
      (slotSizes entry start len).sum +
        (entry ((start + len) % maxWriteOperationsSupported)).size := by
  rw [slotSizes, window_concat, List.map_append, List.sum_append]
  rfl

/-- Running totals only grow until they wrap. -/
theorem slotSizes_sum_mono (entry : Nat → AesdBufferEntry) (start : Nat) {len len' : Nat}
    (h : len ≤ len') : (slotSizes entry start len).sum ≤ (slotSizes entry start len').sum := by
  induction len', h using Nat.le_induction with
  | base => exact le_rfl
  | succ len' _ ih =>
    rw [slotSizes_sum_concat]
    exact Nat.le_trans ih (Nat.le_add_right _ _)

/-- A walk that finds nothing leaves the offset variable alone. -/
theorem findLoop_none {entry : Nat → AesdBufferEntry} {readIndex charOffset rtn n i count : Nat}
    (h : (findLoop entry readIndex charOffset rtn n i count).1 = none) :
    findLoop entry readIndex charOffset rtn n i count = (none, rtn) := by
  induction n generalizing i count with
  | zero => rfl
  | succ n ih =>
    rw [findLoop] at h
    split_ifs at h with hfound
    rw [findLoop, if_neg hfound]
    exact ih h

/-- A walk finds nothing if and only if none of its running totals exceeds the offset. -/
theorem findLoop_none_iff {entry : Nat → AesdBufferEntry}
    {readIndex charOffset rtn n i count : Nat} :
    (findLoop entry readIndex charOffset rtn n i count).1 = none ↔
      ∀ len < n, (count + (slotSizes entry (readIndex + i) (len + 1)).sum) % 2 ^ 64 ≤
        charOffset := by
  induction n generalizing i count with
  | zero =>
    constructor
    · intro _ len hlen
      exact absurd hlen (Nat.not_lt_zero len)
    · exact fun _ => rfl
  | succ n ih =>
    have hcons : ∀ len, (slotSizes entry (readIndex + i) (len + 1)).sum =
        (entry ((readIndex + i) % maxWriteOperationsSupported)).size +
          (slotSizes entry (readIndex + (i + 1)) len).sum := by
      intro len
      rw [slotSizes, window_cons, List.map_cons, List.sum_cons]
      rfl
    have hnext : ∀ len,
        (sizeAdd count (entry ((readIndex + i) % maxWriteOperationsSupported)).size +
          (slotSizes entry (readIndex + (i + 1)) len).sum) % 2 ^ 64 =
        (count + (slotSizes entry (readIndex + i) (len + 1)).sum) % 2 ^ 64 := by
      intro len
      rw [hcons, sizeAdd, Nat.mod_add_mod, Nat.add_assoc]
    have hfirst : sizeAdd count (entry ((readIndex + i) % maxWriteOperationsSupported)).size =
        (count + (slotSizes entry (readIndex + i) 1).sum) % 2 ^ 64 := by
      rw [hcons]
      rfl
    rw [findLoop]
    split_ifs with hfound
    · constructor
      · intro h
        cases h
      · intro hall
        have hle := hall 0 (Nat.succ_pos n)
        rw [← hfirst] at hle
        omega
    · rw [ih]
      constructor
      · intro hall len hlen
        cases len with
        | zero =>
          rw [← hfirst]
          omega
        | succ len =>
          rw [← hnext]
          exact hall len (by omega)
      · intro hall len hlen
        rw [hnext]
        exact hall (len + 1) (by omega)

/-- A longer walk finds what a shorter one finds. -/
theorem findLoop_extend {entry : Nat → AesdBufferEntry}
    {readIndex charOffset rtn n i count slot k : Nat} (extra : Nat)
    (h : findLoop entry readIndex charOffset rtn n i count = (some slot, k)) :
    findLoop entry readIndex charOffset rtn (n + extra) i count = (some slot, k) := by
  induction n generalizing i count with
  | zero => cases h
  | succ n ih =>
    rw [Nat.add_right_comm, findLoop]
    rw [findLoop] at h
    split_ifs at h ⊢ with hfound
    · exact h
    · exact ih h

end Walk

section Lookup

/-- The lookup as its callers mean it: the occupied slots are walked from `outOffs` up to but
excluding `inOffs`, all ten when full. -/
def occupiedLookup (b : AesdCircularBuffer) (charOffset rtn : Nat) : Option Nat × Nat :=
  AesdCircularBuffer.located b.outOffs rtn (locate b.sizes charOffset)

/-- The driver's lookup reports a slot by its number and NULL by the number of slots. -/
def slotOrEnd (result : Option Nat × Nat) : Nat × Nat :=
  (result.1.getD maxWriteOperationsSupported, result.2)

/-- The same for the driver's own lookup, relative to the evicted bytes. -/
def devOccupiedLookup (dev : AesdDev) (charOffset rtn : Nat) : Nat × Nat :=
  if charOffset < dev.totalBytesEvicted then (maxWriteOperationsSupported, rtn)
  else slotOrEnd (occupiedLookup (ring dev) (charOffset - dev.totalBytesEvicted) rtn)

/-- The lookup does not walk past the occupied slots, or no running total it has there exceeds the
offset. Past the last occupied slot it walks 246 further ones, from `inOffs` on. -/
def Harmless (b : AesdCircularBuffer) (charOffset : Nat) : Prop :=
  b.full = true ∨ b.outOffs ≤ b.inOffs ∨ charOffset < b.sizes.sum ∨
    ∀ len ≤ 246, (b.sizes.sum + (slotSizes b.entry b.inOffs len).sum) % 2 ^ 64 ≤ charOffset

variable {b : AesdCircularBuffer}

theorem sizes_eq (b : AesdCircularBuffer) : b.sizes = slotSizes b.entry b.outOffs b.count := rfl

/-- A walk over exactly the occupied slots is the intended lookup. -/
theorem findLoop_count (hsum : b.sizes.sum < 2 ^ 64) (charOffset rtn : Nat) :
    findLoop b.entry b.outOffs charOffset rtn b.count 0 0 = occupiedLookup b charOffset rtn := by
  have hwindow : 0 + ((window b.entry maxWriteOperationsSupported (b.outOffs + 0) b.count).map
      AesdBufferEntry.size).sum < 2 ^ 64 := by
    rw [Nat.zero_add]
    exact hsum
  exact AesdCircularBuffer.findLoop_eq _ _ _ _ _ _ _ (Nat.zero_le _) hwindow

/-- The sizes of the occupied slots and of some further ones. -/
theorem sum_past_occupied (h : b.WellFormed) (hf : b.full = false) (len : Nat) :
    (slotSizes b.entry b.outOffs (b.count + len)).sum =
      b.sizes.sum + (slotSizes b.entry b.inOffs len).sum := by
  induction len with
  | zero => rfl
  | succ len ih =>
    have hslot : (b.outOffs + (b.count + len)) % maxWriteOperationsSupported =
        (b.inOffs + len) % maxWriteOperationsSupported := by
      rw [← h.slot_count hf, Nat.mod_add_mod, Nat.add_assoc]
    rw [← Nat.add_assoc, slotSizes_sum_concat, slotSizes_sum_concat, hslot, ih,
      Nat.add_assoc]

/-- On a wrapped ring the lookup is right for an offset past the occupied slots exactly when none
of the running totals of its further rounds exceeds that offset. -/
theorem wrapped_find_iff (h : b.WellFormed) (hsum : b.sizes.sum < 2 ^ 64) (hf : b.full = false)
    (hlt : b.inOffs < b.outOffs) {charOffset : Nat} (hpast : b.sizes.sum ≤ charOffset)
    (rtn : Nat) :
    aesdCircularBufferFindEntryOffsetForFpos b charOffset rtn = (none, rtn) ↔
      ∀ len ≤ 246, (b.sizes.sum + (slotSizes b.entry b.inOffs len).sum) % 2 ^ 64 ≤ charOffset := by
  have hiff : aesdCircularBufferFindEntryOffsetForFpos b charOffset rtn = (none, rtn) ↔
      ∀ len < b.count + 246,
        (0 + (slotSizes b.entry (b.outOffs + 0) (len + 1)).sum) % 2 ^ 64 ≤ charOffset := by
    rw [aesdCircularBufferFindEntryOffsetForFpos, numEntries_wrapped h hf hlt, ← findLoop_none_iff]
    constructor
    · intro he
      rw [he]
    · exact findLoop_none
  simp only [Nat.zero_add, Nat.add_zero] at hiff
  rw [hiff]
  constructor
  · intro hall len hlen
    cases len with
    | zero =>
      have hzero : (slotSizes b.entry b.inOffs 0).sum = 0 := rfl
      rw [hzero, Nat.add_zero, Nat.mod_eq_of_lt hsum]
      exact hpast
    | succ len =>
      rw [← sum_past_occupied h hf]
      exact hall (b.count + len) (by omega)
  · intro hall len hlen
    by_cases hoccupied : len < b.count
    · have hle := slotSizes_sum_mono b.entry b.outOffs (show len + 1 ≤ b.count by omega)
      rw [← sizes_eq] at hle
      rw [Nat.mod_eq_of_lt (by omega)]
      omega
    · obtain ⟨extra, rfl⟩ : ∃ extra, len = b.count + extra := ⟨len - b.count, by omega⟩
      rw [Nat.add_assoc, sum_past_occupied h hf]
      exact hall (extra + 1) (by omega)

/-- The lookup is right on a well-formed ring exactly where its overrun is harmless. -/
theorem find_iff (h : b.WellFormed) (hsum : b.sizes.sum < 2 ^ 64) (charOffset rtn : Nat) :
    aesdCircularBufferFindEntryOffsetForFpos b charOffset rtn = occupiedLookup b charOffset rtn ↔
      Harmless b charOffset := by
  by_cases hstraight : b.full = true ∨ b.outOffs ≤ b.inOffs
  · have hright : aesdCircularBufferFindEntryOffsetForFpos b charOffset rtn =
        occupiedLookup b charOffset rtn := by
      rw [aesdCircularBufferFindEntryOffsetForFpos, h.numEntries_eq hstraight,
        findLoop_count hsum]
    apply iff_of_true hright
    rcases hstraight with hf | hle
    · exact .inl hf
    · exact .inr (.inl hle)
  · have hf : b.full = false := by
      rw [← Bool.not_eq_true]
      exact fun hf => hstraight (.inl hf)
    have hlt : b.inOffs < b.outOffs := by
      rw [← Nat.not_le]
      exact fun hle => hstraight (.inr hle)
    by_cases hoff : charOffset < b.sizes.sum
    · apply iff_of_true _ (.inr (.inr (.inl hoff)))
      have hcount := findLoop_count hsum charOffset rtn
      cases hloc : locate b.sizes charOffset with
      | none =>
        rw [locate_eq_none_iff] at hloc
        omega
      | some q =>
        have hfound : occupiedLookup b charOffset rtn =
            (some ((b.outOffs + q.1) % maxWriteOperationsSupported), q.2) := by
          rw [occupiedLookup, hloc]
          rfl
        rw [hfound] at hcount ⊢
        rw [aesdCircularBufferFindEntryOffsetForFpos, numEntries_wrapped h hf hlt]
        exact findLoop_extend 246 hcount
    · have hpast : b.sizes.sum ≤ charOffset := Nat.le_of_not_lt hoff
      have hnone : occupiedLookup b charOffset rtn = (none, rtn) := by
        rw [occupiedLookup, locate_eq_none_iff.mpr hpast]
        rfl
      rw [hnone, wrapped_find_iff h hsum hf hlt hpast]
      constructor
      · exact fun hall => .inr (.inr (.inr hall))
      · rintro (ht | hle | hin | hall)
        · exact absurd (.inl ht) hstraight
        · exact absurd (.inr hle) hstraight
        · exact absurd hin hoff
        · exact hall

theorem occupiedLookup_none_iff (b : AesdCircularBuffer) (charOffset rtn : Nat) :
    (occupiedLookup b charOffset rtn).1 = none ↔ b.sizes.sum ≤ charOffset := by
  rw [← locate_eq_none_iff, occupiedLookup]
  cases locate b.sizes charOffset with
  | none => exact iff_of_true rfl rfl
  | some q =>
    constructor
    · intro h
      cases h
    · intro h
      cases h

theorem occupiedLookup_slot_lt {charOffset rtn slot k : Nat}
    (h : occupiedLookup b charOffset rtn = (some slot, k)) : slot < maxWriteOperationsSupported := by
  rw [occupiedLookup] at h
  cases hloc : locate b.sizes charOffset with
  | none =>
    rw [hloc] at h
    cases h
  | some q =>
    rw [hloc] at h
    obtain ⟨hslot, -⟩ := Prod.mk.inj h
    rw [← Option.some.inj hslot]
    exact Nat.mod_lt _ (by decide)

theorem slotOrEnd_inj {x y : Option Nat × Nat}
    (hx : ∀ slot ∈ x.1, slot < maxWriteOperationsSupported)
    (hy : ∀ slot ∈ y.1, slot < maxWriteOperationsSupported) :
    slotOrEnd x = slotOrEnd y ↔ x = y := by
  obtain ⟨x, k⟩ := x
  obtain ⟨y, k'⟩ := y
  rw [slotOrEnd, slotOrEnd, Prod.mk.injEq, Prod.mk.injEq]
  apply and_congr_left'
  cases x with
  | none =>
    cases y with
    | none => exact iff_of_true rfl rfl
    | some slot' =>
      have hlt := hy slot' rfl
      constructor
      · intro he
        exact absurd he (Nat.ne_of_gt hlt)
      · intro he
        cases he
  | some slot =>
    have hlt := hx slot rfl
    cases y with
    | none =>
      constructor
      · intro he
        exact absurd he (Nat.ne_of_lt hlt)
      · intro he
        cases he
    | some slot' =>
      constructor
      · exact congrArg some
      · exact Option.some.inj

/-- The driver's lookup is right wherever that of the circular buffer module is, and below the
evicted bytes. -/
theorem devFind_iff {dev : AesdDev} (h : (ring dev).WellFormed)
    (hsum : (ring dev).sizes.sum < 2 ^ 64) (charOffset rtn : Nat) :
    aesdDevFindEntryOffsetForFpos dev charOffset rtn = devOccupiedLookup dev charOffset rtn ↔
      charOffset < dev.totalBytesEvicted ∨
        Harmless (ring dev) (charOffset - dev.totalBytesEvicted) := by
  by_cases hlt : charOffset < dev.totalBytesEvicted
  · have hright : aesdDevFindEntryOffsetForFpos dev charOffset rtn =
        devOccupiedLookup dev charOffset rtn := by
      rw [aesdDevFindEntryOffsetForFpos, devOccupiedLookup, if_pos hlt, if_pos hlt]
    exact iff_of_true hright (.inl hlt)
  · have hdev : aesdDevFindEntryOffsetForFpos dev charOffset rtn =
        slotOrEnd (aesdCircularBufferFindEntryOffsetForFpos (ring dev)
          (charOffset - dev.totalBytesEvicted) rtn) := by
      rw [aesdDevFindEntryOffsetForFpos, if_neg hlt, aesdCircularBufferFindEntryOffsetForFpos,
        slotOrEnd]
      rcases hfind : findLoop dev.entry dev.outOffs (charOffset - dev.totalBytesEvicted) rtn
          (numEntries dev.inOffs dev.outOffs dev.full) 0 0 with ⟨_ | slot, k⟩
      · rw [ring, hfind]
        rfl
      · rw [ring, hfind]
        rfl
    rw [hdev, devOccupiedLookup, if_neg hlt, slotOrEnd_inj, find_iff h hsum, or_iff_right hlt]
    · intro slot hslot
      exact findLoop_slot_lt (Prod.ext hslot rfl)
    · intro slot hslot
      exact occupiedLookup_slot_lt (Prod.ext hslot rfl)

end Lookup

section Law

/-- The lookup on every well-formed ring. Both lookups return the slot and byte that walking the
occupied slots finds if and only if the ring is full, its occupied region does not wrap, the
offset lies in that region, or no running total of the 246 further rounds exceeds the offset. The
entry count of a read and the walk of the cleanup use the occupied region on every such ring. -/
theorem lookup_right_iff {b : AesdCircularBuffer} (h : b.WellFormed)
    (hsum : b.sizes.sum < 2 ^ 64) :
    (∀ charOffset rtn, (occupiedLookup b charOffset rtn).1 = none ↔ b.sizes.sum ≤ charOffset) ∧
    (∀ charOffset rtn,
      aesdCircularBufferFindEntryOffsetForFpos b charOffset rtn = occupiedLookup b charOffset rtn ↔
        Harmless b charOffset) ∧
    (∀ dev, ring dev = b → ∀ charOffset rtn,
      aesdDevFindEntryOffsetForFpos dev charOffset rtn = devOccupiedLookup dev charOffset rtn ↔
        charOffset < dev.totalBytesEvicted ∨ Harmless b (charOffset - dev.totalBytesEvicted)) ∧
    (∀ dev, ring dev = b →
      (∀ j < b.count, totalEntries dev ((b.outOffs + j) % maxWriteOperationsSupported) =
        b.count - j) ∧
      ∀ m, ∃ ps, List.Perm ps (b.occupied.map AesdBufferEntry.buffptr) ∧
        freeAllAesdDevBuffer dev m = Heap.freeList (ps ++ [dev.currInput.buffptr]) m) := by
  refine ⟨occupiedLookup_none_iff b, find_iff h hsum, ?_, ?_⟩
  · rintro dev rfl
    exact devFind_iff h hsum
  · rintro dev rfl
    constructor
    · intro j hj
      exact totalEntries_eq h hj
    · exact freeAll_eq h

/-- One entry in the last slot, with entries of size one left in all others. -/
def wrappedRing : AesdCircularBuffer := ⟨fun i => ⟨.block i, 1⟩, 0, 9, false⟩

theorem wrappedRing_wellFormed : wrappedRing.WellFormed where
  inOffs_lt := by decide
  outOffs_lt := by decide
  offs_eq := by decide

theorem lookup_right_iff_wrapped :
    wrappedRing.sizes.sum < 2 ^ 64 ∧ ∀ rtn,
      (aesdCircularBufferFindEntryOffsetForFpos wrappedRing 0 rtn =
        occupiedLookup wrappedRing 0 rtn ↔ Harmless wrappedRing 0) :=
  ⟨by decide, (lookup_right_iff wrappedRing_wellFormed (by decide)).2.1 0⟩

/-- Past the only entry, the lookup finds the slot to be written next. -/
theorem lookup_overruns :
    wrappedRing.WellFormed ∧ wrappedRing.sizes.sum = 1 ∧
      occupiedLookup wrappedRing 1 0 = (none, 0) ∧
      aesdCircularBufferFindEntryOffsetForFpos wrappedRing 1 0 = (some 0, 0) :=
  ⟨wrappedRing_wellFormed, by decide⟩

end Law

end Aesd.Driver.WrappedRing
