/- Aesd/Driver/LogRelation
   layer: refinement
   digest: When a device and its heap stand for a log of records, and what every log state owns. -/

import Aesd.Driver.Device
import Aesd.Foundation.RecordLog
import Mathlib.Algebra.Order.BigOperators.Group.List
import Mathlib.Algebra.Order.Ring.Nat
import Mathlib.Algebra.Group.Action.Defs

set_option autoImplicit false
set_option relaxedAutoImplicit false

namespace Aesd.Driver.LogRelation

open Aesd.Foundation.BlockHeap
open Aesd.Foundation.RecordLog
open Aesd.Driver.CircularBuffer
open Aesd.Driver.Device

/-- The abstract device: the records committed so far and the unfinished one. -/
abbrev Log := Cut UInt8

def isNewline (c : UInt8) : Bool := c == newline

/-- Accept further bytes of the stream. -/
def accept (log : Log) (bytes : List UInt8) : Log := log.feed isNewline bytes

/-- The device's own ring as a circular buffer. -/
def ring (dev : AesdDev) : AesdCircularBuffer := ⟨dev.entry, dev.inOffs, dev.outOffs, dev.full⟩

/-- An occupied slot: the block it owns and the record stored there. -/
abbrev Slot := Nat × List UInt8

def slotEntry (x : Slot) : AesdBufferEntry := ⟨.block x.1, x.2.length⟩

/-- The ring `b`, the counter `total` and the heap `m` stand for a log whose unfinished record is
in the buffer `p`, followed there by the bytes `rest`. The live blocks are those of the slots,
that of `p` and those in `lost`, which nothing points to. -/
structure Owns (b : AesdCircularBuffer) (total : Nat) (m : Heap UInt8) (log : Log)
    (slots : List Slot) (lost : Set Nat) (p : Ptr) (rest : List UInt8) : Prop where
  grown : b.Grown
  inOffs : b.inOffs = log.records.length % maxWriteOperationsSupported
  occupied : b.occupied = slots.map slotEntry
  records : slots.map Prod.snd = log.retained maxWriteOperationsSupported
  evicted : total = log.evicted maxWriteOperationsSupported
  wellCut : log.WellCut isNewline
  stored : ∀ x ∈ slots, m.Holds x.1 x.2
  small : ∀ x ∈ slots, x.2.length < kmallocLimit
  buffer : log.pending ++ rest ≠ [] → ∃ h, p = .block h ∧ m.Holds h (log.pending ++ rest)
  bufferSmall : (log.pending ++ rest).length < kmallocLimit
  nodup : (slots.map Prod.fst ++ p.ids).Nodup
  live : ∀ h, h ∈ m.live ↔ h ∈ slots.map Prod.fst ++ p.ids ∨ h ∈ lost
  unowned : ∀ h ∈ lost, h ∉ slots.map Prod.fst ++ p.ids

/-- A device between two calls stands for a log. -/
structure Represents (s : DriverState) (log : Log) (slots : List Slot) (lost : Set Nat) :
    Prop where
  owns : Owns (ring s.dev) s.dev.totalBytesEvicted s.heap log slots lost
    s.dev.currInput.buffptr []
  pendingSize : s.dev.currInput.size = log.pending.length

theorem represents_init : Represents aesdInitModule Cut.empty [] ∅ where
  owns :=
    { grown := AesdCircularBuffer.grown_init
      inOffs := rfl
      occupied := rfl
      records := rfl
      evicted := rfl
      wellCut := Cut.wellCut_empty isNewline
      stored := by simp
      small := by simp
      buffer := by simp [Cut.empty]
      bufferSmall := by decide
      nodup := by simp [aesdInitModule]
      live := by simp [aesdInitModule, Heap.empty]
      unowned := by simp }
  pendingSize := rfl

namespace Owns

variable {b : AesdCircularBuffer} {total : Nat} {m : Heap UInt8} {log : Log} {slots : List Slot}
  {lost : Set Nat} {p : Ptr} {rest : List UInt8}

theorem slots_length (h : Owns b total m log slots lost p rest) : slots.length = b.count := by
  rw [← AesdCircularBuffer.occupied_length, h.occupied, List.length_map]

theorem slots_length_eq (h : Owns b total m log slots lost p rest) :
    slots.length = min maxWriteOperationsSupported log.records.length := by
  have hlen := congrArg List.length h.records
  rwa [List.length_map, Cut.retained_length] at hlen

theorem full_iff (h : Owns b total m log slots lost p rest) :
    b.full = true ↔ ¬log.records.length < maxWriteOperationsSupported := by
  have hcount := h.slots_length
  have hmin := h.slots_length_eq
  rw [← AesdCircularBuffer.count_eq_iff_full, ← hcount, hmin]
  omega

/-- The offset of the oldest slot follows from the number of records. -/
theorem outOffs_eq (h : Owns b total m log slots lost p rest) :
    b.outOffs = if log.records.length < maxWriteOperationsSupported then 0
      else log.records.length % maxWriteOperationsSupported := by
  by_cases hlt : log.records.length < maxWriteOperationsSupported
  · have hf : b.full = false := by
      rw [← Bool.not_eq_true, h.full_iff]
      exact not_not_intro hlt
    rw [if_pos hlt]
    exact h.grown.outOffs_eq hf
  · rw [if_neg hlt, ← h.inOffs]
    exact (h.grown.offs_eq (h.full_iff.mpr hlt)).symm

/-- The bytes of the slots are the retained records, one after the other. -/
theorem flatten_slots (h : Owns b total m log slots lost p rest) :
    (slots.map Prod.snd).flatten = log.committed.drop total := by
  rw [h.records, h.evicted, Cut.committed_drop_evicted]

theorem sizes_eq (h : Owns b total m log slots lost p rest) :
    b.sizes = (slots.map Prod.snd).map List.length := by
  simp [AesdCircularBuffer.sizes, h.occupied, slotEntry, Function.comp_def]

theorem sizes_sum (h : Owns b total m log slots lost p rest) :
    b.sizes.sum = log.committed.length - total := by
  rw [h.sizes_eq, ← List.length_flatten, h.flatten_slots, List.length_drop]

theorem total_le (h : Owns b total m log slots lost p rest) : total ≤ log.committed.length := by
  have hsum := log.evicted_add_retained maxWriteOperationsSupported
  rw [h.evicted]
  omega

/-- Every stored record has at least its newline. -/
theorem slot_pos (h : Owns b total m log slots lost p rest) {x : Slot} (hx : x ∈ slots) :
    0 < x.2.length := by
  have hret : x.2 ∈ log.retained maxWriteOperationsSupported := by
    rw [← h.records]
    exact List.mem_map_of_mem hx
  rw [Cut.retained, List.rtake] at hret
  exact List.length_pos_iff.mpr (h.wellCut.records _ (List.mem_of_mem_drop hret)).ne_nil

/-- The next block to be handed out belongs to no slot. -/
theorem next_not_mem (h : Owns b total m log slots lost p rest) : m.next ∉ slots.map Prod.fst := by
  intro hmem
  exact m.next_not_live ((h.live _).mpr (.inl (List.mem_append_left _ hmem)))

/-- An allocation leaves the stored records alone. -/
theorem stored_alloc (h : Owns b total m log slots lost p rest) (n : Nat) :
    ∀ x ∈ slots, (m.alloc n).Holds x.1 x.2 := by
  intro x hx
  have hs := h.stored x hx
  exact hs.congr (Heap.alloc_blocks_of_live hs.live n)

/-- Ten entries of admissible size cannot overflow the running total of a lookup. -/
theorem sizes_sum_lt (h : Owns b total m log slots lost p rest) : b.sizes.sum < 2 ^ 64 := by
  have hle : b.sizes.sum ≤ b.sizes.length * kmallocLimit := by
    have hmem : ∀ n ∈ b.sizes, n ≤ kmallocLimit := by
      intro n hn
      rw [h.sizes_eq] at hn
      obtain ⟨x, hx, rfl⟩ := List.mem_map.mp hn
      obtain ⟨y, hy, rfl⟩ := List.mem_map.mp hx
      exact Nat.le_of_lt (h.small y hy)
    have hsum := List.sum_le_card_nsmul _ _ hmem
    rwa [smul_eq_mul] at hsum
  have hlen : b.sizes.length ≤ maxWriteOperationsSupported := by
    rw [AesdCircularBuffer.sizes, List.length_map, AesdCircularBuffer.occupied_length]
    exact b.count_le
  have hprod : b.sizes.length * kmallocLimit ≤ maxWriteOperationsSupported * kmallocLimit :=
    Nat.mul_le_mul_right _ hlen
  have hconst : maxWriteOperationsSupported * kmallocLimit < 2 ^ 64 := by decide
  omega

/-- Nothing in the invariant depends on blocks that are not live. -/
theorem congr (h : Owns b total m log slots lost p rest) {m' : Heap UInt8}
    (hb : ∀ x ∈ m.live, m'.blocks x = m.blocks x) (hl : m'.live = m.live) :
    Owns b total m' log slots lost p rest := by
  refine { h with stored := ?_, buffer := ?_, live := ?_ }
  · intro x hx
    have hs := h.stored x hx
    exact hs.congr (hb _ hs.live)
  · intro hne
    obtain ⟨k, hp, hk⟩ := h.buffer hne
    exact ⟨k, hp, hk.congr (hb _ hk.live)⟩
  · rw [hl]
    exact h.live

/-- Exchange the buffer of the unfinished record for one that holds the same record. -/
theorem replace (h : Owns b total m log slots lost p rest) {m' : Heap UInt8} {q : Ptr}
    {rest' : List UInt8}
    (hkeep : ∀ x, x ∈ slots.map Prod.fst ∨ x ∈ lost → m'.blocks x = m.blocks x)
    (hlive : ∀ x, x ∈ m'.live ↔ (x ∈ slots.map Prod.fst ∨ x ∈ lost) ∨ x ∈ q.ids)
    (hfresh : ∀ x ∈ q.ids, ¬(x ∈ slots.map Prod.fst ∨ x ∈ lost))
    (hbuf : log.pending ++ rest' ≠ [] → ∃ k, q = .block k ∧ m'.Holds k (log.pending ++ rest'))
    (hsmall : (log.pending ++ rest').length < kmallocLimit) :
    Owns b total m' log slots lost q rest' := by
  refine { h with
    stored := ?_, buffer := hbuf, bufferSmall := hsmall, nodup := ?_, live := ?_, unowned := ?_ }
  · intro x hx
    exact (h.stored x hx).congr (hkeep _ (.inl (List.mem_map_of_mem hx)))
  · have hslots := (List.nodup_append.mp h.nodup).1
    have hids : q.ids.Nodup := by cases q <;> simp
    refine List.nodup_append.mpr ⟨hslots, hids, ?_⟩
    intro x hx y hy hxy
    subst hxy
    exact hfresh x hy (.inl hx)
  · intro x
    rw [hlive x, List.mem_append]
    tauto
  · intro x hx hmem
    rcases List.mem_append.mp hmem with hs | hq
    · exact h.unowned x hx (List.mem_append_left _ hs)
    · exact hfresh x hq (.inr hx)

/-- Forgetting the pointer to an empty unfinished record loses the block behind it. -/
theorem abandon (h : Owns b total m log slots lost p []) (hp : log.pending = []) :
    Owns b total m log slots (lost ∪ {x | x ∈ p.ids}) .null [] := by
  refine { h with buffer := ?_, nodup := ?_, live := ?_, unowned := ?_ }
  · intro hne
    simp [hp] at hne
  · simpa using (List.nodup_append.mp h.nodup).1
  · intro x
    rw [h.live x]
    simp only [List.mem_append, Ptr.ids_null, List.not_mem_nil, or_false, Set.mem_union,
      Set.mem_ofPred_eq]
    tauto
  · intro x hx hmem
    simp only [Ptr.ids_null, List.append_nil] at hmem
    rcases hx with hx | hx
    · exact h.unowned x hx (List.mem_append_left _ hmem)
    · exact (List.nodup_append.mp h.nodup).2.2 x hmem x hx rfl

end Owns

end Aesd.Driver.LogRelation
