/- Aesd/Driver/Commit
   layer: refinement
   digest: The inline commit of aesd_write adds an entry to the ring and a record to the log. -/

import Aesd.Driver.LogRelation

set_option autoImplicit false
set_option relaxedAutoImplicit false

namespace Aesd.Driver.Commit

open Aesd.Foundation.BlockHeap
open Aesd.Foundation.RecordLog
open Aesd.Driver.CircularBuffer
open Aesd.Driver.Device
open Aesd.Driver.LogRelation

variable {b : AesdCircularBuffer} {total : Nat} {m : Heap UInt8} {log : Log} {slots : List Slot}
  {lost : Set Nat} {p : Ptr} {rest : List UInt8}

/-- The slots that survive one more commit. -/
def keptSlots (full : Bool) (slots : List Slot) : List Slot :=
  if full then slots.tail else slots

theorem keptSlots_sublist (full : Bool) (slots : List Slot) :
    List.Sublist (keptSlots full slots) slots := by
  unfold keptSlots
  split
  · exact List.tail_sublist slots
  · exact List.Sublist.refl slots

theorem keptSlots_map {β : Type} (full : Bool) (slots : List Slot) (f : Slot → β) :
    (keptSlots full slots).map f = if full then (slots.map f).tail else slots.map f := by
  unfold keptSlots
  split <;> simp

/-- A completed record moves from the working buffer into the ring. -/
theorem owns_commit {k : Nat} {c : UInt8}
    (h : Owns b total m log slots lost (.block k) (c :: rest)) (hc : isNewline c = true)
    {m' : Heap UInt8} {total' : Nat}
    (hkeep : ∀ x ∈ keptSlots b.full slots, m'.blocks x.1 = m.blocks x.1)
    (hbuf : m'.Holds k (log.pending ++ c :: rest))
    (hlive : ∀ x, x ∈ m'.live ↔ x ∈ (keptSlots b.full slots).map Prod.fst ∨ x = k ∨ x ∈ lost)
    (htotal : total' = (log.push isNewline c).evicted maxWriteOperationsSupported) :
    Owns (aesdCircularBufferAddEntry b ⟨.block k, log.pending.length + 1⟩) total' m'
      (log.push isNewline c) (keptSlots b.full slots ++ [(k, log.pending ++ [c])]) lost .null [] := by
  have hpush := log.push_of_end hc
  have hsub := keptSlots_sublist b.full slots
  have hnodup := h.nodup
  rw [Ptr.ids_block] at hnodup
  have hkfresh : k ∉ slots.map Prod.fst := by
    intro hmem
    exact (List.nodup_append.mp hnodup).2.2 k hmem k (by simp) rfl
  have hklost : k ∉ lost := by
    intro hmem
    exact h.unowned k hmem (by simp)
  have hsmall : (log.pending ++ [c]).length < kmallocLimit := by
    have hle := h.bufferSmall
    simp only [List.length_append, List.length_cons, List.length_nil] at hle ⊢
    omega
  have hfull : (if b.full = true then b.occupied.tail else b.occupied) =
      (keptSlots b.full slots).map slotEntry := by
    rw [keptSlots_map, h.occupied]
  refine
    { grown := h.grown.add _
      inOffs := ?_
      occupied := ?_
      records := ?_
      evicted := htotal
      wellCut := h.wellCut.push c
      stored := ?_
      small := ?_
      buffer := by simp [hpush]
      bufferSmall := by rw [hpush]; exact (by decide : (0 : Nat) < kmallocLimit)
      nodup := ?_
      live := ?_
      unowned := ?_ }
  · have hadd : (aesdCircularBufferAddEntry b ⟨.block k, log.pending.length + 1⟩).inOffs =
        (b.inOffs + 1) % maxWriteOperationsSupported := by
      rcases AesdCircularBuffer.add_cases b ⟨.block k, log.pending.length + 1⟩ with
        ⟨-, he⟩ | ⟨-, he⟩ <;> rw [he]
    rw [hadd, h.inOffs, hpush, List.length_append, List.length_singleton, Nat.mod_add_mod]
  · rw [h.grown.occupied_add, hfull, List.map_append]
    simp [slotEntry]
  · have hrecords : ((keptSlots b.full slots).map Prod.snd) =
        if log.records.length < maxWriteOperationsSupported
        then log.records.rtake maxWriteOperationsSupported
        else (log.records.rtake maxWriteOperationsSupported).tail := by
      rw [keptSlots_map, h.records, Cut.retained]
      by_cases hlt : log.records.length < maxWriteOperationsSupported
      · have hf : ¬b.full = true := fun hf => h.full_iff.mp hf hlt
        rw [if_neg hf, if_pos hlt]
      · rw [if_pos (h.full_iff.mpr hlt), if_neg hlt]
    rw [List.map_append, hrecords, Cut.retained, hpush, rtake_concat (by decide)]
    rfl
  · intro x hx
    rcases List.mem_append.mp hx with hx | hx
    · exact (h.stored x (hsub.subset hx)).congr (hkeep x hx)
    · rw [List.mem_singleton.mp hx]
      have hsplit : log.pending ++ c :: rest = (log.pending ++ [c]) ++ rest := by simp
      rw [hsplit] at hbuf
      exact hbuf.take
  · intro x hx
    rcases List.mem_append.mp hx with hx | hx
    · exact h.small x (hsub.subset hx)
    · rw [List.mem_singleton.mp hx]
      exact hsmall
  · have hkept : ((keptSlots b.full slots).map Prod.fst ++ [k]).Nodup :=
      (List.Sublist.append (hsub.map Prod.fst) (List.Sublist.refl [k])).nodup hnodup
    simpa using hkept
  · intro x
    rw [hlive x]
    simp [or_assoc]
  · intro x hx hmem
    simp only [List.map_append, List.map_cons, List.map_nil, Ptr.ids_null, List.append_nil,
      List.mem_append, List.mem_singleton] at hmem
    rcases hmem with hmem | rfl
    · exact h.unowned x hx (List.mem_append_left _ ((hsub.map Prod.fst).subset hmem))
    · exact hklost hx

theorem commitEntry_full {s : DriverState} {m : Heap UInt8} (hf : s.dev.full = true)
    (hfree : s.heap.free (s.dev.entry s.dev.outOffs).buffptr = .ok m) (newBuf : Ptr)
    (currSize : Nat) :
    commitEntry s newBuf currSize = .ok
      { dev := { s.dev with
          entry := Function.update s.dev.entry s.dev.inOffs ⟨newBuf, currSize + 1⟩
          inOffs := (s.dev.inOffs + 1) % maxWriteOperationsSupported
          outOffs := (s.dev.outOffs + 1) % maxWriteOperationsSupported
          totalBytesEvicted :=
            s.dev.totalBytesEvicted + (s.dev.entry s.dev.outOffs).size }
        heap := m } := by
  simp [commitEntry, hf, hfree]

theorem commitEntry_not_full {s : DriverState} (hf : s.dev.full = false) (newBuf : Ptr)
    (currSize : Nat) :
    commitEntry s newBuf currSize = .ok
      { s with dev := { s.dev with
          entry := Function.update s.dev.entry s.dev.inOffs ⟨newBuf, currSize + 1⟩
          inOffs := (s.dev.inOffs + 1) % maxWriteOperationsSupported
          full := decide ((s.dev.inOffs + 1) % maxWriteOperationsSupported = s.dev.outOffs) } } := by
  simp only [commitEntry, hf]
  split_ifs with h <;> simp_all

/-- Everything one inline commit does, in the two cases the source tells apart. -/
theorem commitEntry_cases {s s' : DriverState} {newBuf : Ptr} {currSize : Nat}
    (h : commitEntry s newBuf currSize = .ok s') :
    s'.dev.entry = Function.update s.dev.entry s.dev.inOffs ⟨newBuf, currSize + 1⟩ ∧
    s'.dev.inOffs = (s.dev.inOffs + 1) % maxWriteOperationsSupported ∧
    ((s.dev.full = true ∧ s'.dev.full = true ∧
        s.heap.free (s.dev.entry s.dev.outOffs).buffptr = .ok s'.heap ∧
        s'.dev.outOffs = (s.dev.outOffs + 1) % maxWriteOperationsSupported ∧
        s'.dev.totalBytesEvicted =
          s.dev.totalBytesEvicted + (s.dev.entry s.dev.outOffs).size) ∨
      (s.dev.full = false ∧ s'.heap = s.heap ∧
        s'.dev.full =
          decide ((s.dev.inOffs + 1) % maxWriteOperationsSupported = s.dev.outOffs) ∧
        s'.dev.outOffs = s.dev.outOffs ∧
        s'.dev.totalBytesEvicted = s.dev.totalBytesEvicted)) := by
  cases hf : s.dev.full with
  | true =>
    cases hfree : s.heap.free (s.dev.entry s.dev.outOffs).buffptr with
    | error f => simp [commitEntry, hf, hfree, bind, Except.bind] at h
    | ok m =>
      rw [commitEntry_full hf hfree] at h
      obtain rfl := Except.ok.inj h
      exact ⟨rfl, rfl, .inl ⟨rfl, hf, rfl, rfl, rfl⟩⟩
  | false =>
    rw [commitEntry_not_full hf] at h
    obtain rfl := Except.ok.inj h
    exact ⟨rfl, rfl, .inr ⟨rfl, rfl, rfl, rfl, rfl⟩⟩

/-- The inline commit changes the ring as adding an entry does, because a full ring has its two
offsets in one place. -/
theorem commitEntry_ring {s s' : DriverState} (hwf : (ring s.dev).WellFormed) {newBuf : Ptr}
    {currSize : Nat} (h : commitEntry s newBuf currSize = .ok s') :
    ring s'.dev = aesdCircularBufferAddEntry (ring s.dev) ⟨newBuf, currSize + 1⟩ := by
  obtain ⟨hentry, hin, ⟨hf, hf', -, hout, -⟩ | ⟨hf, -, hf', hout, -⟩⟩ := commitEntry_cases h
  · have hio : s.dev.inOffs = s.dev.outOffs := hwf.offs_eq hf
    rcases AesdCircularBuffer.add_cases (ring s.dev) ⟨newBuf, currSize + 1⟩ with
      ⟨-, he⟩ | ⟨hnot, -⟩
    · rw [he, ring, hentry, hin, hf', hout, ← hio]
      rfl
    · exact absurd (hf.symm.trans hnot) (by decide)
  · rcases AesdCircularBuffer.add_cases (ring s.dev) ⟨newBuf, currSize + 1⟩ with
      ⟨hnot, -⟩ | ⟨-, he⟩
    · exact absurd (hf.symm.trans hnot) (by decide)
    · rw [he, ring, hentry, hin, hf', hout]
      rfl

/-- The commit of a completed record succeeds and leaves the working buffer readable. -/
theorem commitEntry_spec {s : DriverState} {k : Nat} {c : UInt8}
    (h : Owns (ring s.dev) s.dev.totalBytesEvicted s.heap log slots lost (.block k) (c :: rest))
    (hc : isNewline c = true) :
    ∃ s' slots', commitEntry s (.block k) log.pending.length = .ok s' ∧
      Owns (ring s'.dev) s'.dev.totalBytesEvicted s'.heap (log.push isNewline c) slots' lost
        .null [] ∧
      s'.heap.Holds k (log.pending ++ c :: rest) := by
  obtain ⟨k', hk', hbuf⟩ := h.buffer (by simp)
  obtain rfl : k = k' := Ptr.block.inj hk'
  have hpush := log.push_of_end hc
  have hevicted : (log.push isNewline c).evicted maxWriteOperationsSupported =
      log.evicted maxWriteOperationsSupported +
        (if log.records.length < maxWriteOperationsSupported then 0
          else ((log.records.rtake maxWriteOperationsSupported).headD []).length) := by
    rw [hpush]
    exact Cut.evicted_concat (by decide) log.records [] log.pending (log.pending ++ [c])
  cases hf : s.dev.full with
  | false =>
    have hfull : (ring s.dev).full = false := hf
    have hlt : log.records.length < maxWriteOperationsSupported := by
      by_contra hge
      rw [h.full_iff.mpr hge] at hfull
      cases hfull
    have hrun := commitEntry_not_full hf (.block k) log.pending.length
    have hring := commitEntry_ring h.grown.toWellFormed hrun
    refine ⟨_, keptSlots (ring s.dev).full slots ++ [(k, log.pending ++ [c])], hrun, ?_, hbuf⟩
    rw [hring]
    refine owns_commit h hc (fun _ _ => rfl) hbuf ?_ ?_
    · intro x
      rw [h.live x, hfull]
      simp [keptSlots, or_assoc]
    · rw [hevicted, if_pos hlt]
      exact h.evicted
  | true =>
    have hfull : (ring s.dev).full = true := hf
    have hge : ¬log.records.length < maxWriteOperationsSupported := h.full_iff.mp hfull
    have hlen : slots.length = maxWriteOperationsSupported := by
      rw [h.slots_length]
      exact (AesdCircularBuffer.count_eq_iff_full _).mpr hfull
    obtain ⟨x, tl, rfl⟩ : ∃ x tl, slots = x :: tl := by
      cases slots with
      | nil => simp at hlen
      | cons x tl => exact ⟨x, tl, rfl⟩
    have hentry : s.dev.entry s.dev.outOffs = slotEntry x := by
      have hpos : 0 < (ring s.dev).occupied.length := by simp [h.occupied]
      have hslot := AesdCircularBuffer.entry_of_occupied (ring s.dev) hpos
      rw [Nat.add_zero, Nat.mod_eq_of_lt h.grown.outOffs_lt] at hslot
      have hoccupied : (ring s.dev).occupied[0] = slotEntry x := by simp [h.occupied]
      exact hslot.trans hoccupied
    have hxlive : x.1 ∈ s.heap.live := (h.stored x (by simp)).live
    have hfree : s.heap.free (s.dev.entry s.dev.outOffs).buffptr =
        .ok (s.heap.set x.1 none) := by
      rw [hentry]
      exact Heap.free_block hxlive
    have hnodup : x.1 ∉ tl.map Prod.fst ++ [k] := by
      have hall := h.nodup
      rw [List.map_cons, List.cons_append, Ptr.ids_block] at hall
      exact (List.nodup_cons.mp hall).1
    have hxlost : x.1 ∉ lost := fun hmem => h.unowned _ hmem (by simp)
    have hkx : k ≠ x.1 := fun he => hnodup (by simp [he])
    have hkept : keptSlots (ring s.dev).full (x :: tl) = tl := by
      rw [hfull]
      rfl
    have hrun := commitEntry_full hf hfree (.block k) log.pending.length
    have hring := commitEntry_ring h.grown.toWellFormed hrun
    refine ⟨_, keptSlots (ring s.dev).full (x :: tl) ++ [(k, log.pending ++ [c])], hrun, ?_,
      hbuf.congr (Heap.set_blocks_of_ne _ hkx _)⟩
    rw [hring]
    refine owns_commit h hc ?_ (hbuf.congr (Heap.set_blocks_of_ne _ hkx _)) ?_ ?_
    · intro y hy
      rw [hkept] at hy
      apply Heap.set_blocks_of_ne
      intro he
      exact hnodup (List.mem_append_left _ (he ▸ List.mem_map_of_mem hy))
    · intro y
      rw [hkept, Heap.live_set_none, Set.mem_sdiff, h.live y]
      by_cases hy : y = x.1
      · subst hy
        simp only [List.mem_append, List.mem_singleton, not_or] at hnodup
        simp [hnodup.1, hnodup.2, hxlost]
      · simp [hy, or_assoc]
    · have hhead : (log.records.rtake maxWriteOperationsSupported).headD [] = x.2 := by
        have hrecords := h.records
        rw [Cut.retained, List.map_cons] at hrecords
        rw [← hrecords]
        rfl
      rw [hevicted, if_neg hge, hhead, ← h.evicted, hentry]
      rfl

end Aesd.Driver.Commit
