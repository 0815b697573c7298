/- Aesd/Driver/WriteCorrect
   layer: refinement
   digest: aesd_write accepts a prefix of its bytes into the log, whatever the kernel does to it. -/

import Aesd.Driver.WriteRounds

set_option autoImplicit false
set_option relaxedAutoImplicit false

namespace Aesd.Driver.WriteCorrect

open Aesd.Foundation.BlockHeap
open Aesd.Foundation.RecordLog
open Aesd.Driver.CircularBuffer
open Aesd.Driver.Device
open Aesd.Driver.LogRelation
open Aesd.Driver.WriteRounds

variable {b : AesdCircularBuffer} {total : Nat} {m : Heap UInt8} {log : Log} {slots : List Slot}
  {lost : Set Nat} {p : Ptr} {rest : List UInt8}

section Allocation

/-- The block of an empty unfinished record, which a write forgets without freeing it. -/
def dropped (s : DriverState) : Set Nat :=
  {h | s.dev.currInput.size = 0 ∧ h ∈ s.dev.currInput.buffptr.ids}

/-- The unfinished record has moved to a fresh block with room for `count` more bytes. -/
structure Moved (s : DriverState) (log : Log) (slots : List Slot) (lost : Set Nat) (count : Nat)
    (m : Heap UInt8) : Prop where
  block : m.blocks s.heap.next =
    some (log.pending.map some ++ List.replicate count none)
  keep : ∀ x, x ∈ slots.map Prod.fst ∨ x ∈ lost → m.blocks x = s.heap.blocks x
  live : ∀ x, x ∈ m.live ↔ (x ∈ slots.map Prod.fst ∨ x ∈ lost) ∨ x = s.heap.next
  fresh : ¬(s.heap.next ∈ slots.map Prod.fst ∨ s.heap.next ∈ lost)

theorem moveCurrInput_spec {s : DriverState} (h : Represents s log slots lost) (count : Nat) :
    ∃ m, moveCurrInput s.dev (.block s.heap.next)
        (s.heap.alloc (log.pending.length + count)) = .ok m ∧
      Moved s log slots (lost ∪ dropped s) count m := by
  have hsize := h.pendingSize
  have hlive := h.owns.live
  have hnext : ∀ x ∈ s.heap.live, x ≠ s.heap.next :=
    fun x hx he => s.heap.next_not_live (he ▸ hx)
  have hslot : ∀ x ∈ slots.map Prod.fst, x ∈ s.heap.live :=
    fun x hx => (hlive x).mpr (.inl (List.mem_append_left _ hx))
  have hlost : ∀ x ∈ lost, x ∈ s.heap.live := fun x hx => (hlive x).mpr (.inr hx)
  have hdropped : ∀ x ∈ dropped s, x ∈ s.heap.live :=
    fun x hx => (hlive x).mpr (.inl (List.mem_append_right _ hx.2))
  by_cases hp : log.pending = []
  · have hzero : s.dev.currInput.size = 0 := by rw [hsize, hp, List.length_nil]
    have hold : ∀ x, x ∈ slots.map Prod.fst ∨ x ∈ lost ∪ dropped s → x ∈ s.heap.live := by
      rintro x (hx | hx | hx)
      · exact hslot x hx
      · exact hlost x hx
      · exact hdropped x hx
    refine ⟨_, by rw [moveCurrInput, if_neg (not_not.mpr hzero)]; rfl, ?_, ?_, ?_, ?_⟩
    · simp [Heap.alloc_blocks_next, hp]
    · exact fun x hx => Heap.alloc_blocks_of_live (hold x hx) _
    · intro x
      rw [Heap.live_alloc, Set.mem_insert_iff, hlive x]
      simp only [List.mem_append, Set.mem_union, dropped, Set.mem_ofPred_eq, hzero, true_and]
      tauto
    · exact fun hx => s.heap.next_not_live (hold _ hx)
  · -- the only case in which the old buffer is freed
    obtain ⟨k, hk, hholds⟩ := h.owns.buffer (by simpa using hp)
    rw [List.append_nil] at hholds
    have hne : s.dev.currInput.size ≠ 0 := by
      rw [hsize]
      exact fun he => hp (List.length_eq_zero_iff.mp he)
    have hnone : dropped s = ∅ := by
      ext x
      simp [dropped, hne]
    have hsrc : s.heap.Holds k ([] ++ log.pending ++ []) := by simpa using hholds
    have hroom : log.pending.length ≤ log.pending.length + count := by omega
    obtain ⟨m, hcopy, hblock, hkeep, hm⟩ := Heap.alloc_memcpy hsrc hroom
    have hkm : k ∈ m.live := by
      rw [hm]
      exact Set.mem_insert_of_mem _ hholds.live
    have hrun : moveCurrInput s.dev (.block s.heap.next)
        (s.heap.alloc (log.pending.length + count)) = .ok (m.set k none) := by
      rw [List.length_nil] at hcopy
      rw [moveCurrInput, if_pos hne, hk, hsize, hcopy, ok_bind, Heap.free_block hkm]
    have hkown : k ∉ slots.map Prod.fst ∧ k ∉ lost := by
      have hnodup := h.owns.nodup
      have hunowned := h.owns.unowned
      rw [hk, Ptr.ids_block] at hnodup hunowned
      refine ⟨fun hx => (List.nodup_append.mp hnodup).2.2 k hx k (by simp) rfl, fun hx => ?_⟩
      exact hunowned k hx (by simp)
    have hknext : s.heap.next ≠ k := (hnext k hholds.live).symm
    refine ⟨m.set k none, hrun, ?_, ?_, ?_, ?_⟩
    · rw [Heap.set_blocks_of_ne _ hknext, hblock]
      congr 3
      omega
    · intro x hx
      rw [hnone, Set.union_empty] at hx
      have hxk : x ≠ k := by
        rintro rfl
        exact hx.elim hkown.1 hkown.2
      rw [Heap.set_blocks_of_ne _ hxk]
      exact hkeep x (hx.elim (hslot x) (hlost x))
    · intro x
      have hown := hlive x
      rw [hk, Ptr.ids_block] at hown
      rw [Heap.live_set_none, Set.mem_sdiff, hm, Set.mem_insert_iff, hown, hnone,
        Set.union_empty]
      simp only [List.mem_append, List.mem_singleton, Set.mem_singleton_iff]
      by_cases hxk : x = k
      · subst hxk
        simp [hkown.1, hkown.2, hknext.symm]
      · simp only [hxk, or_false, not_false_eq_true, and_true]
        tauto
    · rw [hnone, Set.union_empty]
      rintro (hx | hx)
      · exact s.heap.next_not_live (hslot _ hx)
      · exact s.heap.next_not_live (hlost _ hx)

end Allocation

section Loop

theorem accept_cons (log : Log) (c : UInt8) (bytes : List UInt8) :
    accept log (c :: bytes) = accept (log.push isNewline c) bytes := rfl

/-- The number of bytes the loop scans from index `i` on: all, or up to the first newline after
which no new buffer is allocated. -/
def scanned (env : WriteEnv) : (i : Nat) → List UInt8 → Nat
  | _, [] => 0
  | i, c :: rest =>
    if isNewline c = true ∧ env.kmalloc (i + 1) = false then 1 else scanned env (i + 1) rest + 1

theorem scanned_le (env : WriteEnv) (i : Nat) (rest : List UInt8) :
    scanned env i rest ≤ rest.length := by
  induction rest generalizing i with
  | nil => exact le_rfl
  | cons c rest ih =>
    have hrest := ih (i + 1)
    rw [scanned, List.length_cons]
    split_ifs
    · omega
    · omega

/-- Only a failure that leaves bytes behind shortens the scan. -/
theorem scanned_eq_length_iff (env : WriteEnv) (i : Nat) (rest : List UInt8) :
    scanned env i rest = rest.length ↔
      ∀ j, j + 1 < rest.length → rest[j]? = some newline → env.kmalloc (i + j + 1) = true := by
  induction rest generalizing i with
  | nil => simp [scanned]
  | cons c rest ih =>
    have hle := scanned_le env (i + 1) rest
    have hnl : isNewline c = true ↔ c = newline := by simp [isNewline]
    rw [scanned, List.length_cons]
    split_ifs with hstop
    · constructor
      · intro hlen j hj
        omega
      · intro hall
        by_contra hne
        have hfirst := hall 0 (by omega) (by simp [hnl.mp hstop.1])
        rw [Nat.add_zero, hstop.2] at hfirst
        cases hfirst
    · rw [Nat.add_right_cancel_iff, ih (i + 1)]
      constructor
      · intro hall j hj hc
        cases j with
        | zero =>
          rw [List.getElem?_cons_zero, Option.some.injEq] at hc
          rw [Nat.add_zero, ← Bool.not_eq_false]
          exact fun hfail => hstop ⟨hnl.mpr hc, hfail⟩
        | succ j =>
          have hlater := hall j (by omega) (by simpa using hc)
          rwa [Nat.add_right_comm i 1 j] at hlater
      · intro hall j hj hc
        have hlater := hall (j + 1) (by omega) (by simpa using hc)
        rwa [← Nat.add_assoc, Nat.add_right_comm i j 1] at hlater

/-- From any loop head the byte loop accepts the bytes it scans. -/
theorem aesdWriteLoop_exact (env : WriteEnv) {count : Nat} {rest : List UInt8} {head : LoopHead}
    {log : Log} {slots : List Slot} {lost : Set Nat}
    (h : AtHead count head log slots lost rest) :
    ∃ s' slots',
      aesdWriteLoop env count rest.length head.i head.currSize head.newBuf head.state =
        .ok (((head.i + scanned env head.i rest : Nat) : Int), s') ∧
      Represents s' (accept log (rest.take (scanned env head.i rest))) slots' lost := by
  induction rest generalizing head log slots with
  | nil =>
    have hi : head.i = count := h.index
    refine ⟨{ head.state with dev := { head.state.dev with
      currInput := ⟨head.newBuf, head.currSize⟩ } }, slots, ?_, h.owns, h.size⟩
    rw [scanned, Nat.add_zero, hi]
    rfl
  | cons c rest ih =>
    rw [List.length_cons, aesdWriteLoop_succ, scanned]
    cases hc : isNewline c with
    | false =>
      obtain ⟨hround, hnext⟩ := h.scan env hc
      obtain ⟨s', slots', hrun, hrep⟩ := ih hnext
      rw [hround, ok_bind, if_neg (by simp)]
      refine ⟨s', slots', ?_, hrep⟩
      rw [resume, hrun, Nat.add_assoc, Nat.add_comm 1]
    | true =>
      obtain ⟨slots₁, ⟨hok, head', hround, hi, hnext⟩ | ⟨hfail, s', hround, hrep⟩⟩ :=
        h.commit env hc
      · obtain ⟨s', slots', hrun, hrep⟩ := ih hnext
        rw [hround, ok_bind, if_neg (by simp [hok])]
        rw [hi] at hrun hrep
        refine ⟨s', slots', ?_, hrep⟩
        rw [resume, hi, hrun, Nat.add_assoc, Nat.add_comm 1]
      · rw [hround, ok_bind, if_pos ⟨rfl, hfail⟩]
        refine ⟨s', slots₁, rfl, ?_⟩
        rw [List.take_succ_cons, List.take_zero, accept_cons]
        exact hrep

end Loop

section Call

/-- The blocks nothing points to any more after a write: a successful first allocation forgets
the buffer of an empty unfinished record. -/
def lostAfterWrite (env : WriteEnv) (buf : List UInt8) (s : DriverState) (lost : Set Nat) :
    Set Nat :=
  if (kmalloc (env.kmalloc 0) (s.dev.currInput.size + buf.length) s.heap).1 = .null then lost
  else lost ∪ dropped s

/-- `copy_from_user` into the room behind the unfinished record. -/
theorem copyFromUser_spec {m : Heap UInt8} {k : Nat} {pending : List UInt8} (buf : List UInt8)
    (readable : Nat)
    (hb : m.blocks k = some (pending.map some ++ List.replicate buf.length none)) :
    copyFromUser m (.block k) pending.length buf readable = .ok (buf.length - readable,
      m.set k (some ((pending ++ (buf.take readable ++
        List.replicate (buf.length - readable) 0)).map some))) := by
  have hsplit : m.blocks k = some (pending.map some ++ List.replicate buf.length none ++ []) := by
    rw [hb, List.append_nil]
  have hlen : ((buf.take readable ++ List.replicate (buf.length - readable) 0).map
      some).length = (List.replicate buf.length (none : Option UInt8)).length := by
    simp only [List.length_map, List.length_append, List.length_take, List.length_replicate]
    omega
  have hoff : pending.length = (pending.map (some : UInt8 → Option UInt8)).length := by
    rw [List.length_map]
  rw [copyFromUser, Heap.writeCells_eq hsplit hoff hlen, ok_bind, List.append_nil,
    ← List.map_append]
  rfl

/-- The user's bytes as `copy_from_user` leaves them, zeroed behind the readable ones. -/
def copied (env : WriteEnv) (buf : List UInt8) : List UInt8 :=
  buf.take env.readable ++ List.replicate (buf.length - env.readable) 0

theorem copied_length (env : WriteEnv) (buf : List UInt8) :
    (copied env buf).length = buf.length := by
  simp only [copied, List.length_append, List.length_take, List.length_replicate]
  omega

theorem copied_eq {env : WriteEnv} {buf : List UInt8} (h : buf.length ≤ env.readable) :
    copied env buf = buf := by
  rw [copied, List.take_of_length_le h, Nat.sub_eq_zero_of_le h]
  exact List.append_nil buf

/-- The device once a fresh buffer with these contents has taken over. -/
def takenOver (s : DriverState) (m : Heap UInt8) (contents : List UInt8) : DriverState where
  dev := { s.dev with currInput := { s.dev.currInput with buffptr := .block s.heap.next } }
  heap := m.set s.heap.next (some (contents.map some))

/-- `aesd_write` up to its byte loop: the first loop head, or what the call returns. -/
def aesdWriteEntry (env : WriteEnv) (buf : List UInt8) (s : DriverState) :
    Except Fault (LoopHead ⊕ (Int × DriverState)) := do
  let count := buf.length
  let currSize := s.dev.currInput.size
  let newBufsize := currSize + count
  let (newBuf, heap) := kmalloc (env.kmalloc 0) newBufsize s.heap
  if newBuf = .null then pure (.inr (-ENOMEM, { s with heap := heap }))
  else do
    let heap ← moveCurrInput s.dev newBuf heap
    let dev := { s.dev with currInput := { s.dev.currInput with buffptr := newBuf } }
    let (missing, heap) ← copyFromUser heap newBuf currSize buf env.readable
    if missing ≠ 0 then pure (.inr (-EFAULT, { dev := dev, heap := heap }))
    else pure (.inl
      { i := 0, currSize := currSize, newBuf := newBuf, state := { dev := dev, heap := heap } })

/-- A call is what precedes its byte loop, followed by the loop. -/
theorem aesdWrite_eq (env : WriteEnv) (buf : List UInt8) (s : DriverState) :
    aesdWrite env buf s =
      (aesdWriteEntry env buf s >>= resume env buf.length buf.length) := by
  simp only [aesdWrite, aesdWriteEntry]
  split_ifs with hnull
  · rfl
  · rw [bind_assoc]
    congr 1
    funext m
    rw [bind_assoc]
    congr 1
    funext copy
    split_ifs with hshort
    · rfl
    · rfl

/-- What precedes the loop, once the first allocation succeeded. -/
theorem aesdWriteEntry_block {s : DriverState} (h : Represents s log slots lost) {env : WriteEnv}
    {buf : List UInt8} {m : Heap UInt8}
    (hk : kmalloc (env.kmalloc 0) (s.dev.currInput.size + buf.length) s.heap =
      (.block s.heap.next, s.heap.alloc (s.dev.currInput.size + buf.length)))
    (hmove : moveCurrInput s.dev (.block s.heap.next)
      (s.heap.alloc (log.pending.length + buf.length)) = .ok m)
    (hm : Moved s log slots (lost ∪ dropped s) buf.length m) :
    aesdWriteEntry env buf s =
      if buf.length - env.readable ≠ 0 then
        .ok (.inr (-EFAULT, takenOver s m (log.pending ++ copied env buf)))
      else .ok (.inl
        { i := 0
          currSize := log.pending.length
          newBuf := .block s.heap.next
          state := takenOver s m (log.pending ++ copied env buf) }) := by
  have hcopy := copyFromUser_spec buf env.readable hm.block
  rw [h.pendingSize] at hk
  simp only [aesdWriteEntry, h.pendingSize, hk, hmove, hcopy, ok_bind, pure_eq_ok, reduceCtorEq,
    if_false, takenOver, copied]

/-- The fresh buffer holds the unfinished record and whatever was copied behind it. -/
theorem owns_takenOver {s : DriverState} (h : Represents s log slots lost) {env : WriteEnv}
    {buf : List UInt8} {m : Heap UInt8} (hlt : log.pending.length + buf.length < kmallocLimit)
    (hm : Moved s log slots (lost ∪ dropped s) buf.length m) {rest tail : List UInt8}
    (hdata : rest ++ tail = copied env buf) :
    Owns (ring s.dev) s.dev.totalBytesEvicted
      (takenOver s m (log.pending ++ copied env buf)).heap log slots (lost ∪ dropped s)
      (.block s.heap.next) rest := by
  have hmk : s.heap.next ∈ m.live := Heap.live_of_blocks hm.block
  have hbase : ∃ q, Owns (ring s.dev) s.dev.totalBytesEvicted s.heap log slots
      (lost ∪ dropped s) q [] := by
    by_cases hp : log.pending = []
    · have hset : dropped s = {x | x ∈ s.dev.currInput.buffptr.ids} := by
        ext x
        simp [dropped, h.pendingSize, hp]
      exact ⟨.null, hset ▸ h.owns.abandon hp⟩
    · have hset : dropped s = ∅ := by
        ext x
        simp [dropped, h.pendingSize, hp]
      have hsame : lost ∪ dropped s = lost := by rw [hset, Set.union_empty]
      exact ⟨_, hsame.symm ▸ h.owns⟩
  obtain ⟨q, hbase⟩ := hbase
  refine hbase.replace ?_ ?_ ?_ ?_ ?_
  · intro x hx
    have hne : x ≠ s.heap.next := by
      rintro rfl
      exact hm.fresh hx
    rw [takenOver, Heap.set_blocks_of_ne _ hne]
    exact hm.keep x hx
  · intro x
    rw [takenOver, Heap.live_set_some _ hmk, hm.live x, Ptr.ids_block, List.mem_singleton]
  · intro x hx hmem
    rw [Ptr.ids_block, List.mem_singleton] at hx
    exact hm.fresh (hx ▸ hmem)
  · intro _
    refine ⟨_, rfl, tail.map some, ?_⟩
    rw [takenOver, Heap.set_blocks_self hmk, ← hdata]
    simp
  · have hlen := congrArg List.length hdata
    rw [copied_length, List.length_append] at hlen
    rw [List.length_append]
    omega

/-- The first allocation of a write succeeds, with `size` bytes of an unfinished record. -/
def allocated (env : WriteEnv) (buf : List UInt8) (size : Nat) : Prop :=
  size + buf.length = 0 ∨ (env.kmalloc 0 = true ∧ size + buf.length < kmallocLimit)

instance (env : WriteEnv) (buf : List UInt8) (size : Nat) : Decidable (allocated env buf size) :=
  inferInstanceAs (Decidable (_ ∨ _))

/-- What a write returns, as a function of its payload and its circumstances. -/
def writeReturn (env : WriteEnv) (buf : List UInt8) (size : Nat) : Int :=
  if allocated env buf size then
    if env.readable < buf.length then -EFAULT else (scanned env 0 buf : Nat)
  else -ENOMEM

/-- What precedes the loop either reaches the first loop head, with the whole payload to scan, or
ends the call with an error that accepts nothing. -/
theorem aesdWriteEntry_spec {s : DriverState} (h : Represents s log slots lost) (env : WriteEnv)
    (buf : List UInt8) :
    (allocated env buf s.dev.currInput.size ∧ buf.length ≤ env.readable ∧ ∃ head,
      aesdWriteEntry env buf s = .ok (.inl head) ∧ head.i = 0 ∧
      ring head.state.dev = ring s.dev ∧
      AtHead buf.length head log slots (lostAfterWrite env buf s lost) buf) ∨
    (allocated env buf s.dev.currInput.size ∧ env.readable < buf.length ∧ ∃ s',
      aesdWriteEntry env buf s = .ok (.inr (-EFAULT, s')) ∧ ring s'.dev = ring s.dev ∧
      Represents s' log slots (lostAfterWrite env buf s lost)) ∨
    (¬allocated env buf s.dev.currInput.size ∧
      aesdWriteEntry env buf s = .ok (.inr (-ENOMEM, s)) ∧
      lostAfterWrite env buf s lost = lost) := by
  have hsize := h.pendingSize
  have hdrop : dropped s = {x | log.pending = [] ∧ x ∈ s.dev.currInput.buffptr.ids} := by
    ext x
    simp [dropped, hsize]
  rcases kmalloc_cases (env.kmalloc 0) (s.dev.currInput.size + buf.length) s.heap with
    ⟨hz, hk⟩ | ⟨hpos, hok, hk⟩ | ⟨hpos, hbad, hk⟩
  · -- nothing is pending and nothing is written: the buffer becomes ZERO_SIZE_PTR
    have hlost : lostAfterWrite env buf s lost = lost ∪ dropped s := by
      rw [lostAfterWrite, hk]
      exact if_neg (by simp)
    have hbuf : buf = [] := List.length_eq_zero_iff.mp (by omega)
    have hp : log.pending = [] := List.length_eq_zero_iff.mp (by omega)
    have hown := h.owns.abandon hp
    have hnew : Owns (ring s.dev) s.dev.totalBytesEvicted s.heap log slots
        (lost ∪ dropped s) .zeroSize [] := by
      have hset : lost ∪ dropped s = lost ∪ {x | x ∈ s.dev.currInput.buffptr.ids} := by
        rw [hdrop]
        simp [hp]
      rw [hset]
      exact { hown with
        buffer := fun hne => absurd hp (by simpa using hne)
        nodup := hown.nodup
        live := hown.live
        unowned := hown.unowned }
    have hzero : s.dev.currInput.size = 0 := by omega
    subst hbuf
    rw [hzero, List.length_nil, Nat.add_zero] at hk
    refine .inl ⟨.inl hz, Nat.zero_le _,
      ⟨0, 0, .zeroSize, { s with dev := { s.dev with currInput := ⟨.zeroSize, 0⟩ } }⟩, ?_, rfl,
      rfl, ?_⟩
    · simp [aesdWriteEntry, hk, hzero, moveCurrInput, copyFromUser]
    · rw [hlost]
      exact ⟨hnew, rfl, by rw [hp]; rfl⟩
  · -- a fresh buffer takes over the unfinished record and the user's bytes
    have hlost : lostAfterWrite env buf s lost = lost ∪ dropped s := by
      rw [lostAfterWrite, hk]
      exact if_neg (by simp)
    obtain ⟨m, hmove, hm⟩ := moveCurrInput_spec h buf.length
    have hlt : log.pending.length + buf.length < kmallocLimit := by
      rw [← hsize]
      exact hok.2
    have hrun := aesdWriteEntry_block h hk hmove hm
    rw [hlost]
    by_cases hshort : buf.length - env.readable ≠ 0
    · rw [if_pos hshort] at hrun
      exact .inr (.inl ⟨.inr hok, by omega, _, hrun, rfl,
        owns_takenOver h hlt hm (List.nil_append _), hsize⟩)
    · have hread : buf.length ≤ env.readable := by omega
      have hdata : buf ++ [] = copied env buf := by rw [copied_eq hread, List.append_nil]
      rw [if_neg hshort] at hrun
      exact .inl ⟨.inr hok, hread, _, hrun, rfl, rfl, owns_takenOver h hlt hm hdata,
        Nat.zero_add _, rfl⟩
  · -- the first allocation fails and nothing has happened
    have hnot : ¬allocated env buf s.dev.currInput.size := by
      rintro (hz | hok)
      · omega
      · exact hbad hok
    refine .inr (.inr ⟨hnot, ?_, ?_⟩)
    · simp [aesdWriteEntry, hk]
    · rw [lostAfterWrite, hk]
      exact if_pos rfl

/-- Whatever the kernel does, `aesd_write` returns a value that its payload and its circumstances
determine, and accepts as many bytes as it reports, none when it reports an error. -/
theorem aesdWrite_exact {s : DriverState} (h : Represents s log slots lost) (env : WriteEnv)
    (buf : List UInt8) :
    ∃ s' slots', aesdWrite env buf s = .ok (writeReturn env buf s.dev.currInput.size, s') ∧
      Represents s' (accept log (buf.take (writeReturn env buf s.dev.currInput.size).toNat))
        slots' (lostAfterWrite env buf s lost) ∧
      (¬allocated env buf s.dev.currInput.size → s' = s) := by
  rw [aesdWrite_eq, writeReturn]
  rcases aesdWriteEntry_spec h env buf with
    ⟨hall, hread, head, hrun, hi, -, hhead⟩ | ⟨hall, hread, s', hrun, -, hrep⟩ |
    ⟨hnot, hrun, hlost⟩
  · obtain ⟨s', slots', hloop, hrep⟩ := aesdWriteLoop_exact env hhead
    rw [hi, Nat.zero_add] at hloop
    rw [hi] at hrep
    rw [hrun, ok_bind, if_pos hall, if_neg (Nat.not_lt.mpr hread)]
    exact ⟨s', slots', by rw [resume, hi, hloop], hrep, fun hnot => absurd hall hnot⟩
  · rw [hrun, ok_bind, if_pos hall, if_pos hread]
    exact ⟨s', slots, rfl, hrep, fun hnot => absurd hall hnot⟩
  · rw [hrun, ok_bind, if_neg hnot, hlost]
    exact ⟨s, slots, rfl, h, fun _ => rfl⟩

/-- A write reports its whole payload exactly when its allocation and its copy succeed and no
later allocation fails while bytes are left. -/
theorem writeReturn_eq_length_iff (env : WriteEnv) (buf : List UInt8) (size : Nat) :
    writeReturn env buf size = (buf.length : Nat) ↔
      allocated env buf size ∧ buf.length ≤ env.readable ∧
      ∀ j, j + 1 < buf.length → buf[j]? = some newline → env.kmalloc (j + 1) = true := by
  have hscan := scanned_eq_length_iff env 0 buf
  simp only [Nat.zero_add] at hscan
  rw [← hscan, writeReturn]
  have hnomem : -ENOMEM < 0 := by decide
  have hfault : -EFAULT < 0 := by decide
  split_ifs with hall hread
  · constructor
    · intro he
      omega
    · intro hmore
      omega
  · constructor
    · intro he
      exact ⟨hall, by omega, by exact_mod_cast he⟩
    · intro hmore
      exact_mod_cast hmore.2.2
  · constructor
    · intro he
      omega
    · exact fun hmore => absurd hmore.1 hall

/-- Whatever the kernel does, `aesd_write` returns, accepts exactly the bytes it reports, none
when it reports an error, and gives up no block but the one it forgets on entry. -/
theorem aesdWrite_spec {s : DriverState} (h : Represents s log slots lost) (env : WriteEnv)
    (buf : List UInt8) :
    ∃ r s' slots', aesdWrite env buf s = .ok (r, s') ∧
      Represents s' (accept log (buf.take r.toNat)) slots' (lostAfterWrite env buf s lost) ∧
      ((r = -ENOMEM ∧ s' = s) ∨ r = -EFAULT ∨ ∃ n ≤ buf.length, r = (n : Nat)) ∧
      (0 ≤ r → s.dev.currInput.size + buf.length < kmallocLimit) ∧
      ((∀ j, env.kmalloc j = true) → buf.length ≤ env.readable →
        s.dev.currInput.size + buf.length < kmallocLimit → r = (buf.length : Nat)) := by
  obtain ⟨s', slots', hrun, hrep, hsame⟩ := aesdWrite_exact h env buf
  have hnomem : -ENOMEM < 0 := by decide
  refine ⟨_, s', slots', hrun, hrep, ?_, ?_, ?_⟩
  · rw [writeReturn]
    split_ifs with hall hread
    · exact .inr (.inl rfl)
    · exact .inr (.inr ⟨_, scanned_le env 0 buf, rfl⟩)
    · exact .inl ⟨rfl, hsame hall⟩
  · rw [writeReturn]
    intro hr
    by_cases hall : allocated env buf s.dev.currInput.size
    · rcases hall with hz | hok
      · rw [hz]
        decide
      · exact hok.2
    · rw [if_neg hall] at hr
      omega
  · intro hok hread hlt
    exact (writeReturn_eq_length_iff env buf _).mpr ⟨.inr ⟨hok 0, hlt⟩, hread, fun j _ _ => hok _⟩

end Call

section Heads

/-- The loop heads a call passes through. -/
inductive Visits (env : WriteEnv) (buf : List UInt8) (s : DriverState) : LoopHead → Prop
  | entry {head : LoopHead} : aesdWriteEntry env buf s = .ok (.inl head) → Visits env buf s head
  | round {head head' : LoopHead} : Visits env buf s head → head.i < buf.length →
      aesdWriteRound env buf.length head = .ok (.inl head') → Visits env buf s head'

/-- At every loop head a call passes through, the device stands for the log of the bytes before
the loop index, and the working buffer still holds the bytes from there on. -/
theorem Visits.atHead {env : WriteEnv} {buf : List UInt8} {s : DriverState} {head : LoopHead}
    (hv : Visits env buf s head) (h : Represents s log slots lost) :
    head.i ≤ buf.length ∧ ∃ slots', AtHead buf.length head (accept log (buf.take head.i)) slots'
      (lostAfterWrite env buf s lost) (buf.drop head.i) := by
  induction hv with
  | @entry head hrun =>
    rcases aesdWriteEntry_spec h env buf with
      ⟨-, -, first, hfirst, hi, -, hhead⟩ | ⟨-, -, s', hend, -⟩ | ⟨-, hend, -⟩
    · rw [hrun] at hfirst
      obtain rfl := Sum.inl.inj (Except.ok.inj hfirst)
      rw [hi]
      exact ⟨Nat.zero_le _, slots, hhead⟩
    · rw [hrun] at hend
      cases Except.ok.inj hend
    · rw [hrun] at hend
      cases Except.ok.inj hend
  | @round head head' hv hlt hrun ih =>
    obtain ⟨hle, slots', hhead⟩ := ih
    have hdrop : buf.drop head.i = buf[head.i] :: buf.drop (head.i + 1) :=
      List.drop_eq_getElem_cons hlt
    have htake : accept log (buf.take (head.i + 1)) =
        (accept log (buf.take head.i)).push isNewline buf[head.i] := by
      rw [List.take_succ_eq_append_getElem hlt]
      exact Cut.feed_append isNewline log _ _
    rw [hdrop] at hhead
    cases hc : isNewline buf[head.i] with
    | false =>
      obtain ⟨hround, hnext⟩ := hhead.scan env hc
      rw [hrun] at hround
      obtain rfl := Sum.inl.inj (Except.ok.inj hround)
      exact ⟨hlt, slots', by rw [htake]; exact hnext⟩
    | true =>
      obtain ⟨slots₁, ⟨-, next, hround, hi, hnext⟩ | ⟨-, s', hround, -⟩⟩ :=
        hhead.commit env hc
      · rw [hrun] at hround
        obtain rfl := Sum.inl.inj (Except.ok.inj hround)
        rw [hi, htake]
        exact ⟨hlt, slots₁, hnext⟩
      · rw [hrun] at hround
        cases Except.ok.inj hround

end Heads

end Aesd.Driver.WriteCorrect
