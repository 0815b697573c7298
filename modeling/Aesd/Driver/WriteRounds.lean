/- Aesd/Driver/WriteRounds
   layer: refinement
   digest: The byte loop of aesd_write round by round, and the invariant of its loop head. -/

import Aesd.Driver.Commit

set_option autoImplicit false
set_option relaxedAutoImplicit false

namespace Aesd.Driver.WriteRounds

open Aesd.Foundation.BlockHeap
open Aesd.Foundation.RecordLog
open Aesd.Driver.CircularBuffer
open Aesd.Driver.Device
open Aesd.Driver.LogRelation
open Aesd.Driver.Commit

section Rounds

/-- The variables of `aesd_write` at the head of its byte loop. -/
structure LoopHead where
  i : Nat
  currSize : Nat
  newBuf : Ptr
  state : DriverState

/-- One round of the byte loop: the next loop head, or what the call returns. -/
def aesdWriteRound (env : WriteEnv) (count : Nat) (head : LoopHead) :
    Except Fault (LoopHead ⊕ (Int × DriverState)) := do
  let c ← head.state.heap.load head.newBuf head.currSize 1
  if c = [newline] then do
    let s ← commitEntry head.state head.newBuf head.currSize
    let remaining ← checkedSub count head.i
    let remaining ← checkedSub remaining 1
    let (newBuf, heap) := kmalloc (env.kmalloc (head.i + 1)) (remaining + 1) s.heap
    if newBuf = .null then
      pure (.inr (((head.i + 1 : Nat) : Int),
        { dev := { s.dev with currInput := ⟨.null, 0⟩ }, heap := heap }))
    else do
      let heap ← copyRemaining newBuf head.newBuf head.currSize remaining heap
      pure (.inl
        { i := head.i + 1
          currSize := 0
          newBuf := newBuf
          state := { dev := { s.dev with currInput := ⟨newBuf, remaining⟩ }, heap := heap } })
  else pure (.inl { head with i := head.i + 1, currSize := head.currSize + 1 })

/-- What is left of a call after a round, with `left` rounds to go. -/
def resume (env : WriteEnv) (count left : Nat) :
    LoopHead ⊕ (Int × DriverState) → Except Fault (Int × DriverState)
  | .inl head => aesdWriteLoop env count left head.i head.currSize head.newBuf head.state
  | .inr result => .ok result

/-- The loop is its first round followed by the rest of the loop. -/
theorem aesdWriteLoop_succ (env : WriteEnv) (count left : Nat) (head : LoopHead) :
    aesdWriteLoop env count (left + 1) head.i head.currSize head.newBuf head.state =
      (aesdWriteRound env count head >>= resume env count left) := by
  rw [aesdWriteLoop, aesdWriteRound]
  cases head.state.heap.load head.newBuf head.currSize 1 with
  | error f => rfl
  | ok c =>
    simp only [ok_bind]
    by_cases hc : c = [newline]
    · rw [if_pos hc, if_pos hc]
      simp only [bind_assoc]
      congr 1
      funext s
      congr 1
      funext remaining
      congr 1
      funext remaining
      split_ifs with hnull
      · rfl
      · rw [bind_assoc]
        rfl
    · rw [if_neg hc, if_neg hc]
      rfl

end Rounds

section Invariant

variable {log : Log} {slots : List Slot} {lost : Set Nat} {rest : List UInt8}

/-- At a loop head the device stands for the log of the bytes scanned so far, and `rest` is what
the working buffer holds behind its unfinished record. -/
structure AtHead (count : Nat) (head : LoopHead) (log : Log) (slots : List Slot) (lost : Set Nat)
    (rest : List UInt8) : Prop where
  owns : Owns (ring head.state.dev) head.state.dev.totalBytesEvicted head.state.heap log slots
    lost head.newBuf rest
  index : head.i + rest.length = count
  size : head.currSize = log.pending.length

theorem newline_iff (c : UInt8) : [c] = [newline] ↔ isNewline c = true := by
  simp [isNewline]

/-- The byte examined at a loop head is the first one not scanned yet. -/
theorem AtHead.load {count : Nat} {head : LoopHead} {c : UInt8}
    (h : AtHead count head log slots lost (c :: rest)) :
    head.state.heap.load head.newBuf head.currSize 1 = .ok [c] := by
  obtain ⟨k, hk, hholds⟩ := h.owns.buffer (by simp)
  have hsplit : log.pending ++ c :: rest = log.pending ++ [c] ++ rest := by simp
  rw [hk, h.size]
  exact Heap.load_eq (hsplit ▸ hholds) rfl rfl

/-- A byte that ends no record joins the unfinished one. -/
theorem AtHead.scan (env : WriteEnv) {count : Nat} {head : LoopHead} {c : UInt8}
    (h : AtHead count head log slots lost (c :: rest)) (hc : isNewline c = false) :
    aesdWriteRound env count head =
        .ok (.inl { head with i := head.i + 1, currSize := head.currSize + 1 }) ∧
      AtHead count { head with i := head.i + 1, currSize := head.currSize + 1 }
        (log.push isNewline c) slots lost rest := by
  obtain ⟨k, hk, hholds⟩ := h.owns.buffer (by simp)
  have hsplit : log.pending ++ c :: rest = log.pending ++ [c] ++ rest := by simp
  have hpush := log.push_of_not_end hc
  have hne : ¬[c] = [newline] := by
    intro he
    rw [newline_iff, hc] at he
    cases he
  have hown := h.owns
  have hindex := h.index
  constructor
  · rw [aesdWriteRound, h.load, ok_bind, if_neg hne]
    rfl
  · refine ⟨?_, ?_, ?_⟩
    · rw [hpush]
      exact
        { hown with
          inOffs := hown.inOffs
          records := hown.records
          evicted := hown.evicted
          wellCut := hpush ▸ hown.wellCut.push c
          buffer := fun _ => ⟨k, hk, hsplit ▸ hholds⟩
          bufferSmall := hsplit ▸ hown.bufferSmall }
    · rw [List.length_cons] at hindex
      simp only
      omega
    · rw [hpush, List.length_append, List.length_singleton, ← h.size]

/-- A newline commits the record. Then the bytes not scanned yet move to a fresh buffer, or there
is none and the call ends with a short count. -/
theorem AtHead.commit (env : WriteEnv) {count : Nat} {head : LoopHead} {c : UInt8}
    (h : AtHead count head log slots lost (c :: rest)) (hc : isNewline c = true) :
    ∃ slots',
      (env.kmalloc (head.i + 1) = true ∧ ∃ head',
        aesdWriteRound env count head = .ok (.inl head') ∧ head'.i = head.i + 1 ∧
        AtHead count head' (log.push isNewline c) slots' lost rest) ∨
      (env.kmalloc (head.i + 1) = false ∧ ∃ s',
        aesdWriteRound env count head = .ok (.inr (((head.i + 1 : Nat) : Int), s')) ∧
        Represents s' (log.push isNewline c) slots' lost) := by
  have hload := h.load
  have hindex := h.index
  obtain ⟨hown, -, hsize⟩ := h
  obtain ⟨k, hk, -⟩ := hown.buffer (by simp)
  rw [hk] at hown
  obtain ⟨s₁, slots₁, hcommit, hown₁, hkeep⟩ := commitEntry_spec hown hc
  rw [← hk, ← hsize] at hcommit
  have hpush := log.push_of_end hc
  rw [List.length_cons] at hindex
  have hsub : checkedSub count head.i = .ok (rest.length + 1) := by
    rw [checkedSub_eq (by omega)]
    congr 1
    omega
  have hsub' : checkedSub (rest.length + 1) 1 = .ok rest.length := checkedSub_eq (by omega)
  have hsmall : rest.length + 1 < kmallocLimit := by
    have hle := hown.bufferSmall
    simp only [List.length_append, List.length_cons] at hle
    omega
  refine ⟨slots₁, ?_⟩
  rw [aesdWriteRound, hload, ok_bind, if_pos ((newline_iff c).mpr hc), hcommit, ok_bind, hsub,
    ok_bind, hsub', ok_bind]
  rcases kmalloc_cases (env.kmalloc (head.i + 1)) (rest.length + 1) s₁.heap with
    ⟨hz, -⟩ | ⟨-, hok, hm⟩ | ⟨-, hbad, hm⟩
  · omega
  · -- the bytes not yet scanned move to a fresh buffer and the scan goes on there
    have hsrc : s₁.heap.Holds k ((log.pending ++ [c]) ++ rest ++ []) := by simpa using hkeep
    obtain ⟨m, hcopy, hblock, hsame, hlive⟩ := Heap.alloc_memcpy hsrc (Nat.le_succ rest.length)
    have hrun : copyRemaining (.block s₁.heap.next) head.newBuf head.currSize rest.length
        (s₁.heap.alloc (rest.length + 1)) = .ok m := by
      rw [List.length_append, List.length_singleton, ← hsize, ← hk] at hcopy
      rw [copyRemaining]
      split_ifs with hr
      · exact hcopy
      · have hr0 : rest.length = 0 := by omega
        rw [hr0, Heap.memcpy_zero] at hcopy
        rw [hr0]
        exact hcopy
    have howned : ∀ x, x ∈ slots₁.map Prod.fst ∨ x ∈ lost → x ∈ s₁.heap.live := by
      intro x hx
      rw [hown₁.live x, Ptr.ids_null, List.append_nil]
      exact hx
    have hnext : Owns (ring s₁.dev) s₁.dev.totalBytesEvicted m (log.push isNewline c) slots₁
        lost (.block s₁.heap.next) rest := by
      refine hown₁.replace (fun x hx => hsame x (howned x hx)) ?_ ?_ ?_ ?_
      · intro x
        rw [hlive, Set.mem_insert_iff, hown₁.live x]
        simp only [Ptr.ids_null, List.append_nil, Ptr.ids_block, List.mem_singleton]
        tauto
      · intro x hx hmem
        rw [Ptr.ids_block, List.mem_singleton] at hx
        exact s₁.heap.next_not_live (hx ▸ howned x hmem)
      · intro _
        refine ⟨_, rfl, List.replicate (rest.length + 1 - rest.length) none, ?_⟩
        rw [hpush, List.nil_append, hblock]
      · rw [hpush, List.nil_append]
        omega
    left
    simp only [hm, reduceCtorEq, if_false]
    rw [hrun, ok_bind]
    refine ⟨hok.1, _, rfl, rfl, hnext, ?_, ?_⟩
    · simp only
      omega
    · rw [hpush]
      rfl
  · -- the rest of the payload is given up and the call reports a short count
    right
    have hfail : env.kmalloc (head.i + 1) = false := by
      rw [← Bool.not_eq_true]
      exact fun hok => hbad ⟨hok, hsmall⟩
    simp only [hm, if_true]
    refine ⟨hfail, _, rfl, hown₁, ?_⟩
    rw [hpush]
    rfl

end Invariant

end Aesd.Driver.WriteRounds
