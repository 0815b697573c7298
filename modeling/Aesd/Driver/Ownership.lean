/- Aesd/Driver/Ownership
   layer: system
   digest: Which blocks a device owns over whole runs, and which of them cleanup gives back. -/

import Aesd.Driver.Session

set_option autoImplicit false
set_option relaxedAutoImplicit false

namespace Aesd.Driver.Ownership

open Aesd.Foundation.BlockHeap
open Aesd.Foundation.RecordLog
open Aesd.Foundation.Run
open Aesd.Foundation.SegmentLookup
open Aesd.Driver.CircularBuffer
open Aesd.Driver.Device
open Aesd.Driver.LogRelation
open Aesd.Driver.ReadCorrect
open Aesd.Driver.WriteCorrect

variable {s : DriverState} {log : Log} {slots : List Slot} {lost : Set Nat}

section Handles

/-- The blocks that the occupied slots and the unfinished record refer to. -/
def handles (s : DriverState) : List Nat :=
  ((ring s.dev).occupied.map AesdBufferEntry.buffptr ++ [s.dev.currInput.buffptr]).flatMap Ptr.ids

theorem flatMap_slots (slots : List Slot) :
    ((slots.map slotEntry).map AesdBufferEntry.buffptr).flatMap Ptr.ids = slots.map Prod.fst := by
  induction slots with
  | nil => rfl
  | cons x slots ih =>
    rw [List.map_cons, List.map_cons, List.flatMap_cons, ih]
    rfl

theorem handles_eq (h : Represents s log slots lost) :
    handles s = slots.map Prod.fst ++ s.dev.currInput.buffptr.ids := by
  unfold handles
  rw [List.flatMap_append, h.owns.occupied, flatMap_slots, List.flatMap_singleton]

/-- The live blocks are those the device refers to. -/
def Balanced (s : DriverState) : Prop := ∀ h, h ∈ s.heap.live ↔ h ∈ handles s

theorem balanced_iff (h : Represents s log slots lost) : Balanced s ↔ lost = ∅ := by
  unfold Balanced
  rw [handles_eq h]
  constructor
  · intro hb
    apply Set.eq_empty_of_forall_notMem
    intro x hx
    have hlive : x ∈ s.heap.live := (h.owns.live x).mpr (.inr hx)
    exact h.owns.unowned x hx ((hb x).mp hlive)
  · rintro rfl x
    rw [h.owns.live x]
    exact or_iff_left (Set.notMem_empty x)

end Handles

section Cleanup

theorem freeSlots_eq (entry : Nat → AesdBufferEntry) (left : Nat) :
    ∀ (i : Nat) (m : Heap UInt8), i + left ≤ maxWriteOperationsSupported →
      freeSlots entry left i m = Heap.freeList ((window entry maxWriteOperationsSupported i
        left).map AesdBufferEntry.buffptr) m := by
  induction left with
  | zero => exact fun _ _ _ => rfl
  | succ left ih =>
    intro i m hi
    have hmod : i % maxWriteOperationsSupported = i := Nat.mod_eq_of_lt (by omega)
    rw [freeSlots, window_cons, hmod, List.map_cons, Heap.freeList]
    cases m.free (entry i).buffptr with
    | error e => rfl
    | ok m' => exact ih (i + 1) m' (by omega)

/-- The walk frees the `n` slots up to the one it has to stop at. -/
theorem freeWalk_eq (entry : Nat → AesdBufferEntry) (inOffs n : Nat) :
    ∀ (rounds i : Nat) (m : Heap UInt8), n < rounds → i < maxWriteOperationsSupported →
      (i + n) % maxWriteOperationsSupported = inOffs →
      (∀ j < n, (i + j) % maxWriteOperationsSupported ≠ inOffs) →
      freeWalk entry inOffs rounds i m = Heap.freeList ((window entry maxWriteOperationsSupported i
        n).map AesdBufferEntry.buffptr) m := by
  induction n with
  | zero =>
    intro rounds i m hr hi hend hbefore
    obtain ⟨rounds, rfl⟩ : ∃ k, rounds = k + 1 := ⟨rounds - 1, by omega⟩
    have hstop : i = inOffs := by rwa [Nat.add_zero, Nat.mod_eq_of_lt hi] at hend
    rw [freeWalk, if_pos hstop]
    rfl
  | succ n ih =>
    intro rounds i m hr hi hend hbefore
    obtain ⟨rounds, rfl⟩ : ∃ k, rounds = k + 1 := ⟨rounds - 1, by omega⟩
    have hmod : i % maxWriteOperationsSupported = i := Nat.mod_eq_of_lt hi
    have hgo : ¬i = inOffs := by
      have hfirst := hbefore 0 (Nat.succ_pos n)
      rwa [Nat.add_zero, hmod] at hfirst
    have hnext : ∀ j, ((i + 1) % maxWriteOperationsSupported + j) % maxWriteOperationsSupported =
        (i + (j + 1)) % maxWriteOperationsSupported := by
      intro j
      rw [Nat.mod_add_mod, Nat.add_assoc, Nat.add_comm 1 j]
    rw [freeWalk, if_neg hgo, window_cons, hmod, List.map_cons, Heap.freeList]
    cases m.free (entry i).buffptr with
    | error e => rfl
    | ok m' =>
      have hwalk := ih rounds ((i + 1) % maxWriteOperationsSupported) m' (by omega)
        (Nat.mod_lt _ (by decide)) ((hnext n).trans hend)
        (fun j hj => by rw [hnext j]; exact hbefore (j + 1) (Nat.succ_lt_succ hj))
      rw [window_mod] at hwalk
      exact hwalk

/-- Cleanup frees every occupied slot once, in some order, and then the unfinished record. -/
theorem freeAll_eq {dev : AesdDev} (h : (ring dev).WellFormed) (m : Heap UInt8) :
    ∃ ps, List.Perm ps ((ring dev).occupied.map AesdBufferEntry.buffptr) ∧
      freeAllAesdDevBuffer dev m = Heap.freeList (ps ++ [dev.currInput.buffptr]) m := by
  have hlast : ∀ m : Heap UInt8,
      m.free dev.currInput.buffptr = Heap.freeList [dev.currInput.buffptr] m := by
    intro m
    rw [Heap.freeList]
    cases m.free dev.currInput.buffptr <;> rfl
  cases hf : dev.full with
  | true =>
    have hcount : (ring dev).count = maxWriteOperationsSupported := if_pos hf
    have hperm := window_perm dev.entry (show 0 < maxWriteOperationsSupported by decide)
      dev.outOffs
    refine ⟨(window dev.entry maxWriteOperationsSupported 0 maxWriteOperationsSupported).map
      AesdBufferEntry.buffptr, ?_, ?_⟩
    · apply List.Perm.map
      rw [AesdCircularBuffer.occupied, hcount]
      exact hperm.symm
    · unfold freeAllAesdDevBuffer
      rw [hf, if_pos rfl, freeSlots_eq _ _ _ _ (by omega), Heap.freeList_append]
      simp only [hlast]
  | false =>
    have hin : dev.inOffs < 10 := h.inOffs_lt
    have hout : dev.outOffs < 10 := h.outOffs_lt
    have hcount : (ring dev).count = (dev.inOffs + 10 - dev.outOffs) % 10 := by
      simp [AesdCircularBuffer.count, ring, hf]
    refine ⟨(ring dev).occupied.map AesdBufferEntry.buffptr, List.Perm.refl _, ?_⟩
    unfold freeAllAesdDevBuffer
    rw [hf, freeWalk_eq dev.entry dev.inOffs (ring dev).count maxWriteOperationsSupported
      dev.outOffs m ?_ hout ?_ ?_, Heap.freeList_append]
    · simp only [hlast, Bool.false_eq_true, if_false]
      rfl
    · rw [hcount]
      exact Nat.mod_lt _ (by decide)
    · rw [hcount]
      simp only [maxWriteOperationsSupported]
      omega
    · intro j hj
      rw [hcount] at hj
      simp only [maxWriteOperationsSupported]
      omega

/-- Cleanup runs without a fault and leaves exactly the blocks that were lost before. -/
theorem cleanup_spec (h : Represents s log slots lost) :
    ∃ m, aesdCleanupModule s = .ok m ∧ m.live = lost := by
  obtain ⟨ps, hperm, hfree⟩ := freeAll_eq h.owns.grown.toWellFormed s.heap
  have hids : List.Perm ((ps ++ [s.dev.currInput.buffptr]).flatMap Ptr.ids)
      (slots.map Prod.fst ++ s.dev.currInput.buffptr.ids) := by
    rw [← handles_eq h]
    exact (hperm.append_right _).flatMap_right _
  have hlive : ∀ x ∈ (ps ++ [s.dev.currInput.buffptr]).flatMap Ptr.ids, x ∈ s.heap.live := by
    intro x hx
    exact (h.owns.live x).mpr (.inl (hids.mem_iff.mp hx))
  obtain ⟨m, hm, hleft⟩ := Heap.freeList_spec _ hlive (hids.nodup_iff.mpr h.owns.nodup)
  refine ⟨m, hfree.trans hm, ?_⟩
  rw [hleft]
  ext x
  rw [Set.mem_sdiff, h.owns.live x, Set.mem_ofPred_eq, hids.mem_iff]
  constructor
  · rintro ⟨hx | hx, hnot⟩
    · exact absurd hx hnot
    · exact hx
  · exact fun hx => ⟨.inr hx, h.owns.unowned x hx⟩

end Cleanup

section Runs

/-- A call of either operation with the circumstances under which it runs. -/
inductive Call
  | write (env : WriteEnv) (payload : List UInt8)
  | read (env : ReadEnv) (count fPos : Nat)

def callStep (s : DriverState) : Call → Except Fault DriverState
  | .write env payload => do
    let (_, s) ← aesdWrite env payload s
    pure s
  | .read env count fPos => do
    let result ← aesdRead env count fPos s
    pure result.state

/-- The blocks nothing refers to any more after a call. -/
def lostAfter (s : DriverState) (lost : Set Nat) : Call → Set Nat
  | .write env payload => lostAfterWrite env payload s lost
  | .read _ _ _ => lost

theorem callStep_represents (h : Represents s log slots lost) (call : Call) :
    ∃ s' log' slots', callStep s call = .ok s' ∧
      Represents s' log' slots' (lostAfter s lost call) := by
  cases call with
  | write env payload =>
    obtain ⟨r, s', slots', hrun, hrep, -⟩ := aesdWrite_spec h env payload
    refine ⟨s', _, slots', ?_, hrep⟩
    simp only [callStep, hrun, ok_bind, pure_eq_ok]
  | read env count fPos =>
    obtain ⟨result, hrun, hu⟩ := aesdRead_total h env count fPos
    refine ⟨result.state, log, slots, ?_, hu.represents h⟩
    simp only [callStep, hrun, ok_bind, pure_eq_ok]

theorem runCalls (calls : List Call) :
    ∃ s, run callStep aesdInitModule calls = .ok s ∧
      ∃ log slots lost, Represents s log slots lost := by
  apply run_total (I := fun s => ∃ log slots lost, Represents s log slots lost)
  · rintro s call ⟨log, slots, lost, h⟩
    obtain ⟨s', log', slots', hstep, hrep⟩ := callStep_represents h call
    exact ⟨s', hstep, log', slots', _, hrep⟩
  · exact ⟨_, _, _, represents_init⟩

/-- A run of calls of either operation, whatever the kernel does to each of them, completes: no
pointer is freed that is neither live nor NULL nor ZERO_SIZE_PTR, and no block is accessed after
it was freed. What the device refers to between the calls is live and distinct, and cleanup of
the device is as free of faults. -/
theorem no_double_free (calls : List Call) :
    ∃ s, run callStep aesdInitModule calls = .ok s ∧
      (∀ h ∈ handles s, h ∈ s.heap.live) ∧ (handles s).Nodup ∧
      ∃ m, aesdCleanupModule s = .ok m := by
  obtain ⟨s, hrun, log, slots, lost, h⟩ := runCalls calls
  obtain ⟨m, hm, -⟩ := cleanup_spec h
  refine ⟨s, hrun, ?_, ?_, m, hm⟩
  · intro x hx
    rw [handles_eq h] at hx
    exact (h.owns.live x).mpr (.inl hx)
  · rw [handles_eq h]
    exact h.owns.nodup

end Runs

section Leak

/-- The write finds a real block behind an empty unfinished record and gets its own buffer. -/
def Forgets (env : WriteEnv) (payload : List UInt8) (s : DriverState) : Prop :=
  s.dev.currInput.size = 0 ∧ s.dev.currInput.buffptr.ids ≠ [] ∧
    (payload = [] ∨ (env.kmalloc 0 = true ∧ payload.length < kmallocLimit))

/-- The only block a write can lose is the one behind an empty unfinished record. -/
theorem lostAfterWrite_eq_empty_iff (env : WriteEnv) (payload : List UInt8) (s : DriverState) :
    lostAfterWrite env payload s ∅ = ∅ ↔ ¬Forgets env payload s := by
  have hdropped : dropped s = ∅ ↔
      ¬(s.dev.currInput.size = 0 ∧ s.dev.currInput.buffptr.ids ≠ []) := by
    rw [Set.eq_empty_iff_forall_notMem]
    constructor
    · rintro hnone ⟨hz, hne⟩
      obtain ⟨x, hx⟩ := List.exists_mem_of_ne_nil _ hne
      exact hnone x ⟨hz, hx⟩
    · rintro hnot x ⟨hz, hx⟩
      exact hnot ⟨hz, List.ne_nil_of_mem hx⟩
  unfold lostAfterWrite Forgets
  rcases kmalloc_cases (env.kmalloc 0) (s.dev.currInput.size + payload.length) s.heap with
    ⟨hz, hk⟩ | ⟨hpos, hok, hk⟩ | ⟨hpos, hbad, hk⟩
  · have hnil : payload = [] := List.length_eq_zero_iff.mp (by omega)
    rw [hk, if_neg (by simp), Set.empty_union, hdropped]
    tauto
  · rw [hk, if_neg (by simp), Set.empty_union, hdropped]
    have hfit : s.dev.currInput.size = 0 → payload.length < kmallocLimit := by
      intro hz
      omega
    tauto
  · rw [hk, if_pos rfl]
    apply iff_of_true rfl
    rintro ⟨hz, -, hnil | hok⟩
    · rw [hz, hnil, List.length_nil] at hpos
      omega
    · rw [hz, Nat.zero_add] at hbad
      exact hbad hok

/-- As long as no write forgets a block, none is lost. -/
theorem nothing_lost (calls : List Call)
    (hwrites : ∀ pre env payload s, pre ++ [.write env payload] <+: calls →
      run callStep aesdInitModule pre = .ok s → ¬Forgets env payload s) :
    ∀ s, run callStep aesdInitModule calls = .ok s → ∃ log slots, Represents s log slots ∅ := by
  induction calls using List.reverseRecOn with
  | nil =>
    intro s hrun
    obtain rfl : aesdInitModule = s := by simpa using hrun
    exact ⟨_, _, represents_init⟩
  | append_singleton calls call ih =>
    intro s hrun
    obtain ⟨s₁, hrun₁, hstep⟩ := run_concat_inv hrun
    have hbefore : ∀ pre env payload s, pre ++ [.write env payload] <+: calls →
        run callStep aesdInitModule pre = .ok s → ¬Forgets env payload s := by
      intro pre env payload s hpre
      exact hwrites pre env payload s (hpre.trans (List.prefix_append _ _))
    obtain ⟨log, slots, h⟩ := ih hbefore s₁ hrun₁
    obtain ⟨s', log', slots', hstep', hrep⟩ := callStep_represents h call
    rw [hstep] at hstep'
    obtain rfl := Except.ok.inj hstep'
    refine ⟨log', slots', ?_⟩
    cases call with
    | write env payload =>
      have hnot := hwrites calls env payload s₁ (List.prefix_refl _) hrun₁
      have hempty := (lostAfterWrite_eq_empty_iff env payload s₁).mpr hnot
      rw [lostAfter, hempty] at hrep
      exact hrep
    | read env count fPos => exact hrep

/-- A block that a write forgets is lost for good: the live blocks are those the device refers to
in every state of a run, and cleanup leaves none, exactly when no write of the run forgets one. -/
theorem no_leak_iff (calls : List Call) :
    (∀ pre s, pre <+: calls → run callStep aesdInitModule pre = .ok s →
      Balanced s ∧ ∃ m, aesdCleanupModule s = .ok m ∧ m.live = ∅) ↔
    (∀ pre env payload s, pre ++ [.write env payload] <+: calls →
      run callStep aesdInitModule pre = .ok s → ¬Forgets env payload s) := by
  constructor
  · intro hbalanced pre env payload s hpre hrun hforgets
    have hpre' : pre <+: calls := (List.prefix_append _ _).trans hpre
    obtain ⟨st, hst, log, slots, lost, h⟩ := runCalls pre
    rw [hrun] at hst
    obtain rfl := Except.ok.inj hst
    have hlost := (balanced_iff h).mp (hbalanced pre s hpre' hrun).1
    subst hlost
    obtain ⟨s', log', slots', hstep, hrep⟩ := callStep_represents h (.write env payload)
    have hrun' : run callStep aesdInitModule (pre ++ [.write env payload]) = .ok s' := by
      rw [run_concat hrun, hstep]
    have hempty := (balanced_iff hrep).mp (hbalanced _ s' hpre hrun').1
    exact (lostAfterWrite_eq_empty_iff env payload s).mp hempty hforgets
  · intro hwrites pre s hpre hrun
    have hbefore : ∀ pre' env payload s, pre' ++ [.write env payload] <+: pre →
        run callStep aesdInitModule pre' = .ok s → ¬Forgets env payload s := by
      intro pre' env payload s hpre'
      exact hwrites pre' env payload s (hpre'.trans hpre)
    obtain ⟨log, slots, h⟩ := nothing_lost pre hbefore s hrun
    exact ⟨(balanced_iff h).mpr rfl, cleanup_spec h⟩

/-- A line and then one more byte, with every allocation and copy succeeding: the buffer that was
allocated behind the line is live, nothing refers to it, and cleanup does not free it. -/
theorem leak_after_line :
    ∃ s, run callStep aesdInitModule
        [.write ⟨fun _ => true, 2⟩ [97, 10], .write ⟨fun _ => true, 1⟩ [98]] = .ok s ∧
      ¬Balanced s ∧ ∃ m, aesdCleanupModule s = .ok m ∧ m.live ≠ ∅ := by
  refine ⟨_, rfl, ?_, _, rfl, ?_⟩
  · intro hb
    have hmem := (hb 1).mp (@Heap.live_of_blocks UInt8 _ 1 [none] rfl)
    revert hmem
    decide
  · apply Set.Nonempty.ne_empty
    exact ⟨1, @Heap.live_of_blocks UInt8 _ 1 [none] rfl⟩

end Leak

end Aesd.Driver.Ownership
