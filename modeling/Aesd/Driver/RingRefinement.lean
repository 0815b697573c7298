/- Aesd/Driver/RingRefinement
   layer: refinement
   digest: The ring inside the device refines the circular buffer module, commit by commit. -/

import Aesd.Driver.Session

set_option autoImplicit false
set_option relaxedAutoImplicit false

namespace Aesd.Driver.RingRefinement

open Aesd.Foundation.BlockHeap
open Aesd.Foundation.RecordLog
open Aesd.Foundation.Run
open Aesd.Driver.CircularBuffer
open Aesd.Driver.Device
open Aesd.Driver.LogRelation
open Aesd.Driver.Commit
open Aesd.Driver.WriteRounds
open Aesd.Driver.WriteCorrect
open Aesd.Driver.Session

variable {s : DriverState} {log : Log} {slots : List Slot} {lost : Set Nat}

section Commits

/-- The driver's add helper is the add of the circular buffer module on the ring. -/
theorem ring_aesdDevAddEntry (dev : AesdDev) (e : AesdBufferEntry) :
    ring (aesdDevAddEntry dev e) = aesdCircularBufferAddEntry (ring dev) e := by
  cases hfull : dev.full with
  | true => simp [aesdDevAddEntry, aesdCircularBufferAddEntry, ring, hfull]
  | false =>
    by_cases hlast : (dev.inOffs + 1) % maxWriteOperationsSupported = dev.outOffs
    · simp [aesdDevAddEntry, aesdCircularBufferAddEntry, ring, hfull, hlast]
    · simp [aesdDevAddEntry, aesdCircularBufferAddEntry, ring, hfull, hlast]

/-- A newline commit that the write of `buf` performs from `s`: the device before it, the entry
committed and the device after it. -/
def Commits (env : WriteEnv) (buf : List UInt8) (s before : DriverState) (e : AesdBufferEntry)
    (after : DriverState) : Prop :=
  ∃ head : LoopHead, Visits env buf s head ∧ head.i < buf.length ∧
    head.state.heap.load head.newBuf head.currSize 1 = .ok [newline] ∧
    head.state = before ∧ (⟨head.newBuf, head.currSize + 1⟩ : AesdBufferEntry) = e ∧
    commitEntry before head.newBuf head.currSize = .ok after

/-- The log around a commit: the record it completes and the bytes still to be scanned. -/
theorem Commits.atHead {env : WriteEnv} {buf : List UInt8} {before after : DriverState}
    {e : AesdBufferEntry} (hc : Commits env buf s before e after)
    (h : Represents s log slots lost) :
    ∃ log' slots' k rest, Owns (ring before.dev) before.dev.totalBytesEvicted before.heap log'
        slots' (lostAfterWrite env buf s lost) (.block k) (newline :: rest) ∧
      e = ⟨.block k, log'.pending.length + 1⟩ ∧
      commitEntry before (.block k) log'.pending.length = .ok after := by
  obtain ⟨head, hv, hlt, hload, rfl, rfl, hcommit⟩ := hc
  obtain ⟨-, slots', hhead⟩ := hv.atHead h
  rw [List.drop_eq_getElem_cons hlt] at hhead
  have hbyte := hhead.load
  rw [hload] at hbyte
  have hnl : newline = buf[head.i] := (List.cons.inj (Except.ok.inj hbyte)).1
  obtain ⟨hown, -, hsize⟩ := hhead
  rw [← hnl] at hown
  obtain ⟨k, hk, -⟩ := hown.buffer (by simp)
  rw [hk] at hown hcommit
  rw [hsize] at hcommit
  exact ⟨_, slots', k, _, hown, by rw [hk, hsize], hcommit⟩

/-- Each commit changes the ring as both add functions do. -/
theorem Commits.ring {env : WriteEnv} {buf : List UInt8} {before after : DriverState}
    {e : AesdBufferEntry} (hc : Commits env buf s before e after)
    (h : Represents s log slots lost) :
    ring after.dev = aesdCircularBufferAddEntry (ring before.dev) e ∧
      ring after.dev = LogRelation.ring (aesdDevAddEntry before.dev e) := by
  obtain ⟨log', slots', k, rest, hown, rfl, hcommit⟩ := hc.atHead h
  have hring := commitEntry_ring hown.grown.toWellFormed hcommit
  exact ⟨hring, hring.trans (ring_aesdDevAddEntry _ _).symm⟩

end Commits

section Trace

/-- The entry that the round at a loop head commits, if it commits one. -/
def committing (head : LoopHead) : List AesdBufferEntry :=
  match head.state.heap.load head.newBuf head.currSize 1 with
  | .ok c => if c = [newline] then [⟨head.newBuf, head.currSize + 1⟩] else []
  | .error _ => []

/-- The device after a round. -/
def outcomeState : LoopHead ⊕ (Int × DriverState) → DriverState
  | .inl head => head.state
  | .inr result => result.2

/-- A round adds to the ring what it commits, and nothing else. -/
theorem aesdWriteRound_ring {env : WriteEnv} {count : Nat} {head : LoopHead}
    {out : LoopHead ⊕ (Int × DriverState)} (hwf : (ring head.state.dev).WellFormed)
    (hrun : aesdWriteRound env count head = .ok out) :
    ring (outcomeState out).dev =
      (committing head).foldl aesdCircularBufferAddEntry (ring head.state.dev) := by
  rw [aesdWriteRound] at hrun
  rw [committing]
  cases hload : head.state.heap.load head.newBuf head.currSize 1 with
  | error f =>
    rw [hload] at hrun
    cases hrun
  | ok c =>
    rw [hload, ok_bind] at hrun
    by_cases hc : c = [newline]
    · rw [if_pos hc] at hrun
      simp only [if_pos hc, List.foldl_cons, List.foldl_nil]
      cases hcommit : commitEntry head.state head.newBuf head.currSize with
      | error f =>
        rw [hcommit] at hrun
        cases hrun
      | ok s₁ =>
        have hring := commitEntry_ring hwf hcommit
        rw [hcommit, ok_bind] at hrun
        rw [← hring]
        obtain ⟨remaining, -, hrun⟩ := bind_ok hrun
        obtain ⟨remaining', -, hrun⟩ := bind_ok hrun
        simp only at hrun
        split_ifs at hrun with hnull
        · obtain rfl := Except.ok.inj hrun
          rfl
        · obtain ⟨m, -, hrun⟩ := bind_ok hrun
          obtain rfl := Except.ok.inj hrun
          rfl
    · rw [if_neg hc] at hrun
      obtain rfl := Except.ok.inj hrun
      simp only [if_neg hc, List.foldl_nil]
      rfl

/-- The entries that the loop commits from a loop head on, with `left` rounds to go. -/
def committedFrom (env : WriteEnv) (count : Nat) : (left : Nat) → LoopHead → List AesdBufferEntry
  | 0, _ => []
  | left + 1, head =>
    committing head ++
      match aesdWriteRound env count head with
      | .ok (.inl next) => committedFrom env count left next
      | _ => []

/-- The entries that a call commits, in the order in which it commits them. -/
def committed (env : WriteEnv) (buf : List UInt8) (s : DriverState) : List AesdBufferEntry :=
  match aesdWriteEntry env buf s with
  | .ok (.inl head) => committedFrom env buf.length buf.length head
  | _ => []

theorem aesdWriteLoop_ring {env : WriteEnv} {count left : Nat} {head : LoopHead} {r : Int}
    {s' : DriverState} (hwf : (ring head.state.dev).WellFormed)
    (hrun : aesdWriteLoop env count left head.i head.currSize head.newBuf head.state =
      .ok (r, s')) :
    ring s'.dev = (committedFrom env count left head).foldl aesdCircularBufferAddEntry
      (ring head.state.dev) := by
  induction left generalizing head with
  | zero =>
    obtain ⟨rfl, rfl⟩ := Prod.mk.inj (Except.ok.inj hrun)
    rfl
  | succ left ih =>
    rw [aesdWriteLoop_succ] at hrun
    obtain ⟨out, hround, hrest⟩ := bind_ok hrun
    have hring := aesdWriteRound_ring hwf hround
    rw [committedFrom, hround, List.foldl_append, ← hring]
    cases out with
    | inl next =>
      have hnext : (ring next.state.dev).WellFormed := by
        have hout : ring next.state.dev = (committing head).foldl aesdCircularBufferAddEntry
            (ring head.state.dev) := hring
        rw [hout]
        exact hwf.foldl_add _
      exact ih hnext hrest
    | inr result =>
      obtain rfl := Except.ok.inj hrest
      rfl

/-- A call changes the ring as adding its committed entries one after the other does. -/
theorem aesdWrite_ring (h : Represents s log slots lost) {env : WriteEnv} {buf : List UInt8}
    {r : Int} {s' : DriverState} (hrun : aesdWrite env buf s = .ok (r, s')) :
    ring s'.dev = (committed env buf s).foldl aesdCircularBufferAddEntry (ring s.dev) := by
  rw [aesdWrite_eq] at hrun
  rw [committed]
  rcases aesdWriteEntry_spec h env buf with
    ⟨-, -, head, hentry, -, hring, -⟩ | ⟨-, -, s₁, hentry, hring, -⟩ | ⟨-, hentry, -⟩
  · have hwf : (ring head.state.dev).WellFormed := by
      rw [hring]
      exact h.owns.grown.toWellFormed
    rw [hentry, ok_bind] at hrun
    rw [hentry, ← hring]
    exact aesdWriteLoop_ring hwf hrun
  · rw [hentry] at hrun
    obtain ⟨rfl, rfl⟩ := Prod.mk.inj (Except.ok.inj hrun)
    rw [hentry, ← hring]
    rfl
  · rw [hentry] at hrun
    obtain ⟨rfl, rfl⟩ := Prod.mk.inj (Except.ok.inj hrun)
    rw [hentry]
    rfl

end Trace

section Lookup

/-- A slot found by the loop is one of the ten. -/
theorem findLoop_slot_lt {entry : Nat → AesdBufferEntry} {readIndex charOffset rtn : Nat}
    {n i count slot k : Nat}
    (h : findLoop entry readIndex charOffset rtn n i count = (some slot, k)) :
    slot < maxWriteOperationsSupported := by
  induction n generalizing i count with
  | zero => cases h
  | succ n ih =>
    rw [findLoop] at h
    split_ifs at h with hfound
    · obtain ⟨hslot, -⟩ := Prod.mk.inj h
      rw [← Option.some.inj hslot]
      exact Nat.mod_lt _ (by decide)
    · exact ih h

/-- The driver's lookup reports a slot and a position if and only if the lookup of the circular
buffer module does so on the ring, at the offset reduced by the evicted bytes. -/
theorem devFind_iff_ring {dev : AesdDev} {charOffset : Nat}
    (hle : dev.totalBytesEvicted ≤ charOffset) (rtn slot k : Nat) :
    (slot < maxWriteOperationsSupported ∧
      aesdDevFindEntryOffsetForFpos dev charOffset rtn = (slot, k)) ↔
    aesdCircularBufferFindEntryOffsetForFpos (ring dev) (charOffset - dev.totalBytesEvicted) rtn =
      (some slot, k) := by
  have hloop : aesdCircularBufferFindEntryOffsetForFpos (ring dev)
      (charOffset - dev.totalBytesEvicted) rtn =
        findLoop dev.entry dev.outOffs (charOffset - dev.totalBytesEvicted) rtn
          (numEntries dev.inOffs dev.outOffs dev.full) 0 0 := rfl
  rw [hloop, aesdDevFindEntryOffsetForFpos, if_neg (Nat.not_lt.mpr hle)]
  rcases hfind : findLoop dev.entry dev.outOffs (charOffset - dev.totalBytesEvicted) rtn
      (numEntries dev.inOffs dev.outOffs dev.full) 0 0 with ⟨_ | found, pos⟩
  · constructor
    · rintro ⟨hlt, he⟩
      exact absurd (Prod.mk.inj he).1 (Nat.ne_of_gt hlt)
    · intro he
      cases he
  · have hlt := findLoop_slot_lt hfind
    constructor
    · rintro ⟨-, he⟩
      obtain ⟨rfl, rfl⟩ := Prod.mk.inj he
      rfl
    · intro he
      obtain ⟨hslot, rfl⟩ := Prod.mk.inj he
      obtain rfl := Option.some.inj hslot
      exact ⟨hlt, rfl⟩

/-- Both lookups leave the offset variable alone and report nothing in the same cases. -/
theorem devFind_none_iff_ring {dev : AesdDev} {charOffset : Nat}
    (hle : dev.totalBytesEvicted ≤ charOffset) (rtn k : Nat) :
    aesdDevFindEntryOffsetForFpos dev charOffset rtn = (maxWriteOperationsSupported, k) ↔
    aesdCircularBufferFindEntryOffsetForFpos (ring dev) (charOffset - dev.totalBytesEvicted) rtn =
      (none, k) := by
  have hloop : aesdCircularBufferFindEntryOffsetForFpos (ring dev)
      (charOffset - dev.totalBytesEvicted) rtn =
        findLoop dev.entry dev.outOffs (charOffset - dev.totalBytesEvicted) rtn
          (numEntries dev.inOffs dev.outOffs dev.full) 0 0 := rfl
  rw [hloop, aesdDevFindEntryOffsetForFpos, if_neg (Nat.not_lt.mpr hle)]
  rcases hfind : findLoop dev.entry dev.outOffs (charOffset - dev.totalBytesEvicted) rtn
      (numEntries dev.inOffs dev.outOffs dev.full) 0 0 with ⟨_ | found, pos⟩
  · constructor
    · intro he
      obtain ⟨-, rfl⟩ := Prod.mk.inj he
      rfl
    · intro he
      obtain ⟨-, rfl⟩ := Prod.mk.inj he
      rfl
  · have hlt := findLoop_slot_lt hfind
    constructor
    · intro he
      exact absurd (Prod.mk.inj he).1 (Nat.ne_of_lt hlt)
    · intro he
      cases he

end Lookup

section Refinement

/-- The ring of the device refines the circular buffer module. In every state that writes reach,
each commit of any further write changes the ring as `aesd_circular_buffer_add_entry` and
`aesd_dev_add_entry` do with the committed entry, a whole write changes it as adding its committed
entries in turn does, and the driver's lookup is the lookup on the ring at the offset reduced by
the evicted bytes. -/
theorem ring_refines (calls : List WriteCall) :
    ∃ s stream, run writeCall (aesdInitModule, []) calls = .ok (s, stream) ∧
      (∀ env payload before e after, Commits env payload s before e after →
        ring after.dev = aesdCircularBufferAddEntry (ring before.dev) e ∧
        ring after.dev = ring (aesdDevAddEntry before.dev e)) ∧
      (∀ env payload, ∃ r s', aesdWrite env payload s = .ok (r, s') ∧
        ring s'.dev = (committed env payload s).foldl aesdCircularBufferAddEntry (ring s.dev)) ∧
      (∀ charOffset rtn,
        (charOffset < s.dev.totalBytesEvicted →
          aesdDevFindEntryOffsetForFpos s.dev charOffset rtn =
            (maxWriteOperationsSupported, rtn)) ∧
        (s.dev.totalBytesEvicted ≤ charOffset →
          (∀ slot k, (slot < maxWriteOperationsSupported ∧
              aesdDevFindEntryOffsetForFpos s.dev charOffset rtn = (slot, k)) ↔
            aesdCircularBufferFindEntryOffsetForFpos (ring s.dev)
              (charOffset - s.dev.totalBytesEvicted) rtn = (some slot, k)) ∧
          (∀ k, aesdDevFindEntryOffsetForFpos s.dev charOffset rtn =
              (maxWriteOperationsSupported, k) ↔
            aesdCircularBufferFindEntryOffsetForFpos (ring s.dev)
              (charOffset - s.dev.totalBytesEvicted) rtn = (none, k)))) := by
  obtain ⟨⟨s, stream⟩, hrun, slots, lost, hrep⟩ := runWrites calls
  refine ⟨s, stream, hrun, ?_, ?_, ?_⟩
  · intro env payload before e after hc
    exact hc.ring hrep
  · intro env payload
    obtain ⟨s', slots', hwrite, -⟩ := aesdWrite_exact hrep env payload
    exact ⟨_, s', hwrite, aesdWrite_ring hrep hwrite⟩
  · intro charOffset rtn
    constructor
    · intro hlt
      rw [aesdDevFindEntryOffsetForFpos, if_pos hlt]
    · intro hle
      exact ⟨devFind_iff_ring hle rtn, devFind_none_iff_ring hle rtn⟩

end Refinement

end Aesd.Driver.RingRefinement
