/- Aesd/Driver/OffsetStability
   layer: system
   digest: Absolute offsets across an added entry, on both code paths that add one. -/

import Aesd.Driver.RingRefinement
import Mathlib.Data.List.Nodup

set_option autoImplicit false
set_option relaxedAutoImplicit false

namespace Aesd.Driver.OffsetStability

open Aesd.Foundation.BlockHeap
open Aesd.Foundation.RecordLog
open Aesd.Foundation.Run
open Aesd.Foundation.SegmentLookup
open Aesd.Driver.CircularBuffer
open Aesd.Driver.Device
open Aesd.Driver.LogRelation
open Aesd.Driver.Commit
open Aesd.Driver.ReadCorrect
open Aesd.Driver.WriteCorrect
open Aesd.Driver.Session
open Aesd.Driver.RingRefinement

variable {s : DriverState} {log : Log} {slots : List Slot} {lost : Set Nat}

section Statement

/-- An addition to the device overwrites the record in this slot. -/
def Overwritten (dev : AesdDev) (slot : Nat) : Prop := dev.full = true ∧ slot = dev.inOffs

/-- The absolute offset behind every byte in the ring. -/
def endOffset (dev : AesdDev) : Nat := dev.totalBytesEvicted + (ring dev).sizes.sum

/-- The byte at a position of the entry in a slot. -/
def byteAt (s : DriverState) (slot k : Nat) : Except Fault (List UInt8) :=
  s.heap.load (s.dev.entry slot).buffptr k 1

/-- What adding an entry is to do to the lookup of absolute offsets: every byte outside the
overwritten record stays at its offset, the offsets of that record lead nowhere, and the new entry
follows behind all others. -/
structure LookupStable (dev dev' : AesdDev) (added : AesdBufferEntry) : Prop where
  kept : ∀ p rtn slot k, aesdDevFindEntryOffsetForFpos dev p rtn = (slot, k) →
    slot < maxWriteOperationsSupported → ¬Overwritten dev slot →
    aesdDevFindEntryOffsetForFpos dev' p rtn = (slot, k)
  gone : ∀ p rtn slot k, aesdDevFindEntryOffsetForFpos dev p rtn = (slot, k) →
    Overwritten dev slot →
    (aesdDevFindEntryOffsetForFpos dev' p rtn).1 = maxWriteOperationsSupported
  found : ∀ k < added.size, ∀ rtn,
    aesdDevFindEntryOffsetForFpos dev' (endOffset dev + k) rtn = (dev.inOffs, k)

/-- The same together with the memory behind it: a byte that stays is the same byte of the same
record, and the new entry is in its slot. -/
structure Stable (before after : DriverState) (added : AesdBufferEntry) : Prop
    extends LookupStable before.dev after.dev added where
  bytes : ∀ p rtn slot k, aesdDevFindEntryOffsetForFpos before.dev p rtn = (slot, k) →
    slot < maxWriteOperationsSupported → ¬Overwritten before.dev slot →
    after.dev.entry slot = before.dev.entry slot ∧ byteAt after slot k = byteAt before slot k
  stored : after.dev.entry before.dev.inOffs = added

end Statement

section Rings

variable {dev dev' : AesdDev} {e : AesdBufferEntry}

theorem sizes_length (b : AesdCircularBuffer) : b.sizes.length = b.count := by
  rw [AesdCircularBuffer.sizes, List.length_map, AesdCircularBuffer.occupied_length]

/-- A slot that the lookup reports lies in the occupied region, at a located position. -/
theorem located_of_find (hgrown : (ring dev).Grown) (hsum : (ring dev).sizes.sum < 2 ^ 64)
    {p rtn slot k : Nat} (hfind : aesdDevFindEntryOffsetForFpos dev p rtn = (slot, k))
    (hslot : slot < maxWriteOperationsSupported) :
    dev.totalBytesEvicted ≤ p ∧ ∃ j,
      locate (ring dev).sizes (p - dev.totalBytesEvicted) = some (j, k) ∧
      j < (ring dev).count ∧ slot = (dev.outOffs + j) % maxWriteOperationsSupported := by
  rw [devFind_grown hgrown hsum] at hfind
  split_ifs at hfind with hlt
  · exact absurd (Prod.mk.inj hfind).1 (Nat.ne_of_gt hslot)
  · refine ⟨Nat.le_of_not_lt hlt, ?_⟩
    cases hloc : locate (ring dev).sizes (p - dev.totalBytesEvicted) with
    | none =>
      rw [hloc] at hfind
      exact absurd (Prod.mk.inj hfind).1 (Nat.ne_of_gt hslot)
    | some q =>
      obtain ⟨j, k'⟩ := q
      rw [hloc] at hfind
      obtain ⟨rfl, rfl⟩ := Prod.mk.inj hfind
      obtain ⟨hj, -⟩ := locate_eq_some_iff.mp hloc
      exact ⟨j, rfl, sizes_length (ring dev) ▸ hj, rfl⟩

/-- The sizes in the ring before the oldest record and after it, when the ring is full. -/
theorem sizes_of_full (hf : dev.full = true) :
    ∃ tl, (ring dev).sizes = (dev.entry (dev.outOffs % maxWriteOperationsSupported)).size :: tl ∧
      tl.length = 9 := by
  have hcount : (ring dev).count = 9 + 1 := (AesdCircularBuffer.count_eq_iff_full _).mpr hf
  rw [AesdCircularBuffer.sizes, AesdCircularBuffer.occupied, hcount, window_cons, List.map_cons]
  exact ⟨_, rfl, by rw [List.length_map, window_length]⟩

/-- The sizes after an addition. -/
theorem sizes_add (hgrown : (ring dev).Grown) :
    (aesdCircularBufferAddEntry (ring dev) e).sizes =
      (if dev.full then (ring dev).sizes.tail else (ring dev).sizes) ++ [e.size] := by
  rw [AesdCircularBuffer.sizes, hgrown.occupied_add, List.map_append, AesdCircularBuffer.sizes]
  have hf : (ring dev).full = dev.full := rfl
  rw [hf]
  split_ifs
  · rw [List.map_tail]
    rfl
  · rfl

/-- An addition to a ring that is not full leaves the accounting alone and moves nothing. -/
theorem lookupStable_not_full (hf : dev.full = false) (hgrown : (ring dev).Grown)
    (hsum : (ring dev).sizes.sum < 2 ^ 64)
    (hring : ring dev' = aesdCircularBufferAddEntry (ring dev) e)
    (hsum' : (ring dev').sizes.sum < 2 ^ 64)
    (htotal : dev'.totalBytesEvicted = dev.totalBytesEvicted) : LookupStable dev dev' e := by
  have hgrown' : (ring dev').Grown := hring ▸ hgrown.add e
  have hsizes' : (ring dev').sizes = (ring dev).sizes ++ [e.size] := by
    rw [hring, sizes_add hgrown, hf, if_neg (by decide)]
  have hout' : dev'.outOffs = dev.outOffs := by
    have hoffs := congrArg AesdCircularBuffer.outOffs hring
    rcases AesdCircularBuffer.add_cases (ring dev) e with ⟨ht, -⟩ | ⟨-, he⟩
    · exact absurd (hf.symm.trans ht) (by decide)
    · rw [he] at hoffs
      exact hoffs
  constructor
  · intro p rtn slot k hfind hslot _
    obtain ⟨hle, j, hloc, -, rfl⟩ := located_of_find hgrown hsum hfind hslot
    have hlt := lt_sum_of_locate hloc
    rw [devFind_grown hgrown' hsum', htotal, if_neg (Nat.not_lt.mpr hle), hsizes',
      locate_append_left _ hlt, hloc, hout']
  · intro p rtn slot k _ hover
    exact absurd hover.1 (by rw [hf]; decide)
  · intro k hk rtn
    have hpos : endOffset dev + k - dev.totalBytesEvicted = (ring dev).sizes.sum + k := by
      rw [endOffset]
      omega
    have hge : ¬endOffset dev + k < dev.totalBytesEvicted := by
      rw [endOffset]
      omega
    have hslot : (dev.outOffs + (ring dev).count) % maxWriteOperationsSupported = dev.inOffs :=
      hgrown.slot_count hf
    rw [devFind_grown hgrown' hsum', htotal, if_neg hge, hsizes', hpos, locate_append_right, locate,
      if_pos hk, hout', sizes_length]
    simp only [Option.map_some, Nat.zero_add, hslot]

/-- An addition to a full ring moves nothing once the oldest record is accounted for. -/
theorem lookupStable_full (hf : dev.full = true) (hgrown : (ring dev).Grown)
    (hsum : (ring dev).sizes.sum < 2 ^ 64)
    (hring : ring dev' = aesdCircularBufferAddEntry (ring dev) e)
    (hsum' : (ring dev').sizes.sum < 2 ^ 64)
    (htotal : dev'.totalBytesEvicted =
      dev.totalBytesEvicted + (dev.entry dev.outOffs).size) : LookupStable dev dev' e := by
  have hgrown' : (ring dev').Grown := hring ▸ hgrown.add e
  have hin : dev.inOffs < maxWriteOperationsSupported := hgrown.inOffs_lt
  have hout : dev.outOffs < maxWriteOperationsSupported := hgrown.outOffs_lt
  have hio : dev.inOffs = dev.outOffs := hgrown.offs_eq hf
  have hout' : dev'.outOffs = (dev.outOffs + 1) % maxWriteOperationsSupported := by
    have hoffs := congrArg AesdCircularBuffer.outOffs hring
    rcases AesdCircularBuffer.add_cases (ring dev) e with ⟨-, he⟩ | ⟨ht, -⟩
    · rw [he] at hoffs
      rw [← hio]
      exact hoffs
    · exact absurd (hf.symm.trans ht) (by decide)
  obtain ⟨tl, hsizes, htl⟩ := sizes_of_full hf
  rw [Nat.mod_eq_of_lt hout] at hsizes
  have hsizes' : (ring dev').sizes = tl ++ [e.size] := by
    rw [hring, sizes_add hgrown, hf, if_pos rfl, hsizes, List.tail_cons]
  constructor
  · intro p rtn slot k hfind hslot hover
    obtain ⟨hle, j, hloc, -, rfl⟩ := located_of_find hgrown hsum hfind hslot
    rw [hsizes, locate] at hloc
    split_ifs at hloc with hfirst
    · -- the oldest record is the one that is overwritten
      obtain ⟨rfl, -⟩ := Prod.mk.inj (Option.some.inj hloc)
      rw [Nat.add_zero, Nat.mod_eq_of_lt hout] at hover
      exact absurd ⟨hf, hio.symm⟩ hover
    · obtain ⟨q, hq, hpair⟩ := Option.map_eq_some_iff.mp hloc
      obtain ⟨rfl, rfl⟩ := Prod.mk.inj hpair
      have hlt := lt_sum_of_locate hq
      have hpast : ¬p < dev.totalBytesEvicted + (dev.entry dev.outOffs).size := by omega
      have hslots : (dev'.outOffs + q.1) % maxWriteOperationsSupported =
          (dev.outOffs + (q.1 + 1)) % maxWriteOperationsSupported := by
        rw [hout', Nat.mod_add_mod]
        congr 1
        omega
      rw [devFind_grown hgrown' hsum', htotal, if_neg hpast, hsizes', ← Nat.sub_sub,
        locate_append_left _ hlt, hq]
      simp only [hslots]
  · intro p rtn slot k hfind hover
    have hslot : slot < maxWriteOperationsSupported := hover.2 ▸ hin
    obtain ⟨hle, j, hloc, hj, hjslot⟩ := located_of_find hgrown hsum hfind hslot
    have hzero : j = 0 := by
      have hlast := (ring dev).count_le
      have hslots := hover.2
      rw [hjslot, hio] at hslots
      simp only [maxWriteOperationsSupported] at hslots hlast hout
      omega
    subst hzero
    rw [hsizes] at hloc
    obtain ⟨_, hk, hpos⟩ := locate_eq_some_iff.mp hloc
    rw [List.getElem_cons_zero] at hk
    rw [List.take_zero, List.sum_nil, Nat.zero_add] at hpos
    have hlt : p < dev.totalBytesEvicted + (dev.entry dev.outOffs).size := by omega
    rw [devFind_grown hgrown' hsum', htotal, if_pos hlt]
  · intro k hk rtn
    have hend : endOffset dev =
        dev.totalBytesEvicted + (dev.entry dev.outOffs).size + tl.sum := by
      rw [endOffset, hsizes, List.sum_cons, Nat.add_assoc]
    have hge : ¬endOffset dev + k < dev.totalBytesEvicted + (dev.entry dev.outOffs).size := by
      omega
    have hpos : endOffset dev + k - (dev.totalBytesEvicted + (dev.entry dev.outOffs).size) =
        tl.sum + k := by omega
    have hslots : (dev'.outOffs + (0 + tl.length)) % maxWriteOperationsSupported = dev.inOffs := by
      rw [hout', Nat.mod_add_mod, htl, hio]
      simp only [maxWriteOperationsSupported] at hout ⊢
      omega
    rw [devFind_grown hgrown' hsum', htotal, if_neg hge, hsizes', hpos, locate_append_right, locate,
      if_pos hk]
    simp only [Option.map_some, hslots]

end Rings

section Helper

/-- A lookup walk whose first entry is not empty finds its first byte. -/
theorem findLoop_first {entry : Nat → AesdBufferEntry} {readIndex n : Nat} (hn : 0 < n)
    (hpos : 0 < (entry (readIndex % maxWriteOperationsSupported)).size)
    (hlt : (entry (readIndex % maxWriteOperationsSupported)).size < 2 ^ 64) (rtn : Nat) :
    findLoop entry readIndex 0 rtn n 0 0 = (some (readIndex % maxWriteOperationsSupported), 0) := by
  obtain ⟨n, rfl⟩ : ∃ m, n = m + 1 := ⟨n - 1, by omega⟩
  have hadd : sizeAdd 0 (entry (readIndex % maxWriteOperationsSupported)).size =
      (entry (readIndex % maxWriteOperationsSupported)).size := by
    rw [sizeAdd_eq (by omega), Nat.zero_add]
  rw [findLoop, Nat.add_zero, hadd, if_pos hpos]
  rfl

/-- No running total of a lookup exceeds the last offset. -/
theorem findLoop_last {entry : Nat → AesdBufferEntry} {readIndex charOffset rtn : Nat}
    (hlast : 2 ^ 64 ≤ charOffset + 1) (n i count : Nat) :
    findLoop entry readIndex charOffset rtn n i count = (none, rtn) := by
  induction n generalizing i count with
  | zero => rfl
  | succ n ih =>
    have hnot : ¬sizeAdd count
        (entry ((readIndex + i) % maxWriteOperationsSupported)).size > charOffset := by
      have hmod : sizeAdd count (entry ((readIndex + i) % maxWriteOperationsSupported)).size <
          2 ^ 64 := Nat.mod_lt _ (by decide)
      omega
    rw [findLoop, if_neg hnot, ih]

/-- In a device that stands for a log every occupied slot holds a record of at least one byte. -/
theorem entry_pos (h : Represents s log slots lost) {j : Nat} (hj : j < slots.length) :
    0 < (s.dev.entry ((s.dev.outOffs + j) % maxWriteOperationsSupported)).size ∧
      (s.dev.entry ((s.dev.outOffs + j) % maxWriteOperationsSupported)).size < kmallocLimit := by
  have hmem : slots[j] ∈ slots := List.getElem_mem hj
  rw [entry_eq h.owns.occupied hj]
  exact ⟨h.owns.slot_pos hmem, h.owns.small _ hmem⟩

/-- The helper stores the entry and changes neither another slot nor the byte counter. -/
theorem aesdDevAddEntry_frame (dev : AesdDev) (e : AesdBufferEntry) :
    (aesdDevAddEntry dev e).entry = Function.update dev.entry dev.inOffs e ∧
      (aesdDevAddEntry dev e).totalBytesEvicted = dev.totalBytesEvicted := by
  rw [aesdDevAddEntry]
  constructor
  · split_ifs <;> rfl
  · split_ifs <;> rfl

/-- On a full ring the oldest record stays visible at its offset under another content. -/
theorem gone_fails (h : Represents s log slots lost) (hf : s.dev.full = true)
    (e : AesdBufferEntry) : ¬LookupStable s.dev (aesdDevAddEntry s.dev e) e := by
  intro hstable
  have hgrown := h.owns.grown
  have hsum := h.owns.sizes_sum_lt
  have hin : s.dev.inOffs < maxWriteOperationsSupported := hgrown.inOffs_lt
  have hio : s.dev.inOffs = s.dev.outOffs := hgrown.offs_eq hf
  have hlen : slots.length = 10 := by
    rw [h.owns.slots_length]
    exact (AesdCircularBuffer.count_eq_iff_full _).mpr hf
  obtain ⟨tl, hsizes, -⟩ := sizes_of_full hf
  have hoverwritten : Overwritten s.dev (s.dev.outOffs % maxWriteOperationsSupported) :=
    ⟨hf, by rw [hio, Nat.mod_eq_of_lt (hio ▸ hin)]⟩
  have hbefore : aesdDevFindEntryOffsetForFpos s.dev s.dev.totalBytesEvicted 0 =
      (s.dev.outOffs % maxWriteOperationsSupported, 0) := by
    have hpos := (entry_pos h (show 0 < slots.length by omega)).1
    rw [Nat.add_zero] at hpos
    rw [devFind_grown hgrown hsum, if_neg (Nat.lt_irrefl _), hsizes, Nat.sub_self, locate,
      if_pos hpos]
    rfl
  have hafter := hstable.gone _ _ _ _ hbefore hoverwritten
  -- the second oldest record has moved to the offset of the oldest one
  obtain ⟨hentry, htotal⟩ := aesdDevAddEntry_frame s.dev e
  have hring := ring_aesdDevAddEntry s.dev e
  obtain ⟨hfull', hout'⟩ : (aesdDevAddEntry s.dev e).full = true ∧
      (aesdDevAddEntry s.dev e).outOffs = (s.dev.inOffs + 1) % maxWriteOperationsSupported := by
    rcases AesdCircularBuffer.add_cases (ring s.dev) e with ⟨-, he⟩ | ⟨hnot, -⟩
    · rw [he] at hring
      exact ⟨congrArg AesdCircularBuffer.full hring, congrArg AesdCircularBuffer.outOffs hring⟩
    · exact absurd (hf.symm.trans hnot) (by decide)
  have hsecond := entry_pos h (show 1 < slots.length by omega)
  have hne : (s.dev.outOffs + 1) % maxWriteOperationsSupported ≠ s.dev.inOffs := by
    simp only [maxWriteOperationsSupported] at hin ⊢
    omega
  have hslot : (aesdDevAddEntry s.dev e).entry ((aesdDevAddEntry s.dev e).outOffs %
      maxWriteOperationsSupported) =
        s.dev.entry ((s.dev.outOffs + 1) % maxWriteOperationsSupported) := by
    rw [hout', Nat.mod_mod, hio, hentry, Function.update_of_ne hne]
  have hlimit : kmallocLimit < 2 ^ 64 := by decide
  have hfind : aesdDevFindEntryOffsetForFpos (aesdDevAddEntry s.dev e) s.dev.totalBytesEvicted 0 =
      ((aesdDevAddEntry s.dev e).outOffs % maxWriteOperationsSupported, 0) := by
    have hnum : 0 < numEntries (aesdDevAddEntry s.dev e).inOffs
        (aesdDevAddEntry s.dev e).outOffs (aesdDevAddEntry s.dev e).full := by
      rw [numEntries, hfull', if_pos rfl]
      decide
    rw [aesdDevFindEntryOffsetForFpos, htotal, if_neg (Nat.lt_irrefl _), Nat.sub_self,
      findLoop_first hnum (hslot ▸ hsecond.1) (by rw [hslot]; omega)]
  rw [hfind] at hafter
  have hlt := Nat.mod_lt (aesdDevAddEntry s.dev e).outOffs
    (show 0 < maxWriteOperationsSupported by decide)
  omega

/-- The add helper keeps absolute offsets stable exactly when it overwrites no record and the
sizes in the ring still add up to a `size_t`. -/
theorem stable_add_iff (h : Represents s log slots lost) (e : AesdBufferEntry) :
    Stable s { s with dev := aesdDevAddEntry s.dev e } e ↔
      s.dev.full = false ∧ (ring s.dev).sizes.sum + e.size < 2 ^ 64 := by
  have hgrown := h.owns.grown
  have hsum := h.owns.sizes_sum_lt
  obtain ⟨hentry, htotal⟩ := aesdDevAddEntry_frame s.dev e
  constructor
  · intro hstable
    have hf : s.dev.full = false := by
      rw [← Bool.not_eq_true]
      exact fun hf => gone_fails h hf e hstable.toLookupStable
    refine ⟨hf, ?_⟩
    by_contra hbig
    have hfound := hstable.found (e.size - 1) (by omega) 0
    have hge : ¬endOffset s.dev + (e.size - 1) < s.dev.totalBytesEvicted := by
      rw [endOffset]
      omega
    have hlast : 2 ^ 64 ≤ endOffset s.dev + (e.size - 1) - s.dev.totalBytesEvicted + 1 := by
      rw [endOffset]
      omega
    have hin : s.dev.inOffs < maxWriteOperationsSupported := hgrown.inOffs_lt
    rw [aesdDevFindEntryOffsetForFpos, htotal, if_neg hge, findLoop_last hlast] at hfound
    exact absurd (Prod.mk.inj hfound).1 (Nat.ne_of_gt hin)
  · rintro ⟨hf, hbig⟩
    have hring := ring_aesdDevAddEntry s.dev e
    have hsum' : (ring (aesdDevAddEntry s.dev e)).sizes.sum < 2 ^ 64 := by
      rw [hring, sizes_add hgrown, hf, if_neg (by decide), List.sum_append, List.sum_singleton]
      exact hbig
    refine
      { toLookupStable := lookupStable_not_full hf hgrown hsum hring hsum' htotal
        bytes := ?_
        stored := ?_ }
    · intro p rtn slot k hfind hslot _
      obtain ⟨-, j, -, hj, rfl⟩ := located_of_find hgrown hsum hfind hslot
      have hne : (s.dev.outOffs + j) % maxWriteOperationsSupported ≠ s.dev.inOffs :=
        fun he => slot_ne_inOffs hgrown.toWellFormed hj ⟨he, hf⟩
      have hsame : (aesdDevAddEntry s.dev e).entry
          ((s.dev.outOffs + j) % maxWriteOperationsSupported) =
            s.dev.entry ((s.dev.outOffs + j) % maxWriteOperationsSupported) := by
        rw [hentry, Function.update_of_ne hne]
      refine ⟨hsame, ?_⟩
      rw [byteAt, byteAt, hsame]
    · simp only [hentry, Function.update_self]

end Helper

section Inline

/-- The inline commit keeps absolute offsets stable in every state. -/
theorem stable_commit (h : Represents s log slots lost) {env : WriteEnv} {buf : List UInt8}
    {before after : DriverState} {e : AesdBufferEntry} (hc : Commits env buf s before e after) :
    Stable before after e := by
  obtain ⟨hring, -⟩ := hc.ring h
  obtain ⟨log', slots', k, rest, hown, rfl, hcommit⟩ := hc.atHead h
  obtain ⟨s', slots'', hcommit', hown', -⟩ := commitEntry_spec hown (by decide)
  rw [hcommit] at hcommit'
  obtain rfl := Except.ok.inj hcommit'
  obtain ⟨hentry, -, hcases⟩ := commitEntry_cases hcommit
  have hgrown := hown.grown
  have hsum := hown.sizes_sum_lt
  have hsum' := hown'.sizes_sum_lt
  have hout : before.dev.outOffs < maxWriteOperationsSupported := hgrown.outOffs_lt
  have hstored : after.dev.entry before.dev.inOffs = ⟨.block k, log'.pending.length + 1⟩ := by
    rw [hentry, Function.update_self]
  rcases hcases with ⟨hf, -, hfree, -, htotal⟩ | ⟨hf, hheap, -, -, htotal⟩
  · refine
      { toLookupStable := lookupStable_full hf hgrown hsum hring hsum' htotal
        bytes := ?_
        stored := hstored }
    intro p rtn slot i hfind hslot hover
    obtain ⟨-, j, -, hj, rfl⟩ := located_of_find hgrown hsum hfind hslot
    have hio : before.dev.inOffs = before.dev.outOffs := hgrown.offs_eq hf
    have hne : (before.dev.outOffs + j) % maxWriteOperationsSupported ≠ before.dev.inOffs :=
      fun he => hover ⟨hf, he⟩
    have hlen := hown.slots_length
    have hj' : j < slots'.length := hlen ▸ hj
    have hzero : 0 < slots'.length := by omega
    have hjne : j ≠ 0 := by
      rintro rfl
      rw [Nat.add_zero, Nat.mod_eq_of_lt hout] at hne
      exact hne hio.symm
    have hsame : after.dev.entry ((before.dev.outOffs + j) % maxWriteOperationsSupported) =
        before.dev.entry ((before.dev.outOffs + j) % maxWriteOperationsSupported) := by
      rw [hentry, Function.update_of_ne hne]
    refine ⟨hsame, ?_⟩
    -- the freed block is that of the oldest record
    have holdest := entry_eq hown.occupied hzero
    rw [Nat.add_zero, Nat.mod_eq_of_lt hout] at holdest
    have hlive : slots'[0].1 ∈ before.heap.live :=
      (hown.stored _ (List.getElem_mem hzero)).live
    rw [holdest, slotEntry, Heap.free_block hlive] at hfree
    have hblocks : slots'[j].1 ≠ slots'[0].1 := by
      intro he
      have hnodup := (List.nodup_append.mp hown.nodup).1
      have hmj : j < (slots'.map Prod.fst).length := by rwa [List.length_map]
      have hmz : 0 < (slots'.map Prod.fst).length := by rwa [List.length_map]
      have hids : (slots'.map Prod.fst)[j] = (slots'.map Prod.fst)[0] := by
        rw [List.getElem_map, List.getElem_map, he]
      exact hjne ((List.Nodup.getElem_inj_iff hnodup).mp hids)
    rw [byteAt, byteAt, hsame, entry_eq hown.occupied hj', slotEntry, ← Except.ok.inj hfree]
    exact Heap.load_congr (Heap.set_blocks_of_ne _ hblocks _) i 1
  · refine
      { toLookupStable := lookupStable_not_full hf hgrown hsum hring hsum' htotal
        bytes := ?_
        stored := hstored }
    intro p rtn slot i hfind hslot _
    obtain ⟨-, j, -, hj, rfl⟩ := located_of_find hgrown hsum hfind hslot
    have hne : (before.dev.outOffs + j) % maxWriteOperationsSupported ≠ before.dev.inOffs :=
      fun he => slot_ne_inOffs hgrown.toWellFormed hj ⟨he, hf⟩
    have hsame : after.dev.entry ((before.dev.outOffs + j) % maxWriteOperationsSupported) =
        before.dev.entry ((before.dev.outOffs + j) % maxWriteOperationsSupported) := by
      rw [hentry, Function.update_of_ne hne]
    refine ⟨hsame, ?_⟩
    rw [byteAt, byteAt, hsame, hheap]

end Inline

section Law

/-- Absolute offsets across an added entry. In every state that writes reach, the add helper keeps
them stable exactly when the ring is not full and its sizes, with the new one, add up to a
`size_t`; each inline commit of any further write keeps them stable. Offsets are absolute for as
long as fewer than 2^64 bytes have been given up, where the counter of the source would wrap. -/
theorem offsets_stable_iff (calls : List WriteCall) :
    ∃ s stream, run writeCall (aesdInitModule, []) calls = .ok (s, stream) ∧
      (∀ e, Stable s { s with dev := aesdDevAddEntry s.dev e } e ↔
        s.dev.full = false ∧ (ring s.dev).sizes.sum + e.size < 2 ^ 64) ∧
      (∀ env payload before e after, Commits env payload s before e after →
        Stable before after e) := by
  obtain ⟨⟨s, stream⟩, hrun, slots, lost, hrep⟩ := runWrites calls
  refine ⟨s, stream, hrun, fun e => stable_add_iff hrep e, ?_⟩
  intro env payload before e after hc
  exact stable_commit hrep hc

/-- Ten lines fill the ring. -/
def tenLines : List WriteCall := [⟨⟨fun _ => true, 10⟩, List.replicate 10 newline⟩]

/-- On the ring filled by ten lines, the helper leaves the overwritten line's offset in use. -/
theorem offset_of_overwritten_line :
    ∃ s stream, run writeCall (aesdInitModule, []) tenLines = .ok (s, stream) ∧
      ¬Stable s { s with dev := aesdDevAddEntry s.dev ⟨.null, 1⟩ } ⟨.null, 1⟩ := by
  obtain ⟨⟨s, stream⟩, hrun, slots, lost, hrep⟩ := runWrites tenLines
  have hfull : (run writeCall (aesdInitModule, []) tenLines).toOption.map
      (fun st => st.1.dev.full) = some true := by decide +kernel
  rw [hrun] at hfull
  refine ⟨s, stream, hrun, fun hstable => ?_⟩
  have hnot := ((stable_add_iff hrep ⟨.null, 1⟩).mp hstable).1
  have hf : s.dev.full = true := by simpa [Except.toOption] using hfull
  rw [hf] at hnot
  cases hnot

end Law

end Aesd.Driver.OffsetStability
