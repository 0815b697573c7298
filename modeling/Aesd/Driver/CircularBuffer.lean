/- Aesd/Driver/CircularBuffer
   layer: faithful model
   digest: aesd-circular-buffer.c, its ring as a list of entries and its lookup as a segment lookup. -/

import Aesd.Foundation.BlockHeap
import Aesd.Foundation.RecordLog
import Aesd.Foundation.SegmentLookup
import Mathlib.Data.List.DropRight
import Mathlib.Logic.Function.Basic

set_option autoImplicit false
set_option relaxedAutoImplicit false

namespace Aesd.Driver.CircularBuffer

open Aesd.Foundation.BlockHeap (Ptr)
open Aesd.Foundation.RecordLog (rtake_concat length_rtake)
open Aesd.Foundation.SegmentLookup

/-- AESDCHAR_MAX_WRITE_OPERATIONS_SUPPORTED. -/
abbrev maxWriteOperationsSupported : Nat := 10

/-- `struct aesd_buffer_entry`. -/
structure AesdBufferEntry where
  buffptr : Ptr
  size : Nat
  deriving DecidableEq, Repr

/-- `struct aesd_circular_buffer`; slots from `maxWriteOperationsSupported` on do not exist in the
array and no operation on a well-formed buffer reaches them. -/
structure AesdCircularBuffer where
  entry : Nat → AesdBufferEntry
  inOffs : Nat
  outOffs : Nat
  full : Bool

/-- Addition of two values of type `size_t`. -/
def sizeAdd (a b : Nat) : Nat := (a + b) % 2 ^ 64

/-- Subtraction of two values of type `size_t`. -/
def sizeSub (a b : Nat) : Nat := (a + 2 ^ 64 - b) % 2 ^ 64

/-- Conversion of an `int` to `uint8_t`. -/
def toUint8 (z : Int) : Nat := (z % 256).toNat

theorem sizeAdd_eq {a b : Nat} (h : a + b < 2 ^ 64) : sizeAdd a b = a + b :=
  Nat.mod_eq_of_lt h

theorem sizeSub_eq {a b : Nat} (hle : b ≤ a) (hlt : a - b < 2 ^ 64) : sizeSub a b = a - b := by
  simp only [sizeSub]
  omega

/-- The `num_entries` of a lookup: the C remainder takes the sign of its left operand and the
result is stored in a `uint8_t`. -/
def numEntries (writeIndex readIndex : Nat) (full : Bool) : Nat :=
  if full then maxWriteOperationsSupported
  else toUint8 (((writeIndex : Int) - readIndex).tmod maxWriteOperationsSupported)

/-- The loop of a lookup with `n = num_entries - i` iterations to go. The result is the slot
found, if any, and the value of `*entry_offset_byte_rtn` afterwards. -/
def findLoop (entry : Nat → AesdBufferEntry) (readIndex charOffset rtn : Nat) :
    (n i count : Nat) → Option Nat × Nat
  | 0, _, _ => (none, rtn)
  | n + 1, i, count =>
    let currIndex := (readIndex + i) % maxWriteOperationsSupported
    let currSize := (entry currIndex).size
    if sizeAdd count currSize > charOffset then (some currIndex, sizeSub charOffset count)
    else findLoop entry readIndex charOffset rtn n (i + 1) (sizeAdd count currSize)

/-- The returned pointer `&buffer->entry[i]` is the slot `i`, NULL is `none`. -/
def aesdCircularBufferFindEntryOffsetForFpos (buffer : AesdCircularBuffer)
    (charOffset entryOffsetByteRtn : Nat) : Option Nat × Nat :=
  findLoop buffer.entry buffer.outOffs charOffset entryOffsetByteRtn
    (numEntries buffer.inOffs buffer.outOffs buffer.full) 0 0

def aesdCircularBufferAddEntry (buffer : AesdCircularBuffer) (addEntry : AesdBufferEntry) :
    AesdCircularBuffer :=
  let writeIndex := buffer.inOffs
  let newWriteIndex := (writeIndex + 1) % maxWriteOperationsSupported
  let buffer := { buffer with
    entry := Function.update buffer.entry writeIndex addEntry
    inOffs := newWriteIndex }
  if buffer.full then { buffer with outOffs := newWriteIndex }
  else if newWriteIndex = buffer.outOffs then { buffer with full := true }
  else buffer

/-- `memset` to zero. -/
def aesdCircularBufferInit : AesdCircularBuffer where
  entry := fun _ => ⟨.null, 0⟩
  inOffs := 0
  outOffs := 0
  full := false

namespace AesdCircularBuffer

/-- The number of occupied slots. -/
def count (b : AesdCircularBuffer) : Nat :=
  if b.full then maxWriteOperationsSupported
  else (b.inOffs + maxWriteOperationsSupported - b.outOffs) % maxWriteOperationsSupported

/-- The occupied slots, walked from `outOffs` up to but excluding `inOffs`, all ten when full. -/
def occupied (b : AesdCircularBuffer) : List AesdBufferEntry :=
  window b.entry maxWriteOperationsSupported b.outOffs b.count

/-- Both offsets name slots, and they meet when the buffer is full. -/
structure WellFormed (b : AesdCircularBuffer) : Prop where
  inOffs_lt : b.inOffs < maxWriteOperationsSupported
  outOffs_lt : b.outOffs < maxWriteOperationsSupported
  offs_eq : b.full = true → b.inOffs = b.outOffs

/-- What only adding entries reaches: the oldest entry stays in slot zero until the buffer is
full. The lookup relies on it. -/
structure Grown (b : AesdCircularBuffer) : Prop extends WellFormed b where
  outOffs_eq : b.full = false → b.outOffs = 0

@[simp] theorem occupied_length (b : AesdCircularBuffer) : b.occupied.length = b.count :=
  window_length _ _ _ _

theorem count_le (b : AesdCircularBuffer) : b.count ≤ maxWriteOperationsSupported := by
  simp only [count, maxWriteOperationsSupported]
  split <;> omega

theorem count_eq_iff_full (b : AesdCircularBuffer) :
    b.count = maxWriteOperationsSupported ↔ b.full = true := by
  simp only [count, maxWriteOperationsSupported]
  split <;> simp_all
  omega

theorem grown_init : aesdCircularBufferInit.Grown where
  inOffs_lt := by decide
  outOffs_lt := by decide
  offs_eq := by simp [aesdCircularBufferInit]
  outOffs_eq := by simp [aesdCircularBufferInit]

/-- Everything one addition does to the offsets, in the two cases the source tells apart. -/
theorem add_cases (b : AesdCircularBuffer) (e : AesdBufferEntry) :
    (b.full = true ∧ aesdCircularBufferAddEntry b e =
      ⟨Function.update b.entry b.inOffs e, (b.inOffs + 1) % maxWriteOperationsSupported,
        (b.inOffs + 1) % maxWriteOperationsSupported, true⟩) ∨
    (b.full = false ∧ aesdCircularBufferAddEntry b e =
      ⟨Function.update b.entry b.inOffs e, (b.inOffs + 1) % maxWriteOperationsSupported, b.outOffs,
        decide ((b.inOffs + 1) % maxWriteOperationsSupported = b.outOffs)⟩) := by
  cases hf : b.full with
  | true => exact .inl ⟨rfl, by simp [aesdCircularBufferAddEntry, hf]⟩
  | false =>
    refine .inr ⟨rfl, ?_⟩
    simp only [aesdCircularBufferAddEntry, hf]
    split_ifs with h <;> simp_all

theorem WellFormed.add {b : AesdCircularBuffer} (h : b.WellFormed) (e : AesdBufferEntry) :
    (aesdCircularBufferAddEntry b e).WellFormed := by
  have hlt : (b.inOffs + 1) % maxWriteOperationsSupported < maxWriteOperationsSupported :=
    Nat.mod_lt _ (by decide)
  rcases add_cases b e with ⟨-, he⟩ | ⟨-, he⟩ <;> rw [he]
  · exact ⟨hlt, hlt, fun _ => rfl⟩
  · exact ⟨hlt, h.outOffs_lt, by simp⟩

theorem WellFormed.foldl_add {b : AesdCircularBuffer} (h : b.WellFormed)
    (es : List AesdBufferEntry) : (es.foldl aesdCircularBufferAddEntry b).WellFormed := by
  induction es generalizing b with
  | nil => exact h
  | cons e es ih => exact ih (h.add e)

theorem Grown.add {b : AesdCircularBuffer} (h : b.Grown) (e : AesdBufferEntry) :
    (aesdCircularBufferAddEntry b e).Grown where
  toWellFormed := h.toWellFormed.add e
  outOffs_eq := by
    rcases add_cases b e with ⟨-, he⟩ | ⟨hf, he⟩ <;> rw [he]
    · simp
    · exact fun _ => h.outOffs_eq hf

/-- In a buffer that is not full, the slot behind the newest entry is the one to write next. -/
theorem WellFormed.slot_count {b : AesdCircularBuffer} (h : b.WellFormed) (hf : b.full = false) :
    (b.outOffs + b.count) % maxWriteOperationsSupported = b.inOffs := by
  have hin := h.inOffs_lt
  have hout := h.outOffs_lt
  simp only [maxWriteOperationsSupported] at hin hout
  simp only [count, hf, maxWriteOperationsSupported, Bool.false_eq_true, if_false]
  omega

/-- Adding appends to the occupied slots, and drops the oldest of them when all are occupied. -/
theorem WellFormed.occupied_add {b : AesdCircularBuffer} (h : b.WellFormed)
    (e : AesdBufferEntry) :
    (aesdCircularBufferAddEntry b e).occupied =
      (if b.full then b.occupied.tail else b.occupied) ++ [e] := by
  obtain ⟨hin, hout, heq⟩ := h
  simp only [maxWriteOperationsSupported] at hin hout
  rcases add_cases b e with ⟨hf, he⟩ | ⟨hf, he⟩ <;> rw [he]
  · -- the new window starts one slot later and ends in the slot just overwritten
    have hio := heq hf
    have hold : window b.entry 10 b.outOffs 10 =
        b.entry (b.outOffs % 10) :: window b.entry 10 (b.outOffs + 1) 9 := window_cons _ _ _ _
    simp only [occupied, count, hf, if_true, maxWriteOperationsSupported]
    rw [window_mod, window_concat, hold, List.tail_cons, hio]
    congr 1
    · apply window_congr
      intro i hi
      apply Function.update_of_ne
      omega
    · rw [show (b.outOffs + 1 + 9) % 10 = b.outOffs by omega, Function.update_self]
  · have hcount : (AesdCircularBuffer.mk (Function.update b.entry b.inOffs e)
        ((b.inOffs + 1) % maxWriteOperationsSupported) b.outOffs
        (decide ((b.inOffs + 1) % maxWriteOperationsSupported = b.outOffs))).count =
        b.count + 1 := by
      simp only [count, hf, maxWriteOperationsSupported]
      split_ifs with hd <;> simp_all <;> omega
    have hlast : (b.outOffs + b.count) % 10 = b.inOffs :=
      WellFormed.slot_count ⟨hin, hout, heq⟩ hf
    have hlt : b.count < 10 := by
      simp only [count, hf, maxWriteOperationsSupported]
      simp
      omega
    rw [occupied, hcount, window_concat]
    simp only [hf, occupied, maxWriteOperationsSupported, hlast, Function.update_self]
    congr 1
    apply window_congr
    intro i hi
    apply Function.update_of_ne
    omega

section Lookup

/-- The sizes of the occupied slots, oldest first. -/
def sizes (b : AesdCircularBuffer) : List Nat := b.occupied.map AesdBufferEntry.size

/-- The result of a lookup from what was located in the occupied slots. -/
def located (start rtn : Nat) : Option (Nat × Nat) → Option Nat × Nat
  | none => (none, rtn)
  | some (j, k) => (some ((start + j) % maxWriteOperationsSupported), k)

/-- Without overflow of the running total, the loop locates an offset among the slots to go. -/
theorem findLoop_eq (entry : Nat → AesdBufferEntry) (readIndex charOffset rtn : Nat)
    (n i count : Nat) (hle : count ≤ charOffset)
    (hsum : count + ((window entry maxWriteOperationsSupported (readIndex + i) n).map
      AesdBufferEntry.size).sum < 2 ^ 64) :
    findLoop entry readIndex charOffset rtn n i count =
      located (readIndex + i) rtn (locate ((window entry maxWriteOperationsSupported
        (readIndex + i) n).map AesdBufferEntry.size) (charOffset - count)) := by
  induction n generalizing i count with
  | zero => rfl
  | succ n ih =>
    rw [window_cons, List.map_cons, List.sum_cons] at hsum
    have hadd : sizeAdd count (entry ((readIndex + i) % maxWriteOperationsSupported)).size =
        count + (entry ((readIndex + i) % maxWriteOperationsSupported)).size :=
      sizeAdd_eq (by omega)
    rw [window_cons, List.map_cons]
    simp only [findLoop, locate, hadd]
    by_cases hlt : count + (entry ((readIndex + i) % maxWriteOperationsSupported)).size > charOffset
    · have hoff : charOffset - count <
          (entry ((readIndex + i) % maxWriteOperationsSupported)).size := by omega
      rw [if_pos hlt, if_pos hoff, sizeSub_eq hle (by omega)]
      rfl
    · have hoff : ¬charOffset - count <
          (entry ((readIndex + i) % maxWriteOperationsSupported)).size := by omega
      rw [if_neg hlt, if_neg hoff, ih (i + 1) _ (by omega) (by rw [← Nat.add_assoc] at hsum; exact hsum)]
      rw [Nat.sub_sub]
      cases locate ((window entry maxWriteOperationsSupported (readIndex + i + 1) n).map
        AesdBufferEntry.size) (charOffset -
          (count + (entry ((readIndex + i) % maxWriteOperationsSupported)).size)) with
      | none => rfl
      | some p =>
        simp only [located, Option.map_some]
        rw [show readIndex + (i + 1) + p.1 = readIndex + i + (p.1 + 1) by omega]

/-- Where the offsets do not wrap, `num_entries` is the number of occupied slots. -/
theorem WellFormed.numEntries_eq {b : AesdCircularBuffer} (h : b.WellFormed)
    (hle : b.full = true ∨ b.outOffs ≤ b.inOffs) :
    numEntries b.inOffs b.outOffs b.full = b.count := by
  have hin := h.inOffs_lt
  simp only [maxWriteOperationsSupported] at hin
  cases hf : b.full with
  | true => simp [numEntries, count, hf]
  | false =>
    have hle' : b.outOffs ≤ b.inOffs := by
      rcases hle with ht | hle
      · exact absurd (hf.symm.trans ht) (by decide)
      · exact hle
    have hrem : ((b.inOffs : Int) - b.outOffs).tmod (10 : Nat) = b.inOffs - b.outOffs :=
      Int.tmod_eq_of_lt (by omega) (by omega)
    simp only [numEntries, count, hf, maxWriteOperationsSupported, hrem, toUint8,
      Bool.false_eq_true, if_false]
    omega

theorem Grown.numEntries_eq {b : AesdCircularBuffer} (h : b.Grown) :
    numEntries b.inOffs b.outOffs b.full = b.count := by
  apply h.toWellFormed.numEntries_eq
  cases hf : b.full with
  | true => exact .inl rfl
  | false =>
    rw [h.outOffs_eq hf]
    exact .inr (Nat.zero_le _)

/-- A lookup in a buffer reached by adding is the lookup in the concatenated occupied slots. -/
theorem Grown.find_eq {b : AesdCircularBuffer} (h : b.Grown) (hsize : b.sizes.sum < 2 ^ 64)
    (charOffset rtn : Nat) :
    aesdCircularBufferFindEntryOffsetForFpos b charOffset rtn =
      located b.outOffs rtn (locate b.sizes charOffset) := by
  have hsum : 0 + ((window b.entry maxWriteOperationsSupported (b.outOffs + 0) b.count).map
      AesdBufferEntry.size).sum < 2 ^ 64 := by
    rw [Nat.zero_add]
    exact hsize
  rw [aesdCircularBufferFindEntryOffsetForFpos, h.numEntries_eq,
    findLoop_eq _ _ _ _ _ _ _ (Nat.zero_le _) hsum]
  rfl

theorem entry_of_occupied (b : AesdCircularBuffer) {j : Nat} (hj : j < b.occupied.length) :
    b.entry ((b.outOffs + j) % maxWriteOperationsSupported) = b.occupied[j] :=
  (window_getElem _ _ _ _ _ hj).symm

/-- Different occupied positions lie in different slots. -/
theorem slot_injective (b : AesdCircularBuffer) {i j : Nat} (hi : i < b.occupied.length)
    (hj : j < b.occupied.length)
    (he : (b.outOffs + i) % maxWriteOperationsSupported =
      (b.outOffs + j) % maxWriteOperationsSupported) : i = j := by
  have hle := b.count_le
  rw [occupied_length] at hi hj
  simp only [maxWriteOperationsSupported] at he hle
  omega

end Lookup

section Log

universe u

/-- An initialised buffer to which entries were added one after the other. -/
def addAll (added : List AesdBufferEntry) : AesdCircularBuffer :=
  added.foldl aesdCircularBufferAddEntry aesdCircularBufferInit

theorem addAll_concat (added : List AesdBufferEntry) (e : AesdBufferEntry) :
    addAll (added ++ [e]) = aesdCircularBufferAddEntry (addAll added) e := by
  simp [addAll]

theorem addAll_grown (added : List AesdBufferEntry) : (addAll added).Grown := by
  induction added using List.reverseRecOn with
  | nil => exact grown_init
  | append_singleton added e ih =>
    rw [addAll_concat]
    exact ih.add e

theorem addAll_occupied (added : List AesdBufferEntry) :
    (addAll added).occupied = added.rtake maxWriteOperationsSupported := by
  induction added using List.reverseRecOn with
  | nil => rfl
  | append_singleton added e ih =>
    have hfull : (addAll added).full = true ↔ ¬added.length < maxWriteOperationsSupported := by
      have hlen := congrArg List.length ih
      rw [occupied_length, length_rtake] at hlen
      rw [← count_eq_iff_full, hlen]
      omega
    rw [addAll_concat, (addAll_grown added).occupied_add, ih, rtake_concat (by decide)]
    by_cases h : added.length < maxWriteOperationsSupported
    · have hf : (addAll added).full = false := by simpa [h] using hfull
      simp [hf, h]
    · have hf : (addAll added).full = true := hfull.mpr h
      simp [hf, h]

variable {β : Type u}

/-- Look up the offsets `off`, `off + 1`, … until NULL and read each located byte. The variable
behind `entry_offset_byte_rtn` keeps its value between the calls. -/
def readOut (deref : Ptr → Nat → β) (b : AesdCircularBuffer) : (fuel off rtn : Nat) → Option (List β)
  | 0, _, _ => none
  | fuel + 1, off, rtn =>
    match aesdCircularBufferFindEntryOffsetForFpos b off rtn with
    | (none, _) => some []
    | (some slot, k) =>
      (readOut deref b fuel (off + 1) k).map (deref (b.entry slot).buffptr k :: ·)

/-- The bytes of an entry, read one by one. -/
def entryBytes (deref : Ptr → Nat → β) (e : AesdBufferEntry) : List β :=
  (List.range e.size).map (deref e.buffptr)

theorem map_length_entryBytes (deref : Ptr → Nat → β) (b : AesdCircularBuffer) :
    (b.occupied.map (entryBytes deref)).map List.length = b.sizes := by
  simp [sizes, entryBytes]

/-- With one call more than there are retained bytes, reading out reproduces them. -/
theorem Grown.readOut_eq {b : AesdCircularBuffer} (h : b.Grown) (hsize : b.sizes.sum < 2 ^ 64)
    (deref : Ptr → Nat → β) (fuel off rtn : Nat) (hoff : off ≤ b.sizes.sum)
    (hfuel : b.sizes.sum < fuel + off) :
    readOut deref b fuel off rtn =
      some ((b.occupied.map (entryBytes deref)).flatten.drop off) := by
  have htotal : (b.occupied.map (entryBytes deref)).flatten.length = b.sizes.sum := by
    rw [List.length_flatten, map_length_entryBytes]
  induction fuel generalizing off rtn with
  | zero => omega
  | succ fuel ih =>
    have hbyte := getElem?_flatten (b.occupied.map (entryBytes deref)) off
    rw [map_length_entryBytes] at hbyte
    simp only [readOut, h.find_eq hsize]
    cases hloc : locate b.sizes off with
    | none =>
      have hend := locate_eq_none_iff.mp hloc
      rw [List.drop_eq_nil_of_le (by omega)]
      rfl
    | some p =>
      obtain ⟨j, k⟩ := p
      obtain ⟨hj, hk, hpos⟩ := locate_eq_some_iff.mp hloc
      have hlt : off < b.sizes.sum := by
        by_contra hge
        rw [locate_eq_none_iff.mpr (Nat.le_of_not_lt hge)] at hloc
        cases hloc
      have hj' : j < b.occupied.length := by simpa [sizes] using hj
      have hk' : k < b.occupied[j].size := by simpa [sizes] using hk
      have hbound : off < (b.occupied.map (entryBytes deref)).flatten.length := by omega
      have hseg : (b.occupied.map (entryBytes deref))[j]? =
          some (entryBytes deref b.occupied[j]) := by
        rw [List.getElem?_map, List.getElem?_eq_getElem hj']
        rfl
      have hread : deref b.occupied[j].buffptr k =
          (b.occupied.map (entryBytes deref)).flatten[off] := by
        rw [List.getElem?_eq_getElem hbound, hloc, Option.bind_some, hseg,
          Option.bind_some] at hbyte
        simpa [entryBytes, hk'] using hbyte.symm
      simp only [located]
      rw [ih (off + 1) k (by omega) (by omega), b.entry_of_occupied hj', hread]
      simp only [Option.map_some]
      rw [← List.drop_eq_getElem_cons]

/-- A circular buffer that only ever had entries added is a log of the last ten of them, and its
lookup is the bijection between the offsets of their concatenation and their bytes. -/
theorem circular_buffer_bounded_log (added : List AesdBufferEntry)
    (hsize : ((added.rtake maxWriteOperationsSupported).map AesdBufferEntry.size).sum < 2 ^ 64) :
    (addAll added).occupied = added.rtake maxWriteOperationsSupported ∧
    (∀ off rtn,
      off < ((added.rtake maxWriteOperationsSupported).map AesdBufferEntry.size).sum →
      ∃ slot older e newer k,
        aesdCircularBufferFindEntryOffsetForFpos (addAll added) off rtn = (some slot, k) ∧
        added.rtake maxWriteOperationsSupported = older ++ e :: newer ∧
        slot = ((addAll added).outOffs + older.length) % maxWriteOperationsSupported ∧
        (addAll added).entry slot = e ∧
        k < e.size ∧ (older.map AesdBufferEntry.size).sum + k = off) ∧
    (∀ off rtn,
      ((added.rtake maxWriteOperationsSupported).map AesdBufferEntry.size).sum ≤ off →
      aesdCircularBufferFindEntryOffsetForFpos (addAll added) off rtn = (none, rtn)) ∧
    (∀ (deref : Ptr → Nat → UInt8) fuel rtn,
      ((added.rtake maxWriteOperationsSupported).map AesdBufferEntry.size).sum < fuel →
      readOut deref (addAll added) fuel 0 rtn =
        some ((added.rtake maxWriteOperationsSupported).map (entryBytes deref)).flatten) ∧
    (∀ off off' rtn rtn' slot k,
      aesdCircularBufferFindEntryOffsetForFpos (addAll added) off rtn = (some slot, k) →
      aesdCircularBufferFindEntryOffsetForFpos (addAll added) off' rtn' = (some slot, k) →
      off = off') := by
  have hgrown := addAll_grown added
  have hocc := addAll_occupied added
  rw [← hocc] at hsize ⊢
  have hfind := hgrown.find_eq hsize
  refine ⟨rfl, ?_, ?_, ?_, ?_⟩
  · intro off rtn hoff
    cases hloc : locate (addAll added).sizes off with
    | none => exact absurd (locate_eq_none_iff.mp hloc) (Nat.not_le_of_lt hoff)
    | some p =>
      obtain ⟨j, k⟩ := p
      obtain ⟨hj, hk, hpos⟩ := locate_eq_some_iff.mp hloc
      have hj' : j < (addAll added).occupied.length := by simpa [sizes] using hj
      refine ⟨((addAll added).outOffs + j) % maxWriteOperationsSupported,
        (addAll added).occupied.take j, (addAll added).occupied[j],
        (addAll added).occupied.drop (j + 1), k, ?_, ?_, ?_, ?_, ?_, ?_⟩
      · rw [hfind, hloc, located]
      · rw [← List.drop_eq_getElem_cons hj', List.take_append_drop]
      · rw [List.length_take, Nat.min_eq_left (Nat.le_of_lt hj')]
      · exact entry_of_occupied _ hj'
      · simpa [sizes] using hk
      · rw [List.map_take]
        exact hpos
  · intro off rtn hoff
    have hnone : locate (addAll added).sizes off = none := locate_eq_none_iff.mpr hoff
    rw [hfind, hnone, located]
  · intro deref fuel rtn hfuel
    exact hgrown.readOut_eq hsize deref fuel 0 rtn (Nat.zero_le _) hfuel
  · intro off off' rtn rtn' slot k h h'
    rw [hfind] at h h'
    cases hloc : locate (addAll added).sizes off with
    | none => simp [hloc, located] at h
    | some p =>
      cases hloc' : locate (addAll added).sizes off' with
      | none => simp [hloc', located] at h'
      | some p' =>
        obtain ⟨j, b⟩ := p
        obtain ⟨j', b'⟩ := p'
        simp only [hloc, hloc', located, Prod.mk.injEq, Option.some.injEq] at h h'
        obtain ⟨hj, -, hpos⟩ := locate_eq_some_iff.mp hloc
        obtain ⟨hj', -, hpos'⟩ := locate_eq_some_iff.mp hloc'
        have hjj : j = j' := slot_injective _ (by simpa [sizes] using hj)
          (by simpa [sizes] using hj') (h.1.trans h'.1.symm)
        subst hjj
        omega

/-- Twelve entries, the first of size zero: the two oldest are gone. -/
theorem circular_buffer_bounded_log_twelve :
    (((((List.range 12).map fun i => (⟨.block i, i⟩ : AesdBufferEntry)).rtake
      maxWriteOperationsSupported).map AesdBufferEntry.size).sum < 2 ^ 64) ∧
    (addAll ((List.range 12).map fun i => ⟨.block i, i⟩)).occupied =
      ((List.range 12).map fun i => ⟨.block i, i⟩).rtake maxWriteOperationsSupported :=
  ⟨by decide, (circular_buffer_bounded_log _ (by decide)).1⟩

end Log

end AesdCircularBuffer

end Aesd.Driver.CircularBuffer
