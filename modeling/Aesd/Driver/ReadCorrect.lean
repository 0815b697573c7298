/- Aesd/Driver/ReadCorrect
   layer: refinement
   digest: aesd_read delivers a range of the committed bytes, and its lookup locates each of them. -/

import Aesd.Driver.LogRelation

set_option autoImplicit false
set_option relaxedAutoImplicit false

namespace Aesd.Driver.ReadCorrect

open Aesd.Foundation.BlockHeap
open Aesd.Foundation.RecordLog
open Aesd.Foundation.SegmentLookup
open Aesd.Driver.CircularBuffer
open Aesd.Driver.Device
open Aesd.Driver.LogRelation

section Copy

/-- The kernel buffer of a read with `count` bytes of room, filled from its start. -/
def Filled (m : Heap UInt8) (k count : Nat) (got : List UInt8) : Prop :=
  m.blocks k = some (got.map some ++ List.replicate (count - got.length) none)

theorem Filled.live {m : Heap UInt8} {k count : Nat} {got : List UInt8}
    (h : Filled m k count got) : k ∈ m.live := Heap.live_of_blocks h

theorem Filled.holds {m : Heap UInt8} {k count : Nat} {got : List UInt8}
    (h : Filled m k count got) : m.Holds k got := ⟨_, h⟩

/-- A heap that differs from another at most in the contents of one live block. -/
structure SameBut (m m' : Heap UInt8) (k : Nat) : Prop where
  blocks : ∀ x, x ≠ k → m'.blocks x = m.blocks x
  live : m'.live = m.live

theorem SameBut.refl (m : Heap UInt8) (k : Nat) : SameBut m m k := ⟨fun _ _ => rfl, rfl⟩

theorem SameBut.trans {m m' m'' : Heap UInt8} {k : Nat} (h : SameBut m m' k)
    (h' : SameBut m' m'' k) : SameBut m m'' k :=
  ⟨fun x hx => (h'.blocks x hx).trans (h.blocks x hx), h'.live.trans h.live⟩

/-- One `memcpy` of `aesd_read`: a part of a stored record goes behind what was copied before. -/
theorem memcpy_filled {m : Heap UInt8} {k count h off n : Nat} {got bytes : List UInt8}
    (hfill : Filled m k count got) (hsrc : m.Holds h bytes) (hroom : got.length + n ≤ count)
    (hn : off + n ≤ bytes.length) :
    ∃ m', m.memcpy (.block k) got.length (.block h) off n = .ok m' ∧
      Filled m' k count (got ++ (bytes.drop off).take n) ∧ SameBut m m' k := by
  have hpart : ((bytes.drop off).take n).length = n := by
    rw [List.length_take, List.length_drop]
    omega
  have hsplit : m.Holds h (bytes.take off ++ (bytes.drop off).take n ++
      (bytes.drop off).drop n) := by
    rw [List.append_assoc, List.take_append_drop, List.take_append_drop]
    exact hsrc
  have hoff : off = (bytes.take off).length := by
    rw [List.length_take]
    omega
  have hdst : m.blocks k = some (got.map some ++ List.replicate n none ++
      List.replicate (count - got.length - n) none) := by
    rw [hfill, List.append_assoc, List.replicate_append_replicate]
    congr 3
    omega
  have hgot : got.length = (got.map (some : UInt8 → Option UInt8)).length := by
    rw [List.length_map]
  have hmid : (List.replicate n (none : Option UInt8)).length =
      ((bytes.drop off).take n).length := by
    rw [List.length_replicate, hpart]
  refine ⟨_, Heap.memcpy_eq hsplit hoff hpart.symm hdst hgot hmid, ?_, ?_, ?_⟩
  · rw [Filled, Heap.set_blocks_self hfill.live, List.length_append, hpart, List.map_append,
      Nat.sub_sub]
  · exact fun x hx => Heap.set_blocks_of_ne _ hx _
  · exact Heap.live_set_some _ hfill.live _

end Copy

section Loop

/-- The slot behind the newest entry is reached only after the last entry, unless the ring is
full. -/
theorem slot_ne_inOffs {b : AesdCircularBuffer} (h : b.WellFormed) {j : Nat} (hj : j < b.count) :
    ¬((b.outOffs + j) % maxWriteOperationsSupported = b.inOffs ∧ b.full = false) := by
  rintro ⟨he, hf⟩
  have hin := h.inOffs_lt
  have hout := h.outOffs_lt
  simp only [AesdCircularBuffer.count, hf, maxWriteOperationsSupported] at hj hin hout he
  simp only [Bool.false_eq_true, if_false] at hj
  omega

/-- The number of entries from the `j`-th oldest on, as `aesd_read` computes it. -/
theorem totalEntries_eq {dev : AesdDev} (h : (ring dev).WellFormed) {j : Nat}
    (hj : j < (ring dev).count) :
    totalEntries dev ((dev.outOffs + j) % maxWriteOperationsSupported) = (ring dev).count - j := by
  have hin : dev.inOffs < 10 := h.inOffs_lt
  have hout : dev.outOffs < 10 := h.outOffs_lt
  have hcount : (ring dev).count =
      if dev.full then 10 else (dev.inOffs + 10 - dev.outOffs) % 10 := rfl
  have hrem : ∀ i : Nat, i < 10 →
      toUint8 (((dev.inOffs : Int) - i + (10 : Nat)).tmod (10 : Nat)) =
        (dev.inOffs + 10 - i) % 10 := by
    intro i hi
    have hcast : (dev.inOffs : Int) - i + (10 : Nat) = ((dev.inOffs + 10 - i : Nat) : Int) := by
      omega
    rw [hcast, ← Int.ofNat_tmod, toUint8]
    omega
  have hi : (dev.outOffs + j) % 10 < 10 := Nat.mod_lt _ (by decide)
  simp only [totalEntries, maxWriteOperationsSupported]
  rw [hrem _ hi]
  cases hf : dev.full with
  | false =>
    rw [hcount, hf] at hj ⊢
    simp only [Bool.false_eq_true, false_and, if_false] at hj ⊢
    omega
  | true =>
    have hio : dev.inOffs = dev.outOffs := h.offs_eq hf
    rw [hcount, hf] at hj ⊢
    simp only [true_and, if_true] at hj ⊢
    split_ifs with he
    · omega
    · omega

/-- The entry in the `j`-th oldest slot. -/
theorem entry_eq {dev : AesdDev} {slots : List Slot}
    (hocc : (ring dev).occupied = slots.map slotEntry) {j : Nat} (hj : j < slots.length) :
    dev.entry ((dev.outOffs + j) % maxWriteOperationsSupported) = slotEntry slots[j] := by
  have hlt : j < (ring dev).occupied.length := by
    rw [hocc, List.length_map]
    exact hj
  have hslot := AesdCircularBuffer.entry_of_occupied (ring dev) hlt
  have hoccupied : (ring dev).occupied[j] = slotEntry slots[j] := by simp [hocc]
  exact hslot.trans hoccupied

/-- The variables of `aesd_read` at the head of its copy loop. -/
structure ReadHead where
  left : Nat
  bufIndex : Nat
  startCharIndex : Nat
  bytesRead : Nat
  heap : Heap UInt8

/-- One round of the copy loop: the next loop head, or `bytes_read` and the heap at
`copy_to_userspace`. -/
def aesdReadRound (dev : AesdDev) (kernelBuf : Ptr) (count : Nat) (head : ReadHead) :
    Except Fault (ReadHead ⊕ (Nat × Heap UInt8)) :=
  match head.left with
  | 0 => .ok (.inr (head.bytesRead, head.heap))
  | left + 1 =>
    if head.bytesRead < count then
      if head.bufIndex = dev.inOffs ∧ dev.full = false then
        .ok (.inr (head.bytesRead, head.heap))
      else do
        let entry := dev.entry head.bufIndex
        let bytesLeftCurrEntry ← checkedSub entry.size head.startCharIndex
        if head.bytesRead + bytesLeftCurrEntry > count then do
          let part ← checkedSub count head.bytesRead
          let m ← head.heap.memcpy kernelBuf head.bytesRead entry.buffptr head.startCharIndex part
          pure (.inr (count, m))
        else do
          let m ← head.heap.memcpy kernelBuf head.bytesRead entry.buffptr head.startCharIndex
            bytesLeftCurrEntry
          if head.bytesRead + bytesLeftCurrEntry = count then pure (.inr (count, m))
          else
            pure (.inl
              { left := left
                bufIndex := (head.bufIndex + 1) % maxWriteOperationsSupported
                startCharIndex := 0
                bytesRead := head.bytesRead + bytesLeftCurrEntry
                heap := m })
    else .ok (.inr (head.bytesRead, head.heap))

/-- The copy loop from a loop head on. -/
def readFrom (dev : AesdDev) (kernelBuf : Ptr) (count : Nat) (head : ReadHead) :
    Except Fault (Nat × Heap UInt8) :=
  aesdReadLoop dev kernelBuf count head.left head.bufIndex head.startCharIndex head.bytesRead
    head.heap

/-- What is left of the loop after a round. -/
def resumeRead (dev : AesdDev) (kernelBuf : Ptr) (count : Nat) :
    ReadHead ⊕ (Nat × Heap UInt8) → Except Fault (Nat × Heap UInt8)
  | .inl head => readFrom dev kernelBuf count head
  | .inr result => .ok result

/-- The loop is its first round followed by the rest of the loop. -/
theorem readFrom_eq (dev : AesdDev) (kernelBuf : Ptr) (count : Nat) (head : ReadHead) :
    readFrom dev kernelBuf count head =
      (aesdReadRound dev kernelBuf count head >>= resumeRead dev kernelBuf count) := by
  obtain ⟨left, bufIndex, startCharIndex, bytesRead, m⟩ := head
  cases left with
  | zero => rfl
  | succ left =>
    simp only [readFrom, aesdReadLoop, aesdReadRound]
    split_ifs with hmore hend
    · rfl
    · rw [bind_assoc]
      congr 1
      funext bytesLeftCurrEntry
      split_ifs with hlast hfull
      · simp only [bind_assoc]
        rfl
      · rw [bind_assoc]
        rfl
      · rw [bind_assoc]
        rfl
    · rfl

/-- At a loop head the kernel buffer holds what was copied so far, and `target` is that followed
by what the loop has yet to copy, from position `startCharIndex` of the `j`-th oldest entry on. -/
structure AtReadHead (dev : AesdDev) (slots : List Slot) (k count : Nat) (m₀ : Heap UInt8)
    (target : List UInt8) (head : ReadHead) (j : Nat) (got : List UInt8) : Prop where
  entries : j + head.left = slots.length
  index : head.bufIndex = (dev.outOffs + j) % maxWriteOperationsSupported
  start : ∀ hlt : j < slots.length, head.startCharIndex ≤ slots[j].2.length
  size : head.bytesRead = got.length
  room : got.length ≤ count
  filled : Filled head.heap k count got
  same : SameBut m₀ head.heap k
  rest : target = got ++ ((((slots.drop j).map Prod.snd).flatten.drop head.startCharIndex).take
    (count - got.length))

section Rounds

variable {dev : AesdDev} {slots : List Slot} {k count : Nat} {m₀ : Heap UInt8}
  {target got : List UInt8} {head : ReadHead} {j : Nat}

theorem AtReadHead.stored (h : AtReadHead dev slots k count m₀ target head j got)
    (hk : k ∉ slots.map Prod.fst) (hs : ∀ x ∈ slots, m₀.Holds x.1 x.2) :
    ∀ x ∈ slots, head.heap.Holds x.1 x.2 := by
  intro x hx
  have hxk : x.1 ≠ k := fun he => hk (he ▸ List.mem_map_of_mem hx)
  exact (hs x hx).congr (h.same.blocks _ hxk)

/-- A round ends the loop with the whole target in the kernel buffer, or leads to the next entry
from its start on. -/
theorem AtReadHead.round (h : AtReadHead dev slots k count m₀ target head j got)
    (hgrown : (ring dev).Grown) (hocc : (ring dev).occupied = slots.map slotEntry)
    (hk : k ∉ slots.map Prod.fst) (hs : ∀ x ∈ slots, m₀.Holds x.1 x.2) :
    (∃ m', aesdReadRound dev (.block k) count head = .ok (.inr (target.length, m')) ∧
      Filled m' k count target ∧ SameBut m₀ m' k) ∨
    (∃ head' got', aesdReadRound dev (.block k) count head = .ok (.inl head') ∧
      head.left = head'.left + 1 ∧ head'.startCharIndex = 0 ∧
      AtReadHead dev slots k count m₀ target head' (j + 1) got') := by
  have hstored := h.stored hk hs
  obtain ⟨hj, hindex, hb, hsize, hle, hfill, hsame, hrest⟩ := h
  obtain ⟨left, bufIndex, b, bytesRead, m⟩ := head
  simp only at hj hindex hb hsize hfill hsame hrest hstored
  subst hindex hsize
  cases left with
  | zero =>
    have hend : slots.drop j = [] := List.drop_eq_nil_of_le (by omega)
    have htarget : target = got := by simpa [hend] using hrest
    subst htarget
    exact .inl ⟨m, rfl, hfill, hsame⟩
  | succ left =>
    have hjlt : j < slots.length := by omega
    have hdrop : slots.drop j = slots[j] :: slots.drop (j + 1) := List.drop_eq_getElem_cons hjlt
    have hcount : slots.length = (ring dev).count := by
      rw [← AesdCircularBuffer.occupied_length, hocc, List.length_map]
    have hmem : slots[j] ∈ slots := List.getElem_mem hjlt
    have hentry := entry_eq hocc hjlt
    have hnot : ¬((dev.outOffs + j) % maxWriteOperationsSupported = dev.inOffs ∧
        dev.full = false) :=
      slot_ne_inOffs hgrown.toWellFormed (hcount ▸ hjlt)
    have hble : b ≤ slots[j].2.length := hb hjlt
    have hdata : ((slots.drop j).map Prod.snd).flatten.drop b =
        slots[j].2.drop b ++ ((slots.drop (j + 1)).map Prod.snd).flatten := by
      rw [hdrop, List.map_cons, List.flatten_cons, List.drop_append_of_le_length hble]
    have hpart : (slots[j].2.drop b).length = slots[j].2.length - b := List.length_drop
    rw [hdata] at hrest
    by_cases hlt : got.length < count
    · simp only [aesdReadRound]
      rw [if_pos hlt, if_neg hnot]
      simp only [hentry, slotEntry]
      rw [checkedSub_eq hble, ok_bind]
      by_cases hmore : got.length + (slots[j].2.length - b) > count
      · -- the request ends inside this entry
        rw [if_pos hmore, checkedSub_eq hle, ok_bind]
        have hroom : got.length + (count - got.length) ≤ count := by omega
        have hfit : b + (count - got.length) ≤ slots[j].2.length := by omega
        obtain ⟨m', hcopy, hfill', hsame'⟩ := memcpy_filled hfill (hstored _ hmem) hroom hfit
        rw [List.take_append_of_le_length (by omega)] at hrest
        have hlen : target.length = count := by
          rw [hrest, List.length_append, List.length_take]
          omega
        rw [hcopy, ok_bind, hlen]
        exact .inl ⟨m', rfl, hrest ▸ hfill', hsame.trans hsame'⟩
      · -- the whole rest of this entry is copied
        rw [if_neg hmore]
        have hroom : got.length + (slots[j].2.length - b) ≤ count := by omega
        have hfit : b + (slots[j].2.length - b) ≤ slots[j].2.length := by omega
        obtain ⟨m', hcopy, hfill', hsame'⟩ := memcpy_filled hfill (hstored _ hmem) hroom hfit
        have hwhole : (slots[j].2.drop b).take (slots[j].2.length - b) = slots[j].2.drop b :=
          List.take_of_length_le (by omega)
        have hlen : (got ++ slots[j].2.drop b).length =
            got.length + (slots[j].2.length - b) := by
          rw [List.length_append, hpart]
        have hnext : target = (got ++ slots[j].2.drop b) ++
            ((slots.drop (j + 1)).map Prod.snd).flatten.take
              (count - (got ++ slots[j].2.drop b).length) := by
          rw [hrest, List.take_append, List.take_of_length_le (by omega), hpart, hlen,
            List.append_assoc, Nat.sub_sub]
        rw [hwhole] at hfill'
        rw [hcopy, ok_bind]
        by_cases heq : got.length + (slots[j].2.length - b) = count
        · have hzero : count - (got ++ slots[j].2.drop b).length = 0 := by omega
          rw [hzero, List.take_zero, List.append_nil] at hnext
          have hall : target.length = count := by rw [hnext, hlen, heq]
          rw [if_pos heq, hall]
          exact .inl ⟨m', rfl, hnext ▸ hfill', hsame.trans hsame'⟩
        · rw [if_neg heq]
          refine .inr ⟨_, got ++ slots[j].2.drop b, rfl, rfl, rfl, ?_⟩
          refine
            { entries := by simp only; omega
              index := ?_
              start := fun _ => Nat.zero_le _
              size := hlen.symm
              room := by omega
              filled := hfill'
              same := hsame.trans hsame'
              rest := by rw [List.drop_zero]; exact hnext }
          simp only [maxWriteOperationsSupported]
          omega
    · have hzero : count - got.length = 0 := by omega
      rw [hzero, List.take_zero, List.append_nil] at hrest
      subst hrest
      simp only [aesdReadRound]
      rw [if_neg hlt]
      exact .inl ⟨m, rfl, hfill, hsame⟩

/-- From any loop head the loop completes the target. -/
theorem AtReadHead.loop (h : AtReadHead dev slots k count m₀ target head j got)
    (hgrown : (ring dev).Grown) (hocc : (ring dev).occupied = slots.map slotEntry)
    (hk : k ∉ slots.map Prod.fst) (hs : ∀ x ∈ slots, m₀.Holds x.1 x.2) :
    ∃ m', readFrom dev (.block k) count head = .ok (target.length, m') ∧
      Filled m' k count target ∧ SameBut m₀ m' k := by
  induction hleft : head.left generalizing head j got with
  | zero =>
    rw [readFrom_eq]
    rcases h.round hgrown hocc hk hs with ⟨m', hround, hdone⟩ | ⟨head', _, -, hless, -⟩
    · rw [hround]
      exact ⟨m', rfl, hdone⟩
    · omega
  | succ left ih =>
    rw [readFrom_eq]
    rcases h.round hgrown hocc hk hs with ⟨m', hround, hdone⟩ | ⟨head', got', hround, hless, -, hnext⟩
    · rw [hround]
      exact ⟨m', rfl, hdone⟩
    · rw [hround, ok_bind]
      exact ih hnext (by omega)

end Rounds

/-- From the `j`-th oldest entry on, at position `b` in it, the loop copies what is stored there
until the kernel buffer is full or the newest entry has been read. -/
theorem aesdReadLoop_spec {dev : AesdDev} {slots : List Slot} (hgrown : (ring dev).Grown)
    (hocc : (ring dev).occupied = slots.map slotEntry) {k count : Nat}
    (hk : k ∉ slots.map Prod.fst) (left : Nat) :
    ∀ (j b : Nat) (got : List UInt8) (m : Heap UInt8), j + left = slots.length →
      (∀ hlt : j < slots.length, b ≤ slots[j].2.length) → (∀ x ∈ slots, m.Holds x.1 x.2) →
      got.length ≤ count → Filled m k count got →
      ∃ m', aesdReadLoop dev (.block k) count left
          ((dev.outOffs + j) % maxWriteOperationsSupported) b got.length m =
          .ok ((got ++ ((((slots.drop j).map Prod.snd).flatten.drop b).take
            (count - got.length))).length, m') ∧
        Filled m' k count (got ++ ((((slots.drop j).map Prod.snd).flatten.drop b).take
          (count - got.length))) ∧ SameBut m m' k := by
  intro j b got m hj hb hs hle hfill
  have hhead : AtReadHead dev slots k count m
      (got ++ ((((slots.drop j).map Prod.snd).flatten.drop b).take (count - got.length)))
      ⟨left, (dev.outOffs + j) % maxWriteOperationsSupported, b, got.length, m⟩ j got :=
    ⟨hj, rfl, hb, rfl, hle, hfill, SameBut.refl m k, rfl⟩
  exact hhead.loop hgrown hocc hk hs

end Loop

section Lookup

variable {s : DriverState} {log : Log} {slots : List Slot} {lost : Set Nat}

/-- The driver's own lookup, on a device whose ring only additions reached. -/
theorem devFind_grown {dev : AesdDev} (hgrown : (ring dev).Grown)
    (hsum : (ring dev).sizes.sum < 2 ^ 64) (p rtn : Nat) :
    aesdDevFindEntryOffsetForFpos dev p rtn =
      if p < dev.totalBytesEvicted then (maxWriteOperationsSupported, rtn)
      else match locate (ring dev).sizes (p - dev.totalBytesEvicted) with
        | none => (maxWriteOperationsSupported, rtn)
        | some (j, k) => ((dev.outOffs + j) % maxWriteOperationsSupported, k) := by
  have hloop : findLoop dev.entry dev.outOffs (p - dev.totalBytesEvicted) rtn
      (numEntries dev.inOffs dev.outOffs dev.full) 0 0 =
        AesdCircularBuffer.located dev.outOffs rtn
          (locate (ring dev).sizes (p - dev.totalBytesEvicted)) :=
    hgrown.find_eq hsum (p - dev.totalBytesEvicted) rtn
  rw [aesdDevFindEntryOffsetForFpos]
  split_ifs with hlt
  · rfl
  · rw [hloop]
    cases locate (ring dev).sizes (p - dev.totalBytesEvicted) with
    | none => rfl
    | some q => rfl

/-- The driver's own lookup, on a device that stands for a log. -/
theorem devFind_eq (h : Represents s log slots lost) (p rtn : Nat) :
    aesdDevFindEntryOffsetForFpos s.dev p rtn =
      if p < s.dev.totalBytesEvicted then (maxWriteOperationsSupported, rtn)
      else match locate ((slots.map Prod.snd).map List.length) (p - s.dev.totalBytesEvicted) with
        | none => (maxWriteOperationsSupported, rtn)
        | some (j, k) => ((s.dev.outOffs + j) % maxWriteOperationsSupported, k) := by
  rw [devFind_grown h.owns.grown h.owns.sizes_sum_lt, h.owns.sizes_eq]

end Lookup

section Call

variable {s : DriverState} {log : Log} {slots : List Slot} {lost : Set Nat}

/-- Two device states that differ at most in blocks that are not live. -/
structure Undisturbed (s s' : DriverState) : Prop where
  dev : s'.dev = s.dev
  blocks : ∀ x ∈ s.heap.live, s'.heap.blocks x = s.heap.blocks x
  live : s'.heap.live = s.heap.live

theorem Undisturbed.refl (s : DriverState) : Undisturbed s s := ⟨rfl, fun _ _ => rfl, rfl⟩

theorem Undisturbed.represents {s' : DriverState} (hu : Undisturbed s s')
    (h : Represents s log slots lost) : Represents s' log slots lost := by
  have hown := h.owns.congr hu.blocks hu.live
  have hsize := h.pendingSize
  rw [← hu.dev] at hown hsize
  exact ⟨hown, hsize⟩

/-- The kernel buffer of a read was allocated. -/
def allocates (env : ReadEnv) (count : Nat) : Prop :=
  count = 0 ∨ (env.kmalloc = true ∧ count < kmallocLimit)

/-- The position a read starts at. -/
def snapped (s : DriverState) (p : Nat) : Nat := max p s.dev.totalBytesEvicted

/-- The committed bytes a read of `count` bytes from position `p` on is to deliver. -/
def available (s : DriverState) (log : Log) (count p : Nat) : List UInt8 :=
  (log.committed.drop (snapped s p)).take count

theorem snapped_eq (s : DriverState) (p : Nat) :
    (if p < s.dev.totalBytesEvicted then s.dev.totalBytesEvicted else p) = snapped s p := by
  unfold snapped
  split_ifs with h
  · rw [Nat.max_eq_right (Nat.le_of_lt h)]
  · rw [Nat.max_eq_left (Nat.le_of_not_lt h)]

/-- The records from a located slot on are the committed bytes from the position asked for. -/
theorem drop_of_located (h : Represents s log slots lost) {p j k : Nat}
    (hp : s.dev.totalBytesEvicted ≤ p)
    (hloc : locate ((slots.map Prod.snd).map List.length) (p - s.dev.totalBytesEvicted) =
      some (j, k)) :
    ∃ hj : j < slots.length, k < slots[j].2.length ∧
      ((slots.drop j).map Prod.snd).flatten.drop k = log.committed.drop p := by
  obtain ⟨hj, hk, -⟩ := locate_eq_some_iff.mp hloc
  have hj' : j < slots.length := by simpa using hj
  have hjm : j < (slots.map Prod.snd).length := by simpa using hj
  have hk' : k < slots[j].2.length := by simpa using hk
  have hdrop := drop_flatten_of_locate hloc hjm
  have hflat := h.owns.flatten_slots
  have hpos : s.dev.totalBytesEvicted + (p - s.dev.totalBytesEvicted) = p := by omega
  refine ⟨hj', hk', ?_⟩
  rw [hflat, List.drop_drop, hpos, List.getElem_map] at hdrop
  rw [hdrop, List.drop_eq_getElem_cons hj', List.map_cons, List.flatten_cons,
    List.drop_append_of_le_length (Nat.le_of_lt hk'), List.map_drop]

/-- Past the last committed byte nothing is located. -/
theorem drop_of_not_located (h : Represents s log slots lost) {p : Nat}
    (hp : s.dev.totalBytesEvicted ≤ p)
    (hloc : locate ((slots.map Prod.snd).map List.length) (p - s.dev.totalBytesEvicted) = none) :
    log.committed.drop p = [] := by
  have hend := locate_eq_none_iff.mp hloc
  have hsum := h.owns.sizes_sum
  rw [h.owns.sizes_eq] at hsum
  have htotal := h.owns.total_le
  exact List.drop_eq_nil_of_le (by omega)

/-- The copy loop from a located position on, into the fresh kernel buffer. -/
theorem readLoop_spec (h : Represents s log slots lost) {env : ReadEnv} {count p j k : Nat}
    (ha : allocates env count)
    (hloc : locate ((slots.map Prod.snd).map List.length)
      (snapped s p - s.dev.totalBytesEvicted) = some (j, k)) :
    ∃ m₁ m₂, aesdReadLoop s.dev (kmalloc env.kmalloc count s.heap).1 count
        (totalEntries s.dev ((s.dev.outOffs + j) % maxWriteOperationsSupported))
        ((s.dev.outOffs + j) % maxWriteOperationsSupported) k 0
        (kmalloc env.kmalloc count s.heap).2 = .ok ((available s log count p).length, m₁) ∧
      m₁.load (kmalloc env.kmalloc count s.heap).1 0 (available s log count p).length =
        .ok (available s log count p) ∧
      m₁.free (kmalloc env.kmalloc count s.heap).1 = .ok m₂ ∧
      Undisturbed s { s with heap := m₂ } := by
  have hsnap : s.dev.totalBytesEvicted ≤ snapped s p := Nat.le_max_right _ _
  obtain ⟨hj, hk, hdata⟩ := drop_of_located h hsnap hloc
  have hcount : slots.length = (ring s.dev).count := h.owns.slots_length
  have hentries := totalEntries_eq h.owns.grown.toWellFormed (hcount ▸ hj)
  rcases kmalloc_cases env.kmalloc count s.heap with ⟨hz, hkm⟩ | ⟨hpos, hok, hkm⟩ | ⟨hpos, hbad, -⟩
  · -- with no byte wanted the loop is not entered
    subst hz
    have hnil : available s log 0 p = [] := List.take_zero
    refine ⟨s.heap, s.heap, ?_, ?_, ?_, Undisturbed.refl s⟩
    · rw [hkm, hnil]
      cases totalEntries s.dev ((s.dev.outOffs + j) % maxWriteOperationsSupported) <;> rfl
    · rw [hkm, hnil]
      exact Heap.load_zero _ _ _
    · rw [hkm]
      rfl
  · have hfill : Filled (s.heap.alloc count) s.heap.next count [] := by
      rw [Filled, Heap.alloc_blocks_next]
      rfl
    obtain ⟨m₁, hloop, hfilled, hsame⟩ := aesdReadLoop_spec h.owns.grown h.owns.occupied
      h.owns.next_not_mem ((ring s.dev).count - j) j k [] (s.heap.alloc count) (by omega)
      (fun _ => Nat.le_of_lt hk) (h.owns.stored_alloc count) (Nat.zero_le _) hfill
    rw [hdata, List.nil_append, List.length_nil, Nat.sub_zero] at hloop hfilled
    have hload : m₁.load (.block s.heap.next) 0 (available s log count p).length =
        .ok (available s log count p) := by
      have hholds : m₁.Holds s.heap.next ([] ++ available s log count p ++ []) := by
        rw [List.nil_append, List.append_nil]
        exact hfilled.holds
      exact Heap.load_eq hholds rfl rfl
    refine ⟨m₁, m₁.set s.heap.next none, ?_, ?_, ?_, rfl, ?_, ?_⟩
    · rw [hkm, hentries]
      exact hloop
    · rw [hkm]
      exact hload
    · rw [hkm]
      exact Heap.free_block hfilled.live
    · intro x hx
      have hne : x ≠ s.heap.next := fun he => s.heap.next_not_live (he ▸ hx)
      rw [Heap.set_blocks_of_ne _ hne, hsame.blocks x hne, Heap.alloc_blocks_of_live hx]
    · rw [Heap.live_set_none, hsame.live, Heap.live_alloc]
      exact Set.insert_sdiff_self_of_notMem s.heap.next_not_live
  · rcases ha with hz | hok
    · omega
    · exact absurd hok hbad

/-- A read that gets no kernel buffer only moves the position past evicted bytes. -/
theorem aesdRead_no_buffer (s : DriverState) {env : ReadEnv} {count : Nat}
    (ha : ¬allocates env count) (p : Nat) :
    aesdRead env count p s = .ok ⟨-ENOMEM, snapped s p, [], s⟩ := by
  have hnull : kmalloc env.kmalloc count s.heap = (.null, s.heap) := by
    unfold allocates at ha
    rw [kmalloc, if_neg (fun hz => ha (.inl hz)), if_neg (fun hok => ha (.inr hok))]
  simp only [aesdRead, hnull, snapped_eq, if_true]
  rfl

/-- Every other read delivers the committed bytes from its position on, as many as there are, as
were wanted and as the user's buffer takes; the position moves by all that were available. -/
theorem aesdRead_spec (h : Represents s log slots lost) {env : ReadEnv} {count : Nat}
    (ha : allocates env count) (p : Nat) :
    ∃ s', aesdRead env count p s =
        .ok ⟨if env.writable < (available s log count p).length then -EFAULT
            else ((available s log count p).length : Int),
          snapped s p + (available s log count p).length,
          (available s log count p).take env.writable, s'⟩ ∧
      Undisturbed s s' := by
  have hsnap : ¬snapped s p < s.dev.totalBytesEvicted := Nat.not_lt.mpr (Nat.le_max_right _ _)
  have hfind := devFind_eq h (snapped s p) 0
  rw [if_neg hsnap] at hfind
  have hnonnull : (kmalloc env.kmalloc count s.heap).1 ≠ .null := by
    rcases kmalloc_cases env.kmalloc count s.heap with ⟨-, hk⟩ | ⟨-, -, hk⟩ | ⟨hpos, hbad, -⟩
    · simp [hk]
    · simp [hk]
    · rcases ha with hz | hok
      · omega
      · exact absurd hok hbad
  cases hloc : locate ((slots.map Prod.snd).map List.length)
      (snapped s p - s.dev.totalBytesEvicted) with
  | none =>
    have hnil : available s log count p = [] := by
      have hle : s.dev.totalBytesEvicted ≤ snapped s p := Nat.le_max_right _ _
      rw [available, drop_of_not_located h hle hloc, List.take_nil]
    rw [hloc] at hfind
    have hfree : ∃ m, (kmalloc env.kmalloc count s.heap).2.free
        (kmalloc env.kmalloc count s.heap).1 = .ok m ∧ Undisturbed s { s with heap := m } := by
      rcases kmalloc_cases env.kmalloc count s.heap with ⟨-, hk⟩ | ⟨-, -, hk⟩ | ⟨-, -, hk⟩
      · exact ⟨s.heap, by rw [hk]; rfl, Undisturbed.refl s⟩
      · have hlive : s.heap.next ∈ (s.heap.alloc count).live :=
          Heap.live_of_blocks (Heap.alloc_blocks_next _ _)
        refine ⟨(s.heap.alloc count).set s.heap.next none, by rw [hk]; exact Heap.free_block hlive,
          rfl, ?_, ?_⟩
        · intro x hx
          have hne : x ≠ s.heap.next := fun he => s.heap.next_not_live (he ▸ hx)
          rw [Heap.set_blocks_of_ne _ hne, Heap.alloc_blocks_of_live hx]
        · rw [Heap.live_set_none, Heap.live_alloc]
          exact Set.insert_sdiff_self_of_notMem s.heap.next_not_live
      · exact absurd (by rw [hk]) hnonnull
    obtain ⟨m, hm, hu⟩ := hfree
    refine ⟨{ s with heap := m }, ?_, hu⟩
    simp only [aesdRead, snapped_eq, hnonnull, if_false, hfind, if_true, hm, ok_bind, hnil]
    simp
  | some q =>
    obtain ⟨j, k⟩ := q
    obtain ⟨m₁, m₂, hloop, hload, hfree, hu⟩ := readLoop_spec h ha hloc
    rw [hloc] at hfind
    have hslot : (s.dev.outOffs + j) % maxWriteOperationsSupported ≠
        maxWriteOperationsSupported := by
      have hlt := Nat.mod_lt (s.dev.outOffs + j) (show 0 < maxWriteOperationsSupported by decide)
      omega
    have hmissing : ((available s log count p).length - env.writable ≠ 0) ↔
        env.writable < (available s log count p).length := by omega
    refine ⟨{ s with heap := m₂ }, ?_, hu⟩
    simp only [aesdRead, snapped_eq, hnonnull, if_false, hfind, hslot, hloop, copyToUser, hload,
      ok_bind, pure_eq_ok, hfree, hmissing]

/-- A read whose copy to the user succeeds. -/
theorem aesdRead_ok (h : Represents s log slots lost) {env : ReadEnv} {count : Nat}
    (ha : allocates env count) {p : Nat}
    (hw : (available s log count p).length ≤ env.writable) :
    ∃ s', aesdRead env count p s =
        .ok ⟨((available s log count p).length : Int),
          snapped s p + (available s log count p).length, available s log count p, s'⟩ ∧
      Undisturbed s s' := by
  obtain ⟨s', hrun, hu⟩ := aesdRead_spec h ha p
  rw [if_neg (Nat.not_lt.mpr hw), List.take_of_length_le hw] at hrun
  exact ⟨s', hrun, hu⟩

/-- No read faults, and none disturbs the device. -/
theorem aesdRead_total (h : Represents s log slots lost) (env : ReadEnv) (count p : Nat) :
    ∃ result, aesdRead env count p s = .ok result ∧ Undisturbed s result.state := by
  by_cases ha : allocates env count
  · obtain ⟨s', hrun, hu⟩ := aesdRead_spec h ha p
    exact ⟨_, hrun, hu⟩
  · exact ⟨_, aesdRead_no_buffer s ha p, Undisturbed.refl s⟩

/-- A read that reports no error delivers what lies at its position and moves behind it. -/
theorem aesdRead_delivered (h : Represents s log slots lost) {env : ReadEnv} {count p : Nat}
    {result : ReadResult} (hrun : aesdRead env count p s = .ok result) (hret : 0 ≤ result.ret) :
    result.user = available s log count p ∧ result.ret = (result.user.length : Int) ∧
      result.fPos = snapped s p + result.user.length := by
  by_cases ha : allocates env count
  · by_cases hw : env.writable < (available s log count p).length
    · obtain ⟨s', hfail, -⟩ := aesdRead_spec h ha p
      rw [if_pos hw, hrun] at hfail
      obtain rfl := Except.ok.inj hfail
      exact absurd hret (show ¬0 ≤ -EFAULT by decide)
    · obtain ⟨s', hok, -⟩ := aesdRead_ok h ha (Nat.le_of_not_lt hw)
      rw [hrun] at hok
      obtain rfl := Except.ok.inj hok
      exact ⟨rfl, rfl, rfl⟩
  · rw [aesdRead_no_buffer s ha p] at hrun
    obtain rfl := Except.ok.inj hrun
    exact absurd hret (show ¬0 ≤ -ENOMEM by decide)

end Call

end Aesd.Driver.ReadCorrect
