/- Aesd/Driver/AccessSafety
   layer: system
   digest: Every buffer access of the driver is in range and initialised, and no subtraction wraps. -/

import Aesd.Driver.Ownership
import Aesd.Driver.RingRefinement

set_option autoImplicit false
set_option relaxedAutoImplicit false

namespace Aesd.Driver.AccessSafety

open Aesd.Foundation.BlockHeap
open Aesd.Foundation.RecordLog
open Aesd.Foundation.Run
open Aesd.Foundation.SegmentLookup
open Aesd.Driver.CircularBuffer
open Aesd.Driver.Device
open Aesd.Driver.LogRelation
open Aesd.Driver.Commit
open Aesd.Driver.WriteRounds
open Aesd.Driver.WriteCorrect
open Aesd.Driver.ReadCorrect
open Aesd.Driver.Session
open Aesd.Driver.Ownership
open Aesd.Driver.RingRefinement

variable {s : DriverState} {log : Log} {slots : List Slot} {lost : Set Nat}

section Write

/-- At a head of the byte loop the working buffer has room for the unfinished record and for every
byte not scanned yet, and all of these are initialised. -/
def ScanGuarded (count : Nat) (head : LoopHead) : Prop :=
  ∃ k cells, head.newBuf = .block k ∧ head.state.heap.blocks k = some cells ∧
    head.currSize + (count - head.i) ≤ cells.length ∧
    ∀ n < head.currSize + (count - head.i), ∃ c, cells[n]? = some (some c)

theorem scanGuarded {env : WriteEnv} {payload : List UInt8} {head : LoopHead}
    (hv : Visits env payload s head) (h : Represents s log slots lost)
    (hlt : head.i < payload.length) : ScanGuarded payload.length head := by
  obtain ⟨-, slots', hhead⟩ := hv.atHead h
  have hindex := hhead.index
  have hsize := hhead.size
  have hne : (accept log (payload.take head.i)).pending ++ payload.drop head.i ≠ [] := by
    intro hnil
    have hempty := (List.append_eq_nil_iff.mp hnil).2
    rw [hempty, List.length_nil] at hindex
    omega
  obtain ⟨k, hk, tail, hblock⟩ := hhead.owns.buffer hne
  have hlen : ((accept log (payload.take head.i)).pending ++ payload.drop head.i).length =
      head.currSize + (payload.length - head.i) := by
    rw [List.length_append, List.length_drop, ← hsize]
  refine ⟨k, _, hk, hblock, ?_, ?_⟩
  · rw [List.length_append, List.length_map, hlen]
    apply Nat.le_add_right
  · intro n hn
    rw [← hlen] at hn
    refine ⟨((accept log (payload.take head.i)).pending ++ payload.drop head.i)[n], ?_⟩
    rw [List.getElem?_append_left (by rwa [List.length_map]), List.getElem?_map,
      List.getElem?_eq_getElem hn]
    rfl

/-- An entry is initialised up to its size when it is committed. -/
theorem committed_initialised {env : WriteEnv} {payload : List UInt8} {before after : DriverState}
    {e : AesdBufferEntry} (hc : Commits env payload s before e after)
    (h : Represents s log slots lost) : ∃ record, contents after.heap e = .ok record := by
  obtain ⟨log', slots', k, rest, hown, rfl, hcommit⟩ := hc.atHead h
  obtain ⟨s', slots'', hcommit', -, hkeep⟩ := commitEntry_spec hown (by decide)
  rw [hcommit] at hcommit'
  obtain rfl := Except.ok.inj hcommit'
  have hsplit : log'.pending ++ newline :: rest = (log'.pending ++ [newline]) ++ rest := by simp
  rw [hsplit] at hkeep
  have hcontents := contents_of_holds hkeep.take
  rw [List.length_append, List.length_singleton] at hcontents
  exact ⟨_, hcontents⟩

end Write

section Lookup

/-- The values of `num_entries - i`, `i` and `count` at the heads of a lookup loop. -/
inductive FindVisits (entry : Nat → AesdBufferEntry) (readIndex charOffset numEntries : Nat) :
    (n i count : Nat) → Prop
  | start : FindVisits entry readIndex charOffset numEntries numEntries 0 0
  | next {n i count : Nat} : FindVisits entry readIndex charOffset numEntries (n + 1) i count →
      ¬sizeAdd count (entry ((readIndex + i) % maxWriteOperationsSupported)).size > charOffset →
      FindVisits entry readIndex charOffset numEntries n (i + 1)
        (sizeAdd count (entry ((readIndex + i) % maxWriteOperationsSupported)).size)

/-- The running total of a lookup counts the bytes of the slots passed: it never wraps and never
exceeds the offset. -/
theorem findVisits_guarded {entry : Nat → AesdBufferEntry} {readIndex charOffset numEntries : Nat}
    (hsum : ((window entry maxWriteOperationsSupported readIndex numEntries).map
      AesdBufferEntry.size).sum < 2 ^ 64) {n i count : Nat}
    (hv : FindVisits entry readIndex charOffset numEntries n i count) :
    count ≤ charOffset ∧
      (0 < n → count + (entry ((readIndex + i) % maxWriteOperationsSupported)).size < 2 ^ 64) := by
  have hinv : count ≤ charOffset ∧ count + ((window entry maxWriteOperationsSupported
      (readIndex + i) n).map AesdBufferEntry.size).sum < 2 ^ 64 := by
    induction hv with
    | start =>
      rw [Nat.zero_add]
      exact ⟨Nat.zero_le _, hsum⟩
    | @next n i count _ hnot ih =>
      obtain ⟨-, hlt⟩ := ih
      rw [window_cons, List.map_cons, List.sum_cons] at hlt
      have hadd : sizeAdd count (entry ((readIndex + i) % maxWriteOperationsSupported)).size =
          count + (entry ((readIndex + i) % maxWriteOperationsSupported)).size :=
        sizeAdd_eq (by omega)
      rw [hadd] at hnot ⊢
      constructor
      · omega
      · rw [← Nat.add_assoc, Nat.add_assoc count]
        exact hlt
  refine ⟨hinv.1, fun hn => ?_⟩
  obtain ⟨n, rfl⟩ : ∃ m, n = m + 1 := ⟨n - 1, by omega⟩
  have hlt := hinv.2
  rw [window_cons, List.map_cons, List.sum_cons] at hlt
  omega

/-- In a device that stands for a log no lookup wraps. -/
theorem devFind_guarded (h : Represents s log slots lost) {charOffset n i count : Nat}
    (hv : FindVisits s.dev.entry s.dev.outOffs charOffset
      (numEntries s.dev.inOffs s.dev.outOffs s.dev.full) n i count) :
    count ≤ charOffset ∧ (0 < n → count +
      (s.dev.entry ((s.dev.outOffs + i) % maxWriteOperationsSupported)).size < 2 ^ 64) := by
  have hcount : numEntries s.dev.inOffs s.dev.outOffs s.dev.full = (ring s.dev).count :=
    h.owns.grown.numEntries_eq
  rw [hcount] at hv
  exact findVisits_guarded h.owns.sizes_sum_lt hv

end Lookup

section Read

/-- The first head of the copy loop, if the read gets that far. -/
def readHead (env : ReadEnv) (count fPos : Nat) (s : DriverState) : Option ReadHead :=
  if (kmalloc env.kmalloc count s.heap).1 = .null then none
  else if (aesdDevFindEntryOffsetForFpos s.dev (snapped s fPos) 0).1 =
    maxWriteOperationsSupported then none
  else some
    { left := totalEntries s.dev (aesdDevFindEntryOffsetForFpos s.dev (snapped s fPos) 0).1
      bufIndex := (aesdDevFindEntryOffsetForFpos s.dev (snapped s fPos) 0).1
      startCharIndex := (aesdDevFindEntryOffsetForFpos s.dev (snapped s fPos) 0).2
      bytesRead := 0
      heap := (kmalloc env.kmalloc count s.heap).2 }

/-- What a read does behind its copy loop: `copy_to_user` and `kfree`. -/
def readRest (env : ReadEnv) (count fPos : Nat) (s : DriverState) (bytesRead : Nat)
    (m : Heap UInt8) : Except Fault ReadResult := do
  let (missing, user) ← copyToUser m (kmalloc env.kmalloc count s.heap).1 bytesRead env.writable
  let m ← m.free (kmalloc env.kmalloc count s.heap).1
  pure ⟨if missing ≠ 0 then -EFAULT else (bytesRead : Int), snapped s fPos + bytesRead, user,
    { s with heap := m }⟩

/-- From its first loop head on, a read is its copy loop and the rest behind it. -/
theorem aesdRead_of_readHead {env : ReadEnv} {count fPos : Nat} {head : ReadHead}
    (h : readHead env count fPos s = some head) :
    aesdRead env count fPos s = (do
      let (bytesRead, m) ← readFrom s.dev (kmalloc env.kmalloc count s.heap).1 count head
      readRest env count fPos s bytesRead m) := by
  unfold readRest
  rw [readHead] at h
  split_ifs at h with hnull hend
  obtain rfl := Option.some.inj h
  simp only [aesdRead, snapped_eq, hnull, if_false, hend, readFrom]

/-- The heads of the copy loop that a read passes through. -/
inductive ReadVisits (env : ReadEnv) (count fPos : Nat) (s : DriverState) : ReadHead → Prop
  | entry {head : ReadHead} : readHead env count fPos s = some head →
      ReadVisits env count fPos s head
  | round {head head' : ReadHead} : ReadVisits env count fPos s head →
      aesdReadRound s.dev (kmalloc env.kmalloc count s.heap).1 count head = .ok (.inl head') →
      ReadVisits env count fPos s head'

/-- The number of bytes that the round at a loop head copies. -/
def copyLength (dev : AesdDev) (count : Nat) (head : ReadHead) : Nat :=
  min ((dev.entry head.bufIndex).size - head.startCharIndex) (count - head.bytesRead)

/-- At a head of the copy loop that is not its end, the position lies inside the entry, at its
start in every round but the first; both subtractions are in range; what is copied lies inside the
entry's recorded size and inside the `count` bytes of the kernel buffer; the entry is initialised;
and the kernel buffer is so far filled with `data`. -/
structure CopyGuarded (s : DriverState) (kernelBuf : Ptr) (count : Nat) (data : List UInt8)
    (head : ReadHead) : Prop where
  inside : head.startCharIndex < (s.dev.entry head.bufIndex).size
  later : 0 < head.bytesRead → head.startCharIndex = 0
  bytesRead_le : head.bytesRead ≤ count
  source : head.startCharIndex + copyLength s.dev count head ≤ (s.dev.entry head.bufIndex).size
  dest : head.bytesRead + copyLength s.dev count head ≤ count
  entry : ∃ record, contents head.heap (s.dev.entry head.bufIndex) = .ok record
  copied : head.heap.load kernelBuf 0 head.bytesRead = .ok (data.take head.bytesRead)

/-- A loop head that a read passes through: the loop invariant, and where the position stands. -/
def Copying (s : DriverState) (log : Log) (slots : List Slot) (count fPos : Nat)
    (head : ReadHead) : Prop :=
  ∃ j got, AtReadHead s.dev slots s.heap.next count (s.heap.alloc count)
      (available s log count fPos) head j got ∧
    (∀ hlt : j < slots.length, head.startCharIndex < slots[j].2.length) ∧
    (got ≠ [] → head.startCharIndex = 0)

theorem readHead_copying (h : Represents s log slots lost) {env : ReadEnv} {count fPos : Nat}
    {head : ReadHead} (hpos : 0 < count) (hhead : readHead env count fPos s = some head) :
    kmalloc env.kmalloc count s.heap = (.block s.heap.next, s.heap.alloc count) ∧
      Copying s log slots count fPos head := by
  rw [readHead] at hhead
  split_ifs at hhead with hnull hend
  obtain rfl := Option.some.inj hhead
  have hk : kmalloc env.kmalloc count s.heap = (.block s.heap.next, s.heap.alloc count) := by
    rcases kmalloc_cases env.kmalloc count s.heap with ⟨hz, -⟩ | ⟨-, -, hk⟩ | ⟨-, -, hk⟩
    · omega
    · exact hk
    · exact absurd (by rw [hk]) hnull
  refine ⟨hk, ?_⟩
  have hsnap : s.dev.totalBytesEvicted ≤ snapped s fPos := Nat.le_max_right _ _
  have hfind := devFind_eq h (snapped s fPos) 0
  rw [if_neg (Nat.not_lt.mpr hsnap)] at hfind
  cases hloc : locate ((slots.map Prod.snd).map List.length)
      (snapped s fPos - s.dev.totalBytesEvicted) with
  | none =>
    rw [hloc] at hfind
    exact absurd (by rw [hfind]) hend
  | some q =>
    obtain ⟨j, k⟩ := q
    rw [hloc] at hfind
    obtain ⟨hj, hlt, hdata⟩ := drop_of_located h hsnap hloc
    have hcount : slots.length = (ring s.dev).count := h.owns.slots_length
    have hentries := totalEntries_eq h.owns.grown.toWellFormed (hcount ▸ hj)
    refine ⟨j, [], ?_, fun _ => by rw [hfind]; exact hlt, fun hne => absurd rfl hne⟩
    rw [hfind]
    refine
      { entries := ?_
        index := rfl
        start := fun _ => Nat.le_of_lt hlt
        size := rfl
        room := Nat.zero_le _
        filled := ?_
        same := ?_
        rest := ?_ }
    · simp only [hentries]
      omega
    · simp only [hk]
      rw [Filled, Heap.alloc_blocks_next]
      rfl
    · simp only [hk]
      exact SameBut.refl _ _
    · rw [hdata, List.nil_append]
      rfl

/-- The loop invariant holds at every loop head. -/
theorem ReadVisits.copying {env : ReadEnv} {count fPos : Nat} {head : ReadHead}
    (hv : ReadVisits env count fPos s head) (h : Represents s log slots lost) (hpos : 0 < count) :
    kmalloc env.kmalloc count s.heap = (.block s.heap.next, s.heap.alloc count) ∧
      Copying s log slots count fPos head := by
  induction hv with
  | entry hhead => exact readHead_copying h hpos hhead
  | @round head head' hv hrun ih =>
    obtain ⟨hk, j, got, hat, -, -⟩ := ih
    rw [hk] at hrun
    rcases hat.round h.owns.grown h.owns.occupied h.owns.next_not_mem
        (h.owns.stored_alloc count) with
      ⟨m', hround, -⟩ | ⟨next, got', hround, -, hstart, hnext⟩
    · rw [hrun] at hround
      cases Except.ok.inj hround
    · rw [hrun] at hround
      obtain rfl := Sum.inl.inj (Except.ok.inj hround)
      refine ⟨hk, j + 1, got', hnext, ?_, fun _ => hstart⟩
      intro hlt
      rw [hstart]
      exact h.owns.slot_pos (List.getElem_mem hlt)

/-- The bytes that a read is to deliver, as they are observed. -/
theorem available_eq_view (h : Represents s log slots lost) (count fPos : Nat) :
    available s log count fPos = ((logView log).records.flatten.drop
      (snapped s fPos - (logView log).evicted)).take count := by
  have hsnap : s.dev.totalBytesEvicted ≤ snapped s fPos := Nat.le_max_right _ _
  have hpos : s.dev.totalBytesEvicted + (snapped s fPos - s.dev.totalBytesEvicted) =
      snapped s fPos := by omega
  have hevicted : (logView log).evicted = s.dev.totalBytesEvicted := h.owns.evicted.symm
  have hflat : (logView log).records.flatten = log.committed.drop s.dev.totalBytesEvicted := by
    rw [h.owns.evicted, Cut.committed_drop_evicted]
    rfl
  rw [hevicted, hflat, List.drop_drop, hpos]
  rfl

/-- Every round of the copy loop that copies does so within the bounds. -/
theorem copyGuarded {env : ReadEnv} {count fPos : Nat} {head : ReadHead}
    (hv : ReadVisits env count fPos s head) (h : Represents s log slots lost)
    (hleft : 0 < head.left) (hmore : head.bytesRead < count) :
    CopyGuarded s (kmalloc env.kmalloc count s.heap).1 count
      ((logView log).records.flatten.drop (snapped s fPos - (logView log).evicted)) head := by
  obtain ⟨hk, j, got, hat, hinside, hlater⟩ := hv.copying h (by omega)
  have hj : j < slots.length := by
    have hentries := hat.entries
    omega
  have hentry : s.dev.entry head.bufIndex = slotEntry slots[j] := by
    rw [hat.index]
    exact entry_eq h.owns.occupied hj
  have hstored := hat.stored h.owns.next_not_mem (h.owns.stored_alloc count)
  have hlt : head.startCharIndex < (s.dev.entry head.bufIndex).size := by
    rw [hentry]
    exact hinside hj
  refine
    { inside := hlt
      later := ?_
      bytesRead_le := Nat.le_of_lt hmore
      source := ?_
      dest := ?_
      entry := ?_
      copied := ?_ }
  · intro hpos
    rw [hat.size] at hpos
    exact hlater (List.length_pos_iff.mp hpos)
  · rw [copyLength]
    omega
  · rw [copyLength]
    omega
  · rw [hentry]
    exact ⟨_, contents_of_holds (hstored _ (List.getElem_mem hj))⟩
  · have hgot : ((logView log).records.flatten.drop
        (snapped s fPos - (logView log).evicted)).take head.bytesRead = got := by
      have htake := congrArg (fun l => l.take head.bytesRead)
        ((available_eq_view h count fPos).symm.trans hat.rest)
      simp only [List.take_take] at htake
      rw [Nat.min_eq_left (Nat.le_of_lt hmore), hat.size, List.take_left] at htake
      rw [hat.size]
      exact htake
    have hholds : head.heap.Holds s.heap.next ([] ++ got ++ []) := by
      rw [List.nil_append, List.append_nil]
      exact hat.filled.holds
    rw [hgot, hk]
    exact Heap.load_eq hholds rfl hat.size

/-- What reaches `copy_to_user` are bytes of committed entries. -/
theorem copied_of_readHead (h : Represents s log slots lost) {env : ReadEnv} {count fPos : Nat}
    {head : ReadHead} (hhead : readHead env count fPos s = some head) :
    ∃ bytesRead m, readFrom s.dev (kmalloc env.kmalloc count s.heap).1 count head =
        .ok (bytesRead, m) ∧
      m.load (kmalloc env.kmalloc count s.heap).1 0 bytesRead =
        .ok (((logView log).records.flatten.drop
          (snapped s fPos - (logView log).evicted)).take count) := by
  rw [← available_eq_view h]
  by_cases hpos : 0 < count
  · obtain ⟨hk, j, got, hat, -, -⟩ := readHead_copying h hpos hhead
    obtain ⟨m', hloop, hfill, -⟩ := hat.loop h.owns.grown h.owns.occupied
      h.owns.next_not_mem (h.owns.stored_alloc count)
    have hholds : m'.Holds s.heap.next ([] ++ available s log count fPos ++ []) := by
      rw [List.nil_append, List.append_nil]
      exact hfill.holds
    rw [hk]
    exact ⟨_, m', hloop, Heap.load_eq hholds rfl rfl⟩
  · obtain rfl : count = 0 := by omega
    have hnil : available s log 0 fPos = [] := List.take_zero
    have hstop : readFrom s.dev (kmalloc env.kmalloc 0 s.heap).1 0 head =
        .ok (head.bytesRead, head.heap) := by
      rw [readFrom]
      cases head.left with
      | zero => rfl
      | succ left => rfl
    have hzero : head.bytesRead = 0 := by
      rw [readHead] at hhead
      split_ifs at hhead
      rw [← Option.some.inj hhead]
    rw [hnil]
    exact ⟨_, _, hstop, by rw [hzero]; exact Heap.load_zero _ _ _⟩

end Read

section Law

/-- Every buffer access of the driver is in range and initialised. In every state that calls
reach, whatever is asked for and whatever the kernel does: a write completes, so none of its
accesses leaves its block or reads an uninitialised byte and neither of its subtractions wraps,
and leaves entries and an unfinished record that are initialised up to their sizes; at each of its
loop heads the working buffer has room for all bytes to be scanned, all of them initialised; each
entry it commits is initialised. A read completes likewise; each of its copies lies inside the
entry's recorded size and inside the kernel buffer; and behind its loop heads, which are those of
`aesd_read`, what it hands to the user are bytes of committed entries. The running total of a lookup
never exceeds its offset. -/
theorem accesses_safe (calls : List Call) :
    ∃ s v, run callStep aesdInitModule calls = .ok s ∧ view s = .ok v ∧
      (∀ env payload,
        (∃ r s' v', aesdWrite env payload s = .ok (r, s') ∧ view s' = .ok v') ∧
        (∀ head, Visits env payload s head → head.i < payload.length →
          ScanGuarded payload.length head) ∧
        (∀ before e after, Commits env payload s before e after →
          ∃ record, contents after.heap e = .ok record)) ∧
      (∀ env count fPos,
        (∃ result, aesdRead env count fPos s = .ok result) ∧
        (∀ head, ReadVisits env count fPos s head → 0 < head.left → head.bytesRead < count →
          CopyGuarded s (kmalloc env.kmalloc count s.heap).1 count
            (v.records.flatten.drop (snapped s fPos - v.evicted)) head) ∧
        (∀ head, readHead env count fPos s = some head →
          ∃ bytesRead m, readFrom s.dev (kmalloc env.kmalloc count s.heap).1 count head =
              .ok (bytesRead, m) ∧
            m.load (kmalloc env.kmalloc count s.heap).1 0 bytesRead =
              .ok ((v.records.flatten.drop (snapped s fPos - v.evicted)).take count) ∧
            aesdRead env count fPos s = readRest env count fPos s bytesRead m)) ∧
      (∀ charOffset n i count, FindVisits s.dev.entry s.dev.outOffs charOffset
          (numEntries s.dev.inOffs s.dev.outOffs s.dev.full) n i count →
        count ≤ charOffset ∧ (0 < n → count +
          (s.dev.entry ((s.dev.outOffs + i) % maxWriteOperationsSupported)).size < 2 ^ 64)) := by
  obtain ⟨s, hrun, log, slots, lost, h⟩ := runCalls calls
  refine ⟨s, logView log, hrun, view_eq h, ?_, ?_, fun charOffset n i count => devFind_guarded h⟩
  · intro env payload
    refine ⟨?_, fun head hv hlt => scanGuarded hv h hlt,
      fun before e after hc => committed_initialised hc h⟩
    obtain ⟨s', slots', hwrite, hrep, -⟩ := aesdWrite_exact h env payload
    exact ⟨_, s', _, hwrite, view_eq hrep⟩
  · intro env count fPos
    refine ⟨?_, fun head hv hleft hmore => copyGuarded hv h hleft hmore, ?_⟩
    · obtain ⟨result, hread, -⟩ := aesdRead_total h env count fPos
      exact ⟨result, hread⟩
    · intro head hhead
      obtain ⟨bytesRead, m, hloop, hload⟩ := copied_of_readHead h hhead
      refine ⟨bytesRead, m, hloop, hload, ?_⟩
      rw [aesdRead_of_readHead hhead, hloop]
      rfl

end Law

end Aesd.Driver.AccessSafety
