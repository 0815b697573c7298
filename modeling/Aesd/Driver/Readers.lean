/- Aesd/Driver/Readers
   layer: system
   digest: What readers get: reads against lookups, reads that fail, and readers beside writers. -/

import Aesd.Driver.Ownership

set_option autoImplicit false
set_option relaxedAutoImplicit false

namespace Aesd.Driver.Readers

open Aesd.Foundation.BlockHeap
open Aesd.Foundation.RecordLog
open Aesd.Foundation.Run
open Aesd.Foundation.SegmentLookup
open Aesd.Driver.CircularBuffer
open Aesd.Driver.Device
open Aesd.Driver.LogRelation
open Aesd.Driver.ReadCorrect
open Aesd.Driver.WriteCorrect
open Aesd.Driver.Session
open Aesd.Driver.Ownership

variable {s : DriverState} {log : Log} {slots : List Slot} {lost : Set Nat}

section Lookups

/-- The bytes at the offsets `p`, `p + 1`, …, each looked up on its own, at most `left` of them
and none from the first offset on that is reported as not found. -/
def lookupBytes (s : DriverState) : (left p : Nat) → Except Fault (List UInt8)
  | 0, _ => .ok []
  | left + 1, p =>
    let (slot, k) := aesdDevFindEntryOffsetForFpos s.dev p 0
    if slot = maxWriteOperationsSupported then .ok []
    else do
      let byte ← s.heap.load (s.dev.entry slot).buffptr k 1
      let more ← lookupBytes s left (p + 1)
      pure (byte ++ more)

/-- One located byte, and the committed bytes behind it. -/
theorem load_located (h : Represents s log slots lost) {p j k : Nat}
    (hp : s.dev.totalBytesEvicted ≤ p)
    (hloc : locate ((slots.map Prod.snd).map List.length) (p - s.dev.totalBytesEvicted) =
      some (j, k)) :
    ∃ c, s.heap.load
        (s.dev.entry ((s.dev.outOffs + j) % maxWriteOperationsSupported)).buffptr k 1 = .ok [c] ∧
      log.committed.drop p = c :: log.committed.drop (p + 1) := by
  obtain ⟨hj, hk, hdata⟩ := drop_of_located h hp hloc
  have hentry := entry_eq h.owns.occupied hj
  have hsplit : slots[j].2 = slots[j].2.take k ++ [slots[j].2[k]] ++ slots[j].2.drop (k + 1) := by
    rw [List.append_assoc, List.singleton_append, ← List.drop_eq_getElem_cons hk,
      List.take_append_drop]
  have hstored := h.owns.stored slots[j] (List.getElem_mem hj)
  rw [hsplit] at hstored
  have hoff : k = (slots[j].2.take k).length := by
    rw [List.length_take]
    omega
  refine ⟨slots[j].2[k], ?_, ?_⟩
  · rw [hentry]
    exact Heap.load_eq hstored hoff rfl
  · rw [List.drop_eq_getElem_cons hj, List.map_cons, List.flatten_cons,
      List.drop_append_of_le_length (Nat.le_of_lt hk), List.drop_eq_getElem_cons hk,
      List.cons_append] at hdata
    have htail := congrArg List.tail hdata
    rw [List.tail_cons, List.tail_drop] at htail
    rw [← hdata, htail]

/-- Lookups one by one find the committed bytes. -/
theorem lookupBytes_eq (h : Represents s log slots lost) (n : Nat) :
    ∀ p, s.dev.totalBytesEvicted ≤ p →
      lookupBytes s n p = .ok ((log.committed.drop p).take n) := by
  induction n with
  | zero =>
    intro p _
    rw [List.take_zero]
    rfl
  | succ n ih =>
    intro p hp
    have hfind := devFind_eq h p 0
    rw [if_neg (Nat.not_lt.mpr hp)] at hfind
    cases hloc : locate ((slots.map Prod.snd).map List.length) (p - s.dev.totalBytesEvicted) with
    | none =>
      rw [hloc] at hfind
      simp only [lookupBytes, hfind, if_true]
      rw [drop_of_not_located h hp hloc, List.take_nil]
    | some q =>
      obtain ⟨j, k⟩ := q
      obtain ⟨c, hload, hdrop⟩ := load_located h hp hloc
      have hrest := ih (p + 1) (Nat.le_succ_of_le hp)
      have hslot : ¬(s.dev.outOffs + j) % maxWriteOperationsSupported =
          maxWriteOperationsSupported := by
        have hlt := Nat.mod_lt (s.dev.outOffs + j)
          (show 0 < maxWriteOperationsSupported by decide)
        omega
      rw [hloc] at hfind
      simp only [lookupBytes, hfind, hslot, if_false]
      rw [hload, ok_bind, hrest, ok_bind, hdrop, List.take_succ_cons]
      rfl

/-- In every state that calls reach, a read delivers what the lookups from its position on find,
up to the number of bytes wanted, and moves the position by as many. -/
theorem read_eq_lookups (calls : List Call) :
    ∃ s, run callStep aesdInitModule calls = .ok s ∧
      ∀ (env : ReadEnv) (count p : Nat), env.kmalloc = true → count < kmallocLimit →
        ∃ bytes, lookupBytes s count (max p s.dev.totalBytesEvicted) = .ok bytes ∧
          (bytes.length ≤ env.writable →
            ∃ s', aesdRead env count p s = .ok ⟨(bytes.length : Int),
              max p s.dev.totalBytesEvicted + bytes.length, bytes, s'⟩) := by
  obtain ⟨s, hrun, log, slots, lost, h⟩ := runCalls calls
  refine ⟨s, hrun, ?_⟩
  intro env count p hok hcount
  have hfound := lookupBytes_eq h count (max p s.dev.totalBytesEvicted) (Nat.le_max_right _ _)
  refine ⟨_, hfound, ?_⟩
  intro hw
  obtain ⟨s', hread, -⟩ := aesdRead_ok h (.inr ⟨hok, hcount⟩) hw
  exact ⟨s', hread⟩

end Lookups

section Failures

/-- The committed bytes from a position on that the ring still has. -/
def unread (s : DriverState) (p : Nat) : Nat :=
  s.dev.totalBytesEvicted + (ring s.dev).sizes.sum - max p s.dev.totalBytesEvicted

/-- The kernel buffer is there and the copy to the user stops before its end. -/
def CopyFails (env : ReadEnv) (count p : Nat) (s : DriverState) : Prop :=
  allocates env count ∧ env.writable < min count (unread s p)

/-- What the caller of a read sees. -/
def observed (result : ReadResult) : Int × Nat × List UInt8 :=
  (result.ret, result.fPos, result.user)

/-- Should this read fail, then the device is as before, the position has at most moved past
evicted bytes, and any repetition sees what it would have seen in place of this read. -/
def FailureHarmless (env : ReadEnv) (count p : Nat) (s : DriverState) : Prop :=
  ∀ result, aesdRead env count p s = .ok result → result.ret < 0 →
    Undisturbed s result.state ∧ result.fPos = max p s.dev.totalBytesEvicted ∧
    ∀ env', (aesdRead env' count result.fPos result.state).map observed =
      (aesdRead env' count p s).map observed

theorem unread_eq (h : Represents s log slots lost) (p : Nat) :
    unread s p = log.committed.length - snapped s p := by
  have hsum := h.owns.sizes_sum
  have htotal := h.owns.total_le
  rw [unread, snapped]
  omega

theorem available_length (h : Represents s log slots lost) (count p : Nat) :
    (available s log count p).length = min count (unread s p) := by
  rw [available, List.length_take, List.length_drop, unread_eq h]

/-- A read fails if and only if it does not get its kernel buffer, or the user's buffer does not
take what there is to read. -/
theorem aesdRead_fails_iff (h : Represents s log slots lost) {env : ReadEnv} {count p : Nat}
    {result : ReadResult} (hrun : aesdRead env count p s = .ok result) :
    result.ret < 0 ↔ ¬(allocates env count ∧ min count (unread s p) ≤ env.writable) := by
  rw [← available_length h]
  constructor
  · rintro hneg ⟨ha, hw⟩
    obtain ⟨s', hok, -⟩ := aesdRead_ok h ha hw
    rw [hrun] at hok
    obtain rfl := Except.ok.inj hok
    exact absurd hneg (Int.not_lt.mpr (Int.natCast_nonneg _))
  · intro hnot
    by_cases ha : allocates env count
    · have hw : env.writable < (available s log count p).length :=
        Nat.lt_of_not_le fun hle => hnot ⟨ha, hle⟩
      obtain ⟨s', hfail, -⟩ := aesdRead_spec h ha p
      rw [if_pos hw, hrun] at hfail
      obtain rfl := Except.ok.inj hfail
      exact show -EFAULT < 0 by decide
    · rw [aesdRead_no_buffer s ha p] at hrun
      obtain rfl := Except.ok.inj hrun
      exact show -ENOMEM < 0 by decide

theorem snapped_snapped (s : DriverState) (p : Nat) : snapped s (snapped s p) = snapped s p := by
  unfold snapped
  exact Nat.max_eq_left (Nat.le_max_right _ _)

/-- A read depends on its position only through where the position snaps to. -/
theorem aesdRead_snapped (env : ReadEnv) (count p : Nat) (s : DriverState) :
    aesdRead env count (snapped s p) s = aesdRead env count p s := by
  unfold aesdRead
  simp only [snapped_eq, snapped_snapped]

theorem failureHarmless_iff (h : Represents s log slots lost) (env : ReadEnv) (count p : Nat) :
    FailureHarmless env count p s ↔ ¬CopyFails env count p s := by
  have hlen := available_length h count p
  constructor
  · rintro hharmless ⟨ha, hw⟩
    obtain ⟨s', hread, -⟩ := aesdRead_spec h ha p
    rw [hlen, if_pos hw] at hread
    obtain ⟨-, hpos, -⟩ := hharmless _ hread (show -EFAULT < 0 by decide)
    have hmoved : snapped s p + min count (unread s p) = snapped s p := hpos
    omega
  · intro hnot result hread hneg
    have ha : ¬allocates env count := by
      intro ha
      apply (aesdRead_fails_iff h hread).mp hneg
      exact ⟨ha, Nat.le_of_not_lt fun hlt => hnot ⟨ha, hlt⟩⟩
    rw [aesdRead_no_buffer s ha p] at hread
    obtain rfl := Except.ok.inj hread
    refine ⟨Undisturbed.refl s, rfl, ?_⟩
    intro env'
    show (aesdRead env' count (snapped s p) s).map observed = _
    rw [aesdRead_snapped]

/-- One read of a sequence that shares its position, as the buffers of a `readv` do. -/
structure ReadCall where
  env : ReadEnv
  count : Nat

/-- The device, the shared position, and what the reads that succeeded delivered. -/
structure Sequence where
  state : DriverState
  pos : Nat
  delivered : List UInt8

def sequenceStep (st : Sequence) (call : ReadCall) : Except Fault Sequence := do
  let result ← aesdRead call.env call.count st.pos st.state
  pure ⟨result.state, result.fPos,
    if result.ret < 0 then st.delivered else st.delivered ++ result.user⟩

/-- The delivered bytes are the committed ones from the first position on. -/
structure Gapless (log : Log) (start : Nat) (st : Sequence) : Prop where
  represents : ∃ slots lost, Represents st.state log slots lost
  pos : snapped st.state st.pos = start + st.delivered.length
  delivered : st.delivered = (log.committed.drop start).take st.delivered.length

/-- A read that fails harmlessly, or does not fail, opens no gap. -/
theorem Gapless.step {log : Log} {start : Nat} {st : Sequence} (hg : Gapless log start st)
    {call : ReadCall} (hnot : ¬CopyFails call.env call.count st.pos st.state) :
    ∃ st', sequenceStep st call = .ok st' ∧ Gapless log start st' ∧
      Undisturbed st.state st'.state := by
  obtain ⟨⟨slots, lost, h⟩, hpos, hbytes⟩ := hg
  by_cases ha : allocates call.env call.count
  · have hw : (available st.state log call.count st.pos).length ≤ call.env.writable := by
      rw [available_length h]
      exact Nat.le_of_not_lt fun hlt => hnot ⟨ha, hlt⟩
    obtain ⟨s', hread, hu⟩ := aesdRead_ok h ha hw
    have hnonneg : ¬((available st.state log call.count st.pos).length : Int) < 0 :=
      Int.not_lt.mpr (Int.natCast_nonneg _)
    have hsnap : st.state.dev.totalBytesEvicted ≤ snapped st.state st.pos := Nat.le_max_right _ _
    refine ⟨⟨s', snapped st.state st.pos + (available st.state log call.count st.pos).length,
      st.delivered ++ available st.state log call.count st.pos⟩, ?_, ⟨⟨slots, lost,
        hu.represents h⟩, ?_, ?_⟩, hu⟩
    · simp only [sequenceStep, hread, ok_bind, pure_eq_ok, if_neg hnonneg]
    · unfold snapped at hsnap hpos ⊢
      simp only [List.length_append, hu.dev]
      omega
    · have hnext : available st.state log call.count st.pos =
          ((log.committed.drop start).drop st.delivered.length).take call.count := by
        rw [available, hpos, List.drop_drop]
      have htake : available st.state log call.count st.pos =
          ((log.committed.drop start).drop st.delivered.length).take
            (available st.state log call.count st.pos).length := by
        rw [hnext, List.length_take, ← List.take_eq_take_min]
      rw [List.length_append, List.take_add, ← htake, ← hbytes]
  · have hread := aesdRead_no_buffer st.state ha st.pos
    have hneg : -ENOMEM < (0 : Int) := by decide
    refine ⟨⟨st.state, snapped st.state st.pos, st.delivered⟩, ?_, ⟨⟨slots, lost, h⟩, ?_, hbytes⟩,
      Undisturbed.refl _⟩
    · simp only [sequenceStep, hread, ok_bind, pure_eq_ok, if_pos hneg]
    · rw [snapped_snapped, hpos]

theorem run_gapless {log : Log} {start : Nat} (reads : List ReadCall) :
    ∀ st, Gapless log start st →
      (∀ pre call st', pre ++ [call] <+: reads → run sequenceStep st pre = .ok st' →
        ¬CopyFails call.env call.count st'.pos st'.state) →
      ∃ st', run sequenceStep st reads = .ok st' ∧ Gapless log start st' := by
  induction reads with
  | nil => exact fun st hg _ => ⟨st, rfl, hg⟩
  | cons call reads ih =>
    intro st hg hnot
    obtain ⟨st₁, hstep, hg₁, -⟩ := hg.step (hnot [] call st ⟨reads, rfl⟩ rfl)
    rw [run_cons_ok hstep]
    apply ih st₁ hg₁
    intro pre call' st' hpre hrun
    apply hnot (call :: pre) call' st'
    · exact List.cons_prefix_cons.mpr ⟨rfl, hpre⟩
    · rw [run_cons_ok hstep, hrun]

/-- In every state that calls reach, a read that fails consumes nothing exactly when it does not
fail in its copy to the user, and a sequence of reads none of which fails there delivers bytes
without a gap. -/
theorem failed_read_consumes_nothing_iff (calls : List Call) :
    ∃ s, run callStep aesdInitModule calls = .ok s ∧
      (∀ env count p, FailureHarmless env count p s ↔ ¬CopyFails env count p s) ∧
      ∀ p reads,
        (∀ pre call st, pre ++ [call] <+: reads → run sequenceStep ⟨s, p, []⟩ pre = .ok st →
          ¬CopyFails call.env call.count st.pos st.state) →
        ∃ st, run sequenceStep ⟨s, p, []⟩ reads = .ok st ∧
          lookupBytes s st.delivered.length (max p s.dev.totalBytesEvicted) = .ok st.delivered := by
  obtain ⟨s, hrun, log, slots, lost, h⟩ := runCalls calls
  refine ⟨s, hrun, failureHarmless_iff h, ?_⟩
  intro p reads hnot
  have hstart : Gapless log (snapped s p) ⟨s, p, []⟩ := ⟨⟨slots, lost, h⟩, rfl, rfl⟩
  obtain ⟨st, hst, hg⟩ := run_gapless reads _ hstart hnot
  refine ⟨st, hst, ?_⟩
  have hfound := lookupBytes_eq h st.delivered.length (max p s.dev.totalBytesEvicted)
    (Nat.le_max_right _ _)
  exact hfound.trans (congrArg Except.ok hg.delivered.symm)

/-- One line on the device and a read of it whose user buffer takes a single byte: the position
behind the failed read is the end of the line. -/
theorem failed_read_skips_line :
    ∃ s, run callStep aesdInitModule [.write ⟨fun _ => true, 3⟩ [97, 98, 10]] = .ok s ∧
      ¬FailureHarmless ⟨true, 1⟩ 3 0 s ∧
      ∃ result, aesdRead ⟨true, 1⟩ 3 0 s = .ok result ∧ result.ret = -EFAULT ∧
        (aesdRead ⟨true, 3⟩ 3 result.fPos result.state).map observed = .ok (0, 3, []) ∧
        (aesdRead ⟨true, 3⟩ 3 0 s).map observed = .ok (3, 3, [97, 98, 10]) := by
  refine ⟨_, rfl, ?_, _, rfl, rfl, rfl, rfl⟩
  intro hharmless
  obtain ⟨-, hpos, -⟩ := hharmless _ rfl (by decide)
  revert hpos
  decide

end Failures

section Concurrency

/-- What one read of the system saw: where it started, the stream the device had accepted and the
counter of evicted bytes at that time, and what came out of it. -/
structure Observation where
  reader : Nat
  count : Nat
  start : Nat
  stream : List UInt8
  evicted : Nat
  ret : Int
  bytes : List UInt8
  after : Nat

/-- The position a read moved to before it delivered anything. -/
def Observation.first (o : Observation) : Nat := max o.start o.evicted

/-- All bytes of the records that a stream has completed. -/
def committedOf (stream : List UInt8) : List UInt8 := (accept Cut.empty stream).committed

/-- A device with its writers and readers. Each call holds the semaphore, so a run is a sequence
of calls; the accepted stream and the observations are only for the record. -/
structure System where
  state : DriverState
  stream : List UInt8
  pos : Nat → Nat
  observations : List Observation

/-- Every reader starts at position zero. -/
def System.initial : System := ⟨aesdInitModule, [], fun _ => 0, []⟩

inductive Event
  | write (env : WriteEnv) (payload : List UInt8)
  | read (reader : Nat) (env : ReadEnv) (count : Nat)

/-- The allocation and the copy of a read succeed. Writes may go either way. -/
def Event.ReadSucceeds : Event → Prop
  | .write _ _ => True
  | .read _ env count => env.kmalloc = true ∧ count < kmallocLimit ∧ count ≤ env.writable

/-- The record of a read that is about to be made. -/
def System.observe (sys : System) (reader count : Nat) (result : ReadResult) : Observation where
  reader := reader
  count := count
  start := sys.pos reader
  stream := sys.stream
  evicted := sys.state.dev.totalBytesEvicted
  ret := result.ret
  bytes := result.user
  after := result.fPos

def System.afterRead (sys : System) (reader count : Nat) (result : ReadResult) : System where
  state := result.state
  stream := sys.stream
  pos := Function.update sys.pos reader result.fPos
  observations := sys.observations ++ [sys.observe reader count result]

def eventStep (sys : System) : Event → Except Fault System
  | .write env payload => do
    let (r, s) ← aesdWrite env payload sys.state
    pure { sys with state := s, stream := sys.stream ++ payload.take r.toNat }
  | .read reader env count => do
    let result ← aesdRead env count (sys.pos reader) sys.state
    pure (sys.afterRead reader count result)

/-- A read returned exactly the committed bytes from its first position on, as many as were wanted
and as there were, moved by that number, and returned zero only at the end. -/
structure Observation.Exact (o : Observation) : Prop where
  bytes : o.bytes = ((committedOf o.stream).drop o.first).take o.count
  ret : o.ret = (o.bytes.length : Nat)
  after : o.after = o.first + o.bytes.length
  atEnd : 0 < o.count → (o.ret = 0 ↔ o.first = (committedOf o.stream).length)

theorem committedOf_mono {xs ys : List UInt8} (h : xs <+: ys) :
    committedOf xs <+: committedOf ys := by
  obtain ⟨zs, rfl⟩ := h
  unfold committedOf
  rw [accept_append]
  exact Cut.committed_prefix_feed isNewline _ zs

/-- A delivered range is a range of every later stream's committed bytes. -/
theorem Observation.Exact.of_prefix {o : Observation} (he : o.Exact) {stream : List UInt8}
    (h : o.stream <+: stream) :
    o.bytes = ((committedOf stream).drop o.first).take o.bytes.length := by
  obtain ⟨more, hmore⟩ := committedOf_mono h
  have hbytes := he.bytes
  have htake : o.bytes = ((committedOf o.stream).drop o.first).take o.bytes.length := by
    have hlen := congrArg List.length hbytes
    rw [List.length_take] at hlen
    rw [hlen, ← List.take_eq_take_min]
    exact hbytes
  have hfit : o.bytes.length ≤ ((committedOf o.stream).drop o.first).length := by
    have hlen := congrArg List.length hbytes
    rw [List.length_take] at hlen
    omega
  rw [List.length_drop] at hfit
  rw [← hmore]
  by_cases hpast : o.first ≤ (committedOf o.stream).length
  · rw [List.drop_append_of_le_length hpast, List.take_append_of_le_length (by
      rw [List.length_drop]
      exact hfit)]
    exact htake
  · have hnil : o.bytes = [] := List.length_eq_zero_iff.mp (by omega)
    rw [hnil]
    rfl

/-- What holds of the system after every call. -/
structure Tracked (sys : System) : Prop where
  accepted : Accepted (sys.state, sys.stream)
  exact : ∀ o ∈ sys.observations, o.Exact ∧ o.stream <+: sys.stream ∧ o.after ≤ sys.pos o.reader
  within : ∀ reader, sys.pos reader ≤ (committedOf sys.stream).length
  increasing : sys.observations.Pairwise fun a b => a.reader = b.reader → a.after ≤ b.first
  covered : ∀ reader q, q < sys.pos reader → ∃ o ∈ sys.observations, o.reader = reader ∧
    (o.first ≤ q ∧ q < o.after ∨ o.start ≤ q ∧ q < o.evicted)

theorem tracked_initial : Tracked System.initial where
  accepted := accepted_init
  exact := by simp [System.initial]
  within := by simp [System.initial]
  increasing := List.Pairwise.nil
  covered := by simp [System.initial]

theorem Tracked.write {sys : System} (h : Tracked sys) (env : WriteEnv) (payload : List UInt8) :
    ∃ sys', eventStep sys (.write env payload) = .ok sys' ∧ Tracked sys' := by
  obtain ⟨slots, lost, hrep⟩ := h.accepted
  obtain ⟨r, s', slots', hrun, hrep', -⟩ := aesdWrite_spec hrep env payload
  have hgrow : sys.stream <+: sys.stream ++ payload.take r.toNat := List.prefix_append _ _
  refine ⟨{ sys with state := s', stream := sys.stream ++ payload.take r.toNat }, ?_, ?_⟩
  · simp only [eventStep, hrun, ok_bind, pure_eq_ok]
  · refine { h with accepted := ?_, exact := ?_, within := ?_ }
    · refine ⟨slots', lostAfterWrite env payload sys.state lost, ?_⟩
      rw [accept_append]
      exact hrep'
    · intro o ho
      obtain ⟨he, hs, ha⟩ := h.exact o ho
      exact ⟨he, hs.trans hgrow, ha⟩
    · intro reader
      exact (h.within reader).trans (committedOf_mono hgrow).length_le

/-- A read delivers what is available and is an exact observation. -/
theorem observe_exact {sys : System} {slots : List Slot} {lost : Set Nat}
    (hrep : Represents sys.state (accept Cut.empty sys.stream) slots lost) (reader count : Nat)
    (hwithin : sys.pos reader ≤ (committedOf sys.stream).length) {data : List UInt8}
    (hdata : data = available sys.state (accept Cut.empty sys.stream) count (sys.pos reader))
    (s' : DriverState) :
    (sys.observe reader count ⟨(data.length : Int), snapped sys.state (sys.pos reader) +
      data.length, data, s'⟩).Exact ∧
    snapped sys.state (sys.pos reader) + data.length ≤ (committedOf sys.stream).length := by
  have htotal : sys.state.dev.totalBytesEvicted ≤ (committedOf sys.stream).length :=
    hrep.owns.total_le
  have hle : snapped sys.state (sys.pos reader) ≤ (committedOf sys.stream).length :=
    Nat.max_le.mpr ⟨hwithin, htotal⟩
  have hlen : data.length =
      min count ((committedOf sys.stream).length - snapped sys.state (sys.pos reader)) := by
    rw [hdata, available, List.length_take, List.length_drop]
    rfl
  refine ⟨⟨hdata, rfl, rfl, ?_⟩, ?_⟩
  · intro hpos
    show (data.length : Int) = 0 ↔ snapped sys.state (sys.pos reader) =
      (committedOf sys.stream).length
    have hcount : 0 < count := hpos
    rw [Int.natCast_eq_zero]
    omega
  · omega

theorem Tracked.read {sys : System} (h : Tracked sys) {reader count : Nat} {env : ReadEnv}
    (hok : (Event.read reader env count).ReadSucceeds) :
    ∃ sys', eventStep sys (.read reader env count) = .ok sys' ∧ Tracked sys' := by
  obtain ⟨slots, lost, hrep⟩ := h.accepted
  obtain ⟨hkmalloc, hlimit, hwritable⟩ := hok
  have hshort : (available sys.state (accept Cut.empty sys.stream) count
      (sys.pos reader)).length ≤ env.writable := by
    unfold available
    rw [List.length_take]
    omega
  obtain ⟨s', hread, hu⟩ := aesdRead_ok hrep (.inr ⟨hkmalloc, hlimit⟩) hshort
  obtain ⟨data, hdata⟩ : ∃ data, data = available sys.state (accept Cut.empty sys.stream) count
    (sys.pos reader) := ⟨_, rfl⟩
  obtain ⟨hexact, hend⟩ := observe_exact hrep reader count (h.within reader) hdata s'
  have hforward : sys.pos reader ≤ snapped sys.state (sys.pos reader) + data.length :=
    Nat.le_add_right_of_le (Nat.le_max_left _ _)
  have hpos : ∀ x, sys.pos x ≤ Function.update sys.pos reader
      (snapped sys.state (sys.pos reader) + data.length) x := by
    intro x
    by_cases hx : x = reader
    · subst hx
      rw [Function.update_self]
      exact hforward
    · rw [Function.update_of_ne hx]
  refine ⟨sys.afterRead reader count ⟨(data.length : Int),
    snapped sys.state (sys.pos reader) + data.length, data, s'⟩, ?_, ?_⟩
  · rw [hdata]
    simp only [eventStep, hread, ok_bind, pure_eq_ok]
  · constructor
    · exact ⟨slots, lost, hu.represents hrep⟩
    · intro o ho
      rcases List.mem_append.mp ho with ho | ho
      · obtain ⟨he, hs, ha⟩ := h.exact o ho
        exact ⟨he, hs, ha.trans (hpos _)⟩
      · obtain rfl := List.mem_singleton.mp ho
        refine ⟨hexact, List.prefix_refl _, ?_⟩
        show snapped sys.state (sys.pos reader) + data.length ≤ Function.update sys.pos reader
          (snapped sys.state (sys.pos reader) + data.length) reader
        rw [Function.update_self]
    · intro x
      show Function.update sys.pos reader (snapped sys.state (sys.pos reader) + data.length) x ≤
        (committedOf sys.stream).length
      by_cases hx : x = reader
      · subst hx
        rw [Function.update_self]
        exact hend
      · rw [Function.update_of_ne hx]
        exact h.within x
    · refine List.pairwise_append.mpr ⟨h.increasing, List.pairwise_singleton _ _, ?_⟩
      intro a ha b hb hreader
      obtain rfl := List.mem_singleton.mp hb
      obtain ⟨-, -, hafter⟩ := h.exact a ha
      rw [hreader] at hafter
      exact hafter.trans (Nat.le_max_left _ _)
    · intro x q hq
      by_cases hold : q < sys.pos x
      · obtain ⟨o, ho, hx, hcover⟩ := h.covered x q hold
        exact ⟨o, List.mem_append_left _ ho, hx, hcover⟩
      · have hq' : q < Function.update sys.pos reader
            (snapped sys.state (sys.pos reader) + data.length) x := hq
        by_cases hx : x = reader
        · -- the new positions are those the read skipped and those it delivered
          subst hx
          rw [Function.update_self] at hq'
          refine ⟨_, List.mem_append_right _ (List.mem_singleton_self _), rfl, ?_⟩
          by_cases hskip : q < sys.state.dev.totalBytesEvicted
          · exact .inr ⟨Nat.le_of_not_lt hold, hskip⟩
          · exact .inl ⟨Nat.max_le.mpr ⟨Nat.le_of_not_lt hold, Nat.le_of_not_lt hskip⟩, hq'⟩
        · rw [Function.update_of_ne hx] at hq'
          exact absurd hq' hold

theorem runEvents (events : List Event) (hok : ∀ e ∈ events, e.ReadSucceeds) :
    ∃ sys, run eventStep System.initial events = .ok sys ∧ Tracked sys := by
  have hgen : ∀ (events : List Event) (sys : System), (∀ e ∈ events, e.ReadSucceeds) →
      Tracked sys → ∃ sys', run eventStep sys events = .ok sys' ∧ Tracked sys' := by
    intro events
    induction events with
    | nil => exact fun sys _ h => ⟨sys, rfl, h⟩
    | cons e events ih =>
      intro sys hok h
      have hrest : ∀ e ∈ events, e.ReadSucceeds := fun e he => hok e (List.mem_cons_of_mem _ he)
      have hstep : ∃ sys', eventStep sys e = .ok sys' ∧ Tracked sys' := by
        cases e with
        | write env payload => exact h.write env payload
        | read reader env count => exact h.read (hok _ List.mem_cons_self)
      obtain ⟨sys', hs, h'⟩ := hstep
      rw [run_cons_ok hs]
      exact ih sys' hrest h'
  exact hgen events _ hok tracked_initial

/-- Readers beside writers, in any order of their calls. Every read was exact, for the stream at
its time and for the stream at the end of the run. The segments a reader got lie one behind the
other, and what lies before its position was either delivered to it or evicted before it came
there. The retained records are the committed bytes beyond the evicted ones. -/
theorem readers_exact (events : List Event) (hok : ∀ e ∈ events, e.ReadSucceeds) :
    ∃ sys, run eventStep System.initial events = .ok sys ∧
      (∀ o ∈ sys.observations, o.Exact ∧ o.stream <+: sys.stream ∧
        o.bytes = ((committedOf sys.stream).drop o.first).take o.bytes.length) ∧
      (sys.observations.Pairwise fun a b => a.reader = b.reader → a.after ≤ b.first) ∧
      (∀ reader q, q < sys.pos reader → ∃ o ∈ sys.observations, o.reader = reader ∧
        (o.first ≤ q ∧ q < o.after ∨ o.start ≤ q ∧ q < o.evicted)) ∧
      ∃ v, view sys.state = .ok v ∧
        (committedOf sys.stream).drop sys.state.dev.totalBytesEvicted = v.records.flatten := by
  obtain ⟨sys, hrun, h⟩ := runEvents events hok
  obtain ⟨slots, lost, hrep⟩ := h.accepted
  refine ⟨sys, hrun, ?_, h.increasing, h.covered, _, view_eq hrep, ?_⟩
  · intro o ho
    obtain ⟨he, hs, -⟩ := h.exact o ho
    exact ⟨he, hs, he.of_prefix hs⟩
  · rw [hrep.owns.evicted]
    exact Cut.committed_drop_evicted maxWriteOperationsSupported _

/-- A line, a read of all of it, and a read at the end. -/
theorem readers_exact_line :
    (∀ e ∈ [Event.write ⟨fun _ => true, 2⟩ [97, 10], .read 0 ⟨true, 4⟩ 4, .read 0 ⟨true, 4⟩ 4],
      e.ReadSucceeds) ∧
    ∃ sys, run eventStep System.initial [Event.write ⟨fun _ => true, 2⟩ [97, 10],
      .read 0 ⟨true, 4⟩ 4, .read 0 ⟨true, 4⟩ 4] = .ok sys := by
  have hok : ∀ e ∈ [Event.write ⟨fun _ => true, 2⟩ [97, 10], .read 0 ⟨true, 4⟩ 4,
      .read 0 ⟨true, 4⟩ 4], e.ReadSucceeds := by
    simp [Event.ReadSucceeds, kmallocLimit]
  obtain ⟨sys, hrun, -⟩ := readers_exact _ hok
  exact ⟨hok, sys, hrun⟩

end Concurrency

end Aesd.Driver.Readers
