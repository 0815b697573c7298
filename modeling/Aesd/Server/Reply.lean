/- Aesd/Server/Reply
   layer: system
   digest: What a client gets back for one packet, however the packet is cut into chunks. -/

import Aesd.Server.Accounts

set_option autoImplicit false
set_option relaxedAutoImplicit false

namespace Aesd.Server.Reply

open Aesd.Foundation.BlockHeap
open Aesd.Foundation.DescriptorTable
open Aesd.Foundation.RecordLog
open Aesd.Foundation.Run
open Aesd.Driver.CircularBuffer
open Aesd.Driver.Device
open Aesd.Driver.LogRelation
open Aesd.Driver.ReadCorrect
open Aesd.Driver.WriteCorrect
open Aesd.Driver.Session
open Aesd.Driver.Ownership
open Aesd.Server.Handler
open Aesd.Server.Safety
open Aesd.Server.Serial
open Aesd.Server.Accounts

section Replies

variable {log : Log}

/-- What sections with these chunks send, one after the other. -/
def replies (log : Log) : List (List UInt8) → List UInt8
  | [] => []
  | chunk :: chunks => reply (accept log chunk) ++ replies (accept log chunk) chunks

theorem accept_packet {packet : List UInt8} (h : Cut.IsRecord isNewline packet) :
    accept log packet = ⟨log.records ++ [log.pending ++ packet], []⟩ := Cut.feed_isRecord log h

/-- The unfinished record is not sent. -/
theorem reply_of_no_newline {xs : List UInt8} (h : ∀ c ∈ xs, isNewline c = false) :
    reply (accept log xs) = reply log := by
  unfold accept
  rw [Cut.feed_of_no_end log h]
  rfl

/-- Every chunk in front of the last one is answered with the old records once more. -/
theorem replies_packet (chunks : List Chunk)
    (h : Cut.IsRecord isNewline (chunks.map Chunk.bytes).flatten) :
    replies log (chunks.map Chunk.bytes) =
      (List.replicate (chunks.length - 1) (reply log)).flatten ++
        reply (accept log (chunks.map Chunk.bytes).flatten) := by
  induction chunks generalizing log with
  | nil => exact absurd rfl h.ne_nil
  | cons chunk chunks ih =>
    rw [List.map_cons, List.flatten_cons] at h ⊢
    cases chunks with
    | nil =>
      rw [List.map_nil, List.flatten_nil, List.append_nil]
      show reply (accept log chunk.bytes) ++ [] = [] ++ reply (accept log chunk.bytes)
      rw [List.append_nil, List.nil_append]
    | cons chunk' chunks =>
      have hne : ((chunk' :: chunks).map Chunk.bytes).flatten ≠ [] := by
        rw [List.map_cons, List.flatten_cons]
        intro he
        exact chunk'.nonempty (List.append_eq_nil_iff.mp he).1
      obtain ⟨hfront, hrest⟩ := h.of_append hne
      show reply (accept log chunk.bytes) ++ replies (accept log chunk.bytes) _ = _
      rw [ih hrest, reply_of_no_newline hfront, ← accept_append, ← List.append_assoc,
        ← List.flatten_cons, ← List.replicate_succ]
      rfl

end Replies

section Sections

variable {log₀ : Log} {s s₀ : ServerState} {t : Nat}

/-- Complete sections send what a sequence of replies is to be. -/
theorem sent_eq_replies {sections : List Section}
    (h : ∀ pre sec, pre ++ [sec] <+: sections → SectionOk log₀ pre sec) (during : List Section) :
    ∀ before, before ++ during <+: sections →
      during.flatMap Section.sent =
        replies (accept log₀ (before.map Section.chunk).flatten) (during.map Section.chunk) := by
  induction during with
  | nil =>
    intro before _
    rfl
  | cons sec during ih =>
    intro before hpre
    have hstep : before ++ [sec] ++ during <+: sections := by
      rw [List.append_assoc]
      exact hpre
    have hsec := h before sec ((List.prefix_append _ _).trans hstep)
    have hrest := ih (before ++ [sec]) hstep
    have hlog : accept log₀ ((before ++ [sec]).map Section.chunk).flatten =
        accept (accept log₀ (before.map Section.chunk).flatten) sec.chunk := by
      rw [← accept_append, List.map_append, List.flatten_append, List.map_singleton,
        List.flatten_singleton]
    have hsent := hsec.sent
    rw [hlog] at hsent hrest
    rw [List.flatMap_cons, hsent, hrest]
    rfl

/-- With the lock free, a client has got what the sections of its handler sent. -/
theorem delivered_eq (hs : Safe log₀ s) (ha : AllBalance s) (hfree : s.process.fmutex = none)
    (t : Nat) : s.record.delivered t = sentBy s.record t := by
  have hnone : underWay s.threads[t]? = [] := by
    cases hth : s.threads[t]? with
    | none => rfl
    | some th =>
      have hout : ¬holdsLock th.pc = true := by
        rw [(hs.threads t th hth).lock, hfree]
        exact nofun
      exact if_neg hout
  rw [(ha.balances t).delivered, hnone, List.append_nil]

theorem sentBy_append {r r₀ : Record} {during : List Section}
    (h : r.sections = r₀.sections ++ during) (hmine : ∀ x ∈ during, x.thread = t) :
    sentBy r t = sentBy r₀ t ++ during.flatMap Section.sent := by
  have hall : during.filter (fun x => x.thread == t) = during := by
    apply List.filter_eq_self.mpr
    intro x hx
    exact beq_iff_eq.mpr (hmine x hx)
  unfold sentBy
  rw [h, List.filter_append, List.flatMap_append, hall]

end Sections

section Progress

variable {log₀ : Log} {s : ServerState} {t : Nat}

/-- Circumstances in which a step of this thread succeeds in full. -/
def fullChoice (th : Thread) : Choice where
  recv := .again
  opens := true
  write := ⟨fun _ => true, th.recvBuf.length⟩
  read := ⟨true, bufSize⟩
  room := th.sendBuf.length

/-- A step of handler `t` in which nothing fails. -/
theorem full_step (hs : Safe log₀ s) (h : Serialised log₀ s) {th : Thread} {c : Choice}
    {f' : Frame} (hth : s.threads[t]? = some th) (hf : handlerStep t c (s.frame th) = .ok f')
    (hfull : f'.record.inFull = true) :
    ∃ s', serverStep s (.handler t c) = .ok s' ∧ Safe log₀ s' ∧ Serialised log₀ s' ∧
      s'.frame f'.thread = f' ∧ s'.threads[t]? = some f'.thread := by
  have hstep : serverStep s (.handler t c) = .ok (s.update t f') := by
    simp only [serverStep, hth, hf]
  refine ⟨s.update t f', hstep, hs.step hstep, h.step hs hstep hfull, rfl, ?_⟩
  rw [getElem?_update hth, if_pos rfl]

/-- The log that the complete sections have built up. -/
def settledLog (log₀ : Log) (s : ServerState) : Log :=
  accept log₀ (s.record.sections.map Section.chunk).flatten

/-- The holder of the lock can take its next step in full if there is room for its chunk. -/
theorem holder_full (hs : Safe log₀ s) (h : Serialised log₀ s) (hmine : s.process.fmutex = some t)
    {th : Thread} (hth : s.threads[t]? = some th) (hfull : s.record.inFull = true)
    (hroom : (settledLog log₀ s).pending.length + th.recvBuf.length < kmallocLimit) :
    ∃ f', handlerStep t (fullChoice th) (s.frame th) = .ok f' ∧ f'.record.inFull = true := by
  have hok := hs.threads t th hth
  have hh := h.holder t th hmine hth
  have hholds := hok.lock.mpr hmine
  obtain ⟨slots, lost, hrep⟩ := hs.device
  cases hpc : th.pc <;> rw [hpc] at hholds <;>
    simp only [handlerStep, ServerState.frame, hpc]
  case write =>
    obtain ⟨pos, hwrite⟩ := hok.writeFd (by rw [hpc]; rfl)
    have hwritten := hh.written
    rw [show (s.frame th).thread.pc = .write from hpc] at hwritten
    have hstream : accept log₀ (stream s.record) = settledLog log₀ s := by
      rw [stream_eq, show s.record.writes.map Prod.snd = _ from hwritten]
      simp only [hasWritten, Bool.false_eq_true, if_false, List.append_nil]
      rfl
    rw [hstream] at hrep
    obtain ⟨r, device, slots', hrun, -, -, -, hall⟩ :=
      aesdWrite_spec hrep (fullChoice th).write th.recvBuf
    have hr : r = (th.recvBuf.length : Nat) :=
      hall (fun _ => rfl) le_rfl (by rw [hrep.pendingSize]; exact hroom)
    simp only [writeStep, hwrite, hrun]
    refine ⟨_, rfl, ?_⟩
    show (s.record.inFull && decide (r = th.recvBuf.length)) = true
    rw [hfull, hr, decide_eq_true rfl]
    rfl
  case readBack =>
    obtain ⟨pos, hread⟩ := hok.readFd (by rw [hpc]; rfl)
    have hbuffer : allocates (fullChoice th).read bufSize := .inr ⟨rfl, by decide⟩
    obtain ⟨device, hrun, -⟩ := aesdRead_ok hrep hbuffer (p := pos)
      (List.length_take_le _ _)
    simp only [readBackStep, hread, hrun]
    refine ⟨_, rfl, ?_⟩
    show (s.record.inFull && decide (0 ≤ ((_ : Nat) : Int))) = true
    rw [hfull, decide_eq_true (Int.natCast_nonneg _)]
    rfl
  case send =>
    have hconn := hok.conn (by rw [hpc]; decide)
    refine ⟨_, rfl, ?_⟩
    simp only [sendStep, hconn]
    show (s.record.inFull && decide (th.sendBuf.length ≤ th.sendBuf.length)) = true
    rw [hfull, decide_eq_true le_rfl]
    rfl
  all_goals first | exact ⟨_, rfl, hfull⟩ | cases hholds

/-- What a thread keeps while it holds the lock, and where it goes on. -/
theorem holder_keeps {c : Choice} {f f' : Frame} (hholds : holdsLock f.thread.pc = true)
    (h : handlerStep t c f = .ok f') :
    f'.thread.recvBuf = f.thread.recvBuf ∧ f'.thread.connClosed = f.thread.connClosed ∧
      (holdsLock f'.thread.pc = true ∨ f'.thread.pc = .loopTest) := by
  cases handlerStep_inv h with
  | loopTest hpc => rw [hpc] at hholds; cases hholds
  | recv hpc => rw [hpc] at hholds; cases hholds
  | lock hpc _ => rw [hpc] at hholds; cases hholds
  | closeConn hpc => rw [hpc] at hholds; cases hholds
  | openWrite hpc => cases c.opens <;> exact ⟨rfl, rfl, .inl rfl⟩
  | openRead hpc => cases c.opens <;> exact ⟨rfl, rfl, .inl rfl⟩
  | readBack hpc hfd hrun =>
    refine ⟨rfl, rfl, .inl ?_⟩
    dsimp only
    split <;> rfl
  | unlock hpc => exact ⟨rfl, rfl, .inr rfl⟩
  | unlockContinue hpc => exact ⟨rfl, rfl, .inr rfl⟩
  | _ => exact ⟨rfl, rfl, .inl rfl⟩

/-- Nothing has failed, the lock is free, and handler `t` is about to look for data. -/
structure Ready (log₀ : Log) (t : Nat) (s : ServerState) : Prop where
  safe : Safe log₀ s
  serialised : Serialised log₀ s
  inFull : s.record.inFull = true
  free : s.process.fmutex = none
  waiting : ∃ th, s.threads[t]? = some th ∧ th.pc = .loopTest ∧ th.connClosed = false

/-- A section can be completed in full. The induction is on the steps still to be taken. -/
theorem section_completes (n : Nat) :
    ∀ (s : ServerState) (th : Thread), Safe log₀ s → Serialised log₀ s →
      s.record.inFull = true → s.process.fmutex = some t → s.threads[t]? = some th →
      th.connClosed = false →
      (settledLog log₀ s).pending.length + th.recvBuf.length < kmallocLimit →
      work (accept log₀ (stream s.record)) th < n →
      ∃ labels s' sec, run serverStep s labels = .ok s' ∧ Ready log₀ t s' ∧
        s'.record.sections = s.record.sections ++ [sec] ∧ sec.thread = t ∧
        sec.chunk = th.recvBuf := by
  induction n with
  | zero =>
    intro s th _ _ _ _ _ _ _ hwork
    exact absurd hwork (Nat.not_lt_zero _)
  | succ n ih =>
    intro s th hs h hfull hmine hth hopen hroom hwork
    obtain ⟨f', hf, hfull'⟩ := holder_full hs h hmine hth hfull hroom
    obtain ⟨s₁, hstep, hs₁, h₁, hframe, hth₁⟩ := full_step hs h hth hf hfull'
    have hok : ThreadOk (s.frame th).process t (s.frame th).thread := hs.threads t th hth
    obtain ⟨hbuf, hclosed, hpc⟩ := holder_keeps (hok.lock.mpr hmine) hf
    have hopen₁ : f'.thread.connClosed = false := hclosed.trans hopen
    have hnext := holder_step hmine hok hs.device (h.holder t th hmine hth) h.fits hf hfull'
    rw [← hframe] at hnext hfull'
    rcases hnext with hgoes | hends
    · have hroom₁ : (settledLog log₀ s₁).pending.length + f'.thread.recvBuf.length <
          kmallocLimit := by
        rw [hbuf, settledLog, show s₁.record.sections = s.record.sections from hgoes.sections]
        exact hroom
      have hless : work (accept log₀ (stream s₁.record)) f'.thread < n :=
        Nat.lt_of_lt_of_le hgoes.nearer (Nat.le_of_lt_succ hwork)
      obtain ⟨labels, s', sec, hrun, hready, hsec, hthread, hchunk⟩ :=
        ih s₁ f'.thread hs₁ h₁ hfull' hgoes.mutex hth₁ hopen₁ hroom₁ hless
      refine ⟨.handler t (fullChoice th) :: labels, s', sec, ?_, hready, ?_, hthread,
        hchunk.trans hbuf⟩
      · rw [run_cons_ok hstep, hrun]
      · rw [hsec, show s₁.record.sections = s.record.sections from hgoes.sections]
    · obtain ⟨sec, hsec, hthread, hchunk, -⟩ := hends.sections
      have hfree : s₁.process.fmutex = none := hends.mutex
      refine ⟨[.handler t (fullChoice th)], s₁, sec, ?_, ?_, hsec, hthread, hchunk⟩
      · rw [run_cons_ok hstep, run_nil]
      · refine ⟨hs₁, h₁, hfull', hfree, f'.thread, hth₁, ?_, hopen₁⟩
        apply hpc.resolve_left
        rw [(hs₁.threads t _ hth₁).lock, hfree]
        exact nofun

/-- A thread about to look for data can receive a chunk and take the lock. -/
theorem chunk_arrives (h : Ready log₀ t s) (chunk : Chunk) :
    ∃ labels s' th, run serverStep s labels = .ok s' ∧ Safe log₀ s' ∧ Serialised log₀ s' ∧
      s'.record.inFull = true ∧ s'.process.fmutex = some t ∧ s'.threads[t]? = some th ∧
      th.connClosed = false ∧ th.recvBuf = chunk.bytes ∧
      s'.record.sections = s.record.sections := by
  obtain ⟨hs, hserial, hfull, hfree, th, hth, hpc, hopen⟩ := h
  have htest : handlerStep t (fullChoice th) (s.frame th) =
      .ok ⟨s.process, { th with pc := .recv }, s.record⟩ := by
    simp only [handlerStep, loopTest, ServerState.frame, hpc, hopen, Bool.not_false,
      Bool.or_true, if_true]
  obtain ⟨s₁, hrun₁, hs₁, h₁, hframe₁, hth₁⟩ := full_step hs hserial hth htest hfull
  obtain ⟨c, hc⟩ : ∃ c : Choice, c.recv = .data chunk :=
    ⟨{ fullChoice th with recv := .data chunk }, rfl⟩
  have hrecv : handlerStep t c (s₁.frame { th with pc := .recv }) =
      .ok ⟨s.process, { th with recvBuf := chunk.bytes, pc := .lock }, { s.record with
        received := Function.update s.record.received t
          (s.record.received t ++ chunk.bytes) }⟩ := by
    rw [hframe₁]
    simp only [handlerStep, hc, recvStep]
  obtain ⟨s₂, hrun₂, hs₂, h₂, hframe₂, hth₂⟩ := full_step hs₁ h₁ hth₁ hrecv hfull
  have hlock : ∃ f', handlerStep t c
      (s₂.frame { th with recvBuf := chunk.bytes, pc := .lock }) = .ok f' ∧
        f'.process.fmutex = some t ∧ f'.thread.connClosed = th.connClosed ∧
        f'.thread.recvBuf = chunk.bytes ∧ f'.record.sections = s.record.sections ∧
        f'.record.inFull = s.record.inFull := by
    rw [hframe₂]
    simp only [handlerStep, lockStep, hfree, if_true]
    exact ⟨_, rfl, rfl, rfl, rfl, rfl, rfl⟩
  obtain ⟨f', hstep, hmine, hclosed, hbuf, hsections, hfull'⟩ := hlock
  rw [hfull] at hfull'
  obtain ⟨s₃, hrun₃, hs₃, h₃, hframe₃, hth₃⟩ := full_step hs₂ h₂ hth₂ hstep hfull'
  rw [← hframe₃] at hmine hsections hfull'
  refine ⟨[.handler t (fullChoice th), .handler t c, .handler t c], s₃, f'.thread, ?_, hs₃, h₃,
    hfull', hmine, hth₃, hclosed.trans hopen, hbuf, hsections⟩
  rw [run_cons_ok hrun₁, run_cons_ok hrun₂, run_cons_ok hrun₃, run_nil]

/-- A chunk for which there is room can be taken in and answered in full. -/
theorem chunk_run (h : Ready log₀ t s) (chunk : Chunk)
    (hroom : (settledLog log₀ s).pending.length + chunk.bytes.length < kmallocLimit) :
    ∃ labels s' sec, run serverStep s labels = .ok s' ∧ Ready log₀ t s' ∧
      s'.record.sections = s.record.sections ++ [sec] ∧ sec.thread = t ∧
      sec.chunk = chunk.bytes := by
  obtain ⟨labels₁, s₁, th, hrun₁, hs₁, h₁, hfull₁, hmine, hth, hopen, hbuf, hsections⟩ :=
    chunk_arrives h chunk
  have hroom₁ : (settledLog log₀ s₁).pending.length + th.recvBuf.length < kmallocLimit := by
    rw [hbuf, settledLog, hsections]
    exact hroom
  obtain ⟨labels₂, s₂, sec, hrun₂, hready, hsec, hthread, hchunk⟩ :=
    section_completes _ s₁ th hs₁ h₁ hfull₁ hmine hth hopen hroom₁ (Nat.lt_succ_self _)
  refine ⟨labels₁ ++ labels₂, s₂, sec, ?_, hready, ?_, hthread, hchunk.trans hbuf⟩
  · rw [run_append hrun₁, hrun₂]
  · rw [hsec, hsections]

/-- A stream makes the unfinished record longer by its own length at most. -/
theorem accept_pending_length_le (log : Log) (xs : List UInt8) :
    (accept log xs).pending.length ≤ log.pending.length + xs.length := by
  have hflat := congrArg List.length (@Cut.feed_flatten_append _ isNewline log xs)
  have hgrow := (Cut.committed_prefix_feed isNewline log xs).length_le
  simp only [List.length_append, Cut.committed] at hflat hgrow
  unfold accept
  omega

/-- Chunks for which there is room can be taken in one after the other. -/
theorem chunks_run (chunks : List Chunk) :
    ∀ s : ServerState, Ready log₀ t s →
      (settledLog log₀ s).pending.length + (chunks.map Chunk.bytes).flatten.length <
        kmallocLimit →
      ∃ labels s' during, run serverStep s labels = .ok s' ∧ Ready log₀ t s' ∧
        s'.record.sections = s.record.sections ++ during ∧
        during.map Section.chunk = chunks.map Chunk.bytes ∧ ∀ x ∈ during, x.thread = t := by
  induction chunks with
  | nil =>
    intro s h _
    exact ⟨[], s, [], rfl, h, (List.append_nil _).symm, rfl, nofun⟩
  | cons chunk chunks ih =>
    intro s h hroom
    rw [List.map_cons, List.flatten_cons, List.length_append] at hroom
    obtain ⟨labels₁, s₁, sec, hrun₁, h₁, hsec, hthread, hchunk⟩ := chunk_run h chunk (by omega)
    have hlog : settledLog log₀ s₁ = accept (settledLog log₀ s) chunk.bytes := by
      unfold settledLog
      rw [hsec, ← accept_append, List.map_append, List.flatten_append, List.map_singleton,
        List.flatten_singleton, hchunk]
    have hle := accept_pending_length_le (settledLog log₀ s) chunk.bytes
    rw [← hlog] at hle
    obtain ⟨labels₂, s₂, during, hrun₂, h₂, hduring, hchunks, hthreads⟩ :=
      ih s₁ h₁ (by omega)
    refine ⟨labels₁ ++ labels₂, s₂, sec :: during, ?_, h₂, ?_, ?_, ?_⟩
    · rw [run_append hrun₁, hrun₂]
    · rw [hduring, hsec, List.append_assoc]
      rfl
    · rw [List.map_cons, List.map_cons, hchunk, hchunks]
    · intro x hx
      rcases List.mem_cons.mp hx with rfl | hx
      · exact hthread
      · exact hthreads x hx

end Progress

section Results

variable {log₀ : Log} {s s₀ : ServerState} {t : Nat}

/-- From `s₀`, where no handler is in its critical section, handler `t` takes in the chunks and no
call fails or falls short. -/
structure PacketRun (t : Nat) (chunks : List Chunk) (labels : List Label) (s₀ s : ServerState) :
    Prop where
  run : run serverStep s₀ labels = .ok s
  inFull : s.record.inFull = true
  started : s₀.process.fmutex = none
  finished : s.process.fmutex = none
  sections : ∃ during, s.record.sections = s₀.record.sections ++ during ∧
    during.map Section.chunk = chunks.map Chunk.bytes ∧ ∀ x ∈ during, x.thread = t

/-- With the lock free, the device stands for the log of the complete sections. -/
theorem represents_settled (hs : Safe log₀ s) (h : Serialised log₀ s)
    (hfree : s.process.fmutex = none) :
    ∃ slots lost, Represents s.process.device (settledLog log₀ s) slots lost := by
  obtain ⟨slots, lost, hrep⟩ := hs.device
  rw [stream_eq, (h.idle hfree).2] at hrep
  exact ⟨slots, lost, hrep⟩

/-- What the client gets in a packet run. -/
theorem PacketRun.delivered {chunks : List Chunk} {labels : List Label} (hs₀ : Safe log₀ s₀)
    (ha₀ : AllBalance s₀) (hs : Safe log₀ s) (h : Serialised log₀ s)
    (ha : AllBalance s) (hp : PacketRun t chunks labels s₀ s)
    (hpacket : Cut.IsRecord isNewline (chunks.map Chunk.bytes).flatten) :
    settledLog log₀ s =
        accept (settledLog log₀ s₀) (chunks.map Chunk.bytes).flatten ∧
      s.record.delivered t = s₀.record.delivered t ++
        ((List.replicate (chunks.length - 1) (reply (settledLog log₀ s₀))).flatten ++
          reply (settledLog log₀ s)) := by
  obtain ⟨during, hsections, hchunks, hmine⟩ := hp.sections
  have hlog : settledLog log₀ s =
      accept (settledLog log₀ s₀) (chunks.map Chunk.bytes).flatten := by
    unfold settledLog
    rw [hsections, ← accept_append, List.map_append, List.flatten_append, hchunks]
  have hsent := sent_eq_replies h.sections during s₀.record.sections
    (hsections ▸ List.prefix_refl _)
  rw [hchunks] at hsent
  refine ⟨hlog, ?_⟩
  rw [delivered_eq hs ha hp.finished, delivered_eq hs₀ ha₀ hp.started,
    sentBy_append hsections hmine, hsent, hlog]
  exact congrArg _ (replies_packet chunks hpacket)

theorem reply_eq_nil_iff {slots : List Slot} {lost : Set Nat} {device : DriverState}
    {log : Log} (h : Represents device log slots lost) :
    reply log = [] ↔ log.retained maxWriteOperationsSupported = [] := by
  constructor
  · intro hnil
    apply List.eq_nil_iff_forall_not_mem.mpr
    intro r hr
    have hrecord := h.owns.wellCut.records r (List.mem_of_mem_drop hr)
    exact hrecord.ne_nil (List.flatten_eq_nil_iff.mp hnil r hr)
  · intro hnil
    exact congrArg List.flatten hnil

/-- Copies in front of a text leave it as it is only if there are none of them or they are
empty. -/
theorem replicate_flatten_append_eq {n : Nat} {xs ys zs : List UInt8} :
    ys.length ≤ zs.length → ((List.replicate n xs).flatten ++ zs = ys ↔
      (n = 0 ∨ xs = []) ∧ zs = ys) := by
  intro hle
  constructor
  · intro heq
    have hlen := congrArg List.length heq
    rw [List.length_append] at hlen
    have hnil : (List.replicate n xs).flatten = [] := List.length_eq_zero_iff.mp (by omega)
    refine ⟨?_, by rw [← heq, hnil, List.nil_append]⟩
    rw [List.flatten_eq_nil_iff] at hnil
    by_cases hn : n = 0
    · exact .inl hn
    · exact .inr (hnil xs (List.mem_replicate.mpr ⟨hn, rfl⟩))
  · rintro ⟨rfl | rfl, rfl⟩
    · rw [List.replicate_zero, List.flatten_nil, List.nil_append]
    · have hnil : (List.replicate n ([] : List UInt8)).flatten = [] := by
        apply List.flatten_eq_nil_iff.mpr
        intro xs hxs
        exact (List.mem_replicate.mp hxs).2
      rw [hnil, List.nil_append]

/-- The last records with one more behind them. -/
theorem flatten_rtake_concat (xs : List (List UInt8)) (x : List UInt8) :
    ((xs ++ [x]).rtake maxWriteOperationsSupported).flatten =
      ((xs ++ [[]]).rtake maxWriteOperationsSupported).flatten ++ x := by
  have hpos : 0 < maxWriteOperationsSupported := by decide
  rw [rtake_concat hpos, rtake_concat hpos, List.flatten_append, List.flatten_append,
    List.flatten_singleton, List.flatten_singleton, List.append_nil]

/-- A client that sends one packet to a device on which other packets may lie, in any run in which
no call fails or falls short. The packet completes the unfinished record, however it is cut into
chunks. The bytes that come back are the retained records at the end if and only if it came in one
chunk or there was nothing to send before; they are the earlier records and the packet if and only
if, besides, no record was unfinished. Where the unfinished record and the packet fit into one
allocation, such a run exists. -/
theorem packet_reply (calls : List Call) :
    ∃ device, run callStep aesdInitModule calls = .ok device ∧
      ∀ labels₀ s₀, run serverStep (startServer device) labels₀ = .ok s₀ →
      ∀ (t : Nat) (chunks : List Chunk) (packet : List UInt8),
        packet = (chunks.map Chunk.bytes).flatten → Cut.IsRecord isNewline packet →
        ∃ v₀, view s₀.process.device = .ok v₀ ∧
          (∀ th, s₀.record.inFull = true → s₀.process.fmutex = none →
            s₀.threads[t]? = some th → th.pc = .loopTest → th.connClosed = false →
            v₀.pending.length + packet.length < kmallocLimit →
            ∃ labels s, PacketRun t chunks labels s₀ s) ∧
          ∀ labels s, PacketRun t chunks labels s₀ s →
            ∃ v bytes, view s.process.device = .ok v ∧
              s.record.delivered t = s₀.record.delivered t ++ bytes ∧
              v.records = (v₀.records ++ [v₀.pending ++ packet]).rtake
                maxWriteOperationsSupported ∧
              v.pending = [] ∧
              (bytes = v.records.flatten ↔ chunks.length = 1 ∨ v₀.records = []) ∧
              (bytes = ((v₀.records ++ [packet]).rtake maxWriteOperationsSupported).flatten ↔
                (chunks.length = 1 ∨ v₀.records = []) ∧ v₀.pending = []) := by
  obtain ⟨device, hcalls, log₀, slots, lost, hrep⟩ := runCalls calls
  refine ⟨device, hcalls, ?_⟩
  rintro labels₀ s₀ hrun₀ t chunks packet rfl hpacket
  have hs₀ := safe_run hrep hrun₀
  obtain ⟨slots₀, lost₀, hrep₀⟩ := hs₀.device
  refine ⟨_, view_eq hrep₀, ?_, ?_⟩
  · intro th hfull hfree hth hpc hopen hroom
    have h₀ := serialised_run hrep hrun₀ hfull
    have hready : Ready log₀ t s₀ := ⟨hs₀, h₀, hfull, hfree, th, hth, hpc, hopen⟩
    have hlog : accept log₀ (stream s₀.record) = settledLog log₀ s₀ := by
      rw [stream_eq, (h₀.idle hfree).2]
      rfl
    rw [hlog] at hroom
    obtain ⟨labels, s, during, hrun, hend, hduring⟩ := chunks_run chunks s₀ hready hroom
    exact ⟨labels, s, hrun, hend.inFull, hfree, hend.free, during, hduring⟩
  · intro labels s hp
    have hfull₀ := inFull_of_run hp.run hp.inFull
    have hrun : run serverStep (startServer device) (labels₀ ++ labels) = .ok s :=
      (run_append hrun₀).trans hp.run
    have h₀ := serialised_run hrep hrun₀ hfull₀
    have hs := safe_run hrep hrun
    have h := serialised_run hrep hrun hp.inFull
    have hlog : accept log₀ (stream s₀.record) = settledLog log₀ s₀ := by
      rw [stream_eq, (h₀.idle hp.started).2]
      rfl
    rw [hlog] at hrep₀ ⊢
    obtain ⟨slots', lost', hrep'⟩ := represents_settled hs h hp.finished
    obtain ⟨hgrown, hdelivered⟩ := hp.delivered hs₀ (allBalance_run hrep hrun₀ hfull₀) hs h
      (allBalance_run hrep hrun hp.inFull) hpacket
    have hrecords : (settledLog log₀ s).retained maxWriteOperationsSupported =
        ((settledLog log₀ s₀).retained maxWriteOperationsSupported ++
          [(settledLog log₀ s₀).pending ++ (chunks.map Chunk.bytes).flatten]).rtake
            maxWriteOperationsSupported := by
      rw [hgrown, accept_packet hpacket, Cut.retained, Cut.retained,
        rtake_rtake_append]
    have hne : chunks.length ≠ 0 := by
      intro hzero
      obtain rfl := List.length_eq_zero_iff.mp hzero
      exact hpacket.ne_nil rfl
    have hone : chunks.length - 1 = 0 ↔ chunks.length = 1 := by omega
    have hempty := reply_eq_nil_iff hrep₀
    refine ⟨_, _, view_eq hrep', hdelivered, hrecords, ?_, ?_, ?_⟩
    · show (settledLog log₀ s).pending = []
      rw [hgrown, accept_packet hpacket]
    · show (_ ++ reply (settledLog log₀ s) = reply (settledLog log₀ s) ↔ _)
      rw [replicate_flatten_append_eq le_rfl, hone, hempty]
      exact and_iff_left rfl
    · have hreply : reply (settledLog log₀ s) =
          (((settledLog log₀ s₀).retained maxWriteOperationsSupported ++ [[]]).rtake
            maxWriteOperationsSupported).flatten ++
          ((settledLog log₀ s₀).pending ++ (chunks.map Chunk.bytes).flatten) := by
        rw [reply, hrecords, flatten_rtake_concat]
      have hle : ∀ xs ys zs : List UInt8, (xs ++ zs).length ≤ (xs ++ (ys ++ zs)).length := by
        intro xs ys zs
        simp only [List.length_append]
        omega
      simp only [logView]
      rw [flatten_rtake_concat, hreply, replicate_flatten_append_eq (hle _ _ _), hone, hempty,
        List.append_cancel_left_eq, List.append_left_eq_self]

set_option maxRecDepth 20000 in
/-- A line on the device, and a packet of three bytes that arrives as one byte and then two: the
client gets the line twice. -/
theorem split_packet_repeats_line :
    ∃ device s₀ labels s v, run callStep aesdInitModule
        [.write ⟨fun _ => true, 2⟩ [120, 10]] = .ok device ∧
      run serverStep (startServer device) [.connect] = .ok s₀ ∧
      PacketRun 0 [⟨[97], by decide, by decide⟩, ⟨[98, 10], by decide, by decide⟩] labels s₀ s ∧
      s.threads.length = 1 ∧ s₀.record.delivered 0 = [] ∧
      view s.process.device = .ok v ∧
      s.record.delivered 0 = [120, 10, 120, 10, 97, 98, 10] ∧
      v.records = [[120, 10], [97, 98, 10]] ∧ s.record.delivered 0 ≠ v.records.flatten := by
  refine ⟨_, _,
    List.replicate 12 (.handler 0
      ⟨.data ⟨[97], by decide, by decide⟩, true, ⟨fun _ => true, 1⟩, ⟨true, 2048⟩, 2048⟩) ++
    List.replicate 12 (.handler 0
      ⟨.data ⟨[98, 10], by decide, by decide⟩, true, ⟨fun _ => true, 2⟩, ⟨true, 2048⟩, 2048⟩),
    _, _, rfl, rfl, ⟨rfl, rfl, rfl, rfl, _, rfl, rfl, ?_⟩, rfl, rfl, rfl, rfl, rfl, ?_⟩
  · exact List.forall_mem_cons.mpr ⟨rfl, List.forall_mem_cons.mpr ⟨rfl, nofun⟩⟩
  · show ([120, 10, 120, 10, 97, 98, 10] : List UInt8) ≠ [120, 10, 97, 98, 10]
    decide

end Results

end Aesd.Server.Reply
