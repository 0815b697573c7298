/- Aesd/Server/ReplyGaps
   layer: system
   digest: Which sends and reads leave a gap in a reply. -/

import Aesd.Server.LockBalance

set_option autoImplicit false
set_option relaxedAutoImplicit false

namespace Aesd.Server.ReplyGaps

open Aesd.Foundation.DescriptorTable
open Aesd.Foundation.RecordLog
open Aesd.Foundation.Run
open Aesd.Driver.CircularBuffer
open Aesd.Driver.Device
open Aesd.Driver.LogRelation
open Aesd.Driver.ReadCorrect
open Aesd.Driver.Session
open Aesd.Driver.Ownership
open Aesd.Driver.Readers
open Aesd.Server.Handler
open Aesd.Server.Safety
open Aesd.Server.Moves
open Aesd.Server.Serial
open Aesd.Server.LockBalance

section Sent

variable {before taken goal got block : List UInt8} {clean whole : Prop}

/-- What the socket has taken since it had taken `before`: all of `goal` if the reply has been
clean so far, and fewer bytes otherwise. -/
def Sent (before taken goal : List UInt8) (clean : Prop) : Prop :=
  ∃ sent, taken = before ++ sent ∧ (clean → sent = goal) ∧ (¬clean → sent.length < goal.length)

theorem Sent.kept (h : Sent before taken goal clean) (hwhole : whole) :
    Sent before taken goal (clean ∧ whole) := by
  rwa [and_iff_left hwhole]

/-- One `sendto`. -/
theorem Sent.send (h : Sent before taken got clean) (room : Nat) :
    Sent before (taken ++ block.take room) (got ++ block) (clean ∧ block.length ≤ room) := by
  obtain ⟨sent, rfl, hexact, hshort⟩ := h
  refine ⟨sent ++ block.take room, List.append_assoc _ _ _, ?_, ?_⟩
  · rintro ⟨hclean, hroom⟩
    rw [hexact hclean, List.take_of_length_le hroom]
  · intro hnot
    rw [List.length_append, List.length_append, List.length_take]
    by_cases hclean : clean
    · have hroom : ¬block.length ≤ room := fun hle => hnot ⟨hclean, hle⟩
      rw [hexact hclean]
      omega
    · have hless := hshort hclean
      omega

/-- The reply loop ends. -/
theorem Sent.stop (h : Sent before taken got clean) (hle : got <+: goal)
    (hwhole : whole ↔ got = goal) : Sent before taken goal (clean ∧ whole) := by
  obtain ⟨sent, rfl, hexact, hshort⟩ := h
  refine ⟨sent, rfl, ?_, ?_⟩
  · rintro ⟨hclean, hall⟩
    rw [hexact hclean, hwhole.mp hall]
  · intro hnot
    by_cases hclean : clean
    · rw [hexact hclean]
      apply Nat.lt_of_le_of_ne hle.length_le
      intro hlength
      exact hnot ⟨hclean, hwhole.mpr (hle.eq_of_length hlength)⟩
    · exact (hshort hclean).trans_le hle.length_le

end Sent

section Reply

variable {log : Log} {t : Nat} {before taken : List UInt8} {clean whole : Prop}

/-- The step leaves bytes out of the reply: the socket has no room for the whole block, or a read
fails while there is something left to read. -/
def Skips (c : Choice) (p : Process) (th : Thread) : Prop :=
  (th.pc = .send ∧ c.room < th.sendBuf.length) ∨
    (th.pc = .readBack ∧ 0 < leftToRead p th ∧
      ¬(allocates c.read bufSize ∧ min bufSize (leftToRead p th) ≤ c.read.writable))

/-- Where a reply stands. -/
inductive Stage (log : Log) (before taken : List UInt8) (clean : Prop) (p : Process) (th : Thread) :
    Prop
  | reading {pos : Nat} {got : List UInt8} : th.pc = .readBack →
      p.table.lookup th.localReadFd = some (.device pos) → Gathered log p.device pos got →
      Sent before taken got clean → Stage log before taken clean p th
  | sending {pos : Nat} {got : List UInt8} : th.pc = .send →
      p.table.lookup th.localReadFd = some (.device pos) →
      Gathered log p.device pos (got ++ th.sendBuf) →
      Sent before taken got clean → Stage log before taken clean p th
  | ended : th.pc = .closeWrite → Sent before taken (reply log) clean →
      Stage log before taken clean p th

theorem Stage.holds {p : Process} {th : Thread} (h : Stage log before taken clean p th) :
    holdsLock th.pc = true := by
  cases h with
  | reading hpc => rw [hpc]; rfl
  | sending hpc => rw [hpc]; rfl
  | ended hpc => rw [hpc]; rfl

theorem gathered_left {device : DriverState} {slots : List Slot} {lost : Set Nat}
    (hrep : Represents device log slots lost) {pos : Nat} {got : List UInt8}
    (hg : Gathered log device pos got) : unread device pos = (reply log).length - got.length := by
  have hlength := congrArg List.length (drop_evicted log)
  rw [List.length_drop] at hlength
  rw [unread_eq hrep, hg.pos]
  omega

/-- One read of the reply loop. -/
theorem reading_step {f f' : Frame} {slots : List Slot} {lost : Set Nat}
    (hrep : Represents f.process.device log slots lost) {pos : Nat} {got : List UInt8} {c : Choice}
    (hpc : f.thread.pc = .readBack)
    (hread : f.process.table.lookup f.thread.localReadFd = some (.device pos))
    (hg : Gathered log f.process.device pos got) (hsent : Sent before taken got clean)
    (h : readBackStep c.read f = .ok f') :
    f'.record.writes = f.record.writes ∧ f'.record.delivered = f.record.delivered ∧
      Stage log before taken (clean ∧ ¬Skips c f.process f.thread) f'.process f'.thread := by
  obtain ⟨result, hrun, hu⟩ := aesdRead_total hrep c.read bufSize pos
  have hleft := leftToRead_eq hread
  have hskips : Skips c f.process f.thread ↔
      0 < unread f.process.device pos ∧ result.ret < 0 := by
    rw [aesdRead_fails_iff hrep hrun, Skips, hpc, hleft]
    simp
  simp only [readBackStep, hread, hrun] at h
  obtain rfl := Except.ok.inj h
  refine ⟨rfl, rfl, ?_⟩
  by_cases hneg : result.ret < 0
  · have hwhole : ¬Skips c f.process f.thread ↔ got = reply log := by
      rw [hskips, and_iff_left hneg, gathered_left hrep hg]
      constructor
      · intro hnone
        exact hg.bytes.eq_of_length_le (by omega)
      · rintro rfl
        omega
    simp only [if_neg (Int.not_lt.mpr (Int.le_of_lt hneg))]
    exact .ended rfl (hsent.stop hg.bytes hwhole)
  · have hret : 0 ≤ result.ret := Int.not_lt.mp hneg
    have hclean : ¬Skips c f.process f.thread := by
      rw [hskips]
      exact fun hboth => hneg hboth.2
    rcases gathered_read hrep hg hrun hret with ⟨hpos, -, -, hg'⟩ | ⟨hzero, hall⟩
    · simp only [if_pos hpos, if_pos hret]
      exact .sending rfl (Table.lookup_replace_self _ hread) hg' (hsent.kept hclean)
    · have hnot : ¬0 < result.ret := by omega
      simp only [if_neg hnot]
      exact .ended rfl (hsent.stop hg.bytes (iff_of_true hclean hall))

/-- One step of the reply loop. -/
theorem Stage.step {f f' : Frame} (h : Stage log before (f.record.delivered t) clean f.process
    f.thread) {slots : List Slot} {lost : Set Nat}
    (hrep : Represents f.process.device log slots lost)
    (hconn : f.process.table.lookup f.thread.connFd = some (.socket t)) {c : Choice}
    (hpc : f.thread.pc = .readBack ∨ f.thread.pc = .send) (hf : handlerStep t c f = .ok f') :
    f'.record.writes = f.record.writes ∧
      Stage log before (f'.record.delivered t) (clean ∧ ¬Skips c f.process f.thread) f'.process
        f'.thread := by
  cases h with
  | reading hstands hread hg hsent =>
    simp only [handlerStep, hstands] at hf
    obtain ⟨hwrites, htaken, hstage⟩ := reading_step hrep hstands hread hg hsent hf
    rw [htaken]
    exact ⟨hwrites, hstage⟩
  | sending hstands hread hg hsent =>
    simp only [handlerStep, hstands, sendStep, hconn] at hf
    obtain rfl := Except.ok.inj hf
    have hskips : ¬Skips c f.process f.thread ↔ f.thread.sendBuf.length ≤ c.room := by
      rw [Skips, hstands]
      simp
    refine ⟨rfl, ?_⟩
    rw [hskips]
    refine .reading rfl hread hg ?_
    show Sent before (Function.update f.record.delivered t _ t) _ _
    rw [Function.update_self]
    exact hsent.send c.room
  | ended hstands =>
    rw [hstands] at hpc
    rcases hpc with hpc | hpc
    · cases hpc
    · cases hpc

/-- A step of another handler. -/
theorem Stage.others {p p' : Process} {th : Thread} (h : Stage log before taken clean p th)
    (hdevice : p'.device = p.device)
    (hlookup : ∀ pos, p.table.lookup th.localReadFd = some (.device pos) →
      p'.table.lookup th.localReadFd = some (.device pos)) (hwhole : whole) :
    Stage log before taken (clean ∧ whole) p' th := by
  cases h with
  | reading hpc hread hg hsent =>
    exact .reading hpc (hlookup _ hread) (hdevice ▸ hg) (hsent.kept hwhole)
  | sending hpc hread hg hsent =>
    exact .sending hpc (hlookup _ hread) (hdevice ▸ hg) (hsent.kept hwhole)
  | ended hpc hsent => exact .ended hpc (hsent.kept hwhole)

theorem delivered_of_outside {u : Nat} {c : Choice} {f f' : Frame}
    (hout : holdsLock f.thread.pc = false) (h : handlerStep u c f = .ok f') :
    f'.record.delivered = f.record.delivered := by
  cases hpc : f.thread.pc <;> rw [hpc] at hout <;>
    simp only [handlerStep, hpc, Except.ok.injEq, reduceCtorEq] at h
  case loopTest => exact h ▸ rfl
  case recv =>
    subst h
    cases c.recv <;> rfl
  case lock =>
    rw [lockStep] at h
    split_ifs at h
    obtain rfl := Except.ok.inj h
    rfl
  case closeConn => exact h ▸ rfl
  all_goals cases hout

end Reply

section Runs

variable {log₀ log : Log} {t : Nat} {before : List UInt8} {s s' : ServerState} {clean : Prop}

/-- A step of handler `t` is one of its reply loop. -/
def InReply (t : Nat) (s : ServerState) (l : Label) : Prop :=
  ∀ c th, l = .handler t c → s.threads[t]? = some th → th.pc = .readBack ∨ th.pc = .send

/-- A step of handler `t` leaves nothing out of its reply. -/
def Delivers (t : Nat) (s : ServerState) (l : Label) : Prop :=
  ∀ c th, l = .handler t c → s.threads[t]? = some th → ¬Skips c s.process th

/-- Handler `t` replies with the retained records of `log`. -/
structure Replying (log₀ log : Log) (t : Nat) (before : List UInt8) (s : ServerState)
    (clean : Prop) : Prop where
  safe : Safe log₀ s
  content : accept log₀ (stream s.record) = log
  stage : ∃ th, s.threads[t]? = some th ∧
    Stage log before (s.record.delivered t) clean s.process th

theorem Replying.handler (h : Replying log₀ log t before s clean) {u : Nat} {c : Choice}
    (hin : InReply t s (.handler u c)) (hstep : serverStep s (.handler u c) = .ok s') :
    Replying log₀ log t before s' (clean ∧ Delivers t s (.handler u c)) := by
  obtain ⟨hs, hlog, th, hth, hstage⟩ := h
  have hok : ThreadOk s.process t th := hs.threads t th hth
  have hmine := hok.lock.mp hstage.holds
  obtain ⟨thu, f', hu, hf, rfl⟩ := handler_inv hstep
  by_cases hut : u = t
  · subst hut
    obtain rfl := Option.some.inj (hth.symm.trans hu)
    obtain ⟨slots, lost, hrep⟩ := hs.device
    rw [hlog] at hrep
    have hpc := hin c th rfl hth
    have hconn := hok.conn (by rcases hpc with hpc | hpc <;> rw [hpc] <;> decide)
    have hdelivers : Delivers u s (.handler u c) ↔ ¬Skips c s.process th := by
      constructor
      · exact fun hall => hall c th rfl hth
      · intro hnot c' th' hl hth'
        obtain ⟨-, rfl⟩ := Label.handler.inj hl
        obtain rfl := Option.some.inj (hth.symm.trans hth')
        exact hnot
    obtain ⟨hwrites, hstage'⟩ := Stage.step (f := s.frame th) hstage hrep hconn hpc hf
    refine ⟨hs.step hstep, ?_, f'.thread, ?_, ?_⟩
    · rw [← hlog, stream, stream]
      exact congrArg (fun w => accept log₀ (w.flatMap Prod.snd)) hwrites
    · rw [getElem?_update hth, if_pos rfl]
    · rw [hdelivers]
      exact hstage'
  · obtain ⟨hout, hq⟩ := quiet_of_locked hs hmine hu hut hf
    have he := handlerStep_effect (hs.threads u thu hu) hs.device hf
    have hdelivers : Delivers t s (.handler u c) := by
      intro c' th' hl
      exact absurd (Label.handler.inj hl).1 hut
    refine ⟨hs.step hstep, ?_, th, ?_, ?_⟩
    · rw [← hlog, stream, stream]
      exact congrArg (fun w => accept log₀ (w.flatMap Prod.snd)) hq.writes
    · rw [getElem?_update hu, if_neg fun he => hut he.symm, hth]
    · show Stage log before (f'.record.delivered t) _ f'.process th
      rw [delivered_of_outside hout hf]
      apply hstage.others hq.device _ hdelivers
      intro pos hpos
      exact he.devices hout _ _ hpos

theorem Replying.step (h : Replying log₀ log t before s clean) {l : Label} (hin : InReply t s l)
    (hstep : serverStep s l = .ok s') :
    Replying log₀ log t before s' (clean ∧ Delivers t s l) := by
  cases l with
  | connect =>
    have hs' := h.safe.step hstep
    obtain ⟨hs, hlog, th, hth, hstage⟩ := h
    obtain rfl := connect_inv hstep
    have hlt : t < s.threads.length := (List.getElem?_eq_some_iff.mp hth).1
    refine ⟨hs', hlog, th, ?_, ?_⟩
    · exact (List.getElem?_append_left hlt).trans hth
    · apply hstage.others (by rfl) _ nofun
      exact fun pos hpos => Table.lookup_install _ hpos
  | signal =>
    have hs' := h.safe.step hstep
    obtain ⟨hs, hlog, th, hth, hstage⟩ := h
    obtain rfl := (Except.ok.inj hstep).symm
    exact ⟨hs', hlog, th, hth, hstage.others (by rfl) (fun pos hpos => hpos) nofun⟩
  | handler u c => exact h.handler hin hstep

/-- While nothing has been left out, the socket has taken a part of the reply from its start. -/
theorem Replying.taken (h : Replying log₀ log t before s clean) (hclean : clean) :
    ∃ sent, s.record.delivered t = before ++ sent ∧ sent <+: reply log := by
  obtain ⟨-, -, th, -, hstage⟩ := h
  cases hstage with
  | reading _ _ hg hsent =>
    obtain ⟨sent, htaken, hexact, -⟩ := hsent
    exact ⟨sent, htaken, hexact hclean ▸ hg.bytes⟩
  | sending _ _ hg hsent =>
    obtain ⟨sent, htaken, hexact, -⟩ := hsent
    exact ⟨sent, htaken, hexact hclean ▸ (List.prefix_append _ _).trans hg.bytes⟩
  | ended _ hsent =>
    obtain ⟨sent, htaken, hexact, -⟩ := hsent
    exact ⟨sent, htaken, hexact hclean ▸ List.prefix_refl _⟩

end Runs

section Results

variable {log₀ : Log} {t : Nat} {s₀ s₁ s : ServerState}

/-- What the socket of connection `t` has taken between two states. -/
def takenSince (t : Nat) (s₁ s : ServerState) : List UInt8 :=
  (s.record.delivered t).drop (s₁.record.delivered t).length

/-- At every moment of a reply the bytes that the socket has taken are a part of the content from
its start, and in the end they are all of it. -/
def NoGap (t : Nat) (s₁ : ServerState) (labels : List Label) (content : List UInt8) : Prop :=
  (∀ pre m, pre <+: labels → run serverStep s₁ pre = .ok m → takenSince t s₁ m <+: content) ∧
    ∀ s, run serverStep s₁ labels = .ok s → takenSince t s₁ s = content

theorem takenSince_eq {sent : List UInt8}
    (h : s.record.delivered t = s₁.record.delivered t ++ sent) : takenSince t s₁ s = sent := by
  rw [takenSince, h, List.drop_left]

/-- A reply starts when the device is open for reading. -/
theorem replying_start (hs : Safe log₀ s₀) {th : Thread} {c : Choice}
    (hth : s₀.threads[t]? = some th) (hpc : th.pc = .openRead) (hopens : c.opens = true)
    (hstep : serverStep s₀ (.handler t c) = .ok s₁) :
    Replying log₀ (accept log₀ (stream s₁.record)) t (s₁.record.delivered t) s₁ True := by
  have hs₁ := hs.step hstep
  obtain ⟨slots, lost, hrep⟩ := hs₁.device
  obtain ⟨th', f', hth', hf, rfl⟩ := handler_inv hstep
  obtain rfl := Option.some.inj (hth.symm.trans hth')
  have hself : (s₀.update t f').threads[t]? = some f'.thread := by
    rw [getElem?_update hth, if_pos rfl]
  simp only [handlerStep, ServerState.frame, hpc, hopens, openReadStep, if_true] at hf
  obtain rfl := Except.ok.inj hf
  refine ⟨hs₁, rfl, _, hself, ?_⟩
  apply Stage.reading rfl (Table.lookup_install_self _ _) (gathered_start hrep)
  exact ⟨[], (List.append_nil _).symm, fun _ => rfl, fun h => absurd trivial h⟩

theorem replying_run {log : Log} (h : Replying log₀ log t (s₁.record.delivered t) s₁ True)
    {labels : List Label} (hrun : run serverStep s₁ labels = .ok s)
    (hin : Along serverStep (InReply t) s₁ labels) :
    Replying log₀ log t (s₁.record.delivered t) s
      (Along serverStep (Delivers t) s₁ labels) := by
  have hinv := run_along_of (I := Replying log₀ log t (s₁.record.delivered t)) (P := Delivers t)
    (fun _ _ _ _ hreply hguard hstep => hreply.step hguard hstep) h hrun hin
  rwa [true_and] at hinv

/-- In every run of the server and every reply of every handler, from the open for reading on: the
device keeps the content that is read back; as long as nothing is left out, the socket has taken a
part of it from its start; and when the reply loop has ended, the reply was without a gap if and
only if every block found room in the socket and no read failed in front of bytes. -/
theorem reply_without_gap_iff (calls : List Call) :
    ∃ device, run callStep aesdInitModule calls = .ok device ∧
      ∀ labels₀ s₀ s₁ t th₀ c, run serverStep (startServer device) labels₀ = .ok s₀ →
        s₀.threads[t]? = some th₀ → th₀.pc = .openRead → c.opens = true →
        serverStep s₀ (.handler t c) = .ok s₁ →
        ∃ v, view s₁.process.device = .ok v ∧
          ∀ labels s th, run serverStep s₁ labels = .ok s →
            Along serverStep (InReply t) s₁ labels → s.threads[t]? = some th →
            view s.process.device = .ok v ∧
            (Along serverStep (Delivers t) s₁ labels →
              takenSince t s₁ s <+: v.records.flatten) ∧
            (th.pc = .closeWrite →
              (NoGap t s₁ labels v.records.flatten ↔
                Along serverStep (Delivers t) s₁ labels)) := by
  obtain ⟨device, hcalls, log₀, slots, lost, hrep⟩ := runCalls calls
  refine ⟨device, hcalls, ?_⟩
  intro labels₀ s₀ s₁ t th₀ c hrun₀ hth₀ hpc₀ hopens hstep
  have hstart := replying_start (safe_run hrep hrun₀) hth₀ hpc₀ hopens hstep
  obtain ⟨slots₁, lost₁, hrep₁⟩ := hstart.safe.device
  refine ⟨_, view_eq hrep₁, ?_⟩
  intro labels s th hrun hin hth
  have hreply := replying_run hstart hrun hin
  obtain ⟨slots₂, lost₂, hrep₂⟩ := hreply.safe.device
  rw [hreply.content] at hrep₂
  refine ⟨view_eq hrep₂, ?_, ?_⟩
  · intro hclean
    obtain ⟨sent, htaken, hle⟩ := hreply.taken hclean
    rw [takenSince_eq htaken]
    exact hle
  · intro hpc
    obtain ⟨-, -, th', hth', hstage⟩ := hreply
    obtain rfl := Option.some.inj (hth.symm.trans hth')
    have hsent : Sent (s₁.record.delivered t) (s.record.delivered t)
        (reply (accept log₀ (stream s₁.record)))
        (Along serverStep (Delivers t) s₁ labels) := by
      cases hstage with
      | reading hstands => rw [hpc] at hstands; cases hstands
      | sending hstands => rw [hpc] at hstands; cases hstands
      | ended _ hsent => exact hsent
    obtain ⟨sent, htaken, hexact, hshort⟩ := hsent
    constructor
    · rintro ⟨-, hall⟩
      by_contra hnot
      have hless := hshort hnot
      have hwhole : takenSince t s₁ s = reply (accept log₀ (stream s₁.record)) := hall s hrun
      rw [takenSince_eq htaken] at hwhole
      rw [hwhole] at hless
      exact absurd hless (Nat.lt_irrefl _)
    · intro hclean
      refine ⟨?_, ?_⟩
      · rintro pre m ⟨rest, rfl⟩ hm
        have hpart := replying_run hstart hm (along_left hin)
        obtain ⟨part, hpartTaken, hle⟩ := hpart.taken (along_left hclean)
        rw [takenSince_eq hpartTaken]
        exact hle
      · intro s' hs'
        obtain rfl := Except.ok.inj (hrun.symm.trans hs')
        rw [takenSince_eq htaken]
        exact hexact hclean

/-- A client sends `x` and a newline, and the socket has room for one byte of the reply. -/
def crampedReply : List Label :=
  .connect :: List.replicate 9 (.handler 0
    ⟨.data (.line 120), true, ⟨fun _ => true, 2⟩, ⟨true, 2048⟩, 1⟩)

set_option maxRecDepth 20000 in
/-- The reply loop has ended with the connection open, and the newline has not been sent. -/
theorem cramped_reply_stops_short :
    ∃ s th, run serverStep (startServer aesdInitModule) crampedReply = .ok s ∧
      s.threads[0]? = some th ∧ th.pc = .closeWrite ∧ th.connClosed = false ∧
      view s.process.device = .ok ⟨[[120, 10]], [], 0⟩ ∧ s.record.delivered 0 = [120] :=
  ⟨_, _, rfl, rfl, rfl, rfl, rfl, rfl⟩

end Results

end Aesd.Server.ReplyGaps
