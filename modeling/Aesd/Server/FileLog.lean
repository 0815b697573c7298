/- Aesd/Server/FileLog
   layer: system
   digest: The shared file grows by what its writers store, and every complete reply is all of it. -/

import Aesd.Foundation.Run
import Aesd.Server.FileHandler

set_option autoImplicit false
set_option relaxedAutoImplicit false

namespace Aesd.Server.FileLog

open Aesd.Foundation.FileStream
open Aesd.Foundation.Run
open Aesd.Driver.Device
open Aesd.Server.Handler (bufSize Refusal RecvOutcome)
open Aesd.Server.FileHandler

section Lock

variable {t : Nat} {c : FileChoice} {f f' : FileFrame} {g g' : TimerFrame}

/-- The handler is between its lock and its unlock. -/
def inSection : FilePc → Bool
  | .seekEnd | .write | .seekStart | .read | .send | .unlock => true
  | _ => false

/-- The timer is between its lock and its unlock. -/
def timerInSection : TimerPc → Bool
  | .seekEnd | .write | .unlock => true
  | _ => false

/-- A step of handler `t` moves the lock to it or from it only, as its code says. -/
theorem handler_lock (h : HandlerCase t c f f')
    (hlock : inSection f.thread.pc = true ↔ f.process.fmutex = some (.handler t)) :
    (inSection f'.thread.pc = true ↔ f'.process.fmutex = some (.handler t)) ∧
      ∀ w, w ≠ .handler t → (f'.process.fmutex = some w ↔ f.process.fmutex = some w) := by
  have hkept : f'.process.fmutex = f.process.fmutex →
      inSection f'.thread.pc = inSection f.thread.pc →
      (inSection f'.thread.pc = true ↔ f'.process.fmutex = some (.handler t)) ∧
        ∀ w, w ≠ .handler t → (f'.process.fmutex = some w ↔ f.process.fmutex = some w) := by
    intro hmutex hpc
    rw [hmutex, hpc]
    exact ⟨hlock, fun _ _ => Iff.rfl⟩
  cases h with
  | loopTest hpc =>
    apply hkept (by rfl)
    rw [hpc, FileHandler.loopTest]
    split <;> simp [inSection]
  | recv hpc =>
    apply hkept (by cases c.recv <;> simp [recvStep])
    cases c.recv <;> simp [recvStep, hpc, inSection]
  | lock hpc hfree =>
    refine ⟨by simp [inSection], fun w hw => ?_⟩
    simp [hfree, hw.symm]
  | unlock hpc =>
    rw [hpc] at hlock
    have hmine := hlock.mp (by simp [inSection])
    refine ⟨by simp [unlockStep, inSection], fun w hw => ?_⟩
    simp [unlockStep, hmine, hw.symm]
  | read hpc =>
    apply hkept (by simp [readStep])
    rw [hpc, readStep]
    dsimp only
    split <;> simp [inSection]
  | closeConn hpc => exact hkept rfl (by simp [hpc, inSection])
  | seekEnd hpc => exact hkept rfl (by simp [seekEndStep, hpc, inSection])
  | write hpc => exact hkept rfl (by simp [writeStep, hpc, inSection])
  | seekStart hpc => exact hkept rfl (by simp [seekStartStep, hpc, inSection])
  | send hpc => exact hkept rfl (by simp [sendStep, hpc, inSection])

theorem timer_lock (h : TimerCase c g g')
    (hlock : timerInSection g.timer.pc = true ↔ g.process.fmutex = some .timer) :
    (timerInSection g'.timer.pc = true ↔ g'.process.fmutex = some .timer) ∧
      ∀ w, w ≠ .timer → (g'.process.fmutex = some w ↔ g.process.fmutex = some w) := by
  have hkept : g'.process.fmutex = g.process.fmutex →
      timerInSection g'.timer.pc = timerInSection g.timer.pc →
      (timerInSection g'.timer.pc = true ↔ g'.process.fmutex = some .timer) ∧
        ∀ w, w ≠ .timer → (g'.process.fmutex = some w ↔ g.process.fmutex = some w) := by
    intro hmutex hpc
    rw [hmutex, hpc]
    exact ⟨hlock, fun _ _ => Iff.rfl⟩
  cases h with
  | start hpc => exact hkept rfl (by simp [startStep, hpc, timerInSection])
  | loopTest hpc =>
    apply hkept (by rfl)
    rw [hpc]
    dsimp only
    split <;> simp [timerInSection]
  | clock hpc =>
    apply hkept
    · rw [clockStep]
      split <;> rfl
    · rw [hpc, clockStep]
      split <;> simp [timerInSection]
  | lock hpc hfree =>
    refine ⟨by simp [timerInSection], fun w hw => ?_⟩
    simp [hfree, hw.symm]
  | seekEnd hpc => exact hkept rfl (by simp [timerSeekStep, hpc, timerInSection])
  | write hpc => exact hkept rfl (by simp [timerWriteStep, hpc, timerInSection])
  | unlock hpc =>
    rw [hpc] at hlock
    have hmine := hlock.mp (by simp [timerInSection])
    refine ⟨by simp [timerUnlockStep, timerInSection], fun w hw => ?_⟩
    simp [timerUnlockStep, hmine, hw.symm]
  | sleep hpc => exact hkept rfl (by simp [hpc, timerInSection])

/-- Each writer holds the lock exactly where its code says so. -/
structure FileLocked (s : FileServer) : Prop where
  handler : ∀ (t : Nat) (th : FileThread), s.threads[t]? = some th →
    (inSection th.pc = true ↔ s.process.fmutex = some (.handler t))
  timer : timerInSection s.timer.pc = true ↔ s.process.fmutex = some .timer
  holder : ∀ t, s.process.fmutex = some (.handler t) → t < s.threads.length

end Lock

section Sections

variable {t : Nat} {c : FileChoice} {f f' : FileFrame} {g g' : TimerFrame}

/-- Outside its section a handler leaves the file alone. -/
theorem handler_quiet (h : HandlerCase t c f f') (hout : inSection f.thread.pc = false) :
    f'.process.wptr = f.process.wptr ∧ f'.record.units = f.record.units ∧
      f'.record.sections = f.record.sections := by
  cases h with
  | loopTest hpc => exact ⟨rfl, rfl, rfl⟩
  | recv hpc => cases c.recv <;> exact ⟨rfl, rfl, rfl⟩
  | lock hpc hfree => exact ⟨rfl, rfl, rfl⟩
  | closeConn hpc => exact ⟨rfl, rfl, rfl⟩
  | _ hpc => simp [hpc, inSection] at hout

theorem timer_quiet (h : TimerCase c g g') (hout : timerInSection g.timer.pc = false) :
    g'.process.wptr = g.process.wptr ∧ g'.record.units = g.record.units := by
  cases h with
  | clock hpc =>
    rw [clockStep]
    split <;> exact ⟨rfl, rfl⟩
  | start hpc => exact ⟨rfl, rfl⟩
  | loopTest hpc => exact ⟨rfl, rfl⟩
  | lock hpc hfree => exact ⟨rfl, rfl⟩
  | sleep hpc => exact ⟨rfl, rfl⟩
  | _ hpc => simp [hpc, timerInSection] at hout

/-- Everything stored so far, in the order of the locks. -/
def stored (units : List (Writer × List UInt8)) : List UInt8 := (units.map Prod.snd).flatten

theorem stored_concat (units : List (Writer × List UInt8)) (u : Writer × List UInt8) :
    stored (units ++ [u]) = stored units ++ u.2 := by
  simp [stored]

theorem stored_prefix {units units' : List (Writer × List UInt8)} (h : units <+: units') :
    stored units <+: stored units' := by
  obtain ⟨rest, rfl⟩ := h
  exact ⟨stored rest, by simp [stored]⟩

/-- The position is at the end of the file. -/
def AtEnd (p : FileProcess) : Prop := p.wptr.pos = p.wptr.contents.length

/-- The handler has stored its chunk, and nobody has stored anything since. -/
def StoredLast (r : FileRecord) (t : Nat) (th : FileThread) : Prop :=
  ∃ before, r.units = before ++ [(.handler t, th.recvBuf)]

/-- How far a handler has got with its reply, in a section in which no call failed or fell short. -/
def Replying (p : FileProcess) (r : FileRecord) (t : Nat) (th : FileThread) : Prop :=
  match th.pc with
  | .seekEnd | .write => th.sent = []
  | .seekStart => th.sent = [] ∧ StoredLast r t th
  | .read => th.sent = p.wptr.contents.take p.wptr.pos ∧ StoredLast r t th
  | .send => th.sent ++ th.sendBuf = p.wptr.contents.take p.wptr.pos ∧ StoredLast r t th
  | .unlock => th.sent = p.wptr.contents ∧ StoredLast r t th
  | _ => True

/-- What holds of a handler as long as every `fseek` to the end succeeds. -/
structure HandlerOk (p : FileProcess) (r : FileRecord) (t : Nat) (th : FileThread) : Prop where
  atEnd : th.pc = .write → AtEnd p
  reply : th.inFull = true → Replying p r t th

theorem HandlerOk.outside {p : FileProcess} {r : FileRecord} {th : FileThread}
    (hout : inSection th.pc = false) : HandlerOk p r t th where
  atEnd := by
    intro hpc
    rw [hpc] at hout
    cases hout
  reply := by
    intro _
    cases hpc : th.pc <;> rw [hpc] at hout <;> simp only [Replying, hpc]
    all_goals cases hout

/-- A read in full either leads on through the file or finds its end. -/
theorem read_ok (hok : HandlerOk f.process f.record t f.thread) (hpc : f.thread.pc = .read)
    (readable : Nat) :
    HandlerOk (readStep readable f).process (readStep readable f).record t
      (readStep readable f).thread := by
  have hreply := hok.reply
  simp only [Replying, hpc] at hreply
  refine ⟨?_, ?_⟩
  · intro hwrite
    simp only [readStep] at hwrite
    split at hwrite <;> cases hwrite
  · intro hfull
    simp only [readStep, Bool.and_eq_true, decide_eq_true_eq] at hfull
    obtain ⟨hsofar, hlast⟩ := hreply hfull.1
    have hall : min readable bufSize = bufSize := Nat.min_eq_right hfull.2
    have htake := Stream.take_pos_get bufSize f.process.wptr
    by_cases hnil : f.process.wptr.peek bufSize = []
    · have hend := (Stream.peek_eq_nil_iff (by decide) f.process.wptr).mp hnil
      simp only [Replying, readStep, hall, hnil, if_true]
      refine ⟨?_, hlast⟩
      show f.thread.sent = f.process.wptr.contents
      rw [hsofar, hend, List.take_length]
    · simp only [Replying, readStep, hall, hnil, if_false]
      refine ⟨?_, hlast⟩
      rw [htake, hsofar]

theorem handler_ok (h : HandlerCase t c f f')
    (hseeks : f.thread.pc = .seekEnd → c.seeks = true)
    (hok : HandlerOk f.process f.record t f.thread) :
    HandlerOk f'.process f'.record t f'.thread := by
  have hreply := hok.reply
  cases h with
  | loopTest hpc =>
    apply HandlerOk.outside
    rw [FileHandler.loopTest]
    dsimp only
    split <;> simp [inSection]
  | recv hpc =>
    apply HandlerOk.outside
    cases c.recv <;> simp [recvStep, inSection]
  | lock hpc hfree => exact ⟨by simp, by simp [Replying]⟩
  | seekEnd hpc =>
    simp only [Replying, hpc] at hreply
    refine ⟨fun _ => ?_, ?_⟩
    · simp [AtEnd, seekEndStep, hseeks hpc, Stream.toEnd]
    · intro hfull
      simp only [seekEndStep, Bool.and_eq_true] at hfull
      simp only [Replying, seekEndStep]
      exact hreply hfull.1
  | write hpc =>
    simp only [Replying, hpc] at hreply
    refine ⟨by simp [writeStep], ?_⟩
    intro hfull
    simp only [writeStep, Bool.and_eq_true, decide_eq_true_eq] at hfull
    simp only [Replying, writeStep]
    refine ⟨hreply hfull.1, f.record.units, ?_⟩
    simp only [List.take_of_length_le hfull.2]
  | seekStart hpc =>
    simp only [Replying, hpc] at hreply
    refine ⟨by simp [seekStartStep], ?_⟩
    intro hfull
    simp only [seekStartStep, Bool.and_eq_true] at hfull
    obtain ⟨hnone, hlast⟩ := hreply hfull.1
    simp only [Replying, seekStartStep, hfull.2, if_true, Stream.toStart, List.take_zero]
    exact ⟨hnone, hlast⟩
  | read hpc => exact read_ok hok hpc c.readable
  | send hpc =>
    simp only [Replying, hpc] at hreply
    refine ⟨by simp [sendStep], ?_⟩
    intro hfull
    simp only [sendStep, Bool.and_eq_true, decide_eq_true_eq] at hfull
    simp only [Replying, sendStep, List.take_of_length_le hfull.2]
    exact hreply hfull.1
  | unlock hpc => exact .outside (by simp [unlockStep, inSection])
  | closeConn hpc => exact .outside (by simp [inSection])

/-- A step of a handler with the position where it belongs keeps the file the sum of its units. -/
theorem handler_stored (h : HandlerCase t c f f') (hatEnd : f.thread.pc = .write → AtEnd f.process)
    (hstored : f.process.wptr.contents = stored f.record.units) :
    f'.process.wptr.contents = stored f'.record.units ∧ f.record.units <+: f'.record.units := by
  cases h with
  | recv hpc => cases c.recv <;> exact ⟨hstored, List.prefix_rfl⟩
  | seekEnd hpc =>
    refine ⟨?_, List.prefix_rfl⟩
    rw [← show f.record.units = (seekEndStep c.seeks f).record.units from rfl, ← hstored]
    cases c.seeks <;> simp [seekEndStep, Stream.toEnd]
  | write hpc =>
    refine ⟨?_, List.prefix_append _ _⟩
    simp only [writeStep, stored_concat, ← hstored]
    exact Stream.contents_put (hatEnd hpc) _
  | seekStart hpc =>
    refine ⟨?_, List.prefix_rfl⟩
    rw [← show f.record.units = (seekStartStep c.seeks f).record.units from rfl, ← hstored]
    cases c.seeks <;> simp [seekStartStep, Stream.toStart]
  | _ hpc => exact ⟨hstored, List.prefix_rfl⟩

theorem timer_stored (h : TimerCase c g g') (hatEnd : g.timer.pc = .write → AtEnd g.process)
    (hseeks : g.timer.pc = .seekEnd → c.seeks = true)
    (hstored : g.process.wptr.contents = stored g.record.units) :
    g'.process.wptr.contents = stored g'.record.units ∧ g.record.units <+: g'.record.units ∧
      (g'.timer.pc = .write → AtEnd g'.process) := by
  cases h with
  | start hpc => exact ⟨hstored, List.prefix_rfl, by simp [startStep]⟩
  | loopTest hpc =>
    refine ⟨hstored, List.prefix_rfl, ?_⟩
    dsimp only
    split <;> simp
  | clock hpc =>
    rw [clockStep]
    split <;> exact ⟨hstored, List.prefix_rfl, by simp⟩
  | lock hpc hfree => exact ⟨hstored, List.prefix_rfl, by simp⟩
  | seekEnd hpc =>
    have hc := hseeks hpc
    simp only [timerSeekStep, hc, if_true]
    exact ⟨hstored, List.prefix_rfl, by simp [AtEnd, Stream.toEnd]⟩
  | write hpc =>
    refine ⟨?_, List.prefix_append _ _, by simp [timerWriteStep]⟩
    simp only [timerWriteStep, stored_concat, ← hstored]
    exact Stream.contents_put (hatEnd hpc) _
  | unlock hpc => exact ⟨hstored, List.prefix_rfl, by simp [timerUnlockStep]⟩
  | sleep hpc => exact ⟨hstored, List.prefix_rfl, by simp⟩

end Sections

section Runs

variable {s s' : FileServer}

/-- A complete reply is all that was stored before its own chunk, and its own chunk. -/
def Complete (units : List (Writer × List UInt8)) (sec : FileSection) : Prop :=
  ∃ before, before ++ [(.handler sec.thread, sec.chunk)] <+: units ∧
    sec.sent = stored before ++ sec.chunk

/-- What holds in every state as long as every `fseek` to the end succeeds. -/
structure FileOk (s : FileServer) : Prop where
  locked : FileLocked s
  contents : s.process.wptr.contents = stored s.record.units
  handlers : ∀ (t : Nat) (th : FileThread), s.threads[t]? = some th →
    HandlerOk s.process s.record t th
  timer : s.timer.pc = .write → AtEnd s.process
  complete : ∀ sec ∈ s.record.sections, sec.inFull = true → Complete s.record.units sec
  ordered : s.record.sections.Pairwise fun a b =>
    a.inFull = true → b.inFull = true → a.sent <+: b.sent

/-- No `fseek` to the end fails. -/
def SeeksEnd (s : FileServer) (l : FileLabel) : Prop :=
  (∀ (t : Nat) (c : FileChoice) (th : FileThread), l = .handler t c → s.threads[t]? = some th →
    th.pc = .seekEnd → c.seeks = true) ∧
  (∀ c, l = .timer c → s.timer.pc = .seekEnd → c.seeks = true)

theorem fileOk_start (created : Bool) : FileOk (startFileServer created) where
  locked := by
    refine ⟨by simp [startFileServer], ?_, by simp [startFileServer]⟩
    cases created <;> simp [startFileServer, timerInSection]
  contents := by simp [startFileServer, Stream.empty, stored]
  handlers := by simp [startFileServer]
  timer := by cases created <;> simp [startFileServer]
  complete := by simp [startFileServer]
  ordered := by simp [startFileServer]

theorem Complete.mono {units units' : List (Writer × List UInt8)} (h : units <+: units')
    {sec : FileSection} (hsec : Complete units sec) : Complete units' sec := by
  obtain ⟨before, hpre, hsent⟩ := hsec
  exact ⟨before, hpre.trans h, hsent⟩

/-- A complete reply is a part of the file from its start. -/
theorem Complete.prefix_stored {units : List (Writer × List UInt8)} {sec : FileSection}
    (h : Complete units sec) : sec.sent <+: stored units := by
  obtain ⟨before, hpre, hsent⟩ := h
  have hle := stored_prefix hpre
  rwa [stored_concat, ← hsent] at hle

/-- A step that leaves the file alone leaves a handler and its reply alone. -/
theorem HandlerOk.congr {p p' : FileProcess} {r r' : FileRecord} {t : Nat} {th : FileThread}
    (h : HandlerOk p r t th) (hwptr : p'.wptr = p.wptr) (hunits : r'.units = r.units) :
    HandlerOk p' r' t th where
  atEnd := by
    rw [AtEnd, hwptr]
    exact h.atEnd
  reply := by
    have hreply := h.reply
    simp only [Replying, StoredLast] at hreply ⊢
    rw [hwptr, hunits]
    exact hreply

/-- A handler changes the list of sections at the end of its own only. -/
theorem handler_sections {t : Nat} {c : FileChoice} {f f' : FileFrame}
    (h : HandlerCase t c f f') :
    f'.record.sections = f.record.sections ∨
      f.thread.pc = .unlock ∧ f'.record.units = f.record.units ∧
        f'.record.sections = f.record.sections ++
          [⟨t, f.thread.recvBuf, f.thread.sent, f.thread.inFull⟩] := by
  cases h with
  | unlock hpc => exact .inr ⟨hpc, rfl, rfl⟩
  | recv hpc => exact .inl (by cases c.recv <;> simp [recvStep])
  | _ hpc => exact .inl rfl

theorem getElem?_update {t : Nat} {th : FileThread} (hth : s.threads[t]? = some th)
    (f : FileFrame) (u : Nat) :
    (s.update t f).threads[u]? = if u = t then some f.thread else s.threads[u]? := by
  obtain ⟨hlt, -⟩ := List.getElem?_eq_some_iff.mp hth
  show (s.threads.set t f.thread)[u]? = _
  split
  next heq =>
    subst heq
    exact List.getElem?_set_self hlt
  next hne => exact List.getElem?_set_ne fun he => hne he.symm

theorem FileLocked.handler_step (h : FileLocked s) {t : Nat} {c : FileChoice} {th : FileThread}
    {f' : FileFrame} (hth : s.threads[t]? = some th) (hf : HandlerCase t c (s.frame th) f') :
    FileLocked (s.update t f') := by
  obtain ⟨hown, hothers⟩ := handler_lock hf (h.handler t th hth)
  refine ⟨?_, ?_, ?_⟩
  · intro u thu hu
    rw [getElem?_update hth] at hu
    split at hu
    next heq =>
      obtain rfl := Option.some.inj hu
      rw [heq]
      exact hown
    next hne =>
      rw [h.handler u thu hu]
      exact (hothers (.handler u) fun he => hne (Writer.handler.inj he)).symm
  · rw [show (s.update t f').timer = s.timer from rfl, h.timer]
    exact (hothers .timer (by simp)).symm
  · intro u hu
    show u < (s.threads.set t f'.thread).length
    rw [List.length_set]
    by_cases heq : u = t
    · rw [heq]
      exact (List.getElem?_eq_some_iff.mp hth).1
    · exact h.holder u ((hothers (.handler u) fun he => heq (Writer.handler.inj he)).mp hu)

/-- While one writer is in its section, every other is outside. -/
theorem FileLocked.alone (h : FileLocked s) {t u : Nat} {th thu : FileThread}
    (hth : s.threads[t]? = some th) (hu : s.threads[u]? = some thu) (hne : u ≠ t)
    (hin : inSection thu.pc = true) : inSection th.pc = false := by
  rw [← Bool.not_eq_true, h.handler t th hth, (h.handler u thu hu).mp hin]
  intro heq
  exact hne (Writer.handler.inj (Option.some.inj heq))

theorem FileLocked.timer_alone (h : FileLocked s) {t : Nat} {th : FileThread}
    (hth : s.threads[t]? = some th) (hin : timerInSection s.timer.pc = true) :
    inSection th.pc = false := by
  rw [← Bool.not_eq_true, h.handler t th hth, h.timer.mp hin]
  simp

theorem FileOk.handler_step (h : FileOk s) {t : Nat} {c : FileChoice} {th : FileThread}
    {f' : FileFrame} (hseeks : th.pc = .seekEnd → c.seeks = true)
    (hth : s.threads[t]? = some th) (hf : HandlerCase t c (s.frame th) f') :
    FileOk (s.update t f') := by
  have hok := h.handlers t th hth
  obtain ⟨hcontents, hunits⟩ := handler_stored hf hok.atEnd h.contents
  refine ⟨h.locked.handler_step hth hf, hcontents, ?_, ?_, ?_, ?_⟩
  · intro u thu hu
    rw [getElem?_update hth] at hu
    split at hu
    next heq =>
      obtain rfl := Option.some.inj hu
      rw [heq]
      exact handler_ok hf hseeks hok
    next hne =>
      by_cases hin : inSection thu.pc = true
      · obtain ⟨hwptr, hsame, -⟩ := handler_quiet hf (h.locked.alone hth hu hne hin)
        exact (h.handlers u thu hu).congr hwptr hsame
      · exact .outside (Bool.eq_false_of_not_eq_true hin)
  · intro hpc
    have hwrite : s.timer.pc = .write := hpc
    obtain ⟨hwptr, -, -⟩ :=
      handler_quiet hf (h.locked.timer_alone hth (by rw [hwrite]; simp [timerInSection]))
    rw [AtEnd, show (s.update t f').process = f'.process from rfl, hwptr]
    exact h.timer hwrite
  · rcases handler_sections hf with hsame | ⟨hpc, hunits', hmore⟩
    · intro sec hsec hfull
      exact (h.complete sec (hsame ▸ hsec) hfull).mono hunits
    · intro sec hsec hfull
      rw [show (s.update t f').record = f'.record from rfl, hmore] at hsec
      rcases List.mem_append.mp hsec with hold | hnew
      · exact (h.complete sec hold hfull).mono hunits
      · obtain rfl := List.mem_singleton.mp hnew
        have hreply := hok.reply hfull
        simp only [Replying, show th.pc = .unlock from hpc] at hreply
        obtain ⟨hsent, before, hlast⟩ := hreply
        refine ⟨before, ?_, ?_⟩
        · rw [show (s.update t f').record = f'.record from rfl, hunits']
          exact ⟨[], by rw [List.append_nil]; exact hlast.symm⟩
        · rw [show (s.frame th).thread.sent = th.sent from rfl, hsent, h.contents, hlast,
            stored_concat]
          rfl
  · rcases handler_sections hf with hsame | ⟨hpc, hunits', hmore⟩
    · rw [show (s.update t f').record = f'.record from rfl, hsame]
      exact h.ordered
    · rw [show (s.update t f').record = f'.record from rfl, hmore, List.pairwise_append]
      refine ⟨h.ordered, List.pairwise_singleton _ _, ?_⟩
      intro a ha b hb hfa hfb
      obtain rfl := List.mem_singleton.mp hb
      have hreply := hok.reply hfb
      simp only [Replying, show th.pc = .unlock from hpc] at hreply
      rw [show (s.frame th).thread.sent = th.sent from rfl, hreply.1, h.contents]
      exact (h.complete a ha hfa).prefix_stored

theorem FileOk.timer_step (h : FileOk s) {c : FileChoice} {f' : TimerFrame}
    (hseeks : s.timer.pc = .seekEnd → c.seeks = true) (hf : TimerCase c s.timerFrame f') :
    FileOk (s.updateTimer f') := by
  obtain ⟨hcontents, hunits, htimer⟩ := timer_stored hf h.timer hseeks h.contents
  obtain ⟨hown, hothers⟩ := timer_lock hf h.locked.timer
  have hsections : f'.record.sections = s.record.sections := by
    cases hf with
    | clock hpc =>
      rw [clockStep]
      split <;> rfl
    | _ hpc => rfl
  refine ⟨⟨?_, hown, ?_⟩, hcontents, ?_, htimer, ?_, ?_⟩
  · intro t th hth
    rw [h.locked.handler t th hth]
    exact (hothers (.handler t) (by simp)).symm
  · exact fun t ht => h.locked.holder t ((hothers (.handler t) (by simp)).mp ht)
  · intro t th hth
    by_cases hin : inSection th.pc = true
    · have hout : timerInSection s.timer.pc = false := by
        rw [← Bool.not_eq_true, h.locked.timer, (h.locked.handler t th hth).mp hin]
        simp
      obtain ⟨hwptr, hsame⟩ := timer_quiet hf hout
      exact (h.handlers t th hth).congr hwptr hsame
    · exact .outside (Bool.eq_false_of_not_eq_true hin)
  · intro sec hsec hfull
    rw [show (s.updateTimer f').record = f'.record from rfl, hsections] at hsec
    exact (h.complete sec hsec hfull).mono hunits
  · rw [show (s.updateTimer f').record = f'.record from rfl, hsections]
    exact h.ordered

theorem FileOk.step (h : FileOk s) {l : FileLabel} (hseeks : SeeksEnd s l)
    (hstep : fileStep s l = .ok s') : FileOk s' := by
  cases fileStep_cases hstep with
  | connect hopen =>
    have hthreads : ∀ (t : Nat) (th : FileThread), (s.threads ++ [startThread])[t]? = some th →
        s.threads[t]? = some th ∨ t = s.threads.length ∧ th = startThread := by
      intro t th hth
      rw [List.getElem?_append] at hth
      split_ifs at hth with hlt
      · exact .inl hth
      · obtain ⟨hidx, hnew⟩ := List.getElem?_eq_some_iff.mp hth
        rw [List.length_singleton] at hidx
        rw [List.getElem_singleton] at hnew
        exact .inr ⟨by omega, hnew.symm⟩
    refine ⟨⟨?_, h.locked.timer, ?_⟩, h.contents, ?_, h.timer, h.complete, h.ordered⟩
    · intro t th hth
      rcases hthreads t th hth with hold | ⟨rfl, rfl⟩
      · exact h.locked.handler t th hold
      · have hnot : s.process.fmutex ≠ some (.handler s.threads.length) := fun hmine =>
          absurd (h.locked.holder _ hmine) (Nat.lt_irrefl _)
        simp [startThread, inSection, hnot]
    · intro t ht
      have hlt := h.locked.holder t ht
      simp only [List.length_append]
      omega
    · intro t th hth
      rcases hthreads t th hth with hold | ⟨rfl, rfl⟩
      · exact h.handlers t th hold
      · exact .outside (by simp [startThread, inSection])
  | signal =>
    refine ⟨⟨h.locked.handler, h.locked.timer, h.locked.holder⟩, h.contents, ?_, h.timer,
      h.complete, h.ordered⟩
    exact fun t th hth => (h.handlers t th hth).congr (by rfl) (by rfl)
  | handler hth hf =>
    exact h.handler_step (fun hpc => hseeks.1 _ _ _ (by rfl) hth hpc) hth hf
  | timer hf => exact h.timer_step (fun hpc => hseeks.2 _ (by rfl) hpc) hf

theorem fileOk_run {created : Bool} {labels : List FileLabel}
    (hrun : run fileStep (startFileServer created) labels = .ok s)
    (hseeks : Along fileStep SeeksEnd (startFileServer created) labels) : FileOk s :=
  run_guarded (fun _ _ _ h hguard hstep => FileOk.step h hguard hstep) (fileOk_start created) hrun
    hseeks

end Runs

section Parts

variable {t : Nat} {c : FileChoice} {f f' : FileFrame} {s s' : FileServer}

/-- The handler has stored what it could of its chunk, and nobody has stored anything since. -/
def WroteLast (r : FileRecord) (t : Nat) (th : FileThread) : Prop :=
  ∃ before n, r.units = before ++ [(.handler t, th.recvBuf.take n)]

/-- How far a handler has got with its reply, whatever failed or fell short: parts of the file, in
their order. -/
def Answering (p : FileProcess) (r : FileRecord) (t : Nat) (th : FileThread) : Prop :=
  match th.pc with
  | .seekEnd | .write => th.sent = []
  | .seekStart => th.sent = [] ∧ WroteLast r t th
  | .read => th.sent.Sublist (p.wptr.contents.take p.wptr.pos) ∧ WroteLast r t th
  | .send => (th.sent ++ th.sendBuf).Sublist (p.wptr.contents.take p.wptr.pos) ∧ WroteLast r t th
  | .unlock => th.sent.Sublist p.wptr.contents ∧ WroteLast r t th
  | _ => True

theorem answering_outside {p : FileProcess} {r : FileRecord} {th : FileThread}
    (hout : inSection th.pc = false) : Answering p r t th := by
  cases hpc : th.pc <;> rw [hpc] at hout <;> simp only [Answering, hpc]
  all_goals cases hout

theorem answering_congr {p p' : FileProcess} {r r' : FileRecord} {th : FileThread}
    (h : Answering p r t th) (hwptr : p'.wptr = p.wptr) (hunits : r'.units = r.units) :
    Answering p' r' t th := by
  simp only [Answering, WroteLast] at h ⊢
  rw [hwptr, hunits]
  exact h

theorem read_answering (h : Answering f.process f.record t f.thread) (hpc : f.thread.pc = .read)
    (readable : Nat) :
    Answering (readStep readable f).process (readStep readable f).record t
      (readStep readable f).thread := by
  simp only [Answering, hpc] at h
  obtain ⟨hsent, hlast⟩ := h
  have htake := Stream.take_pos_get (min readable bufSize) f.process.wptr
  by_cases hnil : f.process.wptr.peek (min readable bufSize) = []
  · simp only [Answering, readStep, hnil, if_true]
    exact ⟨hsent.trans (List.take_sublist _ _), hlast⟩
  · simp only [Answering, readStep, hnil, if_false]
    refine ⟨?_, hlast⟩
    rw [htake]
    exact hsent.append (List.Sublist.refl _)

theorem handler_answering (h : HandlerCase t c f f')
    (ha : Answering f.process f.record t f.thread) :
    Answering f'.process f'.record t f'.thread := by
  cases h with
  | loopTest hpc =>
    apply answering_outside
    rw [FileHandler.loopTest]
    dsimp only
    split <;> simp [inSection]
  | recv hpc =>
    apply answering_outside
    cases c.recv <;> simp [recvStep, inSection]
  | lock hpc hfree => simp [Answering]
  | seekEnd hpc =>
    simp only [Answering, hpc] at ha
    simp only [Answering, seekEndStep]
    exact ha
  | write hpc =>
    simp only [Answering, hpc] at ha
    simp only [Answering, writeStep]
    exact ⟨ha, f.record.units, c.stored, rfl⟩
  | seekStart hpc =>
    simp only [Answering, hpc] at ha
    simp only [Answering, seekStartStep]
    refine ⟨?_, ha.2⟩
    rw [ha.1]
    exact List.nil_sublist _
  | read hpc => exact read_answering ha hpc c.readable
  | send hpc =>
    simp only [Answering, hpc] at ha
    simp only [Answering, sendStep]
    exact ⟨((List.Sublist.refl _).append (List.take_sublist _ _)).trans ha.1, ha.2⟩
  | unlock hpc => exact answering_outside (by simp [unlockStep, inSection])
  | closeConn hpc => exact answering_outside (by simp [inSection])

/-- A reply is parts, in their order, of all that was stored before its own chunk and of what could
be stored of this. -/
def Answered (units : List (Writer × List UInt8)) (sec : FileSection) : Prop :=
  ∃ before n, before ++ [(.handler sec.thread, sec.chunk.take n)] <+: units ∧
    sec.sent.Sublist (stored before ++ sec.chunk.take n)

theorem Answered.mono {units units' : List (Writer × List UInt8)} (h : units <+: units')
    {sec : FileSection} (hsec : Answered units sec) : Answered units' sec := by
  obtain ⟨before, n, hpre, hsent⟩ := hsec
  exact ⟨before, n, hpre.trans h, hsent⟩

structure AllAnswered (s : FileServer) : Prop where
  handlers : ∀ (t : Nat) (th : FileThread), s.threads[t]? = some th →
    Answering s.process s.record t th
  sections : ∀ sec ∈ s.record.sections, Answered s.record.units sec

theorem AllAnswered.handler_step (h : AllAnswered s) (hok : FileOk s) {th : FileThread}
    (hth : s.threads[t]? = some th) (hf : HandlerCase t c (s.frame th) f') :
    AllAnswered (s.update t f') := by
  have hown := h.handlers t th hth
  obtain ⟨-, hunits⟩ := handler_stored hf (hok.handlers t th hth).atEnd hok.contents
  refine ⟨?_, ?_⟩
  · intro u thu hu
    rw [getElem?_update hth] at hu
    split at hu
    next heq =>
      obtain rfl := Option.some.inj hu
      rw [heq]
      exact handler_answering hf hown
    next hne =>
      by_cases hin : inSection thu.pc = true
      · obtain ⟨hwptr, hsame, -⟩ := handler_quiet hf (hok.locked.alone hth hu hne hin)
        exact answering_congr (h.handlers u thu hu) hwptr hsame
      · exact answering_outside (Bool.eq_false_of_not_eq_true hin)
  · intro sec hsec
    rcases handler_sections hf with hsame | ⟨hpc, hunits', hmore⟩
    · exact (h.sections sec (hsame ▸ hsec)).mono hunits
    · rw [show (s.update t f').record = f'.record from rfl, hmore] at hsec
      rcases List.mem_append.mp hsec with hold | hnew
      · exact (h.sections sec hold).mono hunits
      · obtain rfl := List.mem_singleton.mp hnew
        simp only [Answering, show th.pc = .unlock from hpc] at hown
        obtain ⟨hsent, before, n, hlast⟩ := hown
        refine ⟨before, n, ?_, ?_⟩
        · rw [show (s.update t f').record = f'.record from rfl, hunits']
          exact ⟨[], by rw [List.append_nil]; exact hlast.symm⟩
        · rw [hok.contents, hlast, stored_concat] at hsent
          exact hsent

theorem AllAnswered.timer_step (h : AllAnswered s) (hok : FileOk s) {f' : TimerFrame}
    (hseeks : s.timer.pc = .seekEnd → c.seeks = true) (hf : TimerCase c s.timerFrame f') :
    AllAnswered (s.updateTimer f') := by
  obtain ⟨-, hunits, -⟩ := timer_stored hf hok.timer hseeks hok.contents
  have hsections : f'.record.sections = s.record.sections := by
    cases hf with
    | clock hpc =>
      rw [clockStep]
      split <;> rfl
    | _ hpc => rfl
  refine ⟨?_, ?_⟩
  · intro t th hth
    by_cases hin : inSection th.pc = true
    · have hout : timerInSection s.timer.pc = false := by
        rw [← Bool.not_eq_true, hok.locked.timer, (hok.locked.handler t th hth).mp hin]
        simp
      obtain ⟨hwptr, hsame⟩ := timer_quiet hf hout
      exact answering_congr (h.handlers t th hth) hwptr hsame
    · exact answering_outside (Bool.eq_false_of_not_eq_true hin)
  · intro sec hsec
    rw [show (s.updateTimer f').record = f'.record from rfl, hsections] at hsec
    exact (h.sections sec hsec).mono hunits

theorem AllAnswered.step (h : AllAnswered s) (hok : FileOk s) {l : FileLabel}
    (hseeks : SeeksEnd s l) (hstep : fileStep s l = .ok s') : AllAnswered s' := by
  cases fileStep_cases hstep with
  | connect hopen =>
    refine ⟨?_, h.sections⟩
    intro t th hth
    change (s.threads ++ [startThread])[t]? = some th at hth
    rw [List.getElem?_append] at hth
    split_ifs at hth with hlt
    · exact h.handlers t th hth
    · have hmem := List.mem_of_getElem? hth
      rw [List.mem_singleton.mp hmem]
      exact answering_outside (by simp [startThread, inSection])
  | signal => exact ⟨h.handlers, h.sections⟩
  | handler hth hf => exact h.handler_step hok hth hf
  | timer hf => exact h.timer_step hok (fun hpc => hseeks.2 _ (by rfl) hpc) hf

theorem answered_run {created : Bool} {labels : List FileLabel}
    (hrun : run fileStep (startFileServer created) labels = .ok s)
    (hseeks : Along fileStep SeeksEnd (startFileServer created) labels) : AllAnswered s := by
  have hboth : FileOk s ∧ AllAnswered s := by
    apply run_guarded (I := fun s => FileOk s ∧ AllAnswered s) _ _ hrun hseeks
    · exact fun _ _ _ h hguard hstep => ⟨h.1.step hguard hstep, h.2.step h.1 hguard hstep⟩
    · exact ⟨fileOk_start created, by simp [startFileServer], by simp [startFileServer]⟩
  exact hboth.2

end Parts

section Delivery

variable {t : Nat} {c : FileChoice} {f f' : FileFrame} {s s' : FileServer}

/-- What handler `t` sent in its sections that ran to their end. -/
def sentBy (r : FileRecord) (t : Nat) : List UInt8 :=
  ((r.sections.filter fun sec => decide (sec.thread = t)).map FileSection.sent).flatten

/-- What a handler has sent in a section that has not come to its end. -/
def underWay : Option FileThread → List UInt8
  | none => []
  | some th => if inSection th.pc then th.sent else []

/-- The socket of each handler took what its sections sent. -/
def Delivered (s : FileServer) : Prop :=
  ∀ t, s.record.delivered t = sentBy s.record t ++ underWay s.threads[t]?

theorem handler_delivered (h : HandlerCase t c f f')
    (hd : f.record.delivered t = sentBy f.record t ++ underWay (some f.thread)) :
    f'.record.delivered t = sentBy f'.record t ++ underWay (some f'.thread) ∧
      ∀ u, u ≠ t → f'.record.delivered u = f.record.delivered u ∧
        sentBy f'.record u = sentBy f.record u := by
  have hkept : f'.record = f.record → underWay (some f'.thread) = underWay (some f.thread) →
      f'.record.delivered t = sentBy f'.record t ++ underWay (some f'.thread) ∧
        ∀ u, u ≠ t → f'.record.delivered u = f.record.delivered u ∧
          sentBy f'.record u = sentBy f.record u := by
    intro hrecord hway
    rw [hrecord, hway]
    exact ⟨hd, fun u _ => ⟨rfl, rfl⟩⟩
  cases h with
  | loopTest hpc =>
    apply hkept (by rfl)
    rw [FileHandler.loopTest]
    dsimp only
    split <;> simp [underWay, inSection, hpc]
  | recv hpc =>
    apply hkept (by cases c.recv <;> simp [recvStep])
    cases c.recv <;> simp [recvStep, underWay, inSection, hpc]
  | lock hpc hfree => exact hkept rfl (by simp [underWay, inSection, hpc])
  | seekEnd hpc => exact hkept rfl (by simp [underWay, inSection, hpc, seekEndStep])
  | write hpc =>
    refine ⟨?_, fun u _ => ⟨rfl, rfl⟩⟩
    simpa [writeStep, underWay, inSection, hpc, sentBy] using hd
  | seekStart hpc => exact hkept rfl (by simp [underWay, inSection, hpc, seekStartStep])
  | read hpc =>
    apply hkept (by rfl)
    rw [readStep]
    dsimp only
    split <;> simp [underWay, inSection, hpc]
  | send hpc =>
    refine ⟨?_, fun u hu => ⟨by simp [sendStep, hu], rfl⟩⟩
    simp only [underWay, inSection, hpc, if_true] at hd
    simp only [sendStep, Function.update_self, underWay, inSection, if_true, hd, List.append_assoc]
    rfl
  | unlock hpc =>
    simp only [underWay, inSection, hpc, if_true] at hd
    refine ⟨?_, fun u hu => ⟨rfl, ?_⟩⟩
    · simp [unlockStep, underWay, inSection, sentBy, hd]
    · simp [unlockStep, sentBy, hu.symm]
  | closeConn hpc => exact hkept rfl (by simp [underWay, inSection, hpc])

theorem Delivered.step (h : Delivered s) {l : FileLabel} (hstep : fileStep s l = .ok s') :
    Delivered s' := by
  cases fileStep_cases hstep with
  | connect hopen =>
    intro t
    rw [h t]
    congr 1
    rcases Nat.lt_trichotomy t s.threads.length with hlt | rfl | hgt
    · rw [List.getElem?_append_left hlt]
    · simp [underWay, startThread, inSection]
    · rw [List.getElem?_eq_none (Nat.le_of_lt hgt), List.getElem?_eq_none]
      rw [List.length_append, List.length_singleton]
      omega
  | signal => exact h
  | @handler t c th f' hth hf =>
    have hown := h t
    rw [hth] at hown
    obtain ⟨hself, hothers⟩ := handler_delivered hf hown
    intro u
    rw [getElem?_update hth]
    split
    next heq => exact heq ▸ hself
    next hne =>
      obtain ⟨hdelivered, hsent⟩ := hothers u hne
      show f'.record.delivered u = sentBy f'.record u ++ _
      rw [hdelivered, hsent]
      exact h u
  | @timer c f' hf =>
    intro t
    have hrecord : sentBy f'.record t = sentBy s.record t ∧
        f'.record.delivered t = s.record.delivered t := by
      cases hf with
      | clock hpc =>
        rw [clockStep]
        split <;> exact ⟨rfl, rfl⟩
      | _ hpc => exact ⟨rfl, rfl⟩
    show f'.record.delivered t = sentBy f'.record t ++ _
    rw [hrecord.1, hrecord.2]
    exact h t

theorem delivered_run {created : Bool} {labels : List FileLabel}
    (hrun : run fileStep (startFileServer created) labels = .ok s) : Delivered s := by
  apply run_invariant (fun _ _ _ h hstep => Delivered.step h hstep) _ hrun
  intro t
  simp [startFileServer, sentBy, underWay]

end Delivery

section Results

variable {s : FileServer} {created : Bool} {labels : List FileLabel}

/-- No call of `fseek` of a step fails. -/
def allSeek : FileLabel → Bool
  | .handler _ c => c.seeks
  | .timer c => c.seeks
  | _ => true

theorem seeksEnd_of_allSeek (h : labels.all allSeek = true) (s : FileServer) :
    Along fileStep SeeksEnd s labels := by
  apply along_of_mem
  intro l hl s
  have hseek := List.all_eq_true.mp h l hl
  refine ⟨?_, ?_⟩
  · rintro t c th rfl - -
    exact hseek
  · rintro c rfl -
    exact hseek

/-- Everything succeeds, the client sends a line, and the clock reads `now`. -/
def smoothly (now : Time) : FileChoice :=
  ⟨.data (.line 97), true, bufSize, bufSize, bufSize, now, ⟨[116], by decide⟩⟩

/-- A client sends a line, the timer writes a timestamp, another client sends a line, and the socket
of a third one takes one byte only. -/
def threeLines : List FileLabel :=
  List.replicate 3 .connect ++
    List.replicate 10 (.handler 0 (smoothly .zero)) ++
    List.replicate 2 (.timer (smoothly .zero)) ++
    List.replicate 5 (.timer (smoothly { Time.zero with sec := 11 })) ++
    List.replicate 10 (.handler 1 (smoothly .zero)) ++
    List.replicate 10 (.handler 2 { smoothly .zero with room := 1 })

set_option maxRecDepth 20000 in
theorem threeLines_run : ∃ s, run fileStep (startFileServer true) threeLines = .ok s ∧
    s.process.wptr.contents = [97, 10, 116, 10, 97, 10, 97, 10] ∧
      s.record.sections = [⟨0, [97, 10], [97, 10], true⟩,
        ⟨1, [97, 10], [97, 10, 116, 10, 97, 10], true⟩, ⟨2, [97, 10], [97], false⟩] :=
  ⟨_, rfl, rfl, rfl⟩

end Results

end Aesd.Server.FileLog
