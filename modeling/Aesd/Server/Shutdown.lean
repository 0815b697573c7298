/- Aesd/Server/Shutdown
   layer: system
   digest: What a request to shut down does to a handler: nothing at all. -/

import Aesd.Driver.Ownership
import Aesd.Server.MainLoop

set_option autoImplicit false
set_option relaxedAutoImplicit false

namespace Aesd.Server.Shutdown

open Aesd.Foundation.DescriptorTable
open Aesd.Foundation.LinkedList
open Aesd.Foundation.RecordLog
open Aesd.Foundation.Run
open Aesd.Driver.Device
open Aesd.Driver.LogRelation
open Aesd.Driver.ReadCorrect
open Aesd.Driver.WriteCorrect
open Aesd.Driver.Session
open Aesd.Driver.Ownership
open Aesd.Server.Handler
open Aesd.Server.Safety
open Aesd.Server.MainLoop

section Loop

variable {t : Nat} {c : Choice} {f f' : Frame}

/-- The handler is out of its loop. -/
def hasLeft : Pc → Bool
  | .closeConn | .done => true
  | _ => false

/-- `recv` reports the end of the stream, or an error other than `EAGAIN`. -/
def ends : RecvOutcome → Bool
  | .error | .eof => true
  | .again | .data _ => false

/-- `conn_closed` is set exactly in a handler that is out of its loop, and only a `recv` that
reports an end takes it there. -/
theorem handlerStep_leaves (h : handlerStep t c f = .ok f')
    (hclosed : f.thread.connClosed = hasLeft f.thread.pc) :
    f'.thread.connClosed = hasLeft f'.thread.pc ∧
      hasLeft f'.thread.pc =
        (hasLeft f.thread.pc || (decide (f.thread.pc = .recv) && ends c.recv)) := by
  cases handlerStep_inv h with
  | loopTest hpc =>
    rw [hpc] at hclosed ⊢
    have hrecv : (loopTest f).thread.pc = .recv := by
      simp [loopTest, hclosed, hasLeft]
    rw [hrecv]
    exact ⟨hclosed, rfl⟩
  | recv hpc =>
    rw [hpc] at hclosed ⊢
    cases c.recv with
    | again => exact ⟨hclosed, rfl⟩
    | error => exact ⟨rfl, rfl⟩
    | eof => exact ⟨rfl, rfl⟩
    | data chunk => exact ⟨hclosed, rfl⟩
  | openWrite hpc =>
    rw [hpc] at hclosed ⊢
    cases c.opens <;> exact ⟨hclosed, rfl⟩
  | openRead hpc =>
    rw [hpc] at hclosed ⊢
    cases c.opens <;> exact ⟨hclosed, rfl⟩
  | readBack hpc hfd hrun =>
    rw [hpc] at hclosed ⊢
    dsimp only
    split <;> exact ⟨hclosed, rfl⟩
  | _ hpc =>
    rw [hpc] at hclosed ⊢
    exact ⟨hclosed, rfl⟩

/-- Whatever the numbers of a handler refer to, the device keeps its log. -/
theorem handlerStep_device {log₀ : Log} (hdev : DeviceOk log₀ f.process f.record)
    (h : handlerStep t c f = .ok f') : DeviceOk log₀ f'.process f'.record := by
  cases handlerStep_inv h with
  | recv hpc => cases c.recv <;> exact hdev
  | openWrite hpc => cases c.opens <;> exact hdev
  | openRead hpc => cases c.opens <;> exact hdev
  | write hpc hfd hrun => exact hdev.write hrun (by rfl)
  | readBack hpc hfd hrun =>
    obtain ⟨slots, lost, hrep⟩ := hdev
    obtain ⟨result, htotal, hu⟩ := aesdRead_total hrep c.read bufSize _
    rw [hrun] at htotal
    obtain rfl := Except.ok.inj htotal
    exact ⟨slots, lost, hu.represents hrep⟩
  | _ => exact hdev

end Loop

section Steps

variable {s s' : MainState} {t : Nat} {c : Choice} {l : MainLabel}

/-- The step is one of handler `t`. -/
def isOf (t : Nat) : MainLabel → Bool
  | .handler u _ => decide (u = t)
  | _ => false

/-- The statement of handler `t` that comes next. -/
def At (t : Nat) (pc : Pc) (s : MainState) : Prop :=
  (s.server.threads[t]?).map Thread.pc = some pc

theorem at_iff {pc : Pc} :
    At t pc s ↔ ∃ th, s.server.threads[t]? = some th ∧ th.pc = pc := Option.map_eq_some_iff

theorem At.pc_eq {pc : Pc} (hat : At t pc s) {th : Thread}
    (hth : s.server.threads[t]? = some th) : th.pc = pc := by
  obtain ⟨th', hth', hpc⟩ := at_iff.mp hat
  obtain rfl := Option.some.inj (hth.symm.trans hth')
  exact hpc

theorem eq_handler_of_isOf (h : isOf t l = true) : ∃ c, l = .handler t c := by
  cases l with
  | main c => cases h
  | signal => cases h
  | handler u c =>
    obtain rfl := of_decide_eq_true h
    exact ⟨c, rfl⟩

/-- A step of handler `t` in the whole server. -/
theorem own_inv (h : mainStep s (.handler t c) = .ok s') :
    ∃ th f', s.server.threads[t]? = some th ∧ handlerStep t c (s.server.frame th) = .ok f' ∧
      s'.server = s.server.update t f' := by
  obtain ⟨server, hserver, rfl⟩ := mainHandler_inv h
  obtain ⟨th, f', hth, hf, rfl⟩ := handler_inv hserver
  exact ⟨th, f', hth, hf, rfl⟩

/-- What `main` does to the handlers and the device: it starts a handler, or nothing. -/
theorem mainThreadStep_server {c : MainChoice} (h : mainThreadStep c s = .ok s') :
    s'.server.process.device = s.server.process.device ∧ s'.server.record = s.server.record ∧
      (s'.server.threads = s.server.threads ∨
        ∃ fd, s'.server.threads = s.server.threads ++ [startThread fd]) := by
  cases hpc : s.pc <;> simp only [mainThreadStep, hpc, Except.ok.injEq, reduceCtorEq] at h
  case accept =>
    obtain ⟨-, rfl⟩ | rfl := acceptStep_inv h
    · exact ⟨rfl, rfl, .inl rfl⟩
    · exact ⟨rfl, rfl, .inl rfl⟩
  case malloc =>
    subst h
    rw [mallocStep]
    split <;> exact ⟨rfl, rfl, .inl rfl⟩
  case create =>
    obtain ⟨nd, -, ⟨-, rfl⟩ | ⟨-, rfl⟩⟩ := createStep_inv h
    · exact ⟨rfl, rfl, .inr ⟨nd.value.connFd, rfl⟩⟩
    · exact ⟨rfl, rfl, .inl rfl⟩
  case join =>
    obtain ⟨a, nd, -, -, -, rfl⟩ := joinStep_inv h
    exact ⟨rfl, rfl, .inl rfl⟩
  case remove =>
    obtain ⟨a, r, -, -, rfl⟩ := removeStep_inv h
    exact ⟨rfl, rfl, .inl rfl⟩
  case free =>
    obtain ⟨a, -, rfl⟩ := freeStep_inv h
    exact ⟨rfl, rfl, .inl rfl⟩
  case advance =>
    obtain ⟨a, nd, -, -, rfl⟩ := advanceStep_inv h
    exact ⟨rfl, rfl, .inl rfl⟩
  all_goals exact h ▸ ⟨rfl, rfl, .inl rfl⟩

/-- The steps of others leave a handler as it is, or start it. -/
theorem others_thread (hl : isOf t l = false) (h : mainStep s l = .ok s') :
    s'.server.threads[t]? = s.server.threads[t]? ∨
      s.server.threads[t]? = none ∧ ∃ fd, s'.server.threads[t]? = some (startThread fd) := by
  cases l with
  | main c =>
    obtain ⟨-, -, hsame | ⟨fd, hmore⟩⟩ := mainThreadStep_server h
    · exact .inl (by rw [hsame])
    · rw [hmore]
      rcases getElem?_concat s.server.threads (startThread fd) t with hsame | ⟨-, hnone, hnew⟩
      · exact .inl hsame
      · exact .inr ⟨hnone, fd, hnew⟩
  | signal =>
    obtain rfl := (Except.ok.inj h).symm
    exact .inl rfl
  | handler u c =>
    obtain ⟨th, f', hth, -, hserver⟩ := own_inv h
    have hne : t ≠ u := by
      rintro rfl
      exact of_decide_eq_false hl rfl
    rw [hserver, getElem?_update hth, if_neg hne]
    exact .inl rfl

theorem others_at (hl : isOf t l = false) (h : mainStep s l = .ok s') {pc : Pc}
    (hat : At t pc s) : At t pc s' := by
  obtain ⟨th, hth, rfl⟩ := at_iff.mp hat
  rcases others_thread hl h with hsame | ⟨hnone, -⟩
  · exact at_iff.mpr ⟨th, hsame.trans hth, rfl⟩
  · rw [hth] at hnone
    cases hnone

theorem device_step {log₀ : Log} (hdev : DeviceOk log₀ s.server.process s.server.record)
    (h : mainStep s l = .ok s') : DeviceOk log₀ s'.server.process s'.server.record := by
  cases l with
  | main c =>
    obtain ⟨hdevice, hrecord, -⟩ := mainThreadStep_server h
    unfold DeviceOk
    rw [hdevice, hrecord]
    exact hdev
  | signal =>
    obtain rfl := (Except.ok.inj h).symm
    exact hdev
  | handler u c =>
    obtain ⟨th, f', -, hf, hserver⟩ := own_inv h
    rw [hserver]
    exact handlerStep_device hdev hf

theorem device_run {log₀ : Log} {device : DriverState} {slots : List Slot} {lost : Set Nat}
    (h : Represents device log₀ slots lost) {labels : List MainLabel}
    (hrun : run mainStep (startMain device) labels = .ok s) :
    DeviceOk log₀ s.server.process s.server.record :=
  run_invariant (I := fun s => DeviceOk log₀ s.server.process s.server.record)
    (fun _ _ _ hdev hstep => device_step hdev hstep) ⟨slots, lost, h⟩ hrun

end Steps

section Invariant

variable {s s' : MainState} {t : Nat} {l : MainLabel} {clean : Prop}

/-- Handler `t` carries out the statement `pc`. -/
def Issues (t : Nat) (pc : Pc) (s : MainState) (l : MainLabel) : Prop :=
  isOf t l = true ∧ At t pc s

/-- A `recv` of handler `t` reports the end of the stream, or an error other than `EAGAIN`. -/
def Ends (t : Nat) (s : MainState) (l : MainLabel) : Prop :=
  ∃ c, l = .handler t c ∧ At t .recv s ∧ ends c.recv = true

/-- Handler `t` is in its loop as long as no `recv` reported an end. -/
structure Looping (t : Nat) (s : MainState) (clean : Prop) : Prop where
  unborn : s.server.threads[t]? = none → clean
  thread : ∀ th, s.server.threads[t]? = some th →
    th.connClosed = hasLeft th.pc ∧ (hasLeft th.pc = true ↔ ¬clean)

theorem looping_start (t : Nat) (device : DriverState) : Looping t (startMain device) True where
  unborn := fun _ => trivial
  thread := by
    intro th hth
    cases hth

theorem Looping.step (h : Looping t s clean) (hstep : mainStep s l = .ok s') :
    Looping t s' (clean ∧ ¬Ends t s l) := by
  cases hl : isOf t l with
  | false =>
    have hnot : ¬Ends t s l := by
      rintro ⟨c, rfl, -⟩
      exact of_decide_eq_false hl rfl
    rw [and_iff_left hnot]
    rcases others_thread hl hstep with hsame | ⟨hnone, fd, hnew⟩
    · refine ⟨?_, ?_⟩
      · rw [hsame]
        exact h.unborn
      · rw [hsame]
        exact h.thread
    · refine ⟨fun _ => h.unborn hnone, ?_⟩
      intro th hth
      obtain rfl := Option.some.inj (hnew.symm.trans hth)
      exact ⟨rfl, iff_of_false nofun fun hnot => hnot (h.unborn hnone)⟩
  | true =>
    obtain ⟨c, rfl⟩ := eq_handler_of_isOf hl
    obtain ⟨th, f', hth, hf, hserver⟩ := own_inv hstep
    obtain ⟨hclosed, hleft⟩ := h.thread th hth
    obtain ⟨hclosed', hleft'⟩ := handlerStep_leaves hf hclosed
    have hends : Ends t s (.handler t c) ↔
        (decide (th.pc = .recv) && ends c.recv) = true := by
      rw [Bool.and_eq_true, decide_eq_true_eq]
      constructor
      · rintro ⟨c', heq, hat, hc'⟩
        obtain ⟨-, rfl⟩ := MainLabel.handler.inj heq
        exact ⟨hat.pc_eq hth, hc'⟩
      · exact fun ⟨hpc, hc⟩ => ⟨c, rfl, at_iff.mpr ⟨th, hth, hpc⟩, hc⟩
    have hnew : s'.server.threads[t]? = some f'.thread := by
      rw [hserver, getElem?_update hth, if_pos rfl]
    refine ⟨?_, ?_⟩
    · rw [hnew]
      exact nofun
    · intro th' hth'
      obtain rfl := Option.some.inj (hnew.symm.trans hth')
      refine ⟨hclosed', ?_⟩
      rw [hleft', Bool.or_eq_true, not_and_not_right, hends]
      show (hasLeft th.pc = true ∨ _) ↔ _
      rw [hleft]
      exact or_iff_not_imp_left.trans (by rw [not_not]; rfl)

theorem looping_run {device : DriverState} {labels : List MainLabel}
    (hrun : run mainStep (startMain device) labels = .ok s) :
    Looping t s (True ∧ Along mainStep (fun m l => ¬Ends t m l) (startMain device) labels) :=
  run_along (I := Looping t) (fun _ _ _ _ h hstep => h.step hstep) (looping_start t device) hrun

end Invariant

section Stopping

variable {s s' : MainState} {t : Nat} {labels : List MainLabel}

/-- `main` waits in `pthread_join` for handler `t`. -/
def WaitsFor (t : Nat) (s : MainState) : Prop :=
  s.pc = .join ∧ ∃ a nd, s.np = some a ∧ s.nodes[a]? = some nd ∧ nd.value.tid = some t

theorem waitsFor_step (h : WaitsFor t s) {pc : Pc} (hat : At t pc s) (c : MainChoice) :
    mainStep s (.main c) = .error .blocked ↔ pc ≠ .done := by
  obtain ⟨hpc, a, nd, hnp, hnd, htid⟩ := h
  obtain ⟨th, hth, rfl⟩ := at_iff.mp hat
  have hjoinable : joinable s.server.threads nd.value.tid = decide (th.pc = .done) := by
    rw [joinable, htid, Option.bind_some, hth]
    rfl
  have hnode : (s.np.bind fun a => s.nodes[a]?.map fun nd => (a, nd)) = some (a, nd) := by
    rw [hnp, Option.bind_some, hnd]
    rfl
  simp only [mainStep, mainThreadStep, hpc, joinStep, hnode, hjoinable, decide_eq_true_eq]
  split_ifs with hdone
  · refine iff_of_false ?_ (not_not_intro hdone)
    intro heq
    cases heq
  · exact iff_of_true rfl hdone

/-- From here on handler `t` receives and writes nothing, and some number of its steps brings it to
its end, where no `pthread_join` has to wait for it. -/
structure Stops (t : Nat) (s : MainState) : Prop where
  noRecv : ∀ labels s', run mainStep s labels = .ok s' →
    Along mainStep (fun m l => ¬Issues t .recv m l) s labels
  noWrite : ∀ labels s', run mainStep s labels = .ok s' →
    Along mainStep (fun m l => ¬Issues t .write m l) s labels
  returns : ∃ n, ∀ labels s', run mainStep s labels = .ok s' → n ≤ labels.countP (isOf t) →
    At t .done s' ∧ (WaitsFor t s' → ∀ c, mainStep s' (.main c) ≠ .error .blocked)

/-- Handler `t` is out of its loop. -/
def HasLeft (t : Nat) (s : MainState) : Prop := At t .closeConn s ∨ At t .done s

theorem hasLeft_iff :
    HasLeft t s ↔ ∃ th, s.server.threads[t]? = some th ∧ hasLeft th.pc = true := by
  constructor
  · rintro (hat | hat) <;>
    · obtain ⟨th, hth, hpc⟩ := at_iff.mp hat
      refine ⟨th, hth, ?_⟩
      rw [hpc]
      rfl
  · rintro ⟨th, hth, hout⟩
    cases hpc : th.pc <;> rw [hpc] at hout
    case closeConn => exact .inl (at_iff.mpr ⟨th, hth, hpc⟩)
    case done => exact .inr (at_iff.mpr ⟨th, hth, hpc⟩)
    all_goals cases hout

theorem HasLeft.step (h : HasLeft t s) {l : MainLabel} (hstep : mainStep s l = .ok s') :
    HasLeft t s' ∧ (isOf t l = true → At t .done s') ∧ (At t .done s → At t .done s') := by
  cases hl : isOf t l with
  | false =>
    exact ⟨h.imp (others_at hl hstep) (others_at hl hstep), nofun, others_at hl hstep⟩
  | true =>
    obtain ⟨c, rfl⟩ := eq_handler_of_isOf hl
    obtain ⟨th, f', hth, hf, hserver⟩ := own_inv hstep
    have hdone : At t .done s' := by
      have hpc : th.pc = .closeConn := by
        rcases h with hat | hat
        · exact hat.pc_eq hth
        · simp only [handlerStep, ServerState.frame, hat.pc_eq hth, reduceCtorEq] at hf
      have hclose : f'.thread.pc = .done := by
        simp only [handlerStep, ServerState.frame, hpc] at hf
        obtain rfl := Except.ok.inj hf
        rfl
      refine at_iff.mpr ⟨f'.thread, ?_, hclose⟩
      rw [hserver, getElem?_update hth, if_pos rfl]
    exact ⟨.inr hdone, fun _ => hdone, fun _ => hdone⟩

theorem HasLeft.not_issues (h : HasLeft t s) {pc : Pc} (hpc : hasLeft pc = false) (l : MainLabel) :
    ¬Issues t pc s l := by
  rintro ⟨-, hat⟩
  obtain ⟨th, hth, rfl⟩ := at_iff.mp hat
  rcases h with hout | hout <;>
  · rw [hout.pc_eq hth] at hpc
    cases hpc

theorem HasLeft.run (h : HasLeft t s) (hrun : run mainStep s labels = .ok s') :
    (At t .done s → At t .done s') ∧ (1 ≤ labels.countP (isOf t) → At t .done s') := by
  induction labels generalizing s with
  | nil =>
    obtain rfl : s = s' := by simpa using hrun
    exact ⟨id, fun hmany => absurd hmany (Nat.not_succ_le_zero 0)⟩
  | cons l labels ih =>
    obtain ⟨m, hm, hrest⟩ := run_cons_inv hrun
    obtain ⟨hleft, hown, hkept⟩ := h.step hm
    obtain ⟨hdone, hmore⟩ := ih hleft hrest
    refine ⟨fun hat => hdone (hkept hat), fun hmany => ?_⟩
    by_cases hl : isOf t l = true
    · exact hdone (hown hl)
    · rw [List.countP_cons_of_neg hl] at hmany
      exact hmore hmany

/-- A handler that is out of its loop stops. -/
theorem HasLeft.stops (h : HasLeft t s) : Stops t s where
  noRecv := fun labels _ _ =>
    along_of_invariant (fun _ _ _ hm hstep => (HasLeft.step hm hstep).1)
      (fun _ l hm => hm.not_issues rfl l) h labels
  noWrite := fun labels _ _ =>
    along_of_invariant (fun _ _ _ hm hstep => (HasLeft.step hm hstep).1)
      (fun _ l hm => hm.not_issues rfl l) h labels
  returns := by
    refine ⟨1, fun labels s' hrun hmany => ?_⟩
    have hdone := (h.run hrun).2 hmany
    refine ⟨hdone, fun hwaits c hblocked => ?_⟩
    exact (waitsFor_step hwaits hdone c).mp hblocked rfl

end Stopping

section Going

variable {s s' : MainState} {t : Nat} {th : Thread}

/-- The steps of one handler, as a machine of its own. -/
def ownStep (t : Nat) (f : Frame) (c : Choice) : Except Refusal Frame := handlerStep t c f

theorem update_frame (hth : s.server.threads[t]? = some th) :
    s.server.update t (s.server.frame th) = s.server := by
  have hset : s.server.threads.set t th = s.server.threads := by
    obtain ⟨hlt, rfl⟩ := List.getElem?_eq_some_iff.mp hth
    exact List.set_getElem_self hlt
  rw [ServerState.update, ServerState.frame, hset]

/-- A handler that runs alone. -/
theorem own_run {choices : List Choice} {f : Frame} (hth : s.server.threads[t]? = some th)
    (hrun : run (ownStep t) (s.server.frame th) choices = .ok f) :
    ∃ s', run mainStep s (choices.map (MainLabel.handler t)) = .ok s' ∧
      s'.server = s.server.update t f ∧ s'.pc = s.pc ∧ s'.np = s.np ∧ s'.nodes = s.nodes := by
  induction choices generalizing s th with
  | nil =>
    obtain rfl : s.server.frame th = f := by simpa using hrun
    exact ⟨s, rfl, (update_frame hth).symm, rfl, rfl, rfl⟩
  | cons c choices ih =>
    obtain ⟨f₁, hf₁, hrest⟩ := run_cons_inv hrun
    have hstep : serverStep s.server (.handler t c) = .ok (s.server.update t f₁) := by
      simp only [serverStep, hth]
      rw [ownStep] at hf₁
      rw [hf₁]
    obtain ⟨s₁, hs₁, hserver₁, hpc₁, hnp₁, hnodes₁⟩ : ∃ s₁, mainStep s (.handler t c) = .ok s₁ ∧
        s₁.server = s.server.update t f₁ ∧ s₁.pc = s.pc ∧ s₁.np = s.np ∧ s₁.nodes = s.nodes := by
      simp only [mainStep, hstep]
      exact ⟨_, rfl, rfl, rfl, rfl, rfl⟩
    have hth₁ : s₁.server.threads[t]? = some f₁.thread := by
      rw [hserver₁, getElem?_update hth, if_pos rfl]
    have hframe : s₁.server.frame f₁.thread = f₁ := by
      rw [hserver₁]
      rfl
    rw [← hframe] at hrest
    obtain ⟨s', hrun', hserver', hpc', hnp', hnodes'⟩ := ih hth₁ hrest
    refine ⟨s', ?_, ?_, hpc'.trans hpc₁, hnp'.trans hnp₁, hnodes'.trans hnodes₁⟩
    · rw [List.map_cons, run_cons_ok hs₁, hrun']
    · rw [hserver', hserver₁]
      simp only [ServerState.update, List.set_set]

/-- `recv` finds nothing. -/
def idle : Choice := ⟨.again, true, ⟨fun _ => true, 0⟩, ⟨true, bufSize⟩, 0⟩

/-- `recv` finds a chunk, and nothing fails. -/
def speak (chunk : Chunk) : Choice :=
  ⟨.data chunk, true, ⟨fun _ => true, bufSize⟩, ⟨true, bufSize⟩, bufSize⟩

/-- An idle poll leads back to `recv`, and changes nothing. -/
theorem idle_run {f : Frame} (hpc : f.thread.pc = .recv) (hopen : f.thread.connClosed = false)
    (n : Nat) : run (ownStep t) f (List.replicate (2 * n) idle) = .ok f := by
  induction n with
  | zero => rfl
  | succ n ih =>
    have hpoll : ownStep t f idle = .ok { f with thread := { f.thread with pc := .loopTest } } := by
      simp only [ownStep, handlerStep, hpc]
      rfl
    have htest : ownStep t { f with thread := { f.thread with pc := .loopTest } } idle = .ok f := by
      obtain ⟨process, thread, record⟩ := f
      obtain ⟨connFd, connClosed, pc, recvBuf, writeFd, localReadFd, sendBuf, ticket, sent⟩ := thread
      obtain rfl : pc = .recv := hpc
      obtain rfl : connClosed = false := hopen
      simp [ownStep, handlerStep, loopTest]
    rw [Nat.mul_add, List.replicate_succ, List.replicate_succ, run_cons_ok hpoll, run_cons_ok htest,
      ih]

/-- With the lock free, a handler at `recv` writes what its client sends, as far as the device
accepts it. -/
theorem speak_run {log₀ : Log} {f : Frame} (hdev : DeviceOk log₀ f.process f.record)
    (hpc : f.thread.pc = .recv) (hfree : f.process.fmutex = none) (chunk : Chunk) :
    ∃ f' n, run (ownStep t) f (List.replicate 4 (speak chunk)) = .ok f' ∧
      f'.record.writes = f.record.writes ++ [(t, chunk.bytes.take n)] ∧
      (f.process.device.dev.currInput.size + chunk.bytes.length < kmallocLimit →
        n = chunk.bytes.length) := by
  obtain ⟨slots, lost, hrep⟩ := hdev
  obtain ⟨device, slots', hwrite, -⟩ := aesdWrite_exact hrep (speak chunk).write chunk.bytes
  have hrecv : ownStep t f (speak chunk) = .ok (recvStep t (.data chunk) f) := by
    simp only [ownStep, handlerStep, hpc, speak]
  obtain ⟨f₂, hlock, hpc₂, hbuf₂, hdevice₂, hwrites₂⟩ :
      ∃ f₂, ownStep t (recvStep t (.data chunk) f) (speak chunk) = .ok f₂ ∧
        f₂.thread.pc = .openWrite ∧ f₂.thread.recvBuf = chunk.bytes ∧
        f₂.process.device = f.process.device ∧ f₂.record.writes = f.record.writes := by
    simp only [ownStep, handlerStep, recvStep, lockStep, hfree, if_true]
    exact ⟨_, rfl, rfl, rfl, rfl, rfl⟩
  have hopen : ownStep t f₂ (speak chunk) = .ok (openWriteStep true f₂) := by
    simp only [ownStep, handlerStep, hpc₂, speak]
  have hfd : (openWriteStep true f₂).process.table.lookup (openWriteStep true f₂).thread.writeFd =
      some (.device 0) := Table.lookup_install_self _ _
  obtain ⟨f₄, hfinal, hwrites₄⟩ : ∃ f₄, ownStep t (openWriteStep true f₂) (speak chunk) = .ok f₄ ∧
      f₄.record.writes = f₂.record.writes ++ [(t, chunk.bytes.take (writeReturn (speak chunk).write
        chunk.bytes f.process.device.dev.currInput.size).toNat)] := by
    have hdevice : (openWriteStep true f₂).process.device = f.process.device := hdevice₂
    have hbuf : (openWriteStep true f₂).thread.recvBuf = chunk.bytes := hbuf₂
    have hpc₃ : (openWriteStep true f₂).thread.pc = .write := rfl
    simp only [ownStep, handlerStep, hpc₃, writeStep, hfd, hdevice, hbuf, hwrite]
    exact ⟨_, rfl, rfl⟩
  refine ⟨f₄, _, ?_, hwrites₂ ▸ hwrites₄, fun hroom => ?_⟩
  · rw [List.replicate_succ, run_cons_ok hrecv, List.replicate_succ, run_cons_ok hlock,
      List.replicate_succ, run_cons_ok hopen, List.replicate_succ, run_cons_ok hfinal]
    rfl
  · have hall : writeReturn (speak chunk).write chunk.bytes
        f.process.device.dev.currInput.size = (chunk.bytes.length : Nat) :=
      (writeReturn_eq_length_iff _ _ _).mpr ⟨.inr ⟨rfl, hroom⟩, chunk.bounded, fun _ _ _ => rfl⟩
    rw [hall, Int.toNat_natCast]

/-- The next step of a handler at `recv` is that `recv`, whatever the others do meanwhile. -/
theorem recv_next {labels : List MainLabel} (hat : At t .recv s)
    (hrun : run mainStep s labels = .ok s')
    (halong : Along mainStep (fun m l => ¬Issues t .recv m l) s labels) :
    labels.countP (isOf t) = 0 := by
  induction labels generalizing s with
  | nil => rfl
  | cons l labels ih =>
    obtain ⟨m, hm, hrest⟩ := run_cons_inv hrun
    obtain ⟨hfirst, halong⟩ := (along_cons hm).mp halong
    cases hl : isOf t l with
    | true => exact absurd ⟨hl, hat⟩ hfirst
    | false =>
      rw [List.countP_cons_of_neg (by rw [hl]; exact Bool.false_ne_true)]
      exact ih (others_at hl hm hat) hrest halong

/-- From here on handler `t` is no different from one that nobody asked to stop: its next step is
a `recv`, idle polls keep it and a `pthread_join` waiting for it where they are, and it writes what
its client sends. -/
structure Ignores (t : Nat) (s : MainState) : Prop where
  receives : ∀ labels s', run mainStep s labels = .ok s' → 1 ≤ labels.countP (isOf t) →
    ¬Along mainStep (fun m l => ¬Issues t .recv m l) s labels
  polls : ∀ n, ∃ labels s', run mainStep s labels = .ok s' ∧ labels.countP (isOf t) = 2 * n ∧
    s'.server = s.server ∧ (WaitsFor t s → ∀ c, mainStep s' (.main c) = .error .blocked)
  writes : s.server.process.fmutex = none → ∀ chunk : Chunk, ∃ labels s' n,
    run mainStep s labels = .ok s' ∧
    s'.server.record.writes = s.server.record.writes ++ [(t, chunk.bytes.take n)] ∧
    (s.server.process.device.dev.currInput.size + chunk.bytes.length < kmallocLimit →
      n = chunk.bytes.length)

theorem countP_own (t : Nat) (choices : List Choice) :
    (choices.map (MainLabel.handler t)).countP (isOf t) = choices.length := by
  rw [List.countP_eq_length.mpr, List.length_map]
  intro l hl
  obtain ⟨c, -, rfl⟩ := List.mem_map.mp hl
  exact decide_eq_true rfl

theorem ignores_of_recv {log₀ : Log} (hdev : DeviceOk log₀ s.server.process s.server.record)
    (hth : s.server.threads[t]? = some th) (hpc : th.pc = .recv) (hopen : th.connClosed = false) :
    Ignores t s where
  receives := by
    intro labels s' hrun hmany halong
    rw [recv_next (at_iff.mpr ⟨th, hth, hpc⟩) hrun halong] at hmany
    exact Nat.not_succ_le_zero 0 hmany
  polls := by
    intro n
    obtain ⟨s', hrun, hserver, hmain, hnp, hnodes⟩ :=
      own_run hth (idle_run (t := t) (f := s.server.frame th) hpc hopen n)
    rw [update_frame hth] at hserver
    refine ⟨_, s', hrun, ?_, hserver, ?_⟩
    · rw [countP_own, List.length_replicate]
    · rintro ⟨hjoin, a, nd, hit⟩ c
      have hwaits : WaitsFor t s' := by
        refine ⟨hmain.trans hjoin, a, nd, ?_⟩
        rw [hnp, hnodes]
        exact hit
      have hat : At t .recv s' := by
        rw [At, hserver]
        exact at_iff.mpr ⟨th, hth, hpc⟩
      exact (waitsFor_step hwaits hat c).mpr (by decide)
  writes := by
    intro hfree chunk
    obtain ⟨f', n, hrun, hwrites, hroom⟩ :=
      speak_run (t := t) (f := s.server.frame th) hdev hpc hfree chunk
    obtain ⟨s', hrun', hserver, -⟩ := own_run hth hrun
    refine ⟨_, s', n, hrun', ?_, hroom⟩
    rw [hserver]
    exact hwrites

end Going

section Results

variable {s s' : MainState} {t : Nat}

/-- Handler `t` evaluates its loop test with `CLOSE_SERVER` set. -/
def TestsRequest (t : Nat) (s : MainState) (l : MainLabel) : Prop :=
  Issues t .loopTest s l ∧ s.server.process.closeServer = true

/-- The loop test leads to `recv`, with or without a request. -/
theorem Looping.test {clean : Prop} (h : Looping t s clean) {l : MainLabel}
    (htest : Issues t .loopTest s l) (hstep : mainStep s l = .ok s') :
    ∃ th, s'.server.threads[t]? = some th ∧ th.pc = .recv ∧ th.connClosed = false := by
  obtain ⟨hl, hat⟩ := htest
  obtain ⟨c, rfl⟩ := eq_handler_of_isOf hl
  obtain ⟨th, f', hth, hf, hserver⟩ := own_inv hstep
  have hpc := hat.pc_eq hth
  have hopen : th.connClosed = false := by
    rw [(h.thread th hth).1, hpc]
    rfl
  simp only [handlerStep, ServerState.frame, hpc, loopTest, hopen, Bool.not_false, Bool.or_true,
    if_true] at hf
  obtain rfl := Except.ok.inj hf
  rw [hserver, getElem?_update hth, if_pos rfl]
  exact ⟨_, rfl, by rfl, by rfl⟩

theorem Ignores.not_stops (h : Ignores t s) : ¬Stops t s := by
  intro hstops
  obtain ⟨labels, s', hrun, hcount, -⟩ := h.polls 1
  apply h.receives labels s' hrun
  · rw [hcount]
    decide
  · exact hstops.noRecv labels s' hrun

/-- In every run of the server, with any outcomes of all calls and the signal at any step: a handler
stops as a shutdown asks exactly where its loop test is never evaluated with `CLOSE_SERVER` set;
such a test changes nothing. A handler is out of its loop if and only if one of its `recv` calls
reported the end of the stream or an error, and then it stops. -/
theorem request_unheeded (calls : List Call) :
    ∃ device, run callStep aesdInitModule calls = .ok device ∧
      ∀ labels s, run mainStep (startMain device) labels = .ok s → ∀ t,
        (Along mainStep (fun m l => TestsRequest t m l →
            ∀ m', mainStep m l = .ok m' → Stops t m') (startMain device) labels ↔
          Along mainStep (fun m l => ¬TestsRequest t m l) (startMain device) labels) ∧
        (∀ l s', TestsRequest t s l → mainStep s l = .ok s' → Ignores t s') ∧
        (HasLeft t s ↔ ¬Along mainStep (fun m l => ¬Ends t m l) (startMain device) labels) ∧
        (HasLeft t s → Stops t s) := by
  obtain ⟨device, hcalls, log₀, slots, lost, hrep⟩ := runCalls calls
  have hignores : ∀ labels s, run mainStep (startMain device) labels = .ok s → ∀ t l s',
      TestsRequest t s l → mainStep s l = .ok s' → Ignores t s' := by
    intro labels s hrun t l s' htest hstep
    obtain ⟨th, hth, hpc, hopen⟩ := (looping_run (t := t) hrun).test htest.1 hstep
    exact ignores_of_recv (device_step (device_run hrep hrun) hstep) hth hpc hopen
  refine ⟨device, hcalls, fun labels s hrun t => ⟨⟨?_, ?_⟩, hignores labels s hrun t, ?_,
    HasLeft.stops⟩⟩
  · intro hstops
    by_contra hnot
    obtain ⟨pre, l, post, m, rfl, hpre, htest⟩ := exists_split_of_not_along hnot
    rw [not_not] at htest
    obtain ⟨m₀, hm₀, hrest⟩ := run_append_inv hrun
    obtain rfl := Except.ok.inj (hpre.symm.trans hm₀)
    obtain ⟨m', hm', -⟩ := run_cons_inv hrest
    have hstopped := along_at hstops hpre htest m' hm'
    exact (hignores pre m hpre t l m' htest hm').not_stops hstopped
  · exact along_mono fun m l hnot htest => absurd htest hnot
  · have h := looping_run (t := t) hrun
    rw [true_and] at h
    constructor
    · intro hleft
      obtain ⟨th, hth, hout⟩ := hasLeft_iff.mp hleft
      exact (h.thread th hth).2.mp hout
    · intro hended
      cases hth : s.server.threads[t]? with
      | none => exact absurd (h.unborn hth) hended
      | some th => exact hasLeft_iff.mpr ⟨th, hth, (h.thread th hth).2.mpr hended⟩

/-- `main` takes one connection, and the signal arrives. -/
def requested : List MainLabel := List.replicate 6 (.main smooth) ++ [.signal]

/-- The client sends a line. -/
def line : Choice := speak (.line 104)

set_option maxRecDepth 20000 in
/-- Behind a loop test with `CLOSE_SERVER` set, the line of the client goes to the device, and
`pthread_join` waits. -/
theorem writes_after_request :
    ∃ m m' s, run mainStep (startMain aesdInitModule) requested = .ok m ∧
      TestsRequest 0 m (.handler 0 line) ∧ mainStep m (.handler 0 line) = .ok m' ∧ ¬Stops 0 m' ∧
      run mainStep m' (List.replicate 4 (.handler 0 line) ++ List.replicate 2 (.main smooth)) =
        .ok s ∧
      s.server.record.writes = [(0, [104, 10])] ∧
      ∀ c, mainStep s (.main c) = .error .blocked := by
  refine ⟨_, _, _, rfl, ⟨⟨rfl, rfl⟩, rfl⟩, rfl, ?_, rfl, rfl, fun _ => rfl⟩
  intro hstops
  have hnone := hstops.noRecv [.handler 0 line] _ rfl
  exact hnone.1 ⟨rfl, rfl⟩

end Results

end Aesd.Server.Shutdown
