/- Aesd/Server/Termination
   layer: system
   digest: The server is never stuck, and a shutdown ends once every client has hung up. -/

import Aesd.Foundation.Ranking
import Aesd.Server.Accounts
import Aesd.Server.ConnectionList
import Aesd.Server.LockBalance
import Aesd.Server.Shutdown

set_option autoImplicit false
set_option relaxedAutoImplicit false

namespace Aesd.Server.Termination

open Aesd.Foundation.DescriptorTable
open Aesd.Foundation.LinkedList
open Aesd.Foundation.Ranking
open Aesd.Foundation.RecordLog
open Aesd.Foundation.Run
open Aesd.Driver.Device
open Aesd.Driver.LogRelation
open Aesd.Driver.ReadCorrect
open Aesd.Driver.WriteCorrect
open Aesd.Driver.Ownership
open Aesd.Server.Handler
open Aesd.Server.Safety
open Aesd.Server.MainLoop
open Aesd.Server.ConnectionList
open Aesd.Server.Accounts
open Aesd.Server.LockBalance
open Aesd.Server.Shutdown

section Lock

variable {t : Nat} {c : Choice} {f f' : Frame}

/-- A step that is neither a lock nor an unlock. -/
theorem lock_of_eq (hmutex : f'.process.fmutex = f.process.fmutex)
    (hpc : holdsLock f'.thread.pc = holdsLock f.thread.pc)
    (hlock : holdsLock f.thread.pc = true ↔ f.process.fmutex = some t) :
    (holdsLock f'.thread.pc = true ↔ f'.process.fmutex = some t) ∧
      ∀ u, u ≠ t → (f'.process.fmutex = some u ↔ f.process.fmutex = some u) := by
  rw [hmutex, hpc]
  exact ⟨hlock, fun _ _ => Iff.rfl⟩

/-- An unlock by the holder. -/
theorem lock_of_release (hmine : f.process.fmutex = some t) (hmutex : f'.process.fmutex = none)
    (hpc : holdsLock f'.thread.pc = false) :
    (holdsLock f'.thread.pc = true ↔ f'.process.fmutex = some t) ∧
      ∀ u, u ≠ t → (f'.process.fmutex = some u ↔ f.process.fmutex = some u) := by
  rw [hmutex, hpc, hmine]
  refine ⟨by simp, fun u hu => ?_⟩
  simp [hu.symm]

/-- Whatever its numbers refer to, a handler holds the lock exactly where its code says so, and it
takes the lock from nobody. -/
theorem handlerStep_lock (h : handlerStep t c f = .ok f')
    (hlock : holdsLock f.thread.pc = true ↔ f.process.fmutex = some t) :
    (holdsLock f'.thread.pc = true ↔ f'.process.fmutex = some t) ∧
      ∀ u, u ≠ t → (f'.process.fmutex = some u ↔ f.process.fmutex = some u) := by
  cases handlerStep_inv h with
  | loopTest hpc =>
    refine lock_of_eq (by rfl) ?_ hlock
    rw [hpc, loopTest]
    split <;> simp [holdsLock]
  | recv hpc =>
    refine lock_of_eq (by cases c.recv <;> simp [recvStep]) ?_ hlock
    rw [hpc]
    cases c.recv <;> simp [recvStep, holdsLock]
  | lock hpc hfree =>
    refine ⟨by simp [holdsLock], fun u hu => ?_⟩
    simp [hfree, hu.symm]
  | openWrite hpc =>
    refine lock_of_eq ?_ ?_ hlock
    · cases c.opens <;> simp [openWriteStep]
    · rw [hpc]
      cases c.opens <;> simp [openWriteStep, holdsLock]
  | openRead hpc =>
    refine lock_of_eq ?_ ?_ hlock
    · cases c.opens <;> simp [openReadStep]
    · rw [hpc]
      cases c.opens <;> simp [openReadStep, holdsLock]
  | readBack hpc hfd hrun =>
    refine lock_of_eq (by rfl) ?_ hlock
    dsimp only
    rw [hpc]
    split <;> simp [holdsLock]
  | unlock hpc =>
    rw [hpc] at hlock
    exact lock_of_release (hlock.mp rfl) (by rfl) (by simp [unlockStep, holdsLock])
  | unlockContinue hpc =>
    rw [hpc] at hlock
    exact lock_of_release (hlock.mp rfl) (by rfl) (by simp [unlockContinueStep, holdsLock])
  | closeWrite hpc => exact lock_of_eq rfl (by simp [closeWriteStep, hpc, holdsLock]) hlock
  | closeRead hpc => exact lock_of_eq rfl (by simp [closeReadStep, hpc, holdsLock]) hlock
  | closeConn hpc => exact lock_of_eq rfl (by simp [closeConnStep, hpc, holdsLock]) hlock
  | _ hpc => exact lock_of_eq rfl (by simp [hpc, holdsLock]) hlock

/-- The holder of the lock is the one handler that stands between a lock and an unlock. -/
structure Locked (s : ServerState) : Prop where
  holder : ∀ t, s.process.fmutex = some t → t < s.threads.length
  thread : ∀ t th, s.threads[t]? = some th →
    (holdsLock th.pc = true ↔ s.process.fmutex = some t)

end Lock

section Devices

variable {t : Nat} {c : Choice} {f f' : Frame} {p p' : Process}

/-- The device is the same, and no number refers to it that did not before. -/
structure Narrows (p p' : Process) : Prop where
  device : p'.device = p.device
  files : ∀ fd pos, p'.table.lookup fd = some (.device pos) →
    p.table.lookup fd = some (.device pos)

theorem Narrows.of_eq (hdevice : p'.device = p.device) (htable : p'.table = p.table) :
    Narrows p p' :=
  ⟨hdevice, fun _ _ h => htable ▸ h⟩

theorem Narrows.close {fd : Nat} (hdevice : p'.device = p.device)
    (htable : p'.table = p.table.close fd) : Narrows p p' := by
  refine ⟨hdevice, fun fd' pos h => ?_⟩
  rw [htable] at h
  by_cases heq : fd' = fd
  · rw [heq, Table.lookup_close_self] at h
    cases h
  · rwa [Table.lookup_close_of_ne heq] at h

theorem Narrows.install {x : OpenFile} (hx : ∀ pos, x ≠ .device pos)
    (hdevice : p'.device = p.device) (htable : p'.table = p.table.install x) :
    Narrows p p' := by
  refine ⟨hdevice, fun fd pos h => ?_⟩
  rw [htable] at h
  by_cases heq : fd = p.table.lowestFree
  · rw [heq, Table.lookup_install_self] at h
    exact absurd (Option.some.inj h) (hx pos)
  · rwa [Table.lookup_install_of_ne x heq] at h

/-- Outside its critical section a handler does not touch the device. -/
theorem handlerStep_narrows (h : handlerStep t c f = .ok f')
    (hout : holdsLock f.thread.pc = false) : Narrows f.process f'.process := by
  cases handlerStep_inv h with
  | loopTest hpc => exact .of_eq rfl rfl
  | recv hpc => exact .of_eq (by cases c.recv <;> rfl) (by cases c.recv <;> rfl)
  | lock hpc hfree => exact .of_eq rfl rfl
  | closeConn hpc => exact .close rfl rfl
  | _ hpc => simp [hpc, holdsLock] at hout

/-- What `main` does to what it shares with the handlers. -/
structure MainShares (s s' : MainState) : Prop where
  narrows : Narrows s.server.process s'.server.process
  mutex : s'.server.process.fmutex = s.server.process.fmutex
  closed : s.server.process.closeServer = true → s'.server.process.closeServer = true

theorem mainThreadStep_shares {s s' : MainState} {c : MainChoice}
    (h : mainThreadStep c s = .ok s') : MainShares s s' := by
  have hsame : s'.server.process = s.server.process → MainShares s s' := fun heq =>
    ⟨.of_eq (by rw [heq]) (by rw [heq]), by rw [heq], by rw [heq]; exact id⟩
  cases hpc : s.pc <;> simp only [mainThreadStep, hpc, Except.ok.injEq, reduceCtorEq] at h
  case accept =>
    obtain ⟨-, rfl⟩ | rfl := acceptStep_inv h
    · exact ⟨.install (fun pos => by simp) rfl rfl, rfl, id⟩
    · exact ⟨.of_eq rfl rfl, rfl, id⟩
  case closeSock => exact h ▸ ⟨.close rfl rfl, rfl, id⟩
  case malloc =>
    apply hsame
    subst h
    rw [mallocStep]
    split <;> rfl
  case create =>
    obtain ⟨nd, -, ⟨-, rfl⟩ | ⟨-, rfl⟩⟩ := createStep_inv h
    · exact hsame rfl
    · exact ⟨.of_eq rfl rfl, rfl, fun _ => rfl⟩
  case join =>
    obtain ⟨a, nd, -, -, -, rfl⟩ := joinStep_inv h
    exact hsame rfl
  case remove =>
    obtain ⟨a, r, -, -, rfl⟩ := removeStep_inv h
    exact hsame rfl
  case free =>
    obtain ⟨a, -, rfl⟩ := freeStep_inv h
    exact hsame rfl
  case advance =>
    obtain ⟨a, nd, -, -, rfl⟩ := advanceStep_inv h
    exact hsame rfl
  all_goals exact hsame (h ▸ rfl)

end Devices

section Rank

variable {log₀ : Log} {t : Nat} {c : Choice} {f f' : Frame} {p p' : Process} {th : Thread}
  {bound bound' : Nat}

/-- An upper bound for the steps that a handler still takes once its client has hung up, where no
reader has more than `bound` bytes before it. -/
def handlerRank (bound : Nat) (p : Process) (th : Thread) : Nat :=
  match th.pc with
  | .done => 0
  | .closeConn => 1
  | .recv => 2
  | .loopTest => 3
  | .unlock | .unlockContinue => 4
  | .closeRead => 5
  | .closeWrite => 6
  | .readBack => 2 * leftToRead p th + 7
  | .send => 2 * leftToRead p th + 8
  | .openRead => 2 * bound + 8
  | .write => 2 * bound + 9
  | .openWrite => 2 * bound + 10
  | .lock => 2 * bound + 11

theorem leftToRead_narrows (h : Narrows p p') (th : Thread) :
    leftToRead p' th ≤ leftToRead p th := by
  rw [leftToRead]
  split
  next pos hfd =>
    rw [leftToRead_eq (h.files _ _ hfd), h.device]
  next => exact Nat.zero_le _

theorem handlerRank_narrows (h : Narrows p p') (hbound : bound' ≤ bound) (th : Thread) :
    handlerRank bound' p' th ≤ handlerRank bound p th := by
  have hleft := leftToRead_narrows h th
  cases hpc : th.pc <;> simp only [handlerRank, hpc] <;> omega

/-- Outside its critical section a handler has nothing to read. -/
theorem handlerRank_outside (hout : holdsLock th.pc = false) (hbound : bound' ≤ bound) :
    handlerRank bound' p' th ≤ handlerRank bound p th := by
  cases hpc : th.pc <;> simp only [hpc, holdsLock, reduceCtorEq] at hout <;>
    simp only [handlerRank, hpc] <;> omega

/-- The bytes that the device has accepted, and the received ones that it may still be given. -/
def handled (r : Record) (th : Thread) : Nat := (stream r).length + (inHand (some th)).length

theorem handled_of_eq (hwrites : f'.record.writes = f.record.writes)
    (hhand : (inHand (some f'.thread)).length ≤ (inHand (some f.thread)).length) :
    handled f'.record f'.thread ≤ handled f.record f.thread := by
  have hstream : stream f'.record = stream f.record := by rw [stream, stream, hwrites]
  rw [handled, handled, hstream]
  omega

/-- Without a new chunk there is nothing new to handle. -/
theorem handlerStep_handled (h : handlerStep t c f = .ok f')
    (hends : f.thread.pc = .recv → ends c.recv = true) :
    handled f'.record f'.thread ≤ handled f.record f.thread := by
  cases handlerStep_inv h with
  | loopTest hpc =>
    apply handled_of_eq (by rfl)
    rw [loopTest]
    split <;> simp [inHand]
  | recv hpc =>
    have hend := hends hpc
    cases hc : c.recv <;> simp only [hc, ends, reduceCtorEq] at hend
    · exact handled_of_eq rfl (Nat.zero_le _)
    · exact handled_of_eq rfl (Nat.zero_le _)
  | lock hpc hfree => exact handled_of_eq rfl (by simp [inHand, hpc])
  | openWrite hpc =>
    apply handled_of_eq (by cases c.opens <;> rfl)
    cases c.opens <;> simp [openWriteStep, inHand, hpc]
  | openRead hpc =>
    apply handled_of_eq (by cases c.opens <;> rfl)
    cases c.opens <;> simp [openReadStep, inHand]
  | @write pos nmemWritten device hpc hfd hrun =>
    have htake := List.length_take_le nmemWritten.toNat f.thread.recvBuf
    have htake' := List.length_take_le' nmemWritten.toNat f.thread.recvBuf
    simp only [handled, stream, inHand, hpc, List.flatMap_append, List.flatMap_singleton,
      List.length_append, List.length_nil]
    omega
  | readBack hpc hfd hrun =>
    apply handled_of_eq (by rfl)
    dsimp only
    split <;> simp [inHand]
  | _ hpc => exact handled_of_eq rfl (by simp [inHand, hpc, closeWriteStep, closeReadStep,
      unlockStep, unlockContinueStep, closeConnStep])

theorem handlerStep_rank (hdev : DeviceOk log₀ f.process f.record)
    (hbound : log₀.committed.length + log₀.pending.length + (stream f.record).length ≤ bound)
    (hends : f.thread.pc = .recv → ends c.recv = true) (h : handlerStep t c f = .ok f') :
    handlerRank bound f'.process f'.thread < handlerRank bound f.process f.thread := by
  obtain ⟨slots, lost, hrep⟩ := hdev
  have hcommitted := committed_accept_le log₀ (stream f.record)
  cases handlerStep_inv h with
  | loopTest hpc =>
    rw [loopTest]
    split <;> simp [handlerRank, hpc]
  | recv hpc =>
    have hend := hends hpc
    cases hc : c.recv <;> simp only [hc, ends, reduceCtorEq] at hend <;>
      simp [recvStep, handlerRank, hpc]
  | openWrite hpc =>
    cases c.opens <;> simp [openWriteStep, handlerRank, hpc]
  | openRead hpc =>
    cases c.opens with
    | true =>
      have hleft := leftToRead_le (p := (openReadStep true f).process) hrep
        (openReadStep true f).thread
      simp only [openReadStep, if_true, handlerRank, hpc] at hleft ⊢
      omega
    | false =>
      simp only [openReadStep, Bool.false_eq_true, if_false, handlerRank, hpc]
      omega
  | @readBack pos result hpc hfd hrun =>
    obtain ⟨result', htotal, hu⟩ := aesdRead_total hrep c.read bufSize pos
    rw [hrun] at htotal
    obtain rfl := Except.ok.inj htotal
    by_cases hret : 0 < result.ret
    · have hless := leftToRead_readBack hrep hfd hrun hu hret
        { f.thread with sendBuf := result.user, pc := .send } rfl
      simp only [if_pos (Int.le_of_lt hret), if_pos hret, handlerRank, hpc] at hless ⊢
      have hnext : leftToRead _ _ < _ := hless
      omega
    · simp only [if_neg hret, handlerRank, hpc]
      omega
  | send hpc hfd =>
    simp only [handlerRank, hpc]
    exact Nat.lt_succ_self _
  | sendElsewhere hpc hnot =>
    simp only [handlerRank, hpc]
    exact Nat.lt_succ_self _
  | closeWrite hpc => simp [closeWriteStep, handlerRank, hpc]
  | closeRead hpc => simp [closeReadStep, handlerRank, hpc]
  | unlock hpc => simp [unlockStep, handlerRank, hpc]
  | unlockContinue hpc => simp [unlockContinueStep, handlerRank, hpc]
  | closeConn hpc => simp [closeConnStep, handlerRank, hpc]
  | readElsewhere hpc hnot =>
    simp only [handlerRank, hpc]
    omega
  | _ hpc => simp [handlerRank, hpc]

end Rank

section Invariant

variable {log₀ : Log} {s s' : MainState} {t : Nat}

/-- `main` builds the list of connection records, or takes it apart node by node. -/
def InOrder (s : MainState) : Prop := (∃ inserted, Building s inserted) ∨ Traversing s

theorem InOrder.step (h : InOrder s) {l : MainLabel} (hintact : Intact s l)
    (hstep : mainStep s l = .ok s') : InOrder s' := by
  by_cases hl : ∃ c, l = .main c
  · obtain ⟨c, rfl⟩ := hl
    rcases h with ⟨inserted, hbuilding⟩ | htraversing
    · by_cases hpc : s.pc = .first
      · right
        simp only [mainStep, mainThreadStep, hpc] at hstep
        obtain rfl := Except.ok.inj hstep
        exact hbuilding.traverse hpc
      · exact .inl (hbuilding.main hpc hstep)
    · exact .inr (htraversing.main hintact hstep)
  · have hu := unmoved_of_step (fun c hc => hl ⟨c, hc⟩) hstep
    rcases h with ⟨inserted, hbuilding⟩ | htraversing
    · exact .inl ⟨inserted, hbuilding.others hu⟩
    · exact .inr (htraversing.others hu)

theorem Locked.step (h : Locked s.server) {l : MainLabel} (hstep : mainStep s l = .ok s') :
    Locked s'.server := by
  cases l with
  | main c =>
    have hmutex := (mainThreadStep_shares hstep).mutex
    obtain ⟨-, -, hsame | ⟨fd, hmore⟩⟩ := mainThreadStep_server hstep
    · exact ⟨by rw [hmutex, hsame]; exact h.holder, by rw [hmutex, hsame]; exact h.thread⟩
    · refine ⟨?_, ?_⟩
      · intro u hu
        rw [hmutex] at hu
        have hlt := h.holder u hu
        rw [hmore, List.length_append]
        omega
      · intro u th hth
        rw [hmutex]
        rw [hmore] at hth
        rcases getElem?_concat s.server.threads (startThread fd) u with hold | ⟨rfl, -, hnew⟩
        · exact h.thread u th (hold ▸ hth)
        · obtain rfl := Option.some.inj (hnew.symm.trans hth)
          have hnot : s.server.process.fmutex ≠ some s.server.threads.length := fun hmine =>
            absurd (h.holder _ hmine) (Nat.lt_irrefl _)
          simp [startThread, holdsLock, hnot]
  | signal =>
    obtain rfl := (Except.ok.inj hstep).symm
    exact ⟨h.holder, h.thread⟩
  | handler u c =>
    obtain ⟨th, f', hth, hf, hserver⟩ := own_inv hstep
    obtain ⟨hown, hothers⟩ := handlerStep_lock hf (h.thread u th hth)
    rw [hserver]
    refine ⟨?_, ?_⟩
    · intro v hv
      show v < (s.server.threads.set u f'.thread).length
      rw [List.length_set]
      by_cases heq : v = u
      · rw [heq]
        exact (List.getElem?_eq_some_iff.mp hth).1
      · exact h.holder v ((hothers v heq).mp hv)
    · intro v thv hv
      rw [getElem?_update hth] at hv
      split at hv
      next heq =>
        obtain rfl := Option.some.inj hv
        rw [heq]
        exact hown
      next hne =>
        rw [h.thread v thv hv]
        exact (hothers v hne).symm

/-- A handler that `main` has joined is done. -/
def JoinedDone (s : MainState) : Prop :=
  ∀ a t th, .join a (some t) ∈ s.events → s.server.threads[t]? = some th → th.pc = .done

/-- While the list is built, no handler has been joined. -/
theorem Building.not_joined {inserted : Nat} (h : Building s inserted) (a : Nat)
    (tid : Option Nat) : .join a tid ∉ s.events := by
  rw [h.events]
  simp

theorem JoinedDone.main (h : JoinedDone s) (horder : InOrder s) {c : MainChoice}
    (hstep : mainThreadStep c s = .ok s') : JoinedDone s' := by
  have hkept : s'.server.threads = s.server.threads →
      (∀ a t, .join a (some t) ∈ s'.events → .join a (some t) ∈ s.events) → JoinedDone s' := by
    intro hthreads hevents a t th hjoin hth
    rw [hthreads] at hth
    exact h a t th (hevents a t hjoin) hth
  rcases horder with ⟨inserted, hbuilding⟩ | htraversing
  · intro a t th hjoin
    by_cases hpc : s.pc = .first
    · simp only [mainThreadStep, hpc] at hstep
      obtain rfl := Except.ok.inj hstep
      exact absurd hjoin (Building.not_joined hbuilding a (some t))
    · obtain ⟨inserted', hbuilding'⟩ := hbuilding.main hpc hstep
      exact absurd hjoin (Building.not_joined hbuilding' a (some t))
  · cases htraversing with
    | join hpc =>
      simp only [mainThreadStep, hpc] at hstep
      obtain ⟨b, nd, -, -, hjoinable, rfl⟩ := joinStep_inv hstep
      intro a t th hjoin hth
      rcases List.mem_append.mp hjoin with hold | hnew
      · exact h a t th hold hth
      · have htid : nd.value.tid = some t := by
          simp only [List.mem_cons, reduceCtorEq, Event.join.injEq, List.not_mem_nil, or_false,
            false_or] at hnew
          exact hnew.2.symm
        have hread : s.server.threads[t]? = some th := hth
        rw [joinable, htid, Option.bind_some, hread] at hjoinable
        exact of_decide_eq_true hjoinable
    | remove hpc =>
      simp only [mainThreadStep, hpc] at hstep
      obtain ⟨b, r, -, -, rfl⟩ := removeStep_inv hstep
      exact hkept (by rfl) fun a t hjoin => by simpa using hjoin
    | free hpc =>
      simp only [mainThreadStep, hpc] at hstep
      obtain ⟨b, -, rfl⟩ := freeStep_inv hstep
      exact hkept (by rfl) fun a t hjoin => by simpa using hjoin
    | advance hpc =>
      simp only [mainThreadStep, hpc] at hstep
      obtain ⟨b, nd, -, -, rfl⟩ := advanceStep_inv hstep
      exact hkept (by rfl) fun a t hjoin => by simpa using hjoin
    | exit hpc => simp only [mainThreadStep, hpc, reduceCtorEq] at hstep

theorem JoinedDone.step (h : JoinedDone s) (horder : InOrder s) {l : MainLabel}
    (hstep : mainStep s l = .ok s') : JoinedDone s' := by
  cases l with
  | main c => exact h.main horder hstep
  | signal =>
    obtain rfl := (Except.ok.inj hstep).symm
    exact h
  | handler u c =>
    have hevents := (unmoved_of_step (by simp) hstep).events
    obtain ⟨th, f', hth, hf, hserver⟩ := own_inv hstep
    intro a t th' hjoin hth'
    rw [hevents] at hjoin
    rw [hserver, getElem?_update hth] at hth'
    split at hth'
    next heq =>
      subst heq
      have hdone := h a t th hjoin hth
      simp only [handlerStep, ServerState.frame, hdone, reduceCtorEq] at hf
    next => exact h a t th' hjoin hth'

/-- What every state satisfies as long as freed memory keeps its contents. -/
structure Sound (log₀ : Log) (s : MainState) : Prop where
  order : InOrder s
  locked : Locked s.server
  device : DeviceOk log₀ s.server.process s.server.record
  joined : JoinedDone s

theorem Sound.step (h : Sound log₀ s) {l : MainLabel} (hintact : Intact s l)
    (hstep : mainStep s l = .ok s') : Sound log₀ s' where
  order := h.order.step hintact hstep
  locked := h.locked.step hstep
  device := device_step h.device hstep
  joined := h.joined.step h.order hstep

theorem sound_start {device : DriverState} {slots : List Slot} {lost : Set Nat}
    (hrep : Represents device log₀ slots lost) : Sound log₀ (startMain device) where
  order := .inl ⟨0, building_start device⟩
  locked := ⟨by simp [startMain, startServer], by simp [startMain, startServer]⟩
  device := ⟨slots, lost, hrep⟩
  joined := by simp [JoinedDone, startMain]

theorem sound_run {device : DriverState} {slots : List Slot} {lost : Set Nat}
    (hrep : Represents device log₀ slots lost) {labels : List MainLabel}
    (hrun : run mainStep (startMain device) labels = .ok s)
    (hintact : Along mainStep Intact (startMain device) labels) : Sound log₀ s :=
  run_guarded (fun _ _ _ hx hkept hstep => Sound.step hx hkept hstep) (sound_start hrep) hrun
    hintact

end Invariant

section Shutdown

variable {log₀ : Log} {s s' : MainState} {t : Nat}

/-- Every `recv` of a handler reports the end of the stream or an error: its client is gone. -/
def Hangup (s : MainState) (l : MainLabel) : Prop :=
  ∀ t c, l = .handler t c → At t .recv s → ends c.recv = true

/-- A step of `main` or of a handler. -/
def isStep : MainLabel → Bool
  | .signal => false
  | _ => true

/-- An upper bound for the steps that `main` still takes once `CLOSE_SERVER` is set, apart from
those of a handler that it starts before it looks. The nodes of the list have descending
addresses. -/
def mainRank (s : MainState) : Nat :=
  match s.pc with
  | .exit => 0
  | .advance => 4 * s.np.getD 0 + 2
  | .free => 4 * s.np.getD 0 + 3
  | .remove => 4 * s.np.getD 0 + 4
  | .join => 4 * s.np.getD 0 + 5
  | .first => 4 * s.nodes.length + 2
  | .loopTest => 4 * s.nodes.length + 3
  | .closeSock => 4 * s.nodes.length + 4
  | .create => 4 * s.nodes.length + 7
  | .insert => 4 * s.nodes.length + 8
  | .malloc => 4 * s.nodes.length + 13
  | .fcntl => 4 * s.nodes.length + 14
  | .accept => 4 * s.nodes.length + 15

theorem reverse_range_next {n a b : Nat} {done todo : List Nat}
    (h : (List.range n).reverse = done ++ a :: b :: todo) : a = b + 1 := by
  induction n generalizing done with
  | zero => cases done <;> cases h
  | succ n ih =>
    rw [reverse_range_succ] at h
    cases done with
    | nil =>
      obtain ⟨rfl, hrest⟩ := List.cons.inj h
      cases n with
      | zero => cases hrest
      | succ n =>
        rw [reverse_range_succ] at hrest
        rw [(List.cons.inj hrest).1]
    | cons d done => exact ih (List.cons.inj h).2

theorem Building.rank_step {inserted : Nat} (h : Building s inserted) {c : MainChoice}
    (hclosed : s.server.process.closeServer = true) (hstep : mainThreadStep c s = .ok s') :
    mainRank s' + 3 * s'.server.threads.length < mainRank s + 3 * s.server.threads.length := by
  have hcounted := h.counted
  cases hpc : s.pc <;> rw [hpc] at hcounted <;>
    simp only [mainThreadStep, hpc, Except.ok.injEq, reduceCtorEq] at hstep
  case loopTest =>
    subst hstep
    simp [loopTestStep, hclosed, mainRank, hpc]
  case accept =>
    obtain ⟨-, rfl⟩ | rfl := acceptStep_inv hstep
    · simp [mainRank, hpc, MainState.setTable]
    · simp [mainRank, hpc]
  case closeSock =>
    subst hstep
    simp [closeSockStep, mainRank, hpc, MainState.setTable]
  case fcntl =>
    subst hstep
    cases c.fcntl <;> simp [fcntlStep, mainRank, hpc]
  case malloc =>
    subst hstep
    rw [mallocStep]
    split
    · simp only [mainRank, hpc, List.length_append, List.length_singleton]
      omega
    · simp [mainRank, hpc]
  case insert =>
    subst hstep
    simp [insertStep, mainRank, hpc]
  case create =>
    obtain ⟨nd, -, ⟨-, rfl⟩ | ⟨-, rfl⟩⟩ := createStep_inv hstep
    · simp only [mainRank, hpc, length_setValue, List.length_append, List.length_singleton]
      omega
    · simp [mainRank, hpc]
  case first =>
    subst hstep
    obtain ⟨rfl, -⟩ := hcounted
    have hhead := h.chain.head_eq
    cases hn : s.nodes.length with
    | zero =>
      rw [hn, List.range_zero, List.reverse_nil, List.head?_nil] at hhead
      simp [testStep, hhead, mainRank, hpc]
    | succ n =>
      rw [hn, reverse_range_succ, List.head?_cons] at hhead
      simp only [testStep, hhead, Option.isSome_some, if_true, mainRank, hpc, hn,
        Option.getD_some]
      omega
  all_goals exact hcounted.elim

theorem Traversing.rank_step (h : Traversing s) {c : MainChoice}
    (hstep : mainThreadStep c s = .ok s') :
    mainRank s' + 3 * s'.server.threads.length < mainRank s + 3 * s.server.threads.length := by
  cases h with
  | join hpc =>
    simp only [mainThreadStep, hpc] at hstep
    obtain ⟨a, nd, -, -, -, rfl⟩ := joinStep_inv hstep
    simp [mainRank, hpc]
  | remove hpc =>
    simp only [mainThreadStep, hpc] at hstep
    obtain ⟨a, r, -, -, rfl⟩ := removeStep_inv hstep
    simp [mainRank, hpc]
  | free hpc =>
    simp only [mainThreadStep, hpc] at hstep
    obtain ⟨a, -, rfl⟩ := freeStep_inv hstep
    simp [mainRank, hpc]
  | @advance done a todo nd hpc hstanding hchain hnd hfreed hlink =>
    simp only [mainThreadStep, hpc] at hstep
    obtain ⟨b, nd', hnp, hnd', rfl⟩ := advanceStep_inv hstep
    obtain rfl := Option.some.inj (hstanding.np.symm.trans hnp)
    obtain rfl := Option.some.inj (hnd.symm.trans hnd')
    rw [hlink, hchain.head_eq]
    cases todo with
    | nil => simp [testStep, mainRank, hpc]
    | cons b todo =>
      have hnext := reverse_range_next hstanding.split
      simp only [List.head?_cons, testStep, Option.isSome_some, if_true, mainRank, hpc, hnp,
        Option.getD_some]
      omega
  | exit hpc => simp only [mainThreadStep, hpc, reduceCtorEq] at hstep

/-- The bytes that the log has and those it may still be given. -/
def outstanding (log₀ : Log) (s : MainState) : Nat :=
  log₀.committed.length + log₀.pending.length + (stream s.server.record).length +
    (s.server.threads.map fun th => (inHand (some th)).length).sum

/-- An upper bound for the steps of the server once `CLOSE_SERVER` is set and its clients are
gone. -/
def rank (log₀ : Log) (s : MainState) : Nat :=
  (s.server.threads.map (handlerRank (outstanding log₀ s) s.server.process)).sum + mainRank s

theorem rank_main (horder : InOrder s) (hclosed : s.server.process.closeServer = true)
    {c : MainChoice} (hstep : mainThreadStep c s = .ok s') : rank log₀ s' < rank log₀ s := by
  have hmain : mainRank s' + 3 * s'.server.threads.length <
      mainRank s + 3 * s.server.threads.length := by
    rcases horder with ⟨inserted, hbuilding⟩ | htraversing
    · exact Building.rank_step hbuilding hclosed hstep
    · exact Traversing.rank_step htraversing hstep
  have hnarrows := (mainThreadStep_shares hstep).narrows
  obtain ⟨-, hrecord, hthreads⟩ := mainThreadStep_server hstep
  have hsame : outstanding log₀ s' = outstanding log₀ s := by
    rw [outstanding, outstanding, hrecord]
    rcases hthreads with heq | ⟨fd, hmore⟩
    · rw [heq]
    · simp [hmore, startThread, inHand]
  have hold : (s.server.threads.map (handlerRank (outstanding log₀ s) s'.server.process)).sum ≤
      (s.server.threads.map (handlerRank (outstanding log₀ s) s.server.process)).sum :=
    sum_map_le fun th _ => handlerRank_narrows hnarrows le_rfl th
  rw [rank, rank, hsame]
  rcases hthreads with heq | ⟨fd, hmore⟩
  · rw [heq] at hmain ⊢
    omega
  · have hnew : handlerRank (outstanding log₀ s) s'.server.process (startThread fd) = 3 := by
      simp [startThread, handlerRank]
    rw [hmore, List.length_append, List.length_singleton] at hmain
    rw [hmore, List.map_append, List.sum_append, List.map_singleton, List.sum_singleton, hnew]
    omega

theorem rank_handler (h : Sound log₀ s) {c : Choice} (hhangup : Hangup s (.handler t c))
    (hstep : mainStep s (.handler t c) = .ok s') : rank log₀ s' < rank log₀ s := by
  have hu := unmoved_of_step (by simp) hstep
  obtain ⟨th, f', hth, hf, hserver⟩ := own_inv hstep
  have hends : (s.server.frame th).thread.pc = .recv → ends c.recv = true := fun hpc =>
    hhangup t c (by rfl) (at_iff.mpr ⟨th, hth, hpc⟩)
  have hless : outstanding log₀ s' ≤ outstanding log₀ s := by
    have hhandled := handlerStep_handled hf hends
    have hsum := sum_map_set (g := fun th => (inHand (some th)).length) hth f'.thread
    rw [outstanding, outstanding, hserver]
    simp only [handled, ServerState.frame, ServerState.update] at hhandled ⊢
    omega
  have hbytes : log₀.committed.length + log₀.pending.length +
      (stream s.server.record).length ≤ outstanding log₀ s := by
    rw [outstanding]
    omega
  have hown : handlerRank (outstanding log₀ s') f'.process f'.thread <
      handlerRank (outstanding log₀ s) s.server.process th :=
    Nat.lt_of_le_of_lt (handlerRank_narrows (.of_eq (by rfl) (by rfl)) hless f'.thread)
      (handlerStep_rank h.device hbytes hends hf)
  have hothers : ∀ j z, j ≠ t → s.server.threads[j]? = some z →
      handlerRank (outstanding log₀ s') f'.process z ≤
        handlerRank (outstanding log₀ s) s.server.process z := by
    intro j z hj hz
    by_cases hholds : holdsLock z.pc = true
    · have hmine := (h.locked.thread j z hz).mp hholds
      have hout : holdsLock th.pc = false := by
        rw [← Bool.not_eq_true, h.locked.thread t th hth, hmine]
        exact fun he => hj (Option.some.inj he)
      exact handlerRank_narrows (handlerStep_narrows hf hout) hless z
    · exact handlerRank_outside (Bool.eq_false_of_not_eq_true hholds) hless
  have hmain : mainRank s' = mainRank s := by rw [mainRank, mainRank, hu.pc, hu.np, hu.nodes]
  have hsum := sum_map_set_lt hth hown hothers
  rw [rank, rank, hmain, hserver]
  exact Nat.add_lt_add_right hsum _

theorem rank_signal (hstep : mainStep s .signal = .ok s') : rank log₀ s' = rank log₀ s := by
  obtain rfl := (Except.ok.inj hstep).symm
  have hsame : ∀ th, handlerRank (outstanding log₀ s)
      { s.server.process with closeServer := true } th =
        handlerRank (outstanding log₀ s) s.server.process th := fun th =>
    Nat.le_antisymm (handlerRank_narrows (.of_eq (by rfl) (by rfl)) le_rfl th)
      (handlerRank_narrows (.of_eq (by rfl) (by rfl)) le_rfl th)
  exact congrArg (fun ranks => ranks + mainRank s)
    (congrArg List.sum (List.map_congr_left fun th _ => hsame th))

theorem closeServer_step (hclosed : s.server.process.closeServer = true) {l : MainLabel}
    (hstep : mainStep s l = .ok s') : s'.server.process.closeServer = true := by
  by_cases hl : ∃ c, l = .main c
  · obtain ⟨c, rfl⟩ := hl
    exact (mainThreadStep_shares hstep).closed hclosed
  · exact (unmoved_of_step (fun c hc => hl ⟨c, hc⟩) hstep).closed hclosed

theorem mainThreadStep_not_accept (hclosed : s.server.process.closeServer = true) {c : MainChoice}
    (hstep : mainThreadStep c s = .ok s') : s'.pc ≠ .accept := by
  cases hpc : s.pc <;> simp only [mainThreadStep, hpc, Except.ok.injEq, reduceCtorEq] at hstep
  case loopTest =>
    subst hstep
    simp [loopTestStep, hclosed]
  case accept => obtain ⟨-, rfl⟩ | rfl := acceptStep_inv hstep <;> simp
  case closeSock =>
    subst hstep
    simp [closeSockStep]
  case fcntl =>
    subst hstep
    cases c.fcntl <;> simp [fcntlStep]
  case malloc =>
    subst hstep
    rw [mallocStep]
    split <;> simp
  case insert =>
    subst hstep
    simp [insertStep]
  case create => obtain ⟨nd, -, ⟨-, rfl⟩ | ⟨-, rfl⟩⟩ := createStep_inv hstep <;> simp
  case first =>
    subst hstep
    rw [testStep]
    cases s.head <;> simp
  case join =>
    obtain ⟨a, nd, -, -, -, rfl⟩ := joinStep_inv hstep
    simp
  case remove =>
    obtain ⟨a, r, -, -, rfl⟩ := removeStep_inv hstep
    simp
  case free =>
    obtain ⟨a, -, rfl⟩ := freeStep_inv hstep
    simp
  case advance =>
    obtain ⟨a, nd, -, -, rfl⟩ := advanceStep_inv hstep
    rw [testStep]
    cases nd.next <;> simp

theorem lowers_rank : Lowers mainStep
    (fun s => Sound log₀ s ∧ s.server.process.closeServer = true)
    (fun s l => Intact s l ∧ Hangup s l) isStep (rank log₀) := by
  rintro s l s' ⟨hsound, hclosed⟩ ⟨hintact, hhangup⟩ hstep
  refine ⟨⟨hsound.step hintact hstep, closeServer_step hclosed hstep⟩, ?_⟩
  cases l with
  | main c => exact rank_main hsound.order hclosed hstep
  | signal => exact le_of_eq (rank_signal hstep)
  | handler t c => exact rank_handler hsound hhangup hstep

end Shutdown

section Progress

variable {log₀ : Log} {s : MainState} {t : Nat} {th : Thread}

/-- `main` can take a step, whatever its calls return. -/
def MainEnabled (s : MainState) : Prop := ∀ c, ∃ s', mainStep s (.main c) = .ok s'

/-- `main` is in `accept` on the listening socket, and goes on once there is a client or an
error. -/
structure AwaitsClient (s : MainState) : Prop where
  accept : s.pc = .accept
  listening : s.server.process.table.lookup s.sockfd = some .listening
  resumes : ∀ c, c.accepts ≠ .waiting → ∃ s', mainStep s (.main c) = .ok s'

/-- Handler `t` can take a step, whatever its calls return. -/
def HandlerEnabled (t : Nat) (s : MainState) : Prop :=
  ∀ c, ∃ s', mainStep s (.handler t c) = .ok s'

/-- `main` waits in `pthread_join` for handler `t`, which is not done. -/
def Awaits (t : Nat) (s : MainState) : Prop :=
  WaitsFor t s ∧ ∃ th : Thread, s.server.threads[t]? = some th ∧ th.pc ≠ .done

theorem handlerStep_enabled {f : Frame} (hdev : DeviceOk log₀ f.process f.record)
    (hdone : f.thread.pc ≠ .done) (hlock : f.thread.pc = .lock → f.process.fmutex = none)
    (c : Choice) : ∃ f', handlerStep t c f = .ok f' := by
  obtain ⟨slots, lost, hrep⟩ := hdev
  cases hpc : f.thread.pc <;> simp only [handlerStep, hpc]
  case lock =>
    rw [lockStep, if_pos (hlock hpc)]
    exact ⟨_, rfl⟩
  case write =>
    obtain ⟨device, slots', hrun, -⟩ := aesdWrite_exact hrep c.write f.thread.recvBuf
    simp only [writeStep, hrun]
    split <;> exact ⟨_, rfl⟩
  case readBack =>
    rw [readBackStep]
    split
    next pos _ =>
      obtain ⟨result, hrun, -⟩ := aesdRead_total hrep c.read bufSize pos
      rw [hrun]
      exact ⟨_, rfl⟩
    next => exact ⟨_, rfl⟩
  case done => exact absurd hpc hdone
  all_goals exact ⟨_, rfl⟩

theorem Sound.handler_enabled (h : Sound log₀ s) (hth : s.server.threads[t]? = some th)
    (hdone : th.pc ≠ .done) (hlock : th.pc = .lock → s.server.process.fmutex = none) :
    HandlerEnabled t s := by
  intro c
  obtain ⟨f', hf⟩ := handlerStep_enabled (t := t) (f := s.server.frame th) h.device hdone hlock c
  have hserver : serverStep s.server (.handler t c) = .ok (s.server.update t f') := by
    simp only [serverStep, hth, hf]
  simp only [mainStep, hserver]
  exact ⟨_, rfl⟩

/-- Whoever holds the lock can take a step. -/
theorem Sound.holder_enabled (h : Sound log₀ s) (hmine : s.server.process.fmutex = some t) :
    HandlerEnabled t s := by
  have hth := List.getElem?_eq_getElem (h.locked.holder t hmine)
  have hholds := (h.locked.thread t _ hth).mpr hmine
  apply h.handler_enabled hth
  · intro hpc
    rw [hpc] at hholds
    cases hholds
  · intro hpc
    rw [hpc] at hholds
    cases hholds

/-- What a handler can be held up by: that it is done, or that another handler holds the lock. -/
theorem Sound.handler_progress (h : Sound log₀ s) (hth : s.server.threads[t]? = some th) :
    th.pc = .done ∨ HandlerEnabled t s ∨
      (th.pc = .lock ∧ ∃ u, u ≠ t ∧ s.server.process.fmutex = some u ∧ HandlerEnabled u s) := by
  by_cases hdone : th.pc = .done
  · exact .inl hdone
  · right
    by_cases hlock : th.pc = .lock → s.server.process.fmutex = none
    · exact .inl (h.handler_enabled hth hdone hlock)
    · right
      obtain ⟨hpc, hheld⟩ := Classical.not_imp.mp hlock
      obtain ⟨u, hu⟩ := Option.ne_none_iff_exists'.mp hheld
      refine ⟨hpc, u, ?_, hu, h.holder_enabled hu⟩
      rintro rfl
      have hholds := (h.locked.thread u th hth).mpr hu
      rw [hpc] at hholds
      cases hholds

/-- A `pthread_join` that has to wait, waits for a handler. -/
theorem join_progress {a : Nat} {nd : Node Entry} (hpc : s.pc = .join) (hnp : s.np = some a)
    (hnd : s.nodes[a]? = some nd) : MainEnabled s ∨ ∃ t, Awaits t s := by
  cases hjoin : joinable s.server.threads nd.value.tid with
  | true =>
    left
    intro c
    simp only [mainStep, mainThreadStep, hpc, joinStep, hnp, Option.bind_some, hnd,
      Option.map_some, hjoin, if_true]
    exact ⟨_, rfl⟩
  | false =>
    right
    rw [joinable] at hjoin
    cases htid : nd.value.tid with
    | none =>
      rw [htid] at hjoin
      cases hjoin
    | some t =>
      rw [htid, Option.bind_some] at hjoin
      cases hth : s.server.threads[t]? with
      | none =>
        rw [hth] at hjoin
        cases hjoin
      | some th =>
        rw [hth, Option.elim_some] at hjoin
        exact ⟨t, ⟨hpc, a, nd, hnp, hnd, htid⟩, th, hth, of_decide_eq_false hjoin⟩

/-- `accept` waits for its client on the listening socket only. -/
theorem accept_progress (hpc : s.pc = .accept) : MainEnabled s ∨ AwaitsClient s := by
  by_cases hlistening : s.server.process.table.lookup s.sockfd = some .listening
  · right
    refine ⟨hpc, hlistening, fun c hc => ?_⟩
    simp only [mainStep, mainThreadStep, hpc, acceptStep, if_pos hlistening]
    cases houtcome : c.accepts with
    | client => exact ⟨_, rfl⟩
    | failure => exact ⟨_, rfl⟩
    | waiting => exact absurd houtcome hc
  · left
    intro c
    simp only [mainStep, mainThreadStep, hpc, acceptStep, if_neg hlistening]
    exact ⟨_, rfl⟩

theorem Building.enabled {inserted : Nat} (h : Building s inserted) (haccept : s.pc ≠ .accept) :
    MainEnabled s := by
  intro c
  have hcounted := h.counted
  cases hpc : s.pc <;> rw [hpc] at hcounted <;> simp only [mainStep, mainThreadStep, hpc]
  case accept => exact absurd hpc haccept
  case create =>
    obtain ⟨-, hn, hn1⟩ := hcounted
    obtain ⟨nd, hnd, -⟩ := h.live s.n1 (by omega)
    simp only [createStep, hnd]
    split <;> exact ⟨_, rfl⟩
  case join => exact hcounted.elim
  case remove => exact hcounted.elim
  case free => exact hcounted.elim
  case advance => exact hcounted.elim
  case exit => exact hcounted.elim
  all_goals exact ⟨_, rfl⟩

/-- What `main` can be held up by: the end of the program, a client that has not come, or a handler
that is not done. -/
theorem InOrder.progress (h : InOrder s) :
    s.pc = .exit ∨ MainEnabled s ∨ AwaitsClient s ∨ ∃ t, Awaits t s := by
  rcases h with ⟨inserted, hbuilding⟩ | htraversing
  · by_cases hpc : s.pc = .accept
    · rcases accept_progress hpc with henabled | hawaits
      · exact .inr (.inl henabled)
      · exact .inr (.inr (.inl hawaits))
    · exact .inr (.inl (Building.enabled hbuilding hpc))
  · cases htraversing with
    | join hpc hstanding hchain hlive =>
      obtain ⟨nd, hnd, -⟩ := hlive
      rcases join_progress hpc hstanding.np hnd with henabled | hawaits
      · exact .inr (.inl henabled)
      · exact .inr (.inr (.inr hawaits))
    | @remove done a todo hpc hstanding hchain =>
      have hnodup : (a :: todo).Nodup := by
        have hrange := List.nodup_reverse.mpr (List.nodup_range (n := s.nodes.length))
        rw [hstanding.split] at hrange
        exact (List.nodup_append.mp hrange).2.1
      obtain ⟨r, hr, -⟩ := remove_spec (List.nil_append (a :: todo) ▸ hchain) hnodup
      refine .inr (.inl fun c => ?_)
      simp only [mainStep, mainThreadStep, hpc, removeStep, hstanding.np, Option.bind_some, hr]
      exact ⟨_, rfl⟩
    | free hpc hstanding hchain hnd =>
      refine .inr (.inl fun c => ?_)
      simp only [mainStep, mainThreadStep, hpc, freeStep, hstanding.np]
      exact ⟨_, rfl⟩
    | advance hpc hstanding hchain hnd =>
      refine .inr (.inl fun c => ?_)
      simp only [mainStep, mainThreadStep, hpc, advanceStep, hstanding.np, Option.bind_some, hnd,
        Option.map_some]
      exact ⟨_, rfl⟩
    | exit hpc => exact .inl hpc

end Progress

section Results

variable {log₀ : Log} {s : MainState}

/-- The program has ended, and so has every handler; nobody holds the lock. -/
structure Finished (s : MainState) : Prop where
  exit : s.pc = .exit
  handlers : ∀ (t : Nat) (th : Thread), s.server.threads[t]? = some th → th.pc = .done
  unlocked : s.server.process.fmutex = none

/-- When `main` is at its end it has joined every handler. -/
theorem Sound.finished (h : Sound log₀ s) (hpc : s.pc = .exit) : Finished s := by
  have hhandlers : ∀ (t : Nat) (th : Thread), s.server.threads[t]? = some th → th.pc = .done := by
    intro t th hth
    have htraversing : Traversing s := by
      refine h.order.resolve_left ?_
      rintro ⟨inserted, hbuilding⟩
      have hcounted := hbuilding.counted
      rw [hpc] at hcounted
      exact hcounted
    have hcount := (htraversing.complete hpc).1 t (List.getElem?_eq_some_iff.mp hth).1
    have hmem : some t ∈ joinedTids s := List.count_pos_iff.mp (by omega)
    obtain ⟨e, he, htid⟩ := List.mem_filterMap.mp hmem
    cases e with
    | join a tid =>
      obtain rfl : tid = some t := Option.some.inj htid
      exact h.joined a t th he hth
    | insert a => cases htid
    | read a freed => cases htid
    | free a => cases htid
  refine ⟨hpc, hhandlers, ?_⟩
  apply Option.eq_none_iff_forall_ne_some.mpr
  intro t hmine
  have hth := List.getElem?_eq_getElem (h.locked.holder t hmine)
  have hholds := (h.locked.thread t _ hth).mpr hmine
  rw [hhandlers t _ hth] at hholds
  cases hholds

/-- The contents that a node has while it is freed are those it had before. -/
def kept (s : MainState) : MainChoice :=
  { smooth with stale := ((s.np.bind fun a => s.nodes[a]?).getD smooth.stale) }

theorem intact_kept (s : MainState) : Intact s (.main (kept s)) := by
  rintro c a nd hc - hnp hnd
  obtain rfl := MainLabel.main.inj hc
  simp [kept, hnp, hnd]

/-- The client is gone. -/
def gone : Choice := ⟨.eof, true, ⟨fun _ => true, 0⟩, ⟨true, bufSize⟩, 0⟩

/-- Unless the program has ended, some party can take a step whatever its calls return, or `main`
waits for a client. -/
theorem Sound.active (h : Sound log₀ s) :
    Finished s ∨ MainEnabled s ∨ (∃ t, HandlerEnabled t s) ∨ AwaitsClient s := by
  rcases h.order.progress with hexit | hmain | hclient | ⟨t, -, th, hth, hrunning⟩
  · exact .inl (h.finished hexit)
  · exact .inr (.inl hmain)
  · exact .inr (.inr (.inr hclient))
  · rcases h.handler_progress hth with hdone | henabled | ⟨-, u, -, -, henabled⟩
    · exact absurd hdone hrunning
    · exact .inr (.inr (.inl ⟨t, henabled⟩))
    · exact .inr (.inr (.inl ⟨u, henabled⟩))

theorem Sound.next (h : Sound log₀ s) (hnot : ¬Finished s) :
    ∃ l s', isStep l = true ∧ (Intact s l ∧ Hangup s l) ∧ mainStep s l = .ok s' := by
  have hmain : (∃ s', mainStep s (.main (kept s)) = .ok s') →
      ∃ l s', isStep l = true ∧ (Intact s l ∧ Hangup s l) ∧ mainStep s l = .ok s' := by
    rintro ⟨s', hstep⟩
    refine ⟨.main (kept s), s', by rfl, ⟨intact_kept s, ?_⟩, hstep⟩
    intro t c hc
    cases hc
  rcases h.active with hfinished | henabled | ⟨t, henabled⟩ | hclient
  · exact absurd hfinished hnot
  · exact hmain (henabled (kept s))
  · obtain ⟨s', hstep⟩ := henabled gone
    refine ⟨.handler t gone, s', by rfl, ⟨?_, ?_⟩, hstep⟩
    · intro c a nd hc
      cases hc
    · intro u c hc _
      obtain ⟨-, rfl⟩ := MainLabel.handler.inj hc
      rfl
  · exact hmain (hclient.resumes (kept s) AcceptOutcome.noConfusion)

/-- Once `CLOSE_SERVER` is set, `main` does not come to `accept` any more. -/
theorem not_accept_step {s' : MainState} {l : MainLabel}
    (h : s.server.process.closeServer = true ∧ s.pc ≠ .accept) (hstep : mainStep s l = .ok s') :
    s'.server.process.closeServer = true ∧ s'.pc ≠ .accept := by
  obtain ⟨hclosed, hpc⟩ := h
  refine ⟨closeServer_step hclosed hstep, ?_⟩
  by_cases hl : ∃ c, l = .main c
  · obtain ⟨c, rfl⟩ := hl
    exact mainThreadStep_not_accept hclosed hstep
  · rw [(unmoved_of_step (fun c hc => hl ⟨c, hc⟩) hstep).pc]
    exact hpc

/-- The signal arrives between the loop test and `accept`. -/
example : (run mainStep (startMain aesdInitModule) [.main smooth, .signal]).toOption.map
    (fun s => (s.pc, s.server.process.closeServer)) = some (.accept, true) := by
  decide

end Results

end Aesd.Server.Termination
