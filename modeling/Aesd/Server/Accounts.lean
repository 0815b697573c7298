/- Aesd/Server/Accounts
   layer: system
   digest: What each connection has sent and got, against the writes and sections of its handler. -/

import Aesd.Foundation.MergedStream
import Aesd.Server.Serial

set_option autoImplicit false
set_option relaxedAutoImplicit false

namespace Aesd.Server.Accounts

open Aesd.Foundation.DescriptorTable
open Aesd.Foundation.MergedStream
open Aesd.Foundation.Run
open Aesd.Driver.Device
open Aesd.Driver.LogRelation
open Aesd.Server.Handler
open Aesd.Server.Safety
open Aesd.Server.Serial

section Invariant

/-- What the device accepted from handler `t`. -/
def writtenBy (r : Record) (t : Nat) : List UInt8 := own t r.writes

/-- What handler `t` sent in its complete sections. -/
def sentBy (r : Record) (t : Nat) : List UInt8 :=
  (r.sections.filter fun x => x.thread == t).flatMap Section.sent

/-- A received chunk that is still to be written. -/
def inHand : Option Thread → List UInt8
  | none => []
  | some th => match th.pc with
    | .lock | .openWrite | .write => th.recvBuf
    | _ => []

/-- What has been sent in a section that is not complete. -/
def underWay : Option Thread → List UInt8
  | none => []
  | some th => if holdsLock th.pc then th.sent else []

/-- The accounts of one connection balance. -/
structure Balances (t : Nat) (r : Record) (th : Option Thread) : Prop where
  received : r.received t = writtenBy r t ++ inHand th
  delivered : r.delivered t = sentBy r t ++ underWay th

structure AllBalance (s : ServerState) : Prop where
  balances : ∀ t, Balances t s.record s.threads[t]?
  owned : ∀ x ∈ s.record.sections, x.thread < s.threads.length

end Invariant

section Steps

variable {t : Nat} {c : Choice} {f f' : Frame}

/-- Nothing changes in the accounts of other connections. -/
structure Apart (t : Nat) (r r' : Record) : Prop where
  received : ∀ u, u ≠ t → r'.received u = r.received u
  delivered : ∀ u, u ≠ t → r'.delivered u = r.delivered u
  writtenBy : ∀ u, u ≠ t → writtenBy r' u = writtenBy r u
  sentBy : ∀ u, u ≠ t → sentBy r' u = sentBy r u

theorem sentBy_concat_self (r : Record) {t : Nat} {sec : Section} (h : sec.thread = t) :
    ((r.sections ++ [sec]).filter fun x => x.thread == t).flatMap Section.sent =
      sentBy r t ++ sec.sent := by
  rw [List.filter_append, List.flatMap_append]
  simp [sentBy, h]

theorem sentBy_concat_of_ne (r : Record) {u : Nat} {sec : Section} (h : sec.thread ≠ u) :
    ((r.sections ++ [sec]).filter fun x => x.thread == u).flatMap Section.sent = sentBy r u := by
  rw [List.filter_append, List.flatMap_append]
  simp [sentBy, h]

/-- A step that adds nothing to any account. -/
theorem balances_of_record_eq (hb : Balances t f.record (some f.thread))
    (hr : f'.record.received = f.record.received) (hd : f'.record.delivered = f.record.delivered)
    (hw : f'.record.writes = f.record.writes) (hs : f'.record.sections = f.record.sections)
    (hhand : inHand (some f'.thread) = inHand (some f.thread))
    (hway : underWay (some f'.thread) = underWay (some f.thread)) :
    Balances t f'.record (some f'.thread) ∧ Apart t f.record f'.record := by
  have hwritten : ∀ u, writtenBy f'.record u = writtenBy f.record u := by
    intro u
    unfold writtenBy
    rw [hw]
  have hsent : ∀ u, sentBy f'.record u = sentBy f.record u := by
    intro u
    unfold sentBy
    rw [hs]
  constructor
  · constructor
    · rw [hr, hwritten, hhand]
      exact hb.received
    · rw [hd, hsent, hway]
      exact hb.delivered
  · exact ⟨fun u _ => congrFun hr u, fun u _ => congrFun hd u, fun u _ => hwritten u,
      fun u _ => hsent u⟩

theorem recvStep_balances (hb : Balances t f.record (some f.thread)) (hpc : f.thread.pc = .recv)
    (outcome : RecvOutcome) :
    Balances t (recvStep t outcome f).record (some (recvStep t outcome f).thread) ∧
      Apart t f.record (recvStep t outcome f).record := by
  have hnone : inHand (some f.thread) = [] := by simp [inHand, hpc]
  have hidle : underWay (some f.thread) = [] := by simp [underWay, hpc, holdsLock]
  cases outcome with
  | data chunk =>
    refine ⟨⟨?_, ?_⟩, ?_, fun _ _ => rfl, fun _ _ => rfl, fun _ _ => rfl⟩
    · have hbefore := hb.received
      rw [hnone, List.append_nil] at hbefore
      show Function.update f.record.received t (f.record.received t ++ chunk.bytes) t =
        writtenBy f.record t ++ chunk.bytes
      rw [Function.update_self, hbefore]
    · have hbefore := hb.delivered
      rw [hidle] at hbefore
      exact hbefore
    · intro u hu
      exact Function.update_of_ne hu _ _
  | again =>
    exact balances_of_record_eq hb (by rfl) (by rfl) (by rfl) (by rfl) hnone.symm hidle.symm
  | error =>
    exact balances_of_record_eq hb (by rfl) (by rfl) (by rfl) (by rfl) hnone.symm hidle.symm
  | eof =>
    exact balances_of_record_eq hb (by rfl) (by rfl) (by rfl) (by rfl) hnone.symm hidle.symm

theorem writeStep_balances (hok : ThreadOk f.process t f.thread)
    (hb : Balances t f.record (some f.thread)) (hpc : f.thread.pc = .write) {env : WriteEnv}
    (h : writeStep t env f = .ok f') (hfull : f'.record.inFull = true) :
    Balances t f'.record (some f'.thread) ∧ Apart t f.record f'.record := by
  obtain ⟨pos, hwrite⟩ := hok.writeFd (by rw [hpc]; rfl)
  have hhand : inHand (some f.thread) = f.thread.recvBuf := by simp [inHand, hpc]
  have hway : underWay (some f.thread) = f.thread.sent := by simp [underWay, hpc, holdsLock]
  simp only [writeStep, hwrite] at h
  split at h
  next => cases h
  next r device hrun =>
    obtain rfl := Except.ok.inj h
    have hr : r = f.thread.recvBuf.length :=
      of_decide_eq_true (Bool.and_eq_true_iff.mp hfull).2
    have hall : f.thread.recvBuf.take r.toNat = f.thread.recvBuf := by
      rw [hr]
      exact List.take_length
    refine ⟨⟨?_, ?_⟩, fun _ _ => rfl, fun _ _ => rfl, ?_, fun _ _ => rfl⟩
    · have hbefore := hb.received
      rw [hhand] at hbefore
      have hafter := own_concat_self f.record.writes t (f.thread.recvBuf.take r.toNat)
      rw [hall] at hafter
      show f.record.received t =
        own t (f.record.writes ++ [(t, f.thread.recvBuf.take r.toNat)]) ++ []
      rw [hall, hafter, List.append_nil]
      exact hbefore
    · have hbefore := hb.delivered
      rw [hway] at hbefore
      exact hbefore
    · intro u hu
      exact own_concat_of_ne f.record.writes hu _

theorem sendStep_balances (hok : ThreadOk f.process t f.thread)
    (hb : Balances t f.record (some f.thread)) (hpc : f.thread.pc = .send) (room : Nat) :
    Balances t (sendStep room f).record (some (sendStep room f).thread) ∧
      Apart t f.record (sendStep room f).record := by
  have hconn := hok.conn (by rw [hpc]; decide)
  have hhand : inHand (some f.thread) = [] := by simp [inHand, hpc]
  have hway : underWay (some f.thread) = f.thread.sent := by simp [underWay, hpc, holdsLock]
  unfold sendStep
  rw [hconn]
  refine ⟨⟨?_, ?_⟩, fun _ _ => rfl, ?_, fun _ _ => rfl, fun _ _ => rfl⟩
  · have hbefore := hb.received
    rw [hhand] at hbefore
    exact hbefore
  · have hbefore := hb.delivered
    rw [hway] at hbefore
    show Function.update f.record.delivered t (f.record.delivered t ++ f.thread.sendBuf.take room)
      t = sentBy f.record t ++ (f.thread.sent ++ f.thread.sendBuf.take room)
    rw [Function.update_self, hbefore, List.append_assoc]
  · intro u hu
    exact Function.update_of_ne hu _ _

theorem unlockStep_balances (hb : Balances t f.record (some f.thread))
    (hpc : f.thread.pc = .unlock) :
    Balances t (unlockStep t f).record (some (unlockStep t f).thread) ∧
      Apart t f.record (unlockStep t f).record := by
  have hhand : inHand (some f.thread) = [] := by simp [inHand, hpc]
  have hway : underWay (some f.thread) = f.thread.sent := by simp [underWay, hpc, holdsLock]
  refine ⟨⟨?_, ?_⟩, fun _ _ => rfl, fun _ _ => rfl, fun _ _ => rfl, ?_⟩
  · have hbefore := hb.received
    rw [hhand] at hbefore
    exact hbefore
  · have hbefore := hb.delivered
    rw [hway] at hbefore
    have hafter := @sentBy_concat_self f.record t
      ⟨f.thread.ticket, t, f.thread.recvBuf, f.thread.sent, f.process.device⟩ rfl
    show f.record.delivered t = ((f.record.sections ++ [_]).filter
      fun x : Section => x.thread == t).flatMap Section.sent ++ []
    rw [hafter, List.append_nil]
    exact hbefore
  · intro u hu
    exact sentBy_concat_of_ne f.record hu.symm

/-- A step in which nothing fails keeps the accounts of its own connection balanced and leaves
those of the others alone. -/
theorem handlerStep_balances (hok : ThreadOk f.process t f.thread)
    (hb : Balances t f.record (some f.thread)) (hgoes : f.thread.pc ≠ .unlockContinue)
    (h : handlerStep t c f = .ok f') (hfull : f'.record.inFull = true) :
    Balances t f'.record (some f'.thread) ∧ Apart t f.record f'.record := by
  cases hpc : f.thread.pc <;> simp only [handlerStep, hpc, Except.ok.injEq, reduceCtorEq] at h
  case loopTest =>
    subst h
    refine balances_of_record_eq hb (by rfl) (by rfl) (by rfl) (by rfl) ?_ ?_
    · unfold loopTest
      split <;> simp [inHand, hpc]
    · unfold loopTest
      split <;> simp [underWay, holdsLock, hpc]
  case recv => exact h ▸ recvStep_balances hb hpc c.recv
  case lock =>
    unfold lockStep at h
    split at h
    next =>
      obtain rfl := Except.ok.inj h
      refine balances_of_record_eq hb (by rfl) (by rfl) (by rfl) (by rfl) ?_ ?_
      · simp [inHand, hpc]
      · simp [underWay, holdsLock, hpc]
    next => cases h
  case openWrite =>
    subst h
    cases hc : c.opens with
    | false =>
      rw [hc] at hfull
      cases hfull
    | true =>
      refine balances_of_record_eq hb (by rfl) (by rfl) (by rfl) (by rfl) ?_ ?_
      · simp [inHand, hpc, openWriteStep]
      · simp [underWay, holdsLock, hpc, openWriteStep]
  case write => exact writeStep_balances hok hb hpc h hfull
  case openRead =>
    subst h
    cases hc : c.opens with
    | false =>
      rw [hc] at hfull
      cases hfull
    | true =>
      refine balances_of_record_eq hb (by rfl) (by rfl) (by rfl) (by rfl) ?_ ?_
      · simp [inHand, hpc, openReadStep]
      · simp [underWay, holdsLock, hpc, openReadStep]
  case readBack =>
    unfold readBackStep at h
    split at h
    next =>
      split at h
      next => cases h
      next result _ =>
        obtain rfl := Except.ok.inj h
        refine balances_of_record_eq hb (by rfl) (by rfl) (by rfl) (by rfl) ?_ ?_
        · by_cases hpos : 0 < result.ret <;> simp [inHand, hpc, hpos]
        · by_cases hpos : 0 < result.ret <;> simp [underWay, holdsLock, hpc, hpos]
    next =>
      obtain rfl := Except.ok.inj h
      cases hfull
  case send => exact h ▸ sendStep_balances hok hb hpc c.room
  case closeWrite =>
    subst h
    refine balances_of_record_eq hb (by rfl) (by rfl) (by rfl) (by rfl) ?_ ?_
    · simp [inHand, hpc, closeWriteStep]
    · simp [underWay, holdsLock, hpc, closeWriteStep]
  case closeRead =>
    subst h
    refine balances_of_record_eq hb (by rfl) (by rfl) (by rfl) (by rfl) ?_ ?_
    · simp [inHand, hpc, closeReadStep]
    · simp [underWay, holdsLock, hpc, closeReadStep]
  case unlock => exact h ▸ unlockStep_balances hb hpc
  case unlockContinue => exact absurd hpc hgoes
  case closeConn =>
    subst h
    refine balances_of_record_eq hb (by rfl) (by rfl) (by rfl) (by rfl) ?_ ?_
    · simp [inHand, hpc, closeConnStep]
    · simp [underWay, holdsLock, hpc, closeConnStep]

/-- A step adds at most a section of its own thread. -/
theorem handlerStep_owned (h : handlerStep t c f = .ok f') :
    ∀ x : Section, x ∈ f'.record.sections → x ∈ f.record.sections ∨ x.thread = t := by
  rcases (handlerStep_recorded h).sections with heq | ⟨sec, heq, hsec⟩
  · intro x hx
    rw [heq] at hx
    exact .inl hx
  · intro x hx
    rw [heq] at hx
    rcases List.mem_append.mp hx with hx | hx
    · exact .inl hx
    · exact .inr (List.mem_singleton.mp hx ▸ hsec)

end Steps

section Runs

variable {log₀ : Log} {s s' : ServerState}

/-- Where nothing failed, no handler is at the unlock in front of a `continue`. -/
theorem Serialised.pc_ne_unlockContinue (hs : Safe log₀ s) (h : Serialised log₀ s) {t : Nat}
    {th : Thread} (hth : s.threads[t]? = some th) : th.pc ≠ .unlockContinue := by
  intro hpc
  have hmine := (hs.threads t th hth).lock.mp (by rw [hpc]; rfl)
  exact (h.holder t th hmine hth).reply.pc_ne_unlockContinue hpc

theorem AllBalance.step (hs : Safe log₀ s) (h : Serialised log₀ s) (ha : AllBalance s) {l : Label}
    (hstep : serverStep s l = .ok s') (hfull : s'.record.inFull = true) : AllBalance s' := by
  cases l with
  | connect =>
    obtain rfl := connect_inv hstep
    refine ⟨?_, ?_⟩
    · intro t
      have hb := ha.balances t
      rcases getElem?_concat s.threads (startThread s.process.table.lowestFree) t with
        hsame | ⟨-, hnone, hnew⟩
      · rw [hsame]
        exact hb
      · -- a connection that is new has as empty accounts as one that does not exist
        rw [hnone] at hb
        rw [hnew]
        exact ⟨hb.received, hb.delivered⟩
    · intro x hx
      show x.thread < (s.threads ++ [_]).length
      rw [List.length_append]
      exact Nat.lt_add_right _ (ha.owned x hx)
  | signal =>
    obtain rfl := (Except.ok.inj hstep).symm
    exact ⟨ha.balances, ha.owned⟩
  | handler t c =>
    obtain ⟨th, f', hth, hf, rfl⟩ := handler_inv hstep
    have hb := ha.balances t
    rw [hth] at hb
    have hok : ThreadOk (s.frame th).process t (s.frame th).thread := hs.threads t th hth
    have hboth := handlerStep_balances hok hb (Serialised.pc_ne_unlockContinue hs h hth) hf hfull
    refine ⟨?_, ?_⟩
    · intro u
      rw [getElem?_update hth]
      by_cases hu : u = t
      · rw [if_pos hu, hu]
        exact hboth.1
      · have hbu := ha.balances u
        rw [if_neg hu]
        constructor
        · show f'.record.received u = writtenBy f'.record u ++ _
          rw [hboth.2.received u hu, hboth.2.writtenBy u hu]
          exact hbu.received
        · show f'.record.delivered u = sentBy f'.record u ++ _
          rw [hboth.2.delivered u hu, hboth.2.sentBy u hu]
          exact hbu.delivered
    · intro x hx
      show x.thread < (s.threads.set t f'.thread).length
      rw [List.length_set]
      rcases handlerStep_owned hf x hx with hold | hnew
      · exact ha.owned x hold
      · rw [hnew]
        exact (List.getElem?_eq_some_iff.mp hth).1

theorem allBalance_start (device : DriverState) : AllBalance (startServer device) where
  balances := fun _ => ⟨rfl, rfl⟩
  owned := nofun

theorem allBalance_run {device : DriverState} {slots : List Slot} {lost : Set Nat}
    (hrep : Represents device log₀ slots lost) {labels : List Label}
    (hrun : run serverStep (startServer device) labels = .ok s)
    (hfull : s.record.inFull = true) : AllBalance s := by
  have hinv : Safe log₀ s ∧ (s.record.inFull = true → Serialised log₀ s ∧ AllBalance s) := by
    apply run_invariant (I := fun s => Safe log₀ s ∧
      (s.record.inFull = true → Serialised log₀ s ∧ AllBalance s)) _ _ hrun
    · rintro s l s' ⟨hs, h⟩ hstep
      refine ⟨hs.step hstep, fun hf => ?_⟩
      obtain ⟨hserial, haccounts⟩ := h (inFull_of_serverStep hstep hf)
      exact ⟨hserial.step hs hstep hf, haccounts.step hs hserial hstep hf⟩
    · exact ⟨safe_start hrep, fun _ => ⟨serialised_start log₀ device, allBalance_start device⟩⟩
  exact (hinv.2 hfull).2

end Runs

end Aesd.Server.Accounts
