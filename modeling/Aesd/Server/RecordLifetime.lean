/- Aesd/Server/RecordLifetime
   layer: system
   digest: The connection record of a handler outlives it. -/

import Aesd.Driver.Ownership
import Aesd.Server.ConnectionList
import Aesd.Server.Shutdown

set_option autoImplicit false
set_option relaxedAutoImplicit false

namespace Aesd.Server.RecordLifetime

open Aesd.Foundation.LinkedList
open Aesd.Foundation.Run
open Aesd.Driver.Device
open Aesd.Driver.Ownership
open Aesd.Server.Handler
open Aesd.Server.Safety
open Aesd.Server.MainLoop
open Aesd.Server.ConnectionList
open Aesd.Server.Shutdown

section Invariant

variable {s s' : MainState} {inserted : Nat}

/-- The record of handler `t` is allocated and holds its id and its connection. -/
def HasRecord (m : Nodes Entry) (t : Nat) (th : Thread) : Prop :=
  contents m t = some (⟨some t, th.connFd⟩, false)

/-- `main` is about to take the record at `np` out of the list, or to free it. -/
def discards : MainPc → Bool
  | .remove | .free => true
  | _ => false

/-- Every handler that is not done has its record, and `main` discards no record of such a
handler. -/
structure Kept (s : MainState) : Prop where
  record : ∀ (t : Nat) (th : Thread), s.server.threads[t]? = some th → th.pc ≠ .done →
    HasRecord s.nodes t th
  joined : discards s.pc = true → ∀ (a : Nat) (th : Thread), s.np = some a →
    s.server.threads[a]? = some th → th.pc = .done

theorem kept_start (device : DriverState) : Kept (startMain device) where
  record := by simp [startMain, startServer]
  joined := by simp [startMain, discards]

/-- A step of `main` that changes links only. -/
theorem Kept.of_contents (h : Kept s) (hthreads : s'.server.threads = s.server.threads)
    (hnodes : ∀ a < s.server.threads.length, contents s'.nodes a = contents s.nodes a)
    (hjoined : discards s'.pc = true → ∀ (a : Nat) (th : Thread), s'.np = some a →
      s.server.threads[a]? = some th → th.pc = .done) : Kept s' where
  record := by
    intro t th hth hpc
    rw [hthreads] at hth
    rw [HasRecord, hnodes t (List.getElem?_eq_some_iff.mp hth).1]
    exact h.record t th hth hpc
  joined := by
    rw [hthreads]
    exact hjoined

theorem Kept.create (h : Kept s) (hbuilding : Building s inserted) (hpc : s.pc = .create)
    {succeeds : Bool} (hstep : createStep succeeds s = .ok s') : Kept s' := by
  have hcounted := hbuilding.counted
  rw [hpc] at hcounted
  obtain ⟨-, hn, hn1⟩ := hcounted
  obtain ⟨nd, hnd, ⟨-, rfl⟩ | ⟨-, rfl⟩⟩ := createStep_inv hstep
  · refine ⟨?_, by simp [discards]⟩
    intro t th hth hdone
    rcases getElem?_concat s.server.threads (startThread nd.value.connFd) t with
      hold | ⟨rfl, -, hnew⟩
    · have hth' : s.server.threads[t]? = some th := hold ▸ hth
      have hne : t ≠ s.n1 := by
        have hlt := (List.getElem?_eq_some_iff.mp hth').1
        omega
      rw [HasRecord, contents_of_getElem? (getElem?_setValue_of_ne hne _)]
      exact h.record t th hth' hdone
    · obtain rfl := Option.some.inj (hnew.symm.trans hth)
      obtain ⟨nd', hnd', hfreed, -⟩ := hbuilding.live s.n1 (by omega)
      obtain rfl := Option.some.inj (hnd.symm.trans hnd')
      rw [HasRecord, ← hn1, contents, getElem?_setValue_self hnd, Option.map_some, hfreed]
      rfl
  · exact h.of_contents rfl (fun _ _ => rfl) (by simp [discards])

/-- `main` discards a record behind a `pthread_join` that found the id of its handler in it. -/
theorem Kept.join (h : Kept s) (hstep : joinStep s = .ok s') : Kept s' := by
  obtain ⟨a, nd, hnp, hnd, hjoinable, rfl⟩ := joinStep_inv hstep
  refine h.of_contents rfl (fun _ _ => rfl) ?_
  intro _ b th hb hth
  obtain rfl : a = b := Option.some.inj (hnp.symm.trans hb)
  by_contra hdone
  have hrecord := h.record a th hth hdone
  rw [HasRecord, contents, hnd, Option.map_some, Option.some.injEq, Prod.mk.injEq] at hrecord
  rw [joinable, hrecord.1, Option.bind_some, hth] at hjoinable
  exact hdone (of_decide_eq_true hjoinable)

theorem Kept.free (h : Kept s) (hpc : s.pc = .free) {stale : Node Entry}
    (hstep : freeStep stale s = .ok s') : Kept s' := by
  obtain ⟨a, hnp, rfl⟩ := freeStep_inv hstep
  refine ⟨?_, by simp [discards]⟩
  intro t th hth hdone
  have hne : a ≠ t := by
    rintro rfl
    exact hdone (h.joined (by rw [hpc]; rfl) a th hnp hth)
  rw [HasRecord, contents_of_getElem? (List.getElem?_set_ne hne)]
  exact h.record t th hth hdone

theorem Kept.main (h : Kept s) (hphase : (∃ inserted, Building s inserted) ∨ Aftermath s)
    {c : MainChoice} (hstep : mainThreadStep c s = .ok s') : Kept s' := by
  have hmoved : ∀ s'' : MainState, s''.server.threads = s.server.threads →
      s''.nodes = s.nodes → discards s''.pc = false → Kept s'' := by
    intro s'' hthreads hnodes hpc
    exact h.of_contents hthreads (fun a _ => by rw [hnodes]) (by simp [hpc])
  cases hpc : s.pc <;> simp only [mainThreadStep, hpc, Except.ok.injEq, reduceCtorEq] at hstep
  case loopTest =>
    subst hstep
    refine hmoved _ rfl rfl ?_
    rw [loopTestStep]
    dsimp only
    split <;> simp [discards]
  case accept =>
    obtain ⟨-, rfl⟩ | rfl := acceptStep_inv hstep
    · exact hmoved _ rfl rfl (by simp [discards])
    · exact hmoved _ rfl rfl (by simp [discards])
  case closeSock => exact hstep ▸ hmoved _ rfl rfl (by simp [closeSockStep, discards])
  case fcntl =>
    subst hstep
    refine hmoved _ rfl rfl ?_
    cases c.fcntl <;> simp [fcntlStep, discards]
  case malloc =>
    subst hstep
    rw [mallocStep]
    split
    · refine h.of_contents rfl ?_ (by simp [discards])
      intro a ha
      apply contents_of_getElem?
      apply List.getElem?_append_left
      rcases hphase with ⟨inserted, hbuilding⟩ | hafter
      · have hcounted := hbuilding.counted
        rw [hpc] at hcounted
        obtain ⟨-, hequal⟩ := hcounted
        omega
      · rw [Aftermath, hpc] at hafter
        exact hafter.elim
    · exact hmoved _ rfl rfl (by simp [discards])
  case insert =>
    subst hstep
    exact h.of_contents rfl (fun a _ => contents_setNext _ _ _ a) (by simp [insertStep, discards])
  case create =>
    rcases hphase with ⟨inserted, hbuilding⟩ | hafter
    · exact h.create hbuilding hpc hstep
    · rw [Aftermath, hpc] at hafter
      exact hafter.elim
  case first =>
    subst hstep
    refine hmoved _ rfl rfl ?_
    rw [testStep]
    dsimp only
    split <;> simp [discards]
  case join => exact h.join hstep
  case remove =>
    obtain ⟨a, r, hnp, hr, rfl⟩ := removeStep_inv hstep
    refine h.of_contents rfl (fun b _ => contents_remove hr b) ?_
    exact fun _ => h.joined (by rw [hpc]; rfl)
  case free => exact h.free hpc hstep
  case advance =>
    obtain ⟨a, nd, hnp, hnd, rfl⟩ := advanceStep_inv hstep
    refine hmoved _ rfl rfl ?_
    rw [testStep]
    dsimp only
    split <;> simp [discards]

theorem handlerStep_connFd {t : Nat} {c : Choice} {f f' : Frame}
    (h : handlerStep t c f = .ok f') :
    f'.thread.connFd = f.thread.connFd ∧ f.thread.pc ≠ .done := by
  cases handlerStep_inv h with
  | recv hpc => cases hc : c.recv <;> simp [recvStep, hpc]
  | openWrite hpc => cases c.opens <;> simp [openWriteStep, hpc]
  | openRead hpc => cases c.opens <;> simp [openReadStep, hpc]
  | _ hpc => simp [hpc, loopTest, closeWriteStep, closeReadStep, unlockStep, unlockContinueStep,
      closeConnStep]

theorem Kept.step (h : Kept s) (hphase : (∃ inserted, Building s inserted) ∨ Aftermath s)
    {l : MainLabel} (hstep : mainStep s l = .ok s') : Kept s' := by
  cases l with
  | main c => exact h.main hphase hstep
  | signal =>
    obtain rfl := (Except.ok.inj hstep).symm
    exact ⟨h.record, h.joined⟩
  | handler u c =>
    have hu := unmoved_of_step (by simp) hstep
    obtain ⟨thu, f', hthu, hf, hserver⟩ := own_inv hstep
    obtain ⟨hconn, hrunning⟩ := handlerStep_connFd hf
    refine ⟨?_, ?_⟩
    · intro t th hth hdone
      rw [hserver, getElem?_update hthu] at hth
      rw [HasRecord, hu.nodes]
      split at hth
      next heq =>
        obtain rfl := Option.some.inj hth
        rw [hconn, heq]
        exact h.record u thu hthu hrunning
      next => exact h.record t th hth hdone
    · intro hpc a th hnp hth
      rw [hu.pc] at hpc
      rw [hu.np] at hnp
      rw [hserver, getElem?_update hthu] at hth
      split at hth
      next heq =>
        subst heq
        exact absurd (h.joined hpc a thu hnp hthu) hrunning
      next => exact h.joined hpc a th hnp hth

theorem kept_run {device : DriverState} {labels : List MainLabel}
    (hrun : run mainStep (startMain device) labels = .ok s) : Kept s :=
  run_reachable (kept_start device)
    (fun _ _ _ _ hreached h hstep => h.step (phase_run hreached) hstep) hrun

end Invariant

section Results

variable {s : MainState}

/-- Any number of connections, any outcomes of all calls, any interleaving, and anything in freed
memory. As long as a handler is not done, the record that it was started with is allocated, has not
been freed, and holds its thread id and its connection: no test, read or write of `conn_closed`
touches freed memory. `main` frees a record only when the handler it belongs to is done. -/
theorem record_outlives_handler (calls : List Call) :
    ∃ device, run callStep aesdInitModule calls = .ok device ∧
      ∀ labels s, run mainStep (startMain device) labels = .ok s →
        (∀ (t : Nat) (th : Thread), s.server.threads[t]? = some th → th.pc ≠ .done →
          ∃ nd, s.nodes[t]? = some nd ∧ nd.freed = false ∧ nd.value = ⟨some t, th.connFd⟩) ∧
        (s.pc = .free → ∀ (a : Nat) (th : Thread), s.np = some a →
          s.server.threads[a]? = some th → th.pc = .done) := by
  obtain ⟨device, hcalls, -⟩ := runCalls calls
  refine ⟨device, hcalls, fun labels s hrun => ?_⟩
  have hkept := kept_run hrun
  refine ⟨?_, fun hpc => hkept.joined (by rw [hpc]; rfl)⟩
  intro t th hth hdone
  have hrecord := hkept.record t th hth hdone
  obtain ⟨nd, hnd, hvalue⟩ := Option.map_eq_some_iff.mp hrecord
  obtain ⟨hentry, hfreed⟩ := Prod.mk.inj hvalue
  exact ⟨nd, hnd, hfreed, hentry⟩

end Results

end Aesd.Server.RecordLifetime
