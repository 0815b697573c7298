/- Aesd/Foundation/Atomicity
   layer: library
   digest: Tasks whose calls run under one semaphore, step by step, act like calls one at a time. -/

import Aesd.Foundation.Ranking

set_option autoImplicit false
set_option relaxedAutoImplicit false

namespace Aesd.Foundation.Atomicity

open Aesd.Foundation.Run
open Aesd.Foundation.Ranking

universe u

section Routines

variable {κ lo ρ σ ε : Type u}

/-- What a call does between taking the semaphore and giving it back, cut into steps on its local
variables and the shared state. The rank bounds the steps a call has left. -/
structure Routine (κ lo ρ σ ε : Type u) where
  enter : κ → lo
  step : lo → σ → Except ε ((lo ⊕ ρ) × σ)
  rank : lo → Nat
  rank_step : ∀ {l l' : lo} {s s' : σ}, step l s = .ok (.inl l', s') → rank l' < rank l

/-- The rest of a call in one go. -/
def Routine.rest (R : Routine κ lo ρ σ ε) (l : lo) (s : σ) : Except ε (ρ × σ) :=
  match _ : R.step l s with
  | .error e => .error e
  | .ok (.inr r, s') => .ok (r, s')
  | .ok (.inl l', s') => R.rest l' s'
termination_by R.rank l
decreasing_by exact R.rank_step (by assumption)

/-- A whole call in one go. -/
def Routine.whole (R : Routine κ lo ρ σ ε) (k : κ) (s : σ) : Except ε (ρ × σ) :=
  R.rest (R.enter k) s

variable {R : Routine κ lo ρ σ ε} {l l' : lo} {s s' : σ} {r : ρ}

theorem Routine.rest_more (h : R.step l s = .ok (.inl l', s')) : R.rest l s = R.rest l' s' := by
  rw [Routine.rest]
  split
  next heq => cases h.symm.trans heq
  next heq => cases h.symm.trans heq
  next heq =>
    obtain ⟨⟨rfl⟩, rfl⟩ := Prod.mk.inj (Except.ok.inj (h.symm.trans heq))
    rfl

theorem Routine.rest_last (h : R.step l s = .ok (.inr r, s')) : R.rest l s = .ok (r, s') := by
  rw [Routine.rest]
  split
  next heq => cases h.symm.trans heq
  next heq =>
    obtain ⟨⟨rfl⟩, rfl⟩ := Prod.mk.inj (Except.ok.inj (h.symm.trans heq))
    rfl
  next heq => cases h.symm.trans heq

theorem Routine.rest_error {e : ε} (h : R.step l s = .error e) : R.rest l s = .error e := by
  rw [Routine.rest]
  split
  next heq =>
    obtain rfl := Except.error.inj (h.symm.trans heq)
    rfl
  next heq => cases h.symm.trans heq
  next heq => cases h.symm.trans heq

/-- What is left of a call after a step. -/
def Routine.resume (R : Routine κ lo ρ σ ε) : (lo ⊕ ρ) × σ → Except ε (ρ × σ)
  | (.inl l, s) => R.rest l s
  | (.inr r, s) => .ok (r, s)

/-- The rest of a call is its next step followed by the rest. -/
theorem Routine.rest_eq (R : Routine κ lo ρ σ ε) (l : lo) (s : σ) :
    R.rest l s = (R.step l s >>= R.resume) := by
  cases hstep : R.step l s with
  | error e => exact R.rest_error hstep
  | ok next =>
    obtain ⟨l' | r, s'⟩ := next
    · exact R.rest_more hstep
    · exact R.rest_last hstep

/-- A step of a call that completes does not fault. -/
theorem Routine.step_ok (h : R.rest l s = .ok (r, s')) : ∃ next, R.step l s = .ok next := by
  cases hstep : R.step l s with
  | error e =>
    rw [R.rest_error hstep] at h
    cases h
  | ok next => exact ⟨next, rfl⟩

end Routines

section Machine

variable {κ lo ρ σ ε : Type u}

/-- Where a task is: outside, waiting in `down` with the call of that number, between `down` and
`up`, or behind `up` with its result. -/
inductive Task (κ lo ρ : Type u)
  | idle
  | waiting (number : Nat) (call : κ)
  | inside (number : Nat) (call : κ) (locals : lo)
  | leaving (number : Nat) (call : κ) (result : ρ)
  | returning (number : Nat) (result : ρ)

/-- A call that gave the semaphore back. -/
structure Done (κ ρ : Type u) where
  number : Nat
  call : κ
  result : ρ

/-- A call that returned to its caller, when `requested` calls had been made. -/
structure Return (ρ : Type u) where
  number : Nat
  result : ρ
  requested : Nat

/-- A semaphore, the state it guards, and the tasks that use it. The lists record the calls in the
order in which they are made, give the semaphore back, and return. -/
structure Machine (κ lo ρ σ : Type u) where
  shared : σ
  permits : Nat
  tasks : List (Task κ lo ρ)
  requests : List κ
  done : List (Done κ ρ)
  returned : List (Return ρ)

inductive Label (κ : Type u)
  | request (task : Nat) (call : κ)
  | down (task : Nat)
  | work (task : Nat)
  | up (task : Nat)
  | finish (task : Nat)

/-- A step that its task cannot take now, or a fault of the step itself. -/
inductive Stop (ε : Type u)
  | notNow
  | fault (e : ε)

/-- `n` idle tasks and a semaphore with one permit. -/
def start (n : Nat) (s : σ) : Machine κ lo ρ σ where
  shared := s
  permits := 1
  tasks := List.replicate n .idle
  requests := []
  done := []
  returned := []

def Machine.setTask (m : Machine κ lo ρ σ) (t : Nat) (task : Task κ lo ρ) : Machine κ lo ρ σ :=
  { m with tasks := m.tasks.set t task }

/-- The state in which a task is after a step of its routine. -/
def afterStep (number : Nat) (call : κ) : lo ⊕ ρ → Task κ lo ρ
  | .inl locals => .inside number call locals
  | .inr result => .leaving number call result

def machineStep (R : Routine κ lo ρ σ ε) (m : Machine κ lo ρ σ) :
    Label κ → Except (Stop ε) (Machine κ lo ρ σ)
  | .request t k => match m.tasks[t]? with
    | some .idle =>
      .ok { m.setTask t (.waiting m.requests.length k) with requests := m.requests ++ [k] }
    | _ => .error .notNow
  | .down t => match m.tasks[t]? with
    | some (.waiting n k) =>
      if 0 < m.permits then
        .ok { m.setTask t (.inside n k (R.enter k)) with permits := m.permits - 1 }
      else .error .notNow
    | _ => .error .notNow
  | .work t => match m.tasks[t]? with
    | some (.inside n k l) => match R.step l m.shared with
      | .ok (next, s) => .ok { m.setTask t (afterStep n k next) with shared := s }
      | .error e => .error (.fault e)
    | _ => .error .notNow
  | .up t => match m.tasks[t]? with
    | some (.leaving n k r) =>
      .ok { m.setTask t (.returning n r) with
        permits := m.permits + 1
        done := m.done ++ [⟨n, k, r⟩] }
    | _ => .error .notNow
  | .finish t => match m.tasks[t]? with
    | some (.returning n r) =>
      .ok { m.setTask t .idle with returned := m.returned ++ [⟨n, r, m.requests.length⟩] }
    | _ => .error .notNow

/-- What a step can do. -/
inductive StepCase (R : Routine κ lo ρ σ ε) (m : Machine κ lo ρ σ) :
    Label κ → Machine κ lo ρ σ → Prop
  | request {t : Nat} {k : κ} (ht : m.tasks[t]? = some .idle) :
      StepCase R m (.request t k)
        { m.setTask t (.waiting m.requests.length k) with requests := m.requests ++ [k] }
  | down {t n : Nat} {k : κ} (ht : m.tasks[t]? = some (.waiting n k)) (hfree : 0 < m.permits) :
      StepCase R m (.down t)
        { m.setTask t (.inside n k (R.enter k)) with permits := m.permits - 1 }
  | work {t n : Nat} {k : κ} {l : lo} {next : lo ⊕ ρ} {s : σ}
      (ht : m.tasks[t]? = some (.inside n k l)) (hstep : R.step l m.shared = .ok (next, s)) :
      StepCase R m (.work t) { m.setTask t (afterStep n k next) with shared := s }
  | up {t n : Nat} {k : κ} {r : ρ} (ht : m.tasks[t]? = some (.leaving n k r)) :
      StepCase R m (.up t)
        { m.setTask t (.returning n r) with
          permits := m.permits + 1
          done := m.done ++ [⟨n, k, r⟩] }
  | finish {t n : Nat} {r : ρ} (ht : m.tasks[t]? = some (.returning n r)) :
      StepCase R m (.finish t)
        { m.setTask t .idle with returned := m.returned ++ [⟨n, r, m.requests.length⟩] }

theorem machineStep_cases {R : Routine κ lo ρ σ ε} {m m' : Machine κ lo ρ σ} {l : Label κ}
    (h : machineStep R m l = .ok m') : StepCase R m l m' := by
  cases l with
  | request t k =>
    simp only [machineStep] at h
    split at h
    next ht =>
      obtain rfl := Except.ok.inj h
      exact .request ht
    next => cases h
  | down t =>
    simp only [machineStep] at h
    split at h
    next ht =>
      split at h
      next hfree =>
        obtain rfl := Except.ok.inj h
        exact .down ht hfree
      next => cases h
    next => cases h
  | work t =>
    simp only [machineStep] at h
    split at h
    next ht =>
      split at h
      next hstep =>
        obtain rfl := Except.ok.inj h
        exact .work ht hstep
      next => cases h
    next => cases h
  | up t =>
    simp only [machineStep] at h
    split at h
    next ht =>
      obtain rfl := Except.ok.inj h
      exact .up ht
    next => cases h
  | finish t =>
    simp only [machineStep] at h
    split at h
    next ht =>
      obtain rfl := Except.ok.inj h
      exact .finish ht
    next => cases h

theorem StepCase.step_eq {R : Routine κ lo ρ σ ε} {m m' : Machine κ lo ρ σ} {l : Label κ}
    (h : StepCase R m l m') : machineStep R m l = .ok m' := by
  cases h with
  | request ht => simp only [machineStep, ht]
  | down ht hfree => simp only [machineStep, ht, if_pos hfree]
  | work ht hstep => simp only [machineStep, ht, hstep]
  | up ht => simp only [machineStep, ht]
  | finish ht => simp only [machineStep, ht]

end Machine

section Tasks

variable {κ lo ρ σ : Type u} {m : Machine κ lo ρ σ} {t u : Nat} {task task' : Task κ lo ρ}

/-- The number of a call that has not given the semaphore back. -/
def Task.pending : Task κ lo ρ → Option Nat
  | .waiting n _ => some n
  | .inside n _ _ => some n
  | .leaving n _ _ => some n
  | _ => none

/-- The call of a task that has not given the semaphore back. -/
def Task.call : Task κ lo ρ → Option κ
  | .waiting _ k => some k
  | .inside _ k _ => some k
  | .leaving _ k _ => some k
  | _ => none

/-- The task holds the semaphore. -/
def Task.Holds : Task κ lo ρ → Prop
  | .inside _ _ _ => True
  | .leaving _ _ _ => True
  | _ => False

@[simp] theorem Task.pending_afterStep (n : Nat) (k : κ) (next : lo ⊕ ρ) :
    (afterStep n k next).pending = some n := by
  cases next <;> rfl

@[simp] theorem Task.call_afterStep (n : Nat) (k : κ) (next : lo ⊕ ρ) :
    (afterStep n k next).call = some k := by
  cases next <;> rfl

theorem getElem?_setTask (ht : m.tasks[t]? = some task) (task' : Task κ lo ρ) (u : Nat) :
    (m.setTask t task').tasks[u]? = if u = t then some task' else m.tasks[u]? := by
  have hlt : t < m.tasks.length := (List.getElem?_eq_some_iff.mp ht).1
  rw [Machine.setTask, List.getElem?_set]
  by_cases hu : u = t
  · rw [if_pos hu, if_pos hu.symm, if_pos hlt]
  · rw [if_neg hu, if_neg (Ne.symm hu)]

/-- A task after a step is the one that took it, or as it was. -/
theorem setTask_inv {taskᵤ : Task κ lo ρ} (ht : m.tasks[t]? = some task)
    (hu : (m.setTask t task').tasks[u]? = some taskᵤ) :
    (u = t ∧ taskᵤ = task') ∨ (u ≠ t ∧ m.tasks[u]? = some taskᵤ) := by
  rw [getElem?_setTask ht] at hu
  by_cases heq : u = t
  · rw [if_pos heq] at hu
    exact .inl ⟨heq, (Option.some.inj hu).symm⟩
  · rw [if_neg heq] at hu
    exact .inr ⟨heq, hu⟩

end Tasks

section Order

variable {κ lo ρ σ ε : Type u} {R : Routine κ lo ρ σ ε} {s₀ s s' : σ} {m m' : Machine κ lo ρ σ}
  {l : Label κ}

/-- The calls one at a time, each with the result it has in that order. -/
inductive Serial (R : Routine κ lo ρ σ ε) (s₀ : σ) : List (Done κ ρ) → σ → Prop
  | nil : Serial R s₀ [] s₀
  | snoc {done : List (Done κ ρ)} {d : Done κ ρ} {s s' : σ} : Serial R s₀ done s →
      R.whole d.call s = .ok (d.result, s') → Serial R s₀ (done ++ [d]) s'

/-- What the holder of the semaphore has left to do completes its call from the state in which it
took the semaphore. -/
def Continues (R : Routine κ lo ρ σ ε) (s shared : σ) : Task κ lo ρ → Prop
  | .inside _ k l => R.rest l shared = R.whole k s
  | .leaving _ k r => R.whole k s = .ok (r, shared)
  | _ => False

/-- The shared state is the one that the finished calls leave one at a time, unless a task holds
the semaphore, and then that task alone will complete its call from there. -/
structure Explained (R : Routine κ lo ρ σ ε) (s₀ : σ) (m : Machine κ lo ρ σ) (s : σ) : Prop where
  serial : Serial R s₀ m.done s
  free : 0 < m.permits → m.permits = 1 ∧ m.shared = s ∧
    ∀ (t : Nat) (task : Task κ lo ρ), m.tasks[t]? = some task → ¬task.Holds
  held : m.permits = 0 → ∃ (t : Nat) (task : Task κ lo ρ), m.tasks[t]? = some task ∧
    Continues R s m.shared task ∧
    ∀ (u : Nat) (task' : Task κ lo ρ), m.tasks[u]? = some task' → task'.Holds → u = t

theorem Explained.start (R : Routine κ lo ρ σ ε) (s₀ : σ) (n : Nat) :
    Explained R s₀ (start n s₀) s₀ where
  serial := .nil
  free := by
    intro _
    refine ⟨rfl, rfl, ?_⟩
    intro t task ht hholds
    obtain rfl := (List.mem_replicate.mp (List.mem_of_getElem? ht)).2
    exact hholds
  held := by
    intro h
    cases h

/-- The holder of the semaphore is the task that `held` speaks of. -/
theorem Explained.holder {task : Task κ lo ρ} {t : Nat} (h : Explained R s₀ m s)
    (ht : m.tasks[t]? = some task) (hholds : task.Holds) :
    m.permits = 0 ∧ Continues R s m.shared task ∧
      ∀ (u : Nat) (task' : Task κ lo ρ), m.tasks[u]? = some task' → task'.Holds → u = t := by
  have hzero : m.permits = 0 := by
    by_contra hne
    exact (h.free (Nat.pos_of_ne_zero hne)).2.2 t task ht hholds
  obtain ⟨v, taskv, hv, hcont, honly⟩ := h.held hzero
  obtain rfl := honly t task ht hholds
  obtain rfl := Option.some.inj (hv.symm.trans ht)
  exact ⟨hzero, hcont, honly⟩

/-- A step of a task that does not hold the semaphore, before or after. -/
theorem Explained.outside {task task' : Task κ lo ρ} {t : Nat} (h : Explained R s₀ m s)
    (ht : m.tasks[t]? = some task) (hbefore : ¬task.Holds) (hafter : ¬task'.Holds)
    {requests : List κ} {returned : List (Return ρ)} :
    Explained R s₀
      { m.setTask t task' with requests := requests, returned := returned } s where
  serial := h.serial
  free := by
    intro hfree
    obtain ⟨hone, hshared, hnone⟩ := h.free hfree
    refine ⟨hone, hshared, ?_⟩
    intro u tasku hu
    rcases setTask_inv ht hu with ⟨-, rfl⟩ | ⟨-, hold⟩
    · exact hafter
    · exact hnone u tasku hold
  held := by
    intro hzero
    obtain ⟨v, taskv, hv, hcont, honly⟩ := h.held hzero
    have hne : v ≠ t := by
      rintro rfl
      obtain rfl := Option.some.inj (hv.symm.trans ht)
      cases taskv <;> first | exact hbefore trivial | exact hcont
    refine ⟨v, taskv, ?_, hcont, ?_⟩
    · show (m.setTask t task').tasks[v]? = some taskv
      rw [getElem?_setTask ht, if_neg hne]
      exact hv
    · intro u tasku hu hholds
      rcases setTask_inv ht hu with ⟨-, rfl⟩ | ⟨-, hold⟩
      · exact absurd hholds hafter
      · exact honly u tasku hold hholds

/-- A step after which the task that took it holds the semaphore. -/
theorem Explained.hold {task task' : Task κ lo ρ} {t : Nat} {shared : σ}
    (h : Explained R s₀ m s) (ht : m.tasks[t]? = some task)
    (hothers : ∀ (u : Nat) (task' : Task κ lo ρ), m.tasks[u]? = some task' → task'.Holds → u = t)
    (hcont : Continues R s shared task') :
    Explained R s₀ { m.setTask t task' with permits := 0, shared := shared } s where
  serial := h.serial
  free := fun hfree => absurd hfree (Nat.lt_irrefl 0)
  held := by
    intro _
    refine ⟨t, task', ?_, hcont, ?_⟩
    · show (m.setTask t task').tasks[t]? = some task'
      rw [getElem?_setTask ht, if_pos rfl]
    · intro u tasku hu hholds
      rcases setTask_inv ht hu with ⟨heq, -⟩ | ⟨-, hold⟩
      · exact heq
      · exact hothers u tasku hold hholds

theorem Explained.step (h : Explained R s₀ m s) (hstep : machineStep R m l = .ok m') :
    ∃ s', Explained R s₀ m' s' := by
  cases machineStep_cases hstep with
  | request ht =>
    refine ⟨s, h.outside ht ?_ ?_⟩
    · exact fun hholds => hholds
    · exact fun hholds => hholds
  | finish ht =>
    refine ⟨s, h.outside ht ?_ ?_⟩
    · exact fun hholds => hholds
    · exact fun hholds => hholds
  | @down t n k ht hfree =>
    obtain ⟨hone, hshared, hnone⟩ := h.free hfree
    have hcont : Continues R s m.shared (.inside n k (R.enter k)) := by
      rw [hshared]
      rfl
    have hnext := h.hold ht (fun u tasku hu hh => absurd hh (hnone u tasku hu)) hcont
    refine ⟨s, ?_⟩
    rw [hone]
    exact hnext
  | @work t n k locals next shared ht hwork =>
    obtain ⟨hzero, hcont, honly⟩ := h.holder ht trivial
    have hcont' : Continues R s shared (afterStep n k next) := by
      cases next with
      | inl locals' => exact (R.rest_more hwork).symm.trans hcont
      | inr r => exact hcont.symm.trans (R.rest_last hwork)
    have hnext := h.hold ht honly hcont'
    refine ⟨s, ?_⟩
    rw [← hzero] at hnext
    exact hnext
  | @up t n k r ht =>
    obtain ⟨hzero, hcont, honly⟩ := h.holder ht trivial
    refine ⟨m.shared, .snoc h.serial hcont, ?_, ?_⟩
    · intro _
      refine ⟨by simp [hzero], rfl, ?_⟩
      intro u tasku hu hholds
      rcases setTask_inv ht hu with ⟨-, rfl⟩ | ⟨hne, hold⟩
      · exact hholds
      · exact hne (honly u tasku hold hholds)
    · intro hnone
      exact absurd hnone (Nat.succ_ne_zero _)

end Order

section Numbers

variable {κ lo ρ σ ε : Type u} {R : Routine κ lo ρ σ ε} {m m' : Machine κ lo ρ σ} {l : Label κ}

/-- The calls carry different numbers, the numbers of the requests they were made with. A call
returns the result with which it gave the semaphore back, and whatever gave it back before that
was requested before it returned. -/
structure Numbered (m : Machine κ lo ρ σ) : Prop where
  distinct : ∀ (t u : Nat) (task task' : Task κ lo ρ) (n : Nat), m.tasks[t]? = some task →
    m.tasks[u]? = some task' → task.pending = some n → task'.pending = some n → t = u
  fresh : ∀ (t : Nat) (task : Task κ lo ρ) (n : Nat), m.tasks[t]? = some task →
    task.pending = some n → m.requests[n]? = task.call ∧ n ∉ m.done.map Done.number
  nodup : (m.done.map Done.number).Nodup
  calls : ∀ d ∈ m.done, m.requests[d.number]? = some d.call
  returning : ∀ (t n : Nat) (r : ρ), m.tasks[t]? = some (.returning n r) →
    ∃ d ∈ m.done, d.number = n ∧ d.result = r
  returned : ∀ ret ∈ m.returned, ∃ pre post, m.done = pre ++ post ∧
    (∃ d ∈ pre, d.number = ret.number ∧ d.result = ret.result) ∧
    ∀ d ∈ pre, d.number < ret.requested

theorem Numbered.start (n : Nat) (s : σ) : Numbered (start n s : Machine κ lo ρ σ) where
  distinct := by
    intro t u task task' k ht _ hk
    obtain rfl := (List.mem_replicate.mp (List.mem_of_getElem? ht)).2
    cases hk
  fresh := by
    intro t task k ht hk
    obtain rfl := (List.mem_replicate.mp (List.mem_of_getElem? ht)).2
    cases hk
  nodup := List.nodup_nil
  calls := by
    intro d hd
    cases hd
  returning := by
    intro t k r ht
    cases (List.mem_replicate.mp (List.mem_of_getElem? ht)).2
  returned := by
    intro ret hret
    cases hret

theorem Numbered.pending_lt (h : Numbered m) {t n : Nat} {task : Task κ lo ρ}
    (ht : m.tasks[t]? = some task) (hn : task.pending = some n) : n < m.requests.length := by
  have hcall := (h.fresh t task n ht hn).1
  cases task with
  | waiting number k => exact (List.getElem?_eq_some_iff.mp hcall).1
  | inside number k locals => exact (List.getElem?_eq_some_iff.mp hcall).1
  | leaving number k r => exact (List.getElem?_eq_some_iff.mp hcall).1
  | idle => cases hn
  | returning number r => cases hn

theorem Numbered.done_lt (h : Numbered m) {d : Done κ ρ} (hd : d ∈ m.done) :
    d.number < m.requests.length := (List.getElem?_eq_some_iff.mp (h.calls d hd)).1

/-- A step of a call that keeps its number and its call. -/
theorem Numbered.advance (h : Numbered m) {t : Nat} {task task' : Task κ lo ρ}
    (ht : m.tasks[t]? = some task) (hpending : task'.pending = task.pending)
    (hcall : task'.call = task.call) (hnot : ∀ n r, task' ≠ .returning n r) {shared : σ}
    {permits : Nat} : Numbered { m.setTask t task' with shared := shared, permits := permits } where
  distinct := by
    intro u v tasku taskv n hu hv hnu hnv
    have hback : ∀ (w : Nat) (taskw : Task κ lo ρ), (m.setTask t task').tasks[w]? = some taskw →
        taskw.pending = some n →
        ∃ taskw' : Task κ lo ρ, m.tasks[w]? = some taskw' ∧ taskw'.pending = some n := by
      intro w taskw hw hn
      rcases setTask_inv ht hw with ⟨rfl, rfl⟩ | ⟨-, hold⟩
      · exact ⟨task, ht, hpending ▸ hn⟩
      · exact ⟨taskw, hold, hn⟩
    obtain ⟨tasku', hu', hnu'⟩ := hback u tasku hu hnu
    obtain ⟨taskv', hv', hnv'⟩ := hback v taskv hv hnv
    exact h.distinct u v tasku' taskv' n hu' hv' hnu' hnv'
  fresh := by
    intro u tasku n hu hn
    rcases setTask_inv ht hu with ⟨rfl, rfl⟩ | ⟨-, hold⟩
    · rw [hcall]
      exact h.fresh u task n ht (hpending ▸ hn)
    · exact h.fresh u tasku n hold hn
  nodup := h.nodup
  calls := h.calls
  returning := by
    intro u n r hu
    rcases setTask_inv ht hu with ⟨-, heq⟩ | ⟨-, hold⟩
    · exact absurd heq.symm (hnot n r)
    · exact h.returning u n r hold
  returned := h.returned

theorem Numbered.request (h : Numbered m) {t : Nat} (ht : m.tasks[t]? = some .idle) (k : κ) :
    Numbered { m.setTask t (.waiting m.requests.length k) with requests := m.requests ++ [k] } where
  distinct := by
    intro u v tasku taskv n hu hv hnu hnv
    rcases setTask_inv ht hu with ⟨rfl, rfl⟩ | ⟨-, hu'⟩
    · rcases setTask_inv ht hv with ⟨rfl, -⟩ | ⟨-, hv'⟩
      · rfl
      · obtain rfl := Option.some.inj hnu
        exact absurd (h.pending_lt hv' hnv) (Nat.lt_irrefl _)
    · rcases setTask_inv ht hv with ⟨-, rfl⟩ | ⟨-, hv'⟩
      · obtain rfl := Option.some.inj hnv
        exact absurd (h.pending_lt hu' hnu) (Nat.lt_irrefl _)
      · exact h.distinct u v tasku taskv n hu' hv' hnu hnv
  fresh := by
    intro u tasku n hu hn
    rcases setTask_inv ht hu with ⟨rfl, rfl⟩ | ⟨-, hold⟩
    · obtain rfl := Option.some.inj hn
      refine ⟨List.getElem?_concat_length, ?_⟩
      intro hmem
      obtain ⟨d, hd, heq⟩ := List.mem_map.mp hmem
      have hlt := h.done_lt hd
      omega
    · have hlt := h.pending_lt hold hn
      obtain ⟨hcall, hnot⟩ := h.fresh u tasku n hold hn
      exact ⟨by rw [← hcall]; exact List.getElem?_append_left hlt, hnot⟩
  nodup := h.nodup
  calls := by
    intro d hd
    have hcall := h.calls d hd
    rw [← hcall]
    exact List.getElem?_append_left (h.done_lt hd)
  returning := by
    intro u n r hu
    rcases setTask_inv ht hu with ⟨-, heq⟩ | ⟨-, hold⟩
    · cases heq
    · exact h.returning u n r hold
  returned := h.returned

theorem Numbered.up (h : Numbered m) {t n : Nat} {k : κ} {r : ρ}
    (ht : m.tasks[t]? = some (.leaving n k r)) :
    Numbered
      { m.setTask t (.returning n r) with
        permits := m.permits + 1
        done := m.done ++ [⟨n, k, r⟩] } where
  distinct := by
    intro u v tasku taskv n' hu hv hnu hnv
    rcases setTask_inv ht hu with ⟨-, rfl⟩ | ⟨-, hu'⟩
    · cases hnu
    · rcases setTask_inv ht hv with ⟨-, rfl⟩ | ⟨-, hv'⟩
      · cases hnv
      · exact h.distinct u v tasku taskv n' hu' hv' hnu hnv
  fresh := by
    intro u tasku n' hu hn
    rcases setTask_inv ht hu with ⟨-, rfl⟩ | ⟨hne, hold⟩
    · cases hn
    · obtain ⟨hcall, hnot⟩ := h.fresh u tasku n' hold hn
      refine ⟨hcall, ?_⟩
      rw [List.map_append, List.mem_append, List.map_singleton, List.mem_singleton]
      rintro (hmem | rfl)
      · exact hnot hmem
      · exact hne (h.distinct u t tasku _ _ hold ht hn rfl)
  nodup := by
    rw [List.map_append, List.map_singleton]
    refine List.nodup_append.mpr ⟨h.nodup, List.pairwise_singleton _ n, ?_⟩
    intro a ha b hb
    rw [List.mem_singleton.mp hb]
    rintro rfl
    exact (h.fresh t _ a ht rfl).2 ha
  calls := by
    intro d hd
    rcases List.mem_append.mp hd with hd | hd
    · exact h.calls d hd
    · rw [List.mem_singleton.mp hd]
      exact (h.fresh t _ n ht rfl).1
  returning := by
    intro u n' r' hu
    rcases setTask_inv ht hu with ⟨-, heq⟩ | ⟨-, hold⟩
    · obtain ⟨rfl, rfl⟩ := Task.returning.inj heq
      exact ⟨⟨n', k, r'⟩, List.mem_append_right _ List.mem_cons_self, rfl, rfl⟩
    · obtain ⟨d, hd, hdn⟩ := h.returning u n' r' hold
      exact ⟨d, List.mem_append_left _ hd, hdn⟩
  returned := by
    intro ret hret
    obtain ⟨pre, post, hsplit, hin, hbefore⟩ := h.returned ret hret
    refine ⟨pre, post ++ [⟨n, k, r⟩], ?_, hin, hbefore⟩
    rw [← List.append_assoc, ← hsplit]

theorem Numbered.finish (h : Numbered m) {t n : Nat} {r : ρ}
    (ht : m.tasks[t]? = some (.returning n r)) :
    Numbered
      { m.setTask t .idle with returned := m.returned ++ [⟨n, r, m.requests.length⟩] } where
  distinct := by
    intro u v tasku taskv n' hu hv hnu hnv
    rcases setTask_inv ht hu with ⟨-, rfl⟩ | ⟨-, hu'⟩
    · cases hnu
    · rcases setTask_inv ht hv with ⟨-, rfl⟩ | ⟨-, hv'⟩
      · cases hnv
      · exact h.distinct u v tasku taskv n' hu' hv' hnu hnv
  fresh := by
    intro u tasku n' hu hn
    rcases setTask_inv ht hu with ⟨-, rfl⟩ | ⟨-, hold⟩
    · cases hn
    · exact h.fresh u tasku n' hold hn
  nodup := h.nodup
  calls := h.calls
  returning := by
    intro u n' r' hu
    rcases setTask_inv ht hu with ⟨-, heq⟩ | ⟨-, hold⟩
    · cases heq
    · exact h.returning u n' r' hold
  returned := by
    intro ret hret
    rcases List.mem_append.mp hret with hret | hret
    · exact h.returned ret hret
    · rw [List.mem_singleton.mp hret]
      exact ⟨m.done, [], (List.append_nil _).symm, h.returning t n r ht,
        fun d hd => h.done_lt hd⟩

theorem Numbered.step (h : Numbered m) (hstep : machineStep R m l = .ok m') : Numbered m' := by
  cases machineStep_cases hstep with
  | request ht => exact h.request ht _
  | @down t n k ht _ =>
    have hnot : ∀ n' r, (.inside n k (R.enter k) : Task κ lo ρ) ≠ .returning n' r := by
      intro n' r heq
      cases heq
    exact h.advance ht (by rfl) (by rfl) hnot
  | @work t n k locals next s ht _ =>
    refine h.advance ht (Task.pending_afterStep n k next) (Task.call_afterStep n k next) ?_
    intro n' r heq
    cases next <;> cases heq
  | up ht => exact h.up ht
  | finish ht => exact h.finish ht

end Numbers

section Progress

variable {κ lo ρ σ ε : Type u} {R : Routine κ lo ρ σ ε} {s₀ s : σ} {m m' : Machine κ lo ρ σ}
  {l : Label κ}

/-- After any calls one at a time, every call completes. -/
def Total (R : Routine κ lo ρ σ ε) (s₀ : σ) : Prop :=
  ∀ (done : List (Done κ ρ)) (s : σ), Serial R s₀ done s → ∀ k, ∃ r s', R.whole k s = .ok (r, s')

/-- The step of a call that is inside does not fault. -/
theorem Explained.inside_ok (h : Explained R s₀ m s) (htotal : Total R s₀) {t n : Nat} {k : κ}
    {locals : lo} (ht : m.tasks[t]? = some (.inside n k locals)) :
    ∃ next, R.step locals m.shared = .ok next := by
  have hcont := (h.holder ht trivial).2.1
  obtain ⟨r, s', hwhole⟩ := htotal m.done s h.serial k
  have hrest : R.rest locals m.shared = .ok (r, s') := by
    rw [← hwhole]
    exact hcont
  exact R.step_ok hrest

theorem Explained.no_fault (h : Explained R s₀ m s) (htotal : Total R s₀) (l : Label κ) (e : ε) :
    machineStep R m l ≠ .error (.fault e) := by
  intro hfault
  cases l with
  | request t k =>
    simp only [machineStep] at hfault
    split at hfault <;> cases hfault
  | down t =>
    simp only [machineStep] at hfault
    split at hfault
    · split at hfault <;> cases hfault
    · cases hfault
  | work t =>
    simp only [machineStep] at hfault
    split at hfault
    next n k locals ht =>
      obtain ⟨next, hnext⟩ := h.inside_ok htotal ht
      rw [hnext] at hfault
      cases hfault
    next => cases hfault
  | up t =>
    simp only [machineStep] at hfault
    split at hfault <;> cases hfault
  | finish t =>
    simp only [machineStep] at hfault
    split at hfault <;> cases hfault

/-- The steps that a task has left until its call returned. -/
def taskRank (R : Routine κ lo ρ σ ε) : Task κ lo ρ → Nat
  | .idle => 0
  | .waiting _ k => R.rank (R.enter k) + 4
  | .inside _ _ locals => R.rank locals + 3
  | .leaving _ _ _ => 2
  | .returning _ _ => 1

def Machine.rank (R : Routine κ lo ρ σ ε) (m : Machine κ lo ρ σ) : Nat :=
  (m.tasks.map (taskRank R)).sum

/-- The step makes no new call. -/
def Label.goesOn : Label κ → Bool
  | .request _ _ => false
  | _ => true

/-- The steps that make no new call use up the rank. -/
theorem machine_lowers (R : Routine κ lo ρ σ ε) (s₀ : σ) :
    Lowers (machineStep R) (fun m => ∃ s, Explained R s₀ m s) (fun _ l => l.goesOn = true)
      (fun _ => true) (Machine.rank R) := by
  intro m l m' hexplained hgoes hstep
  obtain ⟨s, h⟩ := hexplained
  refine ⟨h.step hstep, ?_⟩
  have hless : m'.rank R < m.rank R := by
    cases machineStep_cases hstep with
    | request ht => cases hgoes
    | down ht _ =>
      exact sum_map_set_lt ht (by simp only [taskRank]; omega) fun _ _ _ _ => Nat.le_refl _
    | @work t n k locals next shared ht hwork =>
      refine sum_map_set_lt ht ?_ fun _ _ _ _ => Nat.le_refl _
      cases next with
      | inl locals' =>
        have hrank := R.rank_step hwork
        simp only [afterStep, taskRank]
        omega
      | inr r =>
        simp only [afterStep, taskRank]
        omega
    | up ht => exact sum_map_set_lt ht (by simp only [taskRank]; omega) fun _ _ _ _ => Nat.le_refl _
    | finish ht =>
      exact sum_map_set_lt ht (by simp only [taskRank]; omega) fun _ _ _ _ => Nat.le_refl _
  have hone : [l].countP (fun _ => true) = 1 := by simp
  omega

/-- No task is in a call. -/
def Quiet (m : Machine κ lo ρ σ) : Prop := ∀ (t : Nat) (task : Task κ lo ρ),
  m.tasks[t]? = some task → task = .idle

/-- When no task is in a call, the semaphore is free. -/
theorem Explained.permits_of_quiet (h : Explained R s₀ m s) (hquiet : Quiet m) :
    m.permits = 1 := by
  by_contra hne
  have hzero : m.permits = 0 := by
    by_contra hpos
    exact hne (h.free (Nat.pos_of_ne_zero hpos)).1
  obtain ⟨t, task, ht, hcont, -⟩ := h.held hzero
  rw [hquiet t task ht] at hcont
  exact hcont

/-- Some call can go on: the holder of the semaphore, or whoever waits for a free permit. -/
theorem Explained.next (h : Explained R s₀ m s) (htotal : Total R s₀) (hbusy : ¬Quiet m) :
    ∃ l m', l.goesOn = true ∧ machineStep R m l = .ok m' := by
  by_cases hfree : 0 < m.permits
  · have hexists : ∃ (t : Nat) (task : Task κ lo ρ), m.tasks[t]? = some task ∧ ¬task = .idle := by
      by_contra hnone
      apply hbusy
      intro t task ht
      by_contra hne
      exact hnone ⟨t, task, ht, hne⟩
    obtain ⟨t, task, ht, hne⟩ := hexists
    cases task with
    | idle => exact absurd rfl hne
    | waiting n k => exact ⟨.down t, _, rfl, (StepCase.down ht hfree).step_eq⟩
    | inside n k locals => exact absurd trivial ((h.free hfree).2.2 t _ ht)
    | leaving n k r => exact absurd trivial ((h.free hfree).2.2 t _ ht)
    | returning n r => exact ⟨.finish t, _, rfl, (StepCase.finish ht).step_eq⟩
  · obtain ⟨t, task, ht, hcont, -⟩ := h.held (Nat.eq_zero_of_not_pos hfree)
    cases task with
    | inside n k locals =>
      obtain ⟨⟨next, shared⟩, hnext⟩ := h.inside_ok htotal ht
      exact ⟨.work t, _, rfl, (StepCase.work ht hnext).step_eq⟩
    | leaving n k r => exact ⟨.up t, _, rfl, (StepCase.up ht).step_eq⟩
    | idle => exact hcont.elim
    | waiting n k => exact hcont.elim
    | returning n r => exact hcont.elim

end Progress

section Runs

variable {κ lo ρ σ ε : Type u} {R : Routine κ lo ρ σ ε} {s₀ : σ} {tasks : Nat}
  {labels : List (Label κ)} {m : Machine κ lo ρ σ}

/-- In every state of a run the calls are explained one at a time, in an order that respects the
order in which they were made and returned. -/
theorem run_explained (h : run (machineStep R) (start tasks s₀) labels = .ok m) :
    (∃ s, Explained R s₀ m s) ∧ Numbered m := by
  refine run_invariant (I := fun m => (∃ s, Explained R s₀ m s) ∧ Numbered m) ?_
    ⟨⟨s₀, .start R s₀ tasks⟩, .start tasks s₀⟩ h
  rintro m l m' ⟨⟨s, hexplained⟩, hnumbered⟩ hstep
  exact ⟨hexplained.step hstep, hnumbered.step hstep⟩

/-- The call that a step makes. -/
def Label.requested : Label κ → Option κ
  | .request _ k => some k
  | _ => none

/-- The requests are the calls that the steps of the run made, in their order. -/
theorem run_requests (h : run (machineStep R) (start tasks s₀) labels = .ok m) :
    m.requests = labels.filterMap Label.requested := by
  induction labels using List.reverseRecOn generalizing m with
  | nil =>
    obtain rfl := Except.ok.inj h
    rfl
  | append_singleton labels l ih =>
    obtain ⟨m₁, hrun, hstep⟩ := run_concat_inv h
    have hbefore := ih hrun
    rw [List.filterMap_append, ← hbefore]
    cases machineStep_cases hstep with
    | request ht => rfl
    | down ht _ => exact (List.append_nil _).symm
    | work ht _ => exact (List.append_nil _).symm
    | up ht => exact (List.append_nil _).symm
    | finish ht => exact (List.append_nil _).symm

end Runs

end Aesd.Foundation.Atomicity
