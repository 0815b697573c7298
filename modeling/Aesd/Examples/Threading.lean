/- Aesd/Examples/Threading
   layer: faithful model
   digest: threading.c: threads that sleep, take a mutex, hold it for a time and give it back. -/

import Aesd.Foundation.BlockHeap
import Aesd.Foundation.Run
import Mathlib.Algebra.GroupWithZero.Nat
import Mathlib.Algebra.BigOperators.Group.List.Basic

set_option autoImplicit false
set_option relaxedAutoImplicit false

namespace Aesd.Examples.Threading

open Aesd.Foundation.BlockHeap (bind_ok)
open Aesd.Foundation.Run

section Time

/-- `struct timespec`, with no negative field. -/
structure Timespec where
  sec : Nat
  nsec : Nat
  deriving DecidableEq, Repr

def nanosPerSec : Nat := 1000000000

def nanosPerMilli : Nat := 1000000

def Timespec.nanos (ts : Timespec) : Nat := ts.sec * nanosPerSec + ts.nsec

/-- `nanosleep` fails with EINVAL otherwise. -/
def Timespec.Valid (ts : Timespec) : Prop := ts.nsec < nanosPerSec

instance (ts : Timespec) : Decidable ts.Valid := inferInstanceAs (Decidable (_ < _))

def Timespec.ofNanos (n : Nat) : Timespec := ⟨n / nanosPerSec, n % nanosPerSec⟩

/-- `wait_sec` and `wait_nsec`. -/
def waitTime (ms : Nat) : Timespec := ⟨ms / 1000, ms % 1000 * nanosPerMilli⟩

theorem nanos_ofNanos (n : Nat) : (Timespec.ofNanos n).nanos = n := by
  unfold Timespec.ofNanos Timespec.nanos
  rw [Nat.mul_comm]
  exact Nat.div_add_mod n nanosPerSec

theorem valid_ofNanos (n : Nat) : (Timespec.ofNanos n).Valid :=
  Nat.mod_lt n (by decide)

theorem nanos_waitTime (ms : Nat) : (waitTime ms).nanos = ms * nanosPerMilli := by
  simp only [waitTime, Timespec.nanos, nanosPerSec, nanosPerMilli]
  omega

theorem valid_waitTime (ms : Nat) : (waitTime ms).Valid := by
  simp only [waitTime, Timespec.Valid, nanosPerSec, nanosPerMilli]
  omega

end Time

section State

/-- `struct thread_data` without the mutex, of which there is one. The times are not negative, since
`start_thread_obtaining_mutex` refuses them otherwise. -/
structure ThreadData where
  threadCompleteSuccess : Bool
  obtainMs : Nat
  releaseMs : Nat

/-- The two waits of `threadfunc`. -/
inductive Phase
  | obtain
  | release
  deriving DecidableEq, Repr

/-- The statement of `threadfunc` that comes next: `call` is the call of `nanosleep`, `sleeping` its
return. -/
inductive Pc
  | enter
  | call (p : Phase)
  | sleeping (p : Phase)
  | lock
  | setSuccess
  | unlock
  | done
  deriving DecidableEq, Repr

/-- `req` and `rem`, and whether `a` and `b` have been swapped. -/
structure Sleep where
  req : Timespec
  rem : Timespec
  swapped : Bool

/-- `*a`. -/
def Sleep.requested (w : Sleep) : Timespec := if w.swapped then w.rem else w.req

/-- `nanosleep(a, b)` was interrupted with `left` to sleep, and `a` and `b` are swapped. -/
def Sleep.interrupt (w : Sleep) (left : Nat) : Sleep :=
  if w.swapped then { w with req := .ofNanos left, swapped := false }
  else { w with rem := .ofNanos left, swapped := true }

/-- A thread with its parameter and its variables; `since` is when the `nanosleep` it is in began.
No step depends on `started` and `acquired`, when it was created and when it took the mutex. -/
structure Thread where
  param : Nat
  pc : Pc
  sleep : Sleep
  since : Nat
  started : Nat
  acquired : Option Nat

/-- A thread had the mutex between two points of time. -/
structure Section where
  thread : Nat
  acquired : Nat
  released : Nat
  deriving DecidableEq, Repr

/-- The clock, the mutex with its holder, the `thread_data` allocated so far, by their addresses,
and the threads. No step depends on `sections`. -/
structure System where
  now : Nat
  mutex : Option Nat
  data : List ThreadData
  threads : List Thread
  sections : List Section

def startSystem : System where
  now := 0
  mutex := none
  data := []
  threads := []
  sections := []

/-- What the environment decides about the call of a step: whether a signal interrupts it, and
whether `pthread_mutex_lock` or `pthread_mutex_unlock` succeeds. -/
structure Choice where
  interrupted : Bool
  succeeds : Bool

inductive Label
  | start (waitToObtainMs waitToReleaseMs : Int) (malloc create : Bool)
  | tick (nanos : Nat)
  | thread (t : Nat) (c : Choice)

inductive Refusal
  | blocked
  | finished
  | badAddress

end State

section Steps

def newThread (param now : Nat) : Thread where
  param := param
  pc := .enter
  sleep := ⟨⟨0, 0⟩, ⟨0, 0⟩, false⟩
  since := now
  started := now
  acquired := none

/-- `start_thread_obtaining_mutex`, with what it returns. -/
def startThreadObtainingMutex (waitToObtainMs waitToReleaseMs : Int) (malloc create : Bool)
    (s : System) : Bool × System :=
  if waitToObtainMs < 0 ∨ waitToReleaseMs < 0 then (false, s)
  else if malloc = false then (false, s)
  else
    let data := s.data ++ [⟨false, waitToObtainMs.toNat, waitToReleaseMs.toNat⟩]
    if create = false then (false, { s with data := data })
    else
      (true, { s with data := data, threads := s.threads ++ [newThread s.data.length s.now] })

/-- What follows a wait. -/
def Phase.next : Phase → Pc
  | .obtain => .lock
  | .release => .setSuccess

/-- `a` and `b` point to `req` and `rem` again, and `req` is the time to wait. -/
def Sleep.begin (w : Sleep) (ms : Nat) : Sleep := { w with req := waitTime ms, swapped := false }

/-- The call of `nanosleep`, which ends the loop if it fails with EINVAL. -/
def callStep (p : Phase) (now : Nat) (th : Thread) : Thread :=
  if th.sleep.requested.Valid then { th with pc := .sleeping p, since := now }
  else { th with pc := p.next }

/-- The return of `nanosleep`: with 0 when the time is over, with EINTR when a signal came
before. -/
def sleepStep (p : Phase) (c : Choice) (now : Nat) (th : Thread) : Except Refusal Thread :=
  if th.since + th.sleep.requested.nanos ≤ now then .ok { th with pc := p.next }
  else if c.interrupted then
    .ok { th with
      sleep := th.sleep.interrupt (th.since + th.sleep.requested.nanos - now)
      pc := .call p }
  else .error .blocked

def System.setThread (s : System) (t : Nat) (th : Thread) : System :=
  { s with threads := s.threads.set t th }

/-- `pthread_mutex_lock` and the start of the second wait, or the return behind a failure. -/
def lockStep (t : Nat) (c : Choice) (d : ThreadData) (th : Thread) (s : System) :
    Except Refusal System :=
  if c.succeeds = false then .ok (s.setThread t { th with pc := .done })
  else if s.mutex = none then
    .ok { s.setThread t { th with
            pc := .call .release
            sleep := th.sleep.begin d.releaseMs
            acquired := some s.now } with
          mutex := some t }
  else .error .blocked

/-- `pthread_mutex_unlock` and the return. -/
def unlockStep (t : Nat) (c : Choice) (th : Thread) (s : System) : System :=
  if c.succeeds = false then s.setThread t { th with pc := .done }
  else
    { s.setThread t { th with pc := .done } with
      mutex := none
      sections := s.sections ++ (th.acquired.map fun taken => ⟨t, taken, s.now⟩).toList }

/-- The next step of `threadfunc` in thread `t`. -/
def threadfuncStep (t : Nat) (c : Choice) (th : Thread) (d : ThreadData) (s : System) :
    Except Refusal System :=
  match th.pc with
  | .enter =>
    .ok (s.setThread t { th with sleep := th.sleep.begin d.obtainMs, pc := .call .obtain })
  | .call p => .ok (s.setThread t (callStep p s.now th))
  | .sleeping p => do
    let th ← sleepStep p c s.now th
    pure (s.setThread t th)
  | .lock => lockStep t c d th s
  | .setSuccess =>
    .ok { s.setThread t { th with pc := .unlock } with
      data := s.data.set th.param { d with threadCompleteSuccess := true } }
  | .unlock => .ok (unlockStep t c th s)
  | .done => .error .finished

def systemStep (s : System) : Label → Except Refusal System
  | .start obtainMs releaseMs malloc create =>
    .ok (startThreadObtainingMutex obtainMs releaseMs malloc create s).2
  | .tick nanos => .ok { s with now := s.now + nanos }
  | .thread t c => match s.threads[t]? with
    | none => .error .finished
    | some th => match s.data[th.param]? with
      | none => .error .badAddress
      | some d => threadfuncStep t c th d s

end Steps

section Waiting

variable {c : Choice} {p : Phase} {th th' : Thread} {now origin need : Nat}

@[simp] theorem requested_begin (w : Sleep) (ms : Nat) : (w.begin ms).requested = waitTime ms := rfl

@[simp] theorem requested_interrupt (w : Sleep) (left : Nat) :
    (w.interrupt left).requested = .ofNanos left := by
  cases hw : w.swapped <;> simp [Sleep.interrupt, Sleep.requested, hw]

/-- The waits since `origin` come to `need` with what `nanosleep` is asked to wait. -/
structure Waits (origin need now : Nat) (th : Thread) : Prop where
  valid : th.sleep.requested.Valid
  enough : origin + need ≤ now + th.sleep.requested.nanos

/-- The same inside `nanosleep`. -/
structure Sleeps (origin need now : Nat) (th : Thread) : Prop where
  valid : th.sleep.requested.Valid
  since : th.since ≤ now
  enough : origin + need ≤ th.since + th.sleep.requested.nanos

/-- Whatever interrupts it, a wait goes on for what is left of it, and ends when it is over. -/
theorem Sleeps.step (h : Sleeps origin need now th) (hstep : sleepStep p c now th = .ok th') :
    (th' = { th with pc := p.next } ∧ origin + need ≤ now) ∨
    (∃ left, th' = { th with sleep := th.sleep.interrupt left, pc := .call p } ∧
      Waits origin need now th') := by
  unfold sleepStep at hstep
  have henough := h.enough
  split_ifs at hstep with hover hint
  · left
    obtain rfl := Except.ok.inj hstep
    exact ⟨rfl, by omega⟩
  · right
    obtain rfl := Except.ok.inj hstep
    refine ⟨_, rfl, ?_, ?_⟩
    · simp only [requested_interrupt]
      exact valid_ofNanos _
    · simp only [requested_interrupt, nanos_ofNanos]
      omega

theorem Waits.call (h : Waits origin need now th) :
    callStep p now th = { th with pc := .sleeping p, since := now } ∧
      Sleeps origin need now { th with pc := .sleeping p, since := now } := by
  refine ⟨if_pos h.valid, h.valid, Nat.le_refl now, h.enough⟩

theorem Waits.tick (h : Waits origin need now th) (d : Nat) : Waits origin need (now + d) th :=
  ⟨h.valid, by have := h.enough; omega⟩

theorem Sleeps.tick (h : Sleeps origin need now th) (d : Nat) : Sleeps origin need (now + d) th :=
  ⟨h.valid, by have := h.since; omega, h.enough⟩

end Waiting

section Invariant

variable {s s' : System} {t u : Nat} {th : Thread} {d : ThreadData}

/-- The thread has waited to take the mutex, and took it after that. -/
def Took (th : Thread) (d : ThreadData) (taken : Nat) : Prop :=
  th.acquired = some taken ∧ th.started + d.obtainMs * nanosPerMilli ≤ taken

/-- What is known of a thread at each statement. -/
def AtPc (now : Nat) (mutex : Option Nat) (t : Nat) (th : Thread) (d : ThreadData) : Pc → Prop
  | .enter => th.started ≤ now ∧ th.acquired = none ∧ d.threadCompleteSuccess = false
  | .call .obtain => Waits th.started (d.obtainMs * nanosPerMilli) now th ∧ th.acquired = none ∧
      d.threadCompleteSuccess = false
  | .sleeping .obtain => Sleeps th.started (d.obtainMs * nanosPerMilli) now th ∧
      th.acquired = none ∧ d.threadCompleteSuccess = false
  | .lock => th.started + d.obtainMs * nanosPerMilli ≤ now ∧ th.acquired = none ∧
      d.threadCompleteSuccess = false
  | .call .release => ∃ taken, Took th d taken ∧
      Waits taken (d.releaseMs * nanosPerMilli) now th ∧ d.threadCompleteSuccess = false ∧
      mutex = some t
  | .sleeping .release => ∃ taken, Took th d taken ∧
      Sleeps taken (d.releaseMs * nanosPerMilli) now th ∧ d.threadCompleteSuccess = false ∧
      mutex = some t
  | .setSuccess => ∃ taken, Took th d taken ∧ taken + d.releaseMs * nanosPerMilli ≤ now ∧
      d.threadCompleteSuccess = false ∧ mutex = some t
  | .unlock => ∃ taken, Took th d taken ∧ taken + d.releaseMs * nanosPerMilli ≤ now ∧
      d.threadCompleteSuccess = true ∧ mutex = some t
  | .done => (th.acquired = none ∧ d.threadCompleteSuccess = false) ∨
      ∃ taken, Took th d taken ∧ taken + d.releaseMs * nanosPerMilli ≤ now ∧
        d.threadCompleteSuccess = true

def ThreadOk (s : System) (t : Nat) (th : Thread) : Prop :=
  ∃ d, s.data[th.param]? = some d ∧ AtPc s.now s.mutex t th d th.pc

/-- The statements between `pthread_mutex_lock` and `pthread_mutex_unlock`. -/
def Pc.holds : Pc → Bool
  | .call .release => true
  | .sleeping .release => true
  | .setSuccess => true
  | .unlock => true
  | _ => false

/-- A section in the past of its thread, which took the mutex when it says and held it for as long
as it was asked to. -/
def SectionOk (s : System) (x : Section) : Prop :=
  ∃ th d, s.threads[x.thread]? = some th ∧ s.data[th.param]? = some d ∧ th.pc = .done ∧
    Took th d x.acquired ∧ x.acquired + d.releaseMs * nanosPerMilli ≤ x.released ∧
    x.released ≤ s.now

/-- The time for which the sections had the mutex. -/
def heldTime (sections : List Section) : Nat :=
  (sections.map fun x => x.released - x.acquired).sum

/-- Everything in `sections` was over at `time`. -/
def OverAt (sections : List Section) (time : Nat) : Prop :=
  (∀ x ∈ sections, x.released ≤ time) ∧ heldTime sections ≤ time

/-- The thread has the mutex since `taken`, when every section so far was over. -/
structure Holder (s : System) (th : Thread) (taken : Nat) : Prop where
  acquired : th.acquired = some taken
  others : OverAt s.sections taken
  past : taken ≤ s.now

structure SystemOk (s : System) : Prop where
  threads : ∀ (t : Nat) (th : Thread), s.threads[t]? = some th → ThreadOk s t th
  params : ∀ (t u : Nat) (th uh : Thread), s.threads[t]? = some th → s.threads[u]? = some uh →
    th.param = uh.param → t = u
  sections : ∀ x ∈ s.sections, SectionOk s x
  ordered : s.sections.Pairwise fun x y => x.released ≤ y.acquired
  free : OverAt s.sections s.now
  held : ∀ t, s.mutex = some t → ∃ th taken, s.threads[t]? = some th ∧ Holder s th taken

theorem systemOk_start : SystemOk startSystem where
  threads := by simp [startSystem]
  params := by simp [startSystem]
  sections := by simp [startSystem]
  ordered := List.Pairwise.nil
  free := ⟨by simp [startSystem], Nat.le_refl 0⟩
  held := by simp [startSystem]

/-- A thread that holds the mutex at some statement is its holder. -/
theorem ThreadOk.holder (h : ThreadOk s t th) (hholds : th.pc.holds = true) :
    s.mutex = some t ∧ ∃ taken, th.acquired = some taken := by
  obtain ⟨d, -, hat⟩ := h
  cases hpc : th.pc with
  | call p =>
    rw [hpc] at hat hholds
    cases p with
    | obtain => cases hholds
    | release =>
      obtain ⟨taken, htook, -, -, hmutex⟩ := hat
      exact ⟨hmutex, taken, htook.1⟩
  | sleeping p =>
    rw [hpc] at hat hholds
    cases p with
    | obtain => cases hholds
    | release =>
      obtain ⟨taken, htook, -, -, hmutex⟩ := hat
      exact ⟨hmutex, taken, htook.1⟩
  | setSuccess =>
    rw [hpc] at hat
    obtain ⟨taken, htook, -, -, hmutex⟩ := hat
    exact ⟨hmutex, taken, htook.1⟩
  | unlock =>
    rw [hpc] at hat
    obtain ⟨taken, htook, -, -, hmutex⟩ := hat
    exact ⟨hmutex, taken, htook.1⟩
  | enter =>
    rw [hpc] at hholds
    cases hholds
  | lock =>
    rw [hpc] at hholds
    cases hholds
  | done =>
    rw [hpc] at hholds
    cases hholds

theorem AtPc.tick {now : Nat} {mutex : Option Nat} {pc : Pc} (h : AtPc now mutex t th d pc)
    (n : Nat) : AtPc (now + n) mutex t th d pc := by
  cases pc with
  | enter => exact ⟨Nat.le_add_right_of_le h.1, h.2⟩
  | call p =>
    cases p with
    | obtain => exact ⟨h.1.tick n, h.2⟩
    | release =>
      obtain ⟨taken, htook, hwaits, hrest⟩ := h
      exact ⟨taken, htook, hwaits.tick n, hrest⟩
  | sleeping p =>
    cases p with
    | obtain => exact ⟨h.1.tick n, h.2⟩
    | release =>
      obtain ⟨taken, htook, hsleeps, hrest⟩ := h
      exact ⟨taken, htook, hsleeps.tick n, hrest⟩
  | lock => exact ⟨Nat.le_add_right_of_le h.1, h.2⟩
  | setSuccess =>
    obtain ⟨taken, htook, hheld, hrest⟩ := h
    exact ⟨taken, htook, Nat.le_add_right_of_le hheld, hrest⟩
  | unlock =>
    obtain ⟨taken, htook, hheld, hrest⟩ := h
    exact ⟨taken, htook, Nat.le_add_right_of_le hheld, hrest⟩
  | done =>
    rcases h with hnot | ⟨taken, htook, hheld, hset⟩
    · exact .inl hnot
    · exact .inr ⟨taken, htook, Nat.le_add_right_of_le hheld, hset⟩

/-- Only the holder cares who has the mutex. -/
theorem AtPc.mutex {now : Nat} {m m' : Option Nat} {pc : Pc} (h : AtPc now m t th d pc)
    (hm : pc.holds = false ∨ m' = m) : AtPc now m' t th d pc := by
  rcases hm with hnot | rfl
  · cases pc with
    | call p =>
      cases p with
      | obtain => exact h
      | release => cases hnot
    | sleeping p =>
      cases p with
      | obtain => exact h
      | release => cases hnot
    | setSuccess => cases hnot
    | unlock => cases hnot
    | enter => exact h
    | lock => exact h
    | done => exact h
  · exact h

theorem OverAt.mono {sections : List Section} {time time' : Nat} (h : OverAt sections time)
    (hle : time ≤ time') : OverAt sections time' :=
  ⟨fun x hx => Nat.le_trans (h.1 x hx) hle, Nat.le_trans h.2 hle⟩

/-- Time passes, and no section ends. -/
theorem Holder.later {taken : Nat} (h : Holder s th taken) (hsections : s'.sections = s.sections)
    (hnow : s.now ≤ s'.now) : Holder s' th taken where
  acquired := h.acquired
  others := hsections ▸ h.others
  past := Nat.le_trans h.past hnow

theorem SystemOk.tick (h : SystemOk s) (n : Nat) : SystemOk { s with now := s.now + n } where
  threads := by
    intro t th ht
    obtain ⟨d, hd, hat⟩ := h.threads t th ht
    exact ⟨d, hd, hat.tick n⟩
  params := h.params
  sections := by
    intro x hx
    obtain ⟨th, d, ht, hd, hpc, htook, hheld, hpast⟩ := h.sections x hx
    exact ⟨th, d, ht, hd, hpc, htook, hheld, Nat.le_add_right_of_le hpast⟩
  ordered := h.ordered
  free := h.free.mono (Nat.le_add_right _ _)
  held := by
    intro t hmutex
    obtain ⟨th, taken, ht, hholder⟩ := h.held t hmutex
    exact ⟨th, taken, ht, hholder.later rfl (Nat.le_add_right _ _)⟩

theorem getElem?_append_some {α : Type} {xs ys : List α} {i : Nat} {x : α} (h : xs[i]? = some x) :
    (xs ++ ys)[i]? = some x := by
  rw [List.getElem?_append_left (List.getElem?_eq_some_iff.mp h).1, h]

theorem getElem?_concat_cases {α : Type} {xs : List α} {x y : α} {i : Nat}
    (h : (xs ++ [x])[i]? = some y) : xs[i]? = some y ∨ (i = xs.length ∧ x = y) := by
  rw [List.getElem?_append] at h
  split_ifs at h with hlt
  · exact .inl h
  · right
    have hzero := (List.getElem?_eq_some_iff.mp h).1
    rw [List.length_singleton] at hzero
    have hi : i = xs.length := by omega
    rw [hi, Nat.sub_self] at h
    exact ⟨hi, Option.some.inj h⟩

/-- Memory that no thread has yet does not matter. -/
theorem SystemOk.malloc (h : SystemOk s) (d : ThreadData) :
    SystemOk { s with data := s.data ++ [d] } where
  threads := by
    intro t th ht
    obtain ⟨d', hd, hat⟩ := h.threads t th ht
    exact ⟨d', getElem?_append_some hd, hat⟩
  params := h.params
  sections := by
    intro x hx
    obtain ⟨th, d', ht, hd, hrest⟩ := h.sections x hx
    exact ⟨th, d', ht, getElem?_append_some hd, hrest⟩
  ordered := h.ordered
  free := h.free
  held := by
    intro t hmutex
    obtain ⟨th, taken, ht, hholder⟩ := h.held t hmutex
    exact ⟨th, taken, ht, hholder.later rfl (Nat.le_refl _)⟩

/-- A new thread with a `thread_data` of its own. -/
theorem SystemOk.create (h : SystemOk s) (obtainMs releaseMs : Nat) :
    SystemOk
      { s with
        data := s.data ++ [⟨false, obtainMs, releaseMs⟩]
        threads := s.threads ++ [newThread s.data.length s.now] } where
  threads := by
    intro t th ht
    rcases getElem?_concat_cases ht with hold | ⟨-, rfl⟩
    · exact (h.malloc _).threads t th hold
    · exact ⟨_, List.getElem?_concat_length, Nat.le_refl _, rfl, rfl⟩
  params := by
    intro t u th uh ht hu heq
    have hlt : ∀ (v : Nat) (vh : Thread), s.threads[v]? = some vh → vh.param < s.data.length := by
      intro v vh hv
      obtain ⟨d, hd, -⟩ := h.threads v vh hv
      exact (List.getElem?_eq_some_iff.mp hd).1
    rcases getElem?_concat_cases ht with htold | ⟨rfl, rfl⟩
    · rcases getElem?_concat_cases hu with huold | ⟨rfl, rfl⟩
      · exact h.params t u th uh htold huold heq
      · exact absurd (hlt t th htold) (by rw [heq]; exact Nat.lt_irrefl _)
    · rcases getElem?_concat_cases hu with huold | ⟨rfl, rfl⟩
      · exact absurd (hlt u uh huold) (by rw [← heq]; exact Nat.lt_irrefl _)
      · rfl
  sections := by
    intro x hx
    obtain ⟨th, d, ht, hd, hrest⟩ := h.sections x hx
    exact ⟨th, d, getElem?_append_some ht, getElem?_append_some hd, hrest⟩
  ordered := h.ordered
  free := h.free
  held := by
    intro t hmutex
    obtain ⟨th, taken, ht, hholder⟩ := h.held t hmutex
    exact ⟨th, taken, getElem?_append_some ht, hholder.later rfl (Nat.le_refl _)⟩

theorem getElem?_set_cases {α : Type} {xs : List α} {i j : Nat} {x y z : α} (hi : xs[i]? = some x)
    (h : (xs.set i y)[j]? = some z) : (j = i ∧ z = y) ∨ (j ≠ i ∧ xs[j]? = some z) := by
  by_cases hj : j = i
  · rw [hj, List.getElem?_set_self (List.getElem?_eq_some_iff.mp hi).1] at h
    exact .inl ⟨hj, (Option.some.inj h).symm⟩
  · rw [List.getElem?_set_ne (Ne.symm hj)] at h
    exact .inr ⟨hj, h⟩

theorem set_of_getElem? {α : Type} {xs : List α} {i : Nat} {x : α} (h : xs[i]? = some x) :
    xs.set i x = xs := by
  obtain ⟨hlt, rfl⟩ := List.getElem?_eq_some_iff.mp h
  exact List.set_getElem_self hlt

/-- A step of a thread that is not done: what has to be known of itself, and that nobody else has
the mutex if the step gives or takes it. -/
theorem SystemOk.update (h : SystemOk s) (ht : s.threads[t]? = some th)
    (hd : s.data[th.param]? = some d) (hpc : th.pc ≠ .done) {th' : Thread} {d' : ThreadData}
    {mutex : Option Nat} {sections : List Section} (hparam : th'.param = th.param)
    (hown : AtPc s.now mutex t th' d' th'.pc)
    (hothers : (mutex = s.mutex ∧ sections = s.sections) ∨
      ((∀ u, mutex = some u → u = t) ∧
        ∀ (u : Nat) (uh : Thread), u ≠ t → s.threads[u]? = some uh → uh.pc.holds = false))
    (hsections : ∀ x ∈ sections, x ∈ s.sections ∨ (x.thread = t ∧ th'.pc = .done ∧
      Took th' d' x.acquired ∧ x.acquired + d'.releaseMs * nanosPerMilli ≤ x.released ∧
      x.released ≤ s.now))
    (hordered : sections.Pairwise fun x y => x.released ≤ y.acquired)
    (hfree : OverAt sections s.now)
    (hheld : mutex = some t → ∃ taken, th'.acquired = some taken ∧ OverAt sections taken ∧
      taken ≤ s.now) :
    SystemOk
      { now := s.now
        mutex := mutex
        data := s.data.set th.param d'
        threads := s.threads.set t th'
        sections := sections } where
  threads := by
    intro u uh hu
    rcases getElem?_set_cases ht hu with ⟨rfl, rfl⟩ | ⟨hne, hold⟩
    · refine ⟨d', ?_, hown⟩
      rw [hparam]
      exact List.getElem?_set_self (List.getElem?_eq_some_iff.mp hd).1
    · obtain ⟨du, hdu, hat⟩ := h.threads u uh hold
      refine ⟨du, ?_, ?_⟩
      · have hneParam : th.param ≠ uh.param := fun heq => hne (h.params t u th uh ht hold heq).symm
        exact (List.getElem?_set_ne hneParam).trans hdu
      · apply hat.mutex
        rcases hothers with ⟨hsame, -⟩ | ⟨-, hnone⟩
        · exact .inr hsame
        · exact .inl (hnone u uh hne hold)
  params := by
    have hback : ∀ (v : Nat) (vh : Thread), (s.threads.set t th')[v]? = some vh →
        ∃ vh' : Thread, s.threads[v]? = some vh' ∧ vh'.param = vh.param := by
      intro v vh hv
      rcases getElem?_set_cases ht hv with ⟨rfl, rfl⟩ | ⟨-, hold⟩
      · exact ⟨th, ht, hparam.symm⟩
      · exact ⟨vh, hold, rfl⟩
    intro u v uh vh hu hv heq
    obtain ⟨uh', hu', hup⟩ := hback u uh hu
    obtain ⟨vh', hv', hvp⟩ := hback v vh hv
    exact h.params u v uh' vh' hu' hv' (by rw [hup, hvp, heq])
  sections := by
    intro x hx
    rcases hsections x hx with hold | ⟨hthread, hdone, htook, hlong, hpast⟩
    · obtain ⟨xh, dx, hxh, hdx, hxpc, htook, hlong, hpast⟩ := h.sections x hold
      have hne : x.thread ≠ t := by
        intro heq
        rw [heq, ht] at hxh
        obtain rfl := Option.some.inj hxh
        exact hpc hxpc
      have hneParam : th.param ≠ xh.param :=
        fun heq => hne (h.params t x.thread th xh ht hxh heq).symm
      exact ⟨xh, dx, (List.getElem?_set_ne (Ne.symm hne)).trans hxh,
        (List.getElem?_set_ne hneParam).trans hdx, hxpc, htook, hlong, hpast⟩
    · refine ⟨th', d', ?_, ?_, hdone, htook, hlong, hpast⟩
      · rw [hthread]
        exact List.getElem?_set_self (List.getElem?_eq_some_iff.mp ht).1
      · rw [hparam]
        exact List.getElem?_set_self (List.getElem?_eq_some_iff.mp hd).1
  ordered := hordered
  free := hfree
  held := by
    intro u hmutex
    by_cases hne : u = t
    · subst hne
      obtain ⟨taken, htaken, hover, hpast⟩ := hheld hmutex
      exact ⟨th', taken, List.getElem?_set_self (List.getElem?_eq_some_iff.mp ht).1, htaken, hover,
        hpast⟩
    · rcases hothers with ⟨hsame, hkept⟩ | ⟨honly, -⟩
      · obtain ⟨uh, taken, hu, hholder⟩ := h.held u (hsame ▸ hmutex)
        exact ⟨uh, taken, (List.getElem?_set_ne (Ne.symm hne)).trans hu,
          hholder.later hkept (Nat.le_refl _)⟩
      · exact absurd (honly u hmutex) hne

/-- A step that leaves the mutex alone. -/
theorem SystemOk.advance (h : SystemOk s) (ht : s.threads[t]? = some th)
    (hd : s.data[th.param]? = some d) (hpc : th.pc ≠ .done) {th' : Thread} {d' : ThreadData}
    (hparam : th'.param = th.param) (hacquired : th'.acquired = th.acquired)
    (hown : AtPc s.now s.mutex t th' d' th'.pc) :
    SystemOk { s with data := s.data.set th.param d', threads := s.threads.set t th' } := by
  refine h.update ht hd hpc hparam hown (.inl ⟨rfl, rfl⟩) (fun x hx => .inl hx) h.ordered h.free ?_
  intro hmutex
  obtain ⟨th₁, taken, ht₁, hholder⟩ := h.held t hmutex
  obtain rfl := Option.some.inj (ht.symm.trans ht₁)
  exact ⟨taken, hacquired.trans hholder.acquired, hholder.others, hholder.past⟩

/-- The same when `thread_data` is not written. -/
theorem SystemOk.move (h : SystemOk s) (ht : s.threads[t]? = some th)
    (hd : s.data[th.param]? = some d) (hpc : th.pc ≠ .done) {th' : Thread}
    (hparam : th'.param = th.param) (hacquired : th'.acquired = th.acquired)
    (hown : AtPc s.now s.mutex t th' d th'.pc) : SystemOk (s.setThread t th') := by
  have hnext := h.advance ht hd hpc hparam hacquired hown
  rw [set_of_getElem? hd] at hnext
  exact hnext

/-- Nobody has the mutex but its holder. -/
theorem SystemOk.not_holds (h : SystemOk s) (hmutex : s.mutex ≠ some t) {uh : Thread}
    (hu : s.threads[t]? = some uh) : uh.pc.holds = false := by
  rw [← Bool.not_eq_true]
  intro hholds
  exact hmutex ((h.threads t uh hu).holder hholds).1

/-- A wait begins. -/
theorem waits_begin {origin now ms : Nat} (hle : origin ≤ now)
    (hsleep : th.sleep.requested = waitTime ms) :
    Waits origin (ms * nanosPerMilli) now th := by
  refine ⟨?_, ?_⟩
  · rw [hsleep]
    exact valid_waitTime ms
  · rw [hsleep, nanos_waitTime]
    exact Nat.add_le_add_right hle _

theorem SystemOk.enter (h : SystemOk s) (ht : s.threads[t]? = some th)
    (hd : s.data[th.param]? = some d) (hpc : th.pc = .enter) :
    SystemOk (s.setThread t
      { th with sleep := th.sleep.begin d.obtainMs, pc := .call .obtain }) := by
  obtain ⟨d₁, hd₁, hat⟩ := h.threads t th ht
  obtain rfl := Option.some.inj (hd.symm.trans hd₁)
  rw [hpc] at hat
  obtain ⟨hstarted, hacquired, hflag⟩ := hat
  have hnot : th.pc ≠ .done := by simp [hpc]
  exact h.move ht hd hnot rfl rfl
    ⟨waits_begin hstarted (requested_begin _ _), hacquired, hflag⟩

theorem SystemOk.wait (h : SystemOk s) (ht : s.threads[t]? = some th)
    (hd : s.data[th.param]? = some d) {p : Phase} (hpc : th.pc = .call p) :
    SystemOk (s.setThread t (callStep p s.now th)) := by
  obtain ⟨d₁, hd₁, hat⟩ := h.threads t th ht
  obtain rfl := Option.some.inj (hd.symm.trans hd₁)
  rw [hpc] at hat
  have hnot : th.pc ≠ .done := by simp [hpc]
  cases p with
  | obtain =>
    obtain ⟨hwaits, hacquired, hflag⟩ := hat
    obtain ⟨heq, hsleeps⟩ := hwaits.call (p := .obtain)
    rw [heq]
    exact h.move ht hd hnot rfl rfl
      ⟨hsleeps, hacquired, hflag⟩
  | release =>
    obtain ⟨taken, htook, hwaits, hflag, hmutex⟩ := hat
    obtain ⟨heq, hsleeps⟩ := hwaits.call (p := .release)
    rw [heq]
    exact h.move ht hd hnot rfl rfl
      ⟨taken, htook, hsleeps, hflag, hmutex⟩

theorem SystemOk.wake (h : SystemOk s) (ht : s.threads[t]? = some th)
    (hd : s.data[th.param]? = some d) {p : Phase} {c : Choice} {th' : Thread}
    (hpc : th.pc = .sleeping p) (hstep : sleepStep p c s.now th = .ok th') :
    SystemOk (s.setThread t th') := by
  obtain ⟨d₁, hd₁, hat⟩ := h.threads t th ht
  obtain rfl := Option.some.inj (hd.symm.trans hd₁)
  rw [hpc] at hat
  have hnot : th.pc ≠ .done := by simp [hpc]
  cases p with
  | obtain =>
    obtain ⟨hsleeps, hacquired, hflag⟩ := hat
    rcases hsleeps.step hstep with ⟨rfl, hover⟩ | ⟨left, rfl, hwaits⟩
    · exact h.move ht hd hnot rfl rfl
        ⟨hover, hacquired, hflag⟩
    · exact h.move ht hd hnot rfl rfl
        ⟨hwaits, hacquired, hflag⟩
  | release =>
    obtain ⟨taken, htook, hsleeps, hflag, hmutex⟩ := hat
    rcases hsleeps.step hstep with ⟨rfl, hover⟩ | ⟨left, rfl, hwaits⟩
    · exact h.move ht hd hnot rfl rfl ⟨taken, htook, hover, hflag, hmutex⟩
    · exact h.move ht hd hnot rfl rfl ⟨taken, htook, hwaits, hflag, hmutex⟩

theorem SystemOk.lock (h : SystemOk s) (ht : s.threads[t]? = some th)
    (hd : s.data[th.param]? = some d) {c : Choice} (hpc : th.pc = .lock)
    (hstep : lockStep t c d th s = .ok s') : SystemOk s' := by
  obtain ⟨d₁, hd₁, hat⟩ := h.threads t th ht
  obtain rfl := Option.some.inj (hd.symm.trans hd₁)
  rw [hpc] at hat
  obtain ⟨hwaited, hacquired, hflag⟩ := hat
  have hnot : th.pc ≠ .done := by simp [hpc]
  unfold lockStep at hstep
  split_ifs at hstep with hfails hfree
  · obtain rfl := Except.ok.inj hstep
    exact h.move ht hd hnot rfl rfl
      (.inl ⟨hacquired, hflag⟩)
  · obtain rfl := Except.ok.inj hstep
    have hnone : ∀ (u : Nat) (uh : Thread), u ≠ t → s.threads[u]? = some uh →
        uh.pc.holds = false := by
      intro u uh _ hu
      apply h.not_holds _ hu
      rw [hfree]
      simp
    have hwaits : Waits s.now (d.releaseMs * nanosPerMilli) s.now
        { th with
          pc := .call .release
          sleep := th.sleep.begin d.releaseMs
          acquired := some s.now } := waits_begin (Nat.le_refl _) (requested_begin _ _)
    have hnext := @SystemOk.update s t th d h ht hd hnot
      { th with
        pc := .call .release
        sleep := th.sleep.begin d.releaseMs
        acquired := some s.now } d (some t) s.sections rfl
      ⟨s.now, ⟨rfl, hwaited⟩, hwaits, hflag, rfl⟩
      (.inr ⟨fun u hu => (Option.some.inj hu).symm, hnone⟩) (fun x hx => .inl hx) h.ordered h.free
      (fun _ => ⟨s.now, rfl, h.free, Nat.le_refl _⟩)
    rw [set_of_getElem? hd] at hnext
    exact hnext

theorem SystemOk.unlock (h : SystemOk s) (ht : s.threads[t]? = some th)
    (hd : s.data[th.param]? = some d) (c : Choice) (hpc : th.pc = .unlock) :
    SystemOk (unlockStep t c th s) := by
  obtain ⟨d₁, hd₁, hat⟩ := h.threads t th ht
  obtain rfl := Option.some.inj (hd.symm.trans hd₁)
  rw [hpc] at hat
  obtain ⟨taken, htook, hlong, hflag, hmutex⟩ := hat
  have hnot : th.pc ≠ .done := by simp [hpc]
  unfold unlockStep
  split_ifs
  · exact h.move ht hd hnot rfl rfl
      (.inr ⟨taken, htook, hlong, hflag⟩)
  · have hnone : ∀ (u : Nat) (uh : Thread), u ≠ t → s.threads[u]? = some uh →
        uh.pc.holds = false := by
      intro u uh hne hu
      apply h.not_holds _ hu
      rw [hmutex]
      exact fun heq => hne (Option.some.inj heq).symm
    obtain ⟨th₁, taken₁, ht₁, hholder⟩ := h.held t hmutex
    obtain rfl := Option.some.inj (ht.symm.trans ht₁)
    obtain rfl := Option.some.inj (htook.1.symm.trans hholder.acquired)
    obtain ⟨-, ⟨hover, htotal⟩, hle⟩ := hholder
    have hsections : s.sections ++ (th.acquired.map fun taken => ⟨t, taken, s.now⟩).toList =
        s.sections ++ [⟨t, taken, s.now⟩] := by
      rw [htook.1]
      rfl
    have hnext := @SystemOk.update s t th d h ht hd hnot { th with pc := .done } d none
      (s.sections ++ [⟨t, taken, s.now⟩]) rfl (.inr ⟨taken, htook, hlong, hflag⟩)
      (.inr ⟨fun u hu => (nomatch hu), hnone⟩) ?_ ?_ ⟨?_, ?_⟩ (fun hnot => nomatch hnot)
    · rw [set_of_getElem? hd] at hnext
      rw [hsections]
      exact hnext
    · intro x hx
      rcases List.mem_append.mp hx with hold | hnew
      · exact .inl hold
      · rw [List.mem_singleton.mp hnew]
        exact .inr ⟨rfl, rfl, htook, hlong, Nat.le_refl _⟩
    · rw [List.pairwise_append]
      refine ⟨h.ordered, List.pairwise_singleton _ _, ?_⟩
      intro x hx y hy
      rw [List.mem_singleton.mp hy]
      exact hover x hx
    · intro x hx
      rcases List.mem_append.mp hx with hold | hnew
      · exact Nat.le_trans (hover x hold) hle
      · rw [List.mem_singleton.mp hnew]
    · unfold heldTime at htotal ⊢
      rw [List.map_append, List.sum_append, List.map_singleton, List.sum_singleton]
      show _ + (s.now - taken) ≤ s.now
      omega

theorem SystemOk.setSuccess (h : SystemOk s) (ht : s.threads[t]? = some th)
    (hd : s.data[th.param]? = some d) (hpc : th.pc = .setSuccess) :
    SystemOk
      { s.setThread t { th with pc := .unlock } with
        data := s.data.set th.param { d with threadCompleteSuccess := true } } := by
  obtain ⟨d₁, hd₁, hat⟩ := h.threads t th ht
  obtain rfl := Option.some.inj (hd.symm.trans hd₁)
  rw [hpc] at hat
  obtain ⟨taken, ⟨htaken, hwaited⟩, hlong, -, hmutex⟩ := hat
  have hnot : th.pc ≠ .done := by simp [hpc]
  exact h.advance ht hd hnot rfl rfl
    ⟨taken, ⟨htaken, hwaited⟩, hlong, rfl, hmutex⟩

theorem SystemOk.step (h : SystemOk s) {l : Label} (hstep : systemStep s l = .ok s') :
    SystemOk s' := by
  cases l with
  | start obtainMs releaseMs malloc create =>
    obtain rfl := Except.ok.inj hstep
    unfold startThreadObtainingMutex
    split_ifs
    · exact h
    · exact h
    · exact h.malloc _
    · exact h.create _ _
  | tick n =>
    obtain rfl := Except.ok.inj hstep
    exact h.tick n
  | thread t c =>
    simp only [systemStep] at hstep
    split at hstep
    next => cases hstep
    next th ht =>
      split at hstep
      next => cases hstep
      next d hd =>
        unfold threadfuncStep at hstep
        cases hpc : th.pc with
        | enter =>
          simp only [hpc] at hstep
          obtain rfl := Except.ok.inj hstep
          exact h.enter ht hd hpc
        | call p =>
          simp only [hpc] at hstep
          obtain rfl := Except.ok.inj hstep
          exact h.wait ht hd hpc
        | sleeping p =>
          simp only [hpc] at hstep
          obtain ⟨th', hwake, hstep⟩ := bind_ok hstep
          obtain rfl := Except.ok.inj hstep
          exact h.wake ht hd hpc hwake
        | lock =>
          simp only [hpc] at hstep
          exact h.lock ht hd hpc hstep
        | setSuccess =>
          simp only [hpc] at hstep
          obtain rfl := Except.ok.inj hstep
          exact h.setSuccess ht hd hpc
        | unlock =>
          simp only [hpc] at hstep
          obtain rfl := Except.ok.inj hstep
          exact h.unlock ht hd c hpc
        | done =>
          simp only [hpc] at hstep
          cases hstep

end Invariant

section Results

variable {s : System} {labels : List Label}

theorem systemOk_run (hrun : run systemStep startSystem labels = .ok s) : SystemOk s :=
  run_invariant (fun _ _ _ h hstep => h.step hstep) systemOk_start hrun

/-- A thread that took the mutex has come that far. -/
theorem ThreadOk.of_acquired {t : Nat} {th : Thread} {taken : Nat} (h : ThreadOk s t th)
    (htaken : th.acquired = some taken) : th.pc.holds = true ∨ th.pc = .done := by
  obtain ⟨d, -, hat⟩ := h
  have hnot : th.acquired ≠ none := by simp [htaken]
  cases hpc : th.pc with
  | enter =>
    rw [hpc] at hat
    exact absurd hat.2.1 hnot
  | call p =>
    rw [hpc] at hat
    cases p with
    | obtain => exact absurd hat.2.1 hnot
    | release => exact .inl rfl
  | sleeping p =>
    rw [hpc] at hat
    cases p with
    | obtain => exact absurd hat.2.1 hnot
    | release => exact .inl rfl
  | lock =>
    rw [hpc] at hat
    exact absurd hat.2.1 hnot
  | setSuccess => exact .inl rfl
  | unlock => exact .inl rfl
  | done => exact .inr rfl

/-- Any number of threads, started at any time with any times to wait, with signals interrupting
their sleep and calls failing anywhere. No two threads have the mutex at once: a thread between
`pthread_mutex_lock` and `pthread_mutex_unlock` is its holder, and the holder took it when all those
before had given it back; it is still there or is done, its `pthread_mutex_unlock` having failed.
The times for which they had it do not overlap, and come to no more than has passed, that of the
holder included. A thread that had it took it no sooner than it was asked to and kept it no shorter,
however often its sleep was interrupted. Once a thread is done, `thread_complete_success` says
whether it had the mutex for that long. -/
theorem holds_apart (hrun : run systemStep startSystem labels = .ok s) :
    (∀ (t u : Nat) (th uh : Thread), s.threads[t]? = some th → s.threads[u]? = some uh →
      th.pc.holds = true → uh.pc.holds = true → t = u) ∧
    (∀ (t : Nat) (th : Thread), s.threads[t]? = some th → th.pc.holds = true →
      s.mutex = some t) ∧
    (∀ t, s.mutex = some t → ∃ th taken, s.threads[t]? = some th ∧ th.acquired = some taken ∧
      (th.pc.holds = true ∨ th.pc = .done) ∧ (∀ x ∈ s.sections, x.released ≤ taken) ∧
      heldTime s.sections + (s.now - taken) ≤ s.now) ∧
    (s.sections.Pairwise fun x y => x.released ≤ y.acquired) ∧
    heldTime s.sections ≤ s.now ∧
    (∀ x ∈ s.sections, ∃ th d, s.threads[x.thread]? = some th ∧ s.data[th.param]? = some d ∧
      th.started + d.obtainMs * nanosPerMilli ≤ x.acquired ∧
      x.acquired + d.releaseMs * nanosPerMilli ≤ x.released ∧ x.released ≤ s.now) ∧
    ∀ (t : Nat) (th : Thread), s.threads[t]? = some th → th.pc = .done →
      ∃ d, s.data[th.param]? = some d ∧
        (d.threadCompleteSuccess = true ↔ ∃ taken, th.acquired = some taken) ∧
        ∀ taken, th.acquired = some taken → th.started + d.obtainMs * nanosPerMilli ≤ taken ∧
          taken + d.releaseMs * nanosPerMilli ≤ s.now := by
  have h := systemOk_run hrun
  have hholder : ∀ (t : Nat) (th : Thread), s.threads[t]? = some th → th.pc.holds = true →
      s.mutex = some t := fun t th ht hholds => ((h.threads t th ht).holder hholds).1
  refine ⟨?_, hholder, ?_, h.ordered, h.free.2, ?_, ?_⟩
  · intro t u th uh ht hu hth huh
    exact Option.some.inj ((hholder t th ht hth).symm.trans (hholder u uh hu huh))
  · intro t hmutex
    obtain ⟨th, taken, ht, htaken, ⟨hover, htotal⟩, hpast⟩ := h.held t hmutex
    refine ⟨th, taken, ht, htaken, (h.threads t th ht).of_acquired htaken, hover, ?_⟩
    omega
  · intro x hx
    obtain ⟨th, d, ht, hd, -, htook, hlong, hpast⟩ := h.sections x hx
    exact ⟨th, d, ht, hd, htook.2, hlong, hpast⟩
  · intro t th ht hpc
    obtain ⟨d, hd, hat⟩ := h.threads t th ht
    rw [hpc] at hat
    refine ⟨d, hd, ?_⟩
    rcases hat with ⟨hnone, hflag⟩ | ⟨taken, ⟨htaken, hwaited⟩, hlong, hflag⟩
    · rw [hnone, hflag]
      simp
    · refine ⟨⟨fun _ => ⟨taken, htaken⟩, fun _ => hflag⟩, ?_⟩
      intro taken' htaken'
      obtain rfl := Option.some.inj (htaken.symm.trans htaken')
      exact ⟨hwaited, hlong⟩

/-- Two threads want the mutex after one millisecond. The first one, interrupted half-way, gets it
and keeps it for two, and the second one can only take it then. -/
def contend : List Label :=
  [.start 1 2 true true, .start 1 1 true true] ++ List.replicate 2 (.thread 0 ⟨false, true⟩) ++
    List.replicate 2 (.thread 1 ⟨false, true⟩) ++ [.tick 500000] ++
    List.replicate 2 (.thread 0 ⟨true, true⟩) ++ [.tick 500000] ++
    List.replicate 3 (.thread 0 ⟨false, true⟩) ++ List.replicate 1 (.thread 1 ⟨false, true⟩)

/-- The first thread gives the mutex back; the second one fails to. -/
def handOver : List Label :=
  [.tick 2000000] ++ List.replicate 3 (.thread 0 ⟨false, true⟩) ++
    List.replicate 2 (.thread 1 ⟨false, true⟩) ++ [.tick 1000000] ++
    List.replicate 2 (.thread 1 ⟨false, true⟩) ++ [.thread 1 ⟨false, false⟩]

def blocks (s : System) (t : Nat) : Bool :=
  match systemStep s (.thread t ⟨false, true⟩) with
  | .error .blocked => true
  | _ => false

theorem contend_run : ∃ m s, run systemStep startSystem contend = .ok m ∧ m.mutex = some 0 ∧
    blocks m 1 = true ∧ run systemStep startSystem (contend ++ handOver) = .ok s ∧
    s.now = 4000000 ∧ s.mutex = some 1 ∧ s.sections = [⟨0, 1000000, 3000000⟩] ∧
    s.threads.map Thread.pc = [.done, .done] :=
  ⟨_, _, rfl, rfl, rfl, rfl, rfl, rfl, rfl, rfl⟩

theorem holds_apart_twice :
    ∃ m s, run systemStep startSystem contend = .ok m ∧ m.mutex = some 0 ∧ blocks m 1 = true ∧
      run systemStep startSystem (contend ++ handOver) = .ok s ∧
      s.sections = [⟨0, 1000000, 3000000⟩] ∧ s.mutex = some 1 ∧
      ∃ th taken, s.threads[1]? = some th ∧ th.acquired = some taken ∧ 3000000 ≤ taken := by
  obtain ⟨m, s, hm, hfirst, hblocks, hs, -, hmutex, hsections, -⟩ := contend_run
  obtain ⟨-, -, hheld, -⟩ := holds_apart hs
  obtain ⟨th, taken, ht, htaken, -, hover, -⟩ := hheld 1 hmutex
  refine ⟨m, s, hm, hfirst, hblocks, hs, hsections, hmutex, th, taken, ht, htaken, ?_⟩
  apply hover ⟨0, 1000000, 3000000⟩
  rw [hsections]
  exact List.mem_singleton_self _

end Results

end Aesd.Examples.Threading
