/- Aesd/Server/ConnectionList
   layer: system
   digest: What the shutdown of main does to the list of connection records. -/

import Aesd.Driver.Ownership
import Aesd.Server.MainLoop

set_option autoImplicit false
set_option relaxedAutoImplicit false

namespace Aesd.Server.ConnectionList

open Aesd.Foundation.LinkedList
open Aesd.Foundation.Run
open Aesd.Driver.Device
open Aesd.Driver.LogRelation
open Aesd.Driver.Session
open Aesd.Driver.Ownership
open Aesd.Server.Handler
open Aesd.Server.Safety
open Aesd.Server.MainLoop

section Building

variable {s s' : MainState} {k n inserted : Nat}

/-- The thread id in the record at address `a` when `k` handlers have been started. -/
def tidOf (k a : Nat) : Option Nat := if a < k then some a else none

/-- The record at address `a`, as it is while it is in the list. -/
def Live (m : Nodes Entry) (k a : Nat) : Prop :=
  ∃ nd, m[a]? = some nd ∧ nd.freed = false ∧ nd.value.tid = tidOf k a

/-- How many records there are and how many of them are in the list, where `k` handlers have been
started. A record without a handler is the last one, and then the accept loop ends. -/
def Counted (pc : MainPc) (k n inserted n1 : Nat) (closeServer : Bool) : Prop :=
  match pc with
  | .loopTest => inserted = n ∧ (n = k ∨ (n = k + 1 ∧ closeServer = true))
  | .accept | .closeSock | .fcntl | .malloc => inserted = n ∧ n = k
  | .insert => inserted = k ∧ n = k + 1 ∧ n1 = k
  | .create => inserted = n ∧ n = k + 1 ∧ n1 = k
  | .first => inserted = n ∧ (n = k ∨ n = k + 1)
  | _ => False

/-- The list while `main` is in its accept loop: the newest record first. -/
structure Building (s : MainState) (inserted : Nat) : Prop where
  counted : Counted s.pc s.server.threads.length s.nodes.length inserted s.n1
    s.server.process.closeServer
  chain : Chain s.nodes s.head (List.range inserted).reverse
  events : s.events = (List.range inserted).map .insert
  live : ∀ a < s.nodes.length, Live s.nodes s.server.threads.length a

theorem building_start (device : DriverState) : Building (startMain device) 0 where
  counted := ⟨rfl, .inl rfl⟩
  chain := rfl
  events := rfl
  live := nofun

/-- A step that leaves the records alone. -/
theorem Building.of_eq (h : Building s inserted) (hnodes : s'.nodes = s.nodes)
    (hhead : s'.head = s.head) (hevents : s'.events = s.events)
    (hthreads : s'.server.threads.length = s.server.threads.length)
    (hcounted : Counted s'.pc s.server.threads.length s.nodes.length inserted s'.n1
      s'.server.process.closeServer) : Building s' inserted where
  counted := by
    rw [hthreads, hnodes]
    exact hcounted
  chain := by
    rw [hnodes, hhead]
    exact h.chain
  events := hevents.trans h.events
  live := by
    rw [hnodes, hthreads]
    exact h.live

theorem reverse_range_succ (n : Nat) :
    (List.range (n + 1)).reverse = n :: (List.range n).reverse := by
  rw [List.range_succ, List.reverse_append]
  rfl

theorem Building.malloc (h : Building s inserted) (hpc : s.pc = .malloc) (succeeds : Bool) :
    Building (mallocStep succeeds s) inserted := by
  have hcounted := h.counted
  rw [hpc] at hcounted
  obtain ⟨rfl, hk⟩ := hcounted
  cases succeeds with
  | false => exact h.of_eq rfl rfl rfl rfl ⟨rfl, .inl hk⟩
  | true =>
    have hold : ∀ a < s.nodes.length,
        (s.nodes ++ [⟨⟨none, s.connFd⟩, none, false⟩])[a]? = s.nodes[a]? :=
      fun a ha => List.getElem?_append_left ha
    refine ⟨⟨hk, ?_, hk⟩, ?_, h.events, ?_⟩
    · show (s.nodes ++ [_]).length = s.server.threads.length + 1
      rw [List.length_append, hk]
      rfl
    · apply h.chain.congr
      intro a ha
      have hlt : a < s.nodes.length := List.mem_range.mp (List.mem_reverse.mp ha)
      exact congrArg (Option.map Node.next) (hold a hlt)
    · intro a ha
      by_cases hlt : a < s.nodes.length
      · obtain ⟨nd, hnd, hfreed, htid⟩ := h.live a hlt
        exact ⟨nd, (hold a hlt).trans hnd, hfreed, htid⟩
      · have hlast : a = s.nodes.length := by
          have hbound : a < (s.nodes ++ [(⟨⟨none, s.connFd⟩, none, false⟩ : Node Entry)]).length :=
            ha
          rw [List.length_append, List.length_singleton] at hbound
          omega
        subst hlast
        refine ⟨_, List.getElem?_concat_length, rfl, ?_⟩
        exact (if_neg (Nat.not_lt.mpr hk.ge)).symm

theorem Building.insert (h : Building s inserted) (hpc : s.pc = .insert) :
    Building (insertStep s) (inserted + 1) := by
  have hcounted := h.counted
  rw [hpc] at hcounted
  obtain ⟨rfl, hn, hn1⟩ := hcounted
  obtain ⟨nd, hnd, hfreed, htid⟩ := h.live s.n1 (by omega)
  have hlength : (setNext s.nodes s.n1 s.head).length = s.nodes.length := length_setNext _ _ _
  refine ⟨⟨?_, ?_, hn1⟩, ?_, ?_, ?_⟩
  · show _ = (setNext s.nodes s.n1 s.head).length
    rw [hlength, hn]
  · show (setNext s.nodes s.n1 s.head).length = _
    rw [hlength, hn]
    rfl
  · rw [reverse_range_succ]
    show Chain (setNext s.nodes s.n1 s.head) (some s.n1) _
    rw [hn1] at hnd ⊢
    apply h.chain.insertHead hnd
    rw [List.mem_reverse, List.mem_range]
    exact Nat.lt_irrefl _
  · show s.events ++ [.insert s.n1] = _
    rw [List.range_succ, List.map_append, h.events, hn1]
    rfl
  · intro a ha
    have hbound : a < (setNext s.nodes s.n1 s.head).length := ha
    rw [hlength] at hbound
    by_cases hlast : a = s.n1
    · subst hlast
      exact ⟨_, getElem?_setNext_self hnd s.head, hfreed, htid⟩
    · obtain ⟨nd', hnd', hlive⟩ := h.live a hbound
      exact ⟨nd', (getElem?_setNext_of_ne hlast s.head).trans hnd', hlive⟩

theorem Building.create (h : Building s inserted) (hpc : s.pc = .create) {succeeds : Bool}
    (hstep : createStep succeeds s = .ok s') : Building s' inserted := by
  have hcounted := h.counted
  rw [hpc] at hcounted
  obtain ⟨rfl, hn, hn1⟩ := hcounted
  obtain ⟨nd, hnd, ⟨-, rfl⟩ | ⟨-, rfl⟩⟩ := createStep_inv hstep
  · have hlength : (s.server.threads ++ [startThread nd.value.connFd]).length =
        s.server.threads.length + 1 := List.length_append
    have hsame : (setValue s.nodes s.n1 { nd.value with
        tid := some s.server.threads.length }).length = s.nodes.length := length_setValue _ _ _
    refine ⟨⟨hsame.symm, .inl ?_⟩, h.chain.setValue _, h.events, ?_⟩
    · exact hsame.trans (hn.trans hlength.symm)
    · intro a ha
      have hbound : a < s.nodes.length := hsame ▸ ha
      obtain ⟨nd', hnd', hfreed, htid⟩ := h.live a hbound
      by_cases hlast : a = s.n1
      · subst hlast
        refine ⟨_, getElem?_setValue_self hnd' _, hfreed, ?_⟩
        show some s.server.threads.length = tidOf (s.server.threads ++ [_]).length s.n1
        rw [hlength, tidOf, if_pos (by omega), hn1]
      · refine ⟨nd', (getElem?_setValue_of_ne hlast _).trans hnd', hfreed, ?_⟩
        show nd'.value.tid = tidOf (s.server.threads ++ [_]).length a
        have hlt : a < s.server.threads.length := by omega
        rw [htid, hlength, tidOf, tidOf, if_pos hlt, if_pos (Nat.lt_succ_of_lt hlt)]
  · exact h.of_eq rfl rfl rfl rfl ⟨rfl, .inr ⟨hn, rfl⟩⟩

/-- A step of `main` in its accept loop. -/
theorem Building.main (h : Building s inserted) {c : MainChoice} (hpc : s.pc ≠ .first)
    (hstep : mainThreadStep c s = .ok s') : ∃ inserted', Building s' inserted' := by
  have hcounted := h.counted
  cases hstands : s.pc <;> rw [hstands] at hcounted <;>
    simp only [mainThreadStep, hstands, Except.ok.injEq, reduceCtorEq] at hstep
  case loopTest =>
    subst hstep
    refine ⟨inserted, h.of_eq (by rfl) (by rfl) (by rfl) (by rfl) ?_⟩
    obtain ⟨rfl, hk⟩ := hcounted
    cases hopen : s.server.process.closeServer with
    | false =>
      have hequal : s.nodes.length = s.server.threads.length :=
        hk.resolve_right fun hlast => Bool.false_ne_true (hopen.symm.trans hlast.2)
      simp only [loopTestStep, hopen, Bool.not_false, if_true]
      exact ⟨rfl, hequal⟩
    | true =>
      simp only [loopTestStep, hopen, Bool.not_true, Bool.false_eq_true, if_false]
      exact ⟨rfl, hk.imp_right And.left⟩
  case accept =>
    refine ⟨inserted, ?_⟩
    obtain ⟨-, rfl⟩ | rfl := acceptStep_inv hstep
    · exact h.of_eq rfl rfl rfl rfl hcounted
    · exact h.of_eq rfl rfl rfl rfl hcounted
  case closeSock =>
    subst hstep
    exact ⟨inserted, h.of_eq rfl rfl rfl rfl ⟨hcounted.1, .inl hcounted.2⟩⟩
  case fcntl =>
    subst hstep
    refine ⟨inserted, h.of_eq (by rfl) (by rfl) (by rfl) (by rfl) ?_⟩
    cases hc : c.fcntl with
    | true => exact hcounted
    | false => exact ⟨hcounted.1, .inl hcounted.2⟩
  case malloc => exact ⟨inserted, hstep ▸ h.malloc hstands c.malloc⟩
  case insert => exact ⟨inserted + 1, hstep ▸ h.insert hstands⟩
  case create => exact ⟨inserted, h.create hstands hstep⟩
  case first => exact absurd hstands hpc
  all_goals exact hcounted.elim

/-- What handlers and signals leave alone. -/
structure Unmoved (s s' : MainState) : Prop where
  pc : s'.pc = s.pc
  n1 : s'.n1 = s.n1
  np : s'.np = s.np
  nodes : s'.nodes = s.nodes
  head : s'.head = s.head
  events : s'.events = s.events
  threads : s'.server.threads.length = s.server.threads.length
  closed : s.server.process.closeServer = true → s'.server.process.closeServer = true

theorem handlerStep_closeServer {t : Nat} {c : Choice} {f f' : Frame}
    (h : handlerStep t c f = .ok f') : f'.process.closeServer = f.process.closeServer := by
  cases handlerStep_inv h with
  | recv hpc => cases c.recv <;> rfl
  | openWrite hpc => cases c.opens <;> rfl
  | openRead hpc => cases c.opens <;> rfl
  | _ => rfl

theorem unmoved_of_step {l : MainLabel} (hl : ∀ c, l ≠ .main c) (hstep : mainStep s l = .ok s') :
    Unmoved s s' := by
  cases l with
  | main c => exact absurd rfl (hl c)
  | signal =>
    obtain rfl := (Except.ok.inj hstep).symm
    exact ⟨rfl, rfl, rfl, rfl, rfl, rfl, rfl, fun _ => rfl⟩
  | handler t c =>
    obtain ⟨server, hserver, rfl⟩ := mainHandler_inv hstep
    obtain ⟨th, f', hth, hf, rfl⟩ := handler_inv hserver
    refine ⟨rfl, rfl, rfl, rfl, rfl, rfl, List.length_set, ?_⟩
    exact fun hclosed => (handlerStep_closeServer hf).trans hclosed

theorem Building.others (h : Building s inserted) (hu : Unmoved s s') : Building s' inserted := by
  have hcounted := h.counted
  refine h.of_eq hu.nodes hu.head hu.events hu.threads ?_
  rw [hu.pc, hu.n1]
  cases hpc : s.pc <;> rw [hpc] at hcounted
  case loopTest => exact ⟨hcounted.1, hcounted.2.imp_right fun hlast => ⟨hlast.1, hu.closed hlast.2⟩⟩
  all_goals exact hcounted

end Building

section Aftermath

variable {s s' : MainState} {inserted : Nat}

/-- A record is in the list, or was. -/
def SomeInserted (s : MainState) : Prop := ∃ a, .insert a ∈ s.events

/-- `main` has read a field of a record that it had freed. -/
def ReadsFreed (s : MainState) : Prop := ∃ a, .read a true ∈ s.events

/-- Behind the accept loop, whatever the memory of freed records contains. -/
def Aftermath (s : MainState) : Prop :=
  match s.pc with
  | .join | .remove | .free => SomeInserted s
  | .advance => SomeInserted s ∧
      ∀ a nd, s.np = some a → s.nodes[a]? = some nd → nd.freed = true
  | .exit => (SomeInserted s ∧ ReadsFreed s) ∨
      (s.events = [] ∧ s.head = none ∧ s.server.threads = [])
  | _ => False

theorem SomeInserted.append {es : List Event} (h : SomeInserted s)
    (hevents : s'.events = s.events ++ es) : SomeInserted s' := by
  obtain ⟨a, ha⟩ := h
  exact ⟨a, by rw [hevents]; exact List.mem_append_left es ha⟩

/-- The traversal starts at the newest record; without a record it is over. -/
theorem Building.first (h : Building s inserted) (hpc : s.pc = .first) :
    Aftermath (testStep s.head s) := by
  have hcounted := h.counted
  rw [hpc] at hcounted
  obtain ⟨rfl, hk⟩ := hcounted
  have hhead := h.chain.head_eq
  cases hn : s.nodes.length with
  | zero =>
    have hnone : s.head = none := by rw [hhead, hn]; rfl
    have hthreads : s.server.threads = [] := List.length_eq_zero_iff.mp (by omega)
    rw [Aftermath, hnone]
    exact .inr ⟨by rw [testStep, h.events, hn]; rfl, hnone, hthreads⟩
  | succ n =>
    have hsome : s.head = some n := by
      rw [hhead, hn, reverse_range_succ]
      rfl
    rw [Aftermath, hsome]
    refine ⟨0, ?_⟩
    show Event.insert 0 ∈ s.events
    rw [h.events, hn]
    exact List.mem_map_of_mem (List.mem_range.mpr (Nat.succ_pos n))

theorem Aftermath.main (h : Aftermath s) {c : MainChoice} (hstep : mainThreadStep c s = .ok s') :
    Aftermath s' := by
  rw [Aftermath] at h
  cases hpc : s.pc <;> rw [hpc] at h <;>
    simp only [mainThreadStep, hpc, Except.ok.injEq, reduceCtorEq] at hstep
  case join =>
    obtain ⟨a, nd, -, -, -, rfl⟩ := joinStep_inv hstep
    exact SomeInserted.append h rfl
  case remove =>
    obtain ⟨a, r, -, -, rfl⟩ := removeStep_inv hstep
    exact SomeInserted.append h rfl
  case free =>
    obtain ⟨a, hnp, rfl⟩ := freeStep_inv hstep
    refine ⟨SomeInserted.append h rfl, ?_⟩
    intro b nd hb hnd
    obtain rfl : a = b := Option.some.inj (hnp.symm.trans hb)
    have hset : (s.nodes.set a { c.stale with freed := true })[a]? = some nd := hnd
    obtain ⟨hlt, heq⟩ := List.getElem?_eq_some_iff.mp hset
    rw [List.getElem_set_self] at heq
    exact heq ▸ rfl
  case advance =>
    obtain ⟨hinserted, hfreed⟩ := h
    obtain ⟨a, nd, hnp, hnd, rfl⟩ := advanceStep_inv hstep
    have hread := hfreed a nd hnp hnd
    have hinserted' : SomeInserted { testStep nd.next s with
        events := s.events ++ [.read a nd.freed] } := SomeInserted.append hinserted rfl
    cases hnext : nd.next with
    | none =>
      rw [hnext] at hinserted'
      refine .inl ⟨hinserted', a, ?_⟩
      show Event.read a true ∈ s.events ++ [.read a nd.freed]
      rw [hread]
      exact List.mem_append_right _ List.mem_cons_self
    | some b =>
      rw [hnext] at hinserted'
      exact hinserted'
  all_goals exact h.elim

theorem Aftermath.others (h : Aftermath s) (hu : Unmoved s s') : Aftermath s' := by
  have hthreads : s.server.threads = [] → s'.server.threads = [] := by
    intro hnil
    apply List.length_eq_zero_iff.mp
    rw [hu.threads, hnil]
    rfl
  rw [Aftermath] at h ⊢
  rw [hu.pc]
  cases hpc : s.pc <;> rw [hpc] at h <;>
    simp only [SomeInserted, ReadsFreed, hu.events, hu.nodes, hu.np, hu.head] at h ⊢
  case exit => exact h.imp_right fun hempty => ⟨hempty.1, hempty.2.1, hthreads hempty.2.2⟩
  all_goals exact h

/-- Building or behind it: what holds in every state. -/
theorem phase_run {device : DriverState} {labels : List MainLabel}
    (hrun : run mainStep (startMain device) labels = .ok s) :
    (∃ inserted, Building s inserted) ∨ Aftermath s := by
  apply run_invariant (I := fun s => (∃ inserted, Building s inserted) ∨ Aftermath s) _ _ hrun
  · rintro x l x' hx hstep
    by_cases hl : ∃ c, l = .main c
    · obtain ⟨c, rfl⟩ := hl
      rcases hx with ⟨inserted, hbuilding⟩ | hafter
      · by_cases hpc : x.pc = .first
        · right
          simp only [mainStep, mainThreadStep, hpc] at hstep
          obtain rfl := Except.ok.inj hstep
          exact hbuilding.first hpc
        · exact .inl (hbuilding.main hpc hstep)
      · exact .inr (hafter.main hstep)
    · have hu := unmoved_of_step (fun c hc => hl ⟨c, hc⟩) hstep
      rcases hx with ⟨inserted, hbuilding⟩ | hafter
      · exact .inl ⟨inserted, hbuilding.others hu⟩
      · exact .inr (hafter.others hu)
  · exact .inl ⟨0, building_start device⟩

end Aftermath

section Traversal

variable {s s' : MainState} {inserted : Nat} {done todo : List Nat} {a : Nat}

/-- The memory of the record freed in this step keeps its contents. -/
def Intact (s : MainState) (l : MainLabel) : Prop :=
  ∀ c a nd, l = .main c → s.pc = .free → s.np = some a → s.nodes[a]? = some nd →
    c.stale.value = nd.value ∧ c.stale.next = nd.next

/-- What the traversal does to the record at address `a`. -/
def visit (k a : Nat) : List Event :=
  [.read a false, .join a (tidOf k a), .read a false, .free a, .read a true]

/-- What has happened when the records `done` have been visited. -/
def logged (s : MainState) (done : List Nat) : List Event :=
  (List.range s.nodes.length).map .insert ++ done.flatMap (visit s.server.threads.length)

/-- The traversal has visited `done`, stands at `a` and has `todo` before it. -/
structure Standing (s : MainState) (done : List Nat) (a : Nat) (todo : List Nat) : Prop where
  split : (List.range s.nodes.length).reverse = done ++ a :: todo
  np : s.np = some a
  live : ∀ b ∈ todo, Live s.nodes s.server.threads.length b
  counted : s.nodes.length = s.server.threads.length ∨
    s.nodes.length = s.server.threads.length + 1

/-- Where the traversal stands if freed memory keeps its contents. -/
inductive Traversing (s : MainState) : Prop
  | join {done : List Nat} {a : Nat} {todo : List Nat} : s.pc = .join →
      Standing s done a todo → Chain s.nodes s.head (a :: todo) →
      Live s.nodes s.server.threads.length a → s.events = logged s done → Traversing s
  | remove {done : List Nat} {a : Nat} {todo : List Nat} : s.pc = .remove →
      Standing s done a todo → Chain s.nodes s.head (a :: todo) →
      Live s.nodes s.server.threads.length a →
      s.events = logged s done ++
        [.read a false, .join a (tidOf s.server.threads.length a)] → Traversing s
  | free {done : List Nat} {a : Nat} {todo : List Nat} {nd : Node Entry} : s.pc = .free →
      Standing s done a todo → Chain s.nodes s.head todo → s.nodes[a]? = some nd →
      nd.next = s.head →
      s.events = logged s done ++
        [.read a false, .join a (tidOf s.server.threads.length a), .read a false] → Traversing s
  | advance {done : List Nat} {a : Nat} {todo : List Nat} {nd : Node Entry} : s.pc = .advance →
      Standing s done a todo → Chain s.nodes s.head todo → s.nodes[a]? = some nd →
      nd.freed = true → nd.next = s.head →
      s.events = logged s done ++
        [.read a false, .join a (tidOf s.server.threads.length a), .read a false, .free a] →
      Traversing s
  | exit : s.pc = .exit → s.head = none →
      (s.nodes.length = s.server.threads.length ∨
        s.nodes.length = s.server.threads.length + 1) →
      s.events = logged s (List.range s.nodes.length).reverse → Traversing s

theorem Building.traverse (h : Building s inserted) (hpc : s.pc = .first) :
    Traversing (testStep s.head s) := by
  have hcounted := h.counted
  rw [hpc] at hcounted
  obtain ⟨rfl, hk⟩ := hcounted
  have hchain := h.chain
  have hevents : s.events = logged s [] := by
    rw [h.events, logged, List.flatMap_nil, List.append_nil]
  cases hn : s.nodes.length with
  | zero =>
    rw [hn] at hchain
    have hnone : s.head = none := hchain
    rw [hnone]
    refine .exit rfl hnone hk ?_
    show s.events = logged s (List.range s.nodes.length).reverse
    rw [hevents, hn]
    rfl
  | succ n =>
    rw [hn, reverse_range_succ] at hchain
    have hsome : s.head = some n := hchain.1
    rw [hsome]
    have hstanding : Standing (testStep (some n) s) [] n (List.range n).reverse := by
      refine ⟨?_, rfl, ?_, hk⟩
      · show (List.range s.nodes.length).reverse = _
        rw [hn, reverse_range_succ]
        rfl
      · intro b hb
        have hlt : b < n := List.mem_range.mp (List.mem_reverse.mp hb)
        exact h.live b (by omega)
    exact .join rfl hstanding hchain (h.live n (by omega)) hevents

theorem traversing_join (hstanding : Standing s done a todo)
    (hchain : Chain s.nodes s.head (a :: todo)) (hlive : Live s.nodes s.server.threads.length a)
    (hevents : s.events = logged s done) (hstep : joinStep s = .ok s') : Traversing s' := by
  obtain ⟨nd, hnd, hfreed, htid⟩ := hlive
  obtain ⟨b, nd', hnp, hnd', -, rfl⟩ := joinStep_inv hstep
  obtain rfl := Option.some.inj (hstanding.np.symm.trans hnp)
  obtain rfl := Option.some.inj (hnd.symm.trans hnd')
  refine .remove rfl ⟨hstanding.split, hnp, hstanding.live, hstanding.counted⟩ hchain
    ⟨nd, hnd, hfreed, htid⟩ ?_
  show s.events ++ _ = logged s done ++ _
  rw [hevents, hfreed, htid]

theorem traversing_remove (hstanding : Standing s done a todo)
    (hchain : Chain s.nodes s.head (a :: todo)) (hlive : Live s.nodes s.server.threads.length a)
    (hevents : s.events = logged s done ++
      [.read a false, .join a (tidOf s.server.threads.length a)])
    (hstep : removeStep s = .ok s') : Traversing s' := by
  obtain ⟨nd, hnd, hfreed, -⟩ := hlive
  have hnodup : (a :: todo).Nodup := by
    have hrange := (List.nodup_reverse.mpr (List.nodup_range (n := s.nodes.length)))
    rw [hstanding.split] at hrange
    exact (List.nodup_append.mp hrange).2.1
  obtain ⟨r, hr, hrest, hreads, hsame⟩ := remove_spec (List.nil_append (a :: todo) ▸ hchain) hnodup
  have hnodes : r.nodes = s.nodes := List.ext_getElem? fun b => hsame b List.not_mem_nil
  obtain ⟨b, r', hnp, hr', rfl⟩ := removeStep_inv hstep
  obtain rfl := Option.some.inj (hstanding.np.symm.trans hnp)
  obtain rfl := Option.some.inj (hr.symm.trans hr')
  have hlink : nd.next = r.head := by
    obtain ⟨-, nd', hnd', htail⟩ := hchain
    obtain rfl := Option.some.inj (hnd.symm.trans hnd')
    rw [htail.head_eq, hrest.head_eq]
    rfl
  have hnotFreed : isFreed s.nodes a = false := by
    rw [isFreed, hnd]
    exact hfreed
  rw [hnodes] at hrest ⊢
  refine .free rfl ⟨hstanding.split, hnp, hstanding.live, hstanding.counted⟩ hrest hnd hlink ?_
  show s.events ++ r.reads.map _ = logged s done ++ _
  rw [hevents, hreads, List.append_assoc]
  simp only [List.nil_append, List.map_cons, List.map_nil, hnotFreed, List.cons_append]

theorem traversing_free (hstanding : Standing s done a todo) (hchain : Chain s.nodes s.head todo)
    {nd : Node Entry} (hnd : s.nodes[a]? = some nd) (hlink : nd.next = s.head)
    (hevents : s.events = logged s done ++
      [.read a false, .join a (tidOf s.server.threads.length a), .read a false])
    {stale : Node Entry} (hintact : stale.next = nd.next) (hstep : freeStep stale s = .ok s') :
    Traversing s' := by
  have hnotin : a ∉ todo := by
    have hrange := (List.nodup_reverse.mpr (List.nodup_range (n := s.nodes.length)))
    rw [hstanding.split] at hrange
    exact (List.nodup_cons.mp (List.nodup_append.mp hrange).2.1).1
  have hothers : ∀ b ∈ todo, (s.nodes.set a { stale with freed := true })[b]? = s.nodes[b]? := by
    intro b hb
    have hne : a ≠ b := by
      rintro rfl
      exact hnotin hb
    exact List.getElem?_set_ne hne
  have hlength : (s.nodes.set a { stale with freed := true }).length = s.nodes.length :=
    List.length_set
  have hlt : a < s.nodes.length := (List.getElem?_eq_some_iff.mp hnd).1
  obtain ⟨b, hnp, rfl⟩ := freeStep_inv hstep
  obtain rfl := Option.some.inj (hstanding.np.symm.trans hnp)
  have hstanding' : Standing { s with
      nodes := s.nodes.set a { stale with freed := true }
      events := s.events ++ [.free a]
      pc := .advance } done a todo := by
    refine ⟨?_, hnp, ?_, ?_⟩
    · show (List.range (s.nodes.set a _).length).reverse = _
      rw [hlength, hstanding.split]
    · intro b hb
      obtain ⟨nd', hnd', hlive⟩ := hstanding.live b hb
      exact ⟨nd', (hothers b hb).trans hnd', hlive⟩
    · show (s.nodes.set a _).length = _ ∨ (s.nodes.set a _).length = _
      rw [hlength]
      exact hstanding.counted
  refine .advance rfl hstanding' ?_ (List.getElem?_set_self hlt) rfl (hintact.trans hlink) ?_
  · apply hchain.congr
    intro b hb
    exact congrArg (Option.map Node.next) (hothers b hb)
  · show s.events ++ _ = (List.range (s.nodes.set a _).length).map .insert ++ _ ++ _
    rw [hlength, hevents, List.append_assoc]
    rfl

theorem traversing_advance (hstanding : Standing s done a todo)
    (hchain : Chain s.nodes s.head todo) {nd : Node Entry} (hnd : s.nodes[a]? = some nd)
    (hfreed : nd.freed = true) (hlink : nd.next = s.head)
    (hevents : s.events = logged s done ++
      [.read a false, .join a (tidOf s.server.threads.length a), .read a false, .free a])
    (hstep : advanceStep s = .ok s') : Traversing s' := by
  obtain ⟨b, nd', hnp, hnd', rfl⟩ := advanceStep_inv hstep
  obtain rfl := Option.some.inj (hstanding.np.symm.trans hnp)
  obtain rfl := Option.some.inj (hnd.symm.trans hnd')
  have hvisited : s.events ++ [.read a true] = logged s (done ++ [a]) := by
    rw [hevents, logged, logged, List.flatMap_append, List.flatMap_singleton]
    simp only [List.append_assoc, visit, List.cons_append, List.nil_append]
  rw [hfreed, hlink]
  cases todo with
  | nil =>
    have hnone : s.head = none := hchain
    rw [hnone]
    refine .exit rfl hnone hstanding.counted ?_
    show s.events ++ [.read a true] = logged s (List.range s.nodes.length).reverse
    rw [hvisited, hstanding.split]
  | cons b todo =>
    have hsome : s.head = some b := hchain.1
    rw [hsome] at hchain ⊢
    have hstanding' : Standing { testStep (some b) s with events := s.events ++ [.read a true] }
        (done ++ [a]) b todo := by
      refine ⟨?_, rfl, ?_, hstanding.counted⟩
      · exact hstanding.split.trans (List.append_cons done a (b :: todo))
      · exact fun x hx => hstanding.live x (List.mem_cons_of_mem b hx)
    exact .join rfl hstanding' (hsome ▸ hchain) (hstanding.live b List.mem_cons_self) hvisited

theorem Traversing.main (h : Traversing s) {c : MainChoice} (hintact : Intact s (.main c))
    (hstep : mainThreadStep c s = .ok s') : Traversing s' := by
  cases h with
  | join hpc hstanding hchain hlive hevents =>
    simp only [mainThreadStep, hpc] at hstep
    exact traversing_join hstanding hchain hlive hevents hstep
  | remove hpc hstanding hchain hlive hevents =>
    simp only [mainThreadStep, hpc] at hstep
    exact traversing_remove hstanding hchain hlive hevents hstep
  | free hpc hstanding hchain hnd hlink hevents =>
    simp only [mainThreadStep, hpc] at hstep
    have hkept := (hintact c _ _ rfl hpc hstanding.np hnd).2
    exact traversing_free hstanding hchain hnd hlink hevents hkept hstep
  | advance hpc hstanding hchain hnd hfreed hlink hevents =>
    simp only [mainThreadStep, hpc] at hstep
    exact traversing_advance hstanding hchain hnd hfreed hlink hevents hstep
  | exit hpc =>
    simp only [mainThreadStep, hpc] at hstep
    cases hstep

theorem Standing.others (h : Standing s done a todo) (hu : Unmoved s s') :
    Standing s' done a todo := by
  obtain ⟨hsplit, hnp, hlive, hcounted⟩ := h
  refine ⟨?_, ?_, ?_, ?_⟩
  · rw [hu.nodes, hsplit]
  · rw [hu.np, hnp]
  · rw [hu.nodes, hu.threads]
    exact hlive
  · rw [hu.nodes, hu.threads]
    exact hcounted

theorem logged_others (hu : Unmoved s s') (done : List Nat) : logged s' done = logged s done := by
  rw [logged, logged, hu.nodes, hu.threads]

theorem Traversing.others (h : Traversing s) (hu : Unmoved s s') : Traversing s' := by
  cases h with
  | join hpc hstanding hchain hlive hevents =>
    refine .join (hu.pc.trans hpc) (hstanding.others hu) ?_ ?_ ?_
    · rw [hu.nodes, hu.head]
      exact hchain
    · rw [hu.nodes, hu.threads]
      exact hlive
    · rw [hu.events, logged_others hu, hevents]
  | remove hpc hstanding hchain hlive hevents =>
    refine .remove (hu.pc.trans hpc) (hstanding.others hu) ?_ ?_ ?_
    · rw [hu.nodes, hu.head]
      exact hchain
    · rw [hu.nodes, hu.threads]
      exact hlive
    · rw [hu.events, logged_others hu, hu.threads, hevents]
  | free hpc hstanding hchain hnd hlink hevents =>
    rw [← hu.nodes] at hnd
    refine .free (hu.pc.trans hpc) (hstanding.others hu) ?_ hnd ?_ ?_
    · rw [hu.nodes, hu.head]
      exact hchain
    · rw [hu.head]
      exact hlink
    · rw [hu.events, logged_others hu, hu.threads, hevents]
  | advance hpc hstanding hchain hnd hfreed hlink hevents =>
    rw [← hu.nodes] at hnd
    refine .advance (hu.pc.trans hpc) (hstanding.others hu) ?_ hnd hfreed ?_ ?_
    · rw [hu.nodes, hu.head]
      exact hchain
    · rw [hu.head]
      exact hlink
    · rw [hu.events, logged_others hu, hu.threads, hevents]
  | exit hpc hhead hcounted hevents =>
    refine .exit (hu.pc.trans hpc) (hu.head.trans hhead) ?_ ?_
    · rw [hu.nodes, hu.threads]
      exact hcounted
    · rw [hu.events, logged_others hu, hu.nodes, hevents]

theorem traversal_run {device : DriverState} {labels : List MainLabel}
    (hrun : run mainStep (startMain device) labels = .ok s)
    (hintact : Along mainStep Intact (startMain device) labels) :
    (∃ inserted, Building s inserted) ∨ Traversing s := by
  apply run_guarded (I := fun s => (∃ inserted, Building s inserted) ∨ Traversing s) _ _ hrun
    hintact
  · rintro x l x' hx hkept hstep
    by_cases hl : ∃ c, l = .main c
    · obtain ⟨c, rfl⟩ := hl
      rcases hx with ⟨inserted, hbuilding⟩ | htraversing
      · by_cases hpc : x.pc = .first
        · right
          simp only [mainStep, mainThreadStep, hpc] at hstep
          obtain rfl := Except.ok.inj hstep
          exact hbuilding.traverse hpc
        · exact .inl (hbuilding.main hpc hstep)
      · exact .inr (htraversing.main hkept hstep)
    · have hu := unmoved_of_step (fun c hc => hl ⟨c, hc⟩) hstep
      rcases hx with ⟨inserted, hbuilding⟩ | htraversing
      · exact .inl ⟨inserted, hbuilding.others hu⟩
      · exact .inr (htraversing.others hu)
  · exact .inl ⟨0, building_start device⟩

end Traversal

section Results

variable {s : MainState}

def Event.joinedTid : Event → Option (Option Nat)
  | .join _ tid => some tid
  | _ => none

def Event.freedNode : Event → Option Nat
  | .free a => some a
  | _ => none

def Event.insertedNode : Event → Option Nat
  | .insert a => some a
  | _ => none

/-- The thread ids that `main` has joined. -/
def joinedTids (s : MainState) : List (Option Nat) := s.events.filterMap Event.joinedTid

/-- The records that `main` has freed. -/
def freedNodes (s : MainState) : List Nat := s.events.filterMap Event.freedNode

/-- The records that were put into the list. -/
def insertedNodes (s : MainState) : List Nat := s.events.filterMap Event.insertedNode

/-- Every handler started is joined once and no other id is, every record is freed once, no field
of a freed record is read, and the list is empty. -/
structure ShutdownOk (s : MainState) : Prop where
  joins : ∀ t < s.server.threads.length, (joinedTids s).count (some t) = 1
  assigned : ∀ tid ∈ joinedTids s, ∃ t < s.server.threads.length, tid = some t
  frees : ∀ a ∈ insertedNodes s, (freedNodes s).count a = 1
  noUse : ¬ReadsFreed s
  empty : s.head = none

theorem insertedNodes_eq_nil_iff (s : MainState) : insertedNodes s = [] ↔ ¬SomeInserted s := by
  rw [insertedNodes, List.filterMap_eq_nil_iff]
  constructor
  · rintro hall ⟨a, ha⟩
    cases hall _ ha
  · intro hnone e he
    cases e with
    | insert a => exact absurd ⟨a, he⟩ hnone
    | _ => rfl

/-- The property of a shutdown holds of those without a connection record only. -/
theorem Aftermath.shutdownOk_iff (h : Aftermath s) (hpc : s.pc = .exit) :
    ShutdownOk s ↔ insertedNodes s = [] := by
  rw [insertedNodes_eq_nil_iff]
  rw [Aftermath, hpc] at h
  rcases h with ⟨hinserted, hread⟩ | ⟨hevents, hhead, hthreads⟩
  · exact iff_of_false (fun hok => hok.noUse hread) fun hnone => hnone hinserted
  · apply iff_of_true
    · refine ⟨?_, ?_, ?_, ?_, hhead⟩
      · intro t ht
        rw [hthreads] at ht
        exact absurd ht (Nat.not_lt_zero t)
      · intro tid htid
        rw [joinedTids, hevents] at htid
        cases htid
      · intro a ha
        rw [insertedNodes, hevents] at ha
        cases ha
      · rintro ⟨a, ha⟩
        rw [hevents] at ha
        cases ha
    · rintro ⟨a, ha⟩
      rw [hevents] at ha
      cases ha

theorem joinedTid_logged (s : MainState) (done : List Nat) :
    (logged s done).filterMap Event.joinedTid = done.map (tidOf s.server.threads.length) := by
  have hinserts : ((List.range s.nodes.length).map Event.insert).filterMap Event.joinedTid = [] :=
    by simp [List.filterMap_eq_nil_iff, Event.joinedTid]
  rw [logged, List.filterMap_append, hinserts, List.nil_append]
  induction done with
  | nil => rfl
  | cons a done ih =>
    rw [List.flatMap_cons, List.filterMap_append, ih]
    rfl

theorem freedNode_logged (s : MainState) (done : List Nat) :
    (logged s done).filterMap Event.freedNode = done := by
  have hinserts : ((List.range s.nodes.length).map Event.insert).filterMap Event.freedNode = [] :=
    by simp [List.filterMap_eq_nil_iff, Event.freedNode]
  rw [logged, List.filterMap_append, hinserts, List.nil_append]
  induction done with
  | nil => rfl
  | cons a done ih =>
    rw [List.flatMap_cons, List.filterMap_append, ih]
    rfl

theorem insertedNode_logged (s : MainState) (done : List Nat) :
    (logged s done).filterMap Event.insertedNode = List.range s.nodes.length := by
  have hvisits : (done.flatMap (visit s.server.threads.length)).filterMap Event.insertedNode = [] := by
    induction done with
    | nil => rfl
    | cons a done ih =>
      rw [List.flatMap_cons, List.filterMap_append, ih]
      rfl
  rw [logged, List.filterMap_append, hvisits, List.append_nil, List.filterMap_map]
  exact List.filterMap_some

/-- The id of a started handler is found in its own record only. -/
theorem count_tidOf {k t : Nat} (ht : t < k) (xs : List Nat) :
    (xs.map (tidOf k)).count (some t) = xs.count t := by
  rw [List.count, List.countP_map]
  have hsame : ((· == some t) ∘ tidOf k) = (· == t) := by
    ext a
    simp only [Function.comp_apply, tidOf]
    split_ifs with ha
    · rfl
    · have hne : a ≠ t := fun he => ha (he ▸ ht)
      simp [hne]
  rw [hsame]
  rfl

/-- What a shutdown does if freed memory keeps its contents. -/
theorem Traversing.complete (h : Traversing s) (hpc : s.pc = .exit) :
    (∀ t < s.server.threads.length, (joinedTids s).count (some t) = 1) ∧
      ((∀ tid ∈ joinedTids s, ∃ t < s.server.threads.length, tid = some t) ↔
        (insertedNodes s).length = s.server.threads.length) ∧
      (∀ a ∈ insertedNodes s, (freedNodes s).count a = 1 ∧ .read a true ∈ s.events) ∧
      s.head = none := by
  cases h with
  | exit _ hhead hcounted hevents =>
    have hnodup : (List.range s.nodes.length).reverse.Nodup :=
      List.nodup_reverse.mpr List.nodup_range
    have hmem : ∀ a, a ∈ (List.range s.nodes.length).reverse ↔ a < s.nodes.length := by
      intro a
      rw [List.mem_reverse, List.mem_range]
    have hjoined : joinedTids s = (List.range s.nodes.length).reverse.map
        (tidOf s.server.threads.length) := by
      rw [joinedTids, hevents, joinedTid_logged]
    have hinserted : insertedNodes s = List.range s.nodes.length := by
      rw [insertedNodes, hevents, insertedNode_logged]
    have hfreed : freedNodes s = (List.range s.nodes.length).reverse := by
      rw [freedNodes, hevents, freedNode_logged]
    refine ⟨?_, ?_, ?_, hhead⟩
    · intro t ht
      rw [hjoined, count_tidOf ht]
      exact List.count_eq_one_of_mem hnodup ((hmem t).mpr (by omega))
    · rw [hinserted, List.length_range, hjoined]
      constructor
      · intro hall
        by_contra hnot
        have hlast : s.server.threads.length < s.nodes.length := by omega
        obtain ⟨t, -, ht⟩ := hall _ (List.mem_map_of_mem ((hmem _).mpr hlast))
        rw [tidOf, if_neg (Nat.lt_irrefl _)] at ht
        cases ht
      · intro hequal tid htid
        obtain ⟨a, ha, rfl⟩ := List.mem_map.mp htid
        have hlt : a < s.server.threads.length := hequal ▸ (hmem a).mp ha
        exact ⟨a, hlt, if_pos hlt⟩
    · intro a ha
      rw [hinserted, List.mem_range] at ha
      refine ⟨?_, ?_⟩
      · rw [hfreed]
        exact List.count_eq_one_of_mem hnodup ((hmem a).mpr ha)
      · rw [hevents, logged]
        apply List.mem_append_right
        apply List.mem_flatMap.mpr
        exact ⟨a, (hmem a).mpr ha, by simp [visit]⟩
  | join hstands => rw [hpc] at hstands; cases hstands
  | remove hstands => rw [hpc] at hstands; cases hstands
  | free hstands => rw [hpc] at hstands; cases hstands
  | advance hstands => rw [hpc] at hstands; cases hstands

/-- For every run of the accept loop with any number of connections and any outcomes of its calls,
beside any steps of the handlers, once the traversal has ended: it did what a shutdown is to do if
and only if no record was ever put into the list. If freed memory keeps its contents, each handler
is joined once, an id that was never assigned is joined as well exactly if some record has no
handler, every record is freed once and read after that, and the list is empty. -/
theorem shutdown_exact (calls : List Call) :
    ∃ device, run callStep aesdInitModule calls = .ok device ∧
      ∀ labels s, run mainStep (startMain device) labels = .ok s → s.pc = .exit →
        (ShutdownOk s ↔ insertedNodes s = []) ∧
        (Along mainStep Intact (startMain device) labels →
          (∀ t < s.server.threads.length, (joinedTids s).count (some t) = 1) ∧
          ((∀ tid ∈ joinedTids s, ∃ t < s.server.threads.length, tid = some t) ↔
            (insertedNodes s).length = s.server.threads.length) ∧
          (∀ a ∈ insertedNodes s, (freedNodes s).count a = 1 ∧ .read a true ∈ s.events) ∧
          s.head = none) := by
  obtain ⟨device, hcalls, -⟩ := runCalls calls
  refine ⟨device, hcalls, ?_⟩
  intro labels s hrun hpc
  have hnot : ∀ inserted, ¬Building s inserted := by
    intro inserted hbuilding
    have hcounted := hbuilding.counted
    rw [hpc] at hcounted
    exact hcounted
  constructor
  · have hafter : Aftermath s := (phase_run hrun).resolve_left fun ⟨n, hn⟩ => hnot n hn
    exact hafter.shutdownOk_iff hpc
  · intro hintact
    have htraversing : Traversing s :=
      (traversal_run hrun hintact).resolve_left fun ⟨n, hn⟩ => hnot n hn
    exact htraversing.complete hpc

/-- A first client comes and goes, `pthread_create` fails for a second one, and `main` shuts down;
the memory of the freed records keeps its contents. -/
def failedCreate : List MainLabel :=
  List.replicate 6 (.main smooth) ++
    List.replicate 3 (.handler 0 ⟨.eof, true, ⟨fun _ => true, 0⟩, ⟨true, 2048⟩, 2048⟩) ++
    List.replicate 5 (.main smooth) ++ [.main { smooth with create := false }] ++
    List.replicate 4 (.main smooth) ++
    [.main { smooth with stale := ⟨⟨none, 5⟩, some 0, false⟩ }] ++
    List.replicate 3 (.main smooth) ++
    [.main { smooth with stale := ⟨⟨some 0, 5⟩, none, false⟩ }, .main smooth]

set_option maxRecDepth 20000 in
/-- Both records are read after they were freed, and an id that was never assigned is joined. -/
theorem freed_records_are_read :
    ∃ s, run mainStep (startMain aesdInitModule) failedCreate = .ok s ∧ s.pc = .exit ∧
      s.server.threads.length = 1 ∧
      s.events = [.insert 0, .insert 1,
        .read 1 false, .join 1 none, .read 1 false, .free 1, .read 1 true,
        .read 0 false, .join 0 (some 0), .read 0 false, .free 0, .read 0 true] :=
  ⟨_, rfl, rfl, rfl, rfl⟩

end Results

end Aesd.Server.ConnectionList
