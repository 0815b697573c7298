/- Aesd/Server/MainLoop
   layer: faithful model
   digest: The accept loop of main and the shutdown behind it, beside the handlers. -/

import Aesd.Foundation.LinkedList
import Aesd.Server.Moves

set_option autoImplicit false
set_option relaxedAutoImplicit false

namespace Aesd.Server.MainLoop

open Aesd.Foundation.DescriptorTable
open Aesd.Foundation.LinkedList
open Aesd.Foundation.Run
open Aesd.Driver.Device
open Aesd.Driver.LogRelation
open Aesd.Server.Handler
open Aesd.Server.Safety

section State

/-- The fields of `struct entry` that `main` reads. Until `pthread_create` succeeds `tid` is not
assigned. A thread id is the number of its handler. -/
structure Entry where
  tid : Option Nat
  connFd : Nat

/-- The statement of `main` that comes next. `closeSock` is the `close(sockfd)` behind a failed
`accept`, `first` the start of `SLIST_FOREACH` and `advance` its step to the next node, `exit` the
end of the program. -/
inductive MainPc
  | loopTest
  | accept
  | closeSock
  | fcntl
  | malloc
  | insert
  | create
  | first
  | join
  | remove
  | free
  | advance
  | exit
  deriving DecidableEq, Repr

/-- A thread that can open files. -/
inductive Party
  | main
  | handler (t : Nat)
  deriving DecidableEq, Repr

/-- What `main` does to the connection records: `read` with whether the node had been freed, and
`join` with the thread id found in the node. -/
inductive Event
  | insert (a : Nat)
  | read (a : Nat) (freed : Bool)
  | join (a : Nat) (tid : Option Nat)
  | free (a : Nat)
  deriving DecidableEq, Repr

/-- The server with the variables of `main`, the memory of the connection records and the list
head. No step depends on `owner`, which says who opened the file behind each number (a connection
is opened for its handler), and on `events`. -/
structure MainState where
  server : ServerState
  pc : MainPc
  sockfd : Nat
  connFd : Nat
  n1 : Nat
  np : Option Nat
  nodes : Nodes Entry
  head : Option Nat
  owner : Nat → Option Party
  events : List Event

/-- What becomes of `accept` on the listening socket: a client connects; the call fails, be it that
a signal interrupts it; or there is neither yet. The socket is a blocking one. -/
inductive AcceptOutcome
  | client
  | failure
  | waiting
  deriving DecidableEq, Repr

/-- What the environment decides about the call of a step of `main`: the outcome of `accept`,
whether `fcntl`, `malloc` and `pthread_create` succeed, and what the memory of a freed node contains
from then on. -/
structure MainChoice where
  accepts : AcceptOutcome
  fcntl : Bool
  malloc : Bool
  create : Bool
  stale : Node Entry

/-- Every call succeeds. -/
def smooth : MainChoice := ⟨.client, true, true, true, ⟨⟨none, 0⟩, none, true⟩⟩

inductive MainLabel
  | main (c : MainChoice)
  | signal
  | handler (t : Nat) (c : Choice)

/-- `main` in front of its accept loop. -/
def startMain (device : DriverState) : MainState where
  server := startServer device
  pc := .loopTest
  sockfd := 4
  connFd := 0
  n1 := 0
  np := none
  nodes := []
  head := none
  owner := fun fd => if fd < 5 then some .main else none
  events := []

end State

section Steps

/-- The owners after a step of `p`. -/
def owners (p : Party) (before after : Table OpenFile) (owner : Nat → Option Party) :
    Nat → Option Party := fun fd =>
  if after.lookup fd = none then none
  else if before.lookup fd = none then some p
  else owner fd

/-- A step of `p` changes the table of open files. -/
def MainState.setTable (s : MainState) (p : Party) (table : Table OpenFile) : MainState :=
  { s with
    server := { s.server with process := { s.server.process with table := table } }
    owner := owners p s.server.process.table table s.owner }

def loopTestStep (s : MainState) : MainState :=
  { s with pc := if !s.server.process.closeServer then .accept else .first }

/-- `accept(sockfd, …)`, which fails at once on anything but the listening socket, and otherwise
waits until there is a client or an error. -/
def acceptStep (outcome : AcceptOutcome) (s : MainState) : Except Refusal MainState :=
  if s.server.process.table.lookup s.sockfd = some .listening then
    match outcome with
    | .client =>
      .ok { s.setTable (.handler s.server.threads.length)
              (s.server.process.table.install (.socket s.server.threads.length)) with
            connFd := s.server.process.table.lowestFree
            pc := .fcntl }
    | .failure => .ok { s with pc := .closeSock }
    | .waiting => .error .blocked
  else .ok { s with pc := .closeSock }

def closeSockStep (s : MainState) : MainState :=
  { s.setTable .main (s.server.process.table.close s.sockfd) with pc := .loopTest }

/-- `break` if `fcntl` fails. -/
def fcntlStep (succeeds : Bool) (s : MainState) : MainState :=
  { s with pc := if succeeds then .malloc else .first }

/-- `malloc` and the assignments to the fields of `n1`; `break` if it fails. -/
def mallocStep (succeeds : Bool) (s : MainState) : MainState :=
  if succeeds then
    { s with
      n1 := s.nodes.length
      nodes := s.nodes ++ [⟨⟨none, s.connFd⟩, none, false⟩]
      pc := .insert }
  else { s with pc := .first }

/-- `SLIST_INSERT_HEAD(&head, n1, entries)`. -/
def insertStep (s : MainState) : MainState :=
  { s with
    nodes := setNext s.nodes s.n1 s.head
    head := some s.n1
    events := s.events ++ [.insert s.n1]
    pc := .create }

/-- `pthread_create(&(n1->tid), NULL, handleRequests, n1)`. -/
def createStep (succeeds : Bool) (s : MainState) : Except Refusal MainState :=
  match s.nodes[s.n1]? with
  | none => .error (.fault .outOfRange)
  | some nd =>
    if succeeds then
      .ok { s with
        nodes := setValue s.nodes s.n1
          { nd.value with tid := some s.server.threads.length }
        server := { s.server with
          threads := s.server.threads ++ [startThread nd.value.connFd] }
        pc := .loopTest }
    else
      .ok { s with
        server := { s.server with process := { s.server.process with closeServer := true } }
        pc := .loopTest }

/-- The head of the traversal: `np` is tested. -/
def testStep (np : Option Nat) (s : MainState) : MainState :=
  { s with np := np, pc := if np.isSome then .join else .exit }

/-- What `pthread_join` waits for. An id that belongs to no thread is not waited for. -/
def joinable (threads : List Thread) (tid : Option Nat) : Bool :=
  (tid.bind fun t => threads[t]?).elim true fun th => decide (th.pc = .done)

/-- `pthread_join(np->tid, NULL)`. -/
def joinStep (s : MainState) : Except Refusal MainState :=
  match s.np.bind fun a => s.nodes[a]?.map fun nd => (a, nd) with
  | none => .error (.fault .outOfRange)
  | some (a, nd) =>
    if joinable s.server.threads nd.value.tid then
      .ok { s with
        events := s.events ++ [.read a nd.freed, .join a nd.value.tid]
        pc := .remove }
    else .error .blocked

def isFreed (m : Nodes Entry) (a : Nat) : Bool := m[a]?.elim false Node.freed

/-- `SLIST_REMOVE(&head, np, entry, entries)`. -/
def removeStep (s : MainState) : Except Refusal MainState :=
  match s.np.bind fun a => remove s.nodes s.head a with
  | none => .error (.fault .outOfRange)
  | some r =>
    .ok { s with
      nodes := r.nodes
      head := r.head
      events := s.events ++ r.reads.map fun a => .read a (isFreed s.nodes a)
      pc := .free }

/-- `free(np)`. -/
def freeStep (stale : Node Entry) (s : MainState) : Except Refusal MainState :=
  match s.np with
  | none => .error (.fault .outOfRange)
  | some a =>
    .ok { s with
      nodes := s.nodes.set a { stale with freed := true }
      events := s.events ++ [.free a]
      pc := .advance }

/-- `np = np->entries.sle_next`. -/
def advanceStep (s : MainState) : Except Refusal MainState :=
  match s.np.bind fun a => s.nodes[a]?.map fun nd => (a, nd) with
  | none => .error (.fault .outOfRange)
  | some (a, nd) =>
    .ok { testStep nd.next s with events := s.events ++ [.read a nd.freed] }

/-- The next step of `main`. -/
def mainThreadStep (c : MainChoice) (s : MainState) : Except Refusal MainState :=
  match s.pc with
  | .loopTest => .ok (loopTestStep s)
  | .accept => acceptStep c.accepts s
  | .closeSock => .ok (closeSockStep s)
  | .fcntl => .ok (fcntlStep c.fcntl s)
  | .malloc => .ok (mallocStep c.malloc s)
  | .insert => .ok (insertStep s)
  | .create => createStep c.create s
  | .first => .ok (testStep s.head s)
  | .join => joinStep s
  | .remove => removeStep s
  | .free => freeStep c.stale s
  | .advance => advanceStep s
  | .exit => .error .finished

/-- One step of `main`, of the signal handler or of a handler. -/
def mainStep (s : MainState) : MainLabel → Except Refusal MainState
  | .main c => mainThreadStep c s
  | .signal =>
    .ok { s with
      server := { s.server with process := { s.server.process with closeServer := true } } }
  | .handler t c =>
    match serverStep s.server (.handler t c) with
    | .error e => .error e
    | .ok server =>
      .ok { s with
        server := server
        owner := owners (.handler t) s.server.process.table server.process.table s.owner }

end Steps

section Inversion

variable {s s' : MainState}

theorem acceptStep_inv {outcome : AcceptOutcome} (h : acceptStep outcome s = .ok s') :
    (s.server.process.table.lookup s.sockfd = some .listening ∧
      s' = { s.setTable (.handler s.server.threads.length)
              (s.server.process.table.install (.socket s.server.threads.length)) with
            connFd := s.server.process.table.lowestFree
            pc := .fcntl }) ∨
      s' = { s with pc := .closeSock } := by
  unfold acceptStep at h
  split_ifs at h with hlistening
  · cases outcome with
    | client => exact .inl ⟨hlistening, (Except.ok.inj h).symm⟩
    | failure => exact .inr (Except.ok.inj h).symm
    | waiting => cases h
  · exact .inr (Except.ok.inj h).symm

theorem createStep_inv {succeeds : Bool} (h : createStep succeeds s = .ok s') :
    ∃ nd, s.nodes[s.n1]? = some nd ∧
      ((succeeds = true ∧ s' = { s with
        nodes := setValue s.nodes s.n1
          { nd.value with tid := some s.server.threads.length }
        server := { s.server with
          threads := s.server.threads ++ [startThread nd.value.connFd] }
        pc := .loopTest }) ∨
      (succeeds = false ∧ s' = { s with
        server := { s.server with process := { s.server.process with closeServer := true } }
        pc := .loopTest })) := by
  rw [createStep] at h
  cases hnd : s.nodes[s.n1]? with
  | none =>
    rw [hnd] at h
    cases h
  | some nd =>
    rw [hnd] at h
    refine ⟨nd, rfl, ?_⟩
    cases succeeds with
    | true => exact .inl ⟨rfl, (Except.ok.inj h).symm⟩
    | false => exact .inr ⟨rfl, (Except.ok.inj h).symm⟩

/-- The node under the iterator. -/
theorem bind_node_eq {a : Nat} {nd : Node Entry}
    (h : (s.np.bind fun a => s.nodes[a]?.map fun nd => (a, nd)) = some (a, nd)) :
    s.np = some a ∧ s.nodes[a]? = some nd := by
  obtain ⟨b, hnp, hb⟩ := Option.bind_eq_some_iff.mp h
  obtain ⟨nd', hnd, heq⟩ := Option.map_eq_some_iff.mp hb
  obtain ⟨rfl, rfl⟩ := Prod.mk.inj heq
  exact ⟨hnp, hnd⟩

theorem joinStep_inv (h : joinStep s = .ok s') :
    ∃ a nd, s.np = some a ∧ s.nodes[a]? = some nd ∧
      joinable s.server.threads nd.value.tid = true ∧
      s' = { s with
        events := s.events ++ [.read a nd.freed, .join a nd.value.tid]
        pc := .remove } := by
  rw [joinStep] at h
  split at h
  next => cases h
  next a nd hnode =>
    split_ifs at h with hjoin
    obtain ⟨hnp, hnd⟩ := bind_node_eq hnode
    exact ⟨a, nd, hnp, hnd, hjoin, (Except.ok.inj h).symm⟩

theorem removeStep_inv (h : removeStep s = .ok s') :
    ∃ a r, s.np = some a ∧ remove s.nodes s.head a = some r ∧
      s' = { s with
        nodes := r.nodes
        head := r.head
        events := s.events ++ r.reads.map fun a => .read a (isFreed s.nodes a)
        pc := .free } := by
  rw [removeStep] at h
  split at h
  next => cases h
  next r hr =>
    obtain ⟨a, hnp, hremove⟩ := Option.bind_eq_some_iff.mp hr
    exact ⟨a, r, hnp, hremove, (Except.ok.inj h).symm⟩

theorem freeStep_inv {stale : Node Entry} (h : freeStep stale s = .ok s') :
    ∃ a, s.np = some a ∧
      s' = { s with
        nodes := s.nodes.set a { stale with freed := true }
        events := s.events ++ [.free a]
        pc := .advance } := by
  rw [freeStep] at h
  split at h
  next => cases h
  next a hnp => exact ⟨a, hnp, (Except.ok.inj h).symm⟩

theorem advanceStep_inv (h : advanceStep s = .ok s') :
    ∃ a nd, s.np = some a ∧ s.nodes[a]? = some nd ∧
      s' = { testStep nd.next s with events := s.events ++ [.read a nd.freed] } := by
  rw [advanceStep] at h
  split at h
  next => cases h
  next a nd hnode =>
    obtain ⟨hnp, hnd⟩ := bind_node_eq hnode
    exact ⟨a, nd, hnp, hnd, (Except.ok.inj h).symm⟩

theorem mainHandler_inv {t : Nat} {c : Choice} (h : mainStep s (.handler t c) = .ok s') :
    ∃ server, serverStep s.server (.handler t c) = .ok server ∧
      s' = { s with
        server := server
        owner := owners (.handler t) s.server.process.table server.process.table s.owner } := by
  simp only [mainStep] at h
  cases hserver : serverStep s.server (.handler t c) with
  | error e =>
    rw [hserver] at h
    cases h
  | ok server =>
    rw [hserver] at h
    exact ⟨server, rfl, (Except.ok.inj h).symm⟩

end Inversion

end Aesd.Server.MainLoop
