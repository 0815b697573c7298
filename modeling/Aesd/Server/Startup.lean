/- Aesd/Server/Startup
   layer: faithful model
   digest: main in front of its accept loop, the signals on the way, and the program as a whole. -/

import Aesd.Server.Termination
import Mathlib.Tactic.IntervalCases

set_option autoImplicit false
set_option relaxedAutoImplicit false

namespace Aesd.Server.Startup

open Aesd.Foundation.DescriptorTable
open Aesd.Foundation.Run
open Aesd.Driver.Device
open Aesd.Server.Handler
open Aesd.Server.MainLoop
open Aesd.Server.Termination

section State

inductive Signo
  | sigint
  | sigterm
  deriving DecidableEq, Repr

/-- What `main` and `signal_handler` report to the log on the way to the accept loop. -/
inductive LogLine
  | startingDaemon
  | starting
  | openingFile
  | getaddrinfoFailed
  | setsockoptFailed
  | bindFailed
  | listenFailed
  | caughtSignal
  deriving DecidableEq, Repr

/-- The statement of `main` that comes next. `forTest` is the test of the loop over the addresses,
`closeSock` the `close` behind a failed `bind`, `nullTest` the test of `p` behind the loop. -/
inductive BootPc
  | sigactionInt
  | sigactionTerm
  | parseArgs
  | daemon
  | openlog
  | getaddrinfo
  | forTest
  | socket
  | setsockopt
  | bind
  | closeSock
  | freeaddrinfo
  | nullTest
  | listen
  | setListening
  deriving DecidableEq, Repr

/-- An address as `getaddrinfo` numbers them. -/
abbrev Addr := Nat

/-- What became of an address. -/
inductive Attempt
  | noSocket
  | noBind
  | bound
  deriving DecidableEq, Repr

/-- The variables of `main`, the descriptors and the signals it handles. `p` is the rest of the
list from `p` on. No step depends on `servinfo` once it is assigned to `p`, on `attempts`, and on
`logOpen`, whether `openlog` reached the log. -/
structure BootState where
  device : DriverState
  argv : List String
  pc : BootPc
  handled : List Signo
  runAsDaemon : Bool
  table : Table OpenFile
  logOpen : Bool
  sockfd : Nat
  servinfo : List Addr
  p : List Addr
  attempts : List (Addr × Attempt)
  log : List LogLine

/-- What the environment decides about the call of a step: whether it succeeds, and the addresses
that `getaddrinfo` finds. -/
structure BootChoice where
  succeeds : Bool
  addrs : List Addr

/-- How a process ends before its accept loop. -/
inductive Ending
  | exited (status : Int)
  | killed (signo : Signo)
  deriving DecidableEq, Repr

/-- The program in front of its accept loop, in it or behind it (with what it was in front of it),
or ended before. -/
inductive Program
  | booting (b : BootState)
  | serving (b : BootState) (s : MainState)
  | ended (e : Ending) (log : List LogLine)

inductive ProgramLabel
  | boot (c : BootChoice)
  | main (c : MainChoice)
  | handler (t : Nat) (c : Choice)
  | signal (signo : Signo)

/-- The program as it is executed, with the three standard files. -/
def startProgram (device : DriverState) (argv : List String) : Program :=
  .booting
    { device := device
      argv := argv
      pc := .sigactionInt
      handled := []
      runAsDaemon := false
      table := [some .other, some .other, some .other]
      logOpen := false
      sockfd := 0
      servinfo := []
      p := []
      attempts := []
      log := [] }

end State

section Steps

/-- `exit(-1)` behind a line in the log and `closelog`. -/
def fail (b : BootState) (line : LogLine) : Program := .ended (.exited (-1)) (b.log ++ [line])

/-- `SERVER_LISTENING = true`: the accept loop follows, and the mutexes are free. -/
def enterLoop (b : BootState) : MainState where
  server :=
    { startServer b.device with
      process :=
        { device := b.device
          table := b.table
          fmutex := none
          closeServer := false } }
  pc := .loopTest
  sockfd := b.sockfd
  connFd := 0
  n1 := 0
  np := none
  nodes := []
  head := none
  owner := fun fd => if b.table.lookup fd = none then none else some .main
  events := []

/-- The next step of `main`. Because of LOG_NDELAY it is `openlog` that opens the descriptor of the
log, if there is a log to reach. If not, none appears afterwards: each `syslog` would look for it
again and open its descriptor then. -/
def bootStep (c : BootChoice) (b : BootState) : Program :=
  match b.pc with
  | .sigactionInt =>
    .booting { b with handled := b.handled ++ [.sigint], pc := .sigactionTerm }
  | .sigactionTerm =>
    .booting { b with handled := b.handled ++ [.sigterm], pc := .parseArgs }
  | .parseArgs =>
    let runAsDaemon := decide (2 ≤ b.argv.length ∧ b.argv[1]? = some "-d")
    .booting { b with
      runAsDaemon := runAsDaemon
      pc := if runAsDaemon then .daemon else .openlog }
  | .daemon =>
    if c.succeeds then .booting { b with pc := .openlog } else .ended (.exited (-1)) b.log
  | .openlog =>
    .booting { b with
      table := if c.succeeds then b.table.install .other else b.table
      logOpen := c.succeeds
      log := b.log ++ [if b.runAsDaemon then .startingDaemon else .starting, .openingFile]
      pc := .getaddrinfo }
  | .getaddrinfo =>
    if c.succeeds then .booting { b with servinfo := c.addrs, p := c.addrs, pc := .forTest }
    else fail b .getaddrinfoFailed
  | .forTest => .booting { b with pc := if b.p = [] then .freeaddrinfo else .socket }
  | .socket =>
    if c.succeeds then
      .booting { b with
        sockfd := b.table.lowestFree
        table := b.table.install .other
        pc := .setsockopt }
    else
      .booting { b with
        attempts := b.attempts ++ (b.p.take 1).map fun a => (a, .noSocket)
        p := b.p.drop 1
        pc := .forTest }
  | .setsockopt =>
    if c.succeeds then .booting { b with pc := .bind } else fail b .setsockoptFailed
  | .bind =>
    if c.succeeds then
      .booting { b with
        attempts := b.attempts ++ (b.p.take 1).map fun a => (a, .bound)
        pc := .freeaddrinfo }
    else .booting { b with pc := .closeSock }
  | .closeSock =>
    .booting { b with
      table := b.table.close b.sockfd
      attempts := b.attempts ++ (b.p.take 1).map fun a => (a, .noBind)
      p := b.p.drop 1
      pc := .forTest }
  | .freeaddrinfo => .booting { b with pc := .nullTest }
  | .nullTest => if b.p = [] then fail b .bindFailed else .booting { b with pc := .listen }
  | .listen =>
    if c.succeeds then
      .booting { b with table := b.table.replace b.sockfd .listening, pc := .setListening }
    else fail b .listenFailed
  | .setListening => .serving b (enterLoop b)

/-- A signal in front of the accept loop: SERVER_LISTENING is 0, so `signal_handler` exits. Before
`sigaction` has set it, the default action ends the process. -/
def bootSignal (signo : Signo) (b : BootState) : Program :=
  if signo ∈ b.handled then .ended (.exited 0) (b.log ++ [.caughtSignal])
  else .ended (.killed signo) b.log

/-- The label of the accept loop for one of the program. -/
def asMain : ProgramLabel → Option MainLabel
  | .boot _ => none
  | .main c => some (.main c)
  | .handler t c => some (.handler t c)
  | .signal _ => some .signal

def programStep : Program → ProgramLabel → Except Refusal Program
  | .booting b, .boot c => .ok (bootStep c b)
  | .booting b, .signal signo => .ok (bootSignal signo b)
  | .booting _, _ => .error .blocked
  | .serving b s, l =>
    match asMain l with
    | none => .error .blocked
    | some l => match mainStep s l with
      | .ok s => .ok (.serving b s)
      | .error e => .error e
  | .ended _ _, _ => .error .finished

end Steps

section Stages

variable {device : DriverState} {b : BootState} {c : BootChoice}

/-- The standard files, and the socket of the log if it was reached. -/
def baseTable (logOpen : Bool) : Table OpenFile :=
  [some .other, some .other, some .other] ++ if logOpen then [some .other] else []

/-- No socket is open; the number of one that was closed is free. -/
def NoSocket (b : BootState) : Prop :=
  b.table = baseTable b.logOpen ∨ b.table = baseTable b.logOpen ++ [none]

/-- One socket is open, behind `sockfd`, in the state `x`. -/
def OneSocket (x : OpenFile) (b : BootState) : Prop :=
  b.table = baseTable b.logOpen ++ [some x] ∧ b.sockfd = (baseTable b.logOpen).length

/-- `main` in front of its accept loop. Without the log every descriptor has the number before. -/
def loopStart (logOpen : Bool) (device : DriverState) : MainState :=
  { startMain device with
    server :=
      { startServer device with
        process :=
          { device := device
            table := baseTable logOpen ++ [some .listening]
            fmutex := none
            closeServer := false } }
    sockfd := (baseTable logOpen).length
    owner := fun fd => if fd < (baseTable logOpen).length + 1 then some .main else none }

theorem loopStart_true (device : DriverState) : loopStart true device = startMain device := rfl

/-- The addresses in front of `p` were tried in vain. -/
def Trying (b : BootState) : Prop :=
  b.attempts.map Prod.fst ++ b.p = b.servinfo ∧ ∀ x ∈ b.attempts, x.2 ≠ .bound

/-- The socket is bound to the first address for which there were a socket and a `bind`. -/
def Bound (b : BootState) : Prop :=
  b.p ≠ [] ∧ b.attempts.map Prod.fst <+: b.servinfo ∧
    ∃ failed a, b.attempts = failed ++ [(a, .bound)] ∧ ∀ x ∈ failed, x.2 ≠ .bound

/-- What is known in front of each statement. -/
def Stage (b : BootState) : BootPc → Prop
  | .getaddrinfo => NoSocket b ∧ b.attempts = []
  | .forTest => NoSocket b ∧ Trying b
  | .socket => NoSocket b ∧ Trying b ∧ b.p ≠ []
  | .setsockopt => OneSocket .other b ∧ Trying b ∧ b.p ≠ []
  | .bind => OneSocket .other b ∧ Trying b ∧ b.p ≠ []
  | .closeSock => OneSocket .other b ∧ Trying b ∧ b.p ≠ []
  | .freeaddrinfo => (NoSocket b ∧ Trying b ∧ b.p = []) ∨ (OneSocket .other b ∧ Bound b)
  | .nullTest => (NoSocket b ∧ Trying b ∧ b.p = []) ∨ (OneSocket .other b ∧ Bound b)
  | .listen => OneSocket .other b ∧ Bound b
  | .setListening => OneSocket .listening b ∧ Bound b
  | _ => b.table = [some .other, some .other, some .other] ∧ b.attempts = [] ∧ b.log = []

structure BootOk (device : DriverState) (b : BootState) : Prop where
  device : b.device = device
  stage : Stage b b.pc

/-- A socket takes the first free number. -/
theorem NoSocket.open (h : NoSocket b) :
    b.table.lowestFree = (baseTable b.logOpen).length ∧
      b.table.install .other = baseTable b.logOpen ++ [some .other] := by
  rcases h with h | h
  · rw [h]
    cases b.logOpen <;> exact ⟨rfl, rfl⟩
  · rw [h]
    cases b.logOpen <;> exact ⟨rfl, rfl⟩

/-- The loop goes on behind an address that was tried in vain. -/
theorem Trying.next {a : Attempt} (h : Trying b) (hp : b.p ≠ []) (ha : a ≠ .bound) {b' : BootState}
    (hservinfo : b'.servinfo = b.servinfo) (hp' : b'.p = b.p.drop 1)
    (hattempts : b'.attempts = b.attempts ++ (b.p.take 1).map fun x => (x, a)) : Trying b' := by
  obtain ⟨hsplit, hfailed⟩ := h
  obtain ⟨x, rest, hcons⟩ := List.exists_cons_of_ne_nil hp
  rw [hcons] at hsplit hp' hattempts
  refine ⟨?_, ?_⟩
  · rw [hservinfo, hp', hattempts, ← hsplit]
    simp
  · intro y hy
    rw [hattempts] at hy
    rcases List.mem_append.mp hy with hy | hy
    · exact hfailed y hy
    · obtain rfl := List.mem_singleton.mp hy
      exact ha

theorem Trying.bound (h : Trying b) (hp : b.p ≠ []) {b' : BootState}
    (hservinfo : b'.servinfo = b.servinfo) (hp' : b'.p = b.p)
    (hattempts : b'.attempts = b.attempts ++ (b.p.take 1).map fun x => (x, .bound)) :
    Bound b' := by
  obtain ⟨hsplit, hfailed⟩ := h
  obtain ⟨x, rest, hcons⟩ := List.exists_cons_of_ne_nil hp
  rw [hcons] at hsplit hattempts
  refine ⟨hp' ▸ hp, ⟨rest, ?_⟩, b.attempts, x, hattempts, hfailed⟩
  rw [hservinfo, hattempts, ← hsplit]
  simp

/-- The line in front of the `exit(-1)` behind a call. -/
def failureLine : BootPc → Option LogLine
  | .getaddrinfo => some .getaddrinfoFailed
  | .setsockopt => some .setsockoptFailed
  | .listen => some .listenFailed
  | _ => none

/-- How `main` comes to its `exit(-1)`, and what is in the log then. The failure of `daemon` goes to
the standard error alone. -/
inductive Fails (b : BootState) (c : BootChoice) : List LogLine → Prop
  | daemon : b.pc = .daemon → c.succeeds = false → Fails b c []
  | call {line : LogLine} : failureLine b.pc = some line → c.succeeds = false →
      Fails b c (b.log ++ [line])
  | noAddress : b.pc = .nullTest → b.attempts.map Prod.fst = b.servinfo →
      (∀ x ∈ b.attempts, x.2 ≠ .bound) → Fails b c (b.log ++ [.bindFailed])

/-- What a step of `main` in front of its loop comes to. -/
def BootResult (device : DriverState) (b : BootState) (c : BootChoice) : Program → Prop
  | .booting b' => BootOk device b'
  | .serving b' s => s = loopStart b'.logOpen device ∧ Bound b'
  | .ended e log => e = .exited (-1) ∧ Fails b c log

theorem enterLoop_eq (h : OneSocket .listening b) (hdevice : b.device = device) :
    enterLoop b = loopStart b.logOpen device := by
  obtain ⟨htable, hsockfd⟩ := h
  have howner : ∀ logOpen fd,
      (if Table.lookup (baseTable logOpen ++ [some .listening]) fd = none then none
        else some Party.main) =
      if fd < (baseTable logOpen).length + 1 then some Party.main else none := by
    intro logOpen fd
    have hlength : (baseTable logOpen).length + 1 ≤ 5 := by cases logOpen <;> decide
    by_cases hsmall : fd < 5
    · interval_cases fd <;> cases logOpen <;> rfl
    · have hout : (baseTable logOpen ++ [some OpenFile.listening])[fd]? = none := by
        apply List.getElem?_eq_none
        rw [List.length_append, List.length_singleton]
        omega
      have hfree : Table.lookup (baseTable logOpen ++ [some .listening]) fd = none := by
        rw [Table.lookup, hout]
        rfl
      rw [if_pos hfree, if_neg (by omega)]
  simp only [enterLoop, htable, howner, hsockfd, hdevice]
  rfl

theorem bootStep_at {pc : BootPc} (hdevice : b.device = device) (hpc : b.pc = pc)
    (hstage : Stage b pc) : BootResult device b c (bootStep c b) := by
  cases pc with
  | sigactionInt =>
    simp only [bootStep, hpc]
    exact ⟨hdevice, hstage⟩
  | sigactionTerm =>
    simp only [bootStep, hpc]
    exact ⟨hdevice, hstage⟩
  | parseArgs =>
    simp only [bootStep, hpc]
    refine ⟨hdevice, ?_⟩
    split_ifs <;> exact hstage
  | daemon =>
    simp only [bootStep, hpc]
    split_ifs with hfails
    · exact ⟨hdevice, hstage⟩
    · refine ⟨rfl, ?_⟩
      rw [hstage.2.2]
      exact .daemon hpc (Bool.eq_false_of_not_eq_true hfails)
  | openlog =>
    simp only [bootStep, hpc]
    refine ⟨hdevice, .inl ?_, hstage.2.1⟩
    show (if c.succeeds then b.table.install .other else b.table) = baseTable c.succeeds
    rw [hstage.1]
    cases c.succeeds <;> rfl
  | getaddrinfo =>
    simp only [bootStep, hpc]
    split_ifs with hfails
    · refine ⟨hdevice, hstage.1, ?_, ?_⟩
      · simp [hstage.2]
      · simp [hstage.2]
    · exact ⟨rfl, .call (by rw [hpc]; rfl) (Bool.eq_false_of_not_eq_true hfails)⟩
  | forTest =>
    simp only [bootStep, hpc]
    refine ⟨hdevice, ?_⟩
    by_cases hp : b.p = []
    · simp only [if_pos hp]
      exact .inl ⟨hstage.1, hstage.2, hp⟩
    · simp only [if_neg hp]
      exact ⟨hstage.1, hstage.2, hp⟩
  | socket =>
    obtain ⟨hnone, htrying, hp⟩ := hstage
    simp only [bootStep, hpc]
    split_ifs
    · exact ⟨hdevice, ⟨hnone.open.2, hnone.open.1⟩, htrying, hp⟩
    · exact ⟨hdevice, hnone, htrying.next hp (by decide) rfl rfl rfl⟩
  | setsockopt =>
    simp only [bootStep, hpc]
    split_ifs with hfails
    · exact ⟨hdevice, hstage⟩
    · exact ⟨rfl, .call (by rw [hpc]; rfl) (Bool.eq_false_of_not_eq_true hfails)⟩
  | bind =>
    obtain ⟨hsocket, htrying, hp⟩ := hstage
    simp only [bootStep, hpc]
    split_ifs
    · exact ⟨hdevice, .inr ⟨hsocket, htrying.bound hp rfl rfl rfl⟩⟩
    · exact ⟨hdevice, hsocket, htrying, hp⟩
  | closeSock =>
    obtain ⟨⟨htable, hsockfd⟩, htrying, hp⟩ := hstage
    simp only [bootStep, hpc]
    refine ⟨hdevice, .inr ?_, htrying.next hp (by decide) rfl rfl rfl⟩
    show b.table.close b.sockfd = baseTable b.logOpen ++ [none]
    rw [htable, hsockfd]
    cases b.logOpen <;> rfl
  | freeaddrinfo =>
    simp only [bootStep, hpc]
    exact ⟨hdevice, hstage⟩
  | nullTest =>
    simp only [bootStep, hpc]
    split_ifs with hp
    · rcases hstage with ⟨-, ⟨hsplit, hvain⟩, hnil⟩ | ⟨-, hbound⟩
      · rw [hnil, List.append_nil] at hsplit
        exact ⟨rfl, .noAddress hpc hsplit hvain⟩
      · exact absurd hp hbound.1
    · rcases hstage with ⟨-, -, hnil⟩ | hbound
      · exact absurd hnil hp
      · exact ⟨hdevice, hbound⟩
  | listen =>
    obtain ⟨⟨htable, hsockfd⟩, hbound⟩ := hstage
    simp only [bootStep, hpc]
    split_ifs with hfails
    · refine ⟨hdevice, ⟨?_, hsockfd⟩, hbound⟩
      show b.table.replace b.sockfd .listening = baseTable b.logOpen ++ [some .listening]
      rw [htable, hsockfd]
      cases b.logOpen <;> rfl
    · exact ⟨rfl, .call (by rw [hpc]; rfl) (Bool.eq_false_of_not_eq_true hfails)⟩
  | setListening =>
    simp only [bootStep, hpc]
    exact ⟨enterLoop_eq hstage.1 hdevice, hstage.2⟩

theorem bootStep_result (h : BootOk device b) : BootResult device b c (bootStep c b) :=
  bootStep_at h.device rfl h.stage

end Stages

section Results

variable {device : DriverState} {argv : List String} {labels : List ProgramLabel}
  {prog prog' : Program} {l : ProgramLabel}

/-- A signal arrived in the run. -/
def Signalled (labels : List ProgramLabel) : Prop := ∃ signo, .signal signo ∈ labels

/-- The last step of a run is a call of `main` that fails. -/
def FailsLast (device : DriverState) (argv : List String) (labels : List ProgramLabel)
    (log : List LogLine) : Prop :=
  ∃ pre c b, labels = pre ++ [.boot c] ∧
    run programStep (startProgram device argv) pre = .ok (.booting b) ∧ Fails b c log

/-- What is known of the program behind a run. -/
def Reached (device : DriverState) (argv : List String) (labels : List ProgramLabel) :
    Program → Prop
  | .booting b => BootOk device b ∧ labels.filterMap asMain = []
  | .serving b s => Bound b ∧
      run mainStep (loopStart b.logOpen device) (labels.filterMap asMain) = .ok s ∧
      (Signalled labels → s.server.process.closeServer = true)
  | .ended e log =>
      (Signalled labels ∧ (e = .exited 0 ∧ log.getLast? = some .caughtSignal ∨
        ∃ signo, e = .killed signo)) ∨
      (¬Signalled labels ∧ e = .exited (-1) ∧ FailsLast device argv labels log)

theorem not_signalled (h : labels.filterMap asMain = []) : ¬Signalled labels := by
  rintro ⟨signo, hmem⟩
  have hin : MainLabel.signal ∈ labels.filterMap asMain :=
    List.mem_filterMap.mpr ⟨.signal signo, hmem, rfl⟩
  rw [h] at hin
  cases hin

theorem Signalled.last {signo : Signo} : Signalled (labels ++ [.signal signo]) :=
  ⟨signo, List.mem_append_right _ List.mem_cons_self⟩

theorem boot_concat (h : labels.filterMap asMain = []) (c : BootChoice) :
    (labels ++ [ProgramLabel.boot c]).filterMap asMain = [] := by
  rw [List.filterMap_append, h]
  rfl

theorem Reached.boot {b : BootState} (h : Reached device argv labels (.booting b))
    (hrun : run programStep (startProgram device argv) labels = .ok (.booting b))
    (c : BootChoice) : Reached device argv (labels ++ [.boot c]) (bootStep c b) := by
  obtain ⟨hboot, hlabels⟩ := h
  have hnone := boot_concat hlabels c
  have hresult := bootStep_result (c := c) hboot
  cases hnext : bootStep c b with
  | booting b' =>
    rw [hnext] at hresult
    exact ⟨hresult, hnone⟩
  | serving b' s =>
    rw [hnext] at hresult
    refine ⟨hresult.2, ?_, fun hsig => absurd hsig (not_signalled hnone)⟩
    rw [hnone, hresult.1]
    rfl
  | ended e log =>
    rw [hnext] at hresult
    exact .inr ⟨not_signalled hnone, hresult.1, labels, c, b, rfl, hrun, hresult.2⟩

theorem Reached.serve {b : BootState} {s s' : MainState}
    (h : Reached device argv labels (.serving b s)) {ml : MainLabel} (hl : asMain l = some ml)
    (hstep : mainStep s ml = .ok s') : Reached device argv (labels ++ [l]) (.serving b s') := by
  obtain ⟨hbound, hrun, hsignal⟩ := h
  have hlast : (labels ++ [l]).filterMap asMain = labels.filterMap asMain ++ [ml] := by
    rw [List.filterMap_append, List.filterMap_cons_some hl]
    rfl
  refine ⟨hbound, ?_, ?_⟩
  · rw [hlast, run_concat hrun, hstep]
  · rintro ⟨signo, hmem⟩
    rcases List.mem_append.mp hmem with hold | hnew
    · exact closeServer_step (hsignal ⟨signo, hold⟩) hstep
    · obtain rfl := List.mem_singleton.mp hnew
      obtain rfl := Option.some.inj hl
      obtain rfl := Except.ok.inj hstep
      rfl

theorem Reached.step (h : Reached device argv labels prog)
    (hrun : run programStep (startProgram device argv) labels = .ok prog)
    (hstep : programStep prog l = .ok prog') : Reached device argv (labels ++ [l]) prog' := by
  cases prog with
  | booting b =>
    cases l with
    | boot c =>
      obtain rfl := Except.ok.inj hstep
      exact h.boot hrun c
    | signal signo =>
      obtain rfl := Except.ok.inj hstep
      unfold bootSignal
      split_ifs
      · exact .inl ⟨Signalled.last, .inl ⟨rfl, List.getLast?_concat⟩⟩
      · exact .inl ⟨Signalled.last, .inr ⟨signo, rfl⟩⟩
    | main c => cases hstep
    | handler t c => cases hstep
  | serving b s =>
    simp only [programStep] at hstep
    cases hl : asMain l with
    | none =>
      rw [hl] at hstep
      cases hstep
    | some ml =>
      rw [hl] at hstep
      cases hmain : mainStep s ml with
      | error e =>
        simp only [hmain] at hstep
        cases hstep
      | ok s' =>
        simp only [hmain] at hstep
        obtain rfl := Except.ok.inj hstep
        exact h.serve hl hmain
  | ended e log => cases hstep

theorem program_run (hrun : run programStep (startProgram device argv) labels = .ok prog) :
    Reached device argv labels prog := by
  induction labels using List.reverseRecOn generalizing prog with
  | nil =>
    obtain rfl := Except.ok.inj hrun
    exact ⟨⟨rfl, rfl, rfl, rfl⟩, rfl⟩
  | append_singleton labels l ih =>
    obtain ⟨m, hm, hstep⟩ := run_concat_inv hrun
    exact (ih hm).step hm hstep

/-- The descriptors of `main` in front of its accept loop: the standard files, the log's, and one
socket at most. -/
theorem BootOk.table {b : BootState} (h : BootOk device b) :
    b.table = [some .other, some .other, some .other] ∨ NoSocket b ∨ ∃ x, OneSocket x b := by
  have hstage := h.stage
  cases hpc : b.pc with
  | getaddrinfo => exact .inr (.inl (hpc ▸ hstage).1)
  | forTest => exact .inr (.inl (hpc ▸ hstage).1)
  | socket => exact .inr (.inl (hpc ▸ hstage).1)
  | setsockopt => exact .inr (.inr ⟨_, (hpc ▸ hstage).1⟩)
  | bind => exact .inr (.inr ⟨_, (hpc ▸ hstage).1⟩)
  | closeSock => exact .inr (.inr ⟨_, (hpc ▸ hstage).1⟩)
  | freeaddrinfo =>
    rw [hpc] at hstage
    rcases hstage with ⟨hnone, -, -⟩ | ⟨hone, -⟩
    · exact .inr (.inl hnone)
    · exact .inr (.inr ⟨_, hone⟩)
  | nullTest =>
    rw [hpc] at hstage
    rcases hstage with ⟨hnone, -, -⟩ | ⟨hone, -⟩
    · exact .inr (.inl hnone)
    · exact .inr (.inr ⟨_, hone⟩)
  | listen => exact .inr (.inr ⟨_, (hpc ▸ hstage).1⟩)
  | setListening => exact .inr (.inr ⟨_, (hpc ▸ hstage).1⟩)
  | _ =>
    rw [hpc] at hstage
    exact .inl hstage.1

/-- However many addresses were tried, `main` has at most one socket open on the way. -/
theorem BootOk.count_le {b : BootState} (h : BootOk device b) :
    b.table.count (fun _ => true) ≤ (baseTable b.logOpen).length + 1 := by
  have hone : ∀ o, Table.count (fun _ => true) (baseTable b.logOpen ++ [o]) ≤
      (baseTable b.logOpen).length + 1 := by
    intro o
    apply (Table.count_le_length _ _).trans
    rw [List.length_append, List.length_singleton]
  rcases h.table with htable | (htable | htable) | ⟨x, htable, -⟩
  · rw [htable]
    cases b.logOpen <;> decide
  · rw [htable]
    exact (Table.count_le_length _ _).trans (Nat.le_succ _)
  · rw [htable]
    exact hone _
  · rw [htable]
    exact hone _

/-- Without a log the listening socket is the first descriptor behind the standard files. -/
example : (loopStart false aesdInitModule).sockfd = 3 := rfl

/-- The second address is the first one for which `bind` succeeds. -/
def secondAddress : List ProgramLabel :=
  List.replicate 4 (.boot ⟨true, []⟩) ++ .boot ⟨true, [0, 1]⟩ ::
    List.replicate 3 (.boot ⟨true, []⟩) ++ .boot ⟨false, []⟩ ::
      List.replicate 9 (.boot ⟨true, []⟩) ++ [.signal .sigint]

theorem secondAddress_run (device : DriverState) : ∃ b s,
    run programStep (startProgram device ["aesdsocket"]) secondAddress = .ok (.serving b s) ∧
      b.logOpen = true ∧ b.attempts = [(0, .noBind), (1, .bound)] := ⟨_, _, rfl, rfl, rfl⟩

end Results

end Aesd.Server.Startup
