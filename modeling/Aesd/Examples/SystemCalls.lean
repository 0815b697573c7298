/- Aesd/Examples/SystemCalls
   layer: faithful model
   digest: systemcalls.c: a process that runs commands, with and without a file for their output. -/

import Aesd.Foundation.DescriptorTable
import Aesd.Foundation.Run
import Mathlib.Data.List.Nodup

set_option autoImplicit false
set_option relaxedAutoImplicit false

namespace Aesd.Examples.SystemCalls

open Aesd.Foundation.DescriptorTable
open Aesd.Foundation.DescriptorTable.Table
  (lowestFree install close assign lookup_install lookup_install_self lookup_install_of_ne
    lookup_lowestFree ne_lowestFree lookup_assign_self lookup_assign_of_ne lookup_close_of_ne
    length_install length_assign length_close count_install count_assign count_close
    count_le_length)
open Aesd.Foundation.Run

section State

abbrev FileName := String

/-- The descriptors of a process, whose numbers are below RLIMIT_NOFILE. -/
structure Files where
  limit : Nat
  table : Table FileName
  fits : table.length ≤ limit

def Files.lookup (f : Files) (fd : Nat) : Option FileName := f.table.lookup fd

def Files.opened (f : Files) : Nat := f.table.count fun _ => true

/-- How a child ended. Signals are numbered from 1. -/
inductive Ended
  | exited (code : Int)
  | killed (sig : Fin 64) (core : Bool)
  deriving DecidableEq, Repr

/-- The status word of `waitpid`. -/
def Ended.status : Ended → Int
  | .exited code => code % 256 * 256
  | .killed sig core => sig.val + 1 + if core then 128 else 0

def wifexited (status : Int) : Bool := status % 128 == 0

def wexitstatus (status : Int) : Int := status / 256 % 256

/-- A program as it was started. -/
structure Launch where
  path : String
  argv : List String
  files : Files

/-- The calling process; `unreaped` are its children for which no `waitpid` returned. -/
structure Process where
  files : Files
  unreaped : Nat

/-- What the environment decides about the calls of a function: whether `open`, `fork`, `dup2` and
`waitpid` succeed where nothing in the process stands against it, and how the command ends. There
is no such end where `execv` fails. -/
structure Choice where
  openFile : Bool
  fork : Bool
  dup2 : Bool
  exec : Option Ended
  waitpid : Bool
  deriving DecidableEq, Repr

/-- The result of a function, with what it did: `fd`, the child and the program this started. -/
structure Effect where
  result : Bool
  fd : Option Nat
  child : Option Ended
  launch : Option Launch
  process : Process

end State

section Descriptors

/-- `open`, which fails with EMFILE where every number below the limit is in use. -/
def Files.openFile (f : Files) (name : FileName) : Option (Nat × Files) :=
  if h : lowestFree f.table < f.limit then
    some (lowestFree f.table,
      { limit := f.limit
        table := install name f.table
        fits := by
          rw [length_install]
          exact Nat.max_le.mpr ⟨f.fits, h⟩ })
  else none

/-- `dup2`, which fails with EBADF for a number that is not in use or beyond the limit. -/
def Files.dup2 (f : Files) (oldfd newfd : Nat) : Option Files :=
  match f.lookup oldfd with
  | none => none
  | some file =>
    if h : newfd < f.limit then
      some
        { limit := f.limit
          table := assign file f.table newfd
          fits := by
            rw [length_assign]
            exact Nat.max_le.mpr ⟨f.fits, h⟩ }
    else none

def Files.close (f : Files) (fd : Nat) : Files where
  limit := f.limit
  table := f.table.close fd
  fits := by
    rw [length_close]
    exact f.fits

variable {f f' : Files} {fd n : Nat} {name file out : FileName}

theorem Files.opened_le (f : Files) : f.opened ≤ f.limit :=
  Nat.le_trans (count_le_length _ _) f.fits

/-- A file is opened under a number that was free, and nothing else changes. -/
theorem openFile_spec (h : f.openFile name = some (fd, f')) :
    f'.limit = f.limit ∧ f.lookup fd = none ∧ f'.lookup fd = some name ∧
    (∀ n file, f.lookup n = some file → n ≠ fd ∧ f'.lookup n = some file) ∧
    f'.opened = f.opened + 1 := by
  unfold Files.openFile at h
  split_ifs at h with hfree
  obtain ⟨rfl, rfl⟩ := Prod.mk.inj (Option.some.inj h)
  refine ⟨rfl, lookup_lowestFree _, lookup_install_self _ _, ?_, ?_⟩
  · intro n file hn
    exact ⟨ne_lowestFree hn, lookup_install _ hn⟩
  · exact count_install _ _ _

/-- The second number stands for what the first one stands for. -/
theorem dup2_spec (h : f.dup2 fd n = some f') (hfd : f.lookup fd = some name)
    (hn : f.lookup n = some out) :
    f'.lookup n = some name ∧ (∀ m, m ≠ n → f'.lookup m = f.lookup m) ∧
    f'.opened = f.opened := by
  unfold Files.dup2 at h
  rw [hfd] at h
  simp only at h
  split_ifs at h with hlimit
  obtain rfl := Option.some.inj h
  refine ⟨lookup_assign_self _ _ _, ?_, ?_⟩
  · intro m hm
    exact lookup_assign_of_ne _ hm
  · have hcount := count_assign (fun _ => true) hn name
    exact Nat.add_right_cancel hcount

theorem close_spec (h : f.lookup fd = some file) :
    (∀ n, n ≠ fd → (f.close fd).lookup n = f.lookup n) ∧
    (f.close fd).opened + 1 = f.opened := by
  refine ⟨fun n hn => lookup_close_of_ne hn, ?_⟩
  exact count_close (fun _ => true) h

end Descriptors

section Calls

/-- The child from `execv` on. With no argument at all there is no path, and `execv` fails. -/
def execChild (command : List String) (c : Choice) (files : Files) : Option Launch × Ended :=
  match command.head?, c.exec with
  | some path, some ended => (some ⟨path, command, files⟩, ended)
  | _, _ => (none, .exited (-1))

/-- The child of `do_exec_redirect`. -/
def redirectChild (fd : Nat) (command : List String) (c : Choice) (files : Files) :
    Option Launch × Ended :=
  if c.dup2 = false then (none, .exited (-1))
  else match files.dup2 fd 1 with
    | none => (none, .exited (-1))
    | some files => execChild command c (files.close fd)

/-- The child of `system`, which hands the command to the shell. -/
def shellChild (cmd : String) (c : Choice) (files : Files) : Option Launch × Ended :=
  match c.exec with
  | some ended => (some ⟨"/bin/sh", ["sh", "-c", cmd], files⟩, ended)
  | none => (none, .exited 127)

/-- What `fork` and `waitpid` make of a child; there is no status where one of them returns -1. -/
structure Waited where
  status : Option Int
  child : Option Ended
  launch : Option Launch
  process : Process

def forkWait (child : Files → Option Launch × Ended) (c : Choice) (p : Process) : Waited :=
  if c.fork = false then ⟨none, none, none, p⟩
  else
    let r := child p.files
    if c.waitpid = false then ⟨none, some r.2, r.1, { p with unreaped := p.unreaped + 1 }⟩
    else ⟨some r.2.status, some r.2, r.1, p⟩

/-- What is made of the status in the end. -/
def reported : Option Int → Bool
  | none => false
  | some status => if wifexited status then wexitstatus status == 0 else false

/-- `system(cmd)`, with -1 where `fork` or `waitpid` failed. For NULL it only says whether there is
a shell. -/
def system (cmd : Option String) (c : Choice) (p : Process) : Int × Waited :=
  match cmd with
  | none => (if c.exec.isSome then 1 else 0, ⟨none, none, none, p⟩)
  | some cmd =>
    let w := forkWait (shellChild cmd c) c p
    (w.status.getD (-1), w)

def doSystem (cmd : Option String) (c : Choice) (p : Process) : Effect :=
  let (status, w) := system cmd c p
  { result :=
      if cmd = none then false
      else if status = -1 then false
      else if wifexited status then wexitstatus status == 0
      else false
    fd := none
    child := w.child
    launch := w.launch
    process := w.process }

def doExec (command : List String) (c : Choice) (p : Process) : Effect :=
  let w := forkWait (execChild command c) c p
  { result := reported w.status
    fd := none
    child := w.child
    launch := w.launch
    process := w.process }

/-- The parent does not close `fd` on any way out. -/
def doExecRedirect (outputfile : FileName) (command : List String) (c : Choice) (p : Process) :
    Effect :=
  if c.openFile = false then ⟨false, none, none, none, p⟩
  else match p.files.openFile outputfile with
    | none => ⟨false, none, none, none, p⟩
    | some (fd, files) =>
      let w := forkWait (redirectChild fd command c) c { p with files := files }
      { result := reported w.status
        fd := some fd
        child := w.child
        launch := w.launch
        process := w.process }

inductive Call
  | doSystem (cmd : Option String)
  | doExec (command : List String)
  | doExecRedirect (outputfile : FileName) (command : List String)
  deriving DecidableEq, Repr

def Call.effect : Call → Choice → Process → Effect
  | .doSystem cmd => SystemCalls.doSystem cmd
  | .doExec command => SystemCalls.doExec command
  | .doExecRedirect outputfile command => SystemCalls.doExecRedirect outputfile command

/-- One call of the past, with what it did. -/
structure Entry where
  call : Call
  choice : Choice
  result : Bool
  fd : Option Nat
  child : Option Ended
  launch : Option Launch

def Effect.entry (e : Effect) (call : Call) (c : Choice) : Entry where
  call := call
  choice := c
  result := e.result
  fd := e.fd
  child := e.child
  launch := e.launch

/-- The calling process and its calls so far. No call depends on these. -/
structure Session where
  process : Process
  history : List Entry

/-- Every call returns. -/
def callStep (s : Session) (l : Call × Choice) : Except Empty Session :=
  let e := l.1.effect l.2 s.process
  .ok ⟨e.process, s.history ++ [e.entry l.1 l.2]⟩

end Calls

section Waiting

variable {c : Choice} {p : Process} {child : Files → Option Launch × Ended}

/-- A child that starts a program ends like that, and any other one does not end with 0. -/
structure ChildOf (c : Choice) (r : Option Launch × Ended) : Prop where
  runs : ∀ l, r.1 = some l → c.exec = some r.2
  fails : r.1 = none → ∃ code, r.2 = .exited code ∧ code % 256 ≠ 0

theorem execChild_childOf (command : List String) (c : Choice) (files : Files) :
    ChildOf c (execChild command c files) := by
  unfold execChild
  split
  next path ended _ hexec => exact ⟨fun _ _ => hexec, fun h => nomatch h⟩
  next => exact ⟨fun _ h => (nomatch h), fun _ => ⟨-1, rfl, by decide⟩⟩

theorem shellChild_childOf (cmd : String) (c : Choice) (files : Files) :
    ChildOf c (shellChild cmd c files) := by
  unfold shellChild
  split
  next ended hexec => exact ⟨fun _ _ => hexec, fun h => nomatch h⟩
  next => exact ⟨fun _ h => (nomatch h), fun _ => ⟨127, rfl, by decide⟩⟩

theorem redirectChild_childOf (fd : Nat) (command : List String) (c : Choice) (files : Files) :
    ChildOf c (redirectChild fd command c files) := by
  unfold redirectChild
  split_ifs
  · exact ⟨fun _ h => (nomatch h), fun _ => ⟨-1, rfl, by decide⟩⟩
  · split
    next => exact ⟨fun _ h => (nomatch h), fun _ => ⟨-1, rfl, by decide⟩⟩
    next files' _ => exact execChild_childOf command c (files'.close fd)

theorem status_ne (ended : Ended) : ended.status ≠ -1 := by
  cases ended with
  | exited code =>
    simp only [Ended.status]
    omega
  | killed sig core =>
    simp only [Ended.status]
    split_ifs <;> omega

/-- The macros of the status word say whether the child ended with 0, as far as one byte can. -/
theorem reported_status (ended : Ended) :
    reported (some ended.status) = true ↔ ∃ code, ended = .exited code ∧ code % 256 = 0 := by
  cases ended with
  | exited code =>
    have hexited : wifexited (Ended.exited code).status = true := by
      simp only [wifexited, Ended.status, beq_iff_eq]
      omega
    have hcode : wexitstatus (Ended.exited code).status = code % 256 := by
      simp only [wexitstatus, Ended.status]
      omega
    rw [reported, if_pos hexited, hcode, beq_iff_eq]
    constructor
    · exact fun h => ⟨code, rfl, h⟩
    · rintro ⟨code', heq, h⟩
      obtain rfl := Ended.exited.inj heq
      exact h
  | killed sig core =>
    have hkilled : wifexited (Ended.killed sig core).status = false := by
      have hsig := sig.isLt
      simp only [wifexited, Ended.status, beq_eq_false_iff_ne]
      split_ifs <;> omega
    rw [reported, hkilled]
    simp

/-- The command was run, waited for, and ended with 0. -/
def Succeeded (c : Choice) (launch : Option Launch) : Prop :=
  launch.isSome = true ∧ c.waitpid = true ∧ ∃ code, c.exec = some (.exited code) ∧ code % 256 = 0

theorem not_succeeded (c : Choice) : ¬Succeeded c none := fun h => nomatch h.1

theorem forkWait_reported (h : ChildOf c (child p.files)) :
    reported (forkWait child c p).status = true ↔ Succeeded c (forkWait child c p).launch := by
  unfold forkWait
  split_ifs with hfork hwait
  · exact ⟨fun hr => (nomatch hr), fun hs => absurd hs (not_succeeded c)⟩
  · refine ⟨fun hr => (nomatch hr), fun hs => ?_⟩
    rw [hs.2.1] at hwait
    cases hwait
  · have hwaited : c.waitpid = true := by simpa using hwait
    simp only
    rw [reported_status]
    cases hl : (child p.files).1 with
    | none =>
      obtain ⟨code, hend, hne⟩ := h.fails hl
      rw [hend]
      constructor
      · rintro ⟨code', heq, hzero⟩
        obtain rfl := Ended.exited.inj heq
        exact absurd hzero hne
      · exact fun hs => absurd hs (not_succeeded c)
    | some l =>
      have hexec := h.runs l hl
      rw [Succeeded, hexec]
      constructor
      · rintro ⟨code, hend, hzero⟩
        exact ⟨rfl, hwaited, code, congrArg some hend, hzero⟩
      · rintro ⟨-, -, code, hend, hzero⟩
        exact ⟨code, Option.some.inj hend, hzero⟩

theorem forkWait_status (child : Files → Option Launch × Ended) (c : Choice) (p : Process) :
    (forkWait child c p).status = none ∨
      ∃ ended : Ended, (forkWait child c p).status = some ended.status := by
  unfold forkWait
  split_ifs
  · exact .inl rfl
  · exact .inl rfl
  · exact .inr ⟨_, rfl⟩

theorem forkWait_files (child : Files → Option Launch × Ended) (c : Choice) (p : Process) :
    (forkWait child c p).process.files = p.files := by
  unfold forkWait
  split_ifs <;> rfl

/-- A child that was not waited for. -/
def leftOver (child : Option Ended) (c : Choice) : Bool := child.isSome && !c.waitpid

theorem forkWait_unreaped (child : Files → Option Launch × Ended) (c : Choice) (p : Process) :
    (forkWait child c p).process.unreaped =
      p.unreaped + (leftOver (forkWait child c p).child c).toNat := by
  unfold forkWait
  split_ifs with hfork hwait
  · rfl
  · simp [leftOver, hwait]
  · simp [leftOver, hwait]

theorem forkWait_launch {l : Launch} (h : (forkWait child c p).launch = some l) :
    (child p.files).1 = some l := by
  unfold forkWait at h
  split_ifs at h
  · exact h
  · exact h

end Waiting

section Step

variable {c : Choice} {p : Process} {l : Launch} {out : FileName}

def Call.path : Call → Option String
  | .doSystem _ => some "/bin/sh"
  | .doExec command => command.head?
  | .doExecRedirect _ command => command.head?

def Call.argv : Call → List String
  | .doSystem cmd => ["sh", "-c"] ++ cmd.toList
  | .doExec command => command
  | .doExecRedirect _ command => command

def Call.outputfile : Call → Option FileName
  | .doExecRedirect outputfile _ => some outputfile
  | _ => none

/-- The program that a call asks for, with the files of the caller, of which there are `opened`, and
its output in `outputfile` where the call names one. -/
structure Asked (call : Call) (files : Files) (out : FileName) (opened : Nat) (l : Launch) :
    Prop where
  path : some l.path = call.path
  argv : l.argv = call.argv
  stdout : l.files.lookup 1 = some (call.outputfile.getD out)
  others : ∀ fd file, fd ≠ 1 → files.lookup fd = some file → l.files.lookup fd = some file
  opened : l.files.opened = opened

/-- What a call does: it leaves one descriptor behind where it opened a file, and nothing else. -/
structure Does (call : Call) (c : Choice) (p : Process) (out : FileName) (e : Effect) : Prop where
  limit : e.process.files.limit = p.files.limit
  kept : ∀ fd file, p.files.lookup fd = some file → e.process.files.lookup fd = some file
  opened : e.process.files.opened = p.files.opened + e.fd.toList.length
  added : ∀ fd, e.fd = some fd → ∃ name, call.outputfile = some name ∧
    p.files.lookup fd = none ∧ e.process.files.lookup fd = some name
  result : e.result = true ↔ Succeeded c e.launch
  asked : ∀ l, e.launch = some l → Asked call p.files out p.files.opened l
  redirected : call.outputfile.isSome = true → e.launch.isSome = true → e.fd.isSome = true
  unreaped : e.process.unreaped = p.unreaped + (leftOver e.child c).toNat

theorem execChild_launch {command : List String} {files : Files}
    (h : (execChild command c files).1 = some l) :
    some l.path = command.head? ∧ l.argv = command ∧ l.files = files := by
  unfold execChild at h
  split at h
  next path ended hpath _ =>
    obtain rfl := Option.some.inj h
    exact ⟨hpath.symm, rfl, rfl⟩
  next => cases h

theorem shellChild_launch {cmd : String} {files : Files}
    (h : (shellChild cmd c files).1 = some l) : l = ⟨"/bin/sh", ["sh", "-c", cmd], files⟩ := by
  unfold shellChild at h
  split at h
  next => exact (Option.some.inj h).symm
  next => cases h

/-- Where the standard output is open, the program has it in the file and is without `fd`. -/
theorem redirectChild_launch {fd : Nat} {command : List String} {files : Files} {name : FileName}
    (hfd : files.lookup fd = some name) (hout : files.lookup 1 = some out) (hne : fd ≠ 1)
    (h : (redirectChild fd command c files).1 = some l) :
    some l.path = command.head? ∧ l.argv = command ∧ l.files.lookup 1 = some name ∧
    (∀ n, n ≠ 1 → n ≠ fd → l.files.lookup n = files.lookup n) ∧
    l.files.opened + 1 = files.opened := by
  unfold redirectChild at h
  split_ifs at h
  split at h
  next => cases h
  next files' hdup =>
    obtain ⟨hpath, hargv, hfiles⟩ := execChild_launch h
    obtain ⟨hone, hrest, hopened⟩ := dup2_spec hdup hfd hout
    have hstill : files'.lookup fd = some name := (hrest fd hne).trans hfd
    obtain ⟨hothers, hclosed⟩ := close_spec hstill
    refine ⟨hpath, hargv, ?_, ?_, ?_⟩
    · rw [hfiles, hothers 1 hne.symm, hone]
    · intro n hn hnfd
      rw [hfiles, hothers n hnfd, hrest n hn]
    · rw [hfiles, hclosed, hopened]

/-- A call that never got as far as `fork`. -/
theorem idle_does (call : Call) (c : Choice) (p : Process) (out : FileName) :
    Does call c p out ⟨false, none, none, none, p⟩ where
  limit := rfl
  kept := fun _ _ h => h
  opened := rfl
  added := fun _ h => nomatch h
  result := ⟨fun h => (nomatch h), fun h => absurd h (not_succeeded c)⟩
  asked := fun _ h => nomatch h
  redirected := fun _ h => nomatch h
  unreaped := rfl

/-- A call that opens no file is no more than its child. -/
theorem forkWait_does {call : Call} {child : Files → Option Launch × Ended}
    (hfile : call.outputfile = none) (hchild : ChildOf c (child p.files))
    (hasked : ∀ l, (child p.files).1 = some l → Asked call p.files out p.files.opened l) :
    Does call c p out
      { result := reported (forkWait child c p).status
        fd := none
        child := (forkWait child c p).child
        launch := (forkWait child c p).launch
        process := (forkWait child c p).process } where
  limit := congrArg Files.limit (forkWait_files child c p)
  kept := by
    intro fd file hfd
    simp only [forkWait_files]
    exact hfd
  opened := congrArg Files.opened (forkWait_files child c p)
  added := fun _ h => nomatch h
  result := forkWait_reported hchild
  asked := fun l hl => hasked l (forkWait_launch hl)
  redirected := by
    rw [hfile]
    exact fun h => nomatch h
  unreaped := forkWait_unreaped child c p

theorem doExec_does (command : List String) (c : Choice) (hout : p.files.lookup 1 = some out) :
    Does (.doExec command) c p out (doExec command c p) := by
  refine forkWait_does rfl (execChild_childOf command c p.files) ?_
  intro l hl
  obtain ⟨hpath, hargv, hfiles⟩ := execChild_launch hl
  refine ⟨hpath, hargv, ?_, ?_, ?_⟩
  · rw [hfiles]
    exact hout
  · intro fd file _ hfd
    rw [hfiles]
    exact hfd
  · rw [hfiles]

/-- The comparison with -1 catches what has no status, and nothing else. -/
theorem doSystem_result (cmd : String) (c : Choice) (p : Process) :
    (doSystem (some cmd) c p).result = reported (forkWait (shellChild cmd c) c p).status := by
  rcases forkWait_status (shellChild cmd c) c p with hfailed | ⟨ended, hended⟩
  · simp [doSystem, system, hfailed, reported]
  · simp [doSystem, system, hended, reported, status_ne]

theorem doSystem_does (cmd : Option String) (c : Choice) (hout : p.files.lookup 1 = some out) :
    Does (.doSystem cmd) c p out (doSystem cmd c p) := by
  cases cmd with
  | none => exact idle_does (.doSystem none) c p out
  | some cmd =>
    have hdoes : Does (.doSystem (some cmd)) c p out
        { doSystem (some cmd) c p with
          result := reported (forkWait (shellChild cmd c) c p).status } := by
      refine forkWait_does rfl (shellChild_childOf cmd c p.files) ?_
      intro l hl
      obtain rfl := shellChild_launch hl
      exact ⟨rfl, rfl, hout, fun _ _ _ h => h, rfl⟩
    rw [← doSystem_result] at hdoes
    exact hdoes

theorem doExecRedirect_does (outputfile : FileName) (command : List String) (c : Choice)
    (hout : p.files.lookup 1 = some out) :
    Does (.doExecRedirect outputfile command) c p out
      (doExecRedirect outputfile command c p) := by
  unfold doExecRedirect
  split_ifs
  · exact idle_does (.doExecRedirect outputfile command) c p out
  · split
    next => exact idle_does (.doExecRedirect outputfile command) c p out
    next fd files hopen =>
      obtain ⟨hlimit, hfree, hfd, hkept, hopened⟩ := openFile_spec hopen
      have hstdout : files.lookup 1 = some out := (hkept 1 out hout).2
      have hne : fd ≠ 1 := Ne.symm (hkept 1 out hout).1
      exact
        { limit := by
            simp only [forkWait_files]
            exact hlimit
          kept := by
            intro n file hn
            simp only [forkWait_files]
            exact (hkept n file hn).2
          opened := by
            simp only [forkWait_files]
            exact hopened
          added := by
            intro n hn
            obtain rfl := Option.some.inj hn
            simp only [forkWait_files]
            exact ⟨outputfile, rfl, hfree, hfd⟩
          result := forkWait_reported (redirectChild_childOf fd command c files)
          asked := by
            intro l hl
            obtain ⟨hpath, hargv, hone, hothers, hcount⟩ :=
              redirectChild_launch hfd hstdout hne (forkWait_launch hl)
            refine ⟨hpath, hargv, hone, ?_, ?_⟩
            · intro n file hn hfile
              obtain ⟨hnfd, hold⟩ := hkept n file hfile
              exact (hothers n hn hnfd).trans hold
            · rw [hopened] at hcount
              exact Nat.add_right_cancel hcount
          redirected := fun _ _ => rfl
          unreaped := forkWait_unreaped _ _ _ }

theorem Call.does (call : Call) (c : Choice) (hout : p.files.lookup 1 = some out) :
    Does call c p out (call.effect c p) := by
  cases call with
  | doSystem cmd => exact doSystem_does cmd c hout
  | doExec command => exact doExec_does command c hout
  | doExecRedirect outputfile command => exact doExecRedirect_does outputfile command c hout

end Step

section Accounts

variable {p : Process} {s s' : Session} {out : FileName} {calls : List (Call × Choice)}

def Entry.asked (e : Entry) : Call × Choice := (e.call, e.choice)

/-- A call that ran its command with the output in a file. -/
def Entry.redirected (e : Entry) : Bool := e.call.outputfile.isSome && e.launch.isSome

def Entry.leftOver (e : Entry) : Bool := SystemCalls.leftOver e.child e.choice

/-- The descriptors that calls have left open. -/
def leaked (history : List Entry) : List Nat := history.filterMap Entry.fd

theorem leaked_concat (history : List Entry) (e : Entry) :
    leaked (history ++ [e]) = leaked history ++ e.fd.toList := by
  unfold leaked
  rw [List.filterMap_append]
  cases hfd : e.fd <;> simp [hfd]

/-- The program has what these calls left open, under the same numbers. -/
def Inherits (history : List Entry) (l : Launch) : Prop :=
  ∀ e ∈ history, ∀ fd, e.fd = some fd →
    ∃ name, e.call.outputfile = some name ∧ l.files.lookup fd = some name

/-- A place in a list with a new last entry is that entry, or one in the list before. -/
theorem split_concat {α : Type} {xs pre post : List α} {x y : α}
    (h : xs ++ [x] = pre ++ y :: post) :
    (pre = xs ∧ y = x) ∨ ∃ post', xs = pre ++ y :: post' := by
  have hpre : pre ++ [y] <+: xs ++ [x] := ⟨post, by rw [h]; simp⟩
  rcases List.prefix_concat_iff.mp hpre with heq | ⟨post', hpost⟩
  · obtain ⟨rfl, hlast⟩ := List.append_inj' heq rfl
    exact .inl ⟨rfl, List.singleton_inj.mp hlast⟩
  · exact .inr ⟨post', by rw [← hpost]; simp⟩

/-- The accounts of a session that began in the process `p`. -/
structure Accounted (p : Process) (out : FileName) (s : Session) : Prop where
  limit : s.process.files.limit = p.files.limit
  kept : ∀ fd file, p.files.lookup fd = some file → s.process.files.lookup fd = some file
  opened : s.process.files.opened = p.files.opened + (leaked s.history).length
  added : ∀ e ∈ s.history, ∀ fd, e.fd = some fd → ∃ name, e.call.outputfile = some name ∧
    s.process.files.lookup fd = some name
  distinct : (leaked s.history).Nodup
  fresh : ∀ fd ∈ leaked s.history, p.files.lookup fd = none
  result : ∀ e ∈ s.history, e.result = true ↔ Succeeded e.choice e.launch
  asked : ∀ pre e post l, s.history = pre ++ e :: post → e.launch = some l →
    Asked e.call p.files out (p.files.opened + (leaked pre).length) l ∧ Inherits pre l
  redirected : ∀ e ∈ s.history, e.redirected = true → e.fd.isSome = true
  unreaped : s.process.unreaped = p.unreaped + s.history.countP Entry.leftOver

theorem accounted_start (p : Process) (out : FileName) : Accounted p out ⟨p, []⟩ where
  limit := rfl
  kept := fun _ _ h => h
  opened := rfl
  added := fun _ h => nomatch h
  distinct := List.nodup_nil
  fresh := fun _ h => nomatch h
  result := fun _ h => nomatch h
  asked := fun pre _ _ _ h => by cases pre <;> cases h
  redirected := fun _ h => nomatch h
  unreaped := rfl

/-- A number in the accounts is open, so that `open` returns another one. -/
theorem Accounted.leaked_open (h : Accounted p out s) {fd : Nat} (hfd : fd ∈ leaked s.history) :
    ∃ name, s.process.files.lookup fd = some name := by
  obtain ⟨e, he, hsome⟩ := List.mem_filterMap.mp hfd
  obtain ⟨name, -, hopen⟩ := h.added e he fd hsome
  exact ⟨name, hopen⟩

theorem Accounted.leaked_ne (h : Accounted p out s) (hout : p.files.lookup 1 = some out) {fd : Nat}
    (hfd : fd ∈ leaked s.history) : fd ≠ 1 := by
  rintro rfl
  have hfree := h.fresh 1 hfd
  rw [hout] at hfree
  cases hfree

/-- The next program has what the session left open, its own output apart. -/
theorem Accounted.inherits (h : Accounted p out s) (hout : p.files.lookup 1 = some out)
    {call : Call} {opened : Nat} {l : Launch} (hl : Asked call s.process.files out opened l) :
    Inherits s.history l := by
  intro e he fd hfd
  obtain ⟨name, hname, hopen⟩ := h.added e he fd hfd
  have hne := h.leaked_ne hout (List.mem_filterMap.mpr ⟨e, he, hfd⟩)
  exact ⟨name, hname, hl.others fd name hne hopen⟩

theorem Asked.of_kept {call : Call} {files files' : Files} {opened : Nat} {l : Launch}
    (h : Asked call files' out opened l)
    (hkept : ∀ fd file, files.lookup fd = some file → files'.lookup fd = some file) :
    Asked call files out opened l :=
  ⟨h.path, h.argv, h.stdout, fun fd file hne hfd => h.others fd file hne (hkept fd file hfd),
    h.opened⟩

theorem Accounted.step (h : Accounted p out s) (hout : p.files.lookup 1 = some out)
    {l : Call × Choice} (hstep : callStep s l = .ok s') : Accounted p out s' := by
  obtain ⟨call, c⟩ := l
  obtain rfl := Except.ok.inj hstep
  have hdoes := call.does c (h.kept 1 out hout)
  generalize call.effect c s.process = e at hdoes
  have hmem : ∀ x, x ∈ s.history ++ [e.entry call c] → x ∈ s.history ∨ x = e.entry call c := by
    intro x hx
    rcases List.mem_append.mp hx with hold | hnew
    · exact .inl hold
    · exact .inr (List.mem_singleton.mp hnew)
  refine
    { limit := hdoes.limit.trans h.limit
      kept := fun fd file hfd => hdoes.kept fd file (h.kept fd file hfd)
      opened := ?_
      added := ?_
      distinct := ?_
      fresh := ?_
      result := ?_
      asked := ?_
      redirected := ?_
      unreaped := ?_ }
  · rw [leaked_concat, List.length_append, ← Nat.add_assoc, ← h.opened]
    exact hdoes.opened
  · intro x hx fd hfd
    rcases hmem x hx with hold | rfl
    · obtain ⟨name, hname, hopen⟩ := h.added x hold fd hfd
      exact ⟨name, hname, hdoes.kept fd name hopen⟩
    · obtain ⟨name, hname, -, hopen⟩ := hdoes.added fd hfd
      exact ⟨name, hname, hopen⟩
  · rw [leaked_concat, List.nodup_append]
    refine ⟨h.distinct, Option.toList_nodup e.fd, ?_⟩
    rintro n hn m hm rfl
    obtain ⟨name, hopen⟩ := h.leaked_open hn
    obtain ⟨-, -, hfree, -⟩ := hdoes.added n (Option.mem_toList.mp hm)
    rw [hopen] at hfree
    cases hfree
  · intro fd hfd
    rw [leaked_concat, List.mem_append] at hfd
    rcases hfd with hold | hnew
    · exact h.fresh fd hold
    · obtain ⟨-, -, hfree, -⟩ := hdoes.added fd (Option.mem_toList.mp hnew)
      cases hbefore : p.files.lookup fd with
      | none => rfl
      | some file =>
        rw [h.kept fd file hbefore] at hfree
        cases hfree
  · intro x hx
    rcases hmem x hx with hold | rfl
    · exact h.result x hold
    · exact hdoes.result
  · intro pre x post l hsplit hl
    rcases split_concat hsplit with ⟨rfl, rfl⟩ | ⟨post', hold⟩
    · have hasked := hdoes.asked l hl
      rw [← h.opened]
      exact ⟨hasked.of_kept h.kept, h.inherits hout hasked⟩
    · exact h.asked pre x post' l hold hl
  · intro x hx hredirected
    rcases hmem x hx with hold | rfl
    · exact h.redirected x hold hredirected
    · obtain ⟨hfile, hlaunch⟩ := Bool.and_eq_true_iff.mp hredirected
      exact hdoes.redirected hfile hlaunch
  · have hentry : (e.entry call c).leftOver = leftOver e.child c := rfl
    rw [List.countP_append, List.countP_singleton, hentry, ← Nat.add_assoc, ← h.unreaped]
    refine hdoes.unreaped.trans ?_
    cases leftOver e.child c <;> rfl

theorem accounted_run (hout : p.files.lookup 1 = some out)
    (hrun : run callStep ⟨p, []⟩ calls = .ok s) : Accounted p out s :=
  run_invariant (fun _ _ _ h hstep => h.step hout hstep) (accounted_start p out) hrun

theorem history_asked (hrun : run callStep ⟨p, []⟩ calls = .ok s) :
    s.history.map Entry.asked = calls := by
  induction calls using List.reverseRecOn generalizing s with
  | nil =>
    obtain rfl : (⟨p, []⟩ : Session) = s := by simpa using hrun
    rfl
  | append_singleton calls l ih =>
    obtain ⟨m, hm, hstep⟩ := run_concat_inv hrun
    obtain rfl := Except.ok.inj hstep
    rw [List.map_append, ih hm]
    rfl

theorem Accounted.redirected_le (h : Accounted p out s) :
    s.history.countP Entry.redirected ≤ (leaked s.history).length := by
  unfold leaked
  rw [List.length_filterMap_eq_countP]
  exact List.countP_mono_left fun e he hredirected => h.redirected e he hredirected

/-- With every number in use, a call that wants a file does nothing. -/
theorem doExecRedirect_full {p : Process} (hfull : p.files.opened = p.files.limit)
    (outputfile : FileName) (command : List String) (c : Choice) :
    doExecRedirect outputfile command c p = ⟨false, none, none, none, p⟩ := by
  unfold doExecRedirect
  split_ifs
  · rfl
  · split
    next => rfl
    next fd files hopen =>
      obtain ⟨hlimit, -, -, -, hopened⟩ := openFile_spec hopen
      have hle := files.opened_le
      omega

/-- Any number of calls, whatever the system makes of them, by a process whose standard output is
open. A call returns true exactly when its command was run, waited for and ended with 0, as far as
the eight bits of its status say. A command is the program that the call names, with its arguments,
the files of the caller and its output where the call wants it; and it inherits the file of every
call of `do_exec_redirect` before it that opened one, under the number it has in the caller, and
nothing beyond. For none of them is ever closed: each stays open in the caller under a number of its
own that was free, so that no more commands are redirected than there were free descriptors, and
none once these are gone. -/
theorem redirects_leak (hout : p.files.lookup 1 = some out)
    (hrun : run callStep ⟨p, []⟩ calls = .ok s) :
    s.history.map Entry.asked = calls ∧
    (∀ e ∈ s.history, e.result = true ↔ Succeeded e.choice e.launch) ∧
    (∀ pre e post l, s.history = pre ++ e :: post → e.launch = some l →
      Asked e.call p.files out (p.files.opened + (leaked pre).length) l ∧ Inherits pre l) ∧
    (∀ fd file, p.files.lookup fd = some file → s.process.files.lookup fd = some file) ∧
    (leaked s.history).Nodup ∧
    (∀ fd ∈ leaked s.history, p.files.lookup fd = none) ∧
    (∀ e ∈ s.history, ∀ fd, e.fd = some fd → ∃ name, e.call.outputfile = some name ∧
      s.process.files.lookup fd = some name) ∧
    s.process.files.opened = p.files.opened + (leaked s.history).length ∧
    p.files.opened + s.history.countP Entry.redirected ≤ p.files.limit ∧
    (s.process.files.opened = p.files.limit → ∀ outputfile command c,
      doExecRedirect outputfile command c s.process = ⟨false, none, none, none, s.process⟩) ∧
    s.process.unreaped = p.unreaped + s.history.countP Entry.leftOver := by
  have h := accounted_run hout hrun
  refine ⟨history_asked hrun, h.result, h.asked, h.kept, h.distinct, h.fresh, h.added, h.opened,
    ?_, ?_, h.unreaped⟩
  · have hle := s.process.files.opened_le
    have hredirected := h.redirected_le
    rw [h.opened, h.limit] at hle
    omega
  · intro hfull
    rw [← h.limit] at hfull
    exact doExecRedirect_full hfull

/-- A terminal on the first three of five descriptors. -/
def terminal : Process where
  files :=
    { limit := 5
      table := [some "tty", some "tty", some "tty"]
      fits := by decide }
  unreaped := 0

def succeeds : Choice := ⟨true, true, true, some (.exited 0), true⟩

def echoTo (outputfile : FileName) : Call × Choice :=
  (.doExecRedirect outputfile ["/bin/echo", "home"], succeeds)

/-- The third call finds no descriptor. -/
def threeRedirects : List (Call × Choice) := [echoTo "first", echoTo "second", echoTo "third"]

theorem threeRedirects_run : ∃ s first second third l,
    run callStep ⟨terminal, []⟩ threeRedirects = .ok s ∧ s.history = [first, second, third] ∧
      first.call = .doExecRedirect "first" ["/bin/echo", "home"] ∧ first.fd = some 3 ∧
      second.launch = some l ∧
      (s.history.map fun e => (e.result, e.fd)) =
        [(true, some 3), (true, some 4), (false, none)] :=
  ⟨_, _, _, _, _, rfl, rfl, rfl, rfl, rfl, rfl⟩

theorem redirects_leak_thrice : ∃ s first second third l,
    run callStep ⟨terminal, []⟩ threeRedirects = .ok s ∧ s.history = [first, second, third] ∧
      (s.history.map fun e => (e.result, e.fd)) =
        [(true, some 3), (true, some 4), (false, none)] ∧
      second.launch = some l ∧ l.files.lookup 3 = some "first" ∧
      s.history.countP Entry.redirected ≤ 2 := by
  obtain ⟨s, first, second, third, l, hrun, hhistory, hcall, hfd, hlaunch, hresults⟩ :=
    threeRedirects_run
  have hout : terminal.files.lookup 1 = some "tty" := rfl
  obtain ⟨-, -, hasked, -, -, -, -, -, hbound, -⟩ := redirects_leak hout hrun
  obtain ⟨-, hinherits⟩ := hasked [first] second [third] l hhistory hlaunch
  obtain ⟨name, hname, hopen⟩ := hinherits first List.mem_cons_self 3 hfd
  rw [hcall] at hname
  obtain rfl := Option.some.inj hname
  have hopened : terminal.files.opened = 3 := by decide
  have hlimit : terminal.files.limit = 5 := rfl
  exact ⟨s, first, second, third, l, hrun, hhistory, hresults, hlaunch, hopen, by omega⟩

end Accounts

end Aesd.Examples.SystemCalls
