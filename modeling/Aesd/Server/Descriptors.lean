/- Aesd/Server/Descriptors
   layer: system
   digest: Who owns the number of an open file, and how a failed accept takes it away. -/

import Aesd.Driver.Ownership
import Aesd.Server.MainLoop

set_option autoImplicit false
set_option relaxedAutoImplicit false

namespace Aesd.Server.Descriptors

open Aesd.Foundation.DescriptorTable
open Aesd.Foundation.LinkedList
open Aesd.Foundation.Run
open Aesd.Driver.Device
open Aesd.Driver.LogRelation
open Aesd.Driver.Session
open Aesd.Driver.Ownership
open Aesd.Server.Handler
open Aesd.Server.Safety
open Aesd.Server.Moves
open Aesd.Server.MainLoop

section Owners

variable {log₀ : Log} {t : Nat} {c : Choice} {f f' : Frame}
  {p : Party} {before after : Table OpenFile} {owner : Nat → Option Party} {fd : Nat}
  {x y : OpenFile}

theorem owners_kept (hb : before.lookup fd = some x) (ha : after.lookup fd = some y) :
    owners p before after owner fd = owner fd := by
  have hbefore : before.lookup fd ≠ none := by rw [hb]; exact Option.some_ne_none x
  have hafter : after.lookup fd ≠ none := by rw [ha]; exact Option.some_ne_none y
  rw [owners, if_neg hafter, if_neg hbefore]

theorem owners_new (hb : before.lookup fd = none) (ha : after.lookup fd = some y) :
    owners p before after owner fd = some p := by
  have hafter : after.lookup fd ≠ none := by rw [ha]; exact Option.some_ne_none y
  rw [owners, if_neg hafter, if_pos hb]

/-- The numbers that a handler has were given to it. -/
structure ThreadOwns (owner : Nat → Option Party) (t : Nat) (th : Thread) : Prop where
  conn : th.pc ≠ .done → owner th.connFd = some (.handler t)
  writeFd : writeOpen th.pc = true → owner th.writeFd = some (.handler t)
  readFd : readOpen th.pc = true → owner th.localReadFd = some (.handler t)

/-- A thread keeps its numbers through a step, or gets a free one. -/
structure Renumbers (f f' : Frame) : Prop where
  conn : f'.thread.connFd = f.thread.connFd ∧ f.thread.pc ≠ .done
  writeFd : writeOpen f'.thread.pc = true →
    (writeOpen f.thread.pc = true ∧ f'.thread.writeFd = f.thread.writeFd) ∨
      f.process.table.lookup f'.thread.writeFd = none
  readFd : readOpen f'.thread.pc = true →
    (readOpen f.thread.pc = true ∧ f'.thread.localReadFd = f.thread.localReadFd) ∨
      f.process.table.lookup f'.thread.localReadFd = none

/-- A step after which no device descriptor is in use that was not in use before. -/
theorem Renumbers.of_kept (hconn : f'.thread.connFd = f.thread.connFd)
    (hpc : f.thread.pc ≠ .done)
    (hwrite : writeOpen f'.thread.pc = true →
      writeOpen f.thread.pc = true ∧ f'.thread.writeFd = f.thread.writeFd)
    (hread : readOpen f'.thread.pc = true →
      readOpen f.thread.pc = true ∧ f'.thread.localReadFd = f.thread.localReadFd) :
    Renumbers f f' :=
  ⟨⟨hconn, hpc⟩, fun h => .inl (hwrite h), fun h => .inl (hread h)⟩

theorem HandlerMove.renumbers (hm : HandlerMove t c f f') : Renumbers f f' := by
  cases hm with
  | loopTest hpc =>
    have hout : holdsLock (loopTest f).thread.pc = false := by
      rw [loopTest]
      split <;> rfl
    refine Renumbers.of_kept (by rfl) (by rw [hpc]; decide) ?_ ?_
    · intro h
      rw [holdsLock_of_writeOpen h] at hout
      cases hout
    · intro h
      rw [holdsLock_of_readOpen h] at hout
      cases hout
  | recv hpc =>
    refine Renumbers.of_kept ?_ (by rw [hpc]; decide) ?_ ?_
    · cases c.recv <;> rfl
    · cases c.recv <;> exact nofun
    · cases c.recv <;> exact nofun
  | lock hpc _ => exact Renumbers.of_kept rfl (by rw [hpc]; decide) nofun nofun
  | openWrite hpc =>
    cases c.opens with
    | true =>
      exact ⟨⟨rfl, by rw [hpc]; decide⟩, fun _ => .inr (Table.lookup_lowestFree _), nofun⟩
    | false => exact Renumbers.of_kept rfl (by rw [hpc]; decide) nofun nofun
  | write hpc _ _ =>
    exact Renumbers.of_kept rfl (by rw [hpc]; decide) (fun _ => ⟨by rw [hpc]; rfl, rfl⟩) nofun
  | openRead hpc =>
    cases c.opens with
    | true =>
      exact ⟨⟨rfl, by rw [hpc]; decide⟩, fun _ => .inl ⟨by rw [hpc]; rfl, rfl⟩,
        fun _ => .inr (Table.lookup_lowestFree _)⟩
    | false => exact Renumbers.of_kept rfl (by rw [hpc]; decide) nofun nofun
  | readBack hpc _ _ _ =>
    exact Renumbers.of_kept rfl (by rw [hpc]; decide) (fun _ => ⟨by rw [hpc]; rfl, rfl⟩)
      (fun _ => ⟨by rw [hpc]; rfl, rfl⟩)
  | send hpc _ =>
    exact Renumbers.of_kept rfl (by rw [hpc]; decide) (fun _ => ⟨by rw [hpc]; rfl, rfl⟩)
      (fun _ => ⟨by rw [hpc]; rfl, rfl⟩)
  | closeWrite hpc _ =>
    exact Renumbers.of_kept rfl (by rw [hpc]; decide) nofun (fun _ => ⟨by rw [hpc]; rfl, rfl⟩)
  | closeRead hpc _ => exact Renumbers.of_kept rfl (by rw [hpc]; decide) nofun nofun
  | unlock hpc => exact Renumbers.of_kept rfl (by rw [hpc]; decide) nofun nofun
  | unlockContinue hpc => exact Renumbers.of_kept rfl (by rw [hpc]; decide) nofun nofun
  | closeConn hpc _ => exact Renumbers.of_kept rfl (by rw [hpc]; decide) nofun nofun

/-- After its own step a handler still has only numbers that were given to it. -/
theorem ThreadOwns.own (h : ThreadOwns owner t f.thread) (hok : ThreadOk f.process t f.thread)
    (hok' : ThreadOk f'.process t f'.thread) (hr : Renumbers f f') :
    ThreadOwns (owners (.handler t) f.process.table f'.process.table owner) t f'.thread where
  conn := by
    intro hpc
    have hafter := hok'.conn hpc
    obtain ⟨hsame, hbefore⟩ := hr.conn
    rw [hsame] at hafter ⊢
    rw [owners_kept (hok.conn hbefore) hafter]
    exact h.conn hbefore
  writeFd := by
    intro hopen
    obtain ⟨pos, hafter⟩ := hok'.writeFd hopen
    rcases hr.writeFd hopen with ⟨hbefore, hsame⟩ | hfree
    · obtain ⟨pos', hpos'⟩ := hok.writeFd hbefore
      rw [hsame] at hafter ⊢
      rw [owners_kept hpos' hafter]
      exact h.writeFd hbefore
    · exact owners_new hfree hafter
  readFd := by
    intro hopen
    obtain ⟨pos, hafter⟩ := hok'.readFd hopen
    rcases hr.readFd hopen with ⟨hbefore, hsame⟩ | hfree
    · obtain ⟨pos', hpos'⟩ := hok.readFd hbefore
      rw [hsame] at hafter ⊢
      rw [owners_kept hpos' hafter]
      exact h.readFd hbefore
    · exact owners_new hfree hafter

/-- A thread whose files stay open keeps what it owns. -/
theorem ThreadOwns.kept {u : Nat} {pr pr' : Process} {th : Thread} (h : ThreadOwns owner u th)
    (hok : ThreadOk pr u th) (hok' : ThreadOk pr' u th) :
    ThreadOwns (owners p pr.table pr'.table owner) u th where
  conn := by
    intro hpc
    rw [owners_kept (hok.conn hpc) (hok'.conn hpc)]
    exact h.conn hpc
  writeFd := by
    intro hopen
    obtain ⟨pos, hbefore⟩ := hok.writeFd hopen
    obtain ⟨pos', hafter⟩ := hok'.writeFd hopen
    rw [owners_kept hbefore hafter]
    exact h.writeFd hopen
  readFd := by
    intro hopen
    obtain ⟨pos, hbefore⟩ := hok.readFd hopen
    obtain ⟨pos', hafter⟩ := hok'.readFd hopen
    rw [owners_kept hbefore hafter]
    exact h.readFd hopen

/-- No handler closes the listening socket. -/
theorem HandlerMove.listening (hm : HandlerMove t c f f')
    (h : f.process.table.lookup fd = some .listening) :
    f'.process.table.lookup fd = some .listening := by
  have hne : ∀ {fd' : Nat} {x : OpenFile}, f.process.table.lookup fd' = some x →
      x ≠ .listening → fd ≠ fd' := by
    rintro fd' x hx hnot rfl
    exact hnot (Option.some.inj (hx.symm.trans h))
  cases hm with
  | recv => cases c.recv <;> exact h
  | openWrite =>
    cases c.opens with
    | true => exact Table.lookup_install _ h
    | false => exact h
  | openRead =>
    cases c.opens with
    | true => exact Table.lookup_install _ h
    | false => exact h
  | @readBack pos result _ hread _ _ =>
    show Table.lookup (if 0 ≤ result.ret then _ else _) fd = _
    split
    · rw [Table.lookup_replace_of_ne _ (hne hread nofun), h]
    · exact h
  | closeWrite _ hwrite => exact (Table.lookup_close_of_ne (hne hwrite nofun)).trans h
  | closeRead _ hread => exact (Table.lookup_close_of_ne (hne hread nofun)).trans h
  | closeConn _ hconn => exact (Table.lookup_close_of_ne (hne hconn nofun)).trans h
  | _ => exact h

end Owners

section Invariant

variable {log₀ : Log} {s s' : MainState}

/-- `main` has accepted a connection and not started its handler yet. -/
def hasConn : MainPc → Bool
  | .fcntl | .malloc | .insert | .create => true
  | _ => false

/-- Every number refers to what its holder opened, and `sockfd` to the listening socket. -/
structure Owned (log₀ : Log) (s : MainState) : Prop where
  safe : Safe log₀ s.server
  sock : s.server.process.table.lookup s.sockfd = some .listening
  sockOwner : s.owner s.sockfd = some .main
  threads : ∀ t th, s.server.threads[t]? = some th → ThreadOwns s.owner t th
  pending : hasConn s.pc = true →
    s.server.process.table.lookup s.connFd = some (.socket s.server.threads.length) ∧
      s.owner s.connFd = some (.handler s.server.threads.length)
  node : s.pc = .insert ∨ s.pc = .create →
    ∃ nd, s.nodes[s.n1]? = some nd ∧ nd.value.connFd = s.connFd

theorem owned_start {device : DriverState} {slots : List Slot} {lost : Set Nat}
    (hrep : Represents device log₀ slots lost) : Owned log₀ (startMain device) where
  safe := safe_start hrep
  sock := rfl
  sockOwner := rfl
  threads := nofun
  pending := nofun
  node := by
    rintro (h | h)
    · cases h
    · cases h

/-- A step of `main` that does not touch the server. -/
theorem Owned.of_eq (h : Owned log₀ s) (hserver : s'.server = s.server)
    (howner : s'.owner = s.owner) (hsock : s'.sockfd = s.sockfd)
    (hpending : hasConn s'.pc = true → hasConn s.pc = true ∧ s'.connFd = s.connFd)
    (hnode : s'.pc = .insert ∨ s'.pc = .create →
      ∃ nd, s'.nodes[s'.n1]? = some nd ∧ nd.value.connFd = s'.connFd) : Owned log₀ s' where
  safe := hserver ▸ h.safe
  sock := by rw [hserver, hsock, h.sock]
  sockOwner := by rw [howner, hsock, h.sockOwner]
  threads := by
    rw [hserver, howner]
    exact h.threads
  pending := by
    intro hpc
    obtain ⟨hbefore, hconn⟩ := hpending hpc
    rw [hserver, howner, hconn]
    exact h.pending hbefore
  node := hnode

/-- A step of `main` after which it has no connection in hand. -/
theorem Owned.past (h : Owned log₀ s) (hserver : s'.server = s.server)
    (howner : s'.owner = s.owner) (hsock : s'.sockfd = s.sockfd)
    (hconn : hasConn s'.pc = false) : Owned log₀ s' := by
  apply h.of_eq hserver howner hsock
  · intro hpending
    rw [hconn] at hpending
    cases hpending
  · rintro (hpc | hpc)
    · rw [hpc] at hconn
      cases hconn
    · rw [hpc] at hconn
      cases hconn

theorem Owned.accept (h : Owned log₀ s) {outcome : AcceptOutcome}
    (hstep : acceptStep outcome s = .ok s') : Owned log₀ s' := by
  obtain ⟨-, rfl⟩ | rfl := acceptStep_inv hstep
  · have hsafe := h.safe.install (.socket s.server.threads.length)
    refine ⟨hsafe, Table.lookup_install _ h.sock, ?_, ?_, ?_, ?_⟩
    · exact (owners_kept h.sock (Table.lookup_install _ h.sock)).trans h.sockOwner
    · intro t th hth
      exact (h.threads t th hth).kept (h.safe.threads t th hth) (hsafe.threads t th hth)
    · intro _
      refine ⟨Table.lookup_install_self _ _, ?_⟩
      exact owners_new (Table.lookup_lowestFree _) (Table.lookup_install_self _ _)
    · rintro (hpc | hpc)
      · cases hpc
      · cases hpc
  · exact h.past rfl rfl rfl rfl

theorem Owned.create (h : Owned log₀ s) (hpc : s.pc = .create) {succeeds : Bool}
    (hstep : createStep succeeds s = .ok s') : Owned log₀ s' := by
  obtain ⟨nd, hnd, hconn⟩ := h.node (.inr hpc)
  obtain ⟨hlookup, howner⟩ := h.pending (by rw [hpc]; rfl)
  rw [← hconn] at hlookup howner
  obtain ⟨nd', hnd', hends⟩ := createStep_inv hstep
  obtain rfl := Option.some.inj (hnd.symm.trans hnd')
  rcases hends with ⟨-, rfl⟩ | ⟨-, rfl⟩
  · refine ⟨h.safe.spawn hlookup, h.sock, h.sockOwner, ?_, nofun, ?_⟩
    · intro t th hth
      rcases getElem?_concat s.server.threads (startThread nd.value.connFd) t with
        hsame | ⟨rfl, -, hnew⟩
      · exact h.threads t th (hsame ▸ hth)
      · obtain rfl := Option.some.inj (hnew.symm.trans hth)
        exact ⟨fun _ => howner, nofun, nofun⟩
    · rintro (hpc | hpc)
      · cases hpc
      · cases hpc
  · refine ⟨h.safe.closeServer, h.sock, h.sockOwner, h.threads, nofun, ?_⟩
    rintro (hpc | hpc)
    · cases hpc
    · cases hpc

/-- A step of `main` that keeps the listening socket open. -/
theorem Owned.main (h : Owned log₀ s) {c : MainChoice} (hkeeps : s.pc ≠ .closeSock)
    (hstep : mainThreadStep c s = .ok s') : Owned log₀ s' := by
  cases hpc : s.pc <;> simp only [mainThreadStep, hpc, Except.ok.injEq, reduceCtorEq] at hstep
  case loopTest =>
    subst hstep
    refine h.past (by rfl) (by rfl) (by rfl) ?_
    rw [loopTestStep]
    split <;> rfl
  case accept => exact h.accept hstep
  case closeSock => exact absurd hpc hkeeps
  case fcntl =>
    subst hstep
    have hconn : hasConn s.pc = true := by rw [hpc]; rfl
    refine h.of_eq (by rfl) (by rfl) (by rfl) (fun _ => ⟨hconn, rfl⟩) ?_
    rw [fcntlStep]
    cases c.fcntl
    · exact fun hor => hor.elim nofun nofun
    · exact fun hor => hor.elim nofun nofun
  case malloc =>
    subst hstep
    rw [mallocStep]
    split_ifs
    · have hconn : hasConn s.pc = true := by rw [hpc]; rfl
      refine h.of_eq (by rfl) (by rfl) (by rfl) (fun _ => ⟨hconn, rfl⟩) fun _ => ?_
      exact ⟨⟨⟨none, s.connFd⟩, none, false⟩, List.getElem?_concat_length, rfl⟩
    · exact h.past rfl rfl rfl rfl
  case insert =>
    subst hstep
    have hconn : hasConn s.pc = true := by rw [hpc]; rfl
    obtain ⟨nd, hnd, hfd⟩ := h.node (.inl hpc)
    refine h.of_eq (by rfl) (by rfl) (by rfl) (fun _ => ⟨hconn, rfl⟩) fun _ => ?_
    exact ⟨_, getElem?_setNext_self hnd s.head, hfd⟩
  case create => exact h.create hpc hstep
  case first =>
    subst hstep
    refine h.past (by rfl) (by rfl) (by rfl) ?_
    rw [testStep]
    split <;> rfl
  case join =>
    obtain ⟨a, nd, -, -, -, rfl⟩ := joinStep_inv hstep
    exact h.past rfl rfl rfl rfl
  case remove =>
    obtain ⟨a, r, -, -, rfl⟩ := removeStep_inv hstep
    exact h.past rfl rfl rfl rfl
  case free =>
    obtain ⟨a, -, rfl⟩ := freeStep_inv hstep
    exact h.past rfl rfl rfl rfl
  case advance =>
    obtain ⟨a, nd, -, -, rfl⟩ := advanceStep_inv hstep
    refine h.past (by rfl) (by rfl) (by rfl) ?_
    show hasConn (if nd.next.isSome then _ else _) = false
    split <;> rfl

theorem Owned.handler (h : Owned log₀ s) {t : Nat} {c : Choice}
    (hstep : mainStep s (.handler t c) = .ok s') : Owned log₀ s' := by
  obtain ⟨server, hserver, rfl⟩ := mainHandler_inv hstep
  have hsafe := h.safe.step hserver
  obtain ⟨th, f', hth, hf, rfl⟩ := handler_inv hserver
  have hok : ThreadOk (s.server.frame th).process t (s.server.frame th).thread :=
    h.safe.threads t th hth
  have hm := handlerStep_move hok h.safe.device hf
  have hlt : t < s.server.threads.length := (List.getElem?_eq_some_iff.mp hth).1
  have hlength : (s.server.update t f').threads.length = s.server.threads.length :=
    List.length_set
  refine ⟨hsafe, HandlerMove.listening hm h.sock, ?_, ?_, ?_, h.node⟩
  · exact (owners_kept h.sock (HandlerMove.listening hm h.sock)).trans h.sockOwner
  · intro u thu hu
    have hafter := hsafe.threads u thu hu
    rw [getElem?_update hth] at hu
    split_ifs at hu with hut
    · subst hut
      obtain rfl := Option.some.inj hu
      exact (h.threads u th hth).own hok hafter (HandlerMove.renumbers hm)
    · exact (h.threads u thu hu).kept (h.safe.threads u thu hu) hafter
  · intro hpc
    obtain ⟨hlookup, howner⟩ := h.pending hpc
    have hkept := (handlerStep_effect hok h.safe.device hf).sockets _ _ (Nat.ne_of_gt hlt) hlookup
    show Table.lookup f'.process.table s.connFd =
      some (.socket (s.server.update t f').threads.length) ∧ _
    rw [hlength]
    exact ⟨hkept, (owners_kept hlookup hkept).trans howner⟩

/-- `main` does not execute its `close(sockfd)` in this step. -/
def KeepsSock (s : MainState) (l : MainLabel) : Prop := ∀ c, l = .main c → s.pc ≠ .closeSock

theorem Owned.step (h : Owned log₀ s) {l : MainLabel} (hkeeps : KeepsSock s l)
    (hstep : mainStep s l = .ok s') : Owned log₀ s' := by
  cases l with
  | main c => exact h.main (hkeeps c rfl) hstep
  | signal =>
    obtain rfl := (Except.ok.inj hstep).symm
    exact ⟨h.safe.closeServer, h.sock, h.sockOwner, h.threads, h.pending, h.node⟩
  | handler t c => exact h.handler hstep

theorem owned_run (h : Owned log₀ s) {labels : List MainLabel}
    (hrun : run mainStep s labels = .ok s') (hkeeps : Along mainStep KeepsSock s labels) :
    Owned log₀ s' :=
  run_guarded (fun _ _ _ hx hguard hstep => Owned.step hx hguard hstep) h hrun hkeeps

end Invariant

section Rounds

variable {log₀ : Log} {s : MainState} {server server' : ServerState}

/-- The part of a round behind `accept`. -/
theorem round_ends (h : Owned log₀ s) (hpc : s.pc = .fcntl) :
    ∃ s', run mainStep s (List.replicate 4 (.main smooth)) = .ok s' ∧ Owned log₀ s' ∧
      s'.pc = .loopTest ∧ s'.server = { s.server with
        threads := s.server.threads ++ [startThread s.connFd] } := by
  have hfcntl : mainStep s (.main smooth) = .ok { s with pc := .malloc } := by
    simp only [mainStep, mainThreadStep, hpc]
    rfl
  have hmalloc : mainStep { s with pc := .malloc } (.main smooth) = .ok { s with
      n1 := s.nodes.length
      nodes := s.nodes ++ [⟨⟨none, s.connFd⟩, none, false⟩]
      pc := .insert } := rfl
  have hinsert : mainStep { s with
      n1 := s.nodes.length
      nodes := s.nodes ++ [⟨⟨none, s.connFd⟩, none, false⟩]
      pc := .insert } (.main smooth) = .ok { s with
      n1 := s.nodes.length
      nodes := setNext (s.nodes ++ [⟨⟨none, s.connFd⟩, none, false⟩]) s.nodes.length s.head
      head := some s.nodes.length
      events := s.events ++ [.insert s.nodes.length]
      pc := .create } := rfl
  have hnode : (setNext (s.nodes ++ [⟨⟨none, s.connFd⟩, none, false⟩]) s.nodes.length
      s.head)[s.nodes.length]? = some ⟨⟨none, s.connFd⟩, s.head, false⟩ :=
    getElem?_setNext_self List.getElem?_concat_length s.head
  have hcreate : ∃ s', mainStep { s with
      n1 := s.nodes.length
      nodes := setNext (s.nodes ++ [⟨⟨none, s.connFd⟩, none, false⟩]) s.nodes.length s.head
      head := some s.nodes.length
      events := s.events ++ [.insert s.nodes.length]
      pc := .create } (.main smooth) = .ok s' ∧ s'.pc = .loopTest ∧
      s'.server = { s.server with
        threads := s.server.threads ++ [startThread s.connFd] } := by
    simp only [mainStep, mainThreadStep, createStep, hnode]
    exact ⟨_, rfl, rfl, rfl⟩
  obtain ⟨s', hlast, hpc', hserver⟩ := hcreate
  have howned₁ := h.main (c := smooth) (by rw [hpc]; decide) hfcntl
  have howned₂ := howned₁.main (c := smooth) MainPc.noConfusion hmalloc
  have howned₃ := howned₂.main (c := smooth) MainPc.noConfusion hinsert
  refine ⟨s', ?_, howned₃.main (c := smooth) MainPc.noConfusion hlast, hpc', hserver⟩
  rw [List.replicate, run_cons_ok hfcntl, List.replicate, run_cons_ok hmalloc, List.replicate,
    run_cons_ok hinsert, List.replicate, run_cons_ok hlast]
  rfl

/-- A round of the accept loop in which every call succeeds is the `connect` of the server. -/
theorem connect_round (h : Owned log₀ s) (hpc : s.pc = .loopTest)
    (hstep : serverStep s.server .connect = .ok server') :
    ∃ s', run mainStep s (List.replicate 6 (.main smooth)) = .ok s' ∧ Owned log₀ s' ∧
      s'.pc = .loopTest ∧ s'.server = server' := by
  have hopen : s.server.process.closeServer = false := by
    rw [serverStep] at hstep
    split_ifs at hstep with hclosed
    exact Bool.eq_false_of_not_eq_true hclosed
  obtain rfl := connect_inv hstep
  have htest : mainStep s (.main smooth) = .ok { s with pc := .accept } := by
    simp only [mainStep, mainThreadStep, hpc, loopTestStep, hopen]
    rfl
  have howned := h.main (c := smooth) (by rw [hpc]; decide) htest
  have haccept : mainStep { s with pc := .accept } (.main smooth) =
      acceptStep .client { s with pc := .accept } := rfl
  simp only [acceptStep, if_pos h.sock] at haccept
  have haccepted := howned.main (c := smooth) MainPc.noConfusion haccept
  obtain ⟨s', hrun, howned', hpc', hserver⟩ := round_ends haccepted rfl
  refine ⟨s', ?_, howned', hpc', hserver⟩
  rw [List.replicate, run_cons_ok htest, List.replicate, run_cons_ok haccept, hrun]

/-- Every run of the server is a run of `main` and the handlers. -/
theorem server_run_of_main (labels : List Label) :
    ∀ s, Owned log₀ s → s.pc = .loopTest → run serverStep s.server labels = .ok server →
      ∃ labels' s', run mainStep s labels' = .ok s' ∧ Owned log₀ s' ∧ s'.pc = .loopTest ∧
        s'.server = server := by
  induction labels with
  | nil =>
    intro s h hpc hrun
    exact ⟨[], s, rfl, h, hpc, Except.ok.inj hrun⟩
  | cons l labels ih =>
    intro s h hpc hrun
    obtain ⟨server', hstep, hrest⟩ := run_cons_inv hrun
    have hround : ∃ labels' s', run mainStep s labels' = .ok s' ∧ Owned log₀ s' ∧
        s'.pc = .loopTest ∧ s'.server = server' := by
      cases l with
      | connect =>
        obtain ⟨s', hs', howned, hpc', hserver⟩ := connect_round h hpc hstep
        exact ⟨_, s', hs', howned, hpc', hserver⟩
      | signal =>
        have hsignal : mainStep s .signal = .ok { s with server := server' } := by
          obtain rfl := Except.ok.inj hstep
          rfl
        exact ⟨[.signal], _, run_cons_ok hsignal [], h.step (by intro c hl; cases hl) hsignal, hpc, rfl⟩
      | handler t c =>
        have hmain : mainStep s (.handler t c) = .ok { s with
            server := server'
            owner := owners (.handler t) s.server.process.table server'.process.table
              s.owner } := by
          simp only [mainStep, hstep]
        exact ⟨[.handler t c], _, run_cons_ok hmain [], h.handler hmain, hpc, rfl⟩
    obtain ⟨first, s₁, hfirst, howned, hpc₁, hserver⟩ := hround
    rw [← hserver] at hrest
    obtain ⟨rest, s₂, hrun₂, howned₂, hpc₂, hserver₂⟩ := ih s₁ howned hpc₁ hrest
    exact ⟨first ++ rest, s₂, by rw [run_append hfirst, hrun₂], howned₂, hpc₂, hserver₂⟩

end Rounds

section Results

variable {log₀ : Log} {s : MainState}

def inAcceptLoop : MainPc → Bool
  | .loopTest | .accept | .closeSock | .fcntl | .malloc | .insert | .create => true
  | _ => false

/-- While `main` is in its accept loop, `sockfd` refers to its listening socket. -/
def SockListening (s : MainState) : Prop :=
  inAcceptLoop s.pc = true → s.server.process.table.lookup s.sockfd = some .listening

/-- The `close` that a step performs: by whom, and of which number. -/
def closing (s : MainState) : MainLabel → Option (Party × Nat)
  | .main _ => if s.pc = .closeSock then some (.main, s.sockfd) else none
  | .signal => none
  | .handler t _ => s.server.threads[t]?.bind fun th => match th.pc with
    | .closeWrite => some (.handler t, th.writeFd)
    | .closeRead => some (.handler t, th.localReadFd)
    | .closeConn => some (.handler t, th.connFd)
    | _ => none

/-- A `close` is of a file that its thread has opened and not yet closed. -/
def ClosesOwn (s : MainState) (l : MainLabel) : Prop :=
  ∀ p fd, closing s l = some (p, fd) →
    s.owner fd = some p ∧ s.server.process.table.lookup fd ≠ none

theorem Owned.closesOwn (h : Owned log₀ s) (l : MainLabel) : ClosesOwn s l := by
  intro p fd hclose
  cases l with
  | main c =>
    simp only [closing] at hclose
    split_ifs at hclose
    obtain ⟨rfl, rfl⟩ := Prod.mk.inj (Option.some.inj hclose)
    refine ⟨h.sockOwner, ?_⟩
    rw [h.sock]
    exact Option.some_ne_none _
  | signal => cases hclose
  | handler t c =>
    obtain ⟨th, hth, hmatch⟩ := Option.bind_eq_some_iff.mp hclose
    have hok := h.safe.threads t th hth
    have howns := h.threads t th hth
    cases hpc : th.pc <;> simp only [hpc, reduceCtorEq, Option.some.injEq] at hmatch
    case closeWrite =>
      obtain ⟨rfl, rfl⟩ := Prod.mk.inj hmatch
      obtain ⟨pos, hpos⟩ := hok.writeFd (by rw [hpc]; rfl)
      exact ⟨howns.writeFd (by rw [hpc]; rfl), by rw [hpos]; exact Option.some_ne_none _⟩
    case closeRead =>
      obtain ⟨rfl, rfl⟩ := Prod.mk.inj hmatch
      obtain ⟨pos, hpos⟩ := hok.readFd (by rw [hpc]; rfl)
      exact ⟨howns.readFd (by rw [hpc]; rfl), by rw [hpos]; exact Option.some_ne_none _⟩
    case closeConn =>
      obtain ⟨rfl, rfl⟩ := Prod.mk.inj hmatch
      have hconn := hok.conn (by rw [hpc]; decide)
      exact ⟨howns.conn (by rw [hpc]; decide), by rw [hconn]; exact Option.some_ne_none _⟩

/-- Behind `close(sockfd)` the accept loop goes on without a listening socket. -/
theorem not_listening_of_closeSock {c : MainChoice} (hpc : s.pc = .closeSock) :
    ∃ s', mainStep s (.main c) = .ok s' ∧ ¬SockListening s' := by
  refine ⟨closeSockStep s, ?_, ?_⟩
  · simp only [mainStep, mainThreadStep, hpc]
  · intro hlistening
    have hsock : (s.server.process.table.close s.sockfd).lookup s.sockfd = some .listening :=
      hlistening rfl
    rw [Table.lookup_close_self] at hsock
    cases hsock

/-- For every interleaving of the accept loop with any number of handlers, whatever the calls
return: throughout a run `sockfd` refers to the listening socket while `main` is in its accept
loop, and every `close` that any thread can perform next is of a file that it owns, if and only if
`main` does not execute the `close(sockfd)` behind a failed `accept` in that run. -/
theorem descriptors_owned_iff (calls : List Call) :
    ∃ device, run callStep aesdInitModule calls = .ok device ∧
      ∀ labels s, run mainStep (startMain device) labels = .ok s →
        ((∀ pre m, pre <+: labels → run mainStep (startMain device) pre = .ok m →
          SockListening m ∧ ∀ l, ClosesOwn m l) ↔
        Along mainStep KeepsSock (startMain device) labels) := by
  obtain ⟨device, hcalls, log₀, slots, lost, hrep⟩ := runCalls calls
  refine ⟨device, hcalls, ?_⟩
  intro labels s hrun
  constructor
  · intro hall
    by_contra hnot
    obtain ⟨pre, l, post, m, rfl, hpre, hbad⟩ := exists_split_of_not_along hnot
    have hclose : ∃ c, l = .main c ∧ m.pc = .closeSock := by
      by_contra hnone
      apply hbad
      intro c hl hpc
      exact hnone ⟨c, hl, hpc⟩
    obtain ⟨c, rfl, hpc⟩ := hclose
    obtain ⟨m', hstep, hlost⟩ := not_listening_of_closeSock (c := c) hpc
    have hfront : pre ++ [.main c] <+: pre ++ .main c :: post :=
      ⟨post, List.append_assoc _ _ _⟩
    apply hlost
    exact (hall _ m' hfront (by rw [run_concat hpre, hstep])).1
  · rintro hkeeps pre m ⟨post, rfl⟩ hpre
    have howned := owned_run (owned_start hrep) hpre (along_left hkeeps)
    exact ⟨fun _ => howned.sock, howned.closesOwn⟩

/-- A line has arrived at a handler that has the lock when `accept` fails once. -/
def failedAccept : List MainLabel :=
  List.replicate 6 (.main smooth) ++
    List.replicate 3 (.handler 0
      ⟨.data (.line 97), true, ⟨fun _ => true, 2⟩, ⟨true, 2048⟩, 2048⟩) ++
    List.replicate 3 (.main { smooth with accepts := .failure }) ++
    [.handler 0 ⟨.again, true, ⟨fun _ => true, 2⟩, ⟨true, 2048⟩, 2048⟩] ++
    List.replicate 2 (.main smooth)

/-- `main` is in its accept loop and about to close `sockfd`, which by now is the handler's
descriptor of the device. -/
theorem main_closes_device_of_handler :
    ∃ s, run mainStep (startMain aesdInitModule) failedAccept = .ok s ∧ s.pc = .closeSock ∧
      closing s (.main smooth) = some (.main, 4) ∧
      s.server.process.table.lookup 4 = some (.device 0) ∧ s.owner 4 = some (.handler 0) :=
  ⟨_, rfl, rfl, rfl, rfl, rfl⟩

end Results

end Aesd.Server.Descriptors
