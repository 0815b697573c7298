/- Aesd/Server/LockBalance
   layer: system
   digest: The lock is given back on every path, and which paths leave a descriptor open. -/

import Aesd.Server.Moves
import Aesd.Server.Serial

set_option autoImplicit false
set_option relaxedAutoImplicit false

namespace Aesd.Server.LockBalance

open Aesd.Foundation.DescriptorTable
open Aesd.Foundation.RecordLog
open Aesd.Foundation.Run
open Aesd.Driver.CircularBuffer
open Aesd.Driver.Device
open Aesd.Driver.LogRelation
open Aesd.Driver.ReadCorrect
open Aesd.Driver.WriteCorrect
open Aesd.Driver.Session
open Aesd.Driver.Ownership
open Aesd.Driver.Readers
open Aesd.Server.Handler
open Aesd.Server.Safety
open Aesd.Server.Moves
open Aesd.Server.Serial

section Balance

variable {log₀ : Log} {t : Nat} {c : Choice} {f f' : Frame}

def isDevice : OpenFile → Bool
  | .device _ => true
  | _ => false

/-- The number of device descriptors that are open. -/
def openDevices (p : Process) : Nat := p.table.count isDevice

/-- How many of them a handler has that stands at `pc`. -/
def inUse (pc : Pc) : Nat := (writeOpen pc).toNat + (readOpen pc).toNat

/-- How many a step leaves open for ever: the iteration ends in front of the two `close` calls if
the open for reading fails. -/
def abandoned (c : Choice) (th : Thread) : Nat :=
  if th.pc = .openRead ∧ c.opens = false then 1 else 0

theorem inUse_le (pc : Pc) : inUse pc ≤ 2 := by
  cases pc <;> decide

theorem inUse_of_outside {pc : Pc} (h : holdsLock pc = false) : inUse pc = 0 := by
  cases pc <;> first | rfl | cases h

theorem abandoned_of_ne (h : f.thread.pc ≠ .openRead) : abandoned c f.thread = 0 :=
  if_neg fun hboth => h hboth.1

/-- A step that leaves the table alone, and the descriptors in use. -/
theorem balance_of_table_eq (hne : f.thread.pc ≠ .openRead)
    (htable : f'.process.table = f.process.table) (huse : inUse f'.thread.pc = inUse f.thread.pc) :
    openDevices f'.process + inUse f.thread.pc =
      openDevices f.process + inUse f'.thread.pc + abandoned c f.thread := by
  rw [openDevices, openDevices, htable, huse, abandoned_of_ne hne, Nat.add_zero]

theorem openWrite_balance (hpc : f.thread.pc = .openWrite) (opens : Bool) :
    openDevices (openWriteStep opens f).process + inUse f.thread.pc =
      openDevices f.process + inUse (openWriteStep opens f).thread.pc +
        abandoned c f.thread := by
  have hne : f.thread.pc ≠ .openRead := by rw [hpc]; decide
  cases opens with
  | true =>
    have hcount := Table.count_install isDevice (.device 0) f.process.table
    rw [abandoned_of_ne hne, hpc]
    exact hcount
  | false => exact balance_of_table_eq hne rfl (by rw [hpc]; rfl)

theorem openRead_balance (hpc : f.thread.pc = .openRead) :
    openDevices (openReadStep c.opens f).process + inUse f.thread.pc =
      openDevices f.process + inUse (openReadStep c.opens f).thread.pc +
        abandoned c f.thread := by
  have hcount := Table.count_install isDevice (.device 0) f.process.table
  cases hc : c.opens with
  | true =>
    rw [abandoned, if_neg (fun hboth => Bool.false_ne_true (hboth.2.symm.trans hc)), hpc]
    exact congrArg (· + 1) hcount
  | false =>
    rw [abandoned, if_pos ⟨hpc, hc⟩, hpc]
    rfl

/-- Every step accounts for the device descriptors: those that it opens or closes are the ones in
use, apart from one that it abandons. -/
theorem HandlerMove.balance (hm : HandlerMove t c f f') :
    openDevices f'.process + inUse f.thread.pc =
      openDevices f.process + inUse f'.thread.pc + abandoned c f.thread := by
  cases hm with
  | loopTest hpc =>
    refine balance_of_table_eq (by rw [hpc]; decide) (by rfl) ?_
    rw [hpc, loopTest]
    split <;> rfl
  | recv hpc =>
    refine balance_of_table_eq (by rw [hpc]; decide) ?_ ?_
    · cases c.recv <;> rfl
    · rw [hpc]
      cases c.recv <;> rfl
  | lock hpc _ => exact balance_of_table_eq (by rw [hpc]; decide) rfl (by rw [hpc]; rfl)
  | openWrite hpc => exact openWrite_balance hpc c.opens
  | write hpc _ _ => exact balance_of_table_eq (by rw [hpc]; decide) rfl (by rw [hpc]; rfl)
  | openRead hpc => exact openRead_balance hpc
  | @readBack pos result hpc hread _ _ =>
    have huse : inUse (if 0 < result.ret then Pc.send else Pc.closeWrite) = 2 := by
      split <;> rfl
    have hcount := Table.count_replace isDevice hread (.device result.fPos)
    rw [abandoned_of_ne (by rw [hpc]; decide), hpc]
    show Table.count isDevice (if 0 ≤ result.ret then _ else _) + 2 = openDevices f.process +
      inUse (if 0 < result.ret then Pc.send else Pc.closeWrite) + 0
    rw [huse]
    split
    · exact congrArg (· + 1) hcount
    · rfl
  | send hpc _ => exact balance_of_table_eq (by rw [hpc]; decide) rfl (by rw [hpc]; rfl)
  | closeWrite hpc hwrite =>
    have hcount := Table.count_close isDevice hwrite
    rw [abandoned_of_ne (by rw [hpc]; decide), hpc]
    exact congrArg (· + 1) hcount
  | closeRead hpc hread =>
    have hcount := Table.count_close isDevice hread
    rw [abandoned_of_ne (by rw [hpc]; decide), hpc]
    exact hcount
  | unlock hpc => exact balance_of_table_eq (by rw [hpc]; decide) rfl (by rw [hpc]; rfl)
  | unlockContinue hpc => exact balance_of_table_eq (by rw [hpc]; decide) rfl (by rw [hpc]; rfl)
  | closeConn hpc hconn =>
    have hcount := Table.count_close isDevice hconn
    rw [abandoned_of_ne (by rw [hpc]; decide), hpc]
    exact hcount

end Balance

section Release

variable {log₀ log : Log} {t : Nat} {c : Choice} {f f' : Frame}

/-- How many bytes lie behind the position of `local_read_fd`. -/
def leftToRead (p : Process) (th : Thread) : Nat :=
  match p.table.lookup th.localReadFd with
  | some (.device pos) => unread p.device pos
  | _ => 0

/-- An upper bound for the number of steps that a thread takes before it gives the lock back. -/
def distance (log : Log) (p : Process) (th : Thread) : Nat :=
  match th.pc with
  | .openWrite => 2 * (log.committed.length + log.pending.length + th.recvBuf.length) + 7
  | .write => 2 * (log.committed.length + log.pending.length + th.recvBuf.length) + 6
  | .openRead => 2 * log.committed.length + 5
  | .readBack => 2 * leftToRead p th + 4
  | .send => 2 * leftToRead p th + 5
  | .closeWrite => 3
  | .closeRead => 2
  | .unlock | .unlockContinue => 1
  | _ => 0

theorem leftToRead_eq {p : Process} {th : Thread} {pos : Nat}
    (h : p.table.lookup th.localReadFd = some (.device pos)) :
    leftToRead p th = unread p.device pos := by
  rw [leftToRead, h]

theorem leftToRead_le {p : Process} {slots : List Slot} {lost : Set Nat}
    (hrep : Represents p.device log slots lost) (th : Thread) :
    leftToRead p th ≤ log.committed.length := by
  rw [leftToRead]
  split
  · rw [unread_eq hrep]
    exact Nat.sub_le _ _
  · exact Nat.zero_le _

theorem committed_accept_le (log : Log) (bytes : List UInt8) :
    (accept log bytes).committed.length ≤
      log.committed.length + log.pending.length + bytes.length := by
  have hlen := congrArg List.length (@Cut.feed_flatten_append _ isNewline log bytes)
  simp only [List.length_append, Cut.committed, accept] at hlen ⊢
  omega

/-- A read that returns bytes has that many fewer to read. -/
theorem leftToRead_readBack {slots : List Slot} {lost : Set Nat}
    (hrep : Represents f.process.device log slots lost) {pos : Nat}
    (hread : f.process.table.lookup f.thread.localReadFd = some (.device pos)) {result : ReadResult}
    (hrun : aesdRead c.read bufSize pos f.process.device = .ok result)
    (hu : Undisturbed f.process.device result.state) (hret : 0 < result.ret) (th : Thread)
    (hth : th.localReadFd = f.thread.localReadFd) :
    leftToRead { f.process with
      device := result.state
      table := f.process.table.replace f.thread.localReadFd (.device result.fPos) } th <
    leftToRead f.process f.thread := by
  obtain ⟨huser, hlen, hpos⟩ := aesdRead_delivered hrep hrun (Int.le_of_lt hret)
  have hself := Table.lookup_replace_self (.device result.fPos) hread
  have hmoved : snapped result.state result.fPos = result.fPos := by
    have hle : f.process.device.dev.totalBytesEvicted ≤ result.fPos := by
      rw [hpos]
      exact (Nat.le_max_right _ _).trans (Nat.le_add_right _ _)
    rw [snapped, hu.dev]
    exact Nat.max_eq_left hle
  have hbound : result.user.length ≤ log.committed.length - snapped f.process.device pos := by
    rw [huser, available, List.length_take, List.length_drop]
    exact Nat.min_le_right _ _
  rw [leftToRead_eq hread, leftToRead_eq (by rw [hth]; exact hself)]
  show unread result.state result.fPos < _
  rw [unread_eq hrep, unread_eq (hu.represents hrep), hmoved, hpos]
  omega

/-- Whatever a call returns, a step that keeps the lock is a step towards its release. -/
theorem HandlerMove.nearer (hm : HandlerMove t c f f') (hdev : DeviceOk log₀ f.process f.record)
    (hbefore : holdsLock f.thread.pc = true) (hafter : holdsLock f'.thread.pc = true) :
    distance (accept log₀ (stream f'.record)) f'.process f'.thread <
      distance (accept log₀ (stream f.record)) f.process f.thread := by
  obtain ⟨slots, lost, hrep⟩ := hdev
  cases hm with
  | openWrite hpc =>
    cases hc : c.opens with
    | true =>
      simp only [distance, hpc, openWriteStep, if_true]
      exact Nat.lt_succ_self _
    | false =>
      simp only [distance, hpc, openWriteStep, Bool.false_eq_true, if_false]
      omega
  | @write pos device hpc _ _ =>
    have hle := committed_accept_le (accept log₀ (stream f.record)) (f.thread.recvBuf.take
      (writeReturn c.write f.thread.recvBuf f.process.device.dev.currInput.size).toNat)
    have htake := List.length_take_le' (writeReturn c.write f.thread.recvBuf
      f.process.device.dev.currInput.size).toNat f.thread.recvBuf
    rw [← accept_append] at hle
    simp only [distance, hpc, stream, List.flatMap_append, List.flatMap_singleton] at hle ⊢
    omega
  | openRead hpc =>
    cases hc : c.opens with
    | true =>
      have hle := leftToRead_le (p := (openReadStep true f).process) hrep
        (openReadStep true f).thread
      simp only [distance, hpc, openReadStep, if_true] at hle ⊢
      omega
    | false =>
      simp only [distance, hpc, openReadStep, Bool.false_eq_true, if_false]
      omega
  | @readBack pos result hpc hread hrun hu =>
    by_cases hret : 0 < result.ret
    · have hless := leftToRead_readBack hrep hread hrun hu hret
        { f.thread with sendBuf := result.user, pc := .send } rfl
      simp only [distance, hpc, if_pos hret, if_pos (Int.le_of_lt hret)] at hless ⊢
      show 2 * leftToRead _ _ + 5 < _
      omega
    · simp only [distance, hpc, if_neg hret]
      omega
  | send hpc _ =>
    simp only [distance, hpc]
    exact Nat.lt_succ_self _
  | closeWrite hpc _ =>
    simp only [distance, hpc, closeWriteStep]
    omega
  | closeRead hpc _ =>
    simp only [distance, hpc, closeReadStep]
    omega
  | unlock hpc => cases hafter
  | unlockContinue hpc => cases hafter
  | loopTest hpc =>
    rw [hpc] at hbefore
    cases hbefore
  | recv hpc =>
    rw [hpc] at hbefore
    cases hbefore
  | lock hpc _ =>
    rw [hpc] at hbefore
    cases hbefore
  | closeConn hpc _ =>
    rw [hpc] at hbefore
    cases hbefore

end Release

section Runs

variable {log₀ : Log} {t : Nat} {s s' : ServerState}

/-- The device descriptors that the holder of the lock has. -/
def heldDevices (s : ServerState) : Nat :=
  (s.process.fmutex.bind fun t => s.threads[t]?).elim 0 fun th => inUse th.pc

/-- The device descriptors that a step of the server leaves open for ever. -/
def leaks (s : ServerState) : Label → Nat
  | .handler t c => s.threads[t]?.elim 0 (abandoned c)
  | _ => 0

theorem heldDevices_le (s : ServerState) : heldDevices s ≤ 2 := by
  rw [heldDevices]
  cases s.process.fmutex.bind fun t => s.threads[t]? with
  | none => exact Nat.zero_le 2
  | some th => exact inUse_le th.pc

theorem heldDevices_of_free (h : s.process.fmutex = none) : heldDevices s = 0 := by
  rw [heldDevices, h]
  rfl

theorem heldDevices_of_holder (h : s.process.fmutex = some t) {th : Thread}
    (hth : s.threads[t]? = some th) : heldDevices s = inUse th.pc := by
  rw [heldDevices, h, Option.bind_some, hth]
  rfl

/-- A step that leaves the holder of the lock alone. -/
theorem heldDevices_congr (hmutex : s'.process.fmutex = s.process.fmutex)
    (hthreads : ∀ u, s.process.fmutex = some u → s'.threads[u]? = s.threads[u]?) :
    heldDevices s' = heldDevices s := by
  rw [heldDevices, heldDevices, hmutex]
  cases hholder : s.process.fmutex with
  | none => rfl
  | some u => rw [Option.bind_some, Option.bind_some, hthreads u hholder]

/-- A step of handler `t` changes what the holder has by what it changes itself. -/
theorem heldDevices_update (hs : Safe log₀ s) {th : Thread} {f' : Frame}
    (hth : s.threads[t]? = some th) (hs' : Safe log₀ (s.update t f'))
    (hmutex : ∀ u, u ≠ t → (f'.process.fmutex = some u ↔ s.process.fmutex = some u)) :
    heldDevices (s.update t f') + inUse th.pc = heldDevices s + inUse f'.thread.pc := by
  have hself : (s.update t f').threads[t]? = some f'.thread := by
    rw [getElem?_update hth, if_pos rfl]
  have hidle : ∀ {x : ServerState} {thx : Thread}, Safe log₀ x → x.threads[t]? = some thx →
      x.process.fmutex ≠ some t → inUse thx.pc = 0 := by
    intro x thx hx hthx hnot
    apply inUse_of_outside
    rw [← Bool.not_eq_true, (hx.threads t thx hthx).lock]
    exact hnot
  by_cases hmine : s.process.fmutex = some t
  · rw [heldDevices_of_holder hmine hth]
    by_cases hmine' : (s.update t f').process.fmutex = some t
    · rw [heldDevices_of_holder hmine' hself, Nat.add_comm]
    · have hfree : (s.update t f').process.fmutex = none := by
        apply Option.eq_none_iff_forall_ne_some.mpr
        intro u hu
        by_cases hut : u = t
        · exact hmine' (hut ▸ hu)
        · exact hut (Option.some.inj (((hmutex u hut).mp hu).symm.trans hmine))
      rw [heldDevices_of_free hfree, hidle hs' hself hmine', Nat.zero_add, Nat.add_zero]
  · rw [hidle hs hth hmine, Nat.add_zero]
    by_cases hmine' : (s.update t f').process.fmutex = some t
    · have hfree : s.process.fmutex = none := by
        apply Option.eq_none_iff_forall_ne_some.mpr
        intro u hu
        by_cases hut : u = t
        · exact hmine (hut ▸ hu)
        · exact hut (Option.some.inj (((hmutex u hut).mpr hu).symm.trans hmine'))
      rw [heldDevices_of_holder hmine' hself, heldDevices_of_free hfree, Nat.zero_add]
    · rw [hidle hs' hself hmine', Nat.add_zero]
      apply heldDevices_congr
      · ext u
        by_cases hut : u = t
        · subst hut
          exact iff_of_false hmine' hmine
        · exact hmutex u hut
      · intro u hu
        have hut : u ≠ t := fun he => hmine (he ▸ hu)
        rw [getElem?_update hth, if_neg hut]

/-- The open device descriptors are those of the holder and `n` abandoned ones. -/
def Balanced (s : ServerState) (n : Nat) : Prop :=
  openDevices s.process = heldDevices s + n

theorem Balanced.step {n : Nat} (h : Balanced s n) (hs : Safe log₀ s) {l : Label}
    (hstep : serverStep s l = .ok s') : Balanced s' (n + leaks s l) := by
  have hs' := hs.step hstep
  cases l with
  | connect =>
    obtain rfl := connect_inv hstep
    have hcount := Table.count_install isDevice (.socket s.threads.length) s.process.table
    have hheld : heldDevices { s with
        process := { s.process with table := s.process.table.install (.socket s.threads.length) }
        threads := s.threads ++ [startThread s.process.table.lowestFree] } = heldDevices s := by
      apply heldDevices_congr (by rfl)
      intro u hu
      exact List.getElem?_append_left (hs.holder u hu)
    rw [Balanced, hheld]
    exact hcount.trans h
  | signal =>
    obtain rfl := (Except.ok.inj hstep).symm
    exact h
  | handler t c =>
    obtain ⟨th, f', hth, hf, rfl⟩ := handler_inv hstep
    have hok : ThreadOk (s.frame th).process t (s.frame th).thread := hs.threads t th hth
    have hbalance := HandlerMove.balance (handlerStep_move hok hs.device hf)
    have hheld := heldDevices_update hs hth hs' (handlerStep_effect hok hs.device hf).mutex
    have hleaks : leaks s (.handler t c) = abandoned c th := by
      rw [leaks, hth]
      rfl
    have hopen : openDevices f'.process + inUse th.pc =
      openDevices s.process + inUse f'.thread.pc + abandoned c th := hbalance
    rw [Balanced] at h ⊢
    show openDevices f'.process = _
    rw [hleaks]
    omega

theorem balanced_run {device : DriverState} {slots : List Slot} {lost : Set Nat}
    (hrep : Represents device log₀ slots lost) {labels : List Label}
    (hrun : run serverStep (startServer device) labels = .ok s) :
    Balanced s (tally serverStep leaks (startServer device) labels) := by
  have hinv : Safe log₀ s ∧
      Balanced s (0 + tally serverStep leaks (startServer device) labels) := by
    apply run_tally (I := fun s n => Safe log₀ s ∧ Balanced s n) _ _ hrun
    · rintro s l s' n ⟨hs, h⟩ hstep
      exact ⟨hs.step hstep, h.step hs hstep⟩
    · exact ⟨safe_start hrep, rfl⟩
  rw [Nat.zero_add] at hinv
  exact hinv.2

/-- How many steps handler `t` takes at most before it gives the lock back. -/
def stepsLeft (log₀ : Log) (t : Nat) (s : ServerState) : Nat :=
  s.threads[t]?.elim 0 (distance (accept log₀ (stream s.record)) s.process)

theorem stepsLeft_eq {th : Thread} (hth : s.threads[t]? = some th) :
    stepsLeft log₀ t s = distance (accept log₀ (stream s.record)) s.process th := by
  rw [stepsLeft, hth]
  rfl

/-- Steps of others neither help nor hinder the holder of the lock. -/
theorem stepsLeft_of_quiet {th : Thread} (hth : s.threads[t]? = some th)
    (hth' : s'.threads[t]? = some th) (hdevice : s'.process.device = s.process.device)
    (hwrites : s'.record.writes = s.record.writes)
    (hread : readOpen th.pc = true → ∃ pos,
      s.process.table.lookup th.localReadFd = some (.device pos) ∧
      s'.process.table.lookup th.localReadFd = some (.device pos)) :
    stepsLeft log₀ t s' = stepsLeft log₀ t s := by
  have hstream : stream s'.record = stream s.record := by rw [stream, stream, hwrites]
  have hunread : readOpen th.pc = true →
      leftToRead s'.process th = leftToRead s.process th := by
    intro hopen
    obtain ⟨pos, hbefore, hafter⟩ := hread hopen
    rw [leftToRead_eq hbefore, leftToRead_eq hafter, hdevice]
  rw [stepsLeft_eq hth, stepsLeft_eq hth', hstream]
  cases hpc : th.pc <;> simp only [distance, hpc]
  case readBack => rw [hunread (by rw [hpc]; rfl)]
  case send => rw [hunread (by rw [hpc]; rfl)]

theorem stepsLeft_step (hs : Safe log₀ s) (hmine : s.process.fmutex = some t) {l : Label}
    (hstep : serverStep s l = .ok s') (hmine' : s'.process.fmutex = some t) :
    stepsLeft log₀ t s' + stepsOf t [l] ≤ stepsLeft log₀ t s := by
  have hs' := hs.step hstep
  obtain ⟨th, hth⟩ := hs.holder_thread hmine
  have hok := hs.threads t th hth
  cases l with
  | connect =>
    obtain rfl := connect_inv hstep
    apply le_of_eq
    refine stepsLeft_of_quiet hth ?_ (by rfl) (by rfl) ?_
    · exact (List.getElem?_append_left (hs.holder t hmine)).trans hth
    · intro hopen
      obtain ⟨pos, hpos⟩ := hok.readFd hopen
      exact ⟨pos, hpos, Table.lookup_install _ hpos⟩
  | signal =>
    obtain rfl := (Except.ok.inj hstep).symm
    exact le_rfl
  | handler u c =>
    obtain ⟨thu, f', hu, hf, rfl⟩ := handler_inv hstep
    have hoku : ThreadOk (s.frame thu).process u (s.frame thu).thread := hs.threads u thu hu
    by_cases hut : u = t
    · subst hut
      obtain rfl := Option.some.inj (hth.symm.trans hu)
      have hself : (s.update u f').threads[u]? = some f'.thread := by
        rw [getElem?_update hth, if_pos rfl]
      have hone : stepsOf u [.handler u c] = 1 := by simp [stepsOf]
      rw [stepsLeft_eq hth, stepsLeft_eq hself, hone]
      exact HandlerMove.nearer (handlerStep_move hoku hs.device hf) hs.device
        (hok.lock.mpr hmine) ((hs'.threads u _ hself).lock.mpr hmine')
    · have hnone : stepsOf t [.handler u c] = 0 := by simp [stepsOf, hut]
      have hsame : (s.update u f').threads[t]? = some th := by
        rw [getElem?_update hu, if_neg fun he => hut he.symm, hth]
      obtain ⟨hout, hq⟩ := quiet_of_locked hs hmine hu hut hf
      rw [hnone]
      apply le_of_eq
      apply stepsLeft_of_quiet hth hsame hq.device hq.writes
      intro hopen
      obtain ⟨pos, hpos⟩ := hok.readFd hopen
      exact ⟨pos, hpos, (handlerStep_effect hoku hs.device hf).devices hout _ _ hpos⟩

/-- Whoever holds the lock is never held up, and within a bounded number of its own steps it has
given the lock back, whatever the calls return and the others do. -/
def GivesBack (t : Nat) (s : ServerState) : Prop :=
  (∀ c, ∃ s', serverStep s (.handler t c) = .ok s') ∧
    ∃ bound, ∀ labels s', run serverStep s labels = .ok s' → bound < stepsOf t labels →
      ∃ pre m, pre <+: labels ∧ run serverStep s pre = .ok m ∧ m.process.fmutex ≠ some t

theorem givesBack (hs : Safe log₀ s) (hmine : s.process.fmutex = some t) : GivesBack t s := by
  refine ⟨fun c => holder_enabled hs hmine c, stepsLeft log₀ t s, ?_⟩
  intro labels s' hrun hmany
  apply run_leaves (I := Safe log₀) (H := fun x => x.process.fmutex = some t)
    (stepsLeft log₀ t) _ _ hs hrun hmany
  · exact fun _ _ _ hx hstep => hx.step hstep
  · exact fun _ _ _ hx hin hstep hout => stepsLeft_step hx hin hstep hout

end Runs

section Results

/-- No open for reading fails in this step. -/
def OpensRead (s : ServerState) (l : Label) : Prop :=
  ∀ t c th, l = .handler t c → s.threads[t]? = some th → th.pc = .openRead → c.opens = true

theorem leaks_eq_zero_iff (s : ServerState) (l : Label) : leaks s l = 0 ↔ OpensRead s l := by
  cases l with
  | connect => exact iff_of_true rfl nofun
  | signal => exact iff_of_true rfl nofun
  | handler t c =>
    cases hth : s.threads[t]? with
    | none =>
      rw [leaks, hth]
      refine iff_of_true rfl ?_
      intro u c' th hl hu
      obtain ⟨rfl, -⟩ := Label.handler.inj hl
      rw [hth] at hu
      cases hu
    | some th =>
      rw [leaks, hth, Option.elim_some, abandoned]
      constructor
      · intro hzero u c' th' hl hu hpc
        obtain ⟨rfl, rfl⟩ := Label.handler.inj hl
        obtain rfl := Option.some.inj (hth.symm.trans hu)
        by_contra hnot
        rw [if_pos ⟨hpc, Bool.eq_false_of_not_eq_true hnot⟩] at hzero
        cases hzero
      · intro hall
        apply if_neg
        rintro ⟨hpc, hfail⟩
        rw [hall t c th rfl hth hpc] at hfail
        cases hfail

/-- No number refers to the device. -/
def NoDeviceOpen (p : Process) : Prop := ∀ fd pos, p.table.lookup fd ≠ some (.device pos)

theorem openDevices_eq_zero_iff (p : Process) : openDevices p = 0 ↔ NoDeviceOpen p := by
  rw [openDevices, Table.count_eq_zero_iff]
  constructor
  · intro hall fd pos hfd
    exact Bool.noConfusion (hall fd _ hfd)
  · intro hall fd x hx
    cases x with
    | device pos => exact absurd hx (hall fd pos)
    | other => rfl
    | listening => rfl
    | socket conn => rfl

/-- Any number of handlers in any interleaving, whatever the calls of each iteration return. A
handler that is about to unlock holds the lock, one at its loop test does not, and whoever holds
it gives it back. The open device descriptors are those of the holder, at most two, and one for
each failed open for reading. So while nobody holds the lock, no device descriptor is open if and
only if no open for reading has failed so far. -/
theorem lock_and_descriptors (calls : List Call) :
    ∃ device, run callStep aesdInitModule calls = .ok device ∧
      ∀ labels s, run serverStep (startServer device) labels = .ok s →
        (∀ t th, s.threads[t]? = some th →
          (th.pc = .unlock ∨ th.pc = .unlockContinue → s.process.fmutex = some t) ∧
          (th.pc = .loopTest → s.process.fmutex ≠ some t)) ∧
        (∀ t, s.process.fmutex = some t → GivesBack t s) ∧
        openDevices s.process = heldDevices s + tally serverStep leaks (startServer device) labels ∧
        heldDevices s ≤ 2 ∧
        (s.process.fmutex = none → heldDevices s = 0 ∧
          (NoDeviceOpen s.process ↔ Along serverStep OpensRead (startServer device) labels)) := by
  obtain ⟨device, hcalls, log₀, slots, lost, hrep⟩ := runCalls calls
  refine ⟨device, hcalls, ?_⟩
  intro labels s hrun
  have hs := safe_run hrep hrun
  have hbalanced : openDevices s.process = heldDevices s + _ := balanced_run hrep hrun
  refine ⟨?_, fun t hmine => givesBack hs hmine, hbalanced, heldDevices_le s, ?_⟩
  · intro t th hth
    have hok := hs.threads t th hth
    constructor
    · rintro (hpc | hpc)
      · exact hok.lock.mp (by rw [hpc]; rfl)
      · exact hok.lock.mp (by rw [hpc]; rfl)
    · exact fun hpc => hok.not_holder (by rw [hpc]; rfl)
  · intro hfree
    have hnone := heldDevices_of_free hfree
    refine ⟨hnone, ?_⟩
    rw [hnone, Nat.zero_add] at hbalanced
    have hsame : (fun x l => leaks x l = 0) = OpensRead := by
      ext x l
      exact leaks_eq_zero_iff x l
    rw [← openDevices_eq_zero_iff, hbalanced, tally_eq_zero_iff hrun, hsame]

/-- A client sends one line; the open for reading fails. -/
def refusedRead : List Label :=
  .connect :: (List.replicate 5 (.handler 0
    ⟨.data (.line 97), true, ⟨fun _ => true, 2⟩, ⟨true, 2048⟩, 2048⟩) ++
    List.replicate 2 (.handler 0 ⟨.again, false, ⟨fun _ => true, 2⟩, ⟨true, 2048⟩, 2048⟩))

/-- The lock is free and the number of `write_fd` still refers to the device. -/
theorem refused_read_leaks :
    ∃ s, run serverStep (startServer aesdInitModule) refusedRead = .ok s ∧
      s.process.fmutex = none ∧ s.process.table.lookup 6 = some (.device 0) :=
  ⟨_, rfl, rfl, rfl⟩

end Results

end Aesd.Server.LockBalance
