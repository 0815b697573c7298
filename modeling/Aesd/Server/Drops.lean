/- Aesd/Server/Drops
   layer: system
   digest: When every byte a connection received has been accepted by the device. -/

import Aesd.Server.Accounts
import Aesd.Server.Moves

set_option autoImplicit false
set_option relaxedAutoImplicit false

namespace Aesd.Server.Drops

open Aesd.Foundation.MergedStream
open Aesd.Foundation.Run
open Aesd.Driver.Device
open Aesd.Driver.LogRelation
open Aesd.Driver.WriteCorrect
open Aesd.Driver.Session
open Aesd.Driver.Ownership
open Aesd.Server.Handler
open Aesd.Server.Safety
open Aesd.Server.Accounts
open Aesd.Server.Moves

section Steps

variable {log₀ : Log} {t : Nat} {c : Choice} {f f' : Frame}

/-- The kernel lets `aesd_write` take the whole of `buf`, behind `size` bytes of an unfinished
record: the first allocation and the copy succeed, and so does the allocation after every newline
but the last byte. -/
def WritesAll (env : WriteEnv) (buf : List UInt8) (size : Nat) : Prop :=
  allocated env buf size ∧ buf.length ≤ env.readable ∧
    ∀ j, j + 1 < buf.length → buf[j]? = some newline → env.kmalloc (j + 1) = true

/-- The thread loses bytes in this step: the open for writing fails, or the write takes less than
the chunk. -/
def Loses (c : Choice) (th : Thread) (device : DriverState) : Prop :=
  (th.pc = .openWrite ∧ c.opens = false) ∨
    (th.pc = .write ∧ ¬WritesAll c.write th.recvBuf device.dev.currInput.size)

/-- The chunk in hand is not empty. -/
def Holding (th : Thread) : Prop :=
  th.pc = .lock ∨ th.pc = .openWrite ∨ th.pc = .write → th.recvBuf ≠ []

theorem writeReturn_le (env : WriteEnv) (buf : List UInt8) (size : Nat) :
    writeReturn env buf size ≤ buf.length := by
  have hnomem : -ENOMEM < 0 := by decide
  have hfault : -EFAULT < 0 := by decide
  have hscan := scanned_le env 0 buf
  rw [writeReturn]
  split_ifs
  · omega
  · omega
  · omega

/-- The bytes a write leaves out. -/
theorem dropped_eq_nil_iff {env : WriteEnv} {buf : List UInt8} {size : Nat} (hne : buf ≠ []) :
    buf.drop (writeReturn env buf size).toNat = [] ↔ WritesAll env buf size := by
  have hle := writeReturn_le env buf size
  have hpos := List.length_pos_iff.mpr hne
  rw [WritesAll, ← writeReturn_eq_length_iff, List.drop_eq_nil_iff]
  omega

/-- What a step does to the account of its connection: some bytes are received and some are lost,
the latter exactly in the steps above. -/
structure Booked (t : Nat) (c : Choice) (f f' : Frame) (gained lost : List UInt8) : Prop where
  received : f'.record.received t = f.record.received t ++ gained
  accounted : writtenBy f.record t ++ inHand (some f.thread) ++ gained =
    writtenBy f'.record t ++ inHand (some f'.thread) ++ lost
  lost_iff : lost ≠ [] ↔ Loses c f.thread f.process.device
  holding : Holding f'.thread

/-- A step that changes no account. -/
theorem booked_nothing (hr : f'.record.received = f.record.received)
    (hw : f'.record.writes = f.record.writes)
    (hhand : inHand (some f'.thread) = inHand (some f.thread))
    (hkeeps : ¬Loses c f.thread f.process.device) (hholding : Holding f'.thread) :
    Booked t c f f' [] [] where
  received := by rw [hr, List.append_nil]
  accounted := by rw [writtenBy, writtenBy, hw, hhand]
  lost_iff := iff_of_false (fun h => h rfl) hkeeps
  holding := hholding

theorem not_loses (hopen : f.thread.pc ≠ .openWrite) (hwrite : f.thread.pc ≠ .write) :
    ¬Loses c f.thread f.process.device := by
  rintro (⟨hpc, -⟩ | ⟨hpc, -⟩)
  · exact hopen hpc
  · exact hwrite hpc

theorem recv_booked (hpc : f.thread.pc = .recv) :
    ∃ gained, Booked t c f (recvStep t c.recv f) gained [] := by
  have hnone : inHand (some f.thread) = [] := by simp [inHand, hpc]
  have hkeeps : ¬Loses c f.thread f.process.device :=
    not_loses (by rw [hpc]; decide) (by rw [hpc]; decide)
  cases hc : c.recv with
  | data chunk =>
    refine ⟨chunk.bytes, ?_, ?_, iff_of_false (fun h => h rfl) hkeeps, fun _ => chunk.nonempty⟩
    · exact Function.update_self t _ _
    · rw [hnone, List.append_nil, List.append_nil]
      rfl
  | again =>
    exact ⟨[], booked_nothing rfl rfl hnone.symm hkeeps (by simp [Holding, recvStep])⟩
  | error =>
    exact ⟨[], booked_nothing rfl rfl hnone.symm hkeeps (by simp [Holding, recvStep])⟩
  | eof =>
    exact ⟨[], booked_nothing rfl rfl hnone.symm hkeeps (by simp [Holding, recvStep])⟩

theorem openWrite_booked (hpc : f.thread.pc = .openWrite) (hholding : Holding f.thread) :
    ∃ lost, Booked t c f (openWriteStep c.opens f) [] lost := by
  have hhand : inHand (some f.thread) = f.thread.recvBuf := by simp [inHand, hpc]
  have hne : f.thread.recvBuf ≠ [] := hholding (.inr (.inl hpc))
  cases hc : c.opens with
  | true =>
    have hkeeps : ¬Loses c f.thread f.process.device := by
      rintro (⟨-, hfail⟩ | ⟨hwrite, -⟩)
      · rw [hc] at hfail
        cases hfail
      · rw [hpc] at hwrite
        cases hwrite
    exact ⟨[], booked_nothing rfl rfl hhand.symm hkeeps fun _ => hne⟩
  | false =>
    refine ⟨f.thread.recvBuf, ?_, ?_, iff_of_true hne (.inl ⟨hpc, hc⟩), ?_⟩
    · exact (List.append_nil _).symm
    · rw [hhand]
      simp [openWriteStep, inHand, writtenBy]
    · simp [Holding, openWriteStep]

/-- A thread in front of its write has its chunk in hand. -/
def hasChunk : Pc → Bool
  | .lock | .openWrite | .write => true
  | _ => false

/-- A step that starts and ends with no chunk in hand, and books nothing. -/
theorem booked_aside (hpc : hasChunk f.thread.pc = false) (hpc' : hasChunk f'.thread.pc = false)
    (hr : f'.record.received = f.record.received) (hw : f'.record.writes = f.record.writes) :
    Booked t c f f' [] [] := by
  have hnone : ∀ th : Thread, hasChunk th.pc = false → inHand (some th) = [] := by
    intro th hth
    cases hcase : th.pc <;> rw [hcase] at hth
    case lock => cases hth
    case openWrite => cases hth
    case write => cases hth
    all_goals simp [inHand, hcase]
  apply booked_nothing hr hw
  · rw [hnone _ hpc, hnone _ hpc']
  · apply not_loses <;>
    · intro hstands
      rw [hstands] at hpc
      cases hpc
  · rintro (hstands | hstands | hstands) <;>
    · rw [hstands] at hpc'
      cases hpc'

/-- Every step of a handler is booked. -/
theorem HandlerMove.booked (hm : HandlerMove t c f f') (hholding : Holding f.thread) :
    ∃ gained lost, Booked t c f f' gained lost := by
  cases hm with
  | loopTest hpc =>
    refine ⟨[], [], booked_aside (by rw [hpc]; rfl) ?_ (by rfl) (by rfl)⟩
    rw [loopTest]
    dsimp only
    split <;> rfl
  | recv hpc =>
    obtain ⟨gained, hbooked⟩ := recv_booked (t := t) (c := c) hpc
    exact ⟨gained, [], hbooked⟩
  | lock hpc _ =>
    refine ⟨[], [], booked_nothing rfl rfl ?_ (not_loses (by rw [hpc]; decide) (by rw [hpc]; decide))
      fun _ => hholding (.inl hpc)⟩
    simp [inHand, hpc]
  | openWrite hpc =>
    obtain ⟨lost, hbooked⟩ := openWrite_booked (t := t) (c := c) hpc hholding
    exact ⟨[], lost, hbooked⟩
  | write hpc _ _ =>
    have hhand : inHand (some f.thread) = f.thread.recvBuf := by simp [inHand, hpc]
    have hne : f.thread.recvBuf ≠ [] := hholding (.inr (.inr hpc))
    refine ⟨[], f.thread.recvBuf.drop (writeReturn c.write f.thread.recvBuf
      f.process.device.dev.currInput.size).toNat, (List.append_nil _).symm, ?_, ?_, ?_⟩
    · have hafter := own_concat_self f.record.writes t (f.thread.recvBuf.take (writeReturn c.write
        f.thread.recvBuf f.process.device.dev.currInput.size).toNat)
      rw [hhand, writtenBy, writtenBy]
      simp only [hafter, inHand, List.append_nil, List.append_assoc, List.take_append_drop]
    · rw [ne_eq, dropped_eq_nil_iff hne]
      constructor
      · exact fun hshort => .inr ⟨hpc, hshort⟩
      · rintro (⟨hopen, -⟩ | ⟨-, hshort⟩)
        · rw [hpc] at hopen
          cases hopen
        · exact hshort
    · simp [Holding]
  | openRead hpc =>
    cases c.opens <;>
      exact ⟨[], [], booked_aside (by rw [hpc]; rfl) (by rfl) (by rfl) (by rfl)⟩
  | readBack hpc _ _ _ =>
    refine ⟨[], [], booked_aside (by rw [hpc]; rfl) ?_ (by rfl) (by rfl)⟩
    dsimp only
    split <;> rfl
  | send hpc _ => exact ⟨[], [], booked_aside (by rw [hpc]; rfl) (by rfl) (by rfl) (by rfl)⟩
  | closeWrite hpc _ => exact ⟨[], [], booked_aside (by rw [hpc]; rfl) (by rfl) (by rfl) (by rfl)⟩
  | closeRead hpc _ => exact ⟨[], [], booked_aside (by rw [hpc]; rfl) (by rfl) (by rfl) (by rfl)⟩
  | unlock hpc => exact ⟨[], [], booked_aside (by rw [hpc]; rfl) (by rfl) (by rfl) (by rfl)⟩
  | unlockContinue hpc =>
    exact ⟨[], [], booked_aside (by rw [hpc]; rfl) (by rfl) (by rfl) (by rfl)⟩
  | closeConn hpc _ => exact ⟨[], [], booked_aside (by rw [hpc]; rfl) (by rfl) (by rfl) (by rfl)⟩

/-- A step of another handler does not touch the account. -/
theorem HandlerMove.apart (hm : HandlerMove t c f f') {u : Nat} (hu : u ≠ t) :
    f'.record.received u = f.record.received u ∧ writtenBy f'.record u = writtenBy f.record u := by
  cases hm with
  | recv hpc =>
    cases hc : c.recv with
    | data chunk => exact ⟨Function.update_of_ne hu _ _, rfl⟩
    | again => exact ⟨rfl, rfl⟩
    | error => exact ⟨rfl, rfl⟩
    | eof => exact ⟨rfl, rfl⟩
  | openWrite hpc => cases hc : c.opens <;> exact ⟨rfl, rfl⟩
  | openRead hpc => cases hc : c.opens <;> exact ⟨rfl, rfl⟩
  | write hpc _ _ => exact ⟨rfl, own_concat_of_ne f.record.writes hu _⟩
  | _ => exact ⟨rfl, rfl⟩

end Steps

section Runs

variable {log₀ : Log} {t : Nat} {s s' : ServerState}

/-- Handler `t` loses no bytes in this step of the server. -/
def Keeps (t : Nat) (s : ServerState) (l : Label) : Prop :=
  ∀ c th, l = .handler t c → s.threads[t]? = some th → ¬Loses c th s.process.device

/-- The account of connection `t`, where `clean` says that its handler has lost nothing so far. -/
structure Ledger (t : Nat) (s : ServerState) (clean : Prop) : Prop where
  exact : clean → s.record.received t = writtenBy s.record t ++ inHand s.threads[t]?
  short : ¬clean → (writtenBy s.record t ++ inHand s.threads[t]?).length <
    (s.record.received t).length
  holding : ∀ th, s.threads[t]? = some th → Holding th

theorem ledger_start (t : Nat) (device : DriverState) : Ledger t (startServer device) True where
  exact := fun _ => rfl
  short := fun h => absurd trivial h
  holding := nofun

/-- A step that leaves the account of `t` alone. -/
theorem Ledger.of_eq {clean kept : Prop} (h : Ledger t s clean) (hkept : kept)
    (hr : s'.record.received t = s.record.received t)
    (hw : writtenBy s'.record t = writtenBy s.record t)
    (hhand : inHand s'.threads[t]? = inHand s.threads[t]?)
    (hholding : ∀ th, s'.threads[t]? = some th → Holding th) : Ledger t s' (clean ∧ kept) where
  exact := by
    rintro ⟨hclean, -⟩
    rw [hr, hw, hhand]
    exact h.exact hclean
  short := by
    intro hnot
    rw [hr, hw, hhand]
    exact h.short fun hclean => hnot ⟨hclean, hkept⟩
  holding := hholding

theorem Ledger.connect {clean : Prop} (h : Ledger t s clean)
    (hstep : serverStep s .connect = .ok s') : Ledger t s' (clean ∧ Keeps t s .connect) := by
  obtain rfl := connect_inv hstep
  rcases getElem?_concat s.threads (startThread s.process.table.lowestFree) t with
    hsame | ⟨-, hnone, hnew⟩
  · refine Ledger.of_eq h (by nofun) (by rfl) (by rfl) ?_ ?_
    · rw [hsame]
    · exact fun th hth => h.holding th (hsame ▸ hth)
  · refine Ledger.of_eq h (by nofun) (by rfl) (by rfl) ?_ ?_
    · rw [hnew, hnone]
      rfl
    · intro th hth
      obtain rfl := Option.some.inj (hnew.symm.trans hth)
      simp [Holding, startThread]

theorem Ledger.handler {clean : Prop} {u : Nat} {c : Choice} (h : Ledger t s clean)
    (hs : Safe log₀ s) (hstep : serverStep s (.handler u c) = .ok s') :
    Ledger t s' (clean ∧ Keeps t s (.handler u c)) := by
  obtain ⟨th, f', hth, hm, rfl⟩ := serverStep_move hs hstep
  by_cases hu : u = t
  · subst hu
    obtain ⟨gained, lost, hbooked⟩ := HandlerMove.booked hm (h.holding th hth)
    have hself : (s.update u f').threads[u]? = some f'.thread := by
      rw [getElem?_update hth, if_pos rfl]
    have hkeeps : Keeps u s (.handler u c) ↔ lost = [] := by
      rw [← not_iff_not, ← ne_eq, hbooked.lost_iff, Keeps]
      constructor
      · intro hall
        by_contra hnot
        apply hall
        rintro c' th' hl hth'
        obtain ⟨-, rfl⟩ := Label.handler.inj hl
        rw [hth] at hth'
        obtain rfl := Option.some.inj hth'
        exact hnot
      · exact fun hloses hall => hall c th rfl hth hloses
    have haccounted := hbooked.accounted
    have hreceived : (s.update u f').record.received u = s.record.received u ++ gained :=
      hbooked.received
    have hframe : writtenBy s.record u ++ inHand s.threads[u]? ++ gained =
        writtenBy (s.update u f').record u ++ inHand (s.update u f').threads[u]? ++ lost := by
      rw [hself, hth]
      exact haccounted
    refine ⟨?_, ?_, ?_⟩
    · rintro ⟨hclean, hkept⟩
      rw [hkeeps.mp hkept, List.append_nil] at hframe
      rw [hreceived, h.exact hclean, hframe]
    · intro hnot
      have hlength := congrArg List.length hframe
      simp only [List.length_append] at hlength
      rw [hreceived]
      simp only [List.length_append]
      by_cases hclean : clean
      · have hlost : lost ≠ [] := fun hnil => hnot ⟨hclean, hkeeps.mpr hnil⟩
        have hpos := List.length_pos_iff.mpr hlost
        have hexact := congrArg List.length (h.exact hclean)
        simp only [List.length_append] at hexact
        omega
      · have hshort := h.short hclean
        simp only [List.length_append] at hshort
        omega
    · intro th' hth'
      rw [hself] at hth'
      obtain rfl := Option.some.inj hth'
      exact hbooked.holding
  · obtain ⟨hr, hw⟩ := HandlerMove.apart hm (Ne.symm hu)
    have hkept : Keeps t s (.handler u c) := by
      intro c' th' hl
      exact absurd (Label.handler.inj hl).1 hu
    have hsame : (s.update u f').threads[t]? = s.threads[t]? := by
      rw [getElem?_update hth, if_neg (Ne.symm hu)]
    apply h.of_eq hkept hr hw
    · rw [hsame]
    · rw [hsame]
      exact h.holding

theorem Ledger.step {clean : Prop} (h : Ledger t s clean) (hs : Safe log₀ s) {l : Label}
    (hstep : serverStep s l = .ok s') : Ledger t s' (clean ∧ Keeps t s l) := by
  cases l with
  | connect => exact h.connect hstep
  | signal =>
    obtain rfl := (Except.ok.inj hstep).symm
    exact h.of_eq nofun rfl rfl rfl h.holding
  | handler u c => exact h.handler hs hstep

theorem ledger_run {device : DriverState} {slots : List Slot} {lost : Set Nat}
    (hrep : Represents device log₀ slots lost) {labels : List Label}
    (hrun : run serverStep (startServer device) labels = .ok s) (t : Nat) :
    Ledger t s (Along serverStep (Keeps t) (startServer device) labels) := by
  have hinv : Safe log₀ s ∧
      Ledger t s (True ∧ Along serverStep (Keeps t) (startServer device) labels) := by
    apply run_along (I := fun s clean => Safe log₀ s ∧ Ledger t s clean) _ _ hrun
    · rintro s l s' clean ⟨hs, h⟩ hstep
      exact ⟨hs.step hstep, h.step hs hstep⟩
    · exact ⟨safe_start hrep, ledger_start t device⟩
  rw [true_and] at hinv
  exact hinv.2

end Runs

section Results

/-- Whenever a handler is about to test its loop or to receive, all bytes received on its
connection have been accepted by the device, in order and once each, if and only if in no step so
far it lost bytes: no open for writing failed and every write took its whole chunk. What is
accepted is in the device's log. -/
theorem received_accepted_iff (calls : List Call) :
    ∃ device log₀, run callStep aesdInitModule calls = .ok device ∧
      view device = .ok (logView log₀) ∧
      ∀ labels s, run serverStep (startServer device) labels = .ok s →
        view s.process.device = .ok (logView (accept log₀ (stream s.record))) ∧
        ∀ t th, s.threads[t]? = some th → th.pc = .loopTest ∨ th.pc = .recv →
          (s.record.received t = writtenBy s.record t ↔
            Along serverStep (Keeps t) (startServer device) labels) := by
  obtain ⟨device, hcalls, log₀, slots, lost, hrep⟩ := runCalls calls
  refine ⟨device, log₀, hcalls, view_eq hrep, ?_⟩
  intro labels s hrun
  obtain ⟨slots', lost', hrep'⟩ := (safe_run hrep hrun).device
  refine ⟨view_eq hrep', ?_⟩
  intro t th hth hpc
  have hledger := ledger_run hrep hrun t
  have hnone : inHand s.threads[t]? = [] := by
    rw [hth]
    rcases hpc with hpc | hpc
    · simp [inHand, hpc]
    · simp [inHand, hpc]
  constructor
  · intro hall
    by_contra hnot
    have hshort := hledger.short hnot
    rw [hnone, List.append_nil, hall] at hshort
    exact absurd hshort (Nat.lt_irrefl _)
  · intro hclean
    have hexact := hledger.exact hclean
    rwa [hnone, List.append_nil] at hexact

/-- A client sends one line; the open for writing fails. -/
def refusedOpen : List Label :=
  .connect :: List.replicate 5 (.handler 0
    ⟨.data (.line 97), false, ⟨fun _ => true, 2⟩, ⟨true, 2048⟩, 2048⟩)

/-- The handler is back at its loop test with the connection open, and the line is gone. -/
theorem refused_line_is_lost :
    ∃ s th, run serverStep (startServer aesdInitModule) refusedOpen = .ok s ∧
      s.threads[0]? = some th ∧ th.pc = .loopTest ∧ th.connClosed = false ∧
      s.record.received 0 = [97, 10] ∧ writtenBy s.record 0 = [] :=
  ⟨_, _, rfl, rfl, rfl, rfl, rfl, rfl⟩

end Results

end Aesd.Server.Drops
