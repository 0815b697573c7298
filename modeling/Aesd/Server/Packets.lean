/- Aesd/Server/Packets
   layer: system
   digest: Which client the records on the device come from when several clients send at once. -/

import Aesd.Server.Accounts

set_option autoImplicit false
set_option relaxedAutoImplicit false

namespace Aesd.Server.Packets

open Aesd.Foundation.MergedStream
open Aesd.Foundation.RecordLog
open Aesd.Foundation.Run
open Aesd.Driver.CircularBuffer
open Aesd.Driver.Device
open Aesd.Driver.LogRelation
open Aesd.Driver.Session
open Aesd.Driver.Ownership
open Aesd.Server.Handler
open Aesd.Server.Safety
open Aesd.Server.Serial
open Aesd.Server.Accounts

section Records

variable {log₀ : Log} {s : ServerState}

/-- The records that the handlers have had committed, and the unfinished one, with the client that
every byte came from. -/
def clientLog (s : ServerState) : Cut (Nat × UInt8) := origins isNewline s.record.writes

/-- On a device without an unfinished record the log grows by the records of the clients. -/
theorem accept_stream (hp : log₀.pending = []) (s : ServerState) :
    accept log₀ (stream s.record) =
      ⟨log₀.records ++ (clientLog s).records.map (List.map Prod.snd),
        (clientLog s).pending.map Prod.snd⟩ := by
  have hcut : (clientLog s).map Prod.snd = accept Cut.empty (stream s.record) :=
    origins_contents s.record.writes
  unfold accept at hcut ⊢
  rw [Cut.feed_records, hp, show (⟨[], []⟩ : Log) = Cut.empty from rfl, ← hcut]
  rfl

/-- The packets of a client are never taken back. -/
theorem accept_records_mono {xs ys : List UInt8} (h : xs <+: ys) {r : List UInt8}
    (hr : r ∈ (accept Cut.empty xs).records) : r ∈ (accept Cut.empty ys).records := by
  obtain ⟨zs, rfl⟩ := h
  rw [accept_append]
  exact (Cut.records_prefix_feed _ zs).mem hr

/-- Where nothing has been mixed, every record is a packet of its client. -/
theorem record_isPacket (h : ∀ r ∈ (clientLog s).records, Unmixed r) {r : List (Nat × UInt8)}
    (hr : r ∈ (clientLog s).records) :
    ∃ t, (∀ x ∈ r, x.1 = t) ∧
      r.map Prod.snd ∈ (accept Cut.empty (writtenBy s.record t)).records := by
  have hwell := (@origins_decomposition _ _ isNewline s.record.writes).2
  obtain ⟨x, hx⟩ := List.exists_mem_of_ne_nil r (hwell.records r hr).ne_nil
  have hsource : ∀ y ∈ r, y.1 = x.1 := fun y hy => h r hr y hy x hx
  refine ⟨x.1, hsource, ?_⟩
  have hown : (accept Cut.empty (writtenBy s.record x.1)).records = _ := own_records h x.1
  rw [hown]
  apply List.mem_map_of_mem
  apply List.mem_filter.mpr
  refine ⟨hr, List.all_eq_true.mpr fun y hy => ?_⟩
  exact beq_iff_eq.mpr (hsource y hy)

end Records

section Results

/-- Any number of clients on a device without an unfinished record, in any interleaving of the
handlers. The device commits the records of the chunks in the order in which they were written,
whichever clients they came from. All bytes of every one of them come from one client if and only
if no chunk was written behind the beginning of another client's packet. In this case every
record is a whole packet of its client: of the bytes the device accepted from it and, if no call
failed, of the bytes received. -/
theorem packets_unmixed (calls : List Call) :
    ∃ device v₀, run callStep aesdInitModule calls = .ok device ∧ view device = .ok v₀ ∧
      (v₀.pending = [] →
        ∀ labels s, run serverStep (startServer device) labels = .ok s →
          ∃ v, view s.process.device = .ok v ∧
            v.records = (v₀.records ++ (clientLog s).records.map (List.map Prod.snd)).rtake
              maxWriteOperationsSupported ∧
            v.pending = (clientLog s).pending.map Prod.snd ∧
            (Exclusive isNewline s.record.writes ↔
              (∀ r ∈ (clientLog s).records, Unmixed r) ∧ Unmixed (clientLog s).pending) ∧
            (Exclusive isNewline s.record.writes → ∀ r ∈ (clientLog s).records, ∃ t,
              (∀ x ∈ r, x.1 = t) ∧
              r.map Prod.snd ∈ (accept Cut.empty (writtenBy s.record t)).records ∧
              (s.record.inFull = true →
                r.map Prod.snd ∈ (accept Cut.empty (s.record.received t)).records))) := by
  obtain ⟨device, hcalls, log₀, slots, lost, hrep⟩ := runCalls calls
  refine ⟨device, _, hcalls, view_eq hrep, ?_⟩
  intro hpending labels s hrun
  have hlog := accept_stream hpending s
  obtain ⟨slots', lost', hrep'⟩ := (safe_run hrep hrun).device
  rw [hlog] at hrep'
  refine ⟨_, view_eq hrep', ?_, rfl, exclusive_iff _, ?_⟩
  · show (log₀.records ++ _).rtake _ = (log₀.records.rtake _ ++ _).rtake _
    rw [rtake_rtake_append]
  · intro hexclusive r hr
    obtain ⟨t, hsource, hpacket⟩ := record_isPacket ((exclusive_iff _).mp hexclusive).1 hr
    refine ⟨t, hsource, hpacket, fun hfull => ?_⟩
    have hreceived := ((allBalance_run hrep hrun hfull).balances t).received
    rw [hreceived]
    exact accept_records_mono (List.prefix_append _ _) hpacket

/-- The first of two clients sends `ab` and then the second one `cd` and a newline. -/
def twoClients : List Label :=
  [.connect, .connect] ++
    List.replicate 10 (.handler 0
      ⟨.data ⟨[97, 98], by decide, by decide⟩, true, ⟨fun _ => true, 2⟩, ⟨true, 2048⟩, 2048⟩) ++
    List.replicate 12 (.handler 1
      ⟨.data ⟨[99, 100, 10], by decide, by decide⟩, true, ⟨fun _ => true, 3⟩, ⟨true, 2048⟩, 2048⟩)

/-- On the fresh device the bytes of both become one record, which neither client has sent. -/
theorem two_clients_one_record :
    ∃ s v, run serverStep (startServer aesdInitModule) twoClients = .ok s ∧
      s.record.inFull = true ∧ s.threads.length = 2 ∧ s.record.received 0 = [97, 98] ∧
      s.record.received 1 = [99, 100, 10] ∧ view s.process.device = .ok v ∧
      v.records = [[97, 98, 99, 100, 10]] ∧
      ∀ t < s.threads.length, ∀ r ∈ v.records,
        r ∉ (accept Cut.empty (s.record.received t)).records := by
  have hseen : (run serverStep (startServer aesdInitModule) twoClients).toOption.map
      (fun s => (s.record.inFull, s.threads.length, s.record.received 0, s.record.received 1,
        (view s.process.device).toOption)) =
      some (true, 2, [97, 98], [99, 100, 10], some ⟨[[97, 98, 99, 100, 10]], [], 0⟩) := by
    decide +kernel
  cases hrun : run serverStep (startServer aesdInitModule) twoClients with
  | error e =>
    rw [hrun] at hseen
    cases hseen
  | ok s =>
    rw [hrun] at hseen
    obtain ⟨hfull, hlength, hfirst, hsecond, hview⟩ :
        s.record.inFull = true ∧ s.threads.length = 2 ∧ s.record.received 0 = [97, 98] ∧
        s.record.received 1 = [99, 100, 10] ∧
        (view s.process.device).toOption = some ⟨[[97, 98, 99, 100, 10]], [], 0⟩ := by
      simpa [Except.toOption] using hseen
    cases hv : view s.process.device with
    | error e =>
      rw [hv] at hview
      cases hview
    | ok v =>
      rw [hv] at hview
      obtain rfl := Option.some.inj hview
      refine ⟨s, _, rfl, hfull, hlength, hfirst, hsecond, hv, rfl, ?_⟩
      intro t ht
      rw [hlength] at ht
      obtain rfl | rfl : t = 0 ∨ t = 1 := by omega
      · rw [hfirst]
        decide
      · rw [hsecond]
        decide

end Results

end Aesd.Server.Packets
