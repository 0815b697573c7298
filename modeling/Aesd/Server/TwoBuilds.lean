/- Aesd/Server/TwoBuilds
   layer: system
   digest: How the replies of the two builds of the server differ. -/

import Aesd.Server.FileLog
import Aesd.Server.Serial

set_option autoImplicit false
set_option relaxedAutoImplicit false

namespace Aesd.Server.TwoBuilds

open Aesd.Foundation.RecordLog
open Aesd.Foundation.Run
open Aesd.Driver.CircularBuffer
open Aesd.Driver.Device
open Aesd.Driver.LogRelation
open Aesd.Server.Handler
open Aesd.Server.Serial
open Aesd.Server.FileHandler (FileServer FileLabel FileSection Writer fileStep startFileServer)
open Aesd.Server.FileLog

section Results

/-- What has been written, cut into lines. -/
def linesOf (bytes : List UInt8) : Log := accept Cut.empty bytes

theorem linesOf_whole (bytes : List UInt8) :
    (linesOf bytes).committed ++ (linesOf bytes).pending = bytes := by
  have hfeed := @Cut.feed_flatten_append UInt8 isNewline Cut.empty bytes
  simpa [linesOf, accept, Cut.committed, Cut.empty] using hfeed

/-- The bytes that the handlers of some sections received. -/
def receivedIn (sections : List Section) : List UInt8 := (sections.map Section.chunk).flatten

theorem retained_of_reply (bytes : List UInt8) :
    bytes = ((linesOf bytes).records.rdrop maxWriteOperationsSupported).flatten ++
      reply (linesOf bytes) ++ (linesOf bytes).pending := by
  have hsplit := Cut.committed_eq maxWriteOperationsSupported (linesOf bytes)
  rw [reply, ← hsplit, linesOf_whole]

/-- The device has everything exactly as long as nothing is given up and no line is unfinished. -/
theorem reply_eq_iff (bytes : List UInt8) :
    bytes = reply (linesOf bytes) ↔
      (linesOf bytes).records.length ≤ maxWriteOperationsSupported ∧
        (linesOf bytes).pending = [] := by
  have hcut : Cut.WellCut isNewline (linesOf bytes) := (Cut.wellCut_empty isNewline).feed bytes
  rw [← hcut.whole_iff maxWriteOperationsSupported, linesOf_whole, reply]

/-- What the handlers have stored, without the timestamps. -/
def fromHandlers (units : List (Writer × List UInt8)) : List UInt8 :=
  stored (units.filter fun u => !decide (u.1 = .timer))

def fromTimer (units : List (Writer × List UInt8)) : List UInt8 :=
  stored (units.filter fun u => decide (u.1 = .timer))

theorem length_stored (units : List (Writer × List UInt8)) :
    (stored units).length = (fromHandlers units).length + (fromTimer units).length := by
  induction units with
  | nil => rfl
  | cons u units ih =>
    simp only [fromHandlers, fromTimer, stored] at ih ⊢
    by_cases hu : u.1 = .timer
    · simp [hu, ih]
      omega
    · simp [hu, ih]
      omega

theorem stored_of_no_timer {units : List (Writer × List UInt8)} (h : fromTimer units = []) :
    stored units = fromHandlers units := by
  induction units with
  | nil => rfl
  | cons u units ih =>
    simp only [fromHandlers, fromTimer, stored] at ih h ⊢
    by_cases hu : u.1 = .timer
    · simp only [List.filter_cons, hu, decide_true, if_true, List.map_cons, List.flatten_cons,
        List.append_eq_nil_iff] at h
      simp [hu, h.1, ih h.2]
    · simp only [List.filter_cons, hu, decide_false, Bool.false_eq_true, if_false] at h
      simp [hu, ih h]

/-- A device gives no more than was written to it. -/
theorem length_reply_le (bytes : List UInt8) : (reply (linesOf bytes)).length ≤ bytes.length := by
  have hparts := congrArg List.length (retained_of_reply bytes)
  rw [List.length_append, List.length_append] at hparts
  omega

/-- Ten lines and the start of another one. -/
def manyLines : Chunk :=
  ⟨[98, 10, 99, 10, 100, 10, 101, 10, 102, 10, 103, 10, 104, 10, 105, 10, 106, 10, 107, 10, 108],
    by decide, by decide⟩

/-- Nothing fails on the device. -/
def tells (chunk : Chunk) : Choice :=
  ⟨.data chunk, true, ⟨fun _ => true, bufSize⟩, ⟨true, bufSize⟩, bufSize⟩

/-- A line from one client and `manyLines` from another one, to the device. -/
def elevenLines : List Label :=
  List.replicate 2 .connect ++ List.replicate 12 (.handler 0 (tells (.line 97))) ++
    List.replicate 12 (.handler 1 (tells manyLines))

set_option maxRecDepth 20000 in
theorem elevenLines_run : ∃ device first second,
    run serverStep (startServer aesdInitModule) elevenLines = .ok device ∧
      device.record.inFull = true ∧ device.record.sections = [first, second] ∧
      first.chunk = [97, 10] ∧ second.chunk = manyLines.bytes :=
  ⟨_, _, _, rfl, rfl, rfl, rfl, rfl⟩

/-- The same to the file. -/
def elevenFileLines : List FileLabel :=
  List.replicate 2 .connect ++
    List.replicate 10 (.handler 0 (smoothly .zero)) ++
    List.replicate 10 (.handler 1 { smoothly .zero with recv := .data manyLines })

set_option maxRecDepth 20000 in
theorem elevenFileLines_run : ∃ file first second,
    run fileStep (startFileServer true) elevenFileLines = .ok file ∧
      file.record.sections = [first, second] ∧ second.inFull = true ∧
      second.chunk = manyLines.bytes ∧
      file.record.units = [(.handler 0, [97, 10]), (.handler 1, manyLines.bytes)] :=
  ⟨_, _, _, rfl, rfl, rfl, rfl, rfl⟩

theorem linesOf_eleven : (linesOf ([97, 10] ++ manyLines.bytes)).records.length = 11 := by
  decide

end Results

end Aesd.Server.TwoBuilds
