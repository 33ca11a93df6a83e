import FluxRs.Lib.Bytes
import FluxRs.Lib.Checked
import FluxRs.Lib.Fallible
import FluxRs.Lib.Run
import Std.Data.TreeMap.Lemmas

/-!
# FluxRs.Logging.Logger — the daemon log and its rotation

`crates/fluxd/src/logger.rs` over a run directory that holds `fluxd.log` and the files `fluxd.log.{index}`.
Every call of the file system may fail, and then it has no effect.
-/

namespace FluxRs.Logging

open FluxRs.Lib Fallible

abbrev Line := List U8

/-- What has been written to a file, one write after the other. -/
abbrev Contents := List Line

def size (c : Contents) : ℕ := c.flatten.length

/-- Cut to the range of `u64`. -/
def saturate (n : ℕ) : ℕ := min n (2 ^ 64 - 1)

structure LogConfig where
  maxBytes : ℕ
  retain : ℕ
  maxBytes_lt : maxBytes < 2 ^ 64
  retain_lt : retain < 2 ^ 32

def LogConfig.default : LogConfig := ⟨4 * 1024 * 1024, 1, by decide, by decide⟩

/-- A logger and its run directory, with a record of what has happened. -/
structure World where
  /-- Whether the logger holds an open handle of `fluxd.log`. -/
  file : Bool
  bytes : ℕ
  policy : LogConfig
  current : Option Contents
  rotated : Std.TreeMap ℕ Contents
  /-- Calls of the file system so far. -/
  calls : ℕ
  /-- Targets of a rename that were there before it. -/
  overwritten : List ℕ
  /-- For each write, the size of the file before it and the limit in force. -/
  found : List (ℕ × ℕ)
  /-- The `retain` in force at the last rotation. -/
  lastRetain : Option ℕ
  appended : List Line

abbrev Io := Fallible (Fault Unit) World

section Logger

variable (works : ℕ → Bool)

/-- A call of the file system. -/
def attempt : Io Unit := fun s =>
  if works s.calls then (.ok (), { s with calls := s.calls + 1 })
  else (.error (.error ()), { s with calls := s.calls + 1 })

/-- `open` with `create` and `append`, then `metadata`. -/
def reopen : Io Unit := do
  attempt works
  update fun s => { s with current := some (s.current.getD []) }
  attempt works
  update fun s => { s with file := true, bytes := saturate (size (s.current.getD [])) }

def removeRotated (index : ℕ) : Io Unit := do
  attempt works
  if (← read fun s => s.rotated.contains index) then update fun s => { s with rotated := s.rotated.erase index }
  else fail (.error ())

def insertRotated (index : ℕ) (c : Contents) (s : World) : World :=
  { s with
    rotated := s.rotated.insert index c
    overwritten := if s.rotated.contains index then s.overwritten ++ [index] else s.overwritten }

def renameRotated (source target : ℕ) : Io Unit := do
  attempt works
  match ← read fun s => s.rotated[source]? with
  | some c => update fun s => insertRotated target c { s with rotated := s.rotated.erase source }
  | none => fail (.error ())

def removeCurrent : Io Unit := do
  attempt works
  match ← read World.current with
  | some _ => update fun s => { s with current := none }
  | none => fail (.error ())

def renameCurrent (target : ℕ) : Io Unit := do
  attempt works
  match ← read World.current with
  | some c => update fun s => insertRotated target c { s with current := none }
  | none => fail (.error ())

/-- The entry and the file type of each name that is one of a rotated file. -/
def listing : List ℕ → Io Unit
  | [] => pure ()
  | _ :: is => do
    attempt works
    attempt works
    listing is

def shiftOne (retain index : ℕ) : Io Unit :=
  if retain ≤ index then removeRotated works index else renameRotated works index (index + 1)

/-- The loop over the indices, from the largest down. -/
def shift (retain : ℕ) : List ℕ → Io Unit
  | [] => pure ()
  | index :: is => do
    shiftOne works retain index
    shift retain is

def closeCurrent (retain : ℕ) : Io Unit := if retain = 0 then removeCurrent works else renameCurrent works 1

def rotate : Io Unit := do
  update fun s => { s with file := false, lastRetain := some s.policy.retain }
  attempt works
  attempt works
  let indices ← read fun s => s.rotated.keys
  listing works indices
  let retain ← read fun s => s.policy.retain
  shift works retain (indices.mergeSort fun a b => decide (b ≤ a))
  closeCurrent works retain
  reopen works

def ensureOpen : Io Unit := do
  if (← read World.file) then pure () else reopen works

def ensureRoom : Io Unit := do
  if (← read fun s => decide (s.policy.maxBytes ≤ s.bytes)) then rotate works else pure ()

/-- `expect("opened above")`. -/
def expectOpen : Io Unit := do
  if (← read World.file) then pure () else fail .panicked

def writeAll (line : Line) : Io Unit := fun s =>
  match attempt works s with
  | (.ok (), s') =>
    (.ok (), { s' with current := s'.current.map (· ++ [line]), bytes := saturate (s'.bytes + line.length) })
  | (.error e, s') => (.error e, { s' with file := false })

def append (line : Line) : Io Unit := do
  ensureOpen works
  ensureRoom works
  expectOpen
  update fun s => { s with found := s.found ++ [(size (s.current.getD []), s.policy.maxBytes)] }
  writeAll works line

inductive Call where
  | append (line : Line)
  | configure (policy : LogConfig)

def step (s : World) : Call → World
  | .append line =>
    match append works line s with
    | (.ok (), s') => { s' with appended := s'.appended ++ [line] }
    | (.error _, s') => s'
  | .configure policy => { s with policy := policy }

def empty : World := ⟨false, 0, .default, none, ∅, 0, [], [], none, []⟩

/-- `Logger::open` on an empty directory; its error is dropped. -/
def opened : World := (reopen works empty).2

end Logger

/-- The lines of `fluxd.log.n`, …, `fluxd.log.1`. -/
def older (files : ℕ → List Line) : ℕ → List Line
  | 0 => []
  | n + 1 => files (n + 1) ++ older files n

/-- The lines of `fluxd.log.{index}`. -/
def World.lines (s : World) (index : ℕ) : List Line := (s.rotated[index]?).getD []

/-- The lines of `fluxd.log.n`, …, `fluxd.log.1`, `fluxd.log` in that order. -/
def World.contents (s : World) (n : ℕ) : List Line := older s.lines n ++ s.current.getD []

end FluxRs.Logging
