import Recompiler.Dispatch.Loop
import Recompiler.Text.Record

/-! The recompiler of one emulated processor. It is created disabled; initialisation allocates the arena and the
pools. While it is disabled every slice goes to the interpreter. -/

namespace Recompiler

/-- What exists only while the recompiler is enabled. -/
structure Resources where
  cache : Cache
  code : HostCode

structure Core where
  settings : Settings
  resources : Option Resources := none
  /-- The last interrupt return set the trap flag, and the next run takes a single step. -/
  trap : Bool := false
  stats : Stats := {}

/-- A recompiler with the machine it runs on. -/
structure Machine (σ : Type) where
  core : Core
  cpu : Cpu
  mem : Memory
  host : σ

namespace Core

def enabled (c : Core) : Bool :=
  c.resources.isSome

/-- Builds arena and pools if the recompiler is to be enabled and is not yet. -/
def enable (c : Core) (on : Bool) : Except CoreError Core :=
  if c.enabled || !on then .ok c
  else
    match c.settings.check with
    | .error e => .error (.settings e)
    | .ok () =>
      match HostCode.create c.settings with
      | .error e => .error (.emit e)
      | .ok code =>
        let cache := Cache.create c.settings code.base Arena.blocksStart code.stubs.exits
        .ok { c with resources := some { cache, code } }

/-- Drops all compiled code and the arena. -/
def shutdown (c : Core) : Core :=
  if c.enabled then { c with resources := none, trap := false } else c

end Core

namespace Machine

variable {σ : Type}

/-- Result of an operation on a machine; an error keeps the state. -/
abbrev Result (σ α : Type) := Except Abort (Except CoreError α × Machine σ)

/-- Puts a machine together again after its engine ran. -/
def ofEngine (settings : Settings) : Engine σ → Machine σ
  | ⟨⟨cpu, ⟨mem, cache⟩, host⟩, code, stats, trap⟩ =>
    { core := { settings, resources := some ⟨cache, code⟩, trap, stats }, cpu, mem, host }

/-- Store to a linear address, seen by the code cache. -/
def write (m : Machine σ) (linear : UInt32) (w : Width) (value : UInt32) : Option PageFault × Machine σ :=
  match m with
  | ⟨⟨settings, some ⟨cache, code⟩, trap, stats⟩, cpu, mem, host⟩ =>
    match (Bus.mk mem cache).write linear w value with
    | (fault, ⟨mem, cache⟩) => (fault, ⟨⟨settings, some ⟨cache, code⟩, trap, stats⟩, cpu, mem, host⟩)
  | ⟨⟨settings, none, trap, stats⟩, cpu, mem, host⟩ =>
    match (Bus.mk mem ()).write linear w value with
    | (fault, ⟨mem, ()⟩) => (fault, ⟨⟨settings, none, trap, stats⟩, cpu, mem, host⟩)

/-- Store by single bytes, seen by the code cache. -/
def writeBytewise (m : Machine σ) (linear : UInt32) (w : Width) (value : UInt32) : Option PageFault × Machine σ :=
  match m with
  | ⟨⟨settings, some ⟨cache, code⟩, trap, stats⟩, cpu, mem, host⟩ =>
    match (Bus.mk mem cache).writeBytewise linear w value with
    | (fault, ⟨mem, cache⟩) => (fault, ⟨⟨settings, some ⟨cache, code⟩, trap, stats⟩, cpu, mem, host⟩)
  | ⟨⟨settings, none, trap, stats⟩, cpu, mem, host⟩ =>
    match (Bus.mk mem ()).writeBytewise linear w value with
    | (fault, ⟨mem, ()⟩) => (fault, ⟨⟨settings, none, trap, stats⟩, cpu, mem, host⟩)

/-- Runs something on the guest, with the stores seen by the code cache if there is one. -/
def onGuest {α : Type} (f : {κ : Type} → [Watcher κ] → Guest κ σ → Except Abort (α × Guest κ σ)) (m : Machine σ) :
    Except Abort (α × Machine σ) :=
  match m with
  | ⟨⟨settings, some ⟨cache, code⟩, trap, stats⟩, cpu, mem, host⟩ =>
    match f ⟨cpu, ⟨mem, cache⟩, host⟩ with
    | .error abort => .error abort
    | .ok (a, ⟨cpu, ⟨mem, cache⟩, host⟩) => .ok (a, ⟨⟨settings, some ⟨cache, code⟩, trap, stats⟩, cpu, mem, host⟩)
  | ⟨⟨settings, none, trap, stats⟩, cpu, mem, host⟩ =>
    match f ⟨cpu, ⟨mem, ()⟩, host⟩ with
    | .error abort => .error abort
    | .ok (a, ⟨cpu, ⟨mem, ()⟩, host⟩) => .ok (a, ⟨⟨settings, none, trap, stats⟩, cpu, mem, host⟩)

/-- Runs one instruction in the interpreter and raises a debug exception after it, unless the interpreter asks not
to. -/
def trapStep {κ : Type} [Watcher κ] (p : Platform σ) : Guest κ σ → Except Abort (CoreExit × Guest κ σ)
  | ⟨cpu, bus, host⟩ =>
    let old := cpu.cycles
    match p.runNormal ⟨{ cpu with cycles := 1, trapSkip := false }, bus, host⟩ with
    | .error abort => .error abort
    | .ok (exit, guest) =>
      let guest := if guest.cpu.trapSkip then guest else p.raiseException debugException none guest
      (Cycles.spend old).map fun left => (exit, guest.setCycles left)

/-- Runs guest code until the cycle budget is used up or the platform has to act. -/
def run (p : Platform σ) (fuel : Nat) (m : Machine σ) : Result σ CoreExit :=
  match m with
  | ⟨⟨settings, resources, true, stats⟩, cpu, mem, host⟩ =>
    let stats := { stats with interpreterSteps := stats.interpreterSteps + 1 }
    (onGuest (trapStep p) ⟨⟨settings, resources, false, stats⟩, cpu, mem, host⟩).map fun (exit, m) => (.ok exit, m)
  | ⟨⟨settings, none, false, stats⟩, cpu, mem, host⟩ =>
    let stats := { stats with interpreterRuns := stats.interpreterRuns + 1 }
    (onGuest p.runNormal ⟨⟨settings, none, false, stats⟩, cpu, mem, host⟩).map fun (exit, m) => (.ok exit, m)
  | ⟨⟨settings, some ⟨cache, code⟩, false, stats⟩, cpu, mem, host⟩ =>
    (Engine.dispatch p fuel .lookup ⟨⟨cpu, ⟨mem, cache⟩, host⟩, code, stats, false⟩).map fun (r, e) =>
      (r, ofEngine settings e)

/-- The block at the instruction pointer, compiled if there is none. None while the recompiler is disabled, and
where code is absent, forbidden or overwritten too often. -/
def prepareBlock (m : Machine σ) : Result σ (Option BlockId) :=
  match m with
  | ⟨⟨settings, none, trap, stats⟩, cpu, mem, host⟩ => .ok (.ok none, ⟨⟨settings, none, trap, stats⟩, cpu, mem, host⟩)
  | ⟨⟨settings, some ⟨cache, code⟩, trap, stats⟩, cpu, mem, host⟩ =>
    match cache.codePage mem cpu.ipLinear cpu.codeBig none with
    | .error abort => .error abort
    | .ok (.error _, mem, cache) => .ok (.ok none, ⟨⟨settings, some ⟨cache, code⟩, trap, stats⟩, cpu, mem, host⟩)
    | .ok (.ok none, mem, cache) => .ok (.ok none, ⟨⟨settings, some ⟨cache, code⟩, trap, stats⟩, cpu, mem, host⟩)
    | .ok (.ok (some mon), mem, cache) =>
      let e : Engine σ := ⟨⟨cpu, ⟨mem, cache⟩, host⟩, code, stats, trap⟩
      match e.cache.find mon (pageOffset cpu.ipLinear) with
      | some id => .ok (.ok (some id), ofEngine settings e)
      | none =>
        if e.heavy mon then .ok (.ok none, ofEngine settings e)
        else (e.compile mon).map fun (r, e) => (r.map some, ofEngine settings e)

/-- Runs a block, and what it is linked to, without acting on the way it leaves. -/
def executeBlock (p : Platform σ) (fuel : Nat) (id : BlockId) (m : Machine σ) : Result σ ExitCode :=
  match m with
  | ⟨⟨settings, none, trap, stats⟩, cpu, mem, host⟩ =>
    .ok (.ok .opcode, ⟨⟨settings, none, trap, stats⟩, cpu, mem, host⟩)
  | ⟨⟨settings, some ⟨cache, code⟩, trap, stats⟩, cpu, mem, host⟩ =>
    (Engine.enter p fuel id ⟨⟨cpu, ⟨mem, cache⟩, host⟩, code, stats, trap⟩).map fun (r, e) =>
      (r.map (·.code), ofEngine settings e)

end Machine

end Recompiler
