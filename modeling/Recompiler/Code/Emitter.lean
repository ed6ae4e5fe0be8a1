import Recompiler.Code.Slot
import Recompiler.Code.X64
import Recompiler.Settings

/-! Host code of either kind. The shared code stands before all blocks: for machine code the trampoline and the
epilogue, and for both kinds two stubs that leave with the exit codes of the link slots. A slot that is not linked
jumps to its stub. -/

namespace Recompiler

/-- Host addresses of the shared code; threaded code needs no trampoline and no epilogue. -/
structure Stubs where
  trampoline : Nat
  epilogue : Nat
  /-- What an unlinked slot jumps to. -/
  exits : PerSlot Nat
  deriving DecidableEq, Repr

structure Emitter where
  backend : Backend
  /-- Host address of the epilogue, zero before the shared code is written. -/
  epilogue : Nat := 0
  deriving DecidableEq, Repr

namespace Emitter

def encoding (e : Emitter) : HostEncoding :=
  match e.backend with
  | .portable => Threaded.encoding
  | .native => X64.encoding e.epilogue

/-- Writes code without labels. -/
def emit (e : Emitter) (pieces : List Piece) (buffer : CodeBuffer) : CodeBuffer :=
  (pieces.foldl (Assembly.piece e.encoding) { buffer, bound := #[] }).buffer

/-- Writes the stub of a link slot and gives its address. -/
def exitStub (e : Emitter) (slot : Slot) (buffer : CodeBuffer) : Nat × CodeBuffer :=
  (buffer.addr, e.emit (e.encoding.pieces (.exit (.ofSlot slot.index))) buffer)

/-- Writes trampoline and epilogue. -/
def entry (e : Emitter) (buffer : CodeBuffer) : Nat × Emitter × CodeBuffer :=
  match e.backend with
  | .portable => (0, e, buffer)
  | .native =>
    let trampoline := buffer.addr
    let buffer := e.emit X64.trampoline buffer
    let e := { e with epilogue := buffer.addr }
    (trampoline, e, e.emit X64.epilogue buffer)

/-- Writes the shared code. -/
def emitStubs (e : Emitter) (buffer : CodeBuffer) : Except EmitError (Stubs × Emitter × CodeBuffer) :=
  let (trampoline, e, buffer) := e.entry buffer
  let (first, buffer) := e.exitStub .first buffer
  let (second, buffer) := e.exitStub .second buffer
  if buffer.overflowed then .error (.stubAreaTooSmall buffer.pos buffer.capacity)
  else .ok ({ trampoline, epilogue := e.epilogue, exits := ⟨first, second⟩ }, e, buffer)

/-- Writes the micro-operations of a block. -/
def emitBlock (e : Emitter) (labels : Nat) (ops : List MicroOp) (buffer : CodeBuffer) :
    Except Abort (Except EmitError Unit × CodeBuffer) :=
  assemble e.encoding labels ops buffer

end Emitter

end Recompiler
