import Recompiler.Abort
import Recompiler.Code.Buffer
import Recompiler.Code.MicroOp

/-! Assembling host code. A host encoding describes every micro-operation as a sequence of pieces whose sizes do
not depend on where they come to stand. Assembly writes the pieces one after the other, leaving room where a label
is used, and fills in those fields at the end, when every label has its position. -/

namespace Recompiler

/-- A piece of host code; each is stored whole or not at all. -/
inductive Piece where
  | raw (bytes : List UInt8)
  /-- The 32-bit distance from the end of the field to a host address. -/
  | distance (target : Nat)
  /-- A field that depends on the position of a label. -/
  | label (l : Label)
  deriving DecidableEq, Repr, Inhabited

/-- A way to write micro-operations as host code. -/
structure HostEncoding where
  pieces : MicroOp → List Piece
  /-- Size of a label field. -/
  labelSize : Nat
  /-- Content of the label field at `field` when the label stands at `target`. Both are positions in a block
  whose first byte has the host address `base`. -/
  labelField : (base field target : Nat) → List UInt8

/-- Why host code could not be assembled. -/
inductive EmitError where
  /-- A label is used and stands nowhere. -/
  | unboundLabel (label : Label)
  /-- The shared code does not fit the area set aside for it. -/
  | stubAreaTooSmall (needed available : Nat)
  deriving DecidableEq, Repr, Inhabited

def EmitError.message : EmitError → String
  | unboundLabel label => s!"label {label} used but never bound"
  | stubAreaTooSmall needed available => s!"runtime stubs need {needed} bytes, stub area holds {available}"

/-- Distance from `source` to `target`, modulo 2^32. -/
def distance32 (source target : Nat) : List UInt8 :=
  littleEndian 4 (((target : Int) - source) % 4294967296).toNat

/-- Code under assembly. -/
structure Assembly where
  buffer : CodeBuffer
  /-- Positions of the labels. -/
  bound : Array (Option Nat)
  /-- Fields that wait for a label, in the order they were written. -/
  fields : List (Nat × Label) := []

namespace Assembly

def piece (e : HostEncoding) (a : Assembly) : Piece → Assembly
  | .raw bytes => { a with buffer := a.buffer.emit bytes }
  | .distance target => { a with buffer := a.buffer.emit (distance32 (a.buffer.addr + 4) target) }
  | .label l =>
    { a with
      fields := a.fields ++ [(a.buffer.pos, l)]
      buffer := a.buffer.emit (List.replicate e.labelSize 0) }

/-- Appends one micro-operation; binding a label appends nothing. -/
def op (e : HostEncoding) (a : Assembly) : MicroOp → Except Abort Assembly
  | .bind l =>
    if h : l < a.bound.size then .ok { a with bound := a.bound.set l (some a.buffer.pos) h }
    else .error .outOfRange
  | op => .ok ((e.pieces op).foldl (piece e) a)

/-- Fills in the fields that wait for a label, up to the first one whose label stands nowhere. -/
def resolve (e : HostEncoding) (bound : Array (Option Nat)) :
    List (Nat × Label) → CodeBuffer → Except Abort (Except EmitError Unit × CodeBuffer)
  | [], buffer => .ok (.ok (), buffer)
  | (field, l) :: rest, buffer =>
    match bound[l]? with
    | none => .error .outOfRange
    | some none => .ok (.error (.unboundLabel l), buffer)
    | some (some target) =>
      resolve e bound rest (buffer.patch field (e.labelField buffer.base field target))

end Assembly

/-- Writes micro-operations that use `labels` labels into a buffer. -/
def assemble (e : HostEncoding) (labels : Nat) (ops : List MicroOp) (buffer : CodeBuffer) :
    Except Abort (Except EmitError Unit × CodeBuffer) := do
  let a ← ops.foldlM (Assembly.op e) { buffer, bound := Array.replicate labels none }
  Assembly.resolve e a.bound a.fields a.buffer

end Recompiler
