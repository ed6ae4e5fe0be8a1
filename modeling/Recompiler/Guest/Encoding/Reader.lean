import Recompiler.Guest.Width

/-! Reading an instruction byte by byte. A reader looks at no byte beyond the position it has reached, and no
instruction is longer than fifteen bytes, so what a reader returns depends only on the bytes it consumed. -/

namespace Recompiler.Encoding

/-- Architectural bound on the length of one instruction. -/
def maxLength : Nat := 15

/-- Why reading stops before an instruction is complete. -/
inductive Shortage where
  /-- The available bytes ran out. -/
  | endOfBytes
  /-- The instruction would be longer than `maxLength`. -/
  | tooLong
  deriving DecidableEq, Repr, Inhabited

/-- A computation on the bytes of one instruction. The second argument and the second result are positions:
how many bytes have been consumed before and after. -/
def Reader (α : Type) : Type :=
  List UInt8 → Nat → Except Shortage (α × Nat)

namespace Reader

instance : Monad Reader where
  pure a := fun _ pos => .ok (a, pos)
  bind r f := fun bytes pos =>
    match r bytes pos with
    | .ok (a, pos') => f a bytes pos'
    | .error e => .error e

/-- The number of bytes consumed so far. -/
def position : Reader Nat :=
  fun _ pos => .ok (pos, pos)

/-- The next byte. -/
def byte : Reader UInt8 :=
  fun bytes pos =>
    if maxLength ≤ pos then .error .tooLong
    else match bytes[pos]? with
      | some b => .ok (b, pos + 1)
      | none => .error .endOfBytes

/-- The next `n` bytes. -/
def bytes : Nat → Reader (List UInt8)
  | 0 => pure []
  | n + 1 => do
    let b ← byte
    let rest ← bytes n
    pure (b :: rest)

/-- Passes over `n` bytes. -/
def skip (n : Nat) : Reader Unit := do
  let _ ← bytes n
  pure ()

/-- The next bytes of a width, as a zero-extended word. -/
def word (w : Width) : Reader UInt32 := do
  let bs ← bytes w.bytes
  pure (joinBytes bs)

/-- The next bytes of a width, as a sign-extended word. -/
def signedWord (w : Width) : Reader UInt32 := do
  let v ← word w
  pure (w.signExtend v)

end Reader

end Recompiler.Encoding
