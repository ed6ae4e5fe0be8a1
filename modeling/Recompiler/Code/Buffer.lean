import Recompiler.Guest.Width

/-! Writing host code. A buffer is a window on a store of bytes with a cursor that only moves forward. Writing
past the end of the window is not refused: nothing is stored, but the cursor keeps moving, so that the size of
what did not fit is known afterwards. -/

namespace Recompiler

/-- Overwrites bytes of a store from an index on; those that would lie outside are dropped. -/
def overwrite (store : ByteArray) (index : Nat) : List UInt8 → ByteArray
  | [] => store
  | b :: rest => overwrite (if h : index < store.size then store.set index b h else store) (index + 1) rest

/-- The `n` low bytes of a number, least significant first. -/
def littleEndian : (n : Nat) → Nat → List UInt8
  | 0, _ => []
  | n + 1, value => value.toUInt8 :: littleEndian n (value / 256)

/-- A store of zero bytes. -/
def zeroBytes (n : Nat) : ByteArray :=
  ⟨Array.replicate n 0⟩

/-- The bytes of a store from `first` up to `last`, the latter excluded. -/
def slice (store : ByteArray) (first last : Nat) : List UInt8 :=
  (store.extract first last).data.toList

structure CodeBuffer where
  store : ByteArray
  /-- Index of the window's first byte in the store. -/
  start : Nat
  capacity : Nat
  /-- Host address of the window's first byte. -/
  base : Nat
  /-- Cursor, from the start of the window. -/
  pos : Nat := 0

namespace CodeBuffer

/-- A buffer over a store of its own. -/
def fresh (capacity base : Nat) : CodeBuffer :=
  { store := zeroBytes capacity, start := 0, capacity, base }

/-- Host address of the cursor. -/
def addr (b : CodeBuffer) : Nat :=
  b.base + b.pos

def overflowed (b : CodeBuffer) : Bool :=
  b.capacity < b.pos

/-- Appends bytes, all or none of which are stored. -/
def emit (b : CodeBuffer) (bytes : List UInt8) : CodeBuffer :=
  let stop := b.pos + bytes.length
  if stop ≤ b.capacity then { b with store := overwrite b.store (b.start + b.pos) bytes, pos := stop }
  else { b with pos := stop }

/-- Overwrites bytes of the window without moving the cursor. -/
def patch (b : CodeBuffer) (position : Nat) (bytes : List UInt8) : CodeBuffer :=
  if position + bytes.length ≤ b.capacity then
    { b with store := overwrite b.store (b.start + position) bytes }
  else b

/-- What has been written, as far as it fits. -/
def written (b : CodeBuffer) : List UInt8 :=
  slice b.store b.start (b.start + min b.pos b.capacity)

end CodeBuffer

end Recompiler
