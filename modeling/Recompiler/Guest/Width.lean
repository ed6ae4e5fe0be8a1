/-! Operand widths of guest operations. A width fixes how many low bits of a 32-bit word take part in an
operation; the bytes of a word are taken least significant first. -/

namespace Recompiler

/-- Operand width of a guest operation. -/
inductive Width where
  | w8
  | w16
  | w32
  deriving DecidableEq, Repr, Inhabited

namespace Width

/-- Size in bytes. -/
def bytes : Width → Nat
  | w8 => 1
  | w16 => 2
  | w32 => 4

/-- Size in bits. -/
def bits (w : Width) : Nat :=
  8 * w.bytes

/-- The word whose low `bits` bits are set. -/
def mask : Width → UInt32
  | w8 => 0xFF
  | w16 => 0xFFFF
  | w32 => 0xFFFFFFFF

/-- The word whose only set bit is the most significant one of the width. -/
def signBit : Width → UInt32
  | w8 => 0x80
  | w16 => 0x8000
  | w32 => 0x80000000

/-- Extends the low `bits` bits of a word to 32 bits, copying the sign bit upwards. -/
def signExtend (w : Width) (value : UInt32) : UInt32 :=
  if value &&& w.signBit = 0 then value &&& w.mask else value ||| ~~~w.mask

/-- The width of a given number of bytes. -/
def ofBytes? : Nat → Option Width
  | 1 => some w8
  | 2 => some w16
  | 4 => some w32
  | _ => none

@[simp] theorem ofBytes?_bytes (w : Width) : ofBytes? w.bytes = some w := by
  cases w <;> rfl

end Width

/-- The byte of a word at position `i`, counted from the least significant one. -/
def byteAt (value : UInt32) (i : Nat) : UInt8 :=
  (value >>> (8 * i).toUInt32).toUInt8

/-- The low bytes of a word, least significant first. -/
def Width.split (w : Width) (value : UInt32) : List UInt8 :=
  (List.range w.bytes).map (byteAt value)

/-- The word with the given bytes, least significant first. -/
def joinBytes : List UInt8 → UInt32
  | [] => 0
  | b :: rest => b.toUInt32 ||| (joinBytes rest <<< 8)

end Recompiler
