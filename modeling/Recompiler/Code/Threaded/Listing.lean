import Recompiler.Code.Threaded.Decode

/-! A listing of the threaded code in a span, one operation after the other. Jump targets are shown relative to the
start of the span, link entries as zero. -/

namespace Recompiler.Threaded

/-- Size of the operation with a given opcode, the opcode included. -/
def operationSize : Nat → Option Nat
  | 1 | 4 | 5 | 11 | 16 | 18 | 19 | 21 | 23 => some 5
  | 2 | 7 | 8 => some 6
  | 3 => some 8
  | 6 | 10 => some 3
  | 9 | 22 | 24 => some 10
  | 12 | 13 | 14 | 15 => some 4
  | 17 | 20 => some 2
  | _ => none

/-- The number with the given little-endian bytes. -/
def ofLittleEndian : List UInt8 → Nat
  | [] => 0
  | b :: rest => b.toNat + 256 * ofLittleEndian rest

/-- Number of host addresses, which is what jump targets wrap at. -/
def addressSpace : Nat := 0x10000000000000000

/-- One line of a listing: the bytes of an operation, or nothing where none can be read. -/
abbrev Line := Option (List UInt8)

/-- Lists the operations of `code` from `pos` on, up to its end or the first exit or link that lies behind all jump
targets seen so far. `base` is the host address of the span; `fuel` bounds the number of lines. -/
def list (base : Nat) (code : List UInt8) : (fuel pos : Nat) → (targets : List Nat) → List Line
  | 0, _, _ => []
  | fuel + 1, pos, targets =>
    let rest := code.drop pos
    if rest.isEmpty then []
    else match rest.head?.bind fun opcode => (operationSize opcode.toNat).map (opcode.toNat, ·) with
    | none => [none]
    | some (opcode, size) =>
      if rest.length < size then [none]
      else
        let op := rest.take size
        let next := pos + size
        match opcode with
        | 22 =>
          let target := (ofLittleEndian (op.drop 2) + addressSpace - base % addressSpace) % addressSpace
          some (op.take 2 ++ littleEndian 8 target) :: list base code fuel next (target :: targets)
        | 24 =>
          some (op.take 2 ++ List.replicate 8 0) ::
            (if targets.all (· < next) then [] else list base code fuel next targets)
        | 23 => some op :: (if targets.all (· < next) then [] else list base code fuel next targets)
        | _ => some op :: list base code fuel next targets

/-- The listing of a whole span; every operation takes at least one byte. -/
def listing (base : Nat) (code : List UInt8) : List Line :=
  list base code (code.length + 1) 0 []

end Recompiler.Threaded
