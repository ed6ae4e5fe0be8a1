import Recompiler.Guest.Encoding.OpcodeMap
import Recompiler.Text.Record

/-! Decoding one guest instruction from the bytes at its instruction pointer. -/

namespace Recompiler

/-- Why no instruction could be decoded. -/
inductive DecodeError where
  /-- There were no bytes at all. -/
  | empty
  /-- The bytes end before the instruction at `ip` does. -/
  | truncated (ip : UInt32)
  deriving DecidableEq, Repr, Inhabited

def DecodeError.message : DecodeError → String
  | empty => "instruction buffer is empty"
  | truncated ip => "instruction at " ++ Text.hex ip.toNat ++ " continues past the available bytes"

namespace Encoding

/-- Reads what follows the first opcode byte: the form its map selects. -/
def readOpcode (ctx : Context) (op : UInt8) : Reader Decoded :=
  if op = 0x0F then do
    let second ← Reader.byte
    (twoByte ctx.opWidth second.toNat).read ctx
  else
    (oneByte ctx.opWidth op.toNat).read ctx

/-- Reads one instruction: prefixes, opcode and operands. -/
def readInstruction (ip : UInt32) (code32 : Bool) : Reader (Prefixes × Decoded) := do
  let (p, op) ← Prefixes.read maxLength {}
  let decoded ← readOpcode (.of ip code32 p) op
  pure (p, decoded)

/-- Kind and width of an instruction that has been read. A lock prefix makes an instruction that does not
accept it undefined, and one that does accept it loses its lowering. -/
def classify (code32 : Bool) (p : Prefixes) : Decoded → Kind × Width
  | .undefined => (.invalid, .w8)
  | .defined lockable lowering =>
    let opWidth := (Context.of 0 code32 p).opWidth
    if p.lock then
      if lockable then (.other, opWidth) else (.invalid, .w8)
    else lowering.getD (.other, opWidth)

end Encoding

open Encoding in
/-- Decodes the instruction that starts with the first byte. The callback trap is `FE 38` and a 16-bit number.
An instruction that would pass the length limit is undefined. -/
def decode (bytes : List UInt8) (ip : UInt32) (code32 : Bool) : Except DecodeError Instruction :=
  match bytes with
  | [] => .error .empty
  | 0xFE :: 0x38 :: rest =>
    match rest with
    | lo :: hi :: _ => .ok { ip, len := 4, width := .w16, kind := .callback (joinBytes [lo, hi]).toUInt16 }
    | _ => .error (.truncated ip)
  | bytes =>
    match readInstruction ip code32 bytes 0 with
    | .ok ((p, decoded), len) =>
      let (kind, width) := classify code32 p decoded
      .ok { ip, len, width, kind }
    | .error .endOfBytes => .error (.truncated ip)
    | .error .tooLong => .ok { ip, len := maxLength, width := .w8, kind := .invalid }

end Recompiler
