import Recompiler.Code.MicroOp
import Recompiler.Text.Record

/-! The printed form of micro-operations, one to a line. -/

namespace Recompiler

open Text (record tuple)

def Width.text : Width → String
  | w8 => "W8"
  | w16 => "W16"
  | w32 => "W32"

def Gpr.text : Gpr → String
  | eax => "Eax"
  | ecx => "Ecx"
  | edx => "Edx"
  | ebx => "Ebx"
  | esp => "Esp"
  | ebp => "Ebp"
  | esi => "Esi"
  | edi => "Edi"

def Seg.text : Seg → String
  | es => "Es"
  | cs => "Cs"
  | ss => "Ss"
  | ds => "Ds"
  | fs => "Fs"
  | gs => "Gs"

def Reg.text (r : Reg) : String :=
  record "Reg" [("gpr", r.gpr.text), ("width", r.width.text), ("high8", Text.bool r.high8)]

def Address.text (a : Address) : String :=
  record "Address"
    [("seg", a.seg.text), ("base", Text.option (a.base.map Gpr.text)),
      ("index", Text.option (a.index.map Gpr.text)), ("scale", toString a.scale.toNat),
      ("disp", toString a.disp.toNat), ("addr16", Text.bool a.addr16)]

def AluOp.text : AluOp → String
  | add => "Add"
  | or => "Or"
  | adc => "Adc"
  | sbb => "Sbb"
  | and => "And"
  | sub => "Sub"
  | xor => "Xor"
  | cmp => "Cmp"
  | test => "Test"

def UnaryOp.text : UnaryOp → String
  | inc => "Inc"
  | dec => "Dec"
  | neg => "Neg"
  | not => "Not"

def Cond.text : Cond → String
  | o => "O"
  | no => "No"
  | b => "B"
  | ae => "Ae"
  | e => "E"
  | ne => "Ne"
  | be => "Be"
  | a => "A"
  | s => "S"
  | ns => "Ns"
  | p => "P"
  | np => "Np"
  | l => "L"
  | ge => "Ge"
  | le => "Le"
  | g => "G"

def Tmp.text : Tmp → String
  | t0 => "T0"
  | t1 => "T1"
  | t2 => "T2"

def ExitCode.text : ExitCode → String
  | normal => "Normal"
  | cycles => "Cycles"
  | link1 => "Link1"
  | link2 => "Link2"
  | opcode => "Opcode"
  | opcodeFull => "OpcodeFull"
  | iret => "Iret"
  | callback => "Callback"
  | smcBlock => "SmcBlock"

def Action.text : Action → String
  | enter block => record "Enter" [("block", tuple "BlockId" (toString block.toNat))]
  | loadImm dst value => record "LoadImm" [("dst", dst.text), ("value", toString value.toNat)]
  | loadPhys dst paddr width signExtend =>
    record "LoadPhys"
      [("dst", dst.text), ("paddr", toString paddr.toNat), ("width", width.text),
        ("sign_extend", Text.bool signExtend)]
  | loadReg dst reg => record "LoadReg" [("dst", dst.text), ("reg", reg.text)]
  | storeReg reg src => record "StoreReg" [("reg", reg.text), ("src", src.text)]
  | mov dst src => record "Mov" [("dst", dst.text), ("src", src.text)]
  | addImm dst value => record "AddImm" [("dst", dst.text), ("value", toString value.toNat)]
  | andImm dst value => record "AndImm" [("dst", dst.text), ("value", toString value.toNat)]
  | lea dst addr => record "Lea" [("dst", dst.text), ("addr", addr.text)]
  | addSegBase dst seg => record "AddSegBase" [("dst", dst.text), ("seg", seg.text)]
  | alu op width dst src =>
    record "Alu" [("op", op.text), ("width", width.text), ("dst", dst.text), ("src", src.text)]
  | unary op width dst => record "Unary" [("op", op.text), ("width", width.text), ("dst", dst.text)]
  | load dst addr width => record "Load" [("dst", dst.text), ("addr", addr.text), ("width", width.text)]
  | store addr src width => record "Store" [("addr", addr.text), ("src", src.text), ("width", width.text)]
  | div width signed divisor =>
    record "CallDiv" [("width", width.text), ("signed", Text.bool signed), ("divisor", divisor.text)]
  | interpret nextEip => record "CallInterpret" [("next_eip", toString nextEip.toNat)]
  | iret width => record "CallIret" [("width", width.text)]
  | subCycles n => tuple "SubCycles" (toString n.toNat)
  | setEip eip => tuple "SetEip" (toString eip.toNat)
  | storeEip src => record "StoreEip" [("src", src.text)]
  | setCallback n => tuple "SetCallback" (toString n.toNat)

def MicroOp.text : MicroOp → String
  | act a => a.text
  | jumpIf cond label => record "JumpIf" [("cond", cond.text), ("label", tuple "Label" (toString label))]
  | bind label => tuple "Bind" (tuple "Label" (toString label))
  | exit code => tuple "Exit" code.text
  | link slot entry => record "Link" [("slot", toString slot), ("entry", toString entry.toNat)]

/-- The listing of a block. -/
def MicroOp.listing (ops : List MicroOp) : String :=
  String.join (ops.map fun op => op.text ++ "\n")

end Recompiler
