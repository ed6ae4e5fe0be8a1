import Recompiler.Guest.Width

/-! Guest registers. A general register may be seen whole, as its low word or byte, or, for the first four,
as its second byte. -/

namespace Recompiler

/-- The 32-bit general registers, in encoding order. -/
inductive Gpr where
  | eax
  | ecx
  | edx
  | ebx
  | esp
  | ebp
  | esi
  | edi
  deriving DecidableEq, Repr, Inhabited

namespace Gpr

/-- Position of a register in encoding order. -/
def index : Gpr → Fin 8
  | eax => 0
  | ecx => 1
  | edx => 2
  | ebx => 3
  | esp => 4
  | ebp => 5
  | esi => 6
  | edi => 7

/-- The register at a position of the encoding order. -/
def ofIndex : Fin 8 → Gpr
  | 0 => eax
  | 1 => ecx
  | 2 => edx
  | 3 => ebx
  | 4 => esp
  | 5 => ebp
  | 6 => esi
  | 7 => edi

/-- The register with a given number. -/
def ofNat? (n : Nat) : Option Gpr :=
  if h : n < 8 then some (ofIndex ⟨n, h⟩) else none

@[simp] theorem ofIndex_index (g : Gpr) : ofIndex g.index = g := by
  cases g <;> rfl

end Gpr

/-- A view of a general register. With `high8` a byte-wide view is bits 8 to 15 instead of bits 0 to 7; wider
views ignore it. -/
structure Reg where
  gpr : Gpr
  width : Width
  high8 : Bool := false
  deriving DecidableEq, Repr, Inhabited

/-- Segment registers, in encoding order. -/
inductive Seg where
  | es
  | cs
  | ss
  | ds
  | fs
  | gs
  deriving DecidableEq, Repr, Inhabited

namespace Seg

/-- Position of a segment register in encoding order. -/
def index : Seg → Fin 6
  | es => 0
  | cs => 1
  | ss => 2
  | ds => 3
  | fs => 4
  | gs => 5

/-- The segment register at a position of the encoding order. -/
def ofIndex : Fin 6 → Seg
  | 0 => es
  | 1 => cs
  | 2 => ss
  | 3 => ds
  | 4 => fs
  | 5 => gs

/-- The segment register with a given number. -/
def ofNat? (n : Nat) : Option Seg :=
  if h : n < 6 then some (ofIndex ⟨n, h⟩) else none

@[simp] theorem ofIndex_index (s : Seg) : ofIndex s.index = s := by
  cases s <;> rfl

end Seg

end Recompiler
