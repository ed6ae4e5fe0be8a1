import Recompiler.Cache.Store

/-! Linear guest memory as an instruction sees it. Stores pass a watcher, which is the code cache while one exists.
An access that crosses a page is split into bytes; a store looks up both pages before it changes anything. -/

namespace Recompiler

/-- What stores into guest memory go through. -/
class Watcher (κ : Type) where
  /-- Store at a physical address, within one page. -/
  store : κ → Memory → (paddr : UInt32) → Width → (value : UInt32) → Memory × κ

/-- Nothing watches. -/
instance : Watcher Unit where
  store _ mem paddr w value := (mem.writeUnlessRom paddr w value, ())

instance : Watcher Cache where
  store := Cache.write

structure Bus (κ : Type) where
  mem : Memory
  watch : κ

/-- The value of bytes read one by one, up to the first fault. -/
def Memory.fetchBytes (mem : Memory) (linear : UInt32) : (n : Nat) → Except PageFault (List UInt8)
  | 0 => .ok []
  | n + 1 => do
    let paddr ← mem.resolve linear false
    return mem.byte paddr :: (← mem.fetchBytes (linear + 1) n)

/-- Load by single bytes. -/
def Memory.loadBytewise (mem : Memory) (linear : UInt32) (w : Width) : Except PageFault UInt32 :=
  (mem.fetchBytes linear w.bytes).map joinBytes

/-- Load from a linear address. -/
def Memory.loadLinear (mem : Memory) (linear : UInt32) (w : Width) : Except PageFault UInt32 :=
  if fitsInPage linear w then (mem.resolve linear false).map fun paddr => mem.read paddr w
  else mem.loadBytewise linear w

namespace Bus

variable {κ : Type} [Watcher κ]

/-- Store at a physical address. -/
def store (b : Bus κ) (paddr : UInt32) (w : Width) (value : UInt32) : Bus κ :=
  match b with
  | ⟨mem, watch⟩ =>
    let (mem, watch) := Watcher.store watch mem paddr w value
    ⟨mem, watch⟩

/-- Stores bytes one by one, up to the first fault. -/
def storeBytes (b : Bus κ) (linear : UInt32) : List UInt8 → Option PageFault × Bus κ
  | [] => (none, b)
  | value :: rest =>
    match b.mem.resolve linear true with
    | .error fault => (some fault, b)
    | .ok paddr => (b.store paddr .w8 value.toUInt32).storeBytes (linear + 1) rest

/-- Store by single bytes. -/
def writeBytewise (b : Bus κ) (linear : UInt32) (w : Width) (value : UInt32) : Option PageFault × Bus κ :=
  b.storeBytes linear (w.split value)

/-- Store to a linear address. -/
def write (b : Bus κ) (linear : UInt32) (w : Width) (value : UInt32) : Option PageFault × Bus κ :=
  if fitsInPage linear w then
    match b.mem.resolve linear true with
    | .error fault => (some fault, b)
    | .ok paddr => (none, b.store paddr w value)
  else
    match b.mem.resolve linear true, b.mem.resolve (linear + (w.bytes - 1).toUInt32) true with
    | .error fault, _ => (some fault, b)
    | .ok _, .error fault => (some fault, b)
    | .ok _, .ok _ => b.writeBytewise linear w value

end Bus

end Recompiler
