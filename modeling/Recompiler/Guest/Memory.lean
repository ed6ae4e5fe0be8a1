import Recompiler.Code.Buffer
import Recompiler.Settings

/-! Guest memory: RAM from physical address zero with an attribute byte per page, and the mapping of linear pages
onto it. Reads outside RAM give `0xFF` and writes there are dropped. Linear pages are present and identity-mapped
unless marked otherwise. -/

namespace Recompiler

namespace PageFlag

def readable : UInt8 := 1
def writeable : UInt8 := 2
/-- Writes are discarded. -/
def rom : UInt8 := 4
/-- Never holds compiled code. -/
def noCode : UInt8 := 8

/-- Attributes of ordinary memory. -/
def ram : UInt8 := readable ||| writeable

/-- Whether all bits of `flag` are set. -/
def has (flags flag : UInt8) : Bool :=
  flags &&& flag = flag

end PageFlag

/-- A linear access that cannot be carried out. Bit 0 of the code says that the page is present, bit 1 that the
access was a write. -/
structure PageFault where
  linear : UInt32
  errorCode : UInt32
  deriving DecidableEq, Repr, Inhabited

/-- Page number of an address. -/
def pageOf (addr : UInt32) : UInt32 :=
  addr >>> 12

/-- Offset of an address in its page. -/
def pageOffset (addr : UInt32) : Nat :=
  (addr &&& 0xFFF).toNat

/-- First address of a page. -/
def pageBase (page : UInt32) : UInt32 :=
  page <<< 12

/-- Whether an access stays within one page. -/
def fitsInPage (addr : UInt32) (w : Width) : Bool :=
  pageOffset addr + w.bytes ≤ pageSize

structure Memory where
  /-- A whole number of pages. -/
  ram : ByteArray
  /-- Attributes of the pages of RAM. -/
  flags : Array UInt8
  /-- Linear pages that are not present. -/
  absent : List UInt32 := []
  /-- Linear pages that are present whatever `absent` holds. -/
  pagedIn : List UInt32 := []
  /-- Linear pages that cannot be written. -/
  readOnly : List UInt32 := []
  /-- Linear pages mapped to another physical page. -/
  mapped : List (UInt32 × UInt32) := []
  /-- Physical pages whose code page monitor was withdrawn, oldest first. -/
  released : Array UInt32 := #[]

namespace Memory

/-- Zeroed RAM of at least `size` bytes. -/
def zeroed (size : Nat) : Memory :=
  let pages := (size + pageSize - 1) / pageSize
  { ram := zeroBytes (pages * pageSize), flags := Array.replicate pages PageFlag.ram }

def size (m : Memory) : Nat :=
  m.ram.size

/-- Byte at a physical address. -/
def byte (m : Memory) (paddr : UInt32) : UInt8 :=
  if h : paddr.toNat < m.ram.size then m.ram.get paddr.toNat h else 0xFF

def setByte (m : Memory) (paddr : UInt32) (value : UInt8) : Memory :=
  { m with ram := overwrite m.ram paddr.toNat [value] }

/-- Little-endian value at a physical address; the address wraps around. -/
def read (m : Memory) (paddr : UInt32) (w : Width) : UInt32 :=
  joinBytes ((List.range w.bytes).map fun i => m.byte (paddr + i.toUInt32))

/-- Stores bytes from a physical address on; the address wraps around. -/
def setBytes (m : Memory) (paddr : UInt32) : List UInt8 → Memory
  | [] => m
  | b :: rest => (m.setByte paddr b).setBytes (paddr + 1) rest

/-- Little-endian store at a physical address, whatever the page's attributes. -/
def write (m : Memory) (paddr : UInt32) (w : Width) (value : UInt32) : Memory :=
  m.setBytes paddr (w.split value)

/-- Attributes of a physical page; outside RAM no code may stand. -/
def pageFlags (m : Memory) (page : UInt32) : UInt8 :=
  m.flags.getD page.toNat PageFlag.noCode

/-- Store at a physical address; pages marked read-only memory discard it. -/
def writeUnlessRom (m : Memory) (paddr : UInt32) (w : Width) (value : UInt32) : Memory :=
  if PageFlag.has (m.pageFlags (pageOf paddr)) PageFlag.rom then m else m.write paddr w value

/-- Physical address of a linear address. A page that is not present faults first, then a write to a read-only
page. -/
def resolve (m : Memory) (linear : UInt32) (write : Bool) : Except PageFault UInt32 :=
  let page := pageOf linear
  if !m.pagedIn.contains page && m.absent.contains page then .error ⟨linear, if write then 2 else 0⟩
  else if write && m.readOnly.contains page then .error ⟨linear, 3⟩
  else
    match m.mapped.lookup page with
    | some phys => .ok (pageBase phys ||| (linear &&& 0xFFF))
    | none => .ok linear

def setPresent (m : Memory) (page : UInt32) (present : Bool) : Memory :=
  { m with absent := if present then m.absent.filter (· != page) else page :: m.absent }

/-- Makes a linear page present for good. -/
def pageIn (m : Memory) (page : UInt32) : Memory :=
  { m with pagedIn := page :: m.pagedIn }

/-- Maps a linear page to a physical one. -/
def map (m : Memory) (page phys : UInt32) : Memory :=
  { m with mapped := (page, phys) :: m.mapped }

def protect (m : Memory) (page : UInt32) : Memory :=
  { m with readOnly := page :: m.readOnly }

/-- Notes that a code page monitor was withdrawn from a physical page. -/
def release (m : Memory) (page : UInt32) : Memory :=
  { m with released := m.released.push page }

/-- The bytes of a range that lies in RAM. -/
def bytes? (m : Memory) (paddr len : Nat) : Option (List UInt8) :=
  if paddr + len ≤ m.ram.size then some (slice m.ram paddr (paddr + len)) else none

/-- Fills a range that lies in RAM, whatever the pages' attributes. -/
def load? (m : Memory) (paddr : Nat) (bytes : List UInt8) : Option Memory :=
  if paddr + bytes.length ≤ m.ram.size then some { m with ram := overwrite m.ram paddr bytes } else none

/-- Sets the attributes of a page of RAM. -/
def setFlags? (m : Memory) (page : Nat) (flags : UInt8) : Option Memory :=
  if h : page < m.flags.size then some { m with flags := m.flags.set page flags h } else none

/-- The bytes of a physical page of RAM. -/
def page? (m : Memory) (page : Nat) : Option (List UInt8) :=
  m.bytes? (page * pageSize) pageSize

end Memory

end Recompiler
