import Recompiler.Code.Buffer
import Recompiler.Settings

/-! The memory that holds host code: a page for the shared code, then the spans of the blocks, then some slack so
that the last span may run past its nominal end. The size is a whole number of pages. -/

namespace Recompiler

structure Arena where
  bytes : ByteArray
  protection : Protection

namespace Arena

/-- Bytes set aside for the shared code. -/
def stubArea : Nat := pageSize

/-- Offset of the first span. -/
def blocksStart : Nat := stubArea

/-- A zeroed arena for `cacheSize` bytes of blocks. -/
def allocate (cacheSize slack : Nat) (protection : Protection) : Arena :=
  let pages := (stubArea + cacheSize + slack + pageSize - 1) / pageSize
  { bytes := zeroBytes (pages * pageSize), protection }

def size (a : Arena) : Nat :=
  a.bytes.size

/-- Whether a range lies in the arena. -/
def contains (a : Arena) (first last : Nat) : Bool :=
  first ≤ last && last ≤ a.size

/-- Overwrites the start of a range; bytes beyond its end are cut off. -/
def write? (a : Arena) (first last : Nat) (bytes : List UInt8) : Option Arena :=
  if a.contains first last then
    some { a with bytes := overwrite a.bytes first (bytes.take (last - first)) }
  else none

def read? (a : Arena) (first last : Nat) : Option (List UInt8) :=
  if a.contains first last then some (slice a.bytes first last) else none

end Arena

end Recompiler
