/-! Settings of the recompiler and the combinations that it refuses. -/

namespace Recompiler

/-- Size of a guest page in bytes. -/
def pageSize : Nat := 4096

/-- Bits of an address below the page number. -/
def pageShift : Nat := 12

/-- How the memory that holds host code is protected. -/
inductive Protection where
  /-- Readable, writable and executable all the time. -/
  | always
  /-- Writable only while code is emitted, executable otherwise. -/
  | exclusive
  deriving DecidableEq, Repr, Inhabited

/-- The kind of host code that is generated. -/
inductive Backend where
  /-- Machine code of the host processor. -/
  | native
  /-- Threaded code, run by a small interpreter on any host. -/
  | portable
  deriving DecidableEq, Repr, Inhabited

/-- Sizes are in bytes where nothing else is said. -/
structure Settings where
  /-- Host code the arena can hold. -/
  cacheSize : Nat := 8 * 1024 * 1024
  /-- Least span handed out for a new block, and the slack after the last span. -/
  maxBlockSize : Nat := 8 * 1024
  /-- Number of block descriptors. -/
  blockCount : Nat := 128 * 1024
  /-- Number of code page monitors. -/
  codePages : Nat := 512
  /-- Boundary on which unused space is split off a span. -/
  align : Nat := 16
  /-- Blocks of a page are hashed by their start shifted right by so much. -/
  hashShift : Nat := 4
  /-- Most guest instructions compiled into one block. -/
  maxInstructions : Nat := 32
  /-- Overwrites after which a byte counts as data. -/
  overwriteThreshold : Nat := 4
  /-- Stores outside code after which a page without blocks is released. -/
  releaseDelay : Nat := 16
  /-- Length of a block's write mask when it is first needed. -/
  maskInitialLen : Nat := 64
  /-- Factor by which a write mask grows. -/
  maskGrowth : Nat := 4
  protection : Protection := .always
  backend : Backend := .native
  deriving DecidableEq, Repr, Inhabited

/-- Why settings are refused. -/
inductive SettingsError where
  | notPowerOfTwo (field : String) (value : Nat)
  | zero (field : String)
  | cacheTooSmall (cacheSize maxBlockSize : Nat)
  | hashShift (shift : Nat)
  | tooFewPages (pages : Nat)
  deriving DecidableEq, Repr, Inhabited

namespace SettingsError

def message : SettingsError → String
  | notPowerOfTwo field value => s!"{field} must be a power of two (got {value})"
  | zero field => s!"{field} must be non-zero"
  | cacheTooSmall cacheSize maxBlockSize =>
    s!"cache_size ({cacheSize}) must be at least twice max_block_size ({maxBlockSize})"
  | hashShift shift => s!"hash_shift {shift} leaves no page hash buckets"
  | tooFewPages pages => s!"code_pages must be at least 2 (got {pages})"

end SettingsError

namespace Settings

/-- A small cache: 256 KiB of code, 4096 blocks, 32 pages. -/
def small : Settings :=
  { cacheSize := 256 * 1024, blockCount := 4096, codePages := 32 }

/-- Buckets of a page's block hash; the first one holds the parts of blocks that began on another page. -/
def hashBuckets (s : Settings) : Nat :=
  1 + (pageSize >>> s.hashShift)

/-- Whether a number is a power of two. -/
def isPowerOfTwo (n : Nat) : Bool :=
  n ≠ 0 ∧ 1 <<< n.log2 = n

/-- The first reason to refuse the settings, in the order of the fields. -/
def check (s : Settings) : Except SettingsError Unit :=
  if !isPowerOfTwo s.maxBlockSize then .error (.notPowerOfTwo "max_block_size" s.maxBlockSize)
  else if !isPowerOfTwo s.align then .error (.notPowerOfTwo "align" s.align)
  else if s.blockCount = 0 then .error (.zero "block_count")
  else if s.maxInstructions = 0 then .error (.zero "max_instructions")
  else if s.maskInitialLen = 0 then .error (.zero "mask_initial_len")
  else if s.maskGrowth = 0 then .error (.zero "mask_growth")
  else if s.releaseDelay = 0 then .error (.zero "release_delay")
  else if s.overwriteThreshold = 0 then .error (.zero "heavy_rewrite_threshold")
  else if s.cacheSize < 2 * s.maxBlockSize then .error (.cacheTooSmall s.cacheSize s.maxBlockSize)
  else if pageShift ≤ s.hashShift then .error (.hashShift s.hashShift)
  else if s.codePages < 2 then .error (.tooFewPages s.codePages)
  else .ok ()

/-- Settings the recompiler works with. -/
def Valid (s : Settings) : Prop :=
  s.check = .ok ()

end Settings

end Recompiler
