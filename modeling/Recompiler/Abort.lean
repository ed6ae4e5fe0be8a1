/-! Ways an operation can stop without an answer. None of them is an error that a caller is meant to handle: each
means that an operation was used outside its domain, or that a bound on a run was too small. -/

namespace Recompiler

inductive Abort where
  /-- A handle, a page or a byte range outside its pool. -/
  | outOfRange
  /-- A block was to be closed while none was open. -/
  | noOpenBlock
  /-- Every code page monitor is in use and none may be recycled. -/
  | noMonitor
  /-- The reference interpreter met an instruction outside its subset. -/
  | uninterpretable
  /-- A count of cycles does not fit its 32 bits. -/
  | overflow
  /-- The bound on the number of steps was reached. -/
  | outOfFuel
  deriving DecidableEq, Repr, Inhabited

end Recompiler
