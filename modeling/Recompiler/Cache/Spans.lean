import Recompiler.Cache.Clear
import Recompiler.Error

/-! Spans of the arena. They stand back to back. A new block takes the span at the cursor and grows it over its
successors until it is large enough; closing it splits off what was not used and moves the cursor on, back to the
first span near the end of the arena. What lived in a span that is taken again is cleared first. -/

namespace Recompiler.Cache

/-- Takes a free descriptor, blank. -/
def allocate (c : Cache) : Except CoreError (BlockId × Cache) :=
  match c.freeHead with
  | none => .error .outOfBlocks
  | some id =>
    let next := (c.block id).freeNext
    .ok (id, { c.modifyBlock id fun _ => {} with freeHead := next })

/-- Joins spans to one of `size` bytes until it has the least size of a new block. Gives the size reached and the
span that follows. -/
def absorb : (fuel : Nat) → (size : Nat) → Option BlockId → Cache → Nat × Option BlockId × Cache
  | 0, size, next, c => (size, next, c)
  | fuel + 1, size, next, c =>
    if c.settings.maxBlockSize ≤ size then (size, next, c)
    else
      match next with
      | none => (size, none, c)
      | some n =>
        let b := c.block n
        absorb fuel (size + b.codeSize) b.arenaNext ((c.clearIfLive n).pushFree n)

/-- Opens the span at the cursor for a new block. -/
def openBlock (c : Cache) : BlockId × Cache :=
  let id := c.active
  let c := c.clearIfLive id
  let b := c.block id
  let (size, next, c) := absorb (c.blocks.size + c.settings.maxBlockSize) b.codeSize b.arenaNext c
  let c := c.modifyBlock id fun b => { b with codeSize := size, arenaNext := next, mask := none, companion := none }
  let c := { c with building := some id }
  (id, c.modifyStats fun s => { s with opened := s.opened + 1 })

/-- Bytes of host code that fit a span: its size, and the slack after the last one. -/
def capacity (c : Cache) (id : BlockId) : Nat :=
  let b := c.block id
  match b.arenaNext with
  | some _ => b.codeSize
  | none => b.codeSize + c.settings.maxBlockSize

/-- A size rounded up to the boundary on which spans are split. -/
def splitSize (written align : Nat) : Nat :=
  ((max written 1 - 1) ||| (align - 1)) + 1

/-- Splits off the unused end of a span. -/
def trim (c : Cache) (id : BlockId) (written : Nat) : Except CoreError Cache :=
  let b := c.block id
  if written + c.settings.align < b.codeSize then
    match c.allocate with
    | .error e => .error e
    | .ok (rest, c) =>
      let size := splitSize written c.settings.align
      let c := c.modifyBlock rest fun r =>
        { r with codeStart := b.codeStart + size, codeSize := b.codeSize - size, arenaNext := b.arenaNext, bucket := 1 }
      .ok (c.modifyBlock id fun b => { b with arenaNext := some rest, codeSize := size })
  else .ok c

/-- Moves the cursor behind a span, or back to the first one if too little space is left. -/
def advance (c : Cache) (id : BlockId) : Cache :=
  let wrapAt := c.blocksStart + c.settings.cacheSize - c.settings.maxBlockSize
  match (c.block id).arenaNext.filter fun next => (c.block next).codeStart ≤ wrapAt with
  | some next => { c with active := next }
  | none => { c.modifyStats fun s => { s with wraps := s.wraps + 1 } with active := firstSpan }

/-- Closes a block after `written` bytes of host code were emitted into it. -/
def finish (c : Cache) (id : BlockId) (written : Nat) : Except CoreError Unit × Cache :=
  let c := { c with building := none }
  let room := c.capacity id
  if room < written then (.error (.overrun written room), c)
  else
    match c.trim id written with
    | .error e => (.error e, c)
    | .ok c => (.ok (), c.advance id)

/-- Closes the open block. -/
def closeBlock (c : Cache) (written : Nat) : Except Abort (Except CoreError BlockId × Cache) :=
  match c.building with
  | none => .error .noOpenBlock
  | some id =>
    let (r, c) := c.finish id written
    .ok (r.map fun _ => id, c)

/-- Gives up the open block. -/
def abandon (c : Cache) : Cache :=
  match c.building with
  | none => c
  | some id => { c with building := none }.clearIfLive id

end Recompiler.Cache
