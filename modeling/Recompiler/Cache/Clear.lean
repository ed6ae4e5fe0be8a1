import Recompiler.Cache.Hash
import Recompiler.Cache.Links

/-! Clearing blocks. A block that stands on two pages goes as a whole: clearing either part clears the other. -/

namespace Recompiler.Cache

/-- Returns a descriptor to the free ones. -/
def pushFree (c : Cache) (id : BlockId) : Cache :=
  let head := c.freeHead
  { c.modifyBlock id fun b => { b with freeNext := head } with freeHead := some id }

/-- Takes a block out of circulation: severs its links or, for a companion, frees its descriptor. -/
def disconnect (c : Cache) (id : BlockId) : Cache :=
  let c := c.modifyStats fun s => { s with cleared := s.cleared + 1 }
  if (c.block id).isCompanion then c.pushFree id else c.sever id

/-- Gives the guest bytes of a block back to its monitor. -/
def retire (c : Cache) (id : BlockId) : Cache :=
  let c :=
    match (c.block id).owner with
    | some m => c.delist m id
    | none => c
  c.modifyBlock id fun b => { b with mask := none }

/-- Clears a block and its companion. -/
def clearBlock (c : Cache) (id : BlockId) : Cache :=
  let c := c.disconnect id
  match (c.block id).companion with
  | none => c.retire id
  | some other =>
    let c := c.modifyBlock id fun b => { b with companion := none }
    let c := c.modifyBlock other fun b => { b with companion := none }
    ((c.disconnect other).retire other).retire id

/-- Clears a block that holds code. -/
def clearIfLive (c : Cache) (id : BlockId) : Cache :=
  if (c.block id).live then c.clearBlock id else c

end Recompiler.Cache
