import Recompiler.Cache.Basic

/-! Links between blocks. The sources of a target are chained per slot, so that clearing the target can send all of
them back to their stubs. -/

namespace Recompiler.Cache

/-- Changes a link slot of a block. -/
def modifyLink (c : Cache) (id : BlockId) (slot : Slot) (f : LinkSlot → LinkSlot) : Cache :=
  c.modifyBlock id fun b => { b with links := b.links.modify slot f }

def linkSlot (c : Cache) (id : BlockId) (slot : Slot) : LinkSlot :=
  (c.block id).links.get slot

/-- Makes a slot of a block lead straight to another block. -/
def link (c : Cache) (id : BlockId) (slot : Slot) (target : BlockId) : Cache :=
  let head := (c.linkSlot target slot).source
  let c := c.modifyLink id slot fun l => { l with target := some target, next := head }
  let c := c.modifyLink target slot fun l => { l with source := some id }
  let c := c.setLinkEntry id slot (c.codeAddr target)
  c.modifyStats fun s => { s with links := s.links + 1 }

/-- Blocks whose slot leads to a block, the one linked last first. -/
def sources (c : Cache) (id : BlockId) (slot : Slot) : List BlockId :=
  chain (fun b => (c.linkSlot b slot).next) c.blocks.size (c.linkSlot id slot).source

/-- Sends a slot of a block to its stub. -/
def resetLink (c : Cache) (id : BlockId) (slot : Slot) : Cache :=
  let c := c.modifyLink id slot fun l => { l with target := none, next := none }
  c.setLinkEntry id slot (c.stubs.get slot)

/-- Sends the blocks of a chain of sources to their stubs, at most `n` of them. -/
def resetSources (slot : Slot) : (n : Nat) → Option BlockId → Cache → Cache
  | 0, _, c => c
  | _ + 1, none, c => c
  | n + 1, some id, c =>
    let next := (c.linkSlot id slot).next
    resetSources slot n next (c.resetLink id slot)

/-- The source in a chain that comes right before `id`; the chain starts with `head`, which is another block. -/
def sourceBefore (c : Cache) (slot : Slot) (id : BlockId) : (n : Nat) → (head : BlockId) → Option BlockId
  | 0, _ => none
  | n + 1, head =>
    match (c.linkSlot head slot).next with
    | none => none
    | some b => if b = id then some head else sourceBefore c slot id n b

/-- Takes a block out of the sources of a target. -/
def unlink (c : Cache) (target : BlockId) (slot : Slot) (id : BlockId) : Cache :=
  let next := (c.linkSlot id slot).next
  match (c.linkSlot target slot).source with
  | none => c.anomaly
  | some head =>
    if head = id then c.modifyLink target slot fun l => { l with source := next }
    else
      match sourceBefore c slot id c.blocks.size head with
      | none => c.anomaly
      | some b => c.modifyLink b slot fun l => { l with next := next }

/-- Sends the blocks that lead to a block through a slot to their stubs. -/
def dropSources (id : BlockId) (c : Cache) (slot : Slot) : Cache :=
  let source := (c.linkSlot id slot).source
  let c := c.modifyLink id slot fun l => { l with source := none }
  resetSources slot (c.blocks.size + 1) source c

/-- Takes a block out of the sources of the block that its slot leads to. -/
def dropTarget (id : BlockId) (c : Cache) (slot : Slot) : Cache :=
  match (c.linkSlot id slot).target with
  | some target => c.unlink target slot id
  | none => c

/-- Severs a slot of a block in both directions. -/
def severSlot (id : BlockId) (c : Cache) (slot : Slot) : Cache :=
  (dropTarget id (dropSources id c slot) slot).resetLink id slot

/-- Severs all links from and to a block. -/
def sever (c : Cache) (id : BlockId) : Cache :=
  severSlot id (severSlot id c .first) .second

end Recompiler.Cache
