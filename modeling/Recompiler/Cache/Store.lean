import Recompiler.Cache.Pages

/-! Stores into guest memory under the eyes of the monitors. Read-only memory discards a store, and a store that
changes nothing is none. Otherwise the blocks that depend on the bytes are cleared. -/

namespace Recompiler.Cache

/-- Reports to memory that a monitor is gone. -/
def reportRelease (c : Cache) (m : MonitorId) (page : UInt32) (mem : Memory) : Memory :=
  if (c.monitor m).installed then mem else mem.release page

/-- Store at a physical address by the interpreter or a device, within one page. -/
def write (c : Cache) (mem : Memory) (paddr : UInt32) (w : Width) (value : UInt32) : Memory × Cache :=
  match c.monitorOf (pageOf paddr) with
  | none => (mem.writeUnlessRom paddr w value, c)
  | some m =>
    if PageFlag.has (c.monitor m).flags PageFlag.rom then (mem, c)
    else if mem.read paddr w = value &&& w.mask then (mem, c)
    else
      let page := (c.monitor m).page
      let (_, c) := c.noteStore m (pageOffset paddr) w.bytes none
      (c.reportRelease m page (mem.write paddr w value), c)

/-- Store at a physical address by compiled code, within one page. If it hits the running block it is not
performed, and the result says so. -/
def writeChecked (c : Cache) (mem : Memory) (paddr : UInt32) (w : Width) (value : UInt32)
    (running : Option BlockId) : Bool × Memory × Cache :=
  match c.monitorOf (pageOf paddr) with
  | none => (false, mem.writeUnlessRom paddr w value, c)
  | some m =>
    if PageFlag.has (c.monitor m).flags PageFlag.rom then (false, mem, c)
    else if mem.read paddr w = value &&& w.mask then (false, mem, c)
    else
      let page := (c.monitor m).page
      let (hit, c) := c.noteStore m (pageOffset paddr) w.bytes running
      if hit then (true, mem, c)
      else (false, (c.reportRelease m page mem).write paddr w value, c)

end Recompiler.Cache
