import Recompiler.Cache.Spans
import Recompiler.Cache.Pages
import Recompiler.Guest.Encoding.Decode

/-! The guest instructions a block is made of. A trace starts at the processor's instruction pointer and goes on to
a control transfer, an instruction without a lowering, a page from which nothing can be fetched, or the limit on
its length. It may run on into the following page once; that part belongs to a companion block, registered with
the monitor of the second page. While a trace is taken every byte it depends on is counted by the monitors. -/

namespace Recompiler

/-- An instruction of a trace. -/
structure Fetched where
  inst : Instruction
  /-- Physical address of its immediate operand, if that changes so often that it is read when the block runs. -/
  hotImm : Option UInt32 := none
  deriving DecidableEq, Repr, Inhabited

/-- Why a trace ends. -/
inductive TraceEnd where
  /-- The last instruction ends the block. -/
  | terminal
  /-- The instruction at `eip` cannot be fetched. -/
  | unfetchable (eip : UInt32)
  /-- The trace has its full length; execution goes on at `eip`. -/
  | full (eip : UInt32)
  deriving DecidableEq, Repr, Inhabited

structure Trace where
  insts : List Fetched
  stop : TraceEnd
  deriving DecidableEq, Repr, Inhabited

/-- Where a block is compiled. -/
structure Site where
  cpu : Cpu
  block : BlockId
  monitor : MonitorId
  /-- Physical page the block starts on. -/
  page : UInt32
  /-- Linear page the block starts on. -/
  linearPage : UInt32

/-- The part of a block on the following page. -/
structure Companion where
  monitor : MonitorId
  page : UInt32
  block : BlockId
  deriving DecidableEq, Repr, Inhabited

/-- Cache and memory while a trace is taken. -/
structure Scan where
  cache : Cache
  mem : Memory
  companion : Option Companion := none

namespace Scan

/-- Result of a scanning step; an error keeps the state. -/
abbrev Result (α : Type) := Except Abort (Except CoreError α × Scan)

/-- The companion, created when it is first needed; none if the following page cannot hold code. -/
def needCompanion (site : Site) (s : Scan) : Result (Option Companion) :=
  match s with
  | ⟨cache, mem, some companion⟩ => .ok (.ok (some companion), ⟨cache, mem, some companion⟩)
  | ⟨cache, mem, none⟩ =>
    match cache.codePage mem (pageBase (site.linearPage + 1)) site.cpu.codeBig (some site.monitor) with
    | .error abort => .error abort
    | .ok (.error _, mem, cache) => .ok (.ok none, ⟨cache, mem, none⟩)
    | .ok (.ok none, mem, cache) => .ok (.ok none, ⟨cache, mem, none⟩)
    | .ok (.ok (some m), mem, cache) =>
      match cache.allocate with
      | .error e => .ok (.error e, ⟨cache, mem, none⟩)
      | .ok (id, cache) =>
        let cache := (cache.addCompanion m id).pair site.block id
        let companion := { monitor := m, page := (cache.monitor m).page, block := id }
        .ok (.ok (some companion), ⟨cache, mem, some companion⟩)

/-- Up to `n` bytes of a physical page from an offset on. -/
def pageBytes (mem : Memory) (page : UInt32) (offset n : Nat) : List UInt8 :=
  (List.range (min n (pageSize - offset))).map fun i => mem.byte (pageBase page + (offset + i).toUInt32)

/-- The instruction at a linear address on one of the block's pages. One that begins on the first page and ends on
the second needs bytes of both; one that would end on a third page is not fetched. -/
def decodeAt (site : Site) (eip linear : UInt32) (s : Scan) : Result (Option Instruction) :=
  let offset := pageOffset linear
  let code32 := site.cpu.codeBig
  if pageOf linear = site.linearPage then
    let bytes := pageBytes s.mem site.page offset Encoding.maxLength
    match decode bytes eip code32 with
    | .ok inst => .ok (.ok (some inst), s)
    | .error _ =>
      match s.needCompanion site with
      | .error abort => .error abort
      | .ok (.error e, s) => .ok (.error e, s)
      | .ok (.ok none, s) => .ok (.ok none, s)
      | .ok (.ok (some companion), s) =>
        let more := pageBytes s.mem companion.page 0 (Encoding.maxLength - bytes.length)
        .ok (.ok (decode (bytes ++ more) eip code32).toOption, s)
  else if pageOf linear = site.linearPage + 1 then
    match s.needCompanion site with
    | .error abort => .error abort
    | .ok (.error e, s) => .ok (.error e, s)
    | .ok (.ok none, s) => .ok (.ok none, s)
    | .ok (.ok (some companion), s) =>
      let bytes := pageBytes s.mem companion.page offset Encoding.maxLength
      .ok (.ok (decode bytes eip code32).toOption, s)
  else .ok (.ok none, s)

/-- The immediate source operand of an instruction that can read it when it runs. -/
def immediateSource : Kind → Option Imm
  | .mov _ (.imm i) | .alu _ _ (.imm i) | .push (.imm i) => some i
  | _ => none

/-- Physical address of the immediate of an instruction at a linear address, if it lies on the first page and a
byte of it is overwritten too often to count as code. -/
def hotImmediate (site : Site) (cache : Cache) (inst : Instruction) (linear : UInt32) : Option UInt32 :=
  match immediateSource inst.kind with
  | none => none
  | some imm =>
    let start := linear + imm.offset.toUInt32
    let last := start + (imm.size - 1).toUInt32
    if pageOf start = site.linearPage ∧ pageOf last = site.linearPage ∧
        (List.range imm.size).any fun i => cache.countsAsData site.monitor (pageOffset start + i) then
      some (pageBase site.page ||| (start &&& 0xFFF))
    else none

/-- Counts one byte of an instruction. On the first page the bytes of `masked` are marked as read at run time
instead. -/
def coverByte (site : Site) (masked : Nat → Bool) (s : Scan) (linear : UInt32) : Scan :=
  match s with
  | ⟨cache, mem, companion⟩ =>
    let offset := pageOffset linear
    if pageOf linear = site.linearPage then
      let cache := if masked offset then cache.maskByte site.block offset else cache.coverByte site.monitor offset
      ⟨cache.extendTo site.block offset, mem, companion⟩
    else
      match companion with
      | some other => ⟨(cache.coverByte other.monitor offset).extendTo other.block offset, mem, some other⟩
      | none => ⟨cache, mem, none⟩

/-- Counts the bytes of an instruction at a linear address. -/
def cover (site : Site) (f : Fetched) (linear : UInt32) (s : Scan) : Scan :=
  let masked (offset : Nat) : Bool :=
    match f.hotImm, immediateSource f.inst.kind with
    | some paddr, some imm => pageOffset paddr ≤ offset && offset < pageOffset paddr + imm.size
    | _, _ => false
  (List.range f.inst.len).foldl (fun s i => s.coverByte site masked (linear + i.toUInt32)) s

/-- Fetches the instruction at an instruction pointer and counts its bytes. -/
def fetch (site : Site) (eip : UInt32) (s : Scan) : Result (Option Fetched) :=
  let linear := site.cpu.base .cs + eip
  match s.decodeAt site eip linear with
  | .error abort => .error abort
  | .ok (.error e, s) => .ok (.error e, s)
  | .ok (.ok none, s) => .ok (.ok none, s)
  | .ok (.ok (some inst), s) =>
    let fetched := { inst, hotImm := hotImmediate site s.cache inst linear }
    .ok (.ok (some fetched), s.cover site fetched linear)

/-- Takes a trace of at most `n + 1` instructions. -/
def take (site : Site) : (n : Nat) → (eip : UInt32) → Scan → Result Trace
  | n, eip, s =>
    match s.fetch site eip with
    | .error abort => .error abort
    | .ok (.error e, s) => .ok (.error e, s)
    | .ok (.ok none, s) => .ok (.ok ⟨[], .unfetchable eip⟩, s)
    | .ok (.ok (some f), s) =>
      let next := f.inst.nextIp site.cpu.codeBig
      if f.inst.endsBlock then .ok (.ok ⟨[f], .terminal⟩, s)
      else
        match n with
        | 0 => .ok (.ok ⟨[f], .full next⟩, s)
        | n + 1 =>
          match take site n next s with
          | .error abort => .error abort
          | .ok (.error e, s) => .ok (.error e, s)
          | .ok (.ok t, s) => .ok (.ok ⟨f :: t.insts, t.stop⟩, s)

end Scan

end Recompiler
