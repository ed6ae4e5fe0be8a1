import Recompiler.Proofs.Compile.Create
import Recompiler.Proofs.Cache.Store

/-! Where the blocks of a cache come from. Every block was compiled from what memory held then, and what it was compiled
from is still there, apart from bytes that the block reads when it runs. -/

namespace Recompiler

open Cache Scan

variable {mem mem' : Memory} {c c' : Cache} {P : BlockId → Prop} {id x : BlockId} {a : UInt32}

/-- The parts of one block are no parts of another. -/
theorem Cache.Paired.part_disjoint (h : c.Paired) {id' : BlockId} (hid : (c.block id).isCompanion = false)
    (hid' : (c.block id').isCompanion = false) (hne : id ≠ id') (hx : c.Part id x) : ¬c.Part id' x := by
  have hkind : ∀ y z, (c.block y).companion = some z → (c.block y).isCompanion = false → (c.block z).isCompanion = true :=
    fun y z hz hy => by rw [h.kind y z hz, hy]; rfl
  rintro hx'
  rcases hx with rfl | hcomp <;> rcases hx' with rfl | hcomp'
  · exact hne rfl
  · exact absurd ((hkind _ _ hcomp' hid').symm.trans hid) (by simp)
  · exact absurd ((hkind _ _ hcomp hid).symm.trans hid') (by simp)
  · exact hne (Option.some.inj ((h.symm _ _ hcomp).symm.trans (h.symm _ _ hcomp')))

namespace Cache.Evolves

/-- A block that is still there, and not its parts, among those that may change. -/
theorem part_iff (h : Evolves P c c') (hlive : (c'.block id).live = true) (hid : ¬P id) :
    c'.Part id x ↔ c.Part id x := by
  rw [Cache.Part, Cache.Part, Block.companion_eq_of_core (h.core id hid hlive)]

/-- Both parts of a block that is still there are as they were. -/
theorem part (h : Evolves P c c') (hc : c'.Paired) (hlive : (c'.block id).live = true) (hid : ∀ x, c'.Part id x → ¬P x)
    (hx : c'.Part id x) : (c'.block x).live = true ∧ (c'.block x).core = (c.block x).core := by
  have hlive' : (c'.block x).live = true := by
    rcases hx with rfl | hcomp
    · exact hlive
    · exact hc.live _ _ (hc.symm _ _ hcomp)
  exact ⟨hlive', h.core x (hid x hx) hlive'⟩

theorem guards (h : Evolves P c c') (hc : c'.Paired) (hlive : (c'.block id).live = true)
    (hid : ∀ x, c'.Part id x → ¬P x) (ha : c.Guards id a) : c'.Guards id a := by
  obtain ⟨x, m, hx, hm, hpage, hstart, hlast⟩ := ha
  have hx' := (h.part_iff hlive (hid id (c'.part_self id))).mpr hx
  obtain ⟨-, hcore⟩ := h.part hc hlive hid hx'
  have hm' : (c'.block x).owner = some m := (Block.owner_eq_of_core hcore).trans hm
  have hstation := congrArg Prod.fst (h.station x m (hid x hx') hm')
  exact ⟨x, m, hx', hm', hstation.trans hpage, (Block.start_eq_of_core hcore).symm ▸ hstart,
    (Block.last_eq_of_core hcore).symm ▸ hlast⟩

theorem reads_iff (h : Evolves P c c') (hlive : (c'.block id).live = true) (hid : ¬P id) :
    c'.Reads id a ↔ c.Reads id a := by
  have hcore := h.core id hid hlive
  obtain ⟨m, hm⟩ := live_iff.mp hlive
  have hm' : (c.block id).owner = some m := (Block.owner_eq_of_core hcore).symm.trans hm
  have hpage : (c'.monitor m).page = (c.monitor m).page := congrArg Prod.fst (h.station id m hid hm)
  unfold Reads
  rw [hm, hm', Block.masked_eq_of_core hcore]
  refine exists_congr fun n => and_congr_right fun hn => ?_
  rw [← Option.some.inj hn, hpage]

end Cache.Evolves

namespace Compilation

variable {k : Compilation}

/-- Address of a byte of an instruction. -/
def address (k : Compilation) (f : Fetched) (i : Nat) : UInt32 :=
  k.cpu.base .cs + f.inst.ip + i.toUInt32

/-- The block of a compilation stands where it was compiled for, and what it was compiled from is still there, apart
from the bytes that it reads when it runs. -/
structure Backs (k : Compilation) (mem : Memory) (c : Cache) : Prop where
  owner : ∃ m, (c.block k.block).owner = some m ∧ (c.monitor m).page = pageOf k.cpu.ipLinear ∧
    (c.monitor m).code32 = k.cpu.codeBig
  start : (c.block k.block).start = pageOffset k.cpu.ipLinear
  nonempty : k.trace.insts ≠ []
  follows : Follows k.cpu.codeBig k.cpu.eip k.trace.insts k.trace.stop
  recorded : ∀ f ∈ k.trace.insts, Recorded k.site k.mem c f
  same : ∀ f ∈ k.trace.insts, ∀ i < f.inst.len, c.Reads k.block (k.address f i) ∨
    mem.byte (k.address f i) = k.mem.byte (k.address f i)

theorem Backs.evolve (hk : k.Backs mem c) (h : Evolves P c c') (hc : c'.Paired) (hlive : (c'.block k.block).live = true)
    (hid : ∀ x, c'.Part k.block x → ¬P x)
    (hsame : ∀ a, c'.Guards k.block a → ¬c'.Reads k.block a → mem'.byte a = mem.byte a) : k.Backs mem' c' := by
  have hself := hid k.block (c'.part_self k.block)
  have hcore := h.core k.block hself hlive
  obtain ⟨m, hm, hpage, hcode⟩ := hk.owner
  have hm' : (c'.block k.block).owner = some m := (Block.owner_eq_of_core hcore).trans hm
  have hstation := h.station k.block m hself hm'
  have hrecorded : ∀ f ∈ k.trace.insts, Recorded k.site k.mem c' f := fun f hf =>
    let hrec := hk.recorded f hf
    ⟨hrec.spelled, hrec.hotImm, fun i hi => h.guards hc hlive hid (hrec.guards i hi), fun i hi hread =>
      hrec.reads i hi ((h.reads_iff hlive hself).mp hread)⟩
  refine ⟨⟨m, hm', (congrArg Prod.fst hstation).trans hpage, (congrArg (fun s => s.2.2) hstation).trans hcode⟩,
    (Block.start_eq_of_core hcore).trans hk.start, hk.nonempty, hk.follows, hrecorded, fun f hf i hi => ?_⟩
  by_cases hread : c'.Reads k.block (k.address f i)
  · exact .inl hread
  · have hold := (hk.same f hf i hi).resolve_left fun h' => hread ((h.reads_iff hlive hself).mpr h')
    exact .inr ((hsame _ ((hrecorded f hf).guards i hi) hread).trans hold)

theorem Made.backs (h : k.Made c') (hdue : k.Due) (hmem : mem'.unreleased = k.mem.unreleased) :
    k.Backs mem' c' :=
  ⟨⟨k.monitor, h.owner, (congrArg Prod.fst h.station).trans hdue.page_eq,
    (congrArg (fun s => s.2.2) h.station).trans hdue.code32⟩, h.start, h.nonempty, h.follows, h.recorded,
    fun _ _ _ _ => .inr (Memory.byte_eq_of_unreleased hmem _)⟩

end Compilation

/-- The cache is consistent, and every block in it comes from the last compilation into its descriptor. The newest
compilation is the first of the log. -/
structure Tracked (log : List Compilation) (mem : Memory) (c : Cache) : Prop where
  consistent : c.Consistent ∅
  mapped : mem.mapped = []
  unmasked : ∀ x, (c.block x).live = true → (c.block x).isCompanion = true → (c.block x).mask = none
  origin : ∀ id, (c.block id).live = true → (c.block id).isCompanion = false →
    ∃ k, log.find? (·.block = id) = some k ∧ k.Backs mem c

namespace Tracked

variable {log : List Compilation} {slot : Slot} {target : BlockId}

theorem block_eq {k : Compilation} (h : log.find? (·.block = id) = some k) : k.block = id := by
  simpa using List.find?_some h

/-- Blocks go, and bytes change that no remaining block was compiled from. -/
theorem evolve (h : Tracked log mem c) (hc : c'.Consistent ∅) (he : Evolves (fun _ => False) c c') (hmapped : mem'.mapped = [])
    (hsafe : ∀ a, mem'.byte a ≠ mem.byte a → ∀ x m, (c'.block x).owner = some m → (c'.monitor m).page = pageOf a →
      (c'.block x).start ≤ pageOffset a → pageOffset a ≤ (c'.block x).last → (c'.block x).masked (pageOffset a) = true) :
    Tracked log mem' c' := by
  have hcore : ∀ x, (c'.block x).live = true → (c'.block x).core = (c.block x).core := fun x => he.core x not_false
  have hunmasked : ∀ x, (c'.block x).live = true → (c'.block x).isCompanion = true → (c'.block x).mask = none := by
    intro x hlive hcomp
    rw [Block.mask_eq_of_core (hcore x hlive)]
    exact h.unmasked x (Block.live_eq_of_core (hcore x hlive) ▸ hlive) (Block.isCompanion_eq_of_core (hcore x hlive) ▸ hcomp)
  refine ⟨hc, hmapped, hunmasked, fun id hlive hord => ?_⟩
  obtain ⟨k, hfind, hk⟩ := h.origin id (Block.live_eq_of_core (hcore id hlive) ▸ hlive)
    (Block.isCompanion_eq_of_core (hcore id hlive) ▸ hord)
  obtain rfl := block_eq hfind
  refine ⟨k, hfind, hk.evolve he hc.paired hlive (fun _ _ => not_false) fun a hguards hreads => ?_⟩
  by_contra hbyte
  obtain ⟨x, m, hx, hm, hpage, hstart, hlast⟩ := hguards
  have hmasked := hsafe a hbyte x m hm hpage hstart hlast
  rcases hx with rfl | hcomp
  · exact hreads ⟨m, hm, hpage, hmasked⟩
  · have hkind := hc.paired.kind _ _ hcomp
    rw [hord] at hkind
    rw [Block.masked, hunmasked x (live_iff.mpr ⟨m, hm⟩) hkind] at hmasked
    cases hmasked

theorem stored (h : Tracked log mem c) (hs : Stored mem c mem' c') : Tracked log mem' c' := by
  have hmapped := congrArg Memory.mapped hs.frame
  exact h.evolve ⟨hs.sound, hs.exact h.consistent.toExact⟩ (.of_narrows hs.narrows _) (hmapped.trans h.mapped)
    (hs.safe h.consistent.toExact)

/-- Nothing changes but what memory notes of its pages. -/
theorem retag (h : Tracked log mem c) (hram : mem'.ram = mem.ram) (hmapped : mem'.mapped = mem.mapped) : Tracked log mem' c := by
  refine h.evolve h.consistent (.of_narrows (.refl c) _) (hmapped.trans h.mapped) fun a ha => absurd ?_ ha
  unfold Memory.byte
  simp only [hram]

theorem mapped_eq_of_unreleased (h : mem'.unreleased = mem.unreleased) : mem'.mapped = mem.mapped := by
  have hfield := congrArg Memory.mapped h
  exact hfield

/-- A page is watched for code that runs on it. -/
theorem paged (h : Tracked log mem c) {page : UInt32} {code32 : Bool} (hp : Paged none page code32 mem c mem' c') :
    Tracked log mem' c' := by
  have hexact := hp.exact ∅ (fun v _ => .empty c v) h.consistent.toExact
  exact h.evolve ⟨hp.sound, hexact⟩ (.of_narrows hp.narrows _) ((mapped_eq_of_unreleased hp.memory).trans h.mapped) fun a ha =>
    absurd (Memory.byte_eq_of_unreleased hp.memory a) ha

/-- Links play no part in where blocks come from. -/
theorem link (h : Tracked log mem c) (hc : Sound (c.link id slot target)) : Tracked log mem (c.link id slot target) := by
  have hevolves := Evolves.of_narrows (.link c id slot target) fun _ => False
  exact h.evolve ⟨hc, h.consistent.toExact.link id slot target⟩ hevolves h.mapped fun _ ha => absurd rfl ha

/-- A compilation is added to the log, whether it succeeds or not. -/
theorem compile {k : Compilation} (h : Tracked log k.mem k.cache) (hdue : k.Due) (hdec : k.decodes = true) {code' : HostCode}
    {r : Except CoreError BlockId} (hr : k.result = .ok (r, mem', c', code')) : Tracked (k :: log) mem' c' := by
  obtain ⟨hc, hmem, hresult⟩ := createBlock_spec hdue hdec hr
  have hmapped := (mapped_eq_of_unreleased hmem).trans h.mapped
  have hsame : ∀ a, mem'.byte a = k.mem.byte a := Memory.byte_eq_of_unreleased hmem
  have hother : ∀ id, id ≠ k.block → (k :: log).find? (·.block = id) = log.find? (·.block = id) := fun id hid =>
    List.find?_cons_of_neg (by simpa using Ne.symm hid)
  rcases hresult with ⟨-, he, hdead⟩ | ⟨-, hmade⟩
  · obtain ⟨hc, hmapped, hunmasked, horigin⟩ := h.evolve hc he hmapped fun a ha => absurd (hsame a) ha
    refine ⟨hc, hmapped, hunmasked, fun id hlive hord => ?_⟩
    rw [hother id fun hid => by rw [hid, hdead] at hlive; cases hlive]
    exact horigin id hlive hord
  · have hpart : ∀ x, (c'.block x).live = true → (c'.block x).isCompanion = true → ¬c'.Part k.block x →
        (c'.block x).mask = none := fun x hlive hcomp hx => by
      have hcore := hmade.evolves.core x hx hlive
      rw [Block.mask_eq_of_core hcore]
      exact h.unmasked x (Block.live_eq_of_core hcore ▸ hlive) (Block.isCompanion_eq_of_core hcore ▸ hcomp)
    refine ⟨hc, hmapped, fun x hlive hcomp => ?_, fun id hlive hord => ?_⟩
    · by_cases hx : c'.Part k.block x
      · rcases hx with rfl | hx
        · exact absurd (hmade.ordinary.symm.trans hcomp) (by simp)
        · exact hmade.unmasked x hx
      · exact hpart x hlive hcomp hx
    · by_cases hid : id = k.block
      · subst hid
        exact ⟨k, List.find?_cons_of_pos (by simp), hmade.backs hdue hmem⟩
      · have hnot : ∀ x, c'.Part id x → ¬c'.Part k.block x := fun x => hc.paired.part_disjoint hord hmade.ordinary hid
        have hcore := hmade.evolves.core id (hnot id (c'.part_self id)) hlive
        obtain ⟨k', hfind, hk'⟩ := h.origin id (Block.live_eq_of_core hcore ▸ hlive) (Block.isCompanion_eq_of_core hcore ▸ hord)
        rw [hother id hid]
        obtain rfl := block_eq hfind
        exact ⟨k', hfind, hk'.evolve hmade.evolves hc.paired hlive hnot fun a _ _ => hsame a⟩

end Tracked

end Recompiler
