import Recompiler.Proofs.Compile.Phases
import Recompiler.Proofs.Dispatch.Chains
import Recompiler.Proofs.Dispatch.Reuse
import Recompiler.Proofs.Dispatch.Visited

/-! Blocks run only under the code size they were decoded for. A block, its companion and all blocks it is linked to are on
pages that are watched for code of one size, which is the size they were decoded for. A block that the dispatcher enters
has the current size, and so have all that are reached from it through links. -/

namespace Recompiler

open Cache Relation

variable {σ : Type} {p : Platform σ} {R : Regime} {log : List Compilation} {c c' : Cache} {x y : BlockId}

/-- Whether the page that a block is on is watched for 32-bit code. -/
def Cache.code32 (c : Cache) (x : BlockId) : Option Bool :=
  (c.block x).owner.map fun m => (c.monitor m).code32

/-- Whether the last compilation into a descriptor decoded 32-bit code. -/
def decoded32 (log : List Compilation) (x : BlockId) : Option Bool :=
  (log.find? (·.block = x)).map (·.cpu.codeBig)

theorem Cache.code32_eq {m : MonitorId} (h : (c.block x).owner = some m) : c.code32 x = some (c.monitor m).code32 := by
  rw [code32, h, Option.map_some]

theorem Cache.Evolves.code32 {P : BlockId → Prop} (h : Evolves P c c') (hx : ¬P x) (hlive : (c'.block x).live = true) :
    c'.code32 x = c.code32 x := by
  obtain ⟨m, hm⟩ := live_iff.mp hlive
  have hstation := h.station x m hx hm
  have hm' : (c.block x).owner = some m := (Block.owner_eq_of_core (h.core x hx hlive)).symm.trans hm
  rw [code32_eq hm, code32_eq hm']
  exact congrArg some (congrArg (fun s => s.2.2) hstation)

theorem decoded32_cons (k : Compilation) : decoded32 (k :: log) k.block = some k.cpu.codeBig := by
  rw [decoded32, List.find?_cons_of_pos (by simp), Option.map_some]

theorem decoded32_cons_of_ne {k : Compilation} (hx : x ≠ k.block) : decoded32 (k :: log) x = decoded32 log x := by
  rw [decoded32, decoded32, List.find?_cons_of_neg (by simpa using Ne.symm hx)]

/-- A link that is there after a compilation was there before, and it does not concern the new block. -/
theorem Compilation.Pending.old_link {k : Compilation} (hpending : k.Pending) (hc : k.cache.Sound) {r : Except CoreError BlockId}
    {mem' : Memory} {code' : HostCode} (hr : k.result = .ok (r, mem', c', code')) {slot : Slot}
    (hxy : (c'.linkSlot x slot).target = some y) :
    x ≠ k.block ∧ y ≠ k.block ∧ (k.cache.linkSlot x slot).target = some y := by
  have hopen := Compilation.opened_spec hc
  have htarget := hpending.target_eq hc hr hxy
  obtain ⟨hx, hy⟩ := hopen.sound.layout.linked.ends _ _ _ htarget
  have hdead : ∀ {z}, k.opened.Runnable z → z ≠ k.block := by
    rintro z hz rfl
    exact absurd (hopen.dead.symm.trans hz.1) (by simp)
  exact ⟨hdead hx, hdead hy, (Clears.openBlock k.cache).target _ _ _ htarget⟩

/-- The pages of a block, of its companion and of the blocks it is linked to are watched for the code size that the block
was decoded for. -/
structure Sized (log : List Compilation) (c : Cache) : Prop where
  decoded : ∀ x, c.Runnable x → decoded32 log x = c.code32 x
  paired : ∀ x y, (c.block x).companion = some y → c.code32 y = c.code32 x
  linked : ∀ x slot y, (c.linkSlot x slot).target = some y → c.code32 y = c.code32 x

namespace Sized

theorem create (s : Settings) (arenaBase blocksStart : Nat) (stubs : PerSlot Nat) :
    Sized [] (Cache.create s arenaBase blocksStart stubs) := by
  have hnone : ∀ x, (Cache.create s arenaBase blocksStart stubs).code32 x = none := fun x => by
    rw [code32, owner_create, Option.map_none]
  exact ⟨fun x _ => (hnone x).symm, fun x y _ => by rw [hnone, hnone], fun x _ y _ => by rw [hnone, hnone]⟩

/-- Blocks are at most cleared, and no link is made. -/
theorem evolve (h : Sized log c) (hc : c'.Sound) (he : Evolves (fun _ => False) c c')
    (htarget : ∀ x slot y, (c'.linkSlot x slot).target = some y → (c.linkSlot x slot).target = some y) : Sized log c' := by
  have hsame : ∀ x, (c'.block x).live = true → c'.code32 x = c.code32 x := fun x => he.code32 not_false
  refine ⟨fun x hx => ?_, fun x y hxy => ?_, fun x slot y hxy => ?_⟩
  · have hcore := he.core x not_false hx.1
    rw [hsame x hx.1]
    exact h.decoded x ⟨Block.live_eq_of_core hcore ▸ hx.1, Block.isCompanion_eq_of_core hcore ▸ hx.2⟩
  · have hx := hc.paired.live _ _ hxy
    have hy := hc.paired.live _ _ (hc.paired.symm _ _ hxy)
    rw [hsame x hx, hsame y hy]
    rw [Block.companion_eq_of_core (he.core x not_false hx)] at hxy
    exact h.paired x y hxy
  · obtain ⟨hx, hy⟩ := hc.layout.linked.ends _ _ _ hxy
    rw [hsame x hx.1, hsame y hy.1]
    exact h.linked x slot y (htarget x slot y hxy)

theorem ebb (h : Sized log c) (he : Ebbs c c') : Sized log c' :=
  h.evolve he.sound (.of_narrows he.toNarrows _) he.target

theorem durable (R : Regime) : Durable R fun log _ c _ => c.Sound ∧ Sized log c where
  sound h := h.1
  change h _ := h
  stored h hs := ⟨hs.sound, h.2.ebb ⟨hs.narrows, hs.toFades, hs.sound⟩⟩

/-- A link between blocks of one size is made. -/
theorem link (h : Sized log c) {slot : Slot} (hx : c.Runnable x) (hy : c.Runnable y) (hsize : c.code32 y = c.code32 x) :
    Sized log (c.link x slot y) := by
  have hapart := LinksApart.link c x slot y
  have hcore := hapart.core
  have hsame : ∀ z, (c.link x slot y).code32 z = c.code32 z := fun z => by
    rw [code32, code32, Block.owner_eq_of_core (hcore z)]
    simp only [hapart.monitor]
  refine ⟨fun z hz => ?_, fun z w hzw => ?_, fun z slot' w hzw => ?_⟩
  · rw [hsame]
    exact h.decoded z ⟨Block.live_eq_of_core (hcore z) ▸ hz.1, Block.isCompanion_eq_of_core (hcore z) ▸ hz.2⟩
  · rw [Block.companion_eq_of_core (hcore z)] at hzw
    rw [hsame, hsame]
    exact h.paired z w hzw
  · rw [hsame, hsame]
    rw [linkSlot_link hx.lt hy.lt] at hzw
    split at hzw
    · rename_i hslot
      subst hslot
      dsimp only at hzw
      split at hzw
      · rename_i hzx
        rw [hzx, ← Option.some.inj hzw]
        exact hsize
      · exact h.linked z slot' w hzw
    · exact h.linked z slot' w hzw

/-- The new block and its companion are on pages for the size that the block was decoded for, and it is not linked yet. -/
theorem compile {k : Compilation} (h : Sized log k.cache) (hc : k.cache.Sound) (hpending : k.Pending) {r : Except CoreError BlockId}
    {mem' : Memory} {code' : HostCode} (hr : k.result = .ok (r, mem', c', code')) : Sized (k :: log) c' := by
  have hsound := (hpending.laid hc hr).sound
  have hopened : ∀ x slot y, (c'.linkSlot x slot).target = some y → x ≠ k.block ∧ y ≠ k.block ∧
      (k.cache.linkSlot x slot).target = some y := fun x slot y => hpending.old_link hc hr
  rcases hpending.formed hc hr with ⟨-, he, hdead⟩ | ⟨-, hformed⟩
  · obtain ⟨hdecoded, hpaired, hlinked⟩ := h.evolve hsound he fun x slot y hxy => (hopened x slot y hxy).2.2
    refine ⟨fun x hx => ?_, hpaired, hlinked⟩
    have hne : x ≠ k.block := by
      rintro rfl
      exact absurd (hdead.symm.trans hx.1) (by simp)
    rw [decoded32_cons_of_ne hne]
    exact hdecoded x hx
  · have hnew : ∀ x, c'.Part k.block x → c'.code32 x = some k.cpu.codeBig := by
      intro x hx
      obtain ⟨m, hm, hcode⟩ := hformed.code32 x hx
      rw [code32_eq hm, hcode]
    have hold : ∀ x, ¬c'.Part k.block x → (c'.block x).live = true → c'.code32 x = k.cache.code32 x := fun x =>
      hformed.evolves.code32
    have hother : ∀ x, c'.Runnable x → x ≠ k.block → ¬c'.Part k.block x := fun x hx hne =>
      hsound.paired.part_disjoint hx.2 hformed.ordinary hne (c'.part_self x)
    refine ⟨fun x hx => ?_, fun x y hxy => ?_, fun x slot y hxy => ?_⟩
    · by_cases hxk : x = k.block
      · rw [hxk, decoded32_cons, hnew _ (c'.part_self _)]
      · have hpart := hother x hx hxk
        have hcore := hformed.evolves.core x hpart hx.1
        rw [decoded32_cons_of_ne hxk, hold x hpart hx.1]
        exact h.decoded x ⟨Block.live_eq_of_core hcore ▸ hx.1, Block.isCompanion_eq_of_core hcore ▸ hx.2⟩
    · have hyx := hsound.paired.symm _ _ hxy
      have hx := hsound.paired.live _ _ hxy
      have hy := hsound.paired.live _ _ hyx
      -- The two parts of the new block are each other's companions.
      have hpart : c'.Part k.block x ↔ c'.Part k.block y := by
        constructor
        · rintro (rfl | hcomp)
          · exact .inr hxy
          · exact .inl (Option.some.inj (hxy.symm.trans (hsound.paired.symm _ _ hcomp)))
        · rintro (rfl | hcomp)
          · exact .inr hyx
          · exact .inl (Option.some.inj (hyx.symm.trans (hsound.paired.symm _ _ hcomp)))
      by_cases hxk : c'.Part k.block x
      · rw [hnew x hxk, hnew y (hpart.mp hxk)]
      · rw [hold x hxk hx, hold y (fun hyk => hxk (hpart.mpr hyk)) hy]
        rw [Block.companion_eq_of_core (hformed.evolves.core x hxk hx)] at hxy
        exact h.paired x y hxy
    · obtain ⟨hx, hy⟩ := hsound.layout.linked.ends _ _ _ hxy
      obtain ⟨hxk, hyk, htarget⟩ := hopened x slot y hxy
      rw [hold x (hother x hx hxk) hx.1, hold y (hother y hy hyk) hy.1]
      exact h.linked x slot y htarget

/-- All blocks that are linked are of one size. -/
theorem code32_eq_of_links (h : Sized log c) (hlinks : ReflTransGen (fun x y => ∃ slot, (c.linkSlot x slot).target = some y) x y) :
    c.code32 y = c.code32 x := by
  induction hlinks with
  | refl => rfl
  | tail _ hlink ih =>
      obtain ⟨slot, hlink⟩ := hlink
      exact (h.linked _ slot _ hlink).trans ih

end Sized

/-! ### Steps -/

/-- Numbers of blocks and addresses of code are as they were. -/
def Extent (blocks addresses : Nat) : Condition := fun _ _ c code =>
  c.Sound ∧ c.blocks.size = blocks ∧ code.base + code.arena.size = addresses

theorem Extent.sustained (R : Regime) (blocks addresses : Nat) : Sustained R (fun _ => True) (Extent blocks addresses) where
  sound h := h.1
  change h _ := h
  stored h hs := ⟨hs.sound, hs.narrows.size.trans h.2.1, h.2.2⟩
  link h hid htarget hfree := ⟨h.1.link hid htarget hfree, (Narrows.link ..).size.trans h.2.1, h.2.2⟩
  paged h _ hp := ⟨hp.sound, hp.narrows.size.trans h.2.1, h.2.2⟩
  compile := by
    intro log k r mem' c' code' h hpending _ hr
    have hlaid := hpending.laid h.1 hr
    have hsize : c'.blocks.size = k.cache.blocks.size := by
      rcases hpending.formed h.1 hr with ⟨-, he, -⟩ | ⟨-, hformed⟩
      · exact he.size
      · exact hformed.evolves.size
    exact ⟨hlaid.sound, hsize.trans h.2.1, by rw [hlaid.wrote.base, hlaid.wrote.size]; exact h.2.2⟩

namespace Engine

variable {e e' : Engine σ} {phase : Phase} {record : List MonitorId}

/-- The numbers of blocks and the addresses of code fit the fields that they are written to. -/
structure Bounded (e : Engine σ) : Prop where
  blocks : e.cache.blocks.size < 2 ^ 32
  addresses : e.code.base + e.code.arena.size < 2 ^ 64

theorem keeps_extent (hs : e.cache.Sound) : e.Keeps (Extent e.cache.blocks.size (e.code.base + e.code.arena.size)) [] :=
  ⟨hs, rfl, rfl⟩

theorem Bounded.of_extent (hb : e'.Bounded) (h : e'.Keeps (Extent e.cache.blocks.size (e.code.base + e.code.arena.size)) log) :
    e.Bounded :=
  ⟨h.2.1 ▸ hb.blocks, h.2.2 ▸ hb.addresses⟩

/-- A block that is to be entered was decoded for the current code size, and so was one that has just left and is still
there. -/
def Suits (e : Engine σ) : Phase → Prop
  | .enter id => e.cache.Runnable id ∧ e.cache.code32 id = some e.guest.cpu.codeBig
  | .leave exit => ∀ id, exit.running = some id → e.cache.Runnable id → e.cache.code32 id = some e.guest.cpu.codeBig
  | _ => True

theorem reaches_sized (hs : e.cache.Sound) (h : Sized log e.cache) {bus : Bus Cache} (hbus : e.guest.bus.Reaches R.may bus) :
    Sized log bus.watch :=
  (@Durable.reaches R _ log e.code (Sized.durable R) _ _ ⟨hs, h⟩ hbus).2

/-- The page of the instruction pointer is watched for the current code size once it was looked for. -/
theorem codePage_sized (hs : e.cache.Sound) (h : Sized log e.cache) {result : Except PageFault (Option MonitorId)} {mem : Memory}
    (hpage : e.cache.codePage e.guest.bus.mem e.guest.cpu.ipLinear e.guest.cpu.codeBig none = .ok (result, mem, c)) :
    c.Sound ∧ Sized log c ∧ ∀ m, result = .ok (some m) → (c.monitor m).code32 = e.guest.cpu.codeBig := by
  rcases codePage_spec hs (by simp) hpage with ⟨fault, -, rfl, -, rfl⟩ | ⟨paddr, -, hp, hm⟩
  · exact ⟨hs, h, by simp⟩
  · exact ⟨hp.sound, h.ebb ⟨hp.narrows, .codePage hpage, hp.sound⟩, fun m hr => (hm m hr).2⟩

theorem suits_afterSearch {r : Except PageFault (Option MonitorId)} : e.Suits (afterSearch c e.guest.cpu r) := by
  rcases r with fault | (_ | m)
  · trivial
  · trivial
  · change e.Suits (if c.find m (pageOffset e.guest.cpu.ipLinear) = none then .create m else .lookup)
    split <;> trivial

theorem compile_sized (hs : e.cache.Sound) (h : Sized log e.cache) {m : MonitorId} (hm : (e.request m).Pending) {r : Except CoreError BlockId}
    {mem : Memory} {code : HostCode} (hresult : (e.request m).result = .ok (r, mem, c, code)) :
    Sized (e.request m :: log) c ∧ ∀ id, r = .ok id → c.Runnable id ∧ c.code32 id = some e.guest.cpu.codeBig := by
  refine ⟨h.compile hs hm hresult, fun id hid => ?_⟩
  rcases hm.formed hs hresult with ⟨⟨err, herr⟩, -⟩ | ⟨hok, hformed⟩
  · cases herr.symm.trans hid
  · cases hok.symm.trans hid
    obtain ⟨n, hn, hcode⟩ := hformed.code32 _ (Cache.part_self _ _)
    exact ⟨⟨live_iff.mpr ⟨n, hn⟩, hformed.ordinary⟩, (code32_eq hn).trans (congrArg some hcode)⟩

/-- The blocks of a chain have the size of the first one. -/
theorem code32_of_chain (hp : p.Confined R) (hsize : p.KeepsSize) (hcode : Programmed log e.cache e.code) (hb : e.Bounded)
    (h : Sized log e.cache) {id : BlockId} (hid : e.Suits (.enter id)) {a : Entry σ}
    (hchain : ReflTransGen (Hop p log) (id, e.activation) a) :
    Underway e.cache e.guest.cpu.codeBig a ∧ e.cache.code32 a.1 = some e.guest.cpu.codeBig := by
  obtain ⟨hunder, hlinks⟩ := (underway hcode.sound hid.1).chain hp hsize hcode hb.addresses hb.blocks hchain
  exact ⟨hunder, (h.code32_eq_of_links hlinks).trans hid.2⟩

theorem enter_sized (hp : p.Confined R) (hsize : p.KeepsSize) (hcode : Programmed log e.cache e.code) (hb : e.Bounded)
    (h : Sized log e.cache) {id : BlockId} (hid : e.Suits (.enter id)) {fuel : Nat} {r : Except CoreError BlockExit}
    (hr : e.enter p fuel id = .ok (r, e')) : Sized log e'.cache ∧ ∀ exit, r = .ok exit → e'.Suits (.leave exit) := by
  obtain ⟨a, exit, s, hchain, hleaves, rfl, rfl⟩ :=
    (exists_enter_iff hp hsize hcode hb.addresses hb.blocks hid.1).mp ⟨fuel, hr⟩
  obtain ⟨hunder, hkind⟩ := code32_of_chain hp hsize hcode hb h hid hchain
  obtain ⟨hbig, hebbs, -⟩ := hunder.leaves hp hsize hleaves
  refine ⟨h.ebb hebbs, fun exit' hexit => ?_⟩
  cases hexit
  intro id' hid' hrun
  obtain rfl := Option.some.inj hid'
  have hsame := (Evolves.of_narrows hebbs.toNarrows fun _ => False).code32 not_false hrun.1
  exact hsame.trans (hkind.trans (congrArg some hbig.symm))

theorem link_sized (hs : e.cache.Sound) (h : Sized log e.cache) {slot : Slot} {running : Option BlockId}
    (hsuits : ∀ id, running = some id → e.cache.Runnable id → e.cache.code32 id = some e.guest.cpu.codeBig) {id target : BlockId}
    (hlink : linkCandidate e.cache e.guest.cpu e.guest.bus.mem running slot = .ok (some (id, target))) :
    Sized log (e.cache.link id slot target) ∧ (e.cache.link id slot target).Runnable target ∧
      (e.cache.link id slot target).code32 target = some e.guest.cpu.codeBig := by
  obtain ⟨hrunning, hid, -, htarget, m, hm, hcode, -⟩ := linkCandidate_spec hs hlink
  have hkind : e.cache.code32 target = some e.guest.cpu.codeBig := (code32_eq hm).trans (congrArg some hcode)
  have hcore := (LinksApart.link e.cache id slot target).core target
  have hlive : ((e.cache.link id slot target).block target).live = true := (Block.live_eq_of_core hcore).trans htarget.1
  have hsame := (Evolves.of_narrows (Narrows.link e.cache id slot target) fun _ => False).code32 not_false hlive
  exact ⟨h.link hid htarget (hkind.trans (hsuits id hrunning hid).symm), ⟨hlive, (Block.isCompanion_eq_of_core hcore).trans htarget.2⟩,
    hsame.trans hkind⟩

theorem step_sized (hp : p.Confined R) (hsize : p.KeepsSize) (hcode : Programmed log e.cache e.code) (hb : e.Bounded)
    (h : Sized log e.cache) (hready : e.Ready phase) (hsuits : e.Suits phase) {fuel : Nat} {r : Except CoreError Phase}
    (hr : e.step p fuel phase = .ok (r, e')) :
    Sized (e.stepLog phase ++ log) e'.cache ∧ e'.Suits (r.toOption.getD .lookup) := by
  have hs := hcode.sound
  have hsearch {result mem c} (hpage : e.search = .ok (result, mem, c)) {bus : Bus Cache} (hbus : Bus.Reaches R.may ⟨mem, c⟩ bus) :
      Sized log bus.watch := by
    obtain ⟨hsound, hsized, -⟩ := codePage_sized hs h hpage
    exact reaches_sized (e := ⟨⟨e.guest.cpu, ⟨mem, c⟩, e.guest.host⟩, e.code, e.stats, e.trap⟩) hsound hsized hbus
  cases steps_of_step hr with
  | fault hpage => exact ⟨hsearch hpage (hp.pageFault _ ⟨_, ⟨_, _⟩, _⟩), trivial⟩
  | barred hpage hrun => exact ⟨hsearch hpage (hp.runNormal _ hrun), trivial⟩
  | found hpage hfind =>
      obtain ⟨hsound, hsized, hcode⟩ := codePage_sized hs h hpage
      obtain ⟨howner, hord, -⟩ := find_spec hsound.registry hfind
      exact ⟨hsized, ⟨live_iff.mpr ⟨_, howner⟩, hord⟩, (code32_eq howner).trans (congrArg some (hcode _ rfl))⟩
  | missing hpage => exact ⟨(codePage_sized hs h hpage).2.1, trivial⟩
  | spent hheavy hrun =>
      have hreaches := hp.runNormal _ hrun
      rw [stepLog_of_heavy hheavy]
      exact ⟨reaches_sized hs h hreaches, by split <;> trivial⟩
  | called hheavy hrun =>
      have hreaches := hp.runNormal _ hrun
      rw [stepLog_of_heavy hheavy]
      exact ⟨reaches_sized hs h hreaches, trivial⟩
  | @compiled _ r _ _ _ hlight hresult =>
      obtain ⟨hsized, henter⟩ := compile_sized hs h hready hresult
      rw [stepLog_of_light hlight]
      cases r with
      | error err => exact ⟨hsized, trivial⟩
      | ok id => exact ⟨hsized, henter id rfl⟩
  | @entered _ _ r _ henter =>
      obtain ⟨hsized, hleave⟩ := enter_sized hp hsize hcode hb h hsuits henter
      cases r with
      | error err => exact ⟨hsized, trivial⟩
      | ok exit => exact ⟨hsized, hleave exit rfl⟩
  | linked _ hlink => exact link_sized hs h hsuits hlink
  | single _ hrun =>
      have hreaches := reaches_single hp hrun
      exact ⟨reaches_sized hs h hreaches, trivial⟩
  | iret _ hphase => exact ⟨h, by rcases hphase with rfl | rfl <;> trivial⟩
  | _ => exact ⟨h, trivial⟩

/-- In all states the dispatcher passes through, blocks are of the size they were decoded for, and what it is about to enter
is of the current one. -/
theorem Visits.sized (hp : p.Confined R) (hsize : p.KeepsSize) (h : Visits R p e phase log record) (hb : e.Bounded) :
    Sized log e.cache ∧ e.Suits phase := by
  have hcoded : ∀ {e : Engine σ} {phase log record}, Visits R p e phase log record →
      Programmed log e.cache e.code ∧ e.Ready phase := fun h =>
    h.keeps (Programmed.upkeep R fun _ => True) hp fun _ _ => trivial
  induction h with
  | start hnew henable hr cpu hmem host =>
      obtain ⟨code, -, -, hr'⟩ := Machine.enable_spec hnew henable
      obtain rfl := Option.some.inj (hr.symm.trans hr')
      exact ⟨Sized.create .., trivial⟩
  | outside h hbus cpu host stats trap ih =>
      have hs := (hcoded h).1.sound
      have hextent := (Extent.sustained R _ _).reaches (keeps_extent hs) hbus
      exact ⟨reaches_sized hs (ih (hb.of_extent hextent)).1 hbus, trivial⟩
  | search h hr ih =>
      have hs := (hcoded h).1.sound
      have hextent := ((Extent.sustained R _ _).codePage (keeps_extent hs) hr).1
      exact ⟨(codePage_sized hs (ih (hb.of_extent hextent)).1 hr).2.1, suits_afterSearch⟩
  | step h hr ih =>
      obtain ⟨hcode, hready⟩ := hcoded h
      have hextent := (step_keeps (Extent.sustained R _ _) hp (keeps_extent hcode.sound) hready (fun _ _ => trivial) hr).1
      have hb' := hb.of_extent hextent
      obtain ⟨hsized, hsuits⟩ := ih hb'
      exact step_sized hp hsize hcode hb' hsized hready hsuits hr
  | execute h hr ih =>
      have hs := (hcoded h).1.sound
      have hextent := enter_keeps (Extent.sustained R _ _).toDurable hp (keeps_extent hs) hr
      exact ⟨(enter_keeps (Sized.durable R) hp ⟨hs, (ih (hb.of_extent hextent)).1⟩ hr).2, trivial⟩

/-- In every state that can be reached, the pages of a block, of its companion and of all blocks it is linked to are watched
for code of one size, which is the size they were decoded for. When the dispatcher enters a block, that is the current one.
What runs from there on is a chain of blocks until the last of them leaves, and each of them was decoded for the code size
of the processor, which is the one it had when the first of them was entered. -/
theorem decoded_for_current_size (hp : p.Confined .free) (hsize : p.KeepsSize) (h : Visits .free p e phase log record)
    (hb : e.Bounded) :
    (∀ x, e.cache.Runnable x → ∃ b, decoded32 log x = some b ∧ e.cache.code32 x = some b ∧
      (∀ y, (e.cache.block x).companion = some y → e.cache.code32 y = some b) ∧
      ∀ slot y, (e.cache.linkSlot x slot).target = some y → e.cache.code32 y = some b ∧ decoded32 log y = some b) ∧
    ∀ id, phase = .enter id → e.cache.Runnable id ∧
      (∀ a, ReflTransGen (Hop p log) (id, e.activation) a →
        decoded32 log a.1 = some a.2.cpu.codeBig ∧ a.2.cpu.codeBig = e.guest.cpu.codeBig) ∧
      ∀ r e', (∃ fuel, e.enter p fuel id = .ok (r, e')) ↔
        ∃ a exit s, ReflTransGen (Hop p log) (id, e.activation) a ∧ Leaves p log a exit s ∧
          r = .ok ⟨exit, some a.1, s.callback⟩ ∧ e' = ⟨⟨s.cpu, s.env.bus, s.env.host⟩, e.code, s.env.stats, e.trap⟩ := by
  obtain ⟨hsized, hsuits⟩ := h.sized hp hsize hb
  have hcode := (h.keeps (Programmed.upkeep _ fun _ => True) hp fun _ _ => trivial).1
  refine ⟨fun x hx => ?_, fun id hid => ?_⟩
  · obtain ⟨m, hm⟩ := live_iff.mp hx.1
    have hx32 := code32_eq hm
    refine ⟨_, (hsized.decoded x hx).trans hx32, hx32, fun y hy => (hsized.paired x y hy).trans hx32, fun slot y hy => ?_⟩
    have hy32 := (hsized.linked x slot y hy).trans hx32
    exact ⟨hy32, (hsized.decoded y (hcode.sound.layout.linked.ends _ _ _ hy).2).trans hy32⟩
  · subst hid
    refine ⟨hsuits.1, fun a hchain => ?_, fun r e' => exists_enter_iff hp hsize hcode hb.addresses hb.blocks hsuits.1⟩
    obtain ⟨hunder, ha32⟩ := code32_of_chain hp hsize hcode hb hsized hsuits hchain
    refine ⟨?_, hunder.size⟩
    rw [hsized.decoded a.1 hunder.runnable, ha32, hunder.size]

/-! ### A block that is linked to itself -/

/-- The compilation of a jump to itself. -/
def loopBlock : Compilation :=
  ⟨{ Cpu.flat32 with cycles := 3 }, 0, Machine.onePage 0 [0xEB, 0xFE], Machine.watchedCache, Machine.scantCode⟩

theorem afterSearch_of_absent {c : Cache} {cpu : Cpu} {m : MonitorId} (h : c.find m (pageOffset cpu.ipLinear) = none) :
    afterSearch c cpu (.ok (some m)) = .create m :=
  if_pos h

/-- The machine with the block for the jump in its cache. -/
def loopEngine (c : Cache) (code : HostCode) (mem : Memory) (cpu : Cpu) (stats : Stats) : Engine Interpreter :=
  ⟨⟨cpu, ⟨mem, c⟩, {}⟩, code, stats, false⟩

/-- What is known of a cache with the block for the jump. -/
structure HasLoop (c : Cache) (mem : Memory) : Prop where
  resolve : mem.resolve 0 false = .ok 0
  monitor : c.monitorOf 0 = some 0
  code32 : (c.monitor 0).code32 = true
  find : c.find 0 0 = some 0
  stubs : c.stubs.get .first ≠ c.stubs.get .second

/-- The jump to itself is compiled and about to be entered. -/
theorem exists_visits_compiled :
    ∃ (c : Cache) (code : HostCode) (mem : Memory) (stats : Stats) (record : List MonitorId),
      Visits .free Interpreter.platform (loopEngine c code mem loopBlock.cpu stats) (.enter 0) [loopBlock] record ∧
        HasLoop c mem ∧ (loopEngine c code mem loopBlock.cpu stats).Bounded ∧ (c.linkSlot 0 .first).target = none ∧
        loopBlock.result = .ok (.ok 0, mem, c, code) := by
  have hconfined := Interpreter.platform_confined .free
  have hhistory : Machine.History .free Interpreter.platform (Machine.onePageMachine 0 [0xEB, 0xFE] loopBlock.cpu) [] :=
    Machine.history_onePageMachine _ trivial _
  obtain ⟨r, record, hr, hvisit⟩ := hhistory.visits hconfined
  obtain rfl : ⟨Machine.scantCache, Machine.scantCode⟩ = r := Option.some.inj hr
  have hsearch := hvisit.search (Machine.codePage_onePage 0 [0xEB, 0xFE] (by decide))
  have habsent : Machine.watchedCache.find 0 (pageOffset loopBlock.cpu.ipLinear) = none := by decide +kernel
  have hphase : afterSearch Machine.watchedCache loopBlock.cpu (.ok (some 0)) = .create 0 :=
    afterSearch_of_absent habsent
  obtain ⟨record, hcreate⟩ : ∃ record, Visits .free Interpreter.platform
      (loopEngine loopBlock.cache loopBlock.code loopBlock.mem loopBlock.cpu {}) (.create 0) [] record := ⟨_, hphase ▸ hsearch⟩
  obtain ⟨id, mem, c, code, hresult, hc⟩ := Machine.exists_created (r := loopBlock.result)
    (fun mem c _ => (mem.resolve 0 false).toOption == some 0 && (c.monitor 0).installed && (c.monitor 0).page == 0 &&
      (c.monitor 0).code32 && c.find 0 0 == some 0 && c.stubs.get .first != c.stubs.get .second &&
      (c.linkSlot 0 .first).target.isNone) (by decide +kernel)
  simp only [Bool.and_eq_true, beq_iff_eq, bne_iff_ne, Option.isNone_iff_eq_none] at hc
  obtain ⟨⟨⟨⟨⟨⟨hresolve, hinst⟩, hpage⟩, hcode⟩, hfind⟩, hstubs⟩, hfree⟩ := hc
  obtain ⟨hhoused, hpending⟩ := hcreate.keeps (Housed.upkeep _ fun _ => True) hconfined fun _ _ => trivial
  have hid : id = 0 := by
    rcases (Compilation.Pending.formed (k := loopBlock) hpending hhoused.sound hresult) with ⟨⟨err, herr⟩, -⟩ | ⟨hok, -⟩
    · cases herr
    · rw [Except.ok.inj hok]
      decide +kernel
  subst hid
  have hlight : (loopEngine loopBlock.cache loopBlock.code loopBlock.mem loopBlock.cpu {}).heavy 0 = false := by decide +kernel
  have hstep : (loopEngine loopBlock.cache loopBlock.code loopBlock.mem loopBlock.cpu {}).step Interpreter.platform 0 (.create 0) =
      .ok (.ok (.enter 0), loopEngine c code mem loopBlock.cpu { compilations := 1 }) := step_of_result hlight hresult 0
  have hnext := hcreate.step hstep
  rw [stepLog, if_neg (by simp [hlight])] at hnext
  obtain ⟨hsound, hblocks, haddresses⟩ :=
    (step_keeps (Extent.sustained .free _ _) hconfined (keeps_extent hhoused.sound) hpending (fun _ _ => trivial) hstep).1
  have hbounded : (loopEngine c code mem loopBlock.cpu { compilations := 1 }).Bounded :=
    ⟨hblocks.trans_lt (by decide +kernel), haddresses.trans_lt (by decide +kernel)⟩
  refine ⟨c, code, mem, _, _, hnext, ⟨?_, (hsound.watches.byPage _ _).mpr ⟨hinst, hpage⟩, hcode, hfind, hstubs⟩, hbounded, hfree, hresult⟩
  cases hm : mem.resolve 0 false with
  | error fault => rw [hm] at hresolve; cases hresolve
  | ok paddr => rw [hm] at hresolve; exact congrArg Except.ok (Option.some.inj hresolve)

/-- A pass through the block for the jump ends at the link slot, with one cycle charged. -/
theorem performs_loopBlock {s : Activation (BlockEnv Interpreter)} (hcycles : ¬s.cpu.cycles ≤ 0) :
    MicroOp.Performs (BlockEnv.helpers Interpreter.platform) loopBlock.ops loopBlock.ops s
      (.link (HostCode.linkEntryAddr 0 .first).toUInt64
        { s with cpu := { s.cpu with cycles := s.cpu.cycles - 1, eip := 0 }, running := 0 }) := by
  have hops : loopBlock.ops = Machine.jumpOps 0 := by decide +kernel
  rw [hops]
  exact Machine.performs_jumpOps Interpreter.platform 0 s hcycles

theorem find?_loopBlock : [loopBlock].find? (·.block = 0) = some loopBlock := by
  have hblock : loopBlock.block = 0 := by decide +kernel
  rw [List.find?_cons_of_pos (by simp [hblock])]

/-- A slot that is free can be linked to a block that is found for the current code size. -/
theorem linkCandidate_eq {c : Cache} {cpu : Cpu} {mem : Memory} {slot : Slot} {id target : BlockId} {paddr : UInt32} {m : MonitorId}
    (hid : c.Runnable id) (hfree : (c.linkSlot id slot).target = none) (hpaddr : mem.resolve cpu.ipLinear false = .ok paddr)
    (hm : c.monitorOf (pageOf paddr) = some m) (hcode : (c.monitor m).code32 = cpu.codeBig)
    (hfind : c.find m (pageOffset cpu.ipLinear) = some target) :
    linkCandidate c cpu mem (some id) slot = .ok (some (id, target)) := by
  have hfree' : ((c.block id).links.get slot).target = none := hfree
  simp [linkCandidate, hid.lt, hid.1, hid.2, hfree', hpaddr, hm, hcode, hfind, Except.toOption]

/-- The jump is run once, and the block is linked to itself. -/
theorem exists_visits_linked :
    ∃ (c : Cache) (code : HostCode) (mem : Memory) (stats : Stats) (record : List MonitorId),
      Visits .free Interpreter.platform (loopEngine c code mem { loopBlock.cpu with cycles := 3 - 1 } stats) (.enter 0) [loopBlock] record ∧
        (loopEngine c code mem { loopBlock.cpu with cycles := 3 - 1 } stats).Bounded ∧ c.Runnable 0 ∧
        (c.linkSlot 0 .first).target = some 0 := by
  have hconfined := Interpreter.platform_confined .free
  obtain ⟨c, code, mem, stats, record, hvisit, hloop, hb, hfree, -⟩ := exists_visits_compiled
  have hcode : Programmed [loopBlock] c code := (hvisit.keeps (Programmed.upkeep _ fun _ => True) hconfined fun _ _ => trivial).1
  have hs := hcode.sound
  obtain ⟨howner, hord, -⟩ := find_spec hs.registry hloop.find
  have hrunnable : c.Runnable 0 := ⟨live_iff.mpr ⟨0, howner⟩, hord⟩
  have htarget : BlockEnv.linkTarget (HostCode.linkEntryAddr 0 .first).toUInt64.toNat
      (loopEngine c code mem loopBlock.cpu stats).activation.env = .ok (c.slotAddr .first (c.linkSlot 0 .first).target) :=
    BlockEnv.linkTarget_eq hs hrunnable.lt hb.blocks .first
  rw [hfree] at htarget
  have hcycles : ¬loopBlock.cpu.cycles ≤ 0 := by decide
  -- The block leaves through the stub of its first slot.
  obtain ⟨fuel, henter⟩ := (exists_enter_iff hconfined Interpreter.platform_keepsSize hcode hb.addresses hb.blocks hrunnable).mpr
    ⟨_, .ofSlot Slot.first.index, _, .refl, .stub find?_loopBlock (performs_loopBlock hcycles) htarget, rfl, rfl⟩
  generalize hstats : (loopEngine c code mem loopBlock.cpu stats).activation.env.stats = stats₁ at henter
  have hleave : (loopEngine c code mem loopBlock.cpu stats).step Interpreter.platform fuel (.enter 0) =
      .ok (.ok (.leave ⟨.link1, some 0, 0⟩), loopEngine c code mem { loopBlock.cpu with cycles := 3 - 1 } stats₁) := by
    simp only [step, henter]
    rfl
  have hcandidate : linkCandidate c { loopBlock.cpu with cycles := 3 - 1 } mem (some 0) .first = .ok (some (0, 0)) :=
    linkCandidate_eq hrunnable hfree hloop.resolve hloop.monitor hloop.code32 hloop.find
  have hlink : (loopEngine c code mem { loopBlock.cpu with cycles := 3 - 1 } stats₁).step Interpreter.platform 0 (.leave ⟨.link1, some 0, 0⟩) =
      .ok (.ok (.enter 0), loopEngine (c.link 0 .first 0) code mem { loopBlock.cpu with cycles := 3 - 1 } { stats₁ with links := stats₁.links + 1 }) := by
    simp only [step, afterExit, loopEngine, followLink, hcandidate]
  have hnarrows := Narrows.link c 0 .first 0
  have hcore := (LinksApart.link c 0 .first 0).core 0
  refine ⟨_, _, _, _, _, (hvisit.step hleave).step hlink, ⟨hnarrows.size.trans_lt hb.blocks, hb.addresses⟩,
    ⟨(Block.live_eq_of_core hcore).trans hrunnable.1, (Block.isCompanion_eq_of_core hcore).trans hrunnable.2⟩, ?_⟩
  rw [linkSlot_link hrunnable.lt hrunnable.lt]
  rfl

/-- The jump to itself is compiled, run and linked. The block is about to be entered again, and goes on to itself. -/
theorem decoded_for_current_size_loop :
    ∃ (e : Engine Interpreter) (record : List MonitorId) (a : Entry Interpreter),
      Visits .free Interpreter.platform e (.enter 0) [loopBlock] record ∧ e.Bounded ∧ (e.cache.linkSlot 0 .first).target = some 0 ∧
        Hop Interpreter.platform [loopBlock] (0, e.activation) a ∧ a.1 = 0 ∧ e.cache.code32 0 = some true ∧ a.2.cpu.codeBig = true := by
  obtain ⟨c, code, mem, stats, record, hvisit, hb, hrunnable, hlinked⟩ := exists_visits_linked
  have hconfined := Interpreter.platform_confined .free
  have hs := (hvisit.keeps (Programmed.upkeep _ fun _ => True) hconfined fun _ _ => trivial).1.sound
  obtain ⟨hsizes, henter⟩ := decoded_for_current_size hconfined Interpreter.platform_keepsSize hvisit hb
  obtain ⟨-, hchain, -⟩ := henter 0 rfl
  have htarget : BlockEnv.linkTarget (HostCode.linkEntryAddr 0 .first).toUInt64.toNat
      (loopEngine c code mem { loopBlock.cpu with cycles := 3 - 1 } stats).activation.env =
        .ok (c.slotAddr .first (c.linkSlot 0 .first).target) :=
    BlockEnv.linkTarget_eq hs hrunnable.lt hb.blocks .first
  rw [hlinked] at htarget
  have hcycles : ¬({ loopBlock.cpu with cycles := 3 - 1 } : Cpu).cycles ≤ 0 := by decide
  have hhop : Hop Interpreter.platform [loopBlock]
      (0, (loopEngine c code mem { loopBlock.cpu with cycles := 3 - 1 } stats).activation) (0, _) :=
    ⟨loopBlock, _, find?_loopBlock, performs_loopBlock hcycles, hrunnable, htarget⟩
  obtain ⟨b, hb32, hc32, -⟩ := hsizes 0 hrunnable
  obtain ⟨hdec, hsame⟩ := hchain _ (.single hhop)
  have hbig : b = true := by
    rw [hdec, hsame] at hb32
    exact (Option.some.inj hb32).symm
  subst hbig
  exact ⟨_, record, _, hvisit, hb, hlinked, hhop, rfl, hc32, hsame⟩

end Engine

end Recompiler
