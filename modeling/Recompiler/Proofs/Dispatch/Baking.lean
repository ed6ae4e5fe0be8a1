import Recompiler.Proofs.Compile.Phases
import Recompiler.Proofs.Dispatch.Refetching
import Recompiler.Proofs.Dispatch.Termination

/-! Immediates that compiled code reads when it runs. They are the ones that decoding finds at the time, so that a block does
what it would do if they were part of its code. -/

namespace Recompiler

open MicroOp Scan

/-! ### Values at the width of the operation -/

theorem Cache.writeChecked_and_mask (w : Width) (value : UInt32) (c : Cache) (mem : Memory) (p : UInt32) (running : Option BlockId) :
    c.writeChecked mem p w (value &&& w.mask) running = c.writeChecked mem p w value running := by
  have hmask : value &&& w.mask &&& w.mask = value &&& w.mask := by rw [UInt32.and_assoc, UInt32.and_self]
  unfold Cache.writeChecked Memory.writeUnlessRom
  simp only [hmask, Memory.write_and_mask]

theorem BlockEnv.storeLinear_and_mask (w : Width) (value linear : UInt32) (running : Option BlockId) (bus : Bus Cache) :
    storeLinear linear w (value &&& w.mask) running bus = storeLinear linear w value running bus := by
  unfold storeLinear
  simp only [Cache.writeChecked_and_mask, w.split_and_mask]

theorem BlockEnv.narrow_helpers {σ : Type} (p : Platform σ) : (helpers p).Narrow := by
  intro linear w value
  funext running cpu env
  change store p linear w (value &&& w.mask) running cpu env = store p linear w value running cpu env
  unfold store
  dsimp only
  rw [storeLinear_and_mask]

/-! ### Instructions -/

theorem Kind.rebake_self {kind : Kind} {imm : Imm} (himm : immediateSource kind = some imm) : kind.rebake imm.value = kind := by
  unfold immediateSource at himm
  split at himm
  all_goals
    cases himm
  all_goals rfl

theorem Kind.source_rebake {kind : Kind} {imm : Imm} (himm : immediateSource kind = some imm) (value : UInt32) :
    immediateSource (kind.rebake value) = some { imm with value } := by
  unfold immediateSource at himm
  split at himm
  all_goals
    cases himm
  all_goals rfl

namespace Fetched

variable {f : Fetched}

/-- The instruction with the immediate that stands in memory as part of it. -/
def bake (f : Fetched) (mem : Memory) : Fetched :=
  ⟨f.current mem, none⟩

theorem bake_of_cold (hcold : f.hotImm = none) (mem : Memory) : f.bake mem = f := by
  rw [bake, current_of_cold (.inl hcold)]
  cases f
  cases hcold
  rfl

theorem endsBlock_bake (f : Fetched) (mem : Memory) : (f.bake mem).inst.endsBlock = f.inst.endsBlock := by
  unfold bake current Instruction.endsBlock
  cases f.inst.kind <;> rfl

/-- An immediate that is read when the block runs is the source of the instruction. -/
structure Sourced (f : Fetched) : Prop where
  hot : ∀ paddr, f.hotImm = some paddr → ∃ imm, ∃ size : Width, immediateSource f.inst.kind = some imm ∧ size.bytes = imm.size
  level : f.inst.kind.Level f.inst.width
  regular : f.inst.kind.Regular

theorem Sourced.cold_of_end (h : f.Sourced) (hends : f.inst.endsBlock = true) : f.hotImm = none := by
  cases hhot : f.hotImm with
  | none => rfl
  | some paddr =>
      obtain ⟨imm, size, himm, -⟩ := h.hot paddr hhot
      rw [Instruction.source_of_endsBlock hends] at himm
      cases himm

end Fetched

namespace Lowering

variable {σ : Type} {p : Platform σ} {ctx : LoweringContext} {f f' : Fetched} {s s' : Activation (BlockEnv σ)}

/-- Actions before an immediate is read: they leave memory alone. -/
theorem mem_of_done {as : List Action} {s₁ : Activation (BlockEnv σ)}
    (has : ∀ a ∈ as, a.blind = true ∨ ∃ dst addr w, a = .load dst addr w) (hdone : Action.Done (BlockEnv.helpers p) as s s₁) :
    s₁.env.bus.mem = s.env.bus.mem := by
  refine hdone.keeps (I := fun t => t.env.bus.mem = s.env.bus.mem) rfl fun a ha t t' hact hmem => ?_
  rcases has a ha with hblind | ⟨dst, addr, w, rfl⟩
  · cases a <;> first | cases hblind; done | (cases hact; exact hmem)
  · have hperf : Performs (BlockEnv.helpers p) [] [.act (.load dst addr w), .exit .iret] t (.exit .iret t') := .step hact .exit
    rw [performs_load] at hperf
    split at hperf
    · cases hperf
      exact hmem
    · cases hperf

/-- An immediate is read with its sign extended to the width of the operation. -/
theorem perform_loadPhys (p : Platform σ) (s : Activation (BlockEnv σ)) (dst : Tmp) (paddr : UInt32) (size w : Width) :
    (Action.loadPhys dst paddr size (size.bytes < w.bytes)).perform (BlockEnv.helpers p) s =
      .ok (none, s.put dst (w.extend size (s.env.bus.mem.read paddr size))) := by
  have hextend : w.extend size (s.env.bus.mem.read paddr size) =
      if decide (size.bytes < w.bytes) = true then size.signExtend (s.env.bus.mem.read paddr size) else s.env.bus.mem.read paddr size := by
    rw [Width.extend]
    simp
  rw [hextend]
  rfl

theorem immediate_of_hot {imm : Imm} {paddr : UInt32} (hhot : f.hotImm = some paddr) {size : Width} (hsize : size.bytes = imm.size)
    (dst : Tmp) : immediate f.hotImm imm f.inst.width dst = [.loadPhys dst paddr size (size.bytes < f.inst.width.bytes)] := by
  rw [hhot, immediate, ← hsize, Width.ofBytes?_bytes]
  rfl

/-- The same actions but for an immediate that one side reads and the other side has. -/
theorem tracks_immediate {as bs : List Action} {κ κ₁ κ₂ : Known} {dst : Tmp} {paddr : UInt32} {size w : Width} {value : UInt32}
    (hs : s.Agrees κ s') (has : ∀ a ∈ as, a.blind = true ∨ ∃ dst addr w, a = .load dst addr w)
    (hκ : κ.afterAll as = some κ₁) (hκ' : (κ₁.put dst w).afterAll bs = some κ₂)
    (hvalue : value = w.extend size (s.env.bus.mem.read paddr size)) :
    Tracks (BlockEnv.helpers p) (as ++ .loadPhys dst paddr size (size.bytes < w.bytes) :: bs) (as ++ .loadImm dst (value &&& w.mask) :: bs) s s' κ₂ := by
  have hnarrow := BlockEnv.narrow_helpers p
  refine .append (.of_afterAll hnarrow hs hκ) fun s₁ s₁' hdone hs₁ => .cons ?_ fun s₂ s₂' hs₂ => .of_afterAll hnarrow hs₂ hκ'
  rw [← mem_of_done has hdone] at hvalue
  rw [perform_loadPhys]
  refine .next (hs₁.put dst ?_)
  rw [hvalue, UInt32.and_assoc, UInt32.and_self]

theorem env_commence (ctx : LoweringContext) (f : Fetched) (s : Activation (BlockEnv σ)) : (commence ctx f s).env = s.env := by
  unfold commence
  split <;> rfl

/-- An instruction that reads its immediate, beside one that has it. -/
theorem tracks_hot {g : Fetched} {as bs : List Action} {dst : Tmp} {paddr : UInt32} {size w : Width} {κ : Known}
    (hs : s.Agrees ⟨false, fun _ => none⟩ s') (hip : g.inst.ip = f.inst.ip)
    (hactions : actions ctx f = as ++ .loadPhys dst paddr size (size.bytes < w.bytes) :: bs)
    (hactions' : actions ctx g = as ++ .loadImm dst (w.extend size (s.env.bus.mem.read paddr size) &&& w.mask) :: bs)
    (has : ∀ a ∈ as, a.blind = true ∨ ∃ dst addr w, a = .load dst addr w)
    (hκ : (Known.mk ((as ++ bs).any Action.callsHelper) fun _ => none).afterAll as = some κ)
    (hκ' : ((κ.put dst w).afterAll bs).isSome = true) :
    ∃ κ, Tracks (BlockEnv.helpers p) (publishActions f.inst.ip (actions ctx f)) (publishActions g.inst.ip (actions ctx g)) s s' κ := by
  obtain ⟨κ', hκ'⟩ := Option.isSome_iff_exists.mp hκ'
  have hcalls : (actions ctx f).any Action.callsHelper = true := by
    rw [hactions]
    simp [Action.callsHelper]
  have houtset : outset ctx g = ⟨(as ++ bs).any Action.callsHelper, fun _ => none⟩ := by
    rw [outset, hactions', List.any_append, List.any_append, List.any_cons]
    rfl
  have hs' : (commence ctx f s).Agrees (outset ctx g) (commence ctx g s') := agrees_commence hs hip fun _ => hcalls
  rw [houtset] at hs'
  refine ⟨κ', tracks_published ?_⟩
  rw [hactions, hactions']
  exact tracks_immediate hs' has hκ hκ' (by rw [env_commence])

/-- Where an instruction takes its immediate: what comes before and what comes after depend on nothing that is not known. -/
theorem exists_actions_eq (ctx : LoweringContext) {imm : Imm} (himm : immediateSource f.inst.kind = some imm)
    (hlevel : f.inst.kind.Level f.inst.width) (hregular : f.inst.kind.Regular) :
    ∃ as bs t κ, (∀ hotImm value, actions ctx ⟨{ f.inst with kind := f.inst.kind.rebake value }, hotImm⟩ =
        as ++ (immediate hotImm { imm with value } f.inst.width t ++ bs)) ∧
      (∀ a ∈ as, a.blind = true ∨ ∃ dst addr w, a = .load dst addr w) ∧
      (Known.mk ((as ++ bs).any Action.callsHelper) fun _ => none).afterAll as = some κ ∧
      ((κ.put t f.inst.width).afterAll bs).isSome = true := by
  unfold immediateSource at himm
  split at himm
  case h_4 => cases himm
  all_goals
    rename_i hkind
    cases himm
    simp only [hkind] at hlevel hregular ⊢
  · rename_i dst
    cases dst with
    | reg r =>
        have hwidth : r.width = f.inst.width := hlevel
        refine ⟨[], [.storeReg r .t0], .t0, _, fun _ _ => rfl, by simp, rfl, ?_⟩
        simp [Known.afterAll, Known.after, Known.has, Known.put, hwidth]
    | mem a =>
        refine ⟨address a .t2, [.store .t2 .t0 f.inst.width], .t0, _, fun _ _ => rfl, by simp [address, Action.blind], rfl, ?_⟩
        simp [Known.afterAll, Known.after, Known.has, Known.put, Action.callsHelper]
    | imm i => exact absurd hregular (by simp [Kind.Regular])
  · rename_i op dst
    cases dst with
    | reg r =>
        refine ⟨[.loadReg .t0 r], .alu op f.inst.width .t0 .t1 :: if op.writesResult then [.storeReg r .t0] else [], .t1, _,
          fun hotImm _ => by cases hotImm <;> rfl, by simp [Action.blind], rfl, ?_⟩
        cases op.writesResult <;> simp [Known.afterAll, Known.after, Known.has, Known.put]
    | mem a =>
        refine ⟨address a .t2 ++ [.load .t0 .t2 f.inst.width],
          .alu op f.inst.width .t0 .t1 :: if op.writesResult then [.store .t2 .t0 f.inst.width] else [], .t1, _,
          fun hotImm _ => by cases hotImm <;> rfl, by simp [address, Action.blind], rfl, ?_⟩
        cases op.writesResult <;> simp [Known.afterAll, Known.after, Known.has, Known.put, Action.callsHelper]
    | imm i => exact absurd hregular (by simp [Kind.Regular])
  · refine ⟨[], push ctx f.inst.width, .t0, _, fun _ _ => rfl, by simp, rfl, ?_⟩
    cases hstack : ctx.stack32 <;>
      simp [push, wrapStack, hstack, Known.afterAll, Known.after, Known.has, Known.put, Action.callsHelper]

/-- An instruction does the same with the immediate as part of it. -/
theorem tracks_bake (hs : s.Agrees ⟨false, fun _ => none⟩ s') (hf : f.Sourced) {mem : Memory}
    (hmem : f.current mem = f.current s.env.bus.mem) (ctx : LoweringContext) :
    ∃ κ, Tracks (BlockEnv.helpers p) (publishActions f.inst.ip (actions ctx f))
      (publishActions (f.bake mem).inst.ip (actions ctx (f.bake mem))) s s' κ := by
  cases hhot : f.hotImm with
  | none =>
      rw [Fetched.bake_of_cold hhot]
      exact tracks_self (BlockEnv.narrow_helpers p) hs ctx f
  | some paddr =>
      obtain ⟨imm, size, himm, hsize⟩ := hf.hot paddr hhot
      have hbake : f.bake mem = ⟨{ f.inst with kind := f.inst.kind.rebake (f.inst.width.extend size (s.env.bus.mem.read paddr size)) }, none⟩ := by
        rw [Fetched.bake, hmem, Compilation.current_eq_rebake hhot himm hsize]
      obtain ⟨as, bs, t, κ, hactions, has, hκ, hκ'⟩ := exists_actions_eq ctx himm hf.level hf.regular
      rw [hbake]
      refine tracks_hot hs rfl ?_ (hactions _ _) has hκ hκ'
      have hself := hactions f.hotImm imm.value
      rw [Kind.rebake_self himm] at hself
      exact hself.trans (congrArg (fun l => as ++ (l ++ bs)) (immediate_of_hot hhot hsize t))

/-! ### Blocks -/

variable {whole whole' : List MicroOp} {d : Departure (BlockEnv σ)} {stop : TraceEnd}

/-- What is left of a block does the same with the immediates of the time as part of it. -/
theorem departs_baked {code32 : Bool} {eip : UInt32} {l : List Fetched} {count n : Nat} {mems : Nat → Memory}
    (hfollows : Follows code32 eip l stop) (hl : ∀ f ∈ l, f.Sourced) (hs : s.Agrees ⟨false, fun _ => none⟩ s')
    (hreach : ∀ i f s₁, l[i]? = some f →
      Comes (BlockEnv.helpers p) whole (instructions ctx count l ++ ending ctx n stop, s)
        (instructions ctx (count + i) (l.drop i) ++ ending ctx n stop, s₁) → f.current (mems i) = f.current s₁.env.bus.mem)
    (hwell : WellFormed whole) (hwhole : (instructions ctx count l ++ ending ctx n stop) <:+ whole) (hwell' : WellFormed whole')
    (hwhole' : (instructions ctx count (l.mapIdx fun i f => f.bake (mems i)) ++ ending ctx n stop) <:+ whole')
    (hperf : Performs (BlockEnv.helpers p) whole (instructions ctx count l ++ ending ctx n stop) s d) :
    ∃ d', Performs (BlockEnv.helpers p) whole'
      (instructions ctx count (l.mapIdx fun i f => f.bake (mems i)) ++ ending ctx n stop) s' d' ∧ d.Alike d' := by
  induction l generalizing eip s s' count mems with
  | nil => exact departs_ending (BlockEnv.narrow_helpers p) hs hperf
  | cons f l ih =>
      obtain ⟨-, hfollows⟩ := hfollows
      have hsourced := hl f List.mem_cons_self
      rw [List.mapIdx_cons] at hwhole' ⊢
      by_cases hends : f.inst.endsBlock = true
      · rw [if_pos hends] at hfollows
        obtain ⟨rfl, rfl⟩ := hfollows
        rw [Fetched.bake_of_cold (hsourced.cold_of_end hends)] at hwhole' ⊢
        have hops : instructions ctx count [f] ++ ending ctx n .terminal = instruction ctx count f := by simp [instructions, ending]
        rw [List.mapIdx_nil] at hwhole' ⊢
        rw [hops] at hwhole hwhole' hperf ⊢
        obtain ⟨before, hwhole⟩ := hwhole
        obtain ⟨before', hwhole'⟩ := hwhole'
        exact departs_instruction (BlockEnv.narrow_helpers p) hs hends hwell hwhole.symm hwell' hwhole'.symm hperf
      · rw [if_neg hends] at hfollows
        have hops (g : Fetched) (hg : g.inst.endsBlock = false) (l : List Fetched) : instructions ctx count (g :: l) ++ ending ctx n stop =
            (publishActions g.inst.ip (actions ctx g)).map .act ++ (instructions ctx (count + 1) l ++ ending ctx n stop) := by
          rw [instructions, instruction_eq, departure_eq_nil ctx hg, List.append_nil, List.append_assoc]
        have hbaked : (f.bake (mems 0)).inst.endsBlock = false := by
          rw [Fetched.endsBlock_bake]
          exact Bool.eq_false_iff.2 hends
        rw [hops f (Bool.eq_false_iff.2 hends)] at hwhole hperf
        rw [hops _ hbaked] at hwhole' ⊢
        obtain ⟨κ, htracks⟩ := tracks_bake (p := p) hs hsourced (hreach 0 f s rfl .refl) ctx
        rcases htracks _ _ _ hperf with ⟨s₁, s₁', hdone, hdone', hs₁, hperf⟩ | ⟨d', hd, hperf'⟩
        · have hs₁ : s₁.Agrees ⟨false, fun _ => none⟩ s₁' := hs₁.mono (by simp) (by simp [Known.has])
          have hreach' : ∀ i g s₂, l[i]? = some g →
              Comes (BlockEnv.helpers p) whole (instructions ctx (count + 1) l ++ ending ctx n stop, s₁)
                (instructions ctx (count + 1 + i) (l.drop i) ++ ending ctx n stop, s₂) →
              g.current (mems (i + 1)) = g.current s₂.env.bus.mem := by
            intro i g s₂ hg hcomes
            refine hreach (i + 1) g s₂ hg ?_
            rw [hops f (Bool.eq_false_iff.2 hends), List.drop_succ_cons, Nat.add_comm i 1, ← Nat.add_assoc]
            exact (hdone.comes whole _).trans hcomes
          obtain ⟨d', hperf', hd⟩ := ih hfollows (fun g hg => hl g (List.mem_cons_of_mem _ hg)) hs₁ hreach'
            ((List.suffix_append _ _).trans hwhole) ((List.suffix_append _ _).trans hwhole') hperf
          exact ⟨d', hdone'.performs hperf', hd⟩
        · exact ⟨d', hperf' _ _, hd⟩

theorem follows_bake {code32 : Bool} {eip : UInt32} {l : List Fetched} (h : Follows code32 eip l stop) (mems : Nat → Memory) :
    Follows code32 eip (l.mapIdx fun i f => f.bake (mems i)) stop := by
  induction l generalizing eip mems with
  | nil => exact h
  | cons f l ih =>
      obtain ⟨hip, h⟩ := h
      rw [List.mapIdx_cons]
      refine ⟨hip, ?_⟩
      rw [Fetched.endsBlock_bake]
      split
      · rename_i hends
        rw [if_pos hends] at h
        exact ⟨by rw [h.1]; rfl, h.2⟩
      · rename_i hends
        rw [if_neg hends] at h
        exact ih h fun i => mems (i + 1)

end Lowering

/-- The trace with immediates as part of its instructions, each from the memory of its time. -/
def Trace.bake (t : Trace) (mems : Nat → Memory) : Trace :=
  { t with insts := t.insts.mapIdx fun i f => f.bake (mems i) }

namespace Lowering

variable {σ : Type}

/-- A block does what it does with the immediates of the time as part of it. -/
theorem departs_block {t : Trace} {code32 : Bool} {eip : UInt32} (hfollows : Follows code32 eip t.insts t.stop)
    (ht : ∀ f ∈ t.insts, f.Sourced) (p : Platform σ) (ctx : LoweringContext) (s : Activation (BlockEnv σ)) {mems : Nat → Memory}
    (hreach : ∀ i f s', t.insts[i]? = some f →
      Comes (BlockEnv.helpers p) (block ctx t) (block ctx t, s)
        (instructions ctx i (t.insts.drop i) ++ ending ctx t.insts.length t.stop, s') → f.current (mems i) = f.current s'.env.bus.mem) :
    ∃ d d', Performs (BlockEnv.helpers p) (block ctx t) (block ctx t) s d ∧
      Performs (BlockEnv.helpers p) (block ctx (t.bake mems)) (block ctx (t.bake mems)) s d' ∧ d.Alike d' := by
  have hshaped := shaped_block ctx hfollows
  have hwell := wellFormed_of_shaped hshaped
  have hwell' := wellFormed_of_shaped (shaped_block (t := t.bake mems) ctx (follows_bake hfollows mems))
  obtain ⟨d, hperf⟩ := hshaped.exists_performs (BlockEnv.helpers p) s
  have hlen : (t.bake mems).insts.length = t.insts.length := List.length_mapIdx
  have hops' : block ctx (t.bake mems) = .act (.enter ctx.block.toUInt32) ::
      (instructions ctx 0 (t.insts.mapIdx fun i f => f.bake (mems i)) ++ ending ctx t.insts.length t.stop) := by
    rw [block, hlen]
    rfl
  have hfirst : Performs (BlockEnv.helpers p) (block ctx t) (.act (.enter ctx.block.toUInt32) ::
      (instructions ctx 0 t.insts ++ ending ctx t.insts.length t.stop)) s d := hperf
  cases hfirst with
  | leave hact =>
      rename_i s₁ code
      refine ⟨_, .exit code s₁, hperf, ?_, .exit ⟨s₁.temps, rfl⟩⟩
      rw [hops']
      exact .leave hact
  | abort hact =>
      refine ⟨_, _, hperf, ?_, .abort⟩
      rw [hops']
      exact .abort hact
  | step hact hrest =>
      rename_i s₁
      have hreach' : ∀ i f s', t.insts[i]? = some f →
          Comes (BlockEnv.helpers p) (block ctx t) (instructions ctx 0 t.insts ++ ending ctx t.insts.length t.stop, s₁)
            (instructions ctx (0 + i) (t.insts.drop i) ++ ending ctx t.insts.length t.stop, s') →
          f.current (mems i) = f.current s'.env.bus.mem := by
        intro i f s' hf hcomes
        rw [Nat.zero_add] at hcomes
        exact hreach i f s' hf (.head (.act hact) hcomes)
      obtain ⟨d', hperf', hd⟩ := departs_baked hfollows ht (.refl s₁) hreach' hwell (List.suffix_cons ..) hwell'
        (hops' ▸ List.suffix_cons ..) hrest
      refine ⟨d, d', hperf, ?_, hd⟩
      rw [hops'] at hperf' ⊢
      exact .step hact hperf'

end Lowering

/-! ### Where immediates are read -/

/-- Physical address of the instruction at an instruction pointer, on the page where a block starts. -/
def Site.place (site : Site) (eip : UInt32) : UInt32 :=
  pageBase site.page + (pageOffset (site.cpu.base .cs + eip)).toUInt32

/-- What memory holds on the first page of a block from an instruction pointer on. -/
def Site.codeAt (site : Site) (mem : Memory) (eip : UInt32) : List UInt8 :=
  pageBytes mem site.page (pageOffset (site.cpu.base .cs + eip)) Encoding.maxLength

variable {site : Site} {mem : Memory} {f : Fetched} {paddr : UInt32} {imm : Imm}

theorem Site.codeAt_eq (site : Site) (mem : Memory) (eip : UInt32) : site.codeAt mem eip =
    codeBytes mem (site.place eip) (min Encoding.maxLength (pageSize - pageOffset (site.cpu.base .cs + eip))) := by
  unfold codeAt pageBytes codeBytes place
  refine List.map_congr_left fun i _ => ?_
  rw [add_toUInt32, UInt32.add_assoc]

/-- An immediate that is read when the block runs, and where. -/
structure Fetched.Hot (site : Site) (mem : Memory) (f : Fetched) (paddr : UInt32) (imm : Imm) : Prop where
  source : immediateSource f.inst.kind = some imm
  spelled : decode (site.codeAt mem f.inst.ip) f.inst.ip site.cpu.codeBig = .ok f.inst
  place : paddr = site.place f.inst.ip + imm.offset.toUInt32

/-- An address on a page, from its offset. -/
theorem pageBase_or_offset (page a : UInt32) : pageBase page ||| (a &&& 0xFFF) = pageBase page + (pageOffset a).toUInt32 := by
  have hand : (a &&& 0xFFF).toNat = pageOffset a := rfl
  have hlt : pageOffset a < 2 ^ 12 := pageOffset_lt a
  have hbase : (pageBase page).toNat = (page.toNat % 2 ^ 20) <<< 12 := by
    rw [toNat_pageBase, Nat.shiftLeft_eq]
    omega
  rw [← UInt32.toNat_inj, UInt32.toNat_or, UInt32.toNat_add, hand, toNat_ofNat_toUInt32 (by omega), hbase,
    ← Nat.shiftLeft_add_eq_or_of_lt hlt, Nat.shiftLeft_eq]
  omega

namespace Scan

variable {s s' : Scan} {eip : UInt32}

/-- An instruction that ends on the first page is decoded from that page. -/
theorem decode_of_decodeAt {inst : Instruction} (h : s.decodeAt site eip (site.cpu.base .cs + eip) = .ok (.ok (some inst), s'))
    (hpage : pageOf (site.cpu.base .cs + eip) = site.linearPage) (hfits : pageOffset (site.cpu.base .cs + eip) + inst.len ≤ pageSize) :
    decode (site.codeAt s.mem eip) eip site.cpu.codeBig = .ok inst := by
  generalize hr : (.ok (some inst) : Except CoreError (Option Instruction)) = r at h
  cases decodeAt_cases h with
  | first _ hdecode =>
      cases hr
      exact hdecode
  | scarce | alone | elsewhere => cases hr
  | across _ _ hneed =>
      -- The bytes of the first page would have been enough.
      obtain ⟨-, -, -, hmax, hstable⟩ := decode_ok (eq_ok_of_toOption (Except.ok.inj hr).symm)
      have hlen : inst.len ≤ (site.codeAt s.mem eip).length := by
        rw [Site.codeAt_eq, length_codeBytes]
        omega
      exact hstable _ (List.take_append_of_le_length hlen).symm
  | second hsecond => exact absurd (hpage.symm.trans hsecond) (by simp)

theorem exists_hot_of_fetch (h : s.fetch site eip = .ok (.ok (some f), s')) (hhot : f.hotImm = some paddr) :
    ∃ imm, f.Hot site s.mem paddr imm := by
  obtain ⟨s₁, hdecode, hmarked⟩ := decodeAt_of_fetch h
  obtain ⟨hpages, bytes, hbytes⟩ := decodeAt_some hdecode
  obtain ⟨hip, -, -, hmax, -⟩ := decode_ok hbytes
  rw [hmarked, hotImmediate] at hhot
  split at hhot
  · cases hhot
  · rename_i imm himm
    obtain ⟨hend, -, size, hsize, -, -⟩ := decode_rebake hbytes himm
    obtain ⟨⟨hfirst, hlast, -⟩, hpaddr⟩ := Option.ite_none_right_eq_some.mp hhot
    have hbyte : 0 < size.bytes := by cases size <;> decide
    have hmax : f.inst.len ≤ 15 := hmax
    generalize hlinear : site.cpu.base .cs + eip = linear at *
    have hoffset := pageOffset_lt linear
    -- The immediate is on the first page from its first byte to its last, and with it the instruction.
    have hnear : pageOf linear = site.linearPage ∧ pageOffset linear + imm.offset < pageSize := by
      rcases Nat.lt_or_ge (pageOffset linear + imm.offset) pageSize with hlt | hge
      · refine ⟨?_, hlt⟩
        rw [← hfirst, (page_add linear hlt).1]
      · have hpage := (page_add_next linear hge (by simp only [pageSize] at *; omega)).1
        rw [hfirst] at hpage
        have hpage := congrArg UInt32.toNat hpage
        have hlt := toNat_pageOf_lt linear
        have hone : (1 : UInt32).toNat = 1 := rfl
        rw [toNat_nextPage] at hpage
        rcases hpages with h | h
        · rw [← h] at hpage
          omega
        · rw [h, UInt32.toNat_add, hone] at hpage hlt
          have := site.linearPage.toNat_lt
          omega
    have hlast' : pageOf (linear + (f.inst.len - 1).toUInt32) = site.linearPage := by
      have hsum : f.inst.len - 1 = imm.offset + (imm.size - 1) := by omega
      rw [hsum, add_toUInt32]
      exact hlast
    have hfits : pageOffset linear + f.inst.len ≤ pageSize := by
      rcases Nat.lt_or_ge (pageOffset linear + (f.inst.len - 1)) pageSize with hlt | hge
      · omega
      · have hpage := (page_add_next linear hge (by simp only [pageSize] at *; omega)).1
        have hpage := congrArg UInt32.toNat (hlast'.symm.trans hpage)
        have hlt := toNat_pageOf_lt linear
        rw [toNat_nextPage, ← hnear.1] at hpage
        omega
    refine ⟨imm, himm, ?_, ?_⟩
    · rw [hip]
      subst hlinear
      exact decode_of_decodeAt hdecode hnear.1 hfits
    · obtain rfl := Option.some.inj hpaddr
      rw [Site.place, hip, hlinear, ← add_toUInt32, ← (page_add linear hnear.2).2]
      exact pageBase_or_offset site.page _

end Scan

/-- The instruction is decoded with the immediate that stands in memory, as long as what comes before that is as it was. -/
theorem Fetched.Hot.decode_codeAt (h : f.Hot site mem paddr imm) (hhot : f.hotImm = some paddr) {mem' : Memory}
    (hsame : (site.codeAt mem' f.inst.ip).take imm.offset = (site.codeAt mem f.inst.ip).take imm.offset) :
    decode (site.codeAt mem' f.inst.ip) f.inst.ip site.cpu.codeBig = .ok (f.current mem') := by
  obtain ⟨hend, -, size, hsize, -, hbake⟩ := decode_rebake h.spelled h.source
  obtain ⟨-, -, hlen, -, -⟩ := decode_ok h.spelled
  have hlen' : (site.codeAt mem' f.inst.ip).length = (site.codeAt mem f.inst.ip).length := by
    rw [Site.codeAt_eq, Site.codeAt_eq, length_codeBytes, length_codeBytes]
  rw [hbake _ hsame (hlen' ▸ hlen), Compilation.current_eq_rebake hhot h.source hsize]
  have hread : mem'.read paddr size = joinBytes (((site.codeAt mem' f.inst.ip).drop imm.offset).take imm.size) := by
    have hdrop : ((site.codeAt mem' f.inst.ip).drop imm.offset).take imm.size =
        ((site.codeAt mem' f.inst.ip).take (imm.offset + imm.size)).drop imm.offset := by
      rw [List.drop_take]
      congr 1
      omega
    have hjoin : mem'.read paddr size = joinBytes (codeBytes mem' paddr size.bytes) := rfl
    rw [Site.codeAt_eq, length_codeBytes] at hlen
    rw [hjoin, hdrop, Site.codeAt_eq, codeBytes_take _ _ (by omega), codeBytes_add, List.drop_left' (length_codeBytes ..), h.place, hsize]
  rw [hread]

theorem Site.codeAt_congr {mem' : Memory} (h : mem'.unreleased = mem.unreleased) (site : Site) (eip : UInt32) :
    site.codeAt mem' eip = site.codeAt mem eip := by
  rw [codeAt_eq, codeAt_eq, codeBytes_congr h]

/-- The instructions of a trace, with the immediates that are read when it runs. -/
theorem Scan.sourced_of_take {n : Nat} {eip : UInt32} {t : Trace} {s s' : Scan} (h : s.take site n eip = .ok (.ok t, s')) :
    ∀ f ∈ t.insts, f.Sourced ∧ ∀ paddr, f.hotImm = some paddr → ∃ imm, f.Hot site s.mem paddr imm := by
  intro f hf
  have hkeeps : ∀ {s₁ s₂ : Scan} {eip : UInt32} {f : Fetched}, s₁.mem.unreleased = s.mem.unreleased → s₁.fetch site eip = .ok (.ok (some f), s₂) →
      s₂.mem.unreleased = s.mem.unreleased := fun hs hfetch => (fetch_advances hfetch).memory.trans hs
  obtain ⟨s₁, s₂, eip, hmem, hfetch⟩ := fetch_of_take hkeeps rfl h f hf
  have hhot : ∀ paddr, f.hotImm = some paddr → ∃ imm, f.Hot site s.mem paddr imm := by
    intro paddr hpaddr
    obtain ⟨imm, hsource, hspelled, hplace⟩ := exists_hot_of_fetch hfetch hpaddr
    exact ⟨imm, hsource, by rwa [← Site.codeAt_congr hmem], hplace⟩
  obtain ⟨_, hdecode, -⟩ := decodeAt_of_fetch hfetch
  obtain ⟨-, bytes, hbytes⟩ := decodeAt_some hdecode
  refine ⟨⟨fun paddr hpaddr => ?_, decode_level hbytes, decode_regular hbytes⟩, hhot⟩
  obtain ⟨imm, hsource, -, -⟩ := hhot paddr hpaddr
  obtain ⟨-, -, size, hsize, -, -⟩ := decode_rebake hbytes hsource
  exact ⟨imm, size, hsource, hsize⟩

namespace Lowering

/-- The immediate of a decoded instruction is spelled by bytes of the instruction, with the sign extended to the width of
the operation. Where a block reads an immediate when it runs, it finds at this width what decoding would find at the time. And
the block does what it does with all immediates as part of it, each taken from memory when its instruction is reached. -/
theorem immediates_current :
    (∀ {bs : List UInt8} {ip : UInt32} {code32 : Bool} {inst : Instruction} {imm : Imm}, decode bs ip code32 = .ok inst →
      immediateSource inst.kind = some imm →
      imm.offset + imm.size ≤ inst.len ∧ inst.len ≤ bs.length ∧ ∃ size : Width, size.bytes = imm.size ∧
        size.bytes ≤ inst.width.bytes ∧ imm.value = inst.width.extend size (joinBytes ((bs.drop imm.offset).take imm.size))) ∧
    ∀ {site : Site} {n : Nat} {eip : UInt32} {t : Trace} {scan scan' : Scan}, scan.take site n eip = .ok (.ok t, scan') →
      (∀ f ∈ t.insts, ∀ paddr, f.hotImm = some paddr → ∃ (imm : Imm) (size : Width), immediateSource f.inst.kind = some imm ∧
        (∀ dst, immediate f.hotImm imm f.inst.width dst = [.loadPhys dst paddr size (size.bytes < f.inst.width.bytes)]) ∧
        ∀ {σ : Type} (p : Platform σ) (s : Activation (BlockEnv σ)) (dst : Tmp),
          (site.codeAt s.env.bus.mem f.inst.ip).take imm.offset = (site.codeAt scan.mem f.inst.ip).take imm.offset →
          ∃ (imm' : Imm) (value : UInt32),
            decode (site.codeAt s.env.bus.mem f.inst.ip) f.inst.ip site.cpu.codeBig = .ok (f.current s.env.bus.mem) ∧
            immediateSource (f.current s.env.bus.mem).kind = some imm' ∧
            (Action.loadPhys dst paddr size (size.bytes < f.inst.width.bytes)).perform (BlockEnv.helpers p) s =
              .ok (none, s.put dst value) ∧
            value &&& f.inst.width.mask = imm'.value &&& f.inst.width.mask) ∧
      ∀ {σ : Type} (p : Platform σ) (ctx : LoweringContext) (s : Activation (BlockEnv σ)) (mems : Nat → Memory),
        (∀ i f s', t.insts[i]? = some f →
          Comes (BlockEnv.helpers p) (block ctx t) (block ctx t, s)
            (instructions ctx i (t.insts.drop i) ++ ending ctx t.insts.length t.stop, s') →
          f.current (mems i) = f.current s'.env.bus.mem) →
        ∃ d d', Performs (BlockEnv.helpers p) (block ctx t) (block ctx t) s d ∧
          Performs (BlockEnv.helpers p) (block ctx (t.bake mems)) (block ctx (t.bake mems)) s d' ∧ d.Alike d' := by
  refine ⟨fun {bs ip code32 inst imm} hdecode himm => ?_, fun {site n eip t scan scan'} htake => ⟨fun f hf paddr hhot => ?_, ?_⟩⟩
  · obtain ⟨hend, -, size, hsize, hwide, hbake⟩ := decode_rebake hdecode himm
    obtain ⟨-, -, hlen, -, -⟩ := decode_ok hdecode
    refine ⟨hend.le, hlen, size, hsize, hwide, ?_⟩
    have hself := Except.ok.inj (hdecode.symm.trans (hbake bs rfl hlen))
    have hsource := congrArg (fun i => immediateSource i.kind) hself
    dsimp only at hsource
    rw [Kind.source_rebake himm, himm] at hsource
    exact congrArg Imm.value (Option.some.inj hsource)
  · obtain ⟨hsourced, hhots⟩ := sourced_of_take htake f hf
    obtain ⟨imm, hread⟩ := hhots paddr hhot
    obtain ⟨-, -, size, hsize, -, -⟩ := decode_rebake hread.spelled hread.source
    refine ⟨imm, size, hread.source, fun dst => immediate_of_hot hhot hsize dst, fun p s dst hsame => ?_⟩
    have hcurrent := Compilation.current_eq_rebake hhot hread.source hsize s.env.bus.mem
    refine ⟨{ imm with value := f.inst.width.extend size (s.env.bus.mem.read paddr size) }, _, hread.decode_codeAt hhot hsame, ?_,
      perform_loadPhys p s dst paddr size f.inst.width, rfl⟩
    rw [hcurrent]
    exact Kind.source_rebake hread.source _
  · intro σ p ctx s mems hreach
    exact departs_block (follows_of_take htake) (fun f hf => (sourced_of_take htake f hf).1) p ctx s hreach

/-- A page whose first instruction adds a byte that was overwritten often. -/
def patchedScan : Scan where
  cache := { Machine.watchedCache with
    monitors := Machine.watchedCache.monitors.modify 0 fun m => { m with overwrites := m.overwrites.set! 2 4 } }
  mem := Machine.onePage 0 [0x83, 0xC0, 0x01]

/-- The block is run when the byte is minus two. -/
def patchedRun : Activation (BlockEnv Interpreter) where
  cpu := { Cpu.flat32 with cycles := 1 }
  env := ⟨⟨Machine.onePage 0 [0x83, 0xC0, 0xFE], patchedScan.cache⟩, {}, {}⟩

def addInst : Instruction where
  ip := 0
  len := 3
  width := .w32
  kind := .alu .add (.reg ⟨.eax, .w32, false⟩) (.imm ⟨1, 2, 1⟩)

def addTrace : Trace where
  insts := [⟨addInst, some 2⟩]
  stop := .full 3

def patchedContext : LoweringContext := Compile.context Cpu.flat32 0

/-- The byte that is added is read when the block runs. -/
theorem immediates_current_add : ∃ (site : Site) (scan' : Scan) (f : Fetched) (imm imm' : Imm) (value : UInt32),
    patchedScan.take site 0 0 = .ok (.ok addTrace, scan') ∧ f ∈ addTrace.insts ∧ f.hotImm = some 2 ∧
    decode [0x83, 0xC0, 0x01] 0 true = .ok f.inst ∧ immediateSource f.inst.kind = some imm ∧
    imm.offset + imm.size ≤ f.inst.len ∧ imm.value = 1 ∧
    decode (site.codeAt patchedRun.env.bus.mem 0) 0 true = .ok (f.current patchedRun.env.bus.mem) ∧
    immediateSource (f.current patchedRun.env.bus.mem).kind = some imm' ∧ imm'.value = 0xFFFFFFFE ∧
    (Action.loadPhys .t1 2 .w8 true).perform (BlockEnv.helpers Interpreter.platform) patchedRun =
      .ok (none, patchedRun.put .t1 value) ∧ value &&& f.inst.width.mask = imm'.value &&& f.inst.width.mask ∧
    ∃ d d', Performs (BlockEnv.helpers Interpreter.platform) (block patchedContext addTrace) (block patchedContext addTrace) patchedRun d ∧
      Performs (BlockEnv.helpers Interpreter.platform) (block patchedContext (addTrace.bake fun _ => patchedRun.env.bus.mem))
        (block patchedContext (addTrace.bake fun _ => patchedRun.env.bus.mem)) patchedRun d' ∧ d.Alike d' := by
  obtain ⟨hdecoded, htaken⟩ := immediates_current
  have htest : (patchedScan.take ⟨Cpu.flat32, 0, 0, 0, 0⟩ 0 0).toOption.map Prod.fst = some (.ok addTrace) := by decide +kernel
  obtain ⟨scan', htake⟩ : ∃ scan', patchedScan.take ⟨Cpu.flat32, 0, 0, 0, 0⟩ 0 0 = .ok (.ok addTrace, scan') := by
    cases hresult : patchedScan.take ⟨Cpu.flat32, 0, 0, 0, 0⟩ 0 0 with
    | error _ =>
        rw [hresult] at htest
        cases htest
    | ok r =>
        rw [hresult] at htest
        obtain ⟨t, scan'⟩ := r
        cases htest
        exact ⟨scan', rfl⟩
  have hspelled : decode [0x83, 0xC0, 0x01] 0 true = .ok addInst := by decide +kernel
  obtain ⟨hend, -, -⟩ := hdecoded hspelled rfl
  obtain ⟨hread, hblock⟩ := htaken htake
  obtain ⟨imm, size, himm, hload, hread⟩ := hread ⟨addInst, some 2⟩ List.mem_cons_self 2 rfl
  obtain rfl : ⟨1, 2, 1⟩ = imm := Option.some.inj himm
  have hsize : [Action.loadPhys .t1 2 .w8 true] = [.loadPhys .t1 2 size (size.bytes < addInst.width.bytes)] := hload .t1
  obtain rfl : Width.w8 = size := (Action.loadPhys.inj (List.cons.inj hsize).1).2.2.1
  obtain ⟨imm', value, hdecode, himm', hperform, hvalue⟩ := hread Interpreter.platform patchedRun .t1 (by decide +kernel)
  have hcurrent : immediateSource (Fetched.current ⟨addInst, some 2⟩ patchedRun.env.bus.mem).kind = some ⟨0xFFFFFFFE, 2, 1⟩ := by decide +kernel
  obtain rfl : ⟨0xFFFFFFFE, 2, 1⟩ = imm' := Option.some.inj (hcurrent.symm.trans himm')
  refine ⟨_, scan', _, _, _, value, htake, List.mem_cons_self, rfl, hspelled, himm, hend, rfl, hdecode, himm', rfl, hperform, hvalue, ?_⟩
  refine hblock Interpreter.platform patchedContext patchedRun _ fun i f s' hf hcomes => ?_
  -- The block has no store.
  have hmem : s'.env.bus.mem = patchedRun.env.bus.mem := by
    refine hcomes.keeps (I := fun u => u.env.bus.mem = patchedRun.env.bus.mem) (fun a ha u u' hact hkept => ?_) (List.Subset.refl _) rfl
    have hops : block patchedContext addTrace = [.enter 0, .loadReg .t0 ⟨.eax, .w32, false⟩, .setEip 0, .loadPhys .t1 2 .w8 true,
        .alu .add .w32 .t0 .t1, .storeReg ⟨.eax, .w32, false⟩ .t0, .subCycles 1, .setEip 3].map MicroOp.act ++
        [link patchedContext .first] := by
      rfl
    rw [hops] at ha
    simp only [List.map_cons, List.map_nil, List.cons_append, List.nil_append, link, List.mem_cons, MicroOp.act.injEq, reduceCtorEq,
      List.not_mem_nil, or_false] at ha
    rcases ha with rfl | rfl | rfl | rfl | rfl | rfl | rfl | rfl
    · unfold Action.perform at hact
      dsimp only at hact
      split at hact
      · cases hact
      · cases hact
        exact hkept
    all_goals
      cases hact
      exact hkept
  rw [hmem]

end Lowering

end Recompiler
