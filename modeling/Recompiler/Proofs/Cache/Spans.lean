import Recompiler.Proofs.Cache.ClearRelease

/-! Spans of the arena. Opening a block clears what lived in the span at the cursor and in those it grows over;
closing it splits the span. Neither touches any other block, and the spans stay apart. -/

namespace Recompiler.Cache

variable {c c' : Cache} {id x n : BlockId} {E : Finset BlockId}

/-! ### Descriptors that hold no code -/

section Dead

variable {f : Block → Block} (hdead : (c.block id).live = false) (howner : (f (c.block id)).owner = none)
include hdead howner

theorem live_rewriteDead : ((c.modifyBlock id f).block x).live = true ↔ (c.block x).live = true := by
  rw [block_modifyBlock]
  split
  · rename_i hx
    rw [hx.1, hdead, Block.live, howner]
    simp
  · rfl

theorem block_rewriteDead (hx : (c.block x).live = true) : (c.modifyBlock id f).block x = c.block x := by
  refine block_modifyBlock_ne _ ?_ f
  rintro rfl
  rw [hdead] at hx
  exact absurd hx (by simp)

theorem owner_rewriteDead (m : MonitorId) :
    ((c.modifyBlock id f).block x).owner = some m ↔ (c.block x).owner = some m := by
  constructor
  · intro hx
    have hlive := (live_rewriteDead hdead howner).mp (live_iff.mpr ⟨m, hx⟩)
    rwa [block_rewriteDead hdead howner hlive] at hx
  · intro hx
    rwa [block_rewriteDead hdead howner (live_iff.mpr ⟨m, hx⟩)]

omit howner in
theorem companion_rewriteDead {a b : BlockId} (h : Paired c) (hcompanion : (f (c.block id)).companion = none) :
    ((c.modifyBlock id f).block a).companion = some b ↔ (c.block a).companion = some b := by
  rw [block_modifyBlock]
  split
  · rename_i ha
    rw [ha.1, hcompanion]
    refine ⟨fun h' => absurd h' (by simp), fun h' => ?_⟩
    have hlive := h.live id b h'
    rw [hdead] at hlive
    exact absurd hlive (by simp)
  · rfl

/-- What a descriptor without a block says is of no account. -/
theorem Orderly.rewriteDead (h : Orderly c) (hcompanion : (f (c.block id)).companion = none) :
    Orderly (c.modifyBlock id f) := by
  have hlive := fun x => live_rewriteDead (x := x) hdead howner
  have hblock := fun x => block_rewriteDead (x := x) hdead howner
  have hown := fun x m => owner_rewriteDead (x := x) hdead howner m
  have hr := h.registry
  have hcomp : ∀ a b, ((c.modifyBlock id f).block a).companion = some b ↔ (c.block a).companion = some b := fun a b =>
    companion_rewriteDead hdead h.paired hcompanion
  refine ⟨⟨⟨fun m hm => hr.bucketCount m hm, fun m i x => ?_, hr.nodup, fun x m hx => hr.installed x m ((hown x m).mp hx),
    fun x hx => ?_, fun x hx => ?_, fun x hx => ?_, fun x hx => ?_, fun a b m ha hb => ?_, fun m => ?_⟩,
    ⟨fun a b hab => ?_, fun a b hab => ?_, fun a b hab => ?_, fun b hb => ?_⟩⟩, h.valid,
    h.watches.congr rfl rfl rfl rfl rfl fun _ => rfl⟩
  · rw [hown]
    refine (hr.mem_bucket m i x).trans (and_congr_right fun hx => ?_)
    rw [hblock x (live_iff.mpr ⟨m, hx⟩)]
  · rw [hblock x ((hlive x).mp hx)]
    exact hr.start_le x ((hlive x).mp hx)
  · rw [hblock x ((hlive x).mp hx)]
    exact hr.last_lt x ((hlive x).mp hx)
  · rw [hblock x ((hlive x).mp hx)]
    exact hr.ordinary x ((hlive x).mp hx)
  · rw [hblock x ((hlive x).mp hx)]
    exact hr.companion x ((hlive x).mp hx)
  · have ha' := (hown a m).mp ha
    have hb' := (hown b m).mp hb
    rw [hblock a (live_iff.mpr ⟨m, ha'⟩), hblock b (live_iff.mpr ⟨m, hb'⟩)]
    exact hr.start_inj a b m ha' hb'
  · have howned : (c.modifyBlock id f).owned m = c.owned m := by
      ext x
      rw [mem_owned, mem_owned, hown]
    rw [howned]
    exact hr.active m
  · rw [hcomp] at hab ⊢
    exact h.paired.symm a b hab
  · rw [hcomp] at hab
    exact (hlive a).mpr (h.paired.live a b hab)
  · rw [hcomp] at hab
    rw [hblock a (h.paired.live a b hab), hblock b (h.paired.live b a (h.paired.symm a b hab))]
    exact h.paired.kind a b hab
  · rw [hblock b ((hlive b).mp hb)]
    exact h.paired.partner b ((hlive b).mp hb)

theorem dependents_rewriteDead (m : MonitorId) (i : Nat) : (c.modifyBlock id f).dependents m i = c.dependents m i := by
  ext x
  rw [mem_dependents, mem_dependents, owner_rewriteDead hdead howner]
  refine and_congr_right fun hx => ?_
  rw [block_rewriteDead hdead howner (live_iff.mpr ⟨m, hx⟩)]

theorem CappedAt.rewriteDead {U : Nat → Finset BlockId} (h : CappedAt c U) : CappedAt (c.modifyBlock id f) U :=
  h.of_dependents (dependents_rewriteDead hdead howner) fun _ => rfl

theorem Exact.rewriteDead (he : Exact c E) (h : Paired c) (hcompanion : (f (c.block id)).companion = none) :
    Exact (c.modifyBlock id f) E := by
  refine ⟨fun a b m n hab ha hm hn => ?_, he.census.size, fun m hm i hi => ?_⟩
  · rw [companion_rewriteDead hdead h hcompanion] at hab
    rw [block_rewriteDead hdead howner (h.live a b hab)] at ha
    exact he.adjacent a b m n hab ha ((owner_rewriteDead hdead howner m).mp hm) ((owner_rewriteDead hdead howner n).mp hn)
  · rw [dependents_rewriteDead hdead howner]
    exact he.census.count m hm i hi

end Dead

/-! ### The free list -/

theorem tenant_pushFree (c : Cache) (n x : BlockId) : ((c.pushFree n).block x).tenant = (c.block x).tenant :=
  map_block_modifyBlock c n x fun _ => rfl

theorem Orderly.pushFree (h : Orderly c) (n : BlockId) : Orderly (c.pushFree n) := by
  have htenant := tenant_pushFree c n
  exact ⟨⟨h.registry.congr rfl (fun x => Block.claim_eq_of_tenant (htenant x)) rfl (fun _ => rfl)
    h.registry.installed h.registry.active, h.paired.congr htenant⟩, h.valid, h.watches.congr rfl rfl rfl rfl rfl fun _ => rfl⟩

theorem Exact.pushFree (h : Exact c E) (n : BlockId) : Exact (c.pushFree n) E := by
  have htenant := tenant_pushFree c n
  exact ⟨h.adjacent.congr htenant fun _ _ _ => rfl,
    h.census.congr (fun x => Block.claim_eq_of_tenant (htenant x)) fun _ hm => ⟨hm, rfl⟩⟩

theorem unlinked_pushFree (c : Cache) (n x : BlockId) (hn : n < c.blocks.size) :
    ((c.pushFree n).block x).unlinked =
      if x = n then { (c.block x).unlinked with freeNext := c.freeHead } else (c.block x).unlinked := by
  change ((c.modifyBlock n fun b => { b with freeNext := c.freeHead }).block x).unlinked = _
  by_cases hx : x = n
  · subst hx
    rw [block_modifyBlock_self hn, if_pos rfl]
    rfl
  · rw [block_modifyBlock_ne _ hx, if_neg hx]

theorem core_pushFree (c : Cache) (n x : BlockId) : ((c.pushFree n).block x).core = (c.block x).core :=
  map_block_modifyBlock c n x fun _ => rfl

theorem runnable_pushFree (c : Cache) (n : BlockId) : (c.pushFree n).Runnable = c.Runnable := by
  funext x
  rw [Runnable, Block.live_eq_of_core (core_pushFree c n x), Block.isCompanion_eq_of_core (core_pushFree c n x), Runnable]

theorem Linked.pushFree {P : BlockId → Prop} (h : Linked c P) (n : BlockId) : Linked (c.pushFree n) P := by
  have hmodify : Linked (c.modifyBlock n fun b => { b with freeNext := c.freeHead }) P :=
    Clearable.linked_modifyBlock h n (fun _ => rfl) fun _ => rfl
  exact hmodify.congr rfl rfl rfl rfl (fun _ _ => rfl) (fun _ _ => rfl) fun _ hx => hx

/-! ### Growing a span -/

/-- Blocks were cleared, and the write maps are right if they were. -/
structure Thinned (c c' : Cache) : Prop where
  shrinks : Shrinks c c'
  exact : Exact c ∅ → Exact c' ∅
  capped : ∀ U, CappedAt c U → CappedAt c' U

namespace Thinned

theorem refl (c : Cache) : Thinned c c :=
  ⟨.refl c, id, fun _ hcap => hcap⟩

theorem trans {c'' : Cache} (h : Thinned c c') (h' : Thinned c' c'') : Thinned c c'' :=
  ⟨h.shrinks.trans h'.shrinks, fun he => h'.exact (h.exact he), fun U hcap => h'.capped U (h.capped U hcap)⟩

theorem pushFree (c : Cache) (n : BlockId) : Thinned c (c.pushFree n) :=
  ⟨⟨.pushFree c n, fun x _ => core_pushFree c n x, fun _ => rfl⟩, fun he => he.pushFree n,
    fun _ hcap => hcap.congr (fun x => Block.claim_eq_of_tenant (tenant_pushFree c n x)) fun _ => rfl⟩

end Thinned

/-- What is left of a sound cache while a span grows: the spans are of the sizes and in the order that it will have. -/
structure Reshaped (next : BlockId → Option BlockId) (size : BlockId → Nat) (c : Cache) : Prop extends Orderly c where
  pool : ∃ spans free, Pool c next size spans free none
  linked : Linked c c.Runnable
  calm : c.stats.anomalies = 0

theorem Sound.reshaped (h : Sound c) : Reshaped (fun b => (c.block b).arenaNext) (fun b => (c.block b).codeSize) c :=
  ⟨h.toOrderly, h.layout.pool, h.layout.linked, h.calm⟩

/-- Clearing whatever a descriptor holds leaves it dead. -/
structure Vacated (n : BlockId) (c d : Cache) : Prop where
  thinned : Thinned c d
  dead : (d.block n).live = false
  arenaNext : ∀ x, (d.block x).arenaNext = (c.block x).arenaNext
  codeSize : ∀ x, (d.block x).codeSize = (c.block x).codeSize

theorem clearIfLive_spec {next : BlockId → Option BlockId} {size : BlockId → Nat} (h : Reshaped next size c) (n : BlockId) :
    Reshaped next size (c.clearIfLive n) ∧ Vacated n c (c.clearIfLive n) := by
  unfold clearIfLive
  split
  · rename_i hlive
    have hc := h.clearable hlive
    obtain ⟨spans, free, hp⟩ := h.pool
    obtain ⟨free', hp'⟩ := hp.clearBlock h.toArranged hlive
    refine ⟨⟨h.toOrderly.clearBlock hlive, ⟨spans, free', hp'⟩, h.linked.clearBlock h.toArranged hlive, ?_⟩,
      ⟨.clearBlock h.toArranged hlive, fun he => he.clearBlock h.toArranged hlive (by simp),
        fun _ hcap => hcap.clearBlock h.toArranged hlive⟩, ?_, hc.arenaNext_clearBlock, hc.codeSize_clearBlock⟩
    · rw [hc.anomalies_clearBlock h.linked (fun x hx => hx.2) fun x _ => h.registry.listed x]
      exact h.calm
    · rw [Bool.eq_false_iff, Ne, hc.live_clearBlock]
      exact fun h' => h'.1 (c.part_self n)
  · rename_i hlive
    exact ⟨h, .refl c, Bool.eq_false_iff.mpr hlive, fun _ => rfl, fun _ => rfl⟩

/-- The span of an open block that grows: its descriptor still has the old size and successor. -/
structure Absorbing (id : BlockId) (size : Nat) (next : Option BlockId) (c : Cache) : Prop where
  reshaped : Reshaped (Function.update (fun b => (c.block b).arenaNext) id next)
    (Function.update (fun b => (c.block b).codeSize) id size) c
  dead : (c.block id).live = false
  active : c.active = id

theorem Pool.absorb {next : BlockId → Option BlockId} {size : BlockId → Nat} {spans free : List BlockId}
    (h : Pool c next size spans free none) (hactive : c.active = id) (hn : next id = some n)
    (hdead : (c.block n).live = false) :
    ∃ spans' free', Pool (c.pushFree n) (Function.update next id (next n)) (Function.update size id (size id + size n))
      spans' free' none := by
  obtain ⟨before, after, rfl, -, hafter⟩ := h.spanPath.tail_of_mem (hactive ▸ h.active)
  rw [hn] at hafter
  obtain ⟨rest, rfl⟩ : ∃ rest, after = n :: rest := by
    cases after with
    | nil => exact absurd (Path.nil_iff.mp hafter) (by simp)
    | cons a rest => exact ⟨rest, by rw [Option.some.inj hafter.1]⟩
  have hnodup := h.spanPath.nodup
  simp only [List.nodup_append, List.nodup_cons, List.mem_cons, not_or, ne_eq, forall_eq_or_imp] at hnodup
  obtain ⟨-, ⟨⟨hidn, hidrest⟩, hnrest, -⟩, hbefore⟩ := hnodup
  have hmem : n ∈ before ++ id :: n :: rest := by simp
  have hnlt := h.spans_lt n hmem
  have hsub : ∀ x ∈ before ++ id :: rest, x ∈ before ++ id :: n :: rest ∧ x ≠ n := by
    intro x hx
    rcases List.mem_append.mp hx with hx | hx
    · exact ⟨List.mem_append_left _ hx, (hbefore x hx).2.1⟩
    · rcases List.mem_cons.mp hx with rfl | hx
      · exact ⟨by simp, hidn⟩
      · exact ⟨by simp [hx], fun h' => hnrest (h' ▸ hx)⟩
  have hlive : ∀ x, ((c.pushFree n).block x).live = (c.block x).live := fun x => Block.live_eq_of_core (core_pushFree c n x)
  have hcomp : ∀ x, ((c.pushFree n).block x).isCompanion = (c.block x).isCompanion := fun x =>
    Block.isCompanion_eq_of_core (core_pushFree c n x)
  have hstart : ∀ x, ((c.pushFree n).block x).codeStart = (c.block x).codeStart := fun x =>
    Block.codeStart_eq_of_core (core_pushFree c n x)
  have hsize : (c.pushFree n).blocks.size = c.blocks.size := (ShellSame.pushFree c n).size
  have hfreeNext : ∀ x, ((c.pushFree n).block x).freeNext = if x = n then c.freeHead else (c.block x).freeNext := fun x => by
    rw [← Block.unlinked_freeNext, unlinked_pushFree c n x hnlt]
    split <;> rfl
  refine ⟨before ++ id :: rest, n :: free, ?_, ?_, fun x hx => ?_, fun x hx => ?_, fun x hx => ?_, fun x hx => ?_,
    fun x hx => ?_, fun x hx => ?_, fun x hx hloose => ?_, ?_, ?_, ?_⟩
  · exact h.spanPath.bypass (fun b hb _ => Function.update_of_ne hb _ _) (Function.update_self ..)
  · refine ⟨rfl, ?_⟩
    dsimp only
    rw [hfreeNext, if_pos rfl]
    refine h.freePath.congr fun x hx => ?_
    rw [hfreeNext, if_neg]
    rintro rfl
    exact h.apart x hmem hx
  · rintro (_ | ⟨_, hx'⟩)
    · exact (hsub n hx).2 rfl
    · exact h.apart x (hsub x hx).1 hx'
  · rw [hsize]
    exact h.spans_lt x (hsub x hx).1
  · rw [hsize]
    rcases List.mem_cons.mp hx with rfl | hx
    · exact hnlt
    · exact h.free_lt x hx
  · rw [hlive]
    rcases List.mem_cons.mp hx with rfl | hx
    · exact hdead
    · exact h.free_dead x hx
  · rw [hcomp]
    exact h.ordinary x (hsub x hx).1
  · rw [runnable_pushFree] at hx
    have hspan := h.span_of_live x hx
    have hxn : x ≠ n := by
      rintro rfl
      rw [Runnable, hdead] at hx
      exact absurd hx.1 (by simp)
    simp only [List.mem_append, List.mem_cons, hxn, false_or] at hspan ⊢
    exact hspan
  · rw [hlive, hcomp]
    rw [hsize] at hx
    rcases h.placed x hx hloose with hspan | hfree | hcompanion
    · by_cases hxn : x = n
      · exact .inr (.inl (by simp [hxn]))
      · simp only [List.mem_append, List.mem_cons, hxn, false_or] at hspan ⊢
        exact .inl hspan
    · exact .inr (.inl (List.mem_cons_of_mem n hfree))
    · exact .inr (.inr hcompanion)
  · change c.active ∈ _
    rw [hactive]
    simp
  · have hmerged := h.tiled.merge (fun h' => (hbefore id h').1 rfl) hidrest
    exact hmerged.congr (fun x _ => hstart x) fun _ _ => rfl
  · rw [hstart]
    exact h.cursor

namespace Absorbing

variable {size : Nat} {next : Option BlockId}

theorem lt (h : Absorbing id size next c) : id < c.blocks.size := by
  obtain ⟨spans, free, hp⟩ := h.reshaped.pool
  exact hp.spans_lt id (h.active ▸ hp.active)

/-- The span that follows is another one, and it is not empty. -/
theorem next_spec (h : Absorbing id size (some n) c) : n ≠ id ∧ 0 < (c.block n).codeSize := by
  obtain ⟨spans, free, hp⟩ := h.reshaped.pool
  obtain ⟨before, after, rfl, -, hafter⟩ := hp.spanPath.tail_of_mem (h.active ▸ hp.active)
  rw [Function.update_self] at hafter
  have hnodup := hp.spanPath.nodup
  cases after with
  | nil => exact absurd (Path.nil_iff.mp hafter) (by simp)
  | cons a rest =>
      obtain rfl : n = a := Option.some.inj hafter.1
      have hne : n ≠ id := by
        rintro rfl
        simp [List.nodup_append] at hnodup
      have hpos := (hp.tiled.bounds (a := n) (by simp)).2.1
      rw [Function.update_of_ne hne] at hpos
      exact ⟨hne, hpos⟩

/-- The last span reaches up to the end of the block area, and the cursor leaves room for a block. -/
theorem room (h : Absorbing id size none c) : c.settings.maxBlockSize ≤ size := by
  obtain ⟨spans, free, hp⟩ := h.reshaped.pool
  obtain ⟨before, after, rfl, -, hafter⟩ := hp.spanPath.tail_of_mem (h.active ▸ hp.active)
  rw [Function.update_self] at hafter
  cases after with
  | nil =>
      have hend := hp.tiled.last_end
      have hcursor := hp.cursor
      rw [Function.update_self] at hend
      rw [h.active] at hcursor
      omega
  | cons a rest => exact absurd hafter.1 (by simp)

theorem step (h : Absorbing id size (some n) c) :
    Absorbing id (size + (c.block n).codeSize) (c.block n).arenaNext ((c.clearIfLive n).pushFree n) ∧
      Thinned c ((c.clearIfLive n).pushFree n) := by
  obtain ⟨hr, hv⟩ := clearIfLive_spec h.reshaped n
  obtain ⟨hne, -⟩ := h.next_spec
  generalize c.clearIfLive n = d at hr hv
  have hactive : d.active = id := hv.thinned.shrinks.same.active.trans h.active
  obtain ⟨spans, free, hp⟩ := hr.pool
  obtain ⟨spans', free', hp'⟩ := hp.absorb hactive (Function.update_self ..) hv.dead
  refine ⟨⟨⟨hr.toOrderly.pushFree n, ⟨spans', free', ?_⟩, ?_, hr.calm⟩, ?_, hactive⟩, hv.thinned.trans (.pushFree d n)⟩
  · have hnext : Function.update (Function.update (fun b => (c.block b).arenaNext) id (some n)) id
        (Function.update (fun b => (c.block b).arenaNext) id (some n) n) =
        Function.update (fun b => ((d.pushFree n).block b).arenaNext) id (c.block n).arenaNext := by
      rw [Function.update_idem, Function.update_of_ne hne]
      congr 1
      exact funext fun b => ((Block.arenaNext_eq_of_core (core_pushFree d n b)).trans (hv.arenaNext b)).symm
    have hcode : Function.update (Function.update (fun b => (c.block b).codeSize) id size) id
        (Function.update (fun b => (c.block b).codeSize) id size id +
          Function.update (fun b => (c.block b).codeSize) id size n) =
        Function.update (fun b => ((d.pushFree n).block b).codeSize) id (size + (c.block n).codeSize) := by
      rw [Function.update_idem, Function.update_self, Function.update_of_ne hne]
      congr 1
      exact funext fun b => ((Block.codeSize_eq_of_core (core_pushFree d n b)).trans (hv.codeSize b)).symm
    rw [hnext, hcode] at hp'
    exact hp'
  · rw [runnable_pushFree]
    exact hr.linked.pushFree n
  · rw [Block.live_eq_of_core (core_pushFree d n id), Bool.eq_false_iff]
    intro hlive
    have hlive' := hv.thinned.shrinks.live hlive
    rw [h.dead] at hlive'
    exact absurd hlive' (by simp)

end Absorbing

/-- The span grows until it has room for a block: with every span it takes in its size rises, so that the fuel
suffices. -/
theorem absorb_spec (fuel : Nat) {size : Nat} {next : Option BlockId} (h : Absorbing id size next c)
    (hfuel : c.settings.maxBlockSize ≤ size + fuel) :
    Absorbing id (absorb fuel size next c).1 (absorb fuel size next c).2.1 (absorb fuel size next c).2.2 ∧
      Thinned c (absorb fuel size next c).2.2 ∧ c.settings.maxBlockSize ≤ (absorb fuel size next c).1 := by
  induction fuel generalizing c size next with
  | zero => exact ⟨h, .refl c, hfuel⟩
  | succ fuel ih =>
      unfold absorb
      split
      · rename_i hroom
        exact ⟨h, .refl c, hroom⟩
      · cases next with
        | none => exact ⟨h, .refl c, h.room⟩
        | some n =>
            dsimp only
            obtain ⟨hstep, hthinned⟩ := h.step
            have hpos := h.next_spec.2
            have hsettings := hthinned.shrinks.same.settings
            obtain ⟨hrest, hthinned', hroom⟩ := ih hstep (by rw [hsettings]; omega)
            rw [hsettings] at hroom
            exact ⟨hrest, hthinned.trans hthinned', hroom⟩

/-- What opening a block does: it takes the span at the cursor, blank, and large enough for a block. -/
structure Opened (c : Cache) (id : BlockId) (c' : Cache) : Prop where
  eq_active : id = c.active
  sound : Sound c'
  exact : Exact c ∅ → Exact c' ∅
  capped : ∀ U, CappedAt c U → CappedAt c' U
  shrinks : Shrinks c { c' with building := c.building }
  building : c'.building = some id
  active : c'.active = id
  dead : (c'.block id).live = false
  mask : (c'.block id).mask = none
  room : c'.settings.maxBlockSize ≤ (c'.block id).codeSize

/-- The descriptor of an open block takes on the size and the successor of the grown span. -/
theorem Absorbing.settle {size : Nat} {next : Option BlockId} (h : Absorbing id size next c) {f : Block → Block}
    (hf : ∀ b, f b = { b with codeSize := size, arenaNext := next, mask := none, companion := none }) :
    Sound (c.modifyBlock id f) ∧ (Exact c ∅ → Exact (c.modifyBlock id f) ∅) ∧
      ∀ U, CappedAt c U → CappedAt (c.modifyBlock id f) U := by
  obtain ⟨spans, free, hp⟩ := h.reshaped.pool
  have howner : (f (c.block id)).owner = none := by
    rw [hf]
    simpa [Block.live] using h.dead
  have hcompanion : (f (c.block id)).companion = none := by rw [hf]
  have hlt := h.lt
  have hfield : ∀ {α : Type} (g : Block → α) (_ : ∀ b, g (f b) = g b) (x : BlockId),
      g ((c.modifyBlock id f).block x) = g (c.block x) := fun g hg x => map_block_modifyBlock c id x hg
  have hlive := hfield Block.live fun b => by rw [hf]; rfl
  have hcomp := hfield Block.isCompanion fun b => by rw [hf]; rfl
  have hnext : (fun b => ((c.modifyBlock id f).block b).arenaNext) =
      Function.update (fun b => (c.block b).arenaNext) id next := by
    funext b
    by_cases hb : b = id
    · rw [hb, Function.update_self, block_modifyBlock_self hlt, hf]
    · rw [Function.update_of_ne hb, block_modifyBlock_ne _ hb]
  have hcode : (fun b => ((c.modifyBlock id f).block b).codeSize) =
      Function.update (fun b => (c.block b).codeSize) id size := by
    funext b
    by_cases hb : b = id
    · rw [hb, Function.update_self, block_modifyBlock_self hlt, hf]
    · rw [Function.update_of_ne hb, block_modifyBlock_ne _ hb]
  have hr := h.reshaped
  refine ⟨⟨hr.toOrderly.rewriteDead h.dead howner hcompanion, ⟨⟨spans, free, ?_⟩, ?_⟩, hr.calm⟩,
    fun he => he.rewriteDead h.dead howner hr.paired hcompanion, fun _ hcap => hcap.rewriteDead h.dead howner⟩
  · rw [hnext, hcode]
    exact hp.congr hlive hcomp (hfield Block.freeNext fun b => by rw [hf]) (hfield Block.codeStart fun b => by rw [hf]) rfl
      (size_modifyBlock c id f) rfl rfl rfl
  · refine (Clearable.linked_modifyBlock hr.linked id (fun b => by rw [hf]) fun b => by rw [hf]).mono fun x hx => ?_
    rw [Runnable, hlive, hcomp]
    exact hx

theorem openBlock_spec (h : Sound c) : Opened c c.openBlock.1 c.openBlock.2 := by
  obtain ⟨hr, hv⟩ := clearIfLive_spec h.reshaped c.active
  unfold openBlock
  dsimp only
  generalize c.clearIfLive c.active = d at hr hv
  have habs : Absorbing c.active (d.block c.active).codeSize (d.block c.active).arenaNext d := by
    refine ⟨?_, hv.dead, hv.thinned.shrinks.same.active⟩
    rw [Function.update_eq_self_iff.mpr rfl, Function.update_eq_self_iff.mpr rfl]
    simpa only [hv.arenaNext, hv.codeSize] using hr
  obtain ⟨habs', hthinned, hroom⟩ := absorb_spec (d.blocks.size + d.settings.maxBlockSize) habs (by omega)
  generalize absorb _ _ _ d = r at habs' hthinned hroom
  obtain ⟨size, next, e⟩ := r
  obtain ⟨hsettle, hexact, hcapped⟩ := habs'.settle fun _ => rfl
  have hself : (e.modifyBlock c.active fun b =>
      { b with codeSize := size, arenaNext := next, mask := none, companion := none }).block c.active =
      { e.block c.active with codeSize := size, arenaNext := next, mask := none, companion := none } :=
    block_modifyBlock_self habs'.lt _
  have hdead : (({ e.block c.active with codeSize := size, arenaNext := next, mask := none, companion := none } :
      Block)).live = false := habs'.dead
  have hmodify : Shrinks e (e.modifyBlock c.active fun b =>
      { b with codeSize := size, arenaNext := next, mask := none, companion := none }) := by
    refine ⟨.modifyBlock .., fun x hx => ?_, fun _ => rfl⟩
    rw [block_modifyBlock_ne]
    rintro rfl
    rw [hself, hdead] at hx
    exact absurd hx (by simp)
  have hall : Thinned c _ := (hv.thinned.trans hthinned).trans ⟨hmodify, hexact, hcapped⟩
  have hroom' : (e.modifyBlock c.active fun b =>
      { b with codeSize := size, arenaNext := next, mask := none, companion := none }).settings.maxBlockSize ≤ size :=
    (congrArg Settings.maxBlockSize hthinned.shrinks.same.settings).trans_le hroom
  dsimp only
  generalize e.modifyBlock c.active _ = g at hsettle hself hall hroom'
  have hcosmetic : Cosmetic g ({ g with building := some c.active }.modifyStats fun s => { s with opened := s.opened + 1 }) :=
    ⟨rfl, rfl, rfl, rfl, rfl, rfl, rfl, fun _ => rfl⟩
  have hsame := hall.shrinks.same
  refine ⟨rfl, hsettle.congr hcosmetic, fun he => (hall.exact he).congr hcosmetic,
    fun U hcap => (hall.capped U hcap).cosmetic hcosmetic, ?_, rfl, hsame.active, ?_, ?_, ?_⟩
  · refine ⟨⟨?_, hsame.size, hsame.monitorsSize, hsame.tableSize⟩, hall.shrinks.core, hall.shrinks.monitor⟩
    rw [← hsame.building]
    exact hsame.shell
  · change (g.block c.active).live = false
    rw [hself]
    exact hdead
  · change (g.block c.active).mask = none
    rw [hself]
  · change g.settings.maxBlockSize ≤ (g.block c.active).codeSize
    rw [hself]
    exact hroom'

end Recompiler.Cache
