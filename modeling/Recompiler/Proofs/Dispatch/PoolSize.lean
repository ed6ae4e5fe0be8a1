import Recompiler.Proofs.Dispatch.Failures

/-! How many descriptors are enough. Spans are cut at multiples of the alignment, so there are at most as many as the arena
has units of that size, and each has one companion at most. With a descriptor for every span and another one for its companion
there is always one left when one is needed. -/

namespace Recompiler

open Cache

namespace Cache

variable {c c' : Cache}

/-- The descriptors of the parts of blocks on second pages. -/
def companions (c : Cache) : Finset BlockId :=
  {b ∈ Finset.range c.blocks.size | (c.block b).live = true ∧ (c.block b).isCompanion = true}

/-- Every companion belongs to a span. -/
theorem Sound.card_companions_le (h : Sound c) {spans free : List BlockId} {loose : Option BlockId}
    (hpool : c.Pool (fun b => (c.block b).arenaNext) (fun b => (c.block b).codeSize) spans free loose) :
    c.companions.card ≤ {a ∈ spans.toFinset | (c.block a).companion.isSome = true}.card := by
  have hpartner : ∀ b ∈ c.companions, ∃ a, (c.block b).companion = some a ∧ (c.block a).companion = some b ∧ c.Runnable a := by
    intro b hb
    obtain ⟨-, hlive, hcomp⟩ := Finset.mem_filter.mp hb
    obtain ⟨a, ha⟩ := Option.isSome_iff_exists.mp (h.paired.partner b hlive hcomp)
    have hab := h.paired.symm b a ha
    refine ⟨a, ha, hab, h.paired.live a b hab, ?_⟩
    rw [h.paired.kind b a ha, hcomp]
    rfl
  refine Finset.card_le_card_of_injOn (fun b => (c.block b).companion.getD 0) (fun b hb => ?_) fun b hb b' hb' heq => ?_
  · obtain ⟨a, ha, hab, hrun⟩ := hpartner b hb
    dsimp only
    rw [ha, Option.getD_some, Finset.mem_coe, Finset.mem_filter, List.mem_toFinset, hab]
    exact ⟨hpool.span_of_live a hrun, rfl⟩
  · obtain ⟨a, ha, hab, -⟩ := hpartner b hb
    obtain ⟨a', ha', hab', -⟩ := hpartner b' hb'
    dsimp only at heq
    rw [ha, ha', Option.getD_some, Option.getD_some] at heq
    subst heq
    exact Option.some.inj (hab.symm.trans hab')

/-- Spans are at least as long as the alignment, so that there are only so many; and fewer if one of them is longer. -/
theorem Grained.length_mul_le (h : Grained c) {spans free : List BlockId} {loose : Option BlockId}
    (hpool : c.Pool (fun b => (c.block b).arenaNext) (fun b => (c.block b).codeSize) spans free loose) :
    spans.length * c.settings.align ≤ c.settings.cacheSize ∧
      (c.settings.align < (c.block c.active).codeSize → (spans.length + 1) * c.settings.align ≤ c.settings.cacheSize) := by
  have hsum := Nat.add_left_cancel hpool.tiled.add_sum_eq
  have hle : ∀ l : List BlockId, (∀ x ∈ l, x ∈ spans) →
      l.length * c.settings.align ≤ (l.map fun b => (c.block b).codeSize).sum := by
    intro l hl
    have hmin := List.card_nsmul_le_sum (l.map fun b => (c.block b).codeSize) c.settings.align fun n hn => by
      obtain ⟨x, hx, rfl⟩ := List.mem_map.mp hn
      exact Nat.le_of_dvd (hpool.tiled.bounds (hl x hx)).2.1 (h.span x)
    rwa [List.length_map, smul_eq_mul] at hmin
  refine ⟨hsum ▸ hle spans fun _ hx => hx, fun hlong => ?_⟩
  obtain ⟨before, after, rfl⟩ := List.append_of_mem hpool.active
  have hbefore := hle before fun x hx => List.mem_append_left _ hx
  have hafter := hle after fun x hx => List.mem_append_right _ (List.mem_cons_of_mem _ hx)
  obtain ⟨n, hn⟩ := h.span c.active
  have htwo : 2 * c.settings.align ≤ (c.block c.active).codeSize := by
    rw [hn, Nat.mul_comm]
    refine Nat.mul_le_mul_left _ ?_
    by_contra hn'
    have : n ≤ 1 := by omega
    have := Nat.mul_le_mul_left c.settings.align this
    omega
  rw [List.map_append, List.map_cons, List.sum_append, List.sum_cons] at hsum
  rw [List.length_append, List.length_cons, ← hsum]
  calc (before.length + (after.length + 1) + 1) * c.settings.align
      = before.length * c.settings.align + (2 * c.settings.align + after.length * c.settings.align) := by ring
    _ ≤ _ := Nat.add_le_add hbefore (Nat.add_le_add htwo hafter)

/-- With two descriptors for each span that the arena can hold, one is left as long as a block has no companion, or the span at
the cursor could be split. -/
theorem Sound.freeHead_ne_none (h : Sound c) (hg : Grained c) (hcount : 2 * (c.settings.cacheSize / c.settings.align) ≤ c.blocks.size)
    (hspare : (∃ a, c.Runnable a ∧ (c.block a).companion = none) ∨ c.settings.align < (c.block c.active).codeSize) :
    c.freeHead ≠ none := by
  intro hnone
  obtain ⟨spans, free, hpool⟩ := h.layout.pool
  obtain rfl : free = [] := by
    have hfree := hpool.freePath
    have hnil : Path (fun b => (c.block b).freeNext) none [] none := rfl
    rw [hnone] at hfree
    exact hfree.unique hnil
  have halign : 0 < c.settings.align := h.valid.sizes.2.1
  have hcover : Finset.range c.blocks.size ⊆ spans.toFinset ∪ c.companions := by
    intro x hx
    rw [Finset.mem_union, List.mem_toFinset]
    rcases hpool.placed x (Finset.mem_range.mp hx) (by simp) with hspan | hfree | hcomp
    · exact .inl hspan
    · cases hfree
    · exact .inr (Finset.mem_filter.mpr ⟨hx, hcomp⟩)
  have htotal : c.blocks.size ≤ spans.length + c.companions.card := by
    have hcard := (Finset.card_le_card hcover).trans (Finset.card_union_le _ _)
    rwa [Finset.card_range, List.toFinset_card_of_nodup hpool.spanPath.nodup] at hcard
  have hcompanions := h.card_companions_le hpool
  have hspans := List.toFinset_card_of_nodup hpool.spanPath.nodup
  obtain ⟨hlength, hshorter⟩ := hg.length_mul_le hpool
  have hunits := (Nat.le_div_iff_mul_le halign).mpr hlength
  rcases hspare with ⟨a, hrun, ha⟩ | hlong
  · have hfewer : {x ∈ spans.toFinset | (c.block x).companion.isSome = true} ⊂ spans.toFinset := by
      refine Finset.filter_ssubset.mpr ⟨a, List.mem_toFinset.mpr (hpool.span_of_live a hrun), ?_⟩
      rw [ha]
      simp
    have := Finset.card_lt_card hfewer
    omega
  · have hunits' := (Nat.le_div_iff_mul_le halign).mpr (hshorter hlong)
    have := Finset.card_filter_le spans.toFinset fun x => (c.block x).companion.isSome = true
    omega

end Cache

/-! ### Compilations -/

/-- The settings provide for two descriptors for each span that the arena can hold. -/
structure Settings.Ample (s : Settings) : Prop where
  dvd : s.align ∣ s.cacheSize
  count : 2 * (s.cacheSize / s.align) ≤ s.blockCount

namespace Compilation

variable {k : Compilation} {log : List Compilation}

theorem grained_outcome (h : k.cache.Grained) {t : Except CoreError Trace} {s : Scan} (hout : k.outcome = .ok (t, s)) :
    s.cache.Grained := by
  have hopen := (Quiet.openSite k.cpu k.monitor k.cache).grained h
  rcases (Scan.take_advances hout).searched with hquiet | ⟨c, r, c', hbefore, hsearch, hafter⟩
  · exact hquiet.grained hopen
  · exact hafter.grained ((Fades.codePage hsearch).grained (hbefore.grained hopen))

/-- Spans are cut at the alignment also by a compilation. -/
theorem Pending.grained (h : k.Pending) (hc : k.cache.Sound) (hg : k.cache.Grained) {r : Except CoreError BlockId} {mem' : Memory}
    {c' : Cache} {code' : HostCode} (hr : k.result = .ok (r, mem', c', code')) : c'.Grained := by
  obtain ⟨t, s, hout, -, -, hquiet, -⟩ := h.settles hc hr
  exact hquiet.grained (grained_outcome hg hout)

/-- There are descriptors enough for a compilation. -/
theorem Pending.ne_outOfBlocks (h : k.Pending) (hhoused : Housed log k.cache k.code) (hg : k.cache.Grained)
    (hcount : 2 * (k.cache.settings.cacheSize / k.cache.settings.align) ≤ k.cache.blocks.size) {err : CoreError} {mem' : Memory}
    {c' : Cache} {code' : HostCode} (hr : k.result = .ok (.error err, mem', c', code')) : err ≠ .outOfBlocks := by
  rintro herr
  have hc := hhoused.sound
  obtain ⟨s, hfailure, -⟩ := h.failure hhoused hr
  obtain ⟨t, hout⟩ := hfailure.exists_outcome
  obtain ⟨-, hactive, hlive⟩ := h.building hc hout
  obtain ⟨hsteady, hdrift⟩ := (h.steady hc).take hout
  have hsettings : s.cache.settings = k.cache.settings := 
    hdrift.off.settings.trans (Quiet.openSite k.cpu k.monitor k.cache).settings
  have hsize : s.cache.blocks.size = k.cache.blocks.size := hdrift.off.size.trans (h.sited hc).evolves.size
  rw [← hsettings, ← hsize] at hcount
  have hfree := hsteady.sound.freeHead_ne_none (grained_outcome hg hout) hcount
  cases hfailure with
  | companion _ hnone hempty => exact hfree (.inl ⟨k.block, ⟨hlive, hsteady.ordinary⟩, hsteady.single hnone⟩) hempty
  | overrun => cases herr
  | split _ _ _ hrest hempty =>
      refine hfree (.inr ?_) hempty
      rw [hactive]
      omega

end Compilation

/-! ### Runs -/

/-- As far as the settings provide for it, descriptors have always been enough. -/
structure Cache.Roomy (log : List Compilation) (c : Cache) : Prop where
  count : c.blocks.size = c.settings.blockCount
  grained : c.settings.Ample → c.Grained
  log : c.settings.Ample → ∀ k ∈ log, ∀ err out, k.result = .ok (.error err, out) → err ≠ .outOfBlocks

namespace Cache.Roomy

variable {log : List Compilation} {c c' : Cache}

theorem narrow (h : Roomy log c) (hn : Narrows c c') (hg : c.Grained → c'.Grained) : Roomy log c' := by
  have hsettings := hn.settings
  refine ⟨?_, fun hample => hg (h.grained (hsettings ▸ hample)), fun hample => h.log (hsettings ▸ hample)⟩
  rw [hn.size, hsettings]
  exact h.count

theorem upkeep (R : Regime) (good : Compilation → Prop) :
    Upkeep R good fun log _ c code => Housed log c code ∧ Roomy log c where
  start := by
    intro settings mem code hmem hcheck hcode
    refine ⟨(Housed.upkeep R good).start hmem hcheck hcode, Array.size_ofFn, fun hample => ⟨?_, fun x => ?_⟩, by simp⟩
    · exact Settings.Valid.align_eq hcheck
    · rw [block_create]
      split
      · split
        · exact hample.dvd
        · exact dvd_zero _
      · exact dvd_zero _
  sound h := h.1.sound
  change h _ := h
  stored h hs := ⟨h.1.narrow hs.sound hs.narrows, h.2.narrow hs.narrows hs.toFades.grained⟩
  paged h hr hp := ⟨h.1.narrow hp.sound hp.narrows, h.2.narrow hp.narrows (Fades.codePage hr).grained⟩
  link := by
    intro log mem c code id slot target h hid htarget hfree
    refine ⟨h.1.narrow (h.1.sound.link hid htarget hfree) (.link _ _ _ _), h.2.narrow (.link _ _ _ _) fun hg => ?_⟩
    have hapart := LinksApart.link c id slot target
    have hsettings := congrArg Cache.settings hapart.shell
    have hsize := fun x => congrArg Block.codeSize (hapart.unlinked x)
    exact hg.of_codeSize hsettings hsize
  compile := by
    intro log k r mem' c' code' h hpending _ hr
    have hevolves : c'.settings = k.cache.settings ∧ c'.blocks.size = k.cache.blocks.size := by
      rcases hpending.formed h.1.sound hr with ⟨-, hevolves, -⟩ | ⟨-, hformed⟩
      · have hsettings := congrArg Cache.settings hevolves.fixed
        exact ⟨hsettings, hevolves.size⟩
      · have hsettings := congrArg Cache.settings hformed.evolves.fixed
        exact ⟨hsettings, hformed.evolves.size⟩
    refine ⟨h.1.compile hpending hr, ?_, fun hample => ?_, fun hample => ?_⟩
    · rw [hevolves.1, hevolves.2]
      exact h.2.count
    · exact hpending.grained h.1.sound (h.2.grained (hevolves.1 ▸ hample)) hr
    · rw [hevolves.1] at hample
      intro k' hk' err out hout
      rcases List.mem_cons.mp hk' with rfl | hk'
      · exact hpending.ne_outOfBlocks h.1 (h.2.grained hample) (h.2.count ▸ hample.count) hout
      · exact h.2.log hample k' hk' err out hout

end Cache.Roomy

/-- An error of a compilation, or of a block that left with a number that is no exit code. -/
def Compilation.Explains (log : List Compilation) (err : CoreError) : Prop :=
  (∃ k ∈ log, ∃ out, k.result = .ok (.error err, out)) ∨ ∃ raw, err = .invalidReturn raw

namespace Engine

open Compilation

variable {σ : Type} {p : Platform σ} {e e' : Engine σ} {phase : Phase} {err : CoreError} {fuel : Nat}

theorem enter_error {id : BlockId} (h : e.enter p fuel id = .ok (.error err, e')) : ∃ raw, err = .invalidReturn raw := by
  obtain ⟨raw, s, -, hdecode, -⟩ := enter_eq_ok.mp h
  unfold ExitCode.decode at hdecode
  split at hdecode
  · cases hdecode
  · cases hdecode
    exact ⟨raw, rfl⟩

theorem step_error (h : e.step p fuel phase = .ok (.error err, e')) : Explains (e.stepLog phase) err := by
  generalize hr : (.error err : Except CoreError Phase) = r at h
  cases steps_of_step h with
  | @compiled _ r _ _ _ hlight hresult =>
      rw [stepLog_of_light hlight]
      cases r <;> cases hr
      exact .inl ⟨_, List.mem_singleton_self _, _, hresult⟩
  | @entered _ _ r _ henter =>
      cases r <;> cases hr
      exact .inr (enter_error henter)
  | _ => cases hr

theorem dispatch_error (h : e.dispatch p fuel phase = .ok (.error err, e')) :
    Explains (dispatchLog p fuel phase e) err := by
  induction fuel generalizing phase e with
  | zero => cases h
  | succ fuel ih =>
      by_cases hdone : ∃ exit, phase = .done exit
      · obtain ⟨exit, rfl⟩ := hdone
        cases h
      · have hnot : ∀ exit, phase ≠ .done exit := fun exit heq => hdone ⟨exit, heq⟩
        rw [dispatch_succ hnot] at h
        rw [dispatchLog_succ hnot]
        cases hstep : e.step p (fuel + 1) phase with
        | error abort =>
            rw [hstep] at h
            cases h
        | ok out =>
            obtain ⟨r, e₁⟩ := out
            rw [hstep] at h
            cases r with
            | error err' =>
                cases h
                exact step_error hstep
            | ok phase' => exact (ih h).imp_left fun ⟨k, hk, hresult⟩ => ⟨k, List.mem_append_left _ hk, hresult⟩

end Engine

namespace Machine

open Compilation

variable {σ : Type} {p : Platform σ} {R : Regime} {m m' : Machine σ} {log : List Compilation} {err : CoreError} {fuel : Nat}

/-- Preparing a block keeps the settings, and passes the error of its compilation on. -/
theorem prepareBlock_ends {out : Except CoreError (Option BlockId)} (h : m.prepareBlock = .ok (out, m')) :
    m'.core.settings = m.core.settings ∧ ∀ err, out = .error err → Explains m.prepareLog err := by
  cases hr : m.core.resources with
  | none =>
      obtain ⟨⟨settings, resources, trap, stats⟩, cpu, mem, host⟩ := m
      obtain rfl : resources = none := hr
      cases h
      exact ⟨rfl, by simp⟩
  | some r =>
      have hprepares := prepares_of_prepareBlock hr h
      generalize m.prepareLog = new at hprepares ⊢
      cases hprepares with
      | unfit | found => exact ⟨rfl, by simp⟩
      | @compiled _ out _ _ _ _ _ _ _ _ hresult =>
          refine ⟨rfl, fun err hout => ?_⟩
          cases out <;> cases hout
          exact .inl ⟨_, List.mem_singleton_self _, _, hresult⟩

theorem onGuest_settings {α : Type} {f : {κ : Type} → [Watcher κ] → Guest κ σ → Except Abort (α × Guest κ σ)} {a : α}
    (h : m.onGuest f = .ok (a, m')) : m'.core.settings = m.core.settings := by
  unfold onGuest at h
  split at h <;> split at h <;> cases h <;> rfl

/-- A run keeps the settings, and passes on the error of a compilation, unless a block leaves with a wrong number. -/
theorem run_ends {r : Except CoreError CoreExit} (h : m.run p fuel = .ok (r, m')) :
    m'.core.settings = m.core.settings ∧ ∀ err, r = .error err → Explains (m.runLog p fuel) err := by
  unfold run at h
  split at h
  · dsimp only at h
    generalize hguest : onGuest _ _ = out at h
    rcases out with abort | ⟨exit, m₁⟩
    · cases h
    · cases h
      have hsettings := onGuest_settings hguest
      exact ⟨hsettings, fun _ hr => by cases hr⟩
  · dsimp only at h
    generalize hguest : onGuest _ _ = out at h
    rcases out with abort | ⟨exit, m₁⟩
    · cases h
    · cases h
      have hsettings := onGuest_settings hguest
      exact ⟨hsettings, fun _ hr => by cases hr⟩
  · generalize hrun : Engine.dispatch p fuel .lookup _ = out at h
    rcases out with abort | ⟨r₁, e₁⟩
    · cases h
    · cases h
      refine ⟨rfl, fun err hr => ?_⟩
      subst hr
      exact Engine.dispatch_error hrun

theorem executeBlock_ends {id : BlockId} {r : Except CoreError ExitCode} (h : m.executeBlock p fuel id = .ok (r, m')) :
    m'.core.settings = m.core.settings ∧ ∀ err, r = .error err → ∃ raw, err = .invalidReturn raw := by
  unfold executeBlock at h
  split at h
  · cases h
    exact ⟨rfl, fun _ hr => by cases hr⟩
  · generalize hrun : Engine.enter p fuel id _ = out at h
    rcases out with abort | ⟨_ | exit, e₁⟩
    · cases h
    · cases h
      refine ⟨rfl, fun err hr => ?_⟩
      cases hr
      exact Engine.enter_error hrun
    · cases h
      exact ⟨rfl, fun _ hr => by cases hr⟩

theorem write_settings (m : Machine σ) (linear : UInt32) (w : Width) (value : UInt32) :
    (m.write linear w value).2.core.settings = m.core.settings ∧
      (m.writeBytewise linear w value).2.core.settings = m.core.settings := by
  obtain ⟨⟨settings, _ | ⟨cache, code⟩, trap, stats⟩, cpu, mem, host⟩ := m <;> exact ⟨rfl, rfl⟩

theorem enable_settings {core core' : Core} {on : Bool} (h : core.enable on = .ok core') : core'.settings = core.settings := by
  unfold Core.enable at h
  split at h
  · cases h
    rfl
  · split at h
    · cases h
    · split at h
      · cases h
      · cases h
        rfl

/-- The cache has the settings of the recompiler, which never change. -/
theorem settings_sustained (R : Regime) (good : Compilation → Prop) (settings : Settings) :
    Sustained R good fun log _ c code => Housed log c code ∧ c.settings = settings where
  sound h := h.1.sound
  change h _ := h
  stored h hs := ⟨h.1.narrow hs.sound hs.narrows, hs.narrows.settings.trans h.2⟩
  paged h _ hp := ⟨h.1.narrow hp.sound hp.narrows, hp.narrows.settings.trans h.2⟩
  link h hid htarget hfree :=
    ⟨h.1.narrow (h.1.sound.link hid htarget hfree) (.link _ _ _ _), (Narrows.link _ _ _ _).settings.trans h.2⟩
  compile h hpending _ hr := by
    have hsettings := congrArg Cache.settings (hpending.laid h.1.sound hr).fixed
    exact ⟨h.1.compile hpending hr, Eq.trans hsettings h.2⟩

theorem History.settings (hp : p.Confined R) (h : History R p m log) :
    Keeps (fun log _ c code => Housed log c code ∧ c.settings = m.core.settings) log m := by
  have hI := settings_sustained R (fun _ => True)
  induction h with
  | start hnew henable cpu hmem host =>
      obtain ⟨r, hr, hhoused⟩ := keeps_start (Housed.upkeep R fun _ => True) hnew henable cpu hmem host
      obtain ⟨code, -, -, hr'⟩ := enable_spec hnew henable
      refine ⟨r, hr, hhoused, ?_⟩
      have hsame : r = _ := Option.some.inj (hr.symm.trans hr')
      rw [hsame, enable_settings henable]
      rfl
  | caller _ cpu host ih => exact ih
  | change _ hmem ih => exact ih
  | prepare _ hr ih =>
      rw [(prepareBlock_ends hr).1]
      exact Acts.keeps (hI _) hp (.prepare hr) ih
  | run _ hr ih =>
      rw [(run_ends hr).1]
      exact Acts.keeps (hI _) hp (.run hr) ih
  | execute _ hr ih =>
      rw [(executeBlock_ends hr).1]
      exact Acts.keeps (hI _) hp (.execute hr) ih
  | write _ linear w value ih =>
      rw [(write_settings _ linear w value).1]
      exact Acts.keeps (hI _) hp (.write linear w value) ih
  | writeBytewise _ linear w value ih =>
      rw [(write_settings _ linear w value).2]
      exact Acts.keeps (hI _) hp (.writeBytewise linear w value) ih

/-- Where the settings provide for it, no compilation so far has lacked a descriptor. -/
theorem History.not_explains (hp : p.Confined R) (h : History R p m log) (hample : m.core.settings.Ample) :
    ¬Explains log .outOfBlocks := by
  obtain ⟨r, hr, -, hsettings⟩ := h.settings hp
  obtain ⟨r', hr', -, hroomy⟩ := h.keeps (Roomy.upkeep R fun _ => True) hp fun _ _ => trivial
  obtain rfl := Option.some.inj (hr.symm.trans hr')
  rintro (⟨k, hk, out, hresult⟩ | ⟨raw, hraw⟩)
  · exact hroomy.log (hsettings ▸ hample) k hk _ out hresult rfl
  · cases hraw

/-- If the alignment divides the size of the arena and there are two descriptors for each unit of it, no operation ever ends
for want of one: preparing a block, running, and executing any block, after whatever was done before. -/
theorem never_outOfBlocks (hp : p.Confined .free) (h : History .free p m log)
    (hdvd : m.core.settings.align ∣ m.core.settings.cacheSize)
    (hcount : 2 * (m.core.settings.cacheSize / m.core.settings.align) ≤ m.core.settings.blockCount) :
    (∀ r m', m.prepareBlock = .ok (r, m') → r ≠ .error .outOfBlocks) ∧
      (∀ fuel r m', m.run p fuel = .ok (r, m') → r ≠ .error .outOfBlocks) ∧
      ∀ fuel id r m', m.executeBlock p fuel id = .ok (r, m') → r ≠ .error .outOfBlocks := by
  have hample : m.core.settings.Ample := ⟨hdvd, hcount⟩
  refine ⟨fun r m' hr herr => ?_, fun fuel r m' hr herr => ?_, fun fuel id r m' hr herr => ?_⟩
  · obtain ⟨hsettings, hends⟩ := prepareBlock_ends hr
    refine (History.prepare h hr).not_explains hp (hsettings ▸ hample) ?_
    exact (hends _ herr).imp_left fun ⟨k, hk, hresult⟩ => ⟨k, List.mem_append_left _ hk, hresult⟩
  · obtain ⟨hsettings, hends⟩ := run_ends hr
    refine (History.run h hr).not_explains hp (hsettings ▸ hample) ?_
    exact (hends _ herr).imp_left fun ⟨k, hk, hresult⟩ => ⟨k, List.mem_append_left _ hk, hresult⟩
  · obtain ⟨raw, hraw⟩ := (executeBlock_ends hr).2 _ herr
    cases hraw

/-- An arena of two units with the four descriptors that they need. -/
theorem never_outOfBlocks_two_units :
    ∃ (m : Machine Interpreter) (log : List Compilation), History .free Interpreter.platform m log ∧
      m.core.settings = { scantSettings with align := 64 } ∧
      ∀ fuel r m', m.run Interpreter.platform fuel = .ok (r, m') → r ≠ .error .outOfBlocks := by
  have henabled : ∃ core', (⟨{ scantSettings with align := 64 }, none, false, {}⟩ : Core).enable true = .ok core' := by
    have hsome : ((⟨{ scantSettings with align := 64 }, none, false, {}⟩ : Core).enable true).toOption.isSome = true := by
      decide +kernel
    generalize Core.enable _ true = out at hsome ⊢
    cases out with
    | error err => cases hsome
    | ok core' => exact ⟨core', rfl⟩
  obtain ⟨core', henable⟩ := henabled
  have hsettings := enable_settings henable
  have hhistory : History .free Interpreter.platform ⟨core', .flat32, onePage 0 [0xEB, 0xFE], {}⟩ [] :=
    .start rfl henable _ trivial _
  refine ⟨_, _, hhistory, hsettings, (never_outOfBlocks (Interpreter.platform_confined _) hhistory ?_ ?_).2.1⟩
  · change core'.settings.align ∣ core'.settings.cacheSize
    rw [hsettings]
    decide
  · change 2 * (core'.settings.cacheSize / core'.settings.align) ≤ core'.settings.blockCount
    rw [hsettings]
    decide

end Machine

end Recompiler
