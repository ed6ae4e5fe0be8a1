import Recompiler.Proofs.Cache.ClearRelease

/-! Watching pages. A monitor is put on a page when code on it is compiled: a free one, or one taken from another
page. Whatever happens to other pages on the way, the blocks that are left are the same as before. -/

namespace Recompiler

/-- A monitor that was just put on a page. -/
def Monitor.fresh (mon : Monitor) (page : UInt32) (flags : UInt8) (code32 : Bool) (patience : Nat)
    (older : Option MonitorId) : Monitor :=
  { page, flags, code32, installed := true, patience, buckets := Array.replicate mon.buckets.size [], next := older }

namespace Cache

variable {c c' : Cache} {m n : MonitorId} {id x : BlockId} {E : Finset BlockId} {page : UInt32} {flags : UInt8}
  {code32 : Bool}

/-- A monitor that was taken to be put on a page. -/
structure Spare (c : Cache) (m : MonitorId) : Prop where
  lt : m < c.monitors.size
  idle : (c.monitor m).installed = false
  taken : m ∉ c.freeMonitors

theorem Spare.owner_ne (h : Spare c m) (hr : Registry c) (x : BlockId) : (c.block x).owner ≠ some m := by
  intro hx
  have hinst := hr.installed x m hx
  rw [h.idle] at hinst
  exact absurd hinst (by simp)

theorem monitor_watch (h : Watches c) (hm : Spare c m) (page : UInt32) (flags : UInt8) (code32 : Bool) (n : MonitorId) :
    (c.watch m page flags code32).monitor n =
      if n = m then (c.monitor m).fresh page flags code32 c.settings.releaseDelay c.newest
      else { c.monitor n with prev := if c.newest = some n then some m else (c.monitor n).prev } := by
  have hhead : c.newest ≠ some m := fun hnew => by
    have := (h.newest m hnew).1
    rw [hm.idle] at this
    exact absurd this (by simp)
  have hlt : ∀ p, c.newest = some p → p < (c.modifyMonitor m fun mon =>
      mon.fresh page flags code32 c.settings.releaseDelay c.newest).monitors.size := fun p hp => by
    rw [size_modifyMonitor]
    exact lt_size_of_installed (h.newest p hp).1
  change ((c.modifyMonitor m fun mon => mon.fresh page flags code32 c.settings.releaseDelay c.newest).setNewer c.newest
    (some m)).monitor n = _
  rw [monitor_setNewer _ hlt]
  by_cases hn : n = m
  · subst hn
    rw [monitor_modifyMonitor_self hm.lt, if_pos rfl, if_neg hhead]
  · rw [monitor_modifyMonitor_ne _ hn, if_neg hn]

theorem monitor_watch_self (h : Watches c) (hm : Spare c m) : (c.watch m page flags code32).monitor m =
    (c.monitor m).fresh page flags code32 c.settings.releaseDelay c.newest := by
  rw [monitor_watch h hm, if_pos rfl]

theorem monitor_watch_ne (h : Watches c) (hm : Spare c m) (hn : n ≠ m) : (c.watch m page flags code32).monitor n =
    { c.monitor n with prev := if c.newest = some n then some m else (c.monitor n).prev } := by
  rw [monitor_watch h hm, if_neg hn]

theorem PagesApart.watch (c : Cache) (m : MonitorId) (page : UInt32) (flags : UInt8) (code32 : Bool) :
    PagesApart c (c.watch m page flags code32) := by
  refine ⟨?_, ?_⟩
  · exact (offPages_setNewer (c.modifyMonitor m _) c.newest (some m)).trans rfl
  · exact (size_setNewer (c.modifyMonitor m _) c.newest (some m)).trans (size_modifyMonitor c m _)

theorem lists_watch (c : Cache) (m : MonitorId) (page : UInt32) (flags : UInt8) (code32 : Bool) :
    (c.watch m page flags code32).newest = some m ∧
    (c.watch m page flags code32).oldest = (if c.newest = none then some m else c.oldest) ∧
    (c.watch m page flags code32).byPage = c.byPage.insert page m ∧
    (c.watch m page flags code32).freeMonitors = c.freeMonitors := by
  obtain ⟨-, holdest, hbyPage, hfree⟩ := lists_setNewer
    (c.modifyMonitor m fun mon => mon.fresh page flags code32 c.settings.releaseDelay c.newest) c.newest (some m)
  exact ⟨rfl, holdest, congrArg (fun byPage => byPage.insert page m) hbyPage, hfree⟩

theorem Watches.watch (h : Watches c) (hm : Spare c m) (hpage : c.monitorOf page = none)
    (hlt : page.toNat < 2 ^ 20) : Watches (c.watch m page flags code32) := by
  obtain ⟨hnewest, holdest, hbyPage, hfree⟩ := lists_watch c m page flags code32
  have hother : ∀ n, n ≠ m → (c.watch m page flags code32).monitor n =
      { c.monitor n with prev := if c.newest = some n then some m else (c.monitor n).prev } := fun _ =>
    monitor_watch_ne h hm
  have hself : (c.watch m page flags code32).monitor m =
      (c.monitor m).fresh page flags code32 c.settings.releaseDelay c.newest := monitor_watch_self h hm
  have hinst : ∀ n, (c.monitor n).installed = true → n ≠ m := by
    rintro n hn rfl
    rw [hm.idle] at hn
    exact absurd hn (by simp)
  have hkeep : ∀ n, (c.monitor n).installed = true → ((c.watch m page flags code32).monitor n).installed = true :=
    fun n hn => by rw [hother n (hinst n hn)]; exact hn
  -- What precedes a monitor now did so before, or is the new one and that monitor was the newest.
  have hprev : ∀ a b, ((c.watch m page flags code32).monitor a).prev = some b ↔
      a ≠ m ∧ (c.newest = some a ∧ b = m ∨ (c.monitor a).prev = some b) := by
    intro a b
    by_cases ha : a = m
    · rw [ha, hself]
      simp [Monitor.fresh]
    · rw [hother a ha]
      by_cases hnew : c.newest = some a
      · simp [hnew, ha, (h.newest a hnew).2, eq_comm]
      · simp [hnew, ha]
  have hold : ∀ a b, (c.monitor a).prev = some b → a ≠ m ∧ b ≠ m := fun a b hab =>
    ⟨hinst a (h.prev_newer a b hab).1, hinst b (h.prev_newer a b hab).2⟩
  have hnext : ∀ b, ((c.watch m page flags code32).monitor b).next = if b = m then c.newest else (c.monitor b).next := by
    intro b
    by_cases hb : b = m
    · rw [hb, hself, if_pos rfl]
      rfl
    · rw [hother b hb, if_neg hb]
  refine ⟨fun p n => ?_, fun n hn => ?_, ?_, fun n hn => ?_, fun n hn => ?_, fun a b => ?_, fun a b hab => ?_, ?_,
    fun n hn => ?_, fun n hn => ?_⟩
  · have hlookup : (c.watch m page flags code32).monitorOf p = if page == p then some m else c.monitorOf p := by
      rw [monitorOf, hbyPage, Std.HashMap.getElem?_insert]
      rfl
    rw [hlookup]
    by_cases hn : n = m
    · rw [hn, hself]
      by_cases hp : page = p
      · simp [hp, Monitor.fresh]
      · have hne : c.monitorOf p ≠ some m := fun h' => by
          have := ((h.byPage p m).mp h').1
          rw [hm.idle] at this
          exact absurd this (by simp)
        simp [hp, Monitor.fresh, hne]
    · rw [hother n hn]
      by_cases hp : page = p
      · have hno : ¬((c.monitor n).installed = true ∧ (c.monitor n).page = p) := fun h' => by
          rw [← hp] at h'
          rw [(h.byPage page n).mpr h'] at hpage
          exact absurd hpage (by simp)
        simp only [hp, beq_self_eq_true, if_true, Option.some.injEq]
        exact iff_of_false (Ne.symm hn) hno
      · simp only [beq_iff_eq, hp, if_false]
        exact h.byPage p n
  · by_cases hnm : n = m
    · rw [hnm, hself]
      exact hlt
    · rw [hother n hnm] at hn ⊢
      exact h.page_lt n hn
  · rw [hfree]
    exact h.free_nodup
  · rw [(PagesApart.watch c m page flags code32).size]
    exact h.free_lt n (hfree ▸ hn)
  · rw [hfree] at hn
    rw [hother n fun h' => hm.taken (h' ▸ hn)]
    exact h.free_idle n hn
  · rw [hprev, hnext]
    by_cases hb : b = m
    · subst hb
      simp only [if_true]
      constructor
      · rintro ⟨-, ⟨hnew, -⟩ | hab⟩
        · exact hnew
        · exact absurd rfl (hold a b hab).2
      · intro hnew
        exact ⟨hinst a (h.newest a hnew).1, Or.inl ⟨hnew, trivial⟩⟩
    · rw [if_neg hb, ← h.prev_iff]
      simp only [hb, and_false, false_or]
      exact ⟨fun h' => h'.2, fun hab => ⟨(hold a b hab).1, hab⟩⟩
  · obtain ⟨-, ⟨hnew, rfl⟩ | hab⟩ := (hprev a b).mp hab
    · refine ⟨hkeep a (h.newest a hnew).1, ?_⟩
      rw [hself]
      rfl
    · exact ⟨hkeep a (h.prev_newer a b hab).1, hkeep b (h.prev_newer a b hab).2⟩
  · obtain ⟨age, hage⟩ := h.aged
    refine ⟨fun n => if n = m then c.newest.elim 0 (age · + 1) else age n, fun a b hab => ?_⟩
    obtain ⟨ha, ⟨hnew, rfl⟩ | hab⟩ := (hprev a b).mp hab
    · simp [ha, hnew]
    · simp only [ha, (hold a b hab).2, if_false]
      exact hage a b hab
  · rw [hnewest] at hn
    obtain rfl := Option.some.inj hn
    rw [hself]
    exact ⟨rfl, rfl⟩
  · rw [holdest] at hn
    split at hn
    · rename_i hnone
      obtain rfl := Option.some.inj hn
      rw [hself]
      exact ⟨rfl, hnone⟩
    · obtain ⟨hninst, hnnext⟩ := h.oldest n hn
      rw [hnext, if_neg (hinst n hninst)]
      exact ⟨hkeep n hninst, hnnext⟩

theorem Spare.dependents_eq (h : Spare c m) (hr : Registry c) (i : Nat) : c.dependents m i = ∅ :=
  Finset.eq_empty_iff_forall_notMem.mpr fun x hx => h.owner_ne hr x (mem_dependents.mp hx).1

theorem stats_setNewer (c : Cache) (other newer : Option MonitorId) : (c.setNewer other newer).stats = c.stats := by
  cases other <;> rfl

theorem stats_watch (c : Cache) (m : MonitorId) (page : UInt32) (flags : UInt8) (code32 : Bool) :
    (c.watch m page flags code32).stats = { c.stats with installed := c.stats.installed + 1 } := by
  have hstats := stats_setNewer (c.modifyMonitor m fun mon => mon.fresh page flags code32 c.settings.releaseDelay c.newest)
    c.newest (some m)
  exact congrArg (fun s : CacheStats => { s with installed := s.installed + 1 }) hstats

/-- Putting a spare monitor on a page that has none. -/
theorem Sound.watch (h : Sound c) (hm : Spare c m) (hpage : c.monitorOf page = none) (hlt : page.toNat < 2 ^ 20) :
    Sound (c.watch m page flags code32) := by
  have hapart := PagesApart.watch c m page flags code32
  have hnone := hm.owner_ne h.registry
  have htenant : ∀ x, ((c.watch m page flags code32).block x).tenant = (c.block x).tenant := fun x => by rw [hapart.block]
  have hvalid : (c.watch m page flags code32).settings.Valid := by rw [hapart.settings]; exact h.valid
  refine ⟨⟨⟨?_, h.paired.congr htenant⟩, hvalid, h.watches.watch hm hpage hlt⟩, ?_, ?_⟩
  · refine h.registry.congr hapart.settings (fun x => Block.claim_eq_of_tenant (htenant x)) hapart.size (fun n => ?_)
      (fun id n hid => ?_) fun n => ?_
    · by_cases hn : n = m
      · rw [hn, monitor_watch_self h.watches hm]
        refine Array.ext (by simp [Monitor.fresh]) fun j hj hj' => ?_
        have hold : (c.monitor m).bucket j = [] := List.eq_nil_iff_forall_not_mem.mpr fun x hx =>
          hnone x ((h.registry.mem_bucket m j x).mp hx).1
        rw [Monitor.bucket, Array.getD_eq_getD_getElem?, Array.getElem?_eq_getElem hj', Option.getD_some] at hold
        rw [hold]
        exact Array.getElem_replicate ..
      · rw [monitor_watch_ne h.watches hm hn]
    · rw [monitor_watch_ne h.watches hm (owner_ne_of_none hnone hid)]
      exact h.registry.installed id n hid
    · by_cases hnm : n = m
      · have howned : c.owned m = ∅ := Finset.eq_empty_iff_forall_notMem.mpr fun x hx => hnone x (mem_owned.mp hx)
        rw [hnm, monitor_watch_self h.watches hm, howned]
        rfl
      · rw [monitor_watch_ne h.watches hm hnm]
        exact h.registry.active n
  · exact h.layout.of_body (congrArg (fun c : Cache => { c with building := none }) hapart.offPages)
  · rw [stats_watch]
    exact h.calm

theorem Exact.watch (he : Exact c E) (h : Orderly c) (hm : Spare c m) : Exact (c.watch m page flags code32) E := by
  have hapart := PagesApart.watch c m page flags code32
  have htenant : ∀ x, ((c.watch m page flags code32).block x).tenant = (c.block x).tenant := fun x => by rw [hapart.block]
  refine ⟨he.adjacent.congr htenant fun id n hid => ?_, fun n hn => ?_, fun n hn i hi => ?_⟩
  · rw [monitor_watch_ne h.watches hm (owner_ne_of_none (hm.owner_ne h.registry) hid)]
  · by_cases hnm : n = m
    · rw [hnm, monitor_watch_self h.watches hm]
      exact Array.size_replicate
    · rw [monitor_watch_ne h.watches hm hnm] at hn ⊢
      exact he.census.size n hn
  · rw [dependents_congr fun x => Block.claim_eq_of_tenant (htenant x)]
    by_cases hnm : n = m
    · rw [hnm, monitor_watch_self h.watches hm, hm.dependents_eq h.registry, Finset.empty_sdiff, Finset.card_empty]
      exact congrArg UInt16.toNat (getD_noCover i)
    · rw [monitor_watch_ne h.watches hm hnm] at hn ⊢
      exact he.census.count n hn i hi

theorem CappedAt.watch {U : Nat → Finset BlockId} (hcap : CappedAt c U) (h : Watches c) (hm : Spare c m) :
    CappedAt (c.watch m page flags code32) U := by
  refine hcap.blank (m := m) (dependents_congr fun x => ?_) ?_ fun n hn => ?_
  · rw [(PagesApart.watch c m page flags code32).block]
  · rw [monitor_watch_self h hm]
    rfl
  · rw [monitor_watch_ne h hm hn]

/-- Leaving a free monitor out of the list of free ones. -/
theorem Watches.take (h : Watches c) {rest : List MonitorId} (hfree : c.freeMonitors = m :: rest) :
    Watches { c with freeMonitors := rest } ∧ Spare { c with freeMonitors := rest } m := by
  have hnodup := h.free_nodup
  rw [hfree, List.nodup_cons] at hnodup
  have hmem : ∀ n ∈ rest, n ∈ c.freeMonitors := fun n hn => hfree ▸ List.mem_cons_of_mem m hn
  have hm : m ∈ c.freeMonitors := hfree ▸ List.mem_cons_self
  exact ⟨⟨h.byPage, h.page_lt, hnodup.2, fun n hn => h.free_lt n (hmem n hn), fun n hn => h.free_idle n (hmem n hn),
    h.prev_iff, h.prev_newer, h.aged, h.newest, h.oldest⟩, h.free_lt m hm, h.free_idle m hm, hnodup.1⟩

theorem Sound.take (h : Sound c) {rest : List MonitorId} (hfree : c.freeMonitors = m :: rest) :
    Sound { c with freeMonitors := rest } ∧ Spare { c with freeMonitors := rest } m := by
  obtain ⟨hwatches, hspare⟩ := h.watches.take hfree
  refine ⟨⟨⟨⟨?_, h.paired.congr fun _ => rfl⟩, h.valid, hwatches⟩, h.layout.of_body rfl, h.calm⟩, hspare⟩
  exact h.registry.congr rfl (fun _ => rfl) rfl (fun _ => rfl) h.registry.installed h.registry.active

theorem Exact.take (h : Exact c E) (rest : List MonitorId) : Exact { c with freeMonitors := rest } E :=
  ⟨h.adjacent.congr (fun _ => rfl) fun _ _ _ => rfl, h.census.congr (fun _ => rfl) fun _ hn => ⟨hn, rfl⟩⟩

theorem CappedAt.take {U : Nat → Finset BlockId} (h : CappedAt c U) (rest : List MonitorId) :
    CappedAt { c with freeMonitors := rest } U :=
  ⟨h.size, h.le⟩

theorem victim_spec (h : Watches c) {keep : Option MonitorId} {v : MonitorId} (hv : c.victim keep = some v) :
    (c.monitor v).installed = true ∧ keep ≠ some v := by
  unfold victim at hv
  cases hold : c.oldest with
  | none => simp [hold] at hv
  | some m =>
      simp only [hold] at hv
      split at hv
      · rename_i hkeep
        refine ⟨(h.prev_newer m v hv).2, fun hkv => ?_⟩
        obtain rfl : m = v := Option.some.inj (hkeep.symm.trans hkv)
        exact h.prev_ne m hv
      · rename_i hkeep
        obtain rfl := Option.some.inj hv
        exact ⟨(h.oldest m hold).1, hkeep⟩

/-- What taking a monitor for a page does; `keep` is under protection. -/
structure Taken (keep : Option MonitorId) (c c' : Cache) (m : MonitorId) : Prop where
  sound : Sound c'
  exact : ∀ E, (∀ v, keep ≠ some v → Counted c v E) → Exact c E → Exact c' E
  narrows : Narrows c c'
  spare : Spare c' m
  installed : ∀ n, (c'.monitor n).installed = true → (c.monitor n).installed = true
  kept : ∀ k, keep = some k → (c.monitor k).installed = true → (c'.monitor k).installed = true
  alone : ∀ x k, keep = some k → (c.block x).owner = some k → (c.block x).companion = none →
    (c'.block x).live = true
  station : ∀ n, (c'.monitor n).station = (c.monitor n).station
  capped : ∀ U, CappedAt c U → CappedAt c' U

theorem takeMonitor_spec (h : Sound c) {keep : Option MonitorId} {recycled : Option UInt32}
    (hr : c.takeMonitor keep = .ok (m, recycled, c')) : Taken keep c c' m := by
  have hdrop : ∀ d : Cache, ∀ rest, Narrows d { d with freeMonitors := rest } := fun d rest =>
    ⟨rfl, rfl, rfl, rfl, fun _ _ => rfl, fun _ _ _ => rfl⟩
  unfold takeMonitor at hr
  split at hr
  · rename_i m' rest hfree
    obtain ⟨rfl, rfl, rfl⟩ : m' = m ∧ none = recycled ∧ { c with freeMonitors := rest } = c' := by
      simpa using hr
    obtain ⟨hsound, hspare⟩ := h.take hfree
    exact ⟨hsound, fun E _ he => he.take rest, hdrop c rest, hspare, fun _ hn => hn, fun _ _ hk => hk,
      fun x k _ hx _ => live_iff.mpr ⟨k, hx⟩, fun _ => rfl, fun U hcap => hcap.take rest⟩
  · split at hr
    · exact absurd hr (by simp)
    · rename_i v hv
      obtain ⟨hvinst, hvkeep⟩ := victim_spec h.watches hv
      have hcleared := clearRelease_spec h hvinst
      dsimp only at hr
      generalize c.clearRelease v = d at hr hcleared
      split at hr
      · rename_i m' rest hfree
        obtain ⟨rfl, rfl, rfl⟩ : m' = m ∧ some (c.monitor v).page = recycled ∧ { d with freeMonitors := rest } = c' := by
          simpa using hr
        obtain ⟨hsound, hspare⟩ := hcleared.sound.take hfree
        refine ⟨hsound, fun E hE he => (hcleared.exact E (hE v hvkeep) he).take rest,
          hcleared.narrows.trans (hdrop _ rest), hspare, fun n hn => ((hcleared.installed n).mp hn).2,
          fun k hk hkinst => (hcleared.installed k).mpr ⟨?_, hkinst⟩,
          fun x k hk hx hcomp => hcleared.alone x (live_iff.mpr ⟨k, hx⟩) ?_ hcomp, hcleared.station,
          fun U hcap => (hcleared.capped U hcap).take rest⟩
        · rintro rfl
          exact hvkeep hk
        · intro hxv
          rw [hx] at hxv
          exact hvkeep (hk.trans hxv)
      · exact absurd hr (by simp)

end Cache

/-- Memory without the record of withdrawn monitors. -/
def Memory.unreleased (mem : Memory) : Memory :=
  { mem with released := #[] }

namespace Memory

variable {mem mem' : Memory} (h : mem'.unreleased = mem.unreleased)
include h

theorem ram_eq_of_unreleased : mem'.ram = mem.ram := by
  have hfield := congrArg Memory.ram h
  exact hfield

theorem pageFlags_eq_of_unreleased (page : UInt32) : mem'.pageFlags page = mem.pageFlags page := by
  have hfield := congrArg Memory.flags h
  exact congrArg (fun flags : Array UInt8 => flags.getD page.toNat PageFlag.noCode) hfield

theorem byte_eq_of_unreleased (paddr : UInt32) : mem'.byte paddr = mem.byte paddr := by
  rw [byte, byte]
  simp only [ram_eq_of_unreleased h]

theorem resolve_eq_of_unreleased (linear : UInt32) (write : Bool) : mem'.resolve linear write = mem.resolve linear write := by
  have hresolve : ∀ mem : Memory, mem.resolve linear write = mem.unreleased.resolve linear write := fun _ => rfl
  rw [hresolve mem', h, ← hresolve]

theorem eq_of_unreleased (hreleased : mem'.released = mem.released) : mem' = mem := by
  have hfields : ∀ mem : Memory, mem = { mem.unreleased with released := mem.released } := fun _ => rfl
  rw [hfields mem', h, hreleased]
  rfl

end Memory

/-- A physical page that may not hold code. -/
def Memory.barred (mem : Memory) (page : UInt32) : Bool :=
  !PageFlag.has (mem.pageFlags page) PageFlag.readable || PageFlag.has (mem.pageFlags page) PageFlag.noCode

namespace Cache

variable {c c' : Cache} {m n : MonitorId} {page : UInt32} {code32 : Bool} {keep : Option MonitorId} {mem mem' : Memory}

/-- What looking for the monitor of a page does. Of the pages that are watched afterwards at most one was not before. -/
structure Paged (keep : Option MonitorId) (page : UInt32) (code32 : Bool) (mem : Memory) (c : Cache) (mem' : Memory)
    (c' : Cache) : Prop where
  sound : Sound c'
  exact : ∀ E, (∀ v, keep ≠ some v → Counted c v E) → Exact c E → Exact c' E
  narrows : Narrows c c'
  memory : mem'.unreleased = mem.unreleased
  kept : ∀ k, keep = some k → (c.monitor k).installed = true → (c'.monitor k).installed = true
  alone : ∀ x k, keep = some k → (c.block x).owner = some k → (c.block x).companion = none →
    (c'.block x).live = true
  installed : ∀ n, (c'.monitor n).installed = true →
    (c.monitor n).installed = true ∧ (c'.monitor n).station = (c.monitor n).station ∨
      (c'.monitor n).station = (page, mem.pageFlags page, code32)
  capped : ∀ U, CappedAt c U → CappedAt c' U

namespace Paged

theorem refl (h : Sound c) : Paged keep page code32 mem c mem c where
  sound := h
  exact _ _ he := he
  narrows := .refl c
  memory := rfl
  kept _ _ hk := hk
  alone _ k _ hx _ := live_iff.mpr ⟨k, hx⟩
  installed _ hn := Or.inl ⟨hn, rfl⟩
  capped _ hcap := hcap

theorem clearRelease (h : PageCleared m c c') (hkeep : keep ≠ some m) :
    Paged keep page code32 mem c (mem.release page) c' := by
  refine ⟨h.sound, fun E hE => h.exact E (hE m hkeep), h.narrows, rfl,
    fun k hk hkinst => (h.installed k).mpr ⟨?_, hkinst⟩,
    fun x k hk hx hcomp => h.alone x (live_iff.mpr ⟨k, hx⟩) ?_ hcomp,
    fun n hn => Or.inl ⟨((h.installed n).mp hn).2, h.station n⟩, h.capped⟩
  · rintro rfl
    exact hkeep hk
  · intro hxm
    rw [hx] at hxm
    exact hkeep (hk.trans hxm)

theorem trans {c₁ : Cache} {mem₁ : Memory} (h : Paged keep page code32 mem c mem₁ c₁)
    (h' : Paged keep page code32 mem₁ c₁ mem' c') : Paged keep page code32 mem c mem' c' where
  sound := h'.sound
  exact E hE he := by
    refine h'.exact E (fun v hv => ?_) (h.exact E hE he)
    exact (hE v hv).of_core fun x hx => h.narrows.core x (live_iff.mpr ⟨v, hx⟩)
  narrows := h.narrows.trans h'.narrows
  memory := h'.memory.trans h.memory
  kept k hk hkinst := h'.kept k hk (h.kept k hk hkinst)
  alone x k hk hx hcomp := by
    have hcore := h.narrows.core x (h.alone x k hk hx hcomp)
    exact h'.alone x k hk ((Block.owner_eq_of_core hcore).trans hx) ((Block.companion_eq_of_core hcore).trans hcomp)
  installed n hn := by
    rcases h'.installed n hn with ⟨hn₁, hstation⟩ | hstation
    · rw [hstation]
      exact h.installed n hn₁
    · rw [hstation, Memory.pageFlags_eq_of_unreleased h.memory]
      exact Or.inr rfl
  capped U hcap := h'.capped U (h.capped U hcap)

end Paged

theorem install_spec (h : Sound c) (hpage : c.monitorOf page = none) (hlt : page.toNat < 2 ^ 20)
    {r : Except PageFault (Option MonitorId)} (hr : codePage.install code32 keep page mem c = .ok (r, mem', c')) :
    Paged keep page code32 mem c mem' c' ∧
      ∀ m, r = .ok (some m) → (c'.monitor m).installed = true ∧ (c'.monitor m).station = (page, mem.pageFlags page, code32) := by
  unfold codePage.install at hr
  dsimp only at hr
  split at hr
  · obtain ⟨rfl, rfl, rfl⟩ : .ok none = r ∧ mem = mem' ∧ c = c' := by simpa using hr
    exact ⟨.refl h, by simp⟩
  · split at hr
    · exact absurd hr (by simp)
    · rename_i m recycled c₁ htake
      have htaken := takeMonitor_spec h htake
      obtain ⟨rfl, hmem, rfl⟩ : .ok (some m) = r ∧ _ = mem' ∧ c₁.watch m page (mem.pageFlags page) code32 = c' := by
        simpa using hr
      have hnone : c₁.monitorOf page = none := by
        by_contra hsome
        obtain ⟨n, hn⟩ := Option.ne_none_iff_exists'.mp hsome
        obtain ⟨hninst, hnpage⟩ := (htaken.sound.watches.byPage page n).mp hn
        have hold : (c.monitor n).page = page := by
          rw [← hnpage]
          exact (congrArg Prod.fst (htaken.station n)).symm
        rw [(h.watches.byPage page n).mpr ⟨htaken.installed n hninst, hold⟩] at hpage
        exact absurd hpage (by simp)
      have hself : ((c₁.watch m page (mem.pageFlags page) code32).monitor m).installed = true ∧
          ((c₁.watch m page (mem.pageFlags page) code32).monitor m).station = (page, mem.pageFlags page, code32) := by
        rw [monitor_watch_self htaken.sound.watches htaken.spare]
        exact ⟨rfl, rfl⟩
      have hother : ∀ n, n ≠ m → ((c₁.watch m page (mem.pageFlags page) code32).monitor n).installed =
          (c₁.monitor n).installed ∧ ((c₁.watch m page (mem.pageFlags page) code32).monitor n).station =
          (c₁.monitor n).station := fun n hn => by
        rw [monitor_watch_ne htaken.sound.watches htaken.spare hn]
        exact ⟨rfl, rfl⟩
      have hne : ∀ n, (c₁.monitor n).installed = true → n ≠ m := by
        rintro n hn rfl
        rw [htaken.spare.idle] at hn
        exact absurd hn (by simp)
      have hapart := PagesApart.watch c₁ m page (mem.pageFlags page) code32
      refine ⟨⟨htaken.sound.watch htaken.spare hnone hlt,
        fun E hE he => (htaken.exact E hE he).watch htaken.sound.toOrderly htaken.spare,
        htaken.narrows.trans (.of_pagesApart hapart
          fun x n hx => (hother n (hne n (htaken.sound.registry.installed x n hx))).2), ?_, fun k hk hkinst => ?_,
        fun x k hk hx hcomp => ?_, fun n hn => ?_,
        fun U hcap => (htaken.capped U hcap).watch htaken.sound.watches htaken.spare⟩, ?_⟩
      · rw [← hmem]
        cases recycled <;> rfl
      · have hk₁ := htaken.kept k hk hkinst
        rw [(hother k (hne k hk₁)).1]
        exact hk₁
      · rw [hapart.block]
        exact htaken.alone x k hk hx hcomp
      · by_cases hnm : n = m
        · rw [hnm]
          exact Or.inr hself.2
        · rw [(hother n hnm).1] at hn
          rw [(hother n hnm).2]
          exact Or.inl ⟨htaken.installed n hn, htaken.station n⟩
      · intro m' hm'
        obtain rfl : m = m' := by simpa using hm'
        exact hself

/-- A page that resolves has a monitor or gets a new one, unless it may not hold code. -/
theorem codePage_result {linear paddr : UInt32} (hpaddr : mem.resolve linear false = .ok paddr)
    {r : Except PageFault (Option MonitorId)} (hr : c.codePage mem linear code32 keep = .ok (r, mem', c')) :
    (∃ m, r = .ok (some m) ∧ (c.monitorOf (pageOf paddr) = some m ∧ (c.monitor m).code32 = code32 ∧ c' = c ∨
      ∃ (d : Cache) (flags : UInt8), c' = d.watch m (pageOf paddr) flags code32)) ∨
    r = .ok none ∧ mem.barred (pageOf paddr) = true := by
  have hinstall : ∀ {mem₁ : Memory} {d : Cache}, mem₁.unreleased = mem.unreleased →
      codePage.install code32 keep (pageOf paddr) mem₁ d = .ok (r, mem', c') →
      (∃ m, r = .ok (some m) ∧ ∃ (d : Cache) (flags : UInt8), c' = d.watch m (pageOf paddr) flags code32) ∨
        r = .ok none ∧ mem.barred (pageOf paddr) = true := by
    intro mem₁ d hmem hout
    unfold codePage.install at hout
    rw [Memory.pageFlags_eq_of_unreleased hmem] at hout
    dsimp only at hout
    split at hout
    · rename_i hbarred
      cases hout
      exact .inr ⟨rfl, hbarred⟩
    · split at hout
      · cases hout
      · rename_i m _ _ _
        cases hout
        exact .inl ⟨m, rfl, _, _, rfl⟩
  unfold codePage at hr
  rw [hpaddr] at hr
  dsimp only at hr
  split at hr
  · rename_i m hm
    split at hr
    · rename_i hcode
      cases hr
      exact .inl ⟨m, rfl, .inl ⟨hm, hcode, rfl⟩⟩
    · have hreleased : (mem.release (pageOf paddr)).unreleased = mem.unreleased := rfl
      exact (hinstall hreleased hr).imp_left fun ⟨m, hm, hwatch⟩ => ⟨m, hm, .inr hwatch⟩
  · exact (hinstall rfl hr).imp_left fun ⟨m, hm, hwatch⟩ => ⟨m, hm, .inr hwatch⟩

/-- Memory is told of pages that are no longer watched, and is left alone. -/
theorem codePage_memory {linear : UInt32} {r : Except PageFault (Option MonitorId)}
    (hr : c.codePage mem linear code32 keep = .ok (r, mem', c')) : mem'.unreleased = mem.unreleased := by
  have hinstall : ∀ {page : UInt32} {mem₁ : Memory} {d : Cache}, mem₁.unreleased = mem.unreleased →
      codePage.install code32 keep page mem₁ d = .ok (r, mem', c') → mem'.unreleased = mem.unreleased := by
    intro page mem₁ d hmem hout
    unfold codePage.install at hout
    dsimp only at hout
    split at hout
    · cases hout
      exact hmem
    · split at hout
      · cases hout
      · rename_i m recycled d' htake
        cases hout
        cases recycled <;> exact hmem
  unfold codePage at hr
  split at hr
  · cases hr
    rfl
  · dsimp only at hr
    split at hr
    · split at hr
      · cases hr
        rfl
      · refine hinstall ?_ hr
        rfl
    · exact hinstall rfl hr

/-- A page whose monitor was withdrawn is not watched. -/
theorem PageCleared.monitorOf_eq_none (hcleared : PageCleared m c c') (h : Sound c) {page : UInt32} (hm : c.monitorOf page = some m) :
    c'.monitorOf page = none := by
  by_contra hsome
  obtain ⟨n, hn⟩ := Option.ne_none_iff_exists'.mp hsome
  obtain ⟨hninst, hnpage⟩ := (hcleared.sound.watches.byPage _ n).mp hn
  obtain ⟨hne, hnold⟩ := (hcleared.installed n).mp hninst
  have hnpage' : (c.monitor n).page = page := by
    rw [← hnpage]
    exact (congrArg Prod.fst (hcleared.station n)).symm
  have hn' := (h.watches.byPage _ n).mpr ⟨hnold, hnpage'⟩
  rw [hm] at hn'
  exact hne (Option.some.inj hn').symm

/-- Looking for the monitor of a page: either its address cannot be resolved and nothing changes, or the page is
watched for the given code size afterwards, if a monitor is given. -/
theorem codePage_spec (h : Sound c) {linear : UInt32}
    (hkeep : ∀ paddr, mem.resolve linear false = .ok paddr → ∀ m, c.monitorOf (pageOf paddr) = some m →
      (c.monitor m).code32 ≠ code32 → keep ≠ some m)
    {r : Except PageFault (Option MonitorId)} (hr : c.codePage mem linear code32 keep = .ok (r, mem', c')) :
    (∃ fault, mem.resolve linear false = .error fault ∧ r = .error fault ∧ mem' = mem ∧ c' = c) ∨
    ∃ paddr, mem.resolve linear false = .ok paddr ∧ Paged keep (pageOf paddr) code32 mem c mem' c' ∧
      ∀ m, r = .ok (some m) → c'.monitorOf (pageOf paddr) = some m ∧ (c'.monitor m).code32 = code32 := by
  have hresult : ∀ {c₁ : Cache} {mem₁ : Memory} {page : UInt32} {m : MonitorId}, Watches c₁ →
      (c₁.monitor m).installed = true ∧ (c₁.monitor m).station = (page, mem₁.pageFlags page, code32) →
      c₁.monitorOf page = some m ∧ (c₁.monitor m).code32 = code32 := by
    intro c₁ mem₁ page m hw hm
    exact ⟨(hw.byPage page m).mpr ⟨hm.1, congrArg Prod.fst hm.2⟩, congrArg (fun s => s.2.2) hm.2⟩
  unfold codePage at hr
  split at hr
  · rename_i fault hfault
    obtain ⟨rfl, rfl, rfl⟩ : .error fault = r ∧ mem = mem' ∧ c = c' := by simpa using hr
    exact Or.inl ⟨fault, hfault, rfl, rfl, rfl⟩
  · rename_i paddr hpaddr
    refine Or.inr ⟨paddr, hpaddr, ?_⟩
    dsimp only at hr
    split at hr
    · rename_i m hm
      obtain ⟨hminst, hmpage⟩ := (h.watches.byPage _ m).mp hm
      split at hr
      · rename_i hcode
        obtain ⟨rfl, rfl, rfl⟩ : .ok (some m) = r ∧ mem = mem' ∧ c = c' := by simpa using hr
        refine ⟨.refl h, fun m' hm' => ?_⟩
        obtain rfl : m = m' := by simpa using hm'
        exact ⟨hm, hcode⟩
      · rename_i hcode
        have hcleared := clearRelease_spec h hminst
        have hfirst : Paged keep (pageOf paddr) code32 mem c (mem.release (pageOf paddr)) (c.clearRelease m) :=
          .clearRelease hcleared (hkeep paddr hpaddr m hm hcode)
        have hnone := hcleared.monitorOf_eq_none h hm
        obtain ⟨hpaged, hm'⟩ := install_spec hcleared.sound hnone (toNat_pageOf_lt paddr) hr
        exact ⟨hfirst.trans hpaged, fun m' h' => hresult hpaged.sound.watches (hm' m' h')⟩
    · rename_i hnone
      obtain ⟨hpaged, hm'⟩ := install_spec h hnone (toNat_pageOf_lt paddr) hr
      exact ⟨hpaged, fun m' h' => hresult hpaged.sound.watches (hm' m' h')⟩

end Cache

end Recompiler
