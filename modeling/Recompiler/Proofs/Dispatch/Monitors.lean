import Recompiler.Proofs.Compile.Phases
import Recompiler.Proofs.Dispatch.Arena
import Recompiler.Proofs.Dispatch.Visited

/-! The pool of code page monitors. The list of installed monitors has the one that was put on a page last in front, in
every state the dispatcher passes through. There is always a monitor for one more page, and never at the cost of the page
whose code is being compiled. -/

namespace Recompiler

open Cache

/-! ### Compilations -/

namespace Compilation

variable {k : Compilation} {l : List MonitorId}

/-- A compilation puts a monitor on at most one page. -/
theorem turns_outcome {r : Except CoreError Trace} {s : Scan} (hr : k.outcome = .ok (r, s)) : Turns k.cache s.cache := by
  have hopen : Quiet k.cache k.scan.cache := .openSite k.cpu k.monitor k.cache
  rcases (Scan.take_advances hr).searched with hquiet | ⟨c, r₁, c', hquiet, hsearch, hquiet'⟩
  · exact (Dwindles.of_stationed (hopen.trans hquiet).toStationed).turns
  · exact ((Turns.codePage hsearch).after_quiet (hopen.trans hquiet)).before_quiet hquiet'

theorem turns_result {r : Except CoreError BlockId} {mem' : Memory} {c' : Cache} {code' : HostCode}
    (hr : k.result = .ok (r, mem', c', code')) : Turns k.cache c' := by
  rw [result_eq] at hr
  split at hr
  · cases hr
  · rename_i hout
    cases hr
    exact (turns_outcome hout).before_quiet (.abandon _)
  · rename_i hout
    split at hr
    · cases hr
    · rename_i hemit
      cases hr
      exact (turns_outcome hout).before_quiet (.emit hemit)

/-- There is a monitor for the second page. -/
theorem searchable (h : Lineup k.cache none l) : Scan.Searchable k.site k.scan := fun _ _ hc =>
  (h.congr ((Quiet.openSite k.cpu k.monitor k.cache).trans hc).toStationed).exists_codePage _ _ _ _

/-- So a trace can be taken. -/
theorem exists_outcome (h : Lineup k.cache none l) : ∃ r s, k.outcome = .ok (r, s) := by
  obtain ⟨⟨r, s⟩, hout⟩ := (searchable h).take (Compile.limit k.scan.cache.settings) k.cpu.eip
  exact ⟨r, s, hout⟩

end Compilation

/-! ### Steps -/

theorem Cache.Dwindles.lasting (R : Regime) (c₀ : Cache) : Lasting R fun _ _ c _ => Sound c ∧ Dwindles c₀ c where
  sound h := h.1
  change h _ := h
  stored h hs := ⟨hs.sound, h.2.trans hs.toDwindles⟩
  link h hid htarget hfree := ⟨h.1.link hid htarget hfree, h.2.trans (.of_stationed (.link ..))⟩

namespace Engine

variable {σ : Type} {p : Platform σ} {R : Regime} {e e' : Engine σ} {phase : Phase}

/-- A state without change since it was reached. -/
theorem keeps_dwindles (hs : e.cache.Sound) : e.Keeps (fun _ _ c _ => Sound c ∧ Dwindles e.cache c) [] :=
  ⟨hs, .refl e.cache⟩

theorem reaches_dwindles (hs : e.cache.Sound) {bus : Bus Cache} (hbus : e.guest.bus.Reaches R.may bus) : Dwindles e.cache bus.watch :=
  (@Durable.reaches R _ [] e.code (Dwindles.lasting R e.cache).toDurable _ _ (keeps_dwindles hs) hbus).2

theorem enter_dwindles (hp : p.Confined R) (hs : e.cache.Sound) {fuel : Nat} {id : BlockId} {r : Except CoreError BlockExit}
    (hr : e.enter p fuel id = .ok (r, e')) : Dwindles e.cache e'.cache :=
  (enter_keeps (Dwindles.lasting R e.cache).toDurable hp (keeps_dwindles hs) hr).2

/-- A step puts a monitor on at most one page. -/
theorem step_turns (hp : p.Confined R) (hs : e.cache.Sound) {fuel : Nat} {r : Except CoreError Phase}
    (hr : e.step p fuel phase = .ok (r, e')) : Turns e.cache e'.cache := by
  have hsearch {result mem c} (hpage : e.search = .ok (result, mem, c)) (hnone : ∀ m, result ≠ .ok (some m)) {bus : Bus Cache}
      (hbus : Bus.Reaches R.may ⟨mem, c⟩ bus) : Turns e.cache bus.watch := by
    refine .codePage_dwindles hpage hnone
      (reaches_dwindles (e := ⟨⟨e.guest.cpu, ⟨mem, c⟩, e.guest.host⟩, e.code, e.stats, e.trap⟩) ?_ hbus)
    rcases codePage_spec hs (by simp) hpage with ⟨-, -, -, -, rfl⟩ | ⟨_, -, hpaged, -⟩
    · exact hs
    · exact hpaged.sound
  have hcall {bus : Bus Cache} (hbus : e.guest.bus.Reaches R.may bus) : Turns e.cache bus.watch := (reaches_dwindles hs hbus).turns
  cases steps_of_step hr with
  | fault hpage => exact hsearch hpage (by simp) (hp.pageFault _ ⟨_, ⟨_, _⟩, _⟩)
  | barred hpage hrun => exact hsearch hpage (by simp) (hp.runNormal _ hrun)
  | found hpage | missing hpage => exact .codePage hpage
  | spent _ hrun | called _ hrun =>
      have hreaches := hp.runNormal _ hrun
      exact hcall hreaches
  | single _ hrun =>
      have hreaches := reaches_single hp hrun
      exact hcall hreaches
  | compiled _ hresult => exact Compilation.turns_result hresult
  | entered henter => exact (enter_dwindles hp hs henter).turns
  | linked => exact (Dwindles.of_stationed (.link ..)).turns
  | _ => exact (Dwindles.refl _).turns

end Engine

/-! ### Order -/

/-- The members of a list are on a record and stand in the order of the record. Where the record has one more than once, its
first place counts. -/
structure Ranked (record l : List MonitorId) : Prop where
  mem : ∀ m ∈ l, m ∈ record
  order : l.Pairwise fun a b => record.idxOf a < record.idxOf b

namespace Ranked

variable {record l l' : List MonitorId} {m : MonitorId}

theorem sublist (h : Ranked record l) (hsub : l'.Sublist l) : Ranked record l' :=
  ⟨fun m hm => h.mem m (hsub.subset hm), h.order.sublist hsub⟩

/-- One that comes in front is the first of the record. -/
theorem cons (h : Ranked record l) (hm : m ∉ l) : Ranked (m :: record) (m :: l) := by
  have hidx : ∀ a ∈ l, (m :: record).idxOf a = record.idxOf a + 1 := by
    intro a ha
    refine List.idxOf_cons_ne _ ?_
    rintro rfl
    exact hm ha
  refine ⟨fun a ha => ?_, List.pairwise_cons.mpr ⟨fun a ha => ?_, h.order.imp_of_mem fun ha hb hab => ?_⟩⟩
  · rcases List.mem_cons.mp ha with rfl | ha
    · exact List.mem_cons_self
    · exact List.mem_cons_of_mem m (h.mem a ha)
  · rw [List.idxOf_cons_self, hidx a ha]
    omega
  · rw [hidx _ ha, hidx _ hb]
    omega

end Ranked

/-- What was put on pages on the way comes first, on the record as on the list. -/
theorem Cache.Turns.ranked {c c' : Cache} (h : Turns c c') {record l : List MonitorId} (hl : Lineup c none l) (hrank : Ranked record l) :
    ∃ l', Lineup c' none l' ∧ Ranked (c.arrivals c' ++ record) l' := by
  obtain ⟨l', hsub, hl'⟩ := h l hl
  refine ⟨_, hl', ?_⟩
  unfold arrivals at hl' ⊢
  split
  · rename_i hlt
    rw [if_pos hlt] at hl'
    cases hnewest : c'.newest with
    | none => exact hrank.sublist hsub
    | some m =>
        rw [hnewest] at hl'
        exact (hrank.sublist hsub).cons (List.nodup_cons.mp hl'.nodup).1
  · exact hrank.sublist hsub

namespace Engine

variable {σ : Type} {p : Platform σ} {R : Regime} {e : Engine σ} {phase : Phase} {log : List Compilation} {record : List MonitorId}

/-- The list of installed monitors follows the record, the one that was put on a page last in front. -/
theorem Visits.lineup (hp : p.Confined R) (h : Visits R p e phase log record) :
    ∃ l, Lineup e.cache none l ∧ Ranked record l := by
  have hupkeep := Housed.upkeep R fun _ => True
  induction h with
  | start hnew henable hr cpu hmem host =>
      obtain ⟨code, hcheck, -, hr'⟩ := Machine.enable_spec hnew henable
      obtain rfl := Option.some.inj (hr.symm.trans hr')
      exact ⟨[], lineup_create hcheck _ _ _, by simp, .nil⟩
  | @outside e _ _ _ h bus hbus cpu host stats trap ih =>
      obtain ⟨l, hl, hrank⟩ := ih
      have hs := (h.keeps hupkeep hp fun _ _ => trivial).1.sound
      obtain ⟨l', hsub, hl'⟩ := (reaches_dwindles hs hbus).lineup l hl
      exact ⟨l', hl', hrank.sublist hsub⟩
  | search h hr ih =>
      obtain ⟨l, hl, hrank⟩ := ih
      exact (Turns.codePage hr).ranked hl hrank
  | step h hr ih =>
      obtain ⟨l, hl, hrank⟩ := ih
      exact (step_turns hp (h.keeps hupkeep hp fun _ _ => trivial).1.sound hr).ranked hl hrank
  | execute h hr ih =>
      obtain ⟨l, hl, hrank⟩ := ih
      obtain ⟨l', hsub, hl'⟩ := (enter_dwindles hp (h.keeps hupkeep hp fun _ _ => trivial).1.sound hr).lineup l hl
      exact ⟨l', hl', hrank.sublist hsub⟩

/-- In every state that can be reached, the list of installed monitors is the same forwards and backwards. It has each
installed monitor once, the one that was put on a page last in front, and pages are found by it. The other monitors are
free, each of them once. If none is free, the monitor that was put on its page before all others is recycled, other than
one under protection. So there is always an answer when the monitor of a page is looked for: one comes in front at
most, the others that are left keep their order, and one that is under protection and watches for the right kind of code
is left. A trace can always be taken, and the page it starts on is not released on the way. -/
theorem installed_ordered_and_oldest_recycled (hp : p.Confined .free) (h : Visits .free p e phase log record) :
    Path (fun m => (e.cache.monitor m).next) e.cache.newest e.cache.installed none ∧
    Path (fun m => (e.cache.monitor m).prev) e.cache.oldest e.cache.installed.reverse none ∧
    e.cache.installed.Nodup ∧ (∀ m, m ∈ e.cache.installed ↔ (e.cache.monitor m).installed = true) ∧
    Ranked record e.cache.installed ∧
    (∀ page m, e.cache.monitorOf page = some m ↔ (e.cache.monitor m).installed = true ∧ (e.cache.monitor m).page = page) ∧
    e.cache.freeMonitors.Nodup ∧
    (∀ m, m ∈ e.cache.freeMonitors ↔ m < e.cache.settings.codePages ∧ (e.cache.monitor m).installed = false) ∧
    (∀ keep, e.cache.freeMonitors = [] → ∃ v,
      e.cache.installed.reverse.find? (fun m => decide (keep ≠ some m)) = some v ∧
      e.cache.takeMonitor keep = .ok (v, some (e.cache.monitor v).page, { e.cache.clearRelease v with freeMonitors := [] })) ∧
    (∀ mem linear code32 keep, ∃ r mem' c' l', e.cache.codePage mem linear code32 keep = .ok (r, mem', c') ∧
      l'.Sublist e.cache.installed ∧
      (∀ m ∈ e.cache.installed, keep = some m → (e.cache.monitor m).code32 = code32 → m ∈ l') ∧
      (c'.installed = l' ∨ ∃ m, r = .ok (some m) ∧ c'.installed = m :: l')) ∧
    ∀ k : Compilation, k.cache = e.cache → k.Pending → ∃ r s, k.outcome = .ok (r, s) ∧
      (s.cache.block k.block).owner = some k.monitor ∧ (s.cache.monitor k.monitor).installed = true ∧
      (s.cache.monitor k.monitor).page = (e.cache.monitor k.monitor).page := by
  obtain ⟨l, hl, hrank⟩ := h.lineup hp
  have hs := (h.keeps (Housed.upkeep _ fun _ => True) hp fun _ _ => trivial).1.sound
  rw [hl.installed_eq]
  refine ⟨hl.path, hl.backward, hl.nodup, hl.mem, hrank, hl.byPage, hl.free_nodup, fun m => ?_, fun keep hfull => ?_,
    fun mem linear code32 keep => ?_, fun k hk hpending => ?_⟩
  · rw [hl.free, hl.pool]
    simp
  · rw [← hl.victim_eq]
    exact hl.takeMonitor_full hfull keep
  · obtain ⟨⟨r, mem', c'⟩, hr⟩ := hl.exists_codePage mem linear code32 keep
    obtain ⟨l', hsub, hkept, hnow⟩ := hl.codePage hr
    refine ⟨r, mem', c', l', hr, hsub, fun m hm hkeep hcode => hkept m hm ⟨hkeep, hcode⟩, ?_⟩
    rcases hnow with ⟨hl', -⟩ | ⟨m, hm, hl', -⟩
    · exact .inl hl'.installed_eq
    · exact .inr ⟨m, hm, hl'.installed_eq⟩
  · rw [← hk] at hl hs ⊢
    obtain ⟨r, s, hout⟩ := Compilation.exists_outcome hl
    have hsteady := ((hpending.steady hs).take hout).1
    have hsite := hpending.sited hs
    have howner := hsteady.owner
    have hpage := hsteady.page
    rw [hsite.monitor] at howner hpage
    exact ⟨r, s, hout, howner, hsteady.sound.registry.installed _ _ howner, hpage.trans hsite.page⟩

/-- Two pages of RAM. -/
def twoPages : Memory where
  ram := zeroBytes (2 * pageSize)
  flags := #[PageFlag.ram, PageFlag.ram]

/-- The cache when both pages are watched, the second one since later. -/
def fullCache : Cache :=
  { Machine.watchedCache with freeMonitors := [] }.watch 1 1 PageFlag.ram true

theorem codePage_twoPages :
    Machine.watchedCache.codePage twoPages 0x1000 true none = .ok (.ok (some 1), twoPages, fullCache) := by
  have hresolve : twoPages.resolve 0x1000 false = .ok 0x1000 := by decide +kernel
  have hpage : pageOf 0x1000 = 1 := by decide
  have hnone : Machine.watchedCache.monitorOf 1 = none := by
    rw [monitorOf, Machine.watchedCache, (lists_watch ..).2.2.1]
    simp [Machine.scantCache, Cache.create]
  have hflags : twoPages.pageFlags 1 = PageFlag.ram := by decide +kernel
  have hfree : Machine.watchedCache.freeMonitors = [1] := rfl
  have hcode : (!PageFlag.has PageFlag.ram PageFlag.readable || PageFlag.has PageFlag.ram PageFlag.noCode) = false := by decide
  simp only [Cache.codePage, hresolve, hpage, hnone, Cache.codePage.install, hflags, hcode, takeMonitor, hfree]
  rfl

/-- Two pages are watched, and there are no more monitors. A third page gets the monitor of the first one, which is watched
since earlier, or that of the second one if the first is under protection. -/
theorem installed_ordered_and_oldest_recycled_full :
    ∃ (e : Engine Interpreter) (phase : Phase) (log : List Compilation) (record : List MonitorId),
      Visits .free Interpreter.platform e phase log record ∧ e.cache.installed = [1, 0] ∧
        (∃ c, e.cache.takeMonitor none = .ok (0, some 0, c)) ∧ ∃ c, e.cache.takeMonitor (some 0) = .ok (1, some 1, c) := by
  have hhistory : Machine.History .free Interpreter.platform (Machine.onePageMachine 0 [] .flat32) [] :=
    Machine.history_onePageMachine _ trivial _
  obtain ⟨r, record, hr, hvisit⟩ := hhistory.visits (Interpreter.platform_confined _)
  obtain rfl : ⟨Machine.scantCache, Machine.scantCode⟩ = r := Option.some.inj hr
  have hfirst := hvisit.search (Machine.codePage_onePage 0 [] (by decide))
  have hsecond := (hfirst.outside (.change .refl twoPages trivial) { Cpu.flat32 with eip := 0x1000 } {} {} false).search codePage_twoPages
  have hinstalled : fullCache.installed = [1, 0] := by decide +kernel
  obtain ⟨-, -, -, -, -, -, -, -, hrecycle, -⟩ := installed_ordered_and_oldest_recycled (Interpreter.platform_confined _) hsecond
  obtain ⟨v, hv, htake⟩ := hrecycle none (by decide +kernel)
  obtain ⟨w, hw, htake'⟩ := hrecycle (some 0) (by decide +kernel)
  change fullCache.installed.reverse.find? _ = _ at hv hw
  rw [hinstalled] at hv hw
  obtain rfl : 0 = v := by simpa using hv
  obtain rfl : 1 = w := by simpa using hw
  exact ⟨_, _, _, _, hsecond, hinstalled, ⟨_, htake⟩, ⟨_, htake'⟩⟩

end Engine

end Recompiler
