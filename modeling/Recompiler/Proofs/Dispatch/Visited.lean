import Recompiler.Proofs.Dispatch.History

/-! The states that the dispatcher passes through, one step after the other. They are the states between the steps of a
run, so that what holds of them holds also in the middle of one. On the way two records are kept: of the compilations, and
of the monitors that were put on pages. -/

namespace Recompiler

open Cache

variable {σ : Type} {p : Platform σ} {R : Regime} {good : Compilation → Prop} {I : Condition} {log : List Compilation}
  {record : List MonitorId} {m m' : Machine σ} {e e' : Engine σ} {phase : Phase}

namespace Engine

/-- What is due when the page of the instruction pointer was looked for on behalf of the caller: to compile the block, if
the page is watched and the block is missing. -/
def afterSearch (cache : Cache) (cpu : Cpu) (r : Except PageFault (Option MonitorId)) : Phase :=
  (r.toOption.bind id).elim .lookup fun m =>
    if cache.find m (pageOffset cpu.ipLinear) = none then .create m else .lookup

/-- The states between the steps of the dispatcher, each with what is due next, the compilations so far, and the monitors
that were put on pages so far, the newest first. Between two runs the caller may do anything to the processor and the
platform, write to memory through the bus, and change it in other ways as the regime allows. -/
inductive Visits (R : Regime) (p : Platform σ) : Engine σ → Phase → List Compilation → List MonitorId → Prop where
  | start {core core' : Core} {r : Resources} (hnew : core.resources = none) (henable : core.enable true = .ok core')
      (hr : core'.resources = some r) (cpu : Cpu) {mem : Memory} (hmem : R.begins mem) (host : σ) :
      Visits R p ((⟨core', cpu, mem, host⟩ : Machine σ).engine r) .lookup [] []
  | outside {e : Engine σ} {phase : Phase} {log : List Compilation} {record : List MonitorId}
      (h : Visits R p e phase log record) {bus : Bus Cache} (hbus : e.guest.bus.Reaches R.may bus) (cpu : Cpu) (host : σ)
      (stats : Stats) (trap : Bool) : Visits R p ⟨⟨cpu, bus, host⟩, e.code, stats, trap⟩ .lookup log record
  | search {e : Engine σ} {phase : Phase} {log : List Compilation} {record : List MonitorId}
      (h : Visits R p e phase log record) {r : Except PageFault (Option MonitorId)} {mem : Memory} {cache : Cache}
      (hr : e.cache.codePage e.guest.bus.mem e.guest.cpu.ipLinear e.guest.cpu.codeBig none = .ok (r, mem, cache)) :
      Visits R p ⟨⟨e.guest.cpu, ⟨mem, cache⟩, e.guest.host⟩, e.code, e.stats, e.trap⟩ (afterSearch cache e.guest.cpu r) log
        (e.cache.arrivals cache ++ record)
  | step {e e' : Engine σ} {phase : Phase} {log : List Compilation} {record : List MonitorId}
      (h : Visits R p e phase log record) {fuel : Nat} {r : Except CoreError Phase} (hr : e.step p fuel phase = .ok (r, e')) :
      Visits R p e' (r.toOption.getD .lookup) (e.stepLog phase ++ log) (e.cache.arrivals e'.cache ++ record)
  | execute {e e' : Engine σ} {phase : Phase} {log : List Compilation} {record : List MonitorId}
      (h : Visits R p e phase log record) {fuel : Nat} {id : BlockId} {r : Except CoreError BlockExit}
      (hr : e.enter p fuel id = .ok (r, e')) : Visits R p e' .lookup log record

theorem Ready.afterSearch {r : Except PageFault (Option MonitorId)}
    (h : ∀ m, r = .ok (some m) → e.cache.find m (pageOffset e.guest.cpu.ipLinear) = none → (e.request m).Pending) :
    e.Ready (afterSearch e.cache e.guest.cpu r) := by
  rcases r with fault | (_ | m)
  · trivial
  · trivial
  · change e.Ready (if e.cache.find m (pageOffset e.guest.cpu.ipLinear) = none then .create m else .lookup)
    split
    · rename_i hfind
      exact h m rfl hfind
    · trivial

/-- What holds of states that the dispatcher passes through goes on to hold, whatever happens. -/
structure Passing (R : Regime) (p : Platform σ) (V : Engine σ → Phase → List Compilation → List MonitorId → Prop) : Prop where
  outside : ∀ {e phase log bus} record, V e phase log record → e.guest.bus.Reaches R.may bus → ∀ cpu host stats trap,
    V ⟨⟨cpu, bus, host⟩, e.code, stats, trap⟩ .lookup log record
  search : ∀ {e phase log r mem cache} record, V e phase log record → e.search = .ok (r, mem, cache) →
    V ⟨⟨e.guest.cpu, ⟨mem, cache⟩, e.guest.host⟩, e.code, e.stats, e.trap⟩ (afterSearch cache e.guest.cpu r) log
      (e.cache.arrivals cache ++ record)
  step : ∀ {e e' phase log fuel r} record, V e phase log record → e.step p fuel phase = .ok (r, e') →
    V e' (r.toOption.getD .lookup) (e.stepLog phase ++ log) (e.cache.arrivals e'.cache ++ record)
  execute : ∀ {e e' phase log fuel id r} record, V e phase log record → e.enter p fuel id = .ok (r, e') → V e' .lookup log record

theorem Visits.passing : Passing R p (Visits R p) where
  outside _ h hbus cpu host stats trap := h.outside hbus cpu host stats trap
  search _ h hr := h.search hr
  step _ h hr := h.step hr
  execute _ h hr := h.execute hr

theorem passing_sustained (hI : Sustained R good I) (hp : p.Confined R) :
    Passing R p fun e phase log _ => (∀ k ∈ log, good k) → e.Keeps I log ∧ e.Ready phase where
  outside _ h hbus _ _ _ _ hgood := ⟨hI.reaches (h hgood).1 hbus, trivial⟩
  search _ h hr hgood := by
    obtain ⟨hkept, hpending⟩ := hI.codePage (h hgood).1 hr
    exact ⟨hkept, .afterSearch hpending⟩
  step _ h hr hgood := by
    obtain ⟨hkept, hready⟩ := h fun k hk => hgood k (List.mem_append_right _ hk)
    exact step_keeps hI hp hkept hready (fun k hk => hgood k (List.mem_append_left _ hk)) hr
  execute _ h hr hgood := ⟨enter_keeps hI.toDurable hp (h hgood).1 hr, trivial⟩

/-- A condition that is kept up holds in all states the dispatcher passes through. -/
theorem Visits.keeps (hI : Upkeep R good I) (hp : p.Confined R) (h : Visits R p e phase log record)
    (hgood : ∀ k ∈ log, good k) : e.Keeps I log ∧ e.Ready phase := by
  have hV := passing_sustained hI.toSustained hp
  revert hgood
  induction h with
  | start hnew henable hr cpu hmem host =>
      obtain ⟨r', hr', hkept⟩ := Machine.keeps_start hI hnew henable cpu hmem host
      obtain rfl := Option.some.inj (hr.symm.trans hr')
      exact fun _ => ⟨hkept, trivial⟩
  | outside _ hbus cpu host stats trap ih => exact hV.outside [] ih hbus cpu host stats trap
  | search _ hr ih => exact hV.search [] ih hr
  | step _ hr ih => exact hV.step [] ih hr
  | execute _ hr ih => exact hV.execute [] ih hr

namespace Passing

variable {V : Engine σ → Phase → List Compilation → List MonitorId → Prop} (hV : Passing R p V)
include hV

/-- The dispatcher can be left at any time. -/
theorem leave (h : V e phase log record) : V e .lookup log record :=
  hV.outside record h .refl e.guest.cpu e.guest.host e.stats e.trap

theorem dispatch (h : V e phase log record) {fuel : Nat} {r : Except CoreError CoreExit}
    (hr : e.dispatch p fuel phase = .ok (r, e')) : ∃ record', V e' .lookup (dispatchLog p fuel phase e ++ log) record' := by
  induction fuel generalizing phase e log record with
  | zero => cases hr
  | succ fuel ih =>
      by_cases hdone : ∃ exit, phase = .done exit
      · obtain ⟨exit, rfl⟩ := hdone
        cases hr
        exact ⟨record, hV.leave h⟩
      · have hnot : ∀ exit, phase ≠ .done exit := fun exit heq => hdone ⟨exit, heq⟩
        rw [dispatch_succ hnot] at hr
        rw [dispatchLog_succ hnot]
        cases hstep : e.step p (fuel + 1) phase with
        | error abort =>
            rw [hstep] at hr
            cases hr
        | ok out =>
            obtain ⟨r₁, e₁⟩ := out
            have hvisit := hV.step record h hstep
            rw [hstep] at hr
            cases r₁ with
            | error err =>
                cases hr
                exact ⟨_, hvisit⟩
            | ok phase₁ =>
                dsimp only at hr ⊢
                rw [List.append_assoc]
                exact ih hvisit hr

end Passing

end Engine

namespace Machine

open Engine

/-- What the caller does to a machine, with the compilations on the way. -/
inductive Acts (R : Regime) (p : Platform σ) (m : Machine σ) : List Compilation → Machine σ → Prop where
  | caller (cpu : Cpu) (host : σ) : Acts R p m [] { m with cpu, host }
  | change {mem : Memory} (hmem : R.may m.mem mem) : Acts R p m [] { m with mem }
  | prepare {m' : Machine σ} {r : Except CoreError (Option BlockId)} (hr : m.prepareBlock = .ok (r, m')) : Acts R p m m.prepareLog m'
  | run {m' : Machine σ} {fuel : Nat} {r : Except CoreError CoreExit} (hr : m.run p fuel = .ok (r, m')) : Acts R p m (m.runLog p fuel) m'
  | execute {m' : Machine σ} {fuel : Nat} {id : BlockId} {r : Except CoreError ExitCode} (hr : m.executeBlock p fuel id = .ok (r, m')) :
      Acts R p m [] m'
  | write (linear : UInt32) (w : Width) (value : UInt32) : Acts R p m [] (m.write linear w value).2
  | writeBytewise (linear : UInt32) (w : Width) (value : UInt32) : Acts R p m [] (m.writeBytewise linear w value).2

section Passing

variable {V : Engine σ → Phase → List Compilation → List MonitorId → Prop} (hV : Passing R p V)
include hV

/-- Preparing a block looks for its page and compiles it if it is missing. -/
theorem prepareBlock_passes {r : Resources} (hr : m.core.resources = some r) (h : V (m.engine r) phase log record)
    {out : Except CoreError (Option BlockId)} (hprepare : m.prepareBlock = .ok (out, m')) :
    ∃ r' record', m'.core.resources = some r' ∧ V (m'.engine r') .lookup (m.prepareLog ++ log) record' := by
  have hprepares := prepares_of_prepareBlock hr hprepare
  generalize m.prepareLog = new at hprepares ⊢
  cases hprepares with
  | unfit hpage | found hpage => exact ⟨_, _, rfl, hV.leave (hV.search record h hpage)⟩
  | @compiled mon _ mem _ c _ _ hpage hfind hlight hresult =>
      let e : Engine σ := ⟨⟨m.cpu, ⟨mem, c⟩, m.host⟩, r.code, m.core.stats, m.core.trap⟩
      have hphase : afterSearch c m.cpu (.ok (some mon)) = .create mon := if_pos hfind
      have hcreate : V e (.create mon) log _ := hphase ▸ hV.search record h hpage
      have hlight : e.heavy mon = false := hlight
      have hvisit := hV.leave (hV.step _ hcreate (step_of_result hlight hresult 0))
      rw [stepLog_of_light hlight] at hvisit
      exact ⟨_, _, rfl, hvisit⟩

theorem onGuest_passes {r : Resources} (hr : m.core.resources = some r) (h : V (m.engine r) phase log record)
    {α : Type} {f : {κ : Type} → [Watcher κ] → Guest κ σ → Except Abort (α × Guest κ σ)}
    (hf : ∀ (g : Guest Cache σ) {a : α} {g' : Guest Cache σ}, f g = .ok (a, g') → g.bus.Reaches R.may g'.bus) {a : α}
    (hrun : m.onGuest f = .ok (a, m')) :
    ∃ r', m'.core.resources = some r' ∧ V (m'.engine r') .lookup log record := by
  obtain ⟨cache, code⟩ := r
  obtain ⟨⟨settings, resources, trap, stats⟩, cpu, mem, host⟩ := m
  obtain rfl : resources = some ⟨cache, code⟩ := hr
  unfold onGuest at hrun
  dsimp only at hrun
  cases hout : f (⟨cpu, ⟨mem, cache⟩, host⟩ : Guest Cache σ) with
  | error abort =>
      simp only [hout] at hrun
      cases hrun
  | ok out =>
      obtain ⟨a₁, cpu₁, ⟨mem₁, cache₁⟩, host₁⟩ := out
      simp only [hout] at hrun
      cases hrun
      exact ⟨_, rfl, hV.outside record h (hf _ hout) cpu₁ host₁ stats trap⟩

theorem run_passes (hp : p.Confined R) {r : Resources} (hr : m.core.resources = some r)
    (h : V (m.engine r) .lookup log record) {fuel : Nat} {out : Except CoreError CoreExit}
    (hrun : m.run p fuel = .ok (out, m')) :
    ∃ r' record', m'.core.resources = some r' ∧ V (m'.engine r') .lookup (m.runLog p fuel ++ log) record' := by
  obtain ⟨cache, code⟩ := r
  obtain ⟨⟨settings, resources, trap, stats⟩, cpu, mem, host⟩ := m
  obtain rfl : resources = some ⟨cache, code⟩ := hr
  unfold run at hrun
  unfold runLog
  cases trap with
  | true =>
      dsimp only at hrun ⊢
      generalize hout : onGuest (trapStep p) _ = done at hrun
      match done, hout, hrun with
      | .error abort, _, hrun => cases hrun
      | .ok (exit, m₁), hout, hrun =>
          cases hrun
          have hstart := hV.outside record h .refl cpu host { stats with interpreterSteps := stats.interpreterSteps + 1 } false
          obtain ⟨r', hr', hvisit⟩ := onGuest_passes hV (m := ⟨⟨settings, some ⟨cache, code⟩, false, _⟩, cpu, mem, host⟩) rfl hstart
            (fun g _ _ => trapStep_reaches hp g) hout
          exact ⟨r', record, hr', hvisit⟩
  | false =>
      dsimp only at hrun ⊢
      generalize hout : Engine.dispatch p fuel .lookup _ = done at hrun
      match done, hout, hrun with
      | .error abort, _, hrun => cases hrun
      | .ok (r₁, e₁), hout, hrun =>
          cases hrun
          obtain ⟨record', hvisit⟩ := hV.dispatch h hout
          exact ⟨_, record', rfl, hvisit⟩

/-- Whatever the caller does to a machine is done by steps of the dispatcher. -/
theorem Acts.passes (hp : p.Confined R) {new : List Compilation} (h : Acts R p m new m') (record : List MonitorId) {r : Resources}
    (hr : m.core.resources = some r) (hv : V (m.engine r) .lookup log record) :
    ∃ r' record', m'.core.resources = some r' ∧ V (m'.engine r') .lookup (new ++ log) record' := by
  cases h with
  | prepare hprepare => exact prepareBlock_passes hV hr hv hprepare
  | run hrun => exact run_passes hV hp hr hv hrun
  | caller cpu host => exact ⟨r, record, hr, hV.outside record hv .refl cpu host m.core.stats m.core.trap⟩
  | change hmem => exact ⟨r, record, hr, hV.outside record hv (.change .refl _ hmem) m.cpu m.host m.core.stats m.core.trap⟩
  | @execute _ fuel id _ hexecute =>
      obtain ⟨⟨settings, resources, trap, stats⟩, cpu, mem, host⟩ := m
      obtain rfl : resources = some r := hr
      unfold executeBlock at hexecute
      dsimp only at hexecute
      generalize hout : Engine.enter p fuel id _ = done at hexecute
      match done, hout, hexecute with
      | .error abort, _, hexecute => cases hexecute
      | .ok (r₁, e₁), hout, hexecute =>
          cases hexecute
          exact ⟨_, record, rfl, hV.execute record hv hout⟩
  | write linear w value =>
      obtain ⟨⟨settings, resources, trap, stats⟩, cpu, mem, host⟩ := m
      obtain rfl : resources = some r := hr
      exact ⟨_, record, rfl, hV.outside record hv (.write .refl linear w value) cpu host stats trap⟩
  | writeBytewise linear w value =>
      obtain ⟨⟨settings, resources, trap, stats⟩, cpu, mem, host⟩ := m
      obtain rfl : resources = some r := hr
      exact ⟨_, record, rfl, hV.outside record hv (.writeBytewise .refl linear w value) cpu host stats trap⟩

end Passing

theorem Acts.keeps (hI : Sustained R (fun _ => True) I) (hp : p.Confined R) {new : List Compilation} (h : Acts R p m new m')
    (hkept : Keeps I log m) : Keeps I (new ++ log) m' := by
  obtain ⟨r, hr, hkept⟩ := hkept
  obtain ⟨r', -, hr', hkept'⟩ := h.passes (passing_sustained hI hp) hp [] hr fun _ => ⟨hkept, trivial⟩
  exact ⟨r', hr', (hkept' fun _ _ => trivial).1⟩

/-- All states that a machine can reach are among those that the dispatcher passes through. -/
theorem History.visits (hp : p.Confined R) (h : History R p m log) :
    ∃ r record, m.core.resources = some r ∧ Visits R p (m.engine r) .lookup log record := by
  have hacts {m m' : Machine σ} {log new : List Compilation} (h : Acts R p m new m')
      (ih : ∃ r record, m.core.resources = some r ∧ Visits R p (m.engine r) .lookup log record) :
      ∃ r record, m'.core.resources = some r ∧ Visits R p (m'.engine r) .lookup (new ++ log) record := by
    obtain ⟨r, record, hr, hvisit⟩ := ih
    exact h.passes Visits.passing hp record hr hvisit
  induction h with
  | start hnew henable cpu hmem host =>
      obtain ⟨code, -, -, hr⟩ := enable_spec hnew henable
      exact ⟨_, [], hr, .start hnew henable hr cpu hmem host⟩
  | caller _ cpu host ih => exact hacts (.caller cpu host) ih
  | change _ hmem ih => exact hacts (.change hmem) ih
  | prepare _ hr ih => exact hacts (.prepare hr) ih
  | run _ hr ih => exact hacts (.run hr) ih
  | execute _ hr ih => exact hacts (.execute hr) ih
  | write _ linear w value ih => exact hacts (.write linear w value) ih
  | writeBytewise _ linear w value ih => exact hacts (.writeBytewise linear w value) ih

/-- Whatever was prepared, run, executed and stored, a condition that is kept up holds, as long as all compilations were good
ones. -/
theorem History.keeps (hI : Upkeep R good I) (hp : p.Confined R) (h : History R p m log) (hgood : ∀ k ∈ log, good k) :
    Keeps I log m := by
  obtain ⟨r, record, hr, hvisit⟩ := h.visits hp
  exact ⟨r, hr, (hvisit.keeps hI hp hgood).1⟩

end Machine

end Recompiler
