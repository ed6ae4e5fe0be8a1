import Recompiler.Proofs.Dispatch.CodeSize

/-! The places that a run comes to. They are the states between the steps of the dispatcher and, while blocks run, the entries
of blocks, both from the dispatcher and through links. A run that is done is at one of its places, and all places are
reached through states that the dispatcher passes through. -/

namespace Recompiler

open Cache Relation

variable {σ : Type} {p : Platform σ} {R : Regime} {log : List Compilation}

/-- A place in a run: between two steps of the dispatcher, or where a block is about to run. -/
inductive Stage (σ : Type) where
  | dispatch (phase : Phase) (e : Engine σ)
  /-- The host code and the pending trap stay as they are while blocks run. -/
  | block (a : Entry σ) (code : HostCode) (trap : Bool)

/-- A place is reached through states that the dispatcher passes through. -/
def Stage.Visited (R : Regime) (p : Platform σ) (log : List Compilation) : Stage σ → Prop
  | dispatch phase e => (∃ record, Engine.Visits R p e phase log record) ∧ e.Bounded
  | block a code trap => ∃ e id, (∃ record, Engine.Visits R p e (.enter id) log record) ∧ e.Bounded ∧
      ReflTransGen (Hop p log) (id, e.activation) a ∧ code = e.code ∧ trap = e.trap

namespace Engine

variable {e e' e₀ : Engine σ} {phase phase' : Phase} {log₀ : List Compilation} {n fuel : Nat} {stage : Stage σ}
  {record record₀ : List MonitorId}

/-- Number of overwritten instructions that a step of the dispatcher has interpreted. -/
def effort (e : Engine σ) : Phase → Nat
  | .create m => if e.heavy m then 1 else 0
  | _ => 0

/-- The places that dispatching comes to, from the state `e₀` and after the compilations `log₀`: each with the number of
blocks that were entered and of overwritten instructions that were interpreted on the way, and the compilations so far. -/
inductive Attains (p : Platform σ) (e₀ : Engine σ) (log₀ : List Compilation) : Nat → List Compilation → Stage σ → Prop where
  | start : Attains p e₀ log₀ 0 log₀ (.dispatch .lookup e₀)
  | step {n : Nat} {log : List Compilation} {phase phase' : Phase} {e e' : Engine σ} {fuel : Nat}
      (h : Attains p e₀ log₀ n log (.dispatch phase e)) (henter : ∀ id, phase ≠ .enter id) (hdone : ∀ exit, phase ≠ .done exit)
      (hr : e.step p fuel phase = .ok (.ok phase', e')) :
      Attains p e₀ log₀ (n + e.effort phase) (e.stepLog phase ++ log) (.dispatch phase' e')
  | enter {n : Nat} {log : List Compilation} {id : BlockId} {e : Engine σ} (h : Attains p e₀ log₀ n log (.dispatch (.enter id) e)) :
      Attains p e₀ log₀ (n + 1) log (.block (id, e.activation) e.code e.trap)
  | hop {n : Nat} {log : List Compilation} {a a' : Entry σ} {code : HostCode} {trap : Bool}
      (h : Attains p e₀ log₀ n log (.block a code trap)) (hhop : Hop p log a a') : Attains p e₀ log₀ (n + 1) log (.block a' code trap)
  | leave {n : Nat} {log : List Compilation} {a : Entry σ} {code : HostCode} {trap : Bool} {exit : ExitCode}
      {s : Activation (BlockEnv σ)} (h : Attains p e₀ log₀ n log (.block a code trap)) (hleaves : Leaves p log a exit s) :
      Attains p e₀ log₀ n log
        (.dispatch (.leave ⟨exit, s.runningBlock, s.callback⟩) ⟨⟨s.cpu, s.env.bus, s.env.host⟩, code, s.env.stats, trap⟩)

theorem Attains.chain {a a' : Entry σ} {code : HostCode} {trap : Bool} (h : Attains p e₀ log₀ n log (.block a code trap))
    (hchain : ReflTransGen (Hop p log) a a') : ∃ n, Attains p e₀ log₀ n log (.block a' code trap) := by
  induction hchain with
  | refl => exact ⟨n, h⟩
  | tail _ hhop ih =>
      obtain ⟨n, h'⟩ := ih
      exact ⟨n + 1, h'.hop hhop⟩

/-- Only the steps that enter a block take fuel. -/
theorem step_eq_step (henter : ∀ id, phase ≠ .enter id) (fuel fuel' : Nat) : e.step p fuel phase = e.step p fuel' phase := by
  cases phase with
  | enter id => exact absurd rfl (henter id)
  | _ => rfl

theorem Visits.bounded (hp : p.Confined R) (h : Visits R p e phase log record) (hb : e.Bounded) {r : Except CoreError Phase}
    (hr : e.step p fuel phase = .ok (r, e')) : e'.Bounded ∧ e'.cache.blocks.size = e.cache.blocks.size := by
  obtain ⟨hcode, hready⟩ := h.keeps (Programmed.upkeep R fun _ => True) hp fun _ _ => trivial
  obtain ⟨-, hblocks, haddresses⟩ :=
    (step_keeps (Extent.sustained R _ _) hp (keeps_extent hcode.sound) hready (fun _ _ => trivial) hr).1
  exact ⟨⟨hblocks.trans_lt hb.blocks, haddresses.trans_lt hb.addresses⟩, hblocks⟩

/-- A block that is entered and the chain that starts with it are one step of the dispatcher. -/
theorem exists_step_enter_iff (hp : p.Confined R) (hsize : p.KeepsSize) (hcode : Programmed log e.cache e.code) (hb : e.Bounded)
    {id : BlockId} (hid : e.cache.Runnable id) : (∃ fuel, e.step p fuel (.enter id) = .ok (.ok phase', e')) ↔
    ∃ a exit s, ReflTransGen (Hop p log) (id, e.activation) a ∧ Leaves p log a exit s ∧
      phase' = .leave ⟨exit, s.runningBlock, s.callback⟩ ∧ e' = ⟨⟨s.cpu, s.env.bus, s.env.host⟩, e.code, s.env.stats, e.trap⟩ := by
  have hstep : ∀ fuel, e.step p fuel (.enter id) = .ok (.ok phase', e') ↔
      ∃ way, e.enter p fuel id = .ok (.ok way, e') ∧ phase' = .leave way := by
    intro fuel
    unfold step
    dsimp only
    cases henter : e.enter p fuel id with
    | error abort => simp
    | ok out =>
        obtain ⟨r, e₁⟩ := out
        cases r with
        | error err => simp [Except.map]
        | ok way => simp [Except.map, and_comm, eq_comm]
  have hlast : ∀ {a exit s}, ReflTransGen (Hop p log) (id, e.activation) a → Leaves p log a exit s → s.runningBlock = some a.1 := by
    intro a exit s hchain hleaves
    have hunder := ((underway hcode.sound hid).chain hp hsize hcode hb.addresses hb.blocks hchain).1
    exact runningBlock_eq hp hsize hunder hb.blocks hleaves
  have hiff {way : BlockExit} : (∃ fuel, e.enter p fuel id = .ok (.ok way, e')) ↔ _ :=
    exists_enter_iff hp hsize hcode hb.addresses hb.blocks hid
  constructor
  · rintro ⟨fuel, hr⟩
    obtain ⟨way, henter, rfl⟩ := (hstep fuel).mp hr
    obtain ⟨a, exit, s, hchain, hleaves, hway, he⟩ := hiff.mp ⟨fuel, henter⟩
    obtain rfl := Except.ok.inj hway
    exact ⟨a, exit, s, hchain, hleaves, by rw [hlast hchain hleaves], he⟩
  · rintro ⟨a, exit, s, hchain, hleaves, rfl, he⟩
    obtain ⟨fuel, henter⟩ := hiff.mpr ⟨a, exit, s, hchain, hleaves, rfl, he⟩
    exact ⟨fuel, (hstep fuel).mpr ⟨_, henter, by rw [hlast hchain hleaves]⟩⟩

theorem Attains.visited (hp : p.Confined R) (hsize : p.KeepsSize) (h₀ : Visits R p e₀ .lookup log₀ record₀) (hb : e₀.Bounded)
    (h : Attains p e₀ log₀ n log stage) : stage.Visited R p log := by
  induction h with
  | start => exact ⟨⟨record₀, h₀⟩, hb⟩
  | step _ henter hdone hr ih =>
      obtain ⟨⟨record, hvisits⟩, hb⟩ := ih
      exact ⟨⟨_, hvisits.step hr⟩, (hvisits.bounded hp hb hr).1⟩
  | enter _ ih => exact ⟨_, _, ih.1, ih.2, .refl, rfl, rfl⟩
  | hop _ hhop ih =>
      obtain ⟨e, id, hvisits, hb, hchain, hcode, htrap⟩ := ih
      exact ⟨e, id, hvisits, hb, hchain.tail hhop, hcode, htrap⟩
  | @leave n log a code trap exit s _ hleaves ih =>
      obtain ⟨e, id, ⟨record, hvisits⟩, hb, hchain, rfl, rfl⟩ := ih
      have hcode := (hvisits.keeps (Programmed.upkeep R fun _ => True) hp fun _ _ => trivial).1
      obtain ⟨fuel, hr⟩ := (exists_step_enter_iff hp hsize hcode hb (hvisits.sized hp hsize hb).2.1).mpr
        ⟨a, exit, s, hchain, hleaves, rfl, rfl⟩
      exact ⟨⟨_, hvisits.step hr⟩, (hvisits.bounded hp hb hr).1⟩

/-- Where dispatching ends is one of its places. -/
theorem Attains.dispatch (hp : p.Confined R) (hsize : p.KeepsSize) (h₀ : Visits R p e₀ .lookup log₀ record₀) (hb : e₀.Bounded)
    (h : Attains p e₀ log₀ n log (.dispatch phase e)) {exit : CoreExit} (hr : e.dispatch p fuel phase = .ok (.ok exit, e')) :
    ∃ n', Attains p e₀ log₀ n' (dispatchLog p fuel phase e ++ log) (.dispatch (.done exit) e') := by
  induction fuel generalizing phase e log n with
  | zero => cases hr
  | succ fuel ih =>
      by_cases hdone : ∃ exit, phase = .done exit
      · obtain ⟨exit, rfl⟩ := hdone
        cases hr
        exact ⟨n, h⟩
      · have hnot : ∀ exit, phase ≠ .done exit := fun exit heq => hdone ⟨exit, heq⟩
        rw [dispatch_succ hnot] at hr
        rw [dispatchLog_succ hnot]
        cases hstep : e.step p (fuel + 1) phase with
        | error abort =>
            rw [hstep] at hr
            cases hr
        | ok out =>
            obtain ⟨r₁, e₁⟩ := out
            rw [hstep] at hr
            cases r₁ with
            | error err => cases hr
            | ok phase₁ =>
                dsimp only at hr ⊢
                rw [List.append_assoc]
                by_cases henter : ∃ id, phase = .enter id
                · obtain ⟨id, rfl⟩ := henter
                  obtain ⟨⟨record, hvisits⟩, hb⟩ := h.visited hp hsize h₀ hb
                  have hcode := (hvisits.keeps (Programmed.upkeep R fun _ => True) hp fun _ _ => trivial).1
                  obtain ⟨a, exit, s, hchain, hleaves, rfl, rfl⟩ :=
                    (exists_step_enter_iff hp hsize hcode hb (hvisits.sized hp hsize hb).2.1).mp ⟨_, hstep⟩
                  obtain ⟨n', hblock⟩ := h.enter.chain hchain
                  exact ih (hblock.leave hleaves) hr
                · exact ih (h.step (fun id heq => henter ⟨id, heq⟩) hnot hstep) hr

end Engine

namespace Machine

open Engine

variable {m m' : Machine σ} {fuel : Nat}

/-- The places that a run comes to while it dispatches, each with the number of blocks that were entered and of overwritten
instructions that were interpreted on the way, and the compilations so far. -/
def Attains (p : Platform σ) (m : Machine σ) (log₀ : List Compilation) (n : Nat) (log : List Compilation) (stage : Stage σ) : Prop :=
  ∃ r, m.core.resources = some r ∧ m.core.trap = false ∧ (m.engine r).Attains p log₀ n log stage

theorem run_eq_dispatch {r : Resources} (hr : m.core.resources = some r) (htrap : m.core.trap = false) (fuel : Nat) :
    m.run p fuel = ((m.engine r).dispatch p fuel .lookup).map fun (out, e) => (out, ofEngine m.core.settings e) := by
  obtain ⟨⟨settings, resources, trap, stats⟩, cpu, mem, host⟩ := m
  obtain rfl : resources = some r := hr
  obtain rfl : trap = false := htrap
  rfl

end Machine

end Recompiler
