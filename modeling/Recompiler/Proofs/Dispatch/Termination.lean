import Recompiler.Proofs.Dispatch.Aborts
import Recompiler.Proofs.Dispatch.Places

/-! Runs end. A block that leaves by itself without ending the run has charged for an instruction, and it is entered only with
cycles left. So every entry of a block, from the dispatcher or through a link, and every overwritten instruction that is
interpreted by itself use up the budget, but for the last one. A helper that makes a block leave early charges nothing, and
neither does a page fault at the instruction pointer; a run in which this does not happen ends. -/

namespace Recompiler

open Cache MicroOp Relation

variable {σ : Type} {p : Platform σ} {log : List Compilation} {s s' : Activation (BlockEnv σ)}

/-- What is left of the budget. -/
def Cpu.budget (c : Cpu) : Nat :=
  c.cycles.toInt.toNat

/-- Whether the run ends when a block leaves with this exit code. -/
def ExitCode.final : ExitCode → Bool
  | .normal | .link1 | .link2 | .iret => false
  | _ => true

/-! ### Blocks -/

/-- From actions and what leaves, a pass comes to an end. -/
theorem Lowering.Shaped.exists_performs {ε : Type} {ops : List MicroOp} (h : Lowering.Shaped ops) (helpers : Helpers ε)
    (s : Activation ε) : ∃ d, Performs helpers ops ops s d := by
  obtain ⟨as, last, hlast, rfl⟩ := h
  have hclosing : ∀ t : Activation ε, ∃ d, Performs helpers (as.map .act ++ last) last t d := by
    intro t
    rcases hlast with ⟨op, hop, rfl⟩ | ⟨cond, eip, eip', slot, slot', entry, entry', rfl⟩
    · cases op with
      | exit code => exact ⟨_, .exit⟩
      | link slot entry => exact ⟨_, .link⟩
      | _ => cases hop
    · cases hcond : cond.holds t.cpu.eflags with
      | true =>
          have hwhole : as.map MicroOp.act ++ [.jumpIf cond 0, .act (.setEip eip), .link slot entry, .bind 0,
              .act (.setEip eip'), .link slot' entry'] =
              (as.map MicroOp.act ++ [.jumpIf cond 0, .act (.setEip eip), .link slot entry]) ++
                .bind 0 :: [.act (.setEip eip'), .link slot' entry'] := by simp
          exact ⟨_, .jump hcond hwhole (.step rfl .link)⟩
      | false => exact ⟨_, .pass hcond (.step rfl .link)⟩
  have hacts : ∀ (bs : List Action) (t : Activation ε), ∃ d, Performs helpers (as.map .act ++ last) (bs.map .act ++ last) t d := by
    intro bs
    induction bs with
    | nil => exact hclosing
    | cons b bs ih =>
        intro t
        cases hact : b.perform helpers t with
        | error cause => exact ⟨_, .abort hact⟩
        | ok out =>
            obtain ⟨r, t'⟩ := out
            cases r with
            | some code => exact ⟨_, .leave hact⟩
            | none =>
                obtain ⟨d, hd⟩ := ih t'
                exact ⟨d, .step hact hd⟩
  exact hacts as s

namespace Compilation

variable (k : Compilation)

/-- A pass through the block comes to a helper that makes it leave for the dispatcher: it delivered a page fault or a divide
error, or an instruction that it had interpreted did not simply go on to the next one. -/
def Breaks (p : Platform σ) (s : Activation (BlockEnv σ)) : Prop :=
  ∃ a rest s₁ s₂, Comes (BlockEnv.helpers p) k.ops (k.ops, s) (.act a :: rest, s₁) ∧
    a.perform (BlockEnv.helpers p) s₁ = .ok (some .normal, s₂)

/-- Charges for the block's instructions do not wrap. -/
theorem charge_exact {n : UInt32} {rest : List MicroOp}
    (hcomes : Comes (BlockEnv.helpers p) k.ops (k.ops, s) (.act (.subCycles n) :: rest, s')) :
    (s'.cpu.cycles - n.toInt32).toInt = s'.cpu.cycles.toInt - n.toNat := by
  rcases k.comes_cases hcomes with ⟨heq, -⟩ | ⟨hcycles, ⟨hsame, hop | ⟨a, hfree, hop⟩⟩ | hdeparts⟩
  · cases heq
  · obtain rfl : n = k.completed.toUInt32 := by simpa using hop
    have hle := k.completed_le
    rw [toInt_sub_charge (hsame ▸ hcycles) hle, UInt32.toNat_ofNat', Nat.mod_eq_of_lt (by omega)]
  · cases hop
    cases hfree
  · cases hdeparts.free _ rfl

theorem Departs.budget {op : MicroOp} (h : k.Departs p s s' op) (hcycles : 0 < s.cpu.cycles) (hleaves : op.leaves = true)
    (hexit : ¬(op = .exit .opcode ∨ op = .exit .opcodeFull)) : s'.cpu.budget < s.cpu.budget := by
  have hpos : 0 < s.cpu.cycles.toInt := Int32.lt_iff_toInt_lt.mp hcycles
  have hcharged := h.pos k hleaves hexit
  have hleft := h.cycles
  unfold Cpu.budget
  omega

/-- A block that goes on to another one has charged for its instructions. -/
theorem budget_of_link {entry : UInt64} (hpass : Performs (BlockEnv.helpers p) k.ops k.ops s (.link entry s')) :
    s'.cpu.budget < s.cpu.budget := by
  obtain ⟨op, rest, s₁, hcomes, hends⟩ := performs_iff_comes.mp hpass
  cases hends
  rcases k.comes_cases hcomes with ⟨heq, -⟩ | ⟨hcycles, ⟨-, heq | ⟨a, -, heq⟩⟩ | hdeparts⟩
  · cases heq
  · cases heq
  · cases heq
  · exact hdeparts.budget k hcycles rfl (by simp)

/-- A block that leaves has charged for its instructions, unless the run ends or a helper made it leave. -/
theorem budget_of_exit {code : ExitCode} (hpass : Performs (BlockEnv.helpers p) k.ops k.ops s (.exit code s')) (hcalm : ¬k.Breaks p s) :
    code.final = true ∨ s'.cpu.budget < s.cpu.budget := by
  obtain ⟨op, rest, s₁, hcomes, hends⟩ := performs_iff_comes.mp hpass
  cases hends with
  | exit =>
      rcases k.comes_cases hcomes with ⟨heq, -⟩ | ⟨hcycles, ⟨-, heq | ⟨a, -, heq⟩⟩ | hdeparts⟩
      · cases heq
      · cases heq
      · cases heq
      · by_cases hexit : MicroOp.exit code = .exit .opcode ∨ MicroOp.exit code = .exit .opcodeFull
        · rcases hexit with heq | heq <;> cases heq <;> exact .inl rfl
        · exact .inr (hdeparts.budget k hcycles rfl hexit)
  | @leave a _ _ _ hact =>
      left
      have hfree : a.free = true → code.final = true := by
        intro hfree
        rcases (Action.perform_free hfree hact).2 code rfl with rfl | rfl
        · exact absurd ⟨a, rest, s₁, s', hcomes, hact⟩ hcalm
        · rfl
      rcases k.comes_cases hcomes with ⟨heq, -⟩ | ⟨-, ⟨-, heq | ⟨a, hfree', heq⟩⟩ | hdeparts⟩
      · cases heq
        unfold Action.perform at hact
        dsimp only at hact
        split at hact <;> cases hact
        rfl
      · cases heq
        cases hact
      · cases heq
        exact hfree hfree'
      · exact hfree (hdeparts.free a rfl)

end Compilation

/-- A hop uses up some of the budget. -/
theorem Hop.budget {a a' : Entry σ} (h : Hop p log a a') : a'.2.cpu.budget < a.2.cpu.budget := by
  obtain ⟨k, entry, -, hpass, -⟩ := h
  exact k.budget_of_link hpass

theorem Leaves.budget {a : Entry σ} {exit : ExitCode} (h : Leaves p log a exit s)
    (hcalm : ∀ k, log.find? (·.block = a.1) = some k → ¬k.Breaks p a.2) : exit.final = true ∨ s.cpu.budget < a.2.cpu.budget := by
  cases h with
  | @exit k _ _ hk hpass => exact k.budget_of_exit hpass (hcalm k hk)
  | @stub k _ _ _ hk hpass _ => exact .inr (k.budget_of_link hpass)

/-- Chains of blocks end: there is a last one, which leaves or stops without an answer. -/
theorem Underway.exists_last {R : Regime} {c : Cache} {b : Bool} {a : Entry σ} {code : HostCode} (h : Underway c b a)
    (hp : p.Confined R) (hsize : p.KeepsSize) (hcode : Programmed log c code) (haddr : code.base + code.arena.size < 2 ^ 64)
    (hblocks : c.blocks.size < 2 ^ 32) :
    ∃ a', ReflTransGen (Hop p log) a a' ∧ ((∃ exit s, Leaves p log a' exit s) ∨
      ∃ k cause, log.find? (·.block = a'.1) = some k ∧ Performs (BlockEnv.helpers p) k.ops k.ops a'.2 (.abort cause)) := by
  induction hn : a.2.cpu.budget using Nat.strong_induction_on generalizing a with
  | _ n ih =>
      subst hn
      obtain ⟨k, hk, hops, -⟩ := hcode.stands haddr h.runnable
      obtain ⟨d, hd⟩ := k.shaped_ops.exists_performs (BlockEnv.helpers p) a.2
      cases d with
      | exit exit s => exact ⟨a, .refl, .inl ⟨exit, s, .exit hk hd⟩⟩
      | abort cause => exact ⟨a, .refl, .inr ⟨k, cause, hk, hd⟩⟩
      | link entry s =>
          obtain ⟨hbig, hebbs, -⟩ := h.pass hp hsize hk hd
          obtain ⟨slot, hslot⟩ := h.linkTarget hp hsize hblocks hk hd
          cases hnext : (s.env.bus.watch.linkSlot a.1 slot).target with
          | none =>
              rw [hnext] at hslot
              exact ⟨a, .refl, .inl ⟨_, s, .stub hk hd hslot⟩⟩
          | some y =>
              rw [hnext] at hslot
              have hy := (hebbs.sound.layout.linked.ends _ _ _ hnext).2
              have hhop : Hop p log a (y, s) := ⟨k, entry, hk, hd, hy, hslot⟩
              obtain ⟨a', hchain, hlast⟩ := ih _ hhop.budget (a := (y, s)) ⟨hebbs.runnable hy.1 hy.2, hbig, hebbs⟩ rfl
              exact ⟨a', .head hhop hchain, hlast⟩

/-! ### The places of a run -/

namespace Engine

/-- The page of the instruction pointer is not there. -/
def Faults (e : Engine σ) : Prop :=
  ∃ fault mem c, e.cache.codePage e.guest.bus.mem e.guest.cpu.ipLinear e.guest.cpu.codeBig none = .ok (.error fault, mem, c)

end Engine

/-- From here the run goes on without charging: the dispatcher delivers a page fault, or a helper makes the block leave. -/
def Stage.Disturbed (p : Platform σ) (log : List Compilation) : Stage σ → Prop
  | dispatch phase e => phase = .lookup ∧ e.Faults
  | block a _ _ => ∃ k, log.find? (·.block = a.1) = some k ∧ k.Breaks p a.2

namespace Engine

variable {e e' e₀ : Engine σ} {phase phase' : Phase} {log₀ : List Compilation} {n fuel : Nat} {stage : Stage σ}

/-- A bound on the blocks that the dispatcher may yet enter and the overwritten instructions that it may yet have
interpreted. -/
def potential (e : Engine σ) : Phase → Nat
  | .done _ => 0
  | .leave way => if way.code.final then 0 else e.guest.cpu.budget + 1
  | _ => e.guest.cpu.budget + 1

end Engine

def Stage.potential : Stage σ → Nat
  | dispatch phase e => e.potential phase
  | block a _ _ => a.2.cpu.budget

/-- How many steps the dispatcher takes at most until it enters a block or is done, or has an instruction interpreted. -/
def Phase.rank : Phase → Nat
  | .leave _ => 3
  | .lookup => 2
  | .create _ => 1
  | .enter _ | .done _ => 0

namespace Engine

variable {e e' e₀ : Engine σ} {phase phase' : Phase} {log₀ : List Compilation} {n fuel : Nat} {stage : Stage σ}

/-- The potential pays for a step of the dispatcher; where it stays, the rank goes down. Only entering a block makes one
leave. -/
structure Descends (e : Engine σ) (phase : Phase) (e' : Engine σ) (phase' : Phase) : Prop where
  pays : e.effort phase + e'.potential phase' ≤ e.potential phase
  sinks : 4 * e'.potential phase' + phase'.rank < 4 * e.potential phase + phase.rank
  not_leave : ∀ exit, phase' ≠ .leave exit

theorem Descends.done (hphase : ∀ id, phase ≠ .enter id) (hdone : ∀ exit, phase ≠ .done exit) (exit : CoreExit) :
    Descends e phase e' (.done exit) := by
  cases phase with
  | lookup => constructor <;> simp [effort, potential, Phase.rank]
  | create m =>
      refine ⟨?_, by simp [potential, Phase.rank], by simp⟩
      simp only [effort, potential]
      split <;> omega
  | enter id => exact absurd rfl (hphase id)
  | leave exit => constructor <;> simp [effort, Phase.rank, potential]
  | done exit => exact absurd rfl (hdone exit)

/-- A block left without ending the run, and the dispatcher goes on. -/
theorem Descends.goOn {exit : BlockExit} (hfinal : exit.code.final = false) (hcpu : e'.guest.cpu = e.guest.cpu)
    (hphase : phase' = .lookup ∨ ∃ id, phase' = .enter id) : Descends e (.leave exit) e' phase' := by
  have hbefore : e.potential (.leave exit) = e.guest.cpu.budget + 1 := by simp [potential, hfinal]
  rcases hphase with rfl | ⟨id, rfl⟩
  all_goals
    refine ⟨?_, ?_, by simp⟩ <;> rw [hbefore] <;> simp [effort, potential, Phase.rank, hcpu]

/-- An instruction that counts as data is interpreted, and pays for itself unless it ends the run. -/
theorem Descends.spent {m : MonitorId} (hheavy : e.heavy m = true) {left : Int32} (hleft : Cycles.spend e.guest.cpu.cycles = .ok left)
    (hcycles : e'.guest.cpu.cycles = left) : Descends e (.create m) e' (if left ≤ 0 then .done .resume else .lookup) := by
  split
  · exact .done (by simp) (by simp) _
  · rename_i hpos
    have hspent : left.toInt = e.guest.cpu.cycles.toInt - 1 := by
      unfold Cycles.spend at hleft
      split at hleft
      · cases hleft
      · rename_i hmin
        cases hleft
        have hlow : Int32.minValue.toInt < e.guest.cpu.cycles.toInt :=
          lt_of_le_of_ne (Int32.minValue_le_toInt _) fun heq => hmin (Int32.toInt_inj.mp heq.symm)
        rw [Int32.toInt_sub]
        exact Int.bmod_eq_of_le (by simp at hlow ⊢; omega) (by have := e.guest.cpu.cycles.toInt_lt; simp; omega)
    have hpos' : 0 < left.toInt := Int32.lt_iff_toInt_lt.mp (Int32.not_le.mp hpos)
    refine ⟨?_, ?_, by simp⟩ <;> simp only [effort, potential, Phase.rank, Cpu.budget, if_pos hheavy, hcycles] <;> omega

theorem descends_step (henter : ∀ id, phase ≠ .enter id) (hdone : ∀ exit, phase ≠ .done exit) (hcalm : phase = .lookup → ¬e.Faults)
    (hr : e.step p fuel phase = .ok (.ok phase', e')) : Descends e phase e' phase' := by
  generalize hout : (.ok phase' : Except CoreError Phase) = r at hr
  cases steps_of_step hr with
  | fault hpage => exact absurd ⟨_, _, _, hpage⟩ (hcalm rfl)
  | found | missing =>
      cases hout
      constructor <;> simp [effort, potential, Phase.rank]
  | spent hheavy _ hleft =>
      cases hout
      exact .spent hheavy hleft rfl
  | @compiled _ r _ _ _ hlight _ =>
      cases r <;> cases hout
      constructor <;> simp [effort, potential, Phase.rank, hlight]
  | @entered _ id => exact absurd rfl (henter id)
  | @done exit => exact absurd rfl (hdone exit)
  | @apart _ slot hcode =>
      cases hout
      exact .goOn (by rw [hcode]; cases slot <;> rfl) rfl (.inl rfl)
  | @linked _ slot _ target hcode =>
      cases hout
      exact .goOn (by rw [hcode]; cases slot <;> rfl) rfl (.inr ⟨target, rfl⟩)
  | normal hcode =>
      cases hout
      exact .goOn (by rw [hcode]; rfl) rfl (.inl rfl)
  | iret hcode hphase =>
      cases hout
      rcases hphase with rfl | rfl
      · exact .goOn (by rw [hcode]; rfl) rfl (.inl rfl)
      · exact .done henter hdone _
  | _ =>
      cases hout
      exact .done henter hdone _

/-- The entry of a block pays for itself when the block leaves. -/
theorem potential_leave {a : Entry σ} {exit : ExitCode} {s : Activation (BlockEnv σ)} (hleaves : Leaves p log a exit s)
    (hcalm : ∀ k, log.find? (·.block = a.1) = some k → ¬k.Breaks p a.2) (running : Option BlockId) (callback : UInt32) (code : HostCode)
    (trap : Bool) :
    potential ⟨⟨s.cpu, s.env.bus, s.env.host⟩, code, s.env.stats, trap⟩ (.leave ⟨exit, running, callback⟩) ≤ a.2.cpu.budget := by
  unfold potential
  dsimp only
  split
  · exact Nat.zero_le _
  · rename_i hfinal
    exact (hleaves.budget hcalm).resolve_left hfinal

/-- Along an undisturbed run, the potential pays for the blocks that are entered and the overwritten instructions that are
interpreted. -/
theorem Attains.add_potential_le (h : Attains p e₀ log₀ n log stage)
    (hcalm : ∀ n log stage, Attains p e₀ log₀ n log stage → ¬stage.Disturbed p log) :
    n + stage.potential ≤ e₀.guest.cpu.budget + 1 := by
  induction h with
  | start => exact (Nat.zero_add _).le
  | @step n log phase phase' e e' fuel h henter hdone hr ih =>
      have hdescends := descends_step henter hdone (fun hphase hfaults => hcalm _ _ _ h ⟨hphase, hfaults⟩) hr
      have hpays := hdescends.pays
      unfold Stage.potential at ih ⊢
      dsimp only at ih ⊢
      omega
  | enter _ ih =>
      unfold Stage.potential at ih ⊢
      dsimp only [potential, activation] at ih ⊢
      omega
  | hop _ hhop ih =>
      have hless := hhop.budget
      unfold Stage.potential at ih ⊢
      dsimp only at ih ⊢
      omega
  | @leave n log a code trap exit s h hleaves ih =>
      have hless := potential_leave hleaves (fun k hk hbreaks => hcalm _ _ _ h ⟨k, hk, hbreaks⟩) s.runningBlock s.callback code trap
      unfold Stage.potential at ih ⊢
      dsimp only at ih ⊢
      omega

/-! ### Dispatching ends -/

/-- With enough fuel dispatching comes to an end that does not depend on the fuel. Unless the guest stops it, that is an
answer. -/
def Settles (p : Platform σ) (phase : Phase) (e : Engine σ) : Prop :=
  ∃ fuel₀ out, (∀ fuel, fuel₀ ≤ fuel → e.dispatch p fuel phase = out) ∧ ∀ cause, out = .error cause → cause.FromGuest

namespace Settles

theorem done (exit : CoreExit) : Settles p (.done exit) e := by
  refine ⟨1, .ok (.ok exit, e), fun fuel hfuel => ?_, by simp⟩
  obtain ⟨fuel, rfl⟩ := Nat.exists_eq_add_of_le' hfuel
  rfl

theorem abort (fuel₁ : Nat) (hdone : ∀ exit, phase ≠ .done exit) {cause : Abort}
    (hstep : ∀ fuel, fuel₁ ≤ fuel → e.step p fuel phase = .error cause) (hcause : cause.FromGuest) : Settles p phase e := by
  refine ⟨fuel₁ + 1, .error cause, fun fuel hfuel => ?_, fun cause' hout => ?_⟩
  · obtain ⟨fuel, rfl⟩ := Nat.exists_eq_add_of_le' (show 1 ≤ fuel by omega)
    rw [dispatch_succ hdone, hstep _ (by omega)]
  · cases hout
    exact hcause

theorem fail (hdone : ∀ exit, phase ≠ .done exit) {err : CoreError} (hstep : ∀ fuel, e.step p fuel phase = .ok (.error err, e')) :
    Settles p phase e := by
  refine ⟨1, .ok (.error err, e'), fun fuel hfuel => ?_, by simp⟩
  obtain ⟨fuel, rfl⟩ := Nat.exists_eq_add_of_le' hfuel
  rw [dispatch_succ hdone, hstep]

theorem step (fuel₁ : Nat) (hdone : ∀ exit, phase ≠ .done exit)
    (hstep : ∀ fuel, fuel₁ ≤ fuel → e.step p fuel phase = .ok (.ok phase', e')) (h : Settles p phase' e') :
    Settles p phase e := by
  obtain ⟨fuel₀, out, hdispatch, hout⟩ := h
  refine ⟨max fuel₀ fuel₁ + 1, out, fun fuel hfuel => ?_, hout⟩
  obtain ⟨fuel, rfl⟩ := Nat.exists_eq_add_of_le' (show 1 ≤ fuel by omega)
  rw [dispatch_succ hdone, hstep _ (by omega)]
  exact hdispatch fuel (by omega)

end Settles

/-- A block that is entered leaves in the end, or stops at an instruction that cannot be interpreted. -/
theorem enter_settles {R : Regime} (hp : p.Confined R) (hsize : p.KeepsSize) (hst : p.Steadfast) (hcode : Programmed log e.cache e.code)
    (hb : e.Bounded) {id : BlockId} (hid : e.cache.Runnable id) :
    (∃ a exit s fuel₀, ReflTransGen (Hop p log) (id, e.activation) a ∧ Leaves p log a exit s ∧ s.runningBlock = some a.1 ∧
        a.1 < e.cache.blocks.size ∧ ∀ fuel, fuel₀ ≤ fuel → e.step p fuel (.enter id) =
          .ok (.ok (.leave ⟨exit, some a.1, s.callback⟩), ⟨⟨s.cpu, s.env.bus, s.env.host⟩, e.code, s.env.stats, e.trap⟩)) ∨
      ∃ cause fuel₀, cause.FromGuest ∧ ∀ fuel, fuel₀ ≤ fuel → e.step p fuel (.enter id) = .error cause := by
  have hunder := underway hcode.sound hid
  obtain ⟨a, hchain, hlast⟩ := hunder.exists_last hp hsize hcode hb.addresses hb.blocks
  obtain ⟨hunder', -⟩ := hunder.chain hp hsize hcode hb.addresses hb.blocks hchain
  rcases hlast with ⟨exit, s, hleaves⟩ | ⟨k, cause, hk, hpass⟩
  · left
    have hrunning := runningBlock_eq hp hsize hunder' hb.blocks hleaves
    obtain ⟨fuel₀, hrun⟩ := hunder.exists_run hp hsize hcode hb.addresses hb.blocks hchain hleaves
    refine ⟨a, exit, s, fuel₀, hchain, hleaves, hrunning, hunder'.runnable.lt, fun fuel hfuel => ?_⟩
    have henter : e.enter p fuel id = .ok (.ok ⟨exit, some a.1, s.callback⟩, _) :=
      enter_eq_ok.mpr ⟨_, s, HostCode.run_mono hrun hfuel, by rw [hrunning, ExitCode.decode, ExitCode.ofRaw?_raw]; rfl, rfl⟩
    rw [step, henter]
    rfl
  · right
    have hcause := hunder'.fromGuest_abort hp hsize hst hb.blocks hk hpass
    have hne : (.error cause : Except Abort (UInt32 × Activation (BlockEnv σ))) ≠ .error .outOfFuel := by
      simpa using hcause.ne_outOfFuel
    obtain ⟨k', hk', hops, hstands⟩ := hcode.stands hb.addresses hunder'.runnable
    obtain rfl := Option.some.inj (hk.symm.trans hk')
    obtain ⟨fuel₀, hrun⟩ := hunder.exists_run_of_chain hp hsize hcode hb.addresses hb.blocks hchain
      (hstands.exists_run hops hpass rfl)
    refine ⟨cause, fuel₀, hcause, fun fuel hfuel => ?_⟩
    have hfail := HostCode.run_stable hrun hne hfuel
    obtain ⟨⟨cpu, bus, host⟩, code, stats, trap⟩ := e
    unfold activation Engine.cache at hfail
    unfold step enter execute
    simp only [hfail]

/-- Undisturbed dispatching ends. The induction is on the potential and, as long as that stays, the rank of what is due. -/
theorem settles {R : Regime} (hp : p.Confined R) (hsize : p.KeepsSize) (hst : p.Steadfast)
    (hcalm : ∀ n log stage, Attains p e₀ log₀ n log stage → ¬stage.Disturbed p log) {record₀ : List MonitorId}
    (h₀ : Visits R p e₀ .lookup log₀ record₀) (hb₀ : e₀.Bounded) (hplace : Attains p e₀ log₀ n log (.dispatch phase e))
    (hrunning : ∀ exit id, phase = .leave exit → exit.running = some id → id < e.cache.blocks.size) : Settles p phase e := by
  induction hμ : 4 * e.potential phase + phase.rank using Nat.strong_induction_on generalizing phase e n log with
  | _ μ ih =>
      subst hμ
      obtain ⟨⟨record, h⟩, hb⟩ := hplace.visited hp hsize h₀ hb₀
      by_cases hdone : ∃ exit, phase = .done exit
      · obtain ⟨exit, rfl⟩ := hdone
        exact .done exit
      have hnot : ∀ exit, phase ≠ .done exit := fun exit heq => hdone ⟨exit, heq⟩
      by_cases henter : ∃ id, phase = .enter id
      · obtain ⟨id, rfl⟩ := henter
        have hcode := (h.keeps (Programmed.upkeep R fun _ => True) hp fun _ _ => trivial).1
        have hid := (h.sized hp hsize hb).2.1
        rcases enter_settles hp hsize hst hcode hb hid with ⟨a, exit, s, fuel₀, hchain, hleaves, hlast, hlt, hstep⟩ |
          ⟨cause, fuel₀, hcause, hstep⟩
        · obtain ⟨n', hblock⟩ := hplace.enter.chain hchain
          have hleft := hblock.leave hleaves
          rw [hlast] at hleft
          refine .step fuel₀ hnot hstep (ih _ ?_ hleft ?_ rfl)
          · -- Chains of hops only use up the budget.
            have hless := potential_leave hleaves (fun k hk hbreaks => hcalm _ _ _ hblock ⟨k, hk, hbreaks⟩) (some a.1) s.callback
              e.code e.trap
            have hbudget : a.2.cpu.budget ≤ e.guest.cpu.budget := by
              clear hblock hleft hlast hlt hstep hleaves hless
              induction hchain with
              | refl => exact le_rfl
              | tail _ hhop ih => exact hhop.budget.le.trans ih
            have hbefore : e.potential (.enter id) = e.guest.cpu.budget + 1 := rfl
            have hrank : (Phase.enter id).rank = 0 ∧ (Phase.leave ⟨exit, some a.1, s.callback⟩).rank = 3 := ⟨rfl, rfl⟩
            rw [hrank.1, hrank.2, hbefore]
            omega
          · intro exit' id' hexit hid'
            cases hexit
            cases hid'
            exact (h.bounded hp hb (hstep _ le_rfl)).2.symm ▸ hlt
        · exact .abort fuel₀ hnot hstep hcause
      · have hnotEnter : ∀ id, phase ≠ .enter id := fun id heq => henter ⟨id, heq⟩
        have hfuel : ∀ fuel, e.step p fuel phase = e.step p 0 phase := fun fuel => step_eq_step hnotEnter fuel 0
        cases hstep : e.step p 0 phase with
        | error cause =>
            exact .abort 0 hnot (fun fuel _ => (hfuel fuel).trans hstep) (fromGuest_step hp hst h hnotEnter hrunning hstep)
        | ok out =>
            obtain ⟨r, e'⟩ := out
            cases r with
            | error err => exact .fail hnot fun fuel => (hfuel fuel).trans hstep
            | ok phase' =>
                have hdescends := descends_step hnotEnter hnot (fun hphase hfaults => hcalm _ _ _ hplace ⟨hphase, hfaults⟩) hstep
                refine .step 0 hnot (fun fuel _ => (hfuel fuel).trans hstep)
                  (ih _ hdescends.sinks (hplace.step hnotEnter hnot hstep) ?_ rfl)
                intro exit id hexit
                exact absurd hexit (hdescends.not_leave exit)

end Engine

/-- What a block charges at this place is what it takes from the cycles. -/
def Stage.ChargesExactly (p : Platform σ) (log : List Compilation) : Stage σ → Prop
  | dispatch _ _ => True
  | block a _ _ => ∀ k, log.find? (·.block = a.1) = some k → ∀ n rest s,
      Comes (BlockEnv.helpers p) k.ops (k.ops, a.2) (.act (.subCycles n) :: rest, s) →
        (s.cpu.cycles - n.toInt32).toInt = s.cpu.cycles.toInt - n.toNat

theorem Stage.chargesExactly (stage : Stage σ) : stage.ChargesExactly p log := by
  cases stage with
  | dispatch phase e => trivial
  | block a code trap => exact fun k _ n rest s hcomes => k.charge_exact hcomes

namespace Machine

open Engine

variable {m : Machine σ} {fuel : Nat} {cause : Abort}

theorem fromGuest_trapStep (hst : p.Steadfast) {κ : Type} [Watcher κ] {g : Guest κ σ} (hr : trapStep p g = .error cause) :
    cause.FromGuest := by
  obtain ⟨cpu, bus, host⟩ := g
  unfold trapStep at hr
  dsimp only at hr
  split at hr
  · rename_i hrun
    cases hr
    exact hst.runNormal _ hrun
  · cases hleft : Cycles.spend cpu.cycles <;> rw [hleft] at hr <;> cases hr
    exact Cycles.fromGuest_spend hleft

theorem fromGuest_onGuest {α : Type} {f : {κ : Type} → [Watcher κ] → Guest κ σ → Except Abort (α × Guest κ σ)}
    (hf : ∀ {κ : Type} [Watcher κ] {g : Guest κ σ} {cause : Abort}, f g = .error cause → cause.FromGuest)
    (hr : m.onGuest f = .error cause) : cause.FromGuest := by
  unfold onGuest at hr
  split at hr <;> split at hr
  · rename_i hrun
    cases hr
    exact hf hrun
  · cases hr
  · rename_i hrun
    cases hr
    exact hf hrun
  · cases hr

/-- A run that does not dispatch takes no fuel, and only the guest stops it. -/
theorem run_idle (hst : p.Steadfast) (hidle : m.core.trap = true ∨ m.core.resources = none) :
    ∃ out, (∀ fuel, m.run p fuel = out) ∧ ∀ cause, out = .error cause → cause.FromGuest := by
  have hmap {α β : Type} {f : α → β} {r : Except Abort α} {cause : Abort} (hr : r.map f = .error cause) : r = .error cause := by
    cases r <;> cases hr
    rfl
  obtain ⟨⟨settings, resources, trap, stats⟩, cpu, mem, host⟩ := m
  cases trap with
  | true => exact ⟨_, fun _ => rfl, fun cause hr => fromGuest_onGuest (fun h => fromGuest_trapStep hst h) (hmap hr)⟩
  | false =>
      obtain rfl : resources = none := hidle.resolve_left (by simp)
      exact ⟨_, fun _ => rfl, fun cause hr => fromGuest_onGuest (fun h => hst.runNormal _ h) (hmap hr)⟩

/-- A run from any state that can be reached, in which neither the dispatcher delivers a page fault nor a helper makes a block
leave for the dispatcher, ends: with enough fuel it always ends in the same way, and if not with an answer, then because an
instruction cannot be interpreted or a count of cycles overflows. Wherever it comes to before, the blocks that were entered,
by the dispatcher or through links, and the overwritten instructions that were interpreted by themselves are at most one more
than the cycles it began with, and no charge of a block wraps. Where it ends is one of these places. -/
theorem run_ends_within_budget {m : Machine Interpreter} {log : List Compilation}
    (h : m.core.resources = none ∨ History .free Interpreter.platform m log)
    (hb : ∀ r, m.core.resources = some r → (m.engine r).Bounded)
    (hcalm : ∀ n log' stage, m.Attains Interpreter.platform log n log' stage → ¬stage.Disturbed Interpreter.platform log') :
    (∃ fuel₀ out, (∀ fuel, fuel₀ ≤ fuel → m.run Interpreter.platform fuel = out) ∧
      (∀ cause, out = .error cause → cause = .uninterpretable ∨ cause = .overflow) ∧
      ∀ exit m', m.core.enabled = true → m.core.trap = false → out = .ok (.ok exit, m') →
        ∃ n log' e, m.Attains Interpreter.platform log n log' (.dispatch (.done exit) e) ∧ m' = ofEngine m.core.settings e) ∧
    ∀ n log' stage, m.Attains Interpreter.platform log n log' stage →
      n ≤ m.cpu.cycles.toInt.toNat + 1 ∧ stage.ChargesExactly Interpreter.platform log' := by
  have hconfined := Interpreter.platform_confined .free
  refine ⟨?_, ?_⟩
  · by_cases hidle : m.core.trap = true ∨ m.core.resources = none
    · obtain ⟨out, hrun, hcause⟩ := run_idle Interpreter.platform_steadfast hidle
      refine ⟨0, out, fun fuel _ => hrun fuel, hcause, fun exit m' henabled htrap => ?_⟩
      rcases hidle with htrue | hnone
      · rw [htrap] at htrue
        cases htrue
      · rw [Core.enabled, hnone] at henabled
        cases henabled
    · obtain ⟨htrap, hsome⟩ : m.core.trap = false ∧ m.core.resources ≠ none := by simpa using hidle
      obtain ⟨r, record, hr, hvisit⟩ := (h.resolve_left hsome).visits hconfined
      have hcalm' : ∀ n log' stage, (m.engine r).Attains Interpreter.platform log n log' stage →
          ¬stage.Disturbed Interpreter.platform log' := fun n log' stage hplace => hcalm n log' stage ⟨r, hr, htrap, hplace⟩
      obtain ⟨fuel₀, out, hdispatch, hcause⟩ := settles hconfined Interpreter.platform_keepsSize Interpreter.platform_steadfast
        hcalm' hvisit (hb r hr) .start (by simp)
      refine ⟨fuel₀, _, fun fuel hfuel => by rw [run_eq_dispatch hr htrap, hdispatch fuel hfuel], fun cause hout => ?_,
        fun exit m' _ _ hout => ?_⟩
      · cases out with
        | error cause' =>
            cases hout
            exact hcause _ rfl
        | ok result => cases hout
      · cases out with
        | error cause' => cases hout
        | ok result =>
            obtain ⟨out, e⟩ := result
            cases hout
            obtain ⟨n, hdone⟩ := Engine.Attains.dispatch hconfined Interpreter.platform_keepsSize hvisit (hb r hr) .start
              (hdispatch fuel₀ le_rfl)
            exact ⟨n, _, e, ⟨r, hr, htrap, hdone⟩, rfl⟩
  · rintro n log' stage ⟨r, hr, htrap, hplace⟩
    have hpays := hplace.add_potential_le fun n log' stage hplace => hcalm n log' stage ⟨r, hr, htrap, hplace⟩
    exact ⟨(Nat.le_add_right n _).trans hpays, stage.chargesExactly⟩

/-! ### A jump to itself -/

/-- With cycles left the block for the jump goes to its link slot, and else it is left at once. -/
theorem performs_loopBlock_cases {s : Activation (BlockEnv Interpreter)} {d : Departure (BlockEnv Interpreter)}
    (hd : Performs (BlockEnv.helpers Interpreter.platform) loopBlock.ops loopBlock.ops s d) :
    d = .exit .cycles { s with running := 0 } ∨
      d = .link (HostCode.linkEntryAddr 0 .first).toUInt64
        { s with cpu := { s.cpu with cycles := s.cpu.cycles - 1, eip := 0 }, running := 0 } := by
  have hops : loopBlock.ops = jumpOps 0 := by decide +kernel
  rw [hops] at hd
  cases hd with
  | leave hact =>
      unfold Action.perform at hact
      dsimp only at hact
      split at hact <;> cases hact
      exact .inl rfl
  | abort hact => cases hact
  | step hact hrest =>
      unfold Action.perform at hact
      dsimp only at hact
      split at hact <;> cases hact
      cases hrest with
      | leave hact => cases hact
      | abort hact => cases hact
      | step hact hrest =>
          cases hact
          cases hrest with
          | leave hact => cases hact
          | abort hact => cases hact
          | step hact hrest =>
              cases hact
              cases hrest
              exact .inr rfl

/-- No action of the block calls a helper. -/
theorem not_breaks_loopBlock (s : Activation (BlockEnv Interpreter)) : ¬loopBlock.Breaks Interpreter.platform s := by
  rintro ⟨a, rest, s₁, s₂, hcomes, hact⟩
  have hd := performs_iff_comes.mpr ⟨_, _, _, hcomes, .leave hact⟩
  rcases performs_loopBlock_cases hd with heq | heq <;> cases heq

/-- The cache with the block for the jump, linked to itself or not. -/
def loopCache (c : Cache) : (linked : Bool) → Cache
  | true => c.link 0 .first 0
  | false => c

/-- The places of a run of the jump, for which `c`, `code` and `mem` are what its compilation makes. -/
inductive LoopPlace (c : Cache) (code : HostCode) (mem : Memory) : List Compilation → Stage Interpreter → Prop where
  | search : LoopPlace c code mem [] (.dispatch .lookup (loopEngine scantCache scantCode (onePage 0 [0xEB, 0xFE]) loopBlock.cpu {}))
  | create : LoopPlace c code mem [] (.dispatch (.create 0)
      (loopEngine loopBlock.cache loopBlock.code loopBlock.mem loopBlock.cpu { lookups := 1 }))
  | enter (linked : Bool) (cycles : Int32) (stats : Stats) : LoopPlace c code mem [loopBlock]
      (.dispatch (.enter 0) (loopEngine (loopCache c linked) code mem { loopBlock.cpu with cycles } stats))
  | run (linked : Bool) (cycles : Int32) (stats : Stats) (running : UInt32) : LoopPlace c code mem [loopBlock]
      (.block (0, { cpu := { loopBlock.cpu with cycles }, env := ⟨⟨mem, loopCache c linked⟩, {}, stats⟩, running }) code false)
  | follow (cycles : Int32) (stats : Stats) : LoopPlace c code mem [loopBlock]
      (.dispatch (.leave ⟨.link1, some 0, 0⟩) (loopEngine c code mem { loopBlock.cpu with cycles } stats))
  | stop (e : Engine Interpreter) : LoopPlace c code mem [loopBlock] (.dispatch (.leave ⟨.cycles, some 0, 0⟩) e)
  | done (e : Engine Interpreter) : LoopPlace c code mem [loopBlock] (.dispatch (.done .resume) e)

/-- What is known of the block for the jump. -/
structure LoopCompiled (c : Cache) (code : HostCode) (mem : Memory) : Prop extends HasLoop c mem where
  result : loopBlock.result = .ok (.ok 0, mem, c, code)
  free : (c.linkSlot 0 .first).target = none
  programmed : ∀ linked, Programmed [loopBlock] (loopCache c linked) code
  runnable : ∀ linked, (loopCache c linked).Runnable 0
  blocks : c.blocks.size < 2 ^ 32
  addresses : code.base + code.arena.size < 2 ^ 64

namespace LoopCompiled

variable {c : Cache} {code : HostCode} {mem : Memory} {log : List Compilation} {stage : Stage Interpreter}

theorem size_loopCache (c : Cache) (linked : Bool) : (loopCache c linked).blocks.size = c.blocks.size := by
  cases linked with
  | false => rfl
  | true => exact (Narrows.link c 0 .first 0).size

theorem target (h : LoopCompiled c code mem) (linked : Bool) :
    ((loopCache c linked).linkSlot 0 .first).target = if linked then some 0 else none := by
  cases linked with
  | false => exact h.free
  | true =>
      have hlt : 0 < c.blocks.size := (h.runnable false).lt
      change ((c.link 0 .first 0).linkSlot 0 .first).target = some 0
      rw [linkSlot_link hlt hlt]
      rfl

theorem linkTarget (h : LoopCompiled c code mem) (linked : Bool) (stats : Stats) :
    BlockEnv.linkTarget (HostCode.linkEntryAddr 0 .first).toUInt64.toNat (⟨⟨mem, loopCache c linked⟩, {}, stats⟩ : BlockEnv Interpreter) =
      .ok ((loopCache c linked).slotAddr .first (if linked then some 0 else none)) := by
  have hblocks : (loopCache c linked).blocks.size < 2 ^ 32 := by
    rw [size_loopCache]
    exact h.blocks
  rw [← h.target linked]
  exact BlockEnv.linkTarget_eq (h.programmed linked).sound (h.runnable linked).lt hblocks .first

/-- The block goes on to itself once it is linked. -/
theorem hop (h : LoopCompiled c code mem) {linked : Bool} {cycles : Int32} {stats : Stats} {running : UInt32} {a : Entry Interpreter}
    (hhop : Hop Interpreter.platform [loopBlock]
      (0, { cpu := { loopBlock.cpu with cycles }, env := ⟨⟨mem, loopCache c linked⟩, {}, stats⟩, running }) a) :
    LoopPlace c code mem [loopBlock] (.block a code false) := by
  obtain ⟨k, entry, hk, hd, hrunnable, htarget⟩ := hhop
  obtain rfl := Option.some.inj (hk.symm.trans find?_loopBlock)
  obtain ⟨id, s⟩ := a
  rcases performs_loopBlock_cases hd with heq | heq <;> cases heq
  have hsame := Except.ok.inj ((h.linkTarget linked stats).symm.trans htarget)
  cases linked with
  | false => exact absurd hsame ((h.programmed false).stub_ne_codeAddr h.addresses .first hrunnable)
  | true =>
      obtain rfl : 0 = id := (h.programmed true).sound.codeAddr_inj (h.runnable true) hrunnable hsame
      exact .run true (cycles - 1) stats 0

/-- The block leaves for want of cycles, or through its slot if that is not linked. -/
theorem leave (h : LoopCompiled c code mem) {linked : Bool} {cycles : Int32} {stats : Stats} {running : UInt32} {exit : ExitCode}
    {s : Activation (BlockEnv Interpreter)}
    (hleaves : Leaves Interpreter.platform [loopBlock]
      (0, { cpu := { loopBlock.cpu with cycles }, env := ⟨⟨mem, loopCache c linked⟩, {}, stats⟩, running }) exit s) :
    LoopPlace c code mem [loopBlock]
      (.dispatch (.leave ⟨exit, s.runningBlock, s.callback⟩) ⟨⟨s.cpu, s.env.bus, s.env.host⟩, code, s.env.stats, false⟩) := by
  cases hleaves with
  | exit hk hd =>
      obtain rfl := Option.some.inj (hk.symm.trans find?_loopBlock)
      rcases performs_loopBlock_cases hd with heq | heq <;> cases heq
      exact .stop _
  | @stub _ _ slot _ hk hd htarget =>
      obtain rfl := Option.some.inj (hk.symm.trans find?_loopBlock)
      rcases performs_loopBlock_cases hd with heq | heq <;> cases heq
      have hsame := Except.ok.inj ((h.linkTarget linked stats).symm.trans htarget)
      cases linked with
      | true => exact absurd hsame.symm ((h.programmed true).stub_ne_codeAddr h.addresses slot (h.runnable true))
      | false =>
          cases slot with
          | first => exact .follow (cycles - 1) stats
          | second => exact absurd hsame h.stubs

/-- What the dispatcher does. -/
theorem step (h : LoopCompiled c code mem) {phase phase' : Phase} {e e' : Engine Interpreter} {fuel : Nat}
    (hplace : LoopPlace c code mem log (.dispatch phase e)) (henter : ∀ id, phase ≠ .enter id) (hdone : ∀ exit, phase ≠ .done exit)
    (hr : e.step Interpreter.platform fuel phase = .ok (.ok phase', e')) :
    LoopPlace c code mem (e.stepLog phase ++ log) (.dispatch phase' e') := by
  cases hplace with
  | search =>
      have hpage : scantCache.codePage (onePage 0 [0xEB, 0xFE]) loopBlock.cpu.ipLinear loopBlock.cpu.codeBig none =
          .ok (.ok (some 0), onePage 0 [0xEB, 0xFE], watchedCache) := codePage_onePage 0 [0xEB, 0xFE] (by decide)
      have habsent : watchedCache.find 0 (pageOffset loopBlock.cpu.ipLinear) = none := by decide +kernel
      simp only [Engine.step, lookup, loopEngine, hpage, habsent] at hr
      cases hr
      exact .create
  | create =>
      have hlight : (loopEngine loopBlock.cache loopBlock.code loopBlock.mem loopBlock.cpu { lookups := 1 }).heavy 0 = false := by
        decide +kernel
      rw [stepLog, if_neg (by simp [hlight])]
      rw [step_of_result hlight h.result] at hr
      cases hr
      exact .enter false _ _
  | enter linked cycles stats => exact absurd rfl (henter 0)
  | follow cycles stats =>
      have hlinear : ({ loopBlock.cpu with cycles } : Cpu).ipLinear = 0 :=
        show loopBlock.cpu.ipLinear = 0 by decide
      have hresolve : mem.resolve ({ loopBlock.cpu with cycles } : Cpu).ipLinear false = .ok 0 := by
        rw [hlinear]
        exact h.resolve
      have hfind : c.find 0 (pageOffset ({ loopBlock.cpu with cycles } : Cpu).ipLinear) = some 0 := by
        rw [hlinear]
        exact h.find
      have hcandidate : linkCandidate c { loopBlock.cpu with cycles } mem (some 0) .first = .ok (some (0, 0)) :=
        linkCandidate_eq (h.runnable false) h.free hresolve h.monitor h.code32 hfind
      simp only [Engine.step, afterExit, loopEngine, followLink, hcandidate] at hr
      cases hr
      exact .enter true cycles _
  | stop e =>
      cases hr
      exact .done _
  | done e => exact absurd rfl (hdone _)

theorem attains (h : LoopCompiled c code mem) {n : Nat}
    (hplace : (loopEngine scantCache scantCode (onePage 0 [0xEB, 0xFE]) loopBlock.cpu {}).Attains Interpreter.platform [] n log stage) :
    LoopPlace c code mem log stage := by
  induction hplace with
  | start => exact .search
  | step _ henter hdone hr ih => exact h.step ih henter hdone hr
  | enter _ ih =>
      cases ih with
      | enter linked cycles stats => exact .run linked cycles _ _
  | hop _ hhop ih =>
      cases ih with
      | run linked cycles stats running => exact h.hop hhop
  | leave _ hleaves ih =>
      cases ih with
      | run linked cycles stats running => exact h.leave hleaves

theorem not_disturbed (h : LoopPlace c code mem log stage) : ¬stage.Disturbed Interpreter.platform log := by
  cases h with
  | search =>
      rintro ⟨-, fault, mem', c', hpage⟩
      have hfound : scantCache.codePage (onePage 0 [0xEB, 0xFE]) loopBlock.cpu.ipLinear loopBlock.cpu.codeBig none =
          .ok (.ok (some 0), onePage 0 [0xEB, 0xFE], watchedCache) := codePage_onePage 0 [0xEB, 0xFE] (by decide)
      cases hfound.symm.trans hpage
  | run linked cycles stats running =>
      rintro ⟨k, hk, hbreaks⟩
      obtain rfl := Option.some.inj (hk.symm.trans find?_loopBlock)
      exact not_breaks_loopBlock _ hbreaks
  | _ => simp [Stage.Disturbed]

end LoopCompiled

theorem exists_loopCompiled : ∃ c code mem, LoopCompiled c code mem := by
  obtain ⟨c, code, mem, stats, record, hvisit, hloop, hb, hfree, hresult⟩ := exists_visits_compiled
  have hcode : Programmed [loopBlock] c code :=
    (hvisit.keeps (Programmed.upkeep _ fun _ => True) (Interpreter.platform_confined _) fun _ _ => trivial).1
  obtain ⟨howner, hord, -⟩ := find_spec hcode.sound.registry hloop.find
  have hrunnable : c.Runnable 0 := ⟨live_iff.mpr ⟨0, howner⟩, hord⟩
  have hcore := (LinksApart.link c 0 .first 0).core 0
  refine ⟨c, code, mem, hloop, hresult, hfree, fun linked => ?_, fun linked => ?_, hb.blocks, hb.addresses⟩
  · cases linked with
    | false => exact hcode
    | true => exact hcode.narrow (hcode.sound.link hrunnable hrunnable hfree) (.link _ _ _ _)
  · cases linked with
    | false => exact hrunnable
    | true => exact ⟨(Block.live_eq_of_core hcore).trans hrunnable.1, (Block.isCompanion_eq_of_core hcore).trans hrunnable.2⟩

/-- A jump to itself, with three cycles: at most four times its block is entered. -/
theorem run_ends_within_budget_loop :
    ∃ m : Machine Interpreter, History .free Interpreter.platform m [] ∧ m.core.enabled = true ∧ m.core.trap = false ∧
      m.cpu.cycles = 3 ∧ (∀ n log stage, m.Attains Interpreter.platform [] n log stage → ¬stage.Disturbed Interpreter.platform log) ∧
      (∃ fuel₀ out, (∀ fuel, fuel₀ ≤ fuel → m.run Interpreter.platform fuel = out) ∧
        (∀ cause, out = .error cause → cause = .uninterpretable ∨ cause = .overflow)) ∧
      ∀ n log stage, m.Attains Interpreter.platform [] n log stage → n ≤ 4 := by
  have hhistory : History .free Interpreter.platform (onePageMachine 0 [0xEB, 0xFE] loopBlock.cpu) [] :=
    history_onePageMachine _ trivial _
  obtain ⟨c, code, mem, hcompiled⟩ := exists_loopCompiled
  have hcalm : ∀ n log stage, (onePageMachine 0 [0xEB, 0xFE] loopBlock.cpu).Attains Interpreter.platform [] n log stage →
      ¬stage.Disturbed Interpreter.platform log := by
    rintro n log stage ⟨r, hr, -, hplace⟩
    cases hr
    exact LoopCompiled.not_disturbed (hcompiled.attains hplace)
  obtain ⟨⟨fuel₀, out, hrun, hcause, -⟩, hbound⟩ := run_ends_within_budget (.inr hhistory)
    (fun r hr => by cases hr; exact ⟨by decide +kernel, by decide +kernel⟩) hcalm
  exact ⟨_, hhistory, rfl, rfl, rfl, hcalm, ⟨fuel₀, out, hrun, hcause⟩, fun n log stage hplace => (hbound n log stage hplace).1⟩

end Machine

end Recompiler
