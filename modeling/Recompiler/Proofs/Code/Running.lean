import Recompiler.Compile.Block

/-! What running code leaves alone. Threaded code and micro-operations run alike: at a position stands an action, a choice
where to go on, an exit or a link. Code reaches its environment only through the helpers, so what every helper keeps every
run keeps, whatever the code. A run that ends does so in the same way with more fuel. -/

namespace Recompiler

variable {ε π : Type}

/-! ### Code of either kind -/

/-- What stands at a position of code. Where there is nothing to go on at, the code is malformed. -/
inductive Spot (π : Type) where
  | act (a : Action) (next : π)
  | go (next : Cpu → Option π)
  | exit (raw : UInt32)
  | link (entry : Nat) (behind : Nat → Option π)

/-- Runs code, given by what stands at its positions, until it leaves. -/
def Spot.run (h : Helpers ε) (track : π → Spot π) : Nat → Option π → Activation ε → Except Abort (UInt32 × Activation ε)
  | _, none, s => .ok (malformedExit, s)
  | 0, some _, _ => .error .outOfFuel
  | fuel + 1, some pos, s =>
    match track pos with
    | .act a next =>
      match a.perform h s with
      | .error abort => .error abort
      | .ok (some code, s) => .ok (code.raw, s)
      | .ok (none, s) => run h track fuel (some next) s
    | .go next => run h track fuel (next s.cpu) s
    | .exit raw => .ok (raw, s)
    | .link entry behind =>
      match h.linkTarget entry s.env with
      | .error abort => .error abort
      | .ok target => run h track fuel (behind target) s

@[simp] theorem Spot.run_none (h : Helpers ε) (track : π → Spot π) (fuel : Nat) (s : Activation ε) :
    Spot.run h track fuel none s = .ok (malformedExit, s) := by
  cases fuel <;> rfl

/-- The position at which the program at a host address starts. -/
def MicroOp.entrance (programs : Nat → Option (List MicroOp)) (target : Nat) : Option (List MicroOp × List MicroOp) :=
  (programs target).map fun ops => (ops, ops)

/-- Micro-operations as code whose positions are the program and what is left of it. -/
def MicroOp.track (programs : Nat → Option (List MicroOp)) : List MicroOp × List MicroOp → Spot (List MicroOp × List MicroOp)
  | (_, []) => .exit malformedExit
  | (whole, .act a :: rest) => .act a (whole, rest)
  | (whole, .jumpIf cond l :: rest) => .go fun cpu => some (whole, if cond.holds cpu.eflags then afterBind l whole else rest)
  | (whole, .bind _ :: rest) => .go fun _ => some (whole, rest)
  | (_, .exit code :: _) => .exit code.raw
  | (_, .link _ entry :: _) => .link entry.toNat (entrance programs)

/-- The offset of a host address in the code at `base`. -/
def Threaded.offset? (base target : Nat) : Option Nat :=
  if base ≤ target then some (target - base) else none

/-- Threaded code as code whose positions are offsets. -/
def Threaded.track (code : ByteArray) (base pc : Nat) : Spot Nat :=
  match fetch code pc with
  | none => .exit malformedExit
  | some (.act a, next) => .act a next
  | some (.jumpIf cond target, next) => .go fun cpu => if cond.holds cpu.eflags then offset? base target else some next
  | some (.exit raw, _) => .exit raw
  | some (.link _ entry, _) => .link entry (offset? base)

theorem MicroOp.run_eq_track (h : Helpers ε) (programs : Nat → Option (List MicroOp)) (fuel : Nat) (whole rest : List MicroOp)
    (s : Activation ε) : run h programs fuel whole rest s = Spot.run h (track programs) fuel (some (whole, rest)) s := by
  induction fuel generalizing whole rest s with
  | zero => rfl
  | succ fuel ih =>
      cases rest with
      | nil => rfl
      | cons op rest =>
          unfold run Spot.run
          cases op with
          | act a =>
              dsimp only [track]
              rcases Action.perform h a s with abort | ⟨_ | code, s'⟩
              · rfl
              · exact ih ..
              · rfl
          | link slot entry =>
              dsimp only [track, entrance]
              cases h.linkTarget entry.toNat s.env with
              | error abort => rfl
              | ok target =>
                  dsimp only
                  cases programs target with
                  | none => exact (Spot.run_none ..).symm
                  | some ops => exact ih ..
          | exit code => rfl
          | _ => exact ih ..

theorem Threaded.run_eq_track (h : Helpers ε) (code : ByteArray) (base fuel pc : Nat) (s : Activation ε) :
    run h code base fuel pc s = Spot.run h (track code base) fuel (some pc) s := by
  induction fuel generalizing pc s with
  | zero => rfl
  | succ fuel ih =>
      have henter (target : Nat) : (if base ≤ target then run h code base fuel (target - base) s else .ok (malformedExit, s)) =
          Spot.run h (track code base) fuel (offset? base target) s := by
        unfold offset?
        split
        · exact ih ..
        · exact (Spot.run_none ..).symm
      unfold run Spot.run track
      generalize fetch code pc = fetched
      obtain _ | ⟨op, next⟩ := fetched
      · rfl
      cases op with
      | act a =>
          simp only [ih]
          rfl
      | jumpIf cond target =>
          dsimp only
          split
          · exact henter target
          · exact ih ..
      | exit raw => rfl
      | link slot entry =>
          simp only [henter]
          rfl

namespace HostCode

variable {code : HostCode}

theorem run_portable (hbackend : code.emitter.backend = .portable) (h : Helpers ε) : code.run h =
    fun fuel entry => Spot.run h (Threaded.track code.arena.bytes code.base) fuel (Threaded.offset? code.base entry) := by
  funext fuel entry s
  simp only [run, hbackend, Threaded.run_eq_track, Threaded.offset?]
  split
  · rfl
  · exact (Spot.run_none ..).symm

theorem run_native (hbackend : code.emitter.backend = .native) (h : Helpers ε) : code.run h =
    fun fuel entry => Spot.run h (MicroOp.track fun addr => code.programs[addr]?) fuel
      (MicroOp.entrance (fun addr => code.programs[addr]?) entry) := by
  funext fuel entry s
  simp only [run, hbackend, MicroOp.run_eq_track, MicroOp.entrance]
  cases code.programs[entry]? with
  | none => exact (Spot.run_none ..).symm
  | some ops => rfl

/-- Host code is code of one of the two kinds. -/
theorem exists_track (code : HostCode) : ∃ (π : Type) (track : π → Spot π) (behind : Nat → Option π),
    ∀ {ε : Type} (h : Helpers ε), code.run h = fun fuel entry => Spot.run h track fuel (behind entry) := by
  cases hbackend : code.emitter.backend with
  | portable => exact ⟨_, _, _, run_portable hbackend⟩
  | native => exact ⟨_, _, _, run_native hbackend⟩

end HostCode

/-! ### What helpers keep -/

/-- A helper call keeps a property of the environment. -/
def HelperCall.Keeps {α : Type} (f : HelperCall ε α) (I : ε → Prop) : Prop :=
  ∀ cpu env r cpu' env', I env → f cpu env = .ok (r, cpu', env') → I env'

/-- All helpers keep a property of the environment. -/
structure Helpers.Keeps (h : Helpers ε) (I : ε → Prop) : Prop where
  load : ∀ linear w, HelperCall.Keeps (h.load linear w) I
  store : ∀ linear w value running, HelperCall.Keeps (h.store linear w value running) I
  divide : ∀ w signed divisor, HelperCall.Keeps (h.divide w signed divisor) I
  interpret : ∀ nextEip running, HelperCall.Keeps (h.interpret nextEip running) I
  iret : ∀ w, HelperCall.Keeps (h.iret w) I

variable {h : Helpers ε} {I : ε → Prop} {s s' : Activation ε}

theorem HelperCall.Keeps.afterCall {f : HelperCall ε Unit} (hf : HelperCall.Keeps f I) {cpu : Cpu} {env : ε}
    {temps : Vector UInt32 3} {running callback : UInt32} {r : Option ExitCode} (hI : I env)
    (hr : (f cpu env).map (Action.afterCall temps running callback) = .ok (r, s')) : I s'.env := by
  cases hcall : f cpu env with
  | error abort =>
      rw [hcall] at hr
      cases hr
  | ok out =>
      obtain ⟨r₁, cpu₁, env₁⟩ := out
      rw [hcall] at hr
      have henv := hf _ _ _ _ _ hI hcall
      cases r₁ <;> cases hr <;> exact henv

theorem Action.perform_keeps (hh : h.Keeps I) {a : Action} {r : Option ExitCode} (hI : I s.env)
    (hr : a.perform h s = .ok (r, s')) : I s'.env := by
  obtain ⟨cpu, env, temps, running, callback⟩ := s
  unfold perform at hr
  cases a with
  | load dst addr w =>
      dsimp only at hr
      split at hr
      · cases hr
      · rename_i hcall
        cases hr
        exact hh.load _ _ _ _ _ _ _ hI hcall
      · rename_i hcall
        cases hr
        exact hh.load _ _ _ _ _ _ _ hI hcall
  | store addr src w => exact (hh.store _ _ _ _).afterCall hI hr
  | div w signed divisor => exact (hh.divide _ _ _).afterCall hI hr
  | interpret nextEip => exact (hh.interpret _ _).afterCall hI hr
  | iret w => exact (hh.iret _).afterCall hI hr
  | _ =>
      cases hr
      exact hI

theorem Spot.run_keeps (hh : h.Keeps I) {track : π → Spot π} {fuel : Nat} {pos : Option π} {raw : UInt32} (hI : I s.env)
    (hr : Spot.run h track fuel pos s = .ok (raw, s')) : I s'.env := by
  induction fuel generalizing pos s with
  | zero =>
      cases pos <;> cases hr
      exact hI
  | succ fuel ih =>
      cases pos with
      | none =>
          cases hr
          exact hI
      | some pos =>
          unfold run at hr
          split at hr
          · split at hr
            · cases hr
            · rename_i hact
              cases hr
              exact Action.perform_keeps hh hI hact
            · rename_i hact
              exact ih (Action.perform_keeps hh hI hact) hr
          · exact ih hI hr
          · cases hr
            exact hI
          · split at hr
            · cases hr
            · exact ih hI hr

theorem HostCode.run_keeps (hh : h.Keeps I) {code : HostCode} {fuel entry : Nat} {raw : UInt32} (hI : I s.env)
    (hr : code.run h fuel entry s = .ok (raw, s')) : I s'.env := by
  obtain ⟨π, track, behind, hrun⟩ := code.exists_track
  rw [hrun] at hr
  exact Spot.run_keeps hh hI hr

/-! ### Fuel -/

/-- More fuel does not change how a run ends. -/
theorem Spot.run_stable {track : π → Spot π} {fuel fuel' : Nat} {pos : Option π} {r : Except Abort (UInt32 × Activation ε)}
    (hr : Spot.run h track fuel pos s = r) (hne : r ≠ .error .outOfFuel) (hle : fuel ≤ fuel') :
    Spot.run h track fuel' pos s = r := by
  induction fuel generalizing fuel' pos s with
  | zero =>
      cases pos with
      | none => exact (Spot.run_none ..).trans hr
      | some pos => exact absurd hr.symm hne
  | succ fuel ih =>
      obtain ⟨fuel', rfl⟩ : ∃ n, fuel' = n + 1 := ⟨fuel' - 1, by omega⟩
      have hle' : fuel ≤ fuel' := by omega
      cases pos with
      | none => exact hr
      | some pos =>
          unfold run at hr ⊢
          cases hspot : track pos with
          | act a next =>
              simp only [hspot] at hr ⊢
              cases hact : a.perform h s with
              | error abort =>
                  rw [hact] at hr
                  exact hr
              | ok out =>
                  obtain ⟨_ | code, s₁⟩ := out
                  · rw [hact] at hr
                    exact ih hr hle'
                  · rw [hact] at hr
                    exact hr
          | go next =>
              simp only [hspot] at hr ⊢
              exact ih hr hle'
          | exit raw =>
              simp only [hspot] at hr ⊢
              exact hr
          | link entry behind =>
              simp only [hspot] at hr ⊢
              cases htarget : h.linkTarget entry s.env with
              | error abort =>
                  rw [htarget] at hr
                  exact hr
              | ok target =>
                  rw [htarget] at hr
                  exact ih hr hle'

theorem HostCode.run_stable {code : HostCode} {fuel fuel' entry : Nat} {r : Except Abort (UInt32 × Activation ε)}
    (hr : code.run h fuel entry s = r) (hne : r ≠ .error .outOfFuel) (hle : fuel ≤ fuel') : code.run h fuel' entry s = r := by
  obtain ⟨π, track, behind, hrun⟩ := code.exists_track
  rw [hrun] at hr ⊢
  exact Spot.run_stable hr hne hle

theorem HostCode.run_mono {code : HostCode} {fuel fuel' entry : Nat} {out : UInt32 × Activation ε}
    (hr : code.run h fuel entry s = .ok out) (hle : fuel ≤ fuel') : code.run h fuel' entry s = .ok out :=
  run_stable hr (by simp) hle

end Recompiler
