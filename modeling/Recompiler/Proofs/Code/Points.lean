import Recompiler.Proofs.Code.Performing

/-! A pass through a block, operation by operation. The points of a pass are what is left of the block together with the
state; every operation that does not leave takes the pass from one point to the next. The pass ends where it comes to an
operation that leaves, or to an action that makes the block leave. -/

namespace Recompiler

open Relation

variable {ε : Type} {h : Helpers ε}

namespace Action

/-- Actions are performed one after the other, and none of them makes the block leave. -/
inductive Done (h : Helpers ε) : List Action → Activation ε → Activation ε → Prop where
  | nil {s : Activation ε} : Done h [] s s
  | cons {a : Action} {as : List Action} {s s₁ s' : Activation ε} (hact : a.perform h s = .ok (none, s₁))
      (hrest : Done h as s₁ s') : Done h (a :: as) s s'

/-- What every one of some actions keeps is kept by all of them together. -/
theorem Done.keeps {I : Activation ε → Prop} {as : List Action} {s s' : Activation ε} (hdone : Done h as s s') (hs : I s)
    (hstep : ∀ a ∈ as, ∀ t t', a.perform h t = .ok (none, t') → I t → I t') : I s' := by
  induction hdone with
  | nil => exact hs
  | cons hact _ ih =>
      apply ih (hstep _ List.mem_cons_self _ _ hact hs)
      intro a ha
      exact hstep a (List.mem_cons_of_mem _ ha)

end Action

namespace MicroOp

/-- A point of a pass. -/
abbrev Point (ε : Type) := List MicroOp × Activation ε

/-- An operation that does not leave the block `whole`. -/
inductive Passes (h : Helpers ε) (whole : List MicroOp) : Point ε → Point ε → Prop where
  | act {a : Action} {rest : List MicroOp} {s s' : Activation ε} (hact : a.perform h s = .ok (none, s')) :
      Passes h whole (.act a :: rest, s) (rest, s')
  | jump {cond : Cond} {l : Label} {rest before after : List MicroOp} {s : Activation ε}
      (hcond : cond.holds s.cpu.eflags = true) (hwhole : whole = before ++ .bind l :: after) :
      Passes h whole (.jumpIf cond l :: rest, s) (after, s)
  | pass {cond : Cond} {l : Label} {rest : List MicroOp} {s : Activation ε} (hcond : cond.holds s.cpu.eflags = false) :
      Passes h whole (.jumpIf cond l :: rest, s) (rest, s)
  | bind {l : Label} {rest : List MicroOp} {s : Activation ε} : Passes h whole (.bind l :: rest, s) (rest, s)

/-- A pass through the block `whole` comes from one point to another. -/
def Comes (h : Helpers ε) (whole : List MicroOp) : Point ε → Point ε → Prop :=
  ReflTransGen (Passes h whole)

/-- What an operation at which a pass ends makes of it. -/
inductive Ends (h : Helpers ε) : MicroOp → Activation ε → Departure ε → Prop where
  | exit {code : ExitCode} {s : Activation ε} : Ends h (.exit code) s (.exit code s)
  | link {slot : Nat} {entry : UInt64} {s : Activation ε} : Ends h (.link slot entry) s (.link entry s)
  | leave {a : Action} {s s' : Activation ε} {code : ExitCode} (hact : a.perform h s = .ok (some code, s')) :
      Ends h (.act a) s (.exit code s')
  | abort {a : Action} {s : Activation ε} {cause : Abort} (hact : a.perform h s = .error cause) : Ends h (.act a) s (.abort cause)

variable {whole rest : List MicroOp} {s : Activation ε} {d : Departure ε}

/-- Performing a block is to come to an operation that ends the pass. -/
theorem performs_iff_comes : Performs h whole rest s d ↔
    ∃ op rest' s', Comes h whole (rest, s) (op :: rest', s') ∧ Ends h op s' d := by
  constructor
  · intro hperf
    induction hperf with
    | step hact _ ih =>
        obtain ⟨op, rest', s', hcomes, hends⟩ := ih
        exact ⟨op, rest', s', .head (.act hact) hcomes, hends⟩
    | leave hact => exact ⟨_, _, _, .refl, .leave hact⟩
    | abort hact => exact ⟨_, _, _, .refl, .abort hact⟩
    | jump hcond hwhole _ ih =>
        obtain ⟨op, rest', s', hcomes, hends⟩ := ih
        exact ⟨op, rest', s', .head (.jump hcond hwhole) hcomes, hends⟩
    | pass hcond _ ih =>
        obtain ⟨op, rest', s', hcomes, hends⟩ := ih
        exact ⟨op, rest', s', .head (.pass hcond) hcomes, hends⟩
    | bind _ ih =>
        obtain ⟨op, rest', s', hcomes, hends⟩ := ih
        exact ⟨op, rest', s', .head .bind hcomes, hends⟩
    | exit => exact ⟨_, _, _, .refl, .exit⟩
    | link => exact ⟨_, _, _, .refl, .link⟩
  · rintro ⟨op, rest', s', hcomes, hends⟩
    generalize hpoint : (rest, s) = point at hcomes
    induction hcomes using ReflTransGen.head_induction_on generalizing rest s with
    | refl =>
        cases hpoint
        cases hends with
        | exit => exact .exit
        | link => exact .link
        | leave hact => exact .leave hact
        | abort hact => exact .abort hact
    | head hpass _ ih =>
        cases hpoint
        cases hpass with
        | act hact => exact .step hact (ih rfl)
        | jump hcond hwhole => exact .jump hcond hwhole (ih rfl)
        | pass hcond => exact .pass hcond (ih rfl)
        | bind => exact .bind (ih rfl)

/-- What every action of a block keeps holds wherever a pass through it comes to. -/
theorem Comes.keeps {I : Activation ε → Prop} {point point' : Point ε} (hcomes : Comes h whole point point')
    (hstep : ∀ a, .act a ∈ whole → ∀ t t', a.perform h t = .ok (none, t') → I t → I t') (hpoint : point.1 ⊆ whole)
    (hI : I point.2) : I point'.2 := by
  have hboth : point'.1 ⊆ whole ∧ I point'.2 := by
    induction hcomes with
    | refl => exact ⟨hpoint, hI⟩
    | tail _ hpass ih =>
        obtain ⟨hsub, hkept⟩ := ih
        cases hpass with
        | act hact => exact ⟨List.subset_of_cons_subset hsub, hstep _ (hsub List.mem_cons_self) _ _ hact hkept⟩
        | pass => exact ⟨List.subset_of_cons_subset hsub, hkept⟩
        | bind => exact ⟨List.subset_of_cons_subset hsub, hkept⟩
        | jump hcond hwhole =>
            refine ⟨fun op hop => ?_, hkept⟩
            rw [hwhole]
            simp [hop]
  exact hboth.2

/-- A pass over actions ends at one of them, with those before it done, or goes beyond, with all of them done. -/
theorem Comes.of_acts {as : List Action} {op : MicroOp} {rest' : List MicroOp} {s' : Activation ε}
    (hcomes : Comes h whole (as.map .act ++ rest, s) (op :: rest', s')) :
    (∃ before a after, as = before ++ a :: after ∧ op = .act a ∧ rest' = after.map .act ++ rest ∧ Action.Done h before s s') ∨
      ∃ s₁, Action.Done h as s s₁ ∧ Comes h whole (rest, s₁) (op :: rest', s') := by
  induction as generalizing s with
  | nil => exact .inr ⟨s, .nil, hcomes⟩
  | cons a as ih =>
      rcases hcomes.cases_head with heq | ⟨point, hpass, hcomes'⟩
      · obtain ⟨hlist, rfl⟩ := Prod.mk.inj heq
        obtain ⟨rfl, rfl⟩ := List.cons.inj hlist
        exact .inl ⟨[], a, as, rfl, rfl, rfl, .nil⟩
      · cases hpass with
        | act hact =>
            rcases ih hcomes' with ⟨before, b, after, rfl, hop, hrest, hdone⟩ | ⟨s₁, hdone, hbeyond⟩
            · exact .inl ⟨a :: before, b, after, rfl, hop, hrest, .cons hact hdone⟩
            · exact .inr ⟨s₁, .cons hact hdone, hbeyond⟩

/-- Labels are bound behind the actions of a block, so that a pass that is behind them stays there. -/
theorem Passes.suffix {as : List Action} {last : List MicroOp} {point point' : Point ε}
    (hpass : Passes h (as.map .act ++ last) point point') (hpoint : point.1 <:+ last) : point'.1 <:+ last := by
  cases hpass with
  | act => exact (List.suffix_cons ..).trans hpoint
  | pass => exact (List.suffix_cons ..).trans hpoint
  | bind => exact (List.suffix_cons ..).trans hpoint
  | @jump cond l rest before after s hcond hwhole =>
      rcases List.append_eq_append_iff.mp hwhole with ⟨between, -, hlast⟩ | ⟨between, has, hbind⟩
      · exact ⟨between ++ [.bind l], by simp [hlast]⟩
      · cases between with
        | nil => exact ⟨[.bind l], by simpa using hbind⟩
        | cons op between =>
            obtain ⟨rfl, -⟩ := List.cons.inj hbind
            have hmem : .bind l ∈ as.map MicroOp.act := by simp [has]
            simp at hmem

theorem Comes.suffix {as : List Action} {last : List MicroOp} {point point' : Point ε}
    (hcomes : Comes h (as.map .act ++ last) point point') (hpoint : point.1 <:+ last) : point'.1 <:+ last := by
  induction hcomes with
  | refl => exact hpoint
  | tail _ hpass ih => exact hpass.suffix ih

/-- Performing actions is to perform all of them and what follows, or to end at one of them. -/
theorem performs_acts_iff {as : List Action} : Performs h whole (as.map .act ++ rest) s d ↔
    (∃ before a after s₁, as = before ++ a :: after ∧ Action.Done h before s s₁ ∧ Ends h (.act a) s₁ d) ∨
      ∃ s₁, Action.Done h as s s₁ ∧ Performs h whole rest s₁ d := by
  constructor
  · intro hperf
    obtain ⟨op, rest', s', hcomes, hends⟩ := performs_iff_comes.mp hperf
    rcases hcomes.of_acts with ⟨before, a, after, has, rfl, -, hdone⟩ | ⟨s₁, hdone, hbeyond⟩
    · exact .inl ⟨before, a, after, s', has, hdone, hends⟩
    · exact .inr ⟨s₁, hdone, performs_iff_comes.mpr ⟨op, rest', s', hbeyond, hends⟩⟩
  · rintro (⟨before, a, after, s₁, rfl, hdone, hends⟩ | ⟨s₁, hdone, hperf⟩)
    · induction hdone with
      | nil =>
          cases hends with
          | leave hact => exact .leave hact
          | abort hact => exact .abort hact
      | cons hact _ ih => exact .step hact (ih hends)
    · induction hdone with
      | nil => exact hperf
      | cons hact _ ih => exact .step hact (ih hperf)

end MicroOp

end Recompiler
