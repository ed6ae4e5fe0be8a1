import Recompiler.Proofs.Code.Labels
import Recompiler.Proofs.Code.Running

/-! Threaded code performs its micro-operations. What micro-operations do is given as a relation without fuel: a pass
through a block performs one after the other, and ends with an exit, at a link or with an abort. This is what running the
micro-operations themselves comes to, and the code of a block runs to just these ends too; what happens behind a link is
up to the code at its target. -/

namespace Recompiler

variable {ε : Type}

/-- How a pass through a block ends. -/
inductive Departure (ε : Type) where
  | exit (code : ExitCode) (s : Activation ε)
  /-- The link table entry at an address is followed. -/
  | link (entry : UInt64) (s : Activation ε)
  | abort (cause : Abort)

/-- A run ends as a departure says, where `run` is what happens behind links. -/
def Departure.EndsAs (h : Helpers ε) (run : (fuel target : Nat) → Activation ε → Except Abort (UInt32 × Activation ε))
    (r : Except Abort (UInt32 × Activation ε)) : Departure ε → Prop
  | exit code s => r = .ok (code.raw, s)
  | link entry s =>
    match h.linkTarget entry.toNat s.env with
    | .error cause => r = .error cause
    | .ok target => ∃ fuel, run fuel target s = r
  | abort cause => r = .error cause

/-- A run ends as a departure says, and what happens behind a link takes less fuel than `bound`. -/
def Departure.EndsWithin (h : Helpers ε) (run : (fuel target : Nat) → Activation ε → Except Abort (UInt32 × Activation ε))
    (bound : Nat) (r : Except Abort (UInt32 × Activation ε)) : Departure ε → Prop
  | exit code s => r = .ok (code.raw, s)
  | link entry s =>
    match h.linkTarget entry.toNat s.env with
    | .error cause => r = .error cause
    | .ok target => ∃ fuel < bound, run fuel target s = r
  | abort cause => r = .error cause

namespace Departure.EndsWithin

variable {h : Helpers ε} {run : (fuel target : Nat) → Activation ε → Except Abort (UInt32 × Activation ε)} {bound bound' : Nat}
  {r : Except Abort (UInt32 × Activation ε)} {d : Departure ε}

theorem mono (hd : d.EndsWithin h run bound r) (hbound : bound ≤ bound') : d.EndsWithin h run bound' r := by
  cases d with
  | exit code s => exact hd
  | abort cause => exact hd
  | link entry s =>
      unfold EndsWithin at hd ⊢
      cases hlink : h.linkTarget entry.toNat s.env with
      | error cause =>
          simp only [hlink] at hd ⊢
          exact hd
      | ok target =>
          simp only [hlink] at hd ⊢
          obtain ⟨fuel, hfuel, hrun⟩ := hd
          exact ⟨fuel, hfuel.trans_le hbound, hrun⟩

theorem endsAs (hd : d.EndsWithin h run bound r) : d.EndsAs h run r := by
  cases d with
  | exit code s => exact hd
  | abort cause => exact hd
  | link entry s =>
      unfold EndsWithin at hd
      unfold EndsAs
      cases hlink : h.linkTarget entry.toNat s.env with
      | error cause =>
          simp only [hlink] at hd ⊢
          exact hd
      | ok target =>
          simp only [hlink] at hd ⊢
          obtain ⟨fuel, -, hrun⟩ := hd
          exact ⟨fuel, hrun⟩

end Departure.EndsWithin

namespace MicroOp

/-- Performing the micro-operations `rest` of a block whose micro-operations are `whole`, from a state to a departure. -/
inductive Performs (h : Helpers ε) (whole : List MicroOp) : (rest : List MicroOp) → Activation ε → Departure ε → Prop
  | step {a : Action} {rest : List MicroOp} {s s' : Activation ε} {d : Departure ε} (hact : a.perform h s = .ok (none, s'))
      (hrest : Performs h whole rest s' d) : Performs h whole (.act a :: rest) s d
  | leave {a : Action} {rest : List MicroOp} {s s' : Activation ε} {code : ExitCode}
      (hact : a.perform h s = .ok (some code, s')) : Performs h whole (.act a :: rest) s (.exit code s')
  | abort {a : Action} {rest : List MicroOp} {s : Activation ε} {cause : Abort} (hact : a.perform h s = .error cause) :
      Performs h whole (.act a :: rest) s (.abort cause)
  | jump {cond : Cond} {l : Label} {rest before after : List MicroOp} {s : Activation ε} {d : Departure ε}
      (hcond : cond.holds s.cpu.eflags = true) (hwhole : whole = before ++ .bind l :: after)
      (hafter : Performs h whole after s d) : Performs h whole (.jumpIf cond l :: rest) s d
  | pass {cond : Cond} {l : Label} {rest : List MicroOp} {s : Activation ε} {d : Departure ε}
      (hcond : cond.holds s.cpu.eflags = false) (hrest : Performs h whole rest s d) :
      Performs h whole (.jumpIf cond l :: rest) s d
  | bind {l : Label} {rest : List MicroOp} {s : Activation ε} {d : Departure ε} (hrest : Performs h whole rest s d) :
      Performs h whole (.bind l :: rest) s d
  | exit {code : ExitCode} {rest : List MicroOp} {s : Activation ε} : Performs h whole (.exit code :: rest) s (.exit code s)
  | link {slot : Nat} {entry : UInt64} {rest : List MicroOp} {s : Activation ε} :
      Performs h whole (.link slot entry :: rest) s (.link entry s)

/-- Whether an operation always leaves the block. -/
def leaves : MicroOp → Bool
  | exit _ | link .. => true
  | _ => false

/-- Micro-operations that make up a block: the last one leaves, and the target of every jump is bound in one place. -/
structure WellFormed (ops : List MicroOp) : Prop where
  last : ∃ op, ops.getLast? = some op ∧ op.leaves = true
  once : ∀ cond l, .jumpIf cond l ∈ ops → ops.count (.bind l) = 1

namespace WellFormed

variable {ops before rest : List MicroOp}

/-- Something follows an operation that does not always leave. -/
theorem rest_ne_nil (h : WellFormed ops) {op : MicroOp} (hops : ops = before ++ op :: rest) (hop : op.leaves = false) :
    rest ≠ [] := by
  rintro rfl
  obtain ⟨op', hlast, hleaves⟩ := h.last
  rw [hops, List.getLast?_concat, Option.some.injEq] at hlast
  rw [hlast, hleaves] at hop
  cases hop

theorem bind_mem (h : WellFormed ops) {cond : Cond} {l : Label} (hjump : .jumpIf cond l ∈ ops) : .bind l ∈ ops :=
  List.count_pos_iff.1 (by rw [h.once cond l hjump]; exact Nat.one_pos)

/-- A jump has one target. -/
theorem eq_beforeBind (h : WellFormed ops) {cond : Cond} {l : Label} (hjump : .jumpIf cond l ∈ ops)
    (hops : ops = before ++ .bind l :: rest) : before = beforeBind l ops := by
  have hcount := h.once cond l hjump
  obtain ⟨hsplit, -⟩ := eq_beforeBind_append (h.bind_mem hjump)
  rw [hops, List.count_append, List.count_cons_self] at hcount
  have hbefore : .bind l ∉ before := List.count_eq_zero.1 (by omega)
  have hrest : .bind l ∉ rest := List.count_eq_zero.1 (by omega)
  exact ((List.append_cons_inj_of_notMem hbefore hrest).1 (hops.symm.trans hsplit)).1

/-- Where a jump goes to. -/
theorem afterBind_ne_nil (h : WellFormed ops) {cond : Cond} {l : Label} (hjump : .jumpIf cond l ∈ ops) :
    ops = beforeBind l ops ++ .bind l :: afterBind l ops ∧ afterBind l ops ≠ [] := by
  obtain ⟨hsplit, -⟩ := eq_beforeBind_append (h.bind_mem hjump)
  exact ⟨hsplit, h.rest_ne_nil hsplit rfl⟩

theorem eq_afterBind (h : WellFormed ops) {cond : Cond} {l : Label} (hjump : .jumpIf cond l ∈ ops)
    (hops : ops = before ++ .bind l :: rest) : rest = afterBind l ops := by
  obtain ⟨hsplit, -⟩ := h.afterBind_ne_nil hjump
  rw [← h.eq_beforeBind hjump hops] at hsplit
  simpa using hops.symm.trans hsplit

end WellFormed

variable {ops before rest : List MicroOp}

theorem WellFormed.ne_nil (hops : WellFormed ops) : ops ≠ [] := by
  rintro rfl
  obtain ⟨op, hlast, -⟩ := hops.last
  cases hlast

end MicroOp

namespace Spot

open MicroOp

variable {π : Type} {track : π → Spot π} {behind : Nat → Option π} {place : List MicroOp → π}
  {ops before rest : List MicroOp} {h : Helpers ε} {s : Activation ε} {r : Except Abort (UInt32 × Activation ε)}

/-- Micro-operations stand at the positions of code: `place` gives the position behind a part of them. A label may take none. -/
structure Lays (track : π → Spot π) (behind : Nat → Option π) (ops : List MicroOp) (place : List MicroOp → π) : Prop where
  act : ∀ {before a rest}, ops = before ++ .act a :: rest →
    ∃ a', track (place before) = .act a' (place (before ++ [.act a])) ∧
      ∀ {ε : Type} (h : Helpers ε) s, a'.perform h s = a.perform h s
  jumpIf : ∀ {before cond l rest}, ops = before ++ .jumpIf cond l :: rest →
    track (place before) = .go fun cpu =>
      some (if cond.holds cpu.eflags then place (beforeBind l ops ++ [.bind l]) else place (before ++ [.jumpIf cond l]))
  bind : ∀ {before l rest}, ops = before ++ .bind l :: rest →
    place (before ++ [.bind l]) = place before ∨ track (place before) = .go fun _ => some (place (before ++ [.bind l]))
  exit : ∀ {before code rest}, ops = before ++ .exit code :: rest → track (place before) = .exit code.raw
  link : ∀ {before slot entry rest}, ops = before ++ .link slot entry :: rest →
    track (place before) = .link entry.toNat behind

/-- A run of the code performs the micro-operations. The induction is on the fuel, and for labels, which may take none, on
what is left of the block. -/
theorem Lays.performs (hcode : Lays track behind ops place) (hops : WellFormed ops) (hr : r ≠ .error .outOfFuel) {fuel : Nat}
    (hsplit : ops = before ++ rest) (hrest : rest ≠ []) (hrun : run h track fuel (some (place before)) s = r) :
    ∃ d, Performs h ops rest s d ∧ d.EndsWithin h (fun fuel target => run h track fuel (behind target)) fuel r := by
  induction fuel generalizing before rest s with
  | zero => exact absurd hrun.symm hr
  | succ fuel ih =>
      induction rest generalizing before with
      | nil => exact absurd rfl hrest
      | cons op rest ihrest =>
          have hnext : ops = before ++ [op] ++ rest := by rw [hsplit, List.append_assoc, List.singleton_append]
          cases op with
          | act a =>
              obtain ⟨a', hspot, hsame⟩ := hcode.act hsplit
              rw [run, hspot] at hrun
              dsimp only at hrun
              rw [hsame] at hrun
              cases hact : a.perform h s with
              | error cause =>
                  rw [hact] at hrun
                  exact ⟨_, .abort hact, hrun.symm⟩
              | ok out =>
                  obtain ⟨_ | code, s'⟩ := out
                  · rw [hact] at hrun
                    obtain ⟨d, hd, hends⟩ := ih hnext (hops.rest_ne_nil hsplit rfl) hrun
                    exact ⟨d, .step hact hd, hends.mono (Nat.le_succ fuel)⟩
                  · rw [hact] at hrun
                    exact ⟨_, .leave hact, hrun.symm⟩
          | jumpIf cond l =>
              have hmem : .jumpIf cond l ∈ ops := by rw [hsplit]; simp
              rw [run, hcode.jumpIf hsplit] at hrun
              dsimp only at hrun
              by_cases hcond : cond.holds s.cpu.eflags = true
              · obtain ⟨hbind, hafter⟩ := hops.afterBind_ne_nil hmem
                have hbound : ops = beforeBind l ops ++ [.bind l] ++ afterBind l ops := by
                  rw [List.append_assoc, List.singleton_append]
                  exact hbind
                rw [if_pos hcond] at hrun
                obtain ⟨d, hd, hends⟩ := ih hbound hafter hrun
                exact ⟨d, .jump hcond hbind hd, hends.mono (Nat.le_succ fuel)⟩
              · rw [if_neg hcond] at hrun
                obtain ⟨d, hd, hends⟩ := ih hnext (hops.rest_ne_nil hsplit rfl) hrun
                exact ⟨d, .pass (Bool.eq_false_iff.2 hcond) hd, hends.mono (Nat.le_succ fuel)⟩
          | bind l =>
              have hrest := hops.rest_ne_nil hsplit rfl
              obtain hplace | hspot := hcode.bind hsplit
              · obtain ⟨d, hd, hends⟩ := ihrest hnext hrest (by rw [hplace]; exact hrun)
                exact ⟨d, .bind hd, hends⟩
              · rw [run, hspot] at hrun
                obtain ⟨d, hd, hends⟩ := ih hnext hrest hrun
                exact ⟨d, .bind hd, hends.mono (Nat.le_succ fuel)⟩
          | exit code =>
              rw [run, hcode.exit hsplit] at hrun
              exact ⟨_, .exit, hrun.symm⟩
          | link slot entry =>
              rw [run, hcode.link hsplit] at hrun
              refine ⟨_, .link, ?_⟩
              dsimp only at hrun
              unfold Departure.EndsWithin
              cases hlink : h.linkTarget entry.toNat s.env with
              | error cause =>
                  simp only [hlink] at hrun ⊢
                  exact hrun.symm
              | ok target =>
                  simp only [hlink] at hrun ⊢
                  exact ⟨fuel, Nat.lt_succ_self fuel, hrun⟩

/-- The code runs to every departure that the micro-operations have. -/
theorem Lays.exists_run (hcode : Lays track behind ops place) (hops : WellFormed ops) {d : Departure ε}
    (hperforms : Performs h ops rest s d) (hends : d.EndsAs h (fun fuel target => run h track fuel (behind target)) r)
    (hsplit : ops = before ++ rest) : ∃ fuel, run h track fuel (some (place before)) s = r := by
  have hsnoc {before rest : List MicroOp} {op : MicroOp} (hsplit : ops = before ++ op :: rest) :
      ops = before ++ [op] ++ rest := by rw [hsplit, List.append_assoc, List.singleton_append]
  induction hperforms generalizing before with
  | step hact _ ih =>
      obtain ⟨a', hspot, hsame⟩ := hcode.act hsplit
      obtain ⟨fuel, hrun⟩ := ih hends (hsnoc hsplit)
      refine ⟨fuel + 1, ?_⟩
      rw [run, hspot]
      dsimp only
      rw [hsame, hact]
      exact hrun
  | leave hact | abort hact =>
      obtain ⟨a', hspot, hsame⟩ := hcode.act hsplit
      refine ⟨1, ?_⟩
      rw [run, hspot]
      dsimp only
      rw [hsame, hact]
      exact hends.symm
  | @jump cond l rest bound after s d hcond hwhole _ ih =>
      have hmem : .jumpIf cond l ∈ ops := by rw [hsplit]; simp
      obtain ⟨fuel, hrun⟩ := ih hends (hsnoc hwhole)
      refine ⟨fuel + 1, ?_⟩
      rw [run, hcode.jumpIf hsplit]
      dsimp only
      rw [if_pos hcond, ← hops.eq_beforeBind hmem hwhole]
      exact hrun
  | pass hcond _ ih =>
      obtain ⟨fuel, hrun⟩ := ih hends (hsnoc hsplit)
      refine ⟨fuel + 1, ?_⟩
      rw [run, hcode.jumpIf hsplit]
      dsimp only
      rw [if_neg (Bool.eq_false_iff.1 hcond)]
      exact hrun
  | bind _ ih =>
      obtain ⟨fuel, hrun⟩ := ih hends (hsnoc hsplit)
      obtain hplace | hspot := hcode.bind hsplit
      · exact ⟨fuel, hplace ▸ hrun⟩
      · refine ⟨fuel + 1, ?_⟩
        rw [run, hspot]
        exact hrun
  | exit =>
      refine ⟨1, ?_⟩
      rw [run, hcode.exit hsplit]
      exact hends.symm
  | @link slot entry rest s =>
      unfold Departure.EndsAs at hends
      dsimp only at hends
      cases hlink : h.linkTarget entry.toNat s.env with
      | error cause =>
          rw [hlink] at hends
          refine ⟨1, ?_⟩
          rw [run, hcode.link hsplit]
          dsimp only
          rw [hlink]
          exact hends.symm
      | ok target =>
          rw [hlink] at hends
          obtain ⟨fuel, hrun⟩ := hends
          refine ⟨fuel + 1, ?_⟩
          rw [run, hcode.link hsplit]
          dsimp only
          rw [hlink]
          exact hrun

end Spot

/-- Micro-operations that are run stand for themselves. -/
theorem MicroOp.lays {ops : List MicroOp} (hops : WellFormed ops) (programs : Nat → Option (List MicroOp)) :
    Spot.Lays (track programs) (entrance programs) ops fun before => (ops, ops.drop before.length) := by
  have hdrop {before rest : List MicroOp} {op : MicroOp} (hsplit : ops = before ++ op :: rest) :
      ops.drop before.length = op :: rest ∧ ops.drop (before ++ [op]).length = rest := by
    rw [hsplit]
    simp
  constructor
  · intro before a rest hsplit
    rw [(hdrop hsplit).1, (hdrop hsplit).2]
    exact ⟨a, rfl, fun _ _ => rfl⟩
  · intro before cond l rest hsplit
    have hmem : .jumpIf cond l ∈ ops := by rw [hsplit]; simp
    rw [(hdrop hsplit).1, (hdrop hsplit).2, (hdrop (hops.afterBind_ne_nil hmem).1).2, track]
    simp only [apply_ite]
  · intro before l rest hsplit
    rw [(hdrop hsplit).1, (hdrop hsplit).2]
    exact .inr rfl
  · intro before code rest hsplit
    rw [(hdrop hsplit).1]
    rfl
  · intro before slot entry rest hsplit
    rw [(hdrop hsplit).1]
    rfl

namespace Threaded

open MicroOp

/-- The code of a block stands at the offset `start` of the code at the host address `base`. -/
structure Stands (code : ByteArray) (base start : Nat) (ops : List MicroOp) : Prop where
  act : ∀ {before a rest}, ops = before ++ .act a :: rest →
    fetch code (start + encoding.codeSize before) = some (.act (readBack a), start + encoding.codeSize (before ++ [.act a]))
  jumpIf : ∀ {before cond l rest}, ops = before ++ .jumpIf cond l :: rest →
    fetch code (start + encoding.codeSize before) =
      some (.jumpIf cond (base + start + encoding.codeSize (beforeBind l ops)),
        start + encoding.codeSize (before ++ [.jumpIf cond l]))
  exit : ∀ {before exit rest}, ops = before ++ .exit exit :: rest →
    fetch code (start + encoding.codeSize before) =
      some (.exit exit.raw, start + encoding.codeSize (before ++ [.exit exit]))
  link : ∀ {before slot entry rest}, ops = before ++ .link slot entry :: rest →
    fetch code (start + encoding.codeSize before) =
      some (.link slot.toUInt8 entry.toNat, start + encoding.codeSize (before ++ [.link slot entry]))

variable {h : Helpers ε} {code : ByteArray} {base start : Nat} {ops before rest : List MicroOp} {s : Activation ε}
  {r : Except Abort (UInt32 × Activation ε)}

@[simp] theorem codeSize_bind (before : List MicroOp) (l : Label) :
    encoding.codeSize (before ++ [.bind l]) = encoding.codeSize before := by
  rw [HostEncoding.codeSize_append]
  rfl

/-- Code starts where no operation is behind. -/
theorem offset?_add (base start : Nat) : offset? base (base + start) = some (start + encoding.codeSize []) := by
  rw [offset?, if_pos (Nat.le_add_right ..), Nat.add_sub_cancel_left]
  rfl

theorem Stands.lays (hcode : Stands code base start ops) :
    Spot.Lays (track code base) (offset? base) ops fun before => start + encoding.codeSize before := by
  constructor
  · intro before a rest hsplit
    rw [track, hcode.act hsplit]
    exact ⟨readBack a, rfl, fun h s => perform_readBack h a s⟩
  · intro before cond l rest hsplit
    have hoffset : offset? base (base + start + encoding.codeSize (beforeBind l ops)) =
        some (start + encoding.codeSize (beforeBind l ops)) := by
      rw [offset?, if_pos (by omega), Nat.add_assoc, Nat.add_sub_cancel_left]
    rw [track, hcode.jumpIf hsplit, codeSize_bind]
    simp only [hoffset, apply_ite]
  · intro before l rest hsplit
    rw [codeSize_bind]
    exact .inl rfl
  · intro before code rest hsplit
    rw [track, hcode.exit hsplit]
  · intro before slot entry rest hsplit
    rw [track, hcode.link hsplit]

/-! ### The code that assembly leaves -/

section Assembled

variable {b : CodeBuffer}

theorem fetch_op {content : Nat → Label → List UInt8} (hcontent : ∀ pos l, (content pos l).length = encoding.labelSize)
    {op : MicroOp} {step : Step} (hsplit : ops = before ++ op :: rest)
    (hholds : b.Holds 0 (encoding.render base content 0 (ops.flatMap encoding.written)))
    (hdecode : ∀ tail, decode (encoding.render base content (encoding.codeSize before) (encoding.written op) ++ tail) =
      some (step, tail)) :
    fetch b.store (b.start + encoding.codeSize before) =
      some (step, b.start + encoding.codeSize (before ++ [op])) := by
  have hlength := HostEncoding.length_render (e := encoding) hcontent base (encoding.codeSize before) (encoding.written op)
  have hsize : encoding.codeSize (before ++ [op]) = encoding.codeSize before + encoding.size (encoding.written op) := by
    rw [HostEncoding.codeSize_append, HostEncoding.codeSize_cons]
    rfl
  have hbytes : ∀ i, i < (encoding.render base content (encoding.codeSize before) (encoding.written op)).length →
      b.store.data[b.start + encoding.codeSize before + i]? =
        (encoding.render base content (encoding.codeSize before) (encoding.written op))[i]? := by
    intro i hi
    have hop := HostEncoding.holds_op hcontent hsplit hholds
    rw [Nat.zero_add] at hop
    rw [Nat.add_assoc]
    exact hop i hi
  rw [fetch_eq hbytes (hlength.trans_le (size_written_le op)) hdecode, hlength, hsize, Nat.add_assoc]

/-- The bytes of a block at a host address. -/
def image (base : Nat) (ops : List MicroOp) : List UInt8 :=
  encoding.render base (encoding.resolved base ops) 0 (ops.flatMap encoding.written)

theorem length_image (base : Nat) (ops : List MicroOp) : (image base ops).length = encoding.codeSize ops :=
  HostEncoding.length_render (fun _ _ => sized_encoding _ _ _) _ _ _

theorem Stands.of_holds (hbase : b.base = base + b.start) (haddr : b.base + encoding.codeSize ops < 2 ^ 64)
    (hops : WellFormed ops) (hholds : b.Holds 0 (image b.base ops)) : Stands b.store base b.start ops := by
  have hcontent : ∀ pos l, (encoding.resolved b.base ops pos l).length = encoding.labelSize := fun _ _ => sized_encoding _ _ _
  constructor
  · intro before a rest hsplit
    exact fetch_op hcontent hsplit hholds fun tail => decode_action a _ _ _ tail
  · intro before cond l rest hsplit
    have hmem : .jumpIf cond l ∈ ops := by rw [hsplit]; simp
    have hle : encoding.codeSize (beforeBind l ops) ≤ encoding.codeSize ops := by
      obtain ⟨hbind, -⟩ := eq_beforeBind_append (hops.bind_mem hmem)
      have hsize := congrArg encoding.codeSize hbind
      rw [HostEncoding.codeSize_append] at hsize
      omega
    have hfield : encoding.resolved b.base ops (encoding.codeSize before + 2) l =
        littleEndian 8 (b.base + encoding.codeSize (beforeBind l ops)) := rfl
    rw [← hbase]
    exact fetch_op hcontent hsplit hholds fun tail => decode_jumpIf cond l hfield (by omega) tail
  · intro before exit rest hsplit
    exact fetch_op hcontent hsplit hholds fun tail => decode_exit exit _ _ _ tail
  · intro before slot entry rest hsplit
    exact fetch_op hcontent hsplit hholds fun tail => decode_link slot entry _ _ _ tail

end Assembled

end Threaded

namespace HostCode

open MicroOp

variable {code : HostCode} {start capacity labels : Nat} {ops : List MicroOp}

/-- The arena from an offset on. -/
def window (code : HostCode) (start : Nat) : CodeBuffer :=
  { store := code.arena.bytes, start, capacity := code.arena.size - start, base := code.base + start }

/-- A block can be emitted wherever the arena has the room, and what is emitted stands there if it fits. -/
theorem exists_emitBlock (hbackend : code.emitter.backend = .portable) (hroom : code.arena.contains start (start + capacity) = true)
    (hlabels : ∀ l, .bind l ∈ ops → l < labels) (hops : WellFormed ops) :
    ∃ code', code.emitBlock start capacity labels ops = .ok (.ok (Threaded.encoding.codeSize ops), code') ∧
      (Threaded.encoding.codeSize ops ≤ capacity → (code'.window start).Holds 0 (Threaded.image (code.base + start) ops)) := by
  obtain ⟨⟨bytes, protection⟩, base, ⟨backend, epilogue⟩, stubs, programs⟩ := code
  cases hbackend
  obtain ⟨b', hassemble, hwithin, hpos, hholds⟩ := assemble_spec Threaded.sized_encoding
    (b := { store := bytes, start, capacity, base := base + start }) rfl hlabels
    (fun l hl => by
      obtain ⟨cond, hjump⟩ := Threaded.branches_encoding.jumpIf_mem hl
      exact hops.bind_mem hjump)
  refine ⟨⟨⟨b'.store, protection⟩, base, ⟨.portable, epilogue⟩, stubs, programs⟩, ?_, fun hfit => ?_⟩
  · unfold emitBlock Emitter.emitBlock Emitter.encoding
    dsimp only
    rw [if_pos hroom, hassemble, ← hpos]
    rfl
  · have hbacked : start + capacity ≤ bytes.size := by
      unfold Arena.contains Arena.size at hroom
      simpa using hroom
    refine (hholds hbacked hfit).congr fun j _ _ => ?_
    rw [CodeBuffer.byte, CodeBuffer.byte, hwithin.start]
    rfl

/-- Code that stands in the arena, with addresses that fit the fields of jumps. -/
theorem stands_of_holds (haddr : code.base + start + Threaded.encoding.codeSize ops < 2 ^ 64) (hops : WellFormed ops)
    (hholds : (code.window start).Holds 0 (Threaded.image (code.base + start) ops)) :
    Threaded.Stands code.arena.bytes code.base start ops := by
  have hbase : (code.window start).base = code.base + (code.window start).start := rfl
  exact Threaded.Stands.of_holds hbase haddr hops hholds

/-- Running code that stands in the arena is performing its micro-operations. -/
theorem exists_run_iff_performs (hbackend : code.emitter.backend = .portable)
    (hstands : Threaded.Stands code.arena.bytes code.base start ops) (hops : WellFormed ops) (h : Helpers ε) (s : Activation ε)
    {r : Except Abort (UInt32 × Activation ε)} (hr : r ≠ .error .outOfFuel) :
    (∃ fuel, code.run h fuel (code.base + start) s = r) ↔ ∃ d, Performs h ops ops s d ∧ d.EndsAs h (code.run h) r := by
  simp only [run_portable hbackend, Threaded.offset?_add]
  constructor
  · rintro ⟨fuel, hrun⟩
    obtain ⟨d, hd, hends⟩ := hstands.lays.performs hops hr (List.nil_append ops).symm hops.ne_nil hrun
    exact ⟨d, hd, hends.endsAs⟩
  · rintro ⟨d, hd, hends⟩
    exact hstands.lays.exists_run hops hd hends (List.nil_append ops).symm

/-- Blocks are emitted whenever the arena has the room. If the code fits, then running it from the block's address is
performing the micro-operations: every run ends as a pass through them does, and every such pass is a run. A result that is
no exit code comes from behind a link. -/
theorem run_emitBlock_iff_performs (hbackend : code.emitter.backend = .portable)
    (hroom : code.arena.contains start (start + capacity) = true) (haddr : code.base + start + capacity < 2 ^ 64)
    (hlabels : ∀ l, .bind l ∈ ops → l < labels) (hops : WellFormed ops) :
    ∃ code', code.emitBlock start capacity labels ops = .ok (.ok (Threaded.encoding.codeSize ops), code') ∧
      (Threaded.encoding.codeSize ops ≤ capacity → ∀ (h : Helpers ε) (s : Activation ε),
        (∀ r, r ≠ .error .outOfFuel →
          ((∃ fuel, code'.run h fuel (code.base + start) s = r) ↔ ∃ d, Performs h ops ops s d ∧ d.EndsAs h (code'.run h) r)) ∧
        ∀ fuel raw s', code'.run h fuel (code.base + start) s = .ok (raw, s') →
          (∃ exit : ExitCode, raw = exit.raw) ∨
          ∃ entry s₁ target fuel', Performs h ops ops s (.link entry s₁) ∧ h.linkTarget entry.toNat s₁.env = .ok target ∧
            code'.run h fuel' target s₁ = .ok (raw, s')) := by
  obtain ⟨code', hemit, hholds⟩ := exists_emitBlock hbackend hroom hlabels hops
  have hwrote := wrote_emitBlock hemit
  refine ⟨code', hemit, fun hfit h s => ?_⟩
  have hbackend' : code'.emitter.backend = .portable := hwrote.emitter ▸ hbackend
  have hcode := hholds hfit
  rw [← hwrote.base] at hcode haddr ⊢
  have hstands := stands_of_holds (by omega) hops hcode
  refine ⟨fun r hr => exists_run_iff_performs hbackend' hstands hops h s hr, fun fuel raw s' hrun => ?_⟩
  obtain ⟨d, hd, hends⟩ := (exists_run_iff_performs hbackend' hstands hops h s (by simp)).1 ⟨fuel, hrun⟩
  cases d with
  | exit exit s₁ =>
      cases hends
      exact .inl ⟨exit, rfl⟩
  | link entry s₁ =>
      unfold Departure.EndsAs at hends
      dsimp only at hends
      split at hends
      · cases hends
      · rename_i target hlink
        obtain ⟨fuel', hend⟩ := hends
        exact .inr ⟨entry, s₁, target, fuel', hd, hlink, hend⟩
  | abort cause => cases hends

/-! ### The shared code -/

/-- The shared code of a link slot stands before all blocks. -/
def StubStands (code : HostCode) (slot : Slot) : Prop :=
  ∃ offset, code.stubs.exits.get slot = code.base + offset ∧
    offset + Threaded.encoding.codeSize [.exit (.ofSlot slot.index)] ≤ Arena.blocksStart ∧
    (code.window offset).Holds 0 (Threaded.image (code.base + offset) [.exit (.ofSlot slot.index)])

theorem image_exit (base : Nat) (exit : ExitCode) : Threaded.image base [.exit exit] = 23 :: littleEndian 4 exit.raw.toNat := by
  change 23 :: (littleEndian 4 exit.raw.toNat ++ []) = _
  rw [List.append_nil]

/-- The stub of a slot is written at the cursor. -/
theorem holds_exitStub {e : Emitter} (hbackend : e.backend = .portable) (slot : Slot) {b : CodeBuffer} (hb : b.Backed)
    (hfit : b.pos + 5 ≤ b.capacity) :
    (e.exitStub slot b).1 = b.addr ∧ (e.exitStub slot b).2.pos = b.pos + 5 ∧ b.Within (e.exitStub slot b).2 ∧
      (∀ j, j < b.pos → (e.exitStub slot b).2.byte j = b.byte j) ∧
      (e.exitStub slot b).2.Holds b.pos (23 :: littleEndian 4 (ExitCode.ofSlot slot.index).raw.toNat) := by
  have hencoding : e.encoding = Threaded.encoding := by rw [Emitter.encoding, hbackend]
  have happends := Assembly.Appends.pieces (e := Threaded.encoding) { buffer := b, bound := #[] }
    (Threaded.pieces (.exit (.ofSlot slot.index)))
  have hsize : Threaded.encoding.size (Threaded.pieces (.exit (.ofSlot slot.index))) = 5 := rfl
  have hbytes : Threaded.encoding.render b.base Threaded.encoding.blank b.pos (Threaded.pieces (.exit (.ofSlot slot.index))) =
      23 :: littleEndian 4 (ExitCode.ofSlot slot.index).raw.toNat := by
    change 23 :: (littleEndian 4 (ExitCode.ofSlot slot.index).raw.toNat ++ []) = _
    rw [List.append_nil]
  unfold Emitter.exitStub Emitter.emit
  rw [hencoding]
  have hpos := happends.pos
  rw [hsize] at hpos
  refine ⟨rfl, hpos, happends.within, happends.before, ?_⟩
  have hholds := happends.holds hb (by rw [hpos]; exact hfit)
  rw [hbytes] at hholds
  exact hholds

theorem stubStands_create {s : Settings} (h : create s = .ok code) (hbackend : s.backend = .portable) (slot : Slot) :
    code.StubStands slot := by
  unfold create at h
  generalize harena : Arena.allocate s.cacheSize s.maxBlockSize s.protection = arena at h
  obtain ⟨bytes, protection⟩ := arena
  have hsize : Arena.stubArea ≤ bytes.size := by
    have hbytes : bytes = zeroBytes ((Arena.stubArea + s.cacheSize + s.maxBlockSize + pageSize - 1) / pageSize * pageSize) :=
      (congrArg Arena.bytes harena).symm
    have hzero : ∀ n, (zeroBytes n).size = n := fun n => Array.size_replicate
    rw [hbytes, hzero, Arena.stubArea, pageSize]
    omega
  rw [hbackend] at h
  unfold Emitter.emitStubs Emitter.entry at h
  dsimp only at h
  have hb : CodeBuffer.Backed { store := bytes, start := 0, capacity := Arena.stubArea, base := arenaBase } := by
    rw [CodeBuffer.Backed]
    dsimp only
    omega
  generalize hbuffer : ({ store := bytes, start := 0, capacity := Arena.stubArea, base := arenaBase } : CodeBuffer) = b at h hb
  have hb0 : b.pos = 0 ∧ b.start = 0 ∧ b.capacity = 4096 ∧ b.base = arenaBase := by
    rw [← hbuffer]
    exact ⟨rfl, rfl, rfl, rfl⟩
  obtain ⟨haddr, hpos, hwithin, -, hfirst⟩ := holds_exitStub (e := ⟨.portable, 0⟩) rfl .first hb (by omega)
  generalize Emitter.exitStub ⟨.portable, 0⟩ .first b = out at h haddr hpos hwithin hfirst
  obtain ⟨first, b₁⟩ := out
  dsimp only at h haddr hpos hwithin hfirst
  have hcap := hwithin.capacity
  obtain ⟨haddr₂, hpos₂, hwithin₂, hbefore₂, hsecond⟩ :=
    holds_exitStub (e := ⟨.portable, 0⟩) rfl .second (hwithin.backed hb) (by omega)
  generalize Emitter.exitStub ⟨.portable, 0⟩ .second b₁ = out at h haddr₂ hpos₂ hwithin₂ hbefore₂ hsecond
  obtain ⟨second, b₂⟩ := out
  dsimp only at h haddr₂ hpos₂ hwithin₂ hbefore₂ hsecond
  obtain ⟨hpos0, hstart0, hcap0, hbase0⟩ := hb0
  have hstart : b₂.start = 0 := by rw [hwithin₂.start, hwithin.start, hstart0]
  rw [if_neg (by rw [CodeBuffer.overflowed, hwithin₂.capacity]; simp only [decide_eq_true_eq]; omega)] at h
  cases h
  have hlength (exit : ExitCode) : (23 :: littleEndian 4 exit.raw.toNat).length = 5 := by simp
  cases slot with
  | first =>
      refine ⟨0, ?_, by decide, ?_⟩
      · rw [PerSlot.get, haddr, CodeBuffer.addr, hbase0, hpos0]
      · rw [image_exit]
        rw [hpos0] at hfirst
        intro i hi
        have hbyte := hfirst i hi
        rw [hlength] at hi
        rw [← hbefore₂ (0 + i) (by omega), CodeBuffer.byte, hstart] at hbyte
        exact hbyte
  | second =>
      refine ⟨5, ?_, by decide, ?_⟩
      · rw [PerSlot.get, haddr₂, CodeBuffer.addr, hwithin.base, hbase0, hpos, hpos0]
      · rw [image_exit]
        rw [hpos, hpos0] at hsecond
        intro i hi
        have hbyte := hsecond i hi
        rw [CodeBuffer.byte, hstart] at hbyte
        rw [CodeBuffer.byte, ← hbyte]
        change b₂.store.data[5 + (0 + i)]? = b₂.store.data[0 + (0 + 5 + i)]?
        congr 1
        omega

theorem backend_create {s : Settings} (h : create s = .ok code) : code.emitter.backend = s.backend := by
  unfold create at h
  generalize Arena.allocate s.cacheSize s.maxBlockSize s.protection = arena at h
  obtain ⟨bytes, protection⟩ := arena
  dsimp only at h
  split at h
  · cases h
  · rename_i stubs emitter buffer hstubs
    cases h
    unfold Emitter.emitStubs Emitter.entry at hstubs
    cases hbackend : s.backend with
    | portable =>
        rw [hbackend] at hstubs
        dsimp only [Emitter.exitStub] at hstubs
        split at hstubs
        · cases hstubs
        · cases hstubs
          rfl
    | native =>
        rw [hbackend] at hstubs
        dsimp only [Emitter.exitStub] at hstubs
        split at hstubs
        · cases hstubs
        · cases hstubs
          rfl

/-- Blocks are written behind the shared code. -/
theorem StubStands.wrote {code' : HostCode} {slot : Slot} (h : code.StubStands slot) (hwrote : Wrote start capacity code code')
    (hstart : Arena.blocksStart ≤ start) : code'.StubStands slot := by
  obtain ⟨offset, haddr, hend, hholds⟩ := h
  refine ⟨offset, ?_, hend, ?_⟩
  · rw [hwrote.stubs, hwrote.base]
    exact haddr
  · rw [hwrote.base]
    refine hholds.congr fun j _ hj => ?_
    rw [Threaded.length_image] at hj
    exact hwrote.outside (offset + j) (by omega)

/-- A block with a jump forward, a jump backward and a link. -/
def hopping : List MicroOp :=
  [.act (.enter 3), .bind 0, .act (.addImm .t1 4), .jumpIf .o 1, .jumpIf .e 0, .bind 1, .link 0 0x20000000030]

theorem wellFormed_hopping : WellFormed hopping where
  last := ⟨_, rfl, rfl⟩
  once cond l hjump := by
    have hl : l = 1 ∨ l = 0 := by
      simp only [hopping, List.mem_cons, MicroOp.jumpIf.injEq, List.not_mem_nil, reduceCtorEq, false_or, or_false] at hjump
      rcases hjump with ⟨-, hl⟩ | ⟨-, hl⟩
      · exact .inl hl
      · exact .inr hl
    rcases hl with rfl | rfl <;> decide

theorem bind_mem_hopping {l : Label} (hl : .bind l ∈ hopping) : l < 2 := by
  simp only [hopping, List.mem_cons, MicroOp.bind.injEq, List.not_mem_nil, reduceCtorEq, false_or, or_false] at hl
  rcases hl with rfl | rfl <;> decide

/-- Room for a few small blocks. -/
def spare : HostCode where
  arena := ⟨zeroBytes 128, .always⟩
  base := 0x1000
  emitter := { backend := .portable }
  stubs := ⟨0, 0, ⟨0, 0⟩⟩

theorem run_emitBlock_iff_performs_hopping :
    WellFormed hopping ∧ ∃ code', spare.emitBlock 32 64 2 hopping = .ok (.ok 41, code') ∧
      ∀ (h : Helpers Unit) (s : Activation Unit) (r), r ≠ .error .outOfFuel →
        ((∃ fuel, code'.run h fuel 0x1020 s = r) ↔ ∃ d, Performs h hopping hopping s d ∧ d.EndsAs h (code'.run h) r) := by
  have hroom : spare.arena.contains 32 (32 + 64) = true := by decide +kernel
  obtain ⟨code', hemit, hruns⟩ :=
    run_emitBlock_iff_performs rfl hroom (by decide) (fun _ => bind_mem_hopping) wellFormed_hopping
  exact ⟨wellFormed_hopping, code', hemit, fun h s => (hruns (by decide) h s).1⟩

end HostCode

end Recompiler
