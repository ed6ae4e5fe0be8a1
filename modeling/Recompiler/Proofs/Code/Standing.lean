import Recompiler.Proofs.Code.Performing

/-! Host code of either kind stands for micro-operations, and a run of it is a pass through them. What all actions of a
block keep, a pass through it keeps. -/

namespace Recompiler

open MicroOp

variable {ε : Type} {h : Helpers ε} {s s' : Activation ε} {d : Departure ε}

/-! ### Passes -/

/-- A property of the state that a pass ends in. -/
def Departure.Holds (Q : Activation ε → Prop) : Departure ε → Prop
  | exit _ s => Q s
  | link _ s => Q s
  | abort _ => True

namespace MicroOp.Performs

variable {whole rest tail : List MicroOp} {Q : Activation ε → Prop}

/-- What all actions of a block keep holds at the end of a pass. -/
theorem holds (hd : Performs h whole rest s d)
    (hkeep : ∀ a, .act a ∈ whole → ∀ s r s', Q s → a.perform h s = .ok (r, s') → Q s') (hrest : rest ⊆ whole) (hs : Q s) :
    d.Holds Q := by
  induction hd with
  | step hact _ ih =>
      exact ih (List.subset_of_cons_subset hrest) (hkeep _ (hrest List.mem_cons_self) _ _ _ hs hact)
  | leave hact => exact hkeep _ (hrest List.mem_cons_self) _ _ _ hs hact
  | abort hact => trivial
  | @jump cond l rest before after s d hcond hwhole _ ih =>
      have hafter : after ⊆ whole := by
        intro op hop
        rw [hwhole]
        simp [hop]
      exact ih hafter hs
  | pass hcond _ ih => exact ih (List.subset_of_cons_subset hrest) hs
  | bind _ ih => exact ih (List.subset_of_cons_subset hrest) hs
  | exit => exact hs
  | link => exact hs

/-- The link that a pass ends at is one of the block's. -/
theorem link_mem {entry : UInt64} (hd : Performs h whole rest s (.link entry s')) (hrest : rest ⊆ whole) :
    ∃ slot, .link slot entry ∈ whole := by
  generalize hlink : Departure.link entry s' = d at hd
  induction hd with
  | step _ _ ih => exact ih (List.subset_of_cons_subset hrest) hlink
  | leave => cases hlink
  | abort => cases hlink
  | @jump cond l rest before after s d hcond hwhole _ ih =>
      have hafter : after ⊆ whole := by
        intro op hop
        rw [hwhole]
        simp [hop]
      exact ih hafter hlink
  | pass _ _ ih => exact ih (List.subset_of_cons_subset hrest) hlink
  | bind _ ih => exact ih (List.subset_of_cons_subset hrest) hlink
  | exit => cases hlink
  | @link slot entry' rest s =>
      cases hlink
      exact ⟨slot, hrest List.mem_cons_self⟩

end MicroOp.Performs

/-! ### The running block and the code size -/

/-- A helper call leaves the code size alone. -/
def HelperCall.KeepsSize {α : Type} (f : HelperCall ε α) : Prop :=
  ∀ cpu env r cpu' env', f cpu env = .ok (r, cpu', env') → cpu'.codeBig = cpu.codeBig

/-- All helpers leave the code size alone. -/
structure Helpers.KeepsSize (h : Helpers ε) : Prop where
  load : ∀ linear w, HelperCall.KeepsSize (h.load linear w)
  store : ∀ linear w value running, HelperCall.KeepsSize (h.store linear w value running)
  divide : ∀ w signed divisor, HelperCall.KeepsSize (h.divide w signed divisor)
  interpret : ∀ nextEip running, HelperCall.KeepsSize (h.interpret nextEip running)
  iret : ∀ w, HelperCall.KeepsSize (h.iret w)

theorem HelperCall.KeepsSize.afterCall {f : HelperCall ε Unit} (hf : HelperCall.KeepsSize f) {cpu : Cpu} {env : ε}
    {temps : Vector UInt32 3} {running callback : UInt32} {r : Option ExitCode}
    (hr : (f cpu env).map (Action.afterCall temps running callback) = .ok (r, s')) :
    s'.cpu.codeBig = cpu.codeBig ∧ s'.running = running := by
  cases hcall : f cpu env with
  | error abort =>
      rw [hcall] at hr
      cases hr
  | ok out =>
      obtain ⟨r₁, cpu₁, env₁⟩ := out
      rw [hcall] at hr
      have hsize := hf _ _ _ _ _ hcall
      cases r₁ <;> cases hr <;> exact ⟨hsize, rfl⟩

/-- Actions leave the code size alone. Only entering a block changes which one is running. -/
theorem Action.perform_keepsSize (hh : h.KeepsSize) {a : Action} {r : Option ExitCode} (hr : a.perform h s = .ok (r, s')) :
    s'.cpu.codeBig = s.cpu.codeBig ∧ (s'.running = s.running ∨ a = .enter s'.running) := by
  obtain ⟨cpu, env, temps, running, callback⟩ := s
  unfold perform at hr
  cases a with
  | load dst addr w =>
      dsimp only at hr
      split at hr
      · cases hr
      all_goals
        rename_i hcall
        cases hr
        exact ⟨hh.load _ _ _ _ _ _ _ hcall, .inl rfl⟩
  | store addr src w => exact ((hh.store _ _ _ _).afterCall hr).imp_right .inl
  | div w signed divisor => exact ((hh.divide _ _ _).afterCall hr).imp_right .inl
  | interpret nextEip => exact ((hh.interpret _ _).afterCall hr).imp_right .inl
  | iret w => exact ((hh.iret _).afterCall hr).imp_right .inl
  | enter b =>
      cases hr
      exact ⟨rfl, .inr rfl⟩
  | _ =>
      cases hr
      exact ⟨rfl, .inl rfl⟩

/-- A pass through a block that enters itself first, and no other, ends with that block running, under the code size
it began with. What the helpers keep of the environment holds at the end. -/
theorem MicroOp.Performs.entered (hh : h.KeepsSize) {I : ε → Prop} (hI : h.Keeps I) {b : UInt32} {tail : List MicroOp}
    (honly : ∀ b', .act (.enter b') ∈ tail → b' = b)
    (hd : Performs h (.act (.enter b) :: tail) (.act (.enter b) :: tail) s d) (hs : I s.env) :
    d.Holds fun s' => s'.cpu.codeBig = s.cpu.codeBig ∧ I s'.env ∧ s'.running = b := by
  have hact : ∀ {a r t t'}, .act a ∈ .act (.enter b) :: tail → a.perform h t = .ok (r, t') →
      t.cpu.codeBig = s.cpu.codeBig ∧ I t.env → (t.running = b ∨ a = .enter b) →
      t'.cpu.codeBig = s.cpu.codeBig ∧ I t'.env ∧ t'.running = b := by
    intro a r t t' hmem hperform ht hrunning
    obtain ⟨hsize, hnow⟩ := Action.perform_keepsSize hh hperform
    refine ⟨hsize.trans ht.1, Action.perform_keeps hI ht.2 hperform, ?_⟩
    rcases hnow with hnow | rfl
    · rcases hrunning with hrunning | rfl
      · exact hnow.trans hrunning
      · cases hperform
        rfl
    · rcases List.mem_cons.1 hmem with heq | hmem
      · simpa using heq
      · exact honly _ hmem
  have hpass : ∀ {t}, Performs h (.act (.enter b) :: tail) tail t d →
      t.cpu.codeBig = s.cpu.codeBig ∧ I t.env ∧ t.running = b → d.Holds _ := fun hrest ht =>
    hrest.holds (fun _ hmem _ _ _ ht hperform => hact hmem hperform ⟨ht.1, ht.2.1⟩ (.inl ht.2.2)) (List.subset_cons_self _ _) ht
  cases hd with
  | step hperform hrest => exact hpass hrest (hact List.mem_cons_self hperform ⟨rfl, hs⟩ (.inr rfl))
  | leave hperform => exact hact List.mem_cons_self hperform ⟨rfl, hs⟩ (.inr rfl)
  | abort => trivial

/-! ### The shared code of machine code -/

namespace Emitter

theorem pos_emit (e : Emitter) (pieces : List Piece) (b : CodeBuffer) :
    (e.emit pieces b).pos = b.pos + e.encoding.size pieces :=
  (Assembly.Appends.pieces (e := e.encoding) { buffer := b, bound := #[] } pieces).pos

/-- The stubs of machine code stand one after the other. -/
theorem exits_emitStubs {e e' : Emitter} {b b' : CodeBuffer} {stubs : Stubs}
    (hbackend : e.backend = .native) (hstubs : e.emitStubs b = .ok (stubs, e', b')) :
    ∃ first second, stubs.exits = ⟨b.base + first, b.base + second⟩ ∧ first < second ∧ second < b.capacity := by
  have hentry := within_entry e b
  have hbackend' : (e.entry b).2.1.backend = .native := by
    unfold entry
    rw [hbackend]
  unfold emitStubs at hstubs
  generalize e.entry b = out at hstubs hentry hbackend'
  obtain ⟨trampoline, e₁, b₁⟩ := out
  dsimp only [exitStub] at hstubs hentry hbackend'
  have hsize : ∀ exit, 0 < e₁.encoding.size (e₁.encoding.pieces (.exit exit)) := by
    intro exit
    rw [encoding, hbackend']
    exact Nat.lt_of_lt_of_eq (by decide : 0 < 10) rfl
  have hpos := pos_emit e₁ (e₁.encoding.pieces (.exit (.ofSlot Slot.first.index))) b₁
  have hwithin := within_emit e₁ (e₁.encoding.pieces (.exit (.ofSlot Slot.first.index))) b₁
  generalize e₁.emit (e₁.encoding.pieces (.exit (.ofSlot Slot.first.index))) b₁ = b₂ at hstubs hpos hwithin
  have hpos₂ := pos_emit e₁ (e₁.encoding.pieces (.exit (.ofSlot Slot.second.index))) b₂
  have hwithin₂ := within_emit e₁ (e₁.encoding.pieces (.exit (.ofSlot Slot.second.index))) b₂
  split at hstubs
  · cases hstubs
  · rename_i hfits
    cases hstubs
    have hfirst := hsize (.ofSlot Slot.first.index)
    have hsecond := hsize (.ofSlot Slot.second.index)
    rw [CodeBuffer.overflowed, decide_eq_true_eq, hwithin₂.capacity, hwithin.capacity, hentry.capacity] at hfits
    refine ⟨b₁.pos, b₂.pos, ?_, by omega, by omega⟩
    rw [CodeBuffer.addr, CodeBuffer.addr, hwithin.base, hentry.base]

end Emitter

/-! ### Either kind of code -/

namespace HostCode

variable {code : HostCode} {addr : Nat} {ops : List MicroOp}

/-- The code at a host address stands for micro-operations. Threaded code is read back; of machine code it is known what it
does. -/
def Stands (code : HostCode) (addr : Nat) (ops : List MicroOp) : Prop :=
  match code.emitter.backend with
  | .portable => ∃ start, addr = code.base + start ∧ Threaded.Stands code.arena.bytes code.base start ops
  | .native => code.programs[addr]? = some ops

/-- Code of either kind is laid out as its micro-operations are. -/
theorem Stands.exists_lays (hcode : code.Stands addr ops) (hops : WellFormed ops) :
    ∃ (π : Type) (track : π → Spot π) (behind : Nat → Option π) (place : List MicroOp → π),
      (∀ {ε : Type} (h : Helpers ε), code.run h = fun fuel entry => Spot.run h track fuel (behind entry)) ∧
      Spot.Lays track behind ops place ∧ behind addr = some (place []) := by
  unfold Stands at hcode
  cases hbackend : code.emitter.backend with
  | portable =>
      rw [hbackend] at hcode
      obtain ⟨start, rfl, hstands⟩ := hcode
      exact ⟨_, _, _, _, run_portable hbackend, hstands.lays, Threaded.offset?_add ..⟩
  | native =>
      rw [hbackend] at hcode
      refine ⟨_, _, _, _, run_native hbackend, MicroOp.lays hops _, ?_⟩
      rw [MicroOp.entrance, hcode]
      rfl

/-- A run of code is a pass through its micro-operations, and what happens behind a link is a shorter run. -/
theorem Stands.performs (hcode : code.Stands addr ops) (hops : WellFormed ops) {fuel : Nat}
    {r : Except Abort (UInt32 × Activation ε)} (hr : r ≠ .error .outOfFuel) (hrun : code.run h fuel addr s = r) :
    ∃ d, Performs h ops ops s d ∧ d.EndsWithin h (code.run h) fuel r := by
  obtain ⟨π, track, behind, place, htrack, hlays, hstart⟩ := hcode.exists_lays hops
  simp only [htrack, hstart] at hrun ⊢
  exact hlays.performs hops hr (List.nil_append ops).symm hops.ne_nil hrun

/-- Every pass is a run. -/
theorem Stands.exists_run (hcode : code.Stands addr ops) (hops : WellFormed ops) {d : Departure ε}
    {r : Except Abort (UInt32 × Activation ε)} (hd : Performs h ops ops s d) (hends : d.EndsAs h (code.run h) r) :
    ∃ fuel, code.run h fuel addr s = r := by
  obtain ⟨π, track, behind, place, htrack, hlays, hstart⟩ := hcode.exists_lays hops
  simp only [htrack, hstart] at hends ⊢
  exact hlays.exists_run hops hd hends (List.nil_append ops).symm

/-- The code at an address leaves with the exit code of a slot. -/
def Exits (code : HostCode) (addr : Nat) (slot : Slot) : Prop :=
  code.Stands addr [.exit (.ofSlot slot.index)]

theorem Exits.run {slot : Slot} (hcode : code.Exits addr slot) {fuel : Nat} {r : Except Abort (UInt32 × Activation ε)}
    (hr : r ≠ .error .outOfFuel) (hrun : code.run h fuel addr s = r) : r = .ok ((ExitCode.ofSlot slot.index).raw, s) := by
  obtain ⟨d, hd, hends⟩ := hcode.performs ⟨⟨_, rfl, rfl⟩, by simp⟩ hr hrun
  cases hd
  exact hends

theorem Exits.exists_run {slot : Slot} (hcode : code.Exits addr slot) (h : Helpers ε) (s : Activation ε) :
    ∃ fuel, code.run h fuel addr s = .ok ((ExitCode.ofSlot slot.index).raw, s) :=
  Stands.exists_run hcode ⟨⟨_, rfl, rfl⟩, by simp⟩ .exit rfl

/-- The stubs of machine code stand before all blocks, and leave with the exit codes of their slots. -/
theorem exits_create {settings : Settings} (hcreate : create settings = .ok code) (hbackend : settings.backend = .native) (slot : Slot) :
    ∃ offset < Arena.blocksStart, code.stubs.exits.get slot = code.base + offset ∧
      code.programs[code.stubs.exits.get slot]? = some [.exit (.ofSlot slot.index)] := by
  unfold create at hcreate
  generalize Arena.allocate settings.cacheSize settings.maxBlockSize settings.protection = arena at hcreate
  obtain ⟨bytes, protection⟩ := arena
  rw [hbackend] at hcreate
  dsimp only at hcreate
  split at hcreate
  · cases hcreate
  · rename_i stubs emitter buffer hstubs
    obtain ⟨first, second, hexits, hlt, hend⟩ := Emitter.exits_emitStubs rfl hstubs
    cases hcreate
    dsimp only at hexits hend ⊢
    rw [hexits]
    have hdistinct : [(arenaBase + first, [MicroOp.exit .link1]), (arenaBase + second, [MicroOp.exit .link2])].Pairwise
        fun a b => (a.1 == b.1) = false := by
      simp only [List.pairwise_pair, beq_eq_false_iff_ne]
      omega
    cases slot with
    | first =>
        refine ⟨first, hlt.trans hend, rfl, ?_⟩
        exact Std.HashMap.getElem?_ofList_of_mem (k := arenaBase + first) (by simp [PerSlot.get]) hdistinct (by simp [ExitCode.ofSlot, Slot.index])
    | second =>
        refine ⟨second, hend, rfl, ?_⟩
        exact Std.HashMap.getElem?_ofList_of_mem (k := arenaBase + second) (by simp [PerSlot.get]) hdistinct (by simp [ExitCode.ofSlot, Slot.index])

end HostCode

end Recompiler
