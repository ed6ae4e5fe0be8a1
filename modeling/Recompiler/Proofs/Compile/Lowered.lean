import Recompiler.Proofs.Code.Performing
import Recompiler.Proofs.Compile.Fetch

/-! The shape of lowered code. An instruction is a list of actions, performed one after the other, and for those that end
a block what leaves it. -/

namespace Recompiler

open MicroOp Scan

namespace Lowering

variable (ctx : LoweringContext)

/-- Sets the instruction pointer before the first call of a helper. -/
def publishActions (eip : UInt32) : List Action → List Action
  | [] => []
  | a :: rest => if a.callsHelper then .setEip eip :: a :: rest else a :: publishActions eip rest

/-- What an instruction does before it leaves. -/
def actions (f : Fetched) : List Action :=
  let w := f.inst.width
  match f.inst.kind with
  | .mov dst src =>
    let addr :=
      match dst with
      | .mem a => address a .t2
      | _ => []
    addr ++ read f.hotImm src w .t0 .t2 ++ write dst w .t0 .t2
  | .alu op dst src =>
    read f.hotImm dst w .t0 .t2 ++ read f.hotImm src w .t1 .t2 ++ [.alu op w .t0 .t1] ++
      if op.writesResult then write dst w .t0 .t2 else []
  | .unary op dst => read f.hotImm dst w .t0 .t2 ++ [.unary op w .t0] ++ write dst w .t0 .t2
  | .lea dst addr => [.lea .t0 addr, .storeReg dst .t0]
  | .push src => read f.hotImm src w .t0 .t2 ++ push ctx w
  | .pop dst => pop ctx w 0 ++ [.storeReg dst .t0]
  | .call _ => .loadImm .t0 (f.inst.nextIp ctx.code32) :: push ctx w
  | .ret extra => pop ctx w extra.toUInt32 ++ [.storeEip .t0]
  | .div signed src => read f.hotImm src w .t0 .t2 ++ [.div w signed .t0]
  | .iret => if ctx.protectedMode then [] else [.iret w]
  | .fpu => [.interpret (f.inst.nextIp ctx.code32)]
  | .jmp _ | .jcc .. | .nop | .callback _ | .other | .invalid => []

/-- How an instruction that follows `count` others leaves. -/
def departure (count : Nat) (f : Fetched) : List MicroOp :=
  match f.inst.kind with
  | .jmp target | .call target => charge (count + 1) ++ [.act (.setEip (target &&& ctx.ipMask)), link ctx .first]
  | .jcc cond target =>
    charge (count + 1) ++
      [.jumpIf cond 0, .act (.setEip (f.inst.nextIp ctx.code32)), link ctx .first, .bind 0,
        .act (.setEip (target &&& ctx.ipMask)), link ctx .second]
  | .ret _ => charge (count + 1) ++ [.exit .normal]
  | .iret => if ctx.protectedMode then bail f.inst.ip count .opcode else charge (count + 1) ++ [.exit .iret]
  | .callback n =>
    charge (count + 1) ++
      [.act (.setEip (f.inst.nextIp ctx.code32)), .act (.setCallback n.toUInt32), .exit .callback]
  | .other => bail f.inst.ip count .opcode
  | .invalid => bail f.inst.ip count .opcodeFull
  | _ => []

theorem publish_map (eip : UInt32) (as : List Action) : publish eip (as.map .act) = (publishActions eip as).map .act := by
  induction as with
  | nil => rfl
  | cons a as ih =>
      rw [List.map_cons, publish, publishActions, callsHelper]
      split
      · rfl
      · rw [ih, List.map_cons]

/-- Nothing is published before operations that call no helper. -/
theorem publish_of_quiet (eip : UInt32) {ops : List MicroOp} (hops : ∀ op ∈ ops, op.callsHelper = false) : publish eip ops = ops := by
  induction ops with
  | nil => rfl
  | cons op ops ih =>
      rw [publish.eq_2, hops op List.mem_cons_self, ih fun op' hop => hops op' (List.mem_cons_of_mem _ hop)]
      rfl

theorem publish_append (eip : UInt32) (xs : List MicroOp) {ys : List MicroOp} (hys : ∀ op ∈ ys, op.callsHelper = false) :
    publish eip (xs ++ ys) = publish eip xs ++ ys := by
  induction xs with
  | nil => exact publish_of_quiet eip hys
  | cons op xs ih =>
      rw [List.cons_append, publish.eq_2, publish.eq_2, ih]
      split <;> rfl

theorem callsHelper_charge (n : Nat) : ∀ op ∈ charge n, op.callsHelper = false := by
  unfold charge
  split <;> simp [MicroOp.callsHelper, Action.callsHelper]

theorem callsHelper_departure (count : Nat) (f : Fetched) : ∀ op ∈ departure ctx count f, op.callsHelper = false := by
  intro op hop
  unfold departure at hop
  cases hkind : f.inst.kind
  all_goals
    rw [hkind] at hop
    dsimp only at hop
  case iret =>
    split at hop
    all_goals
      rcases List.mem_append.1 hop with hop | hop
      · exact callsHelper_charge _ op hop
      · fin_cases hop
        all_goals rfl
  case mov | alu | unary | lea | push | pop | div | nop | fpu => cases hop
  all_goals
    rcases List.mem_append.1 hop with hop | hop
    · exact callsHelper_charge _ op hop
    · fin_cases hop <;> rfl

theorem instruction_eq (count : Nat) (f : Fetched) :
    instruction ctx count f = (publishActions f.inst.ip (actions ctx f)).map .act ++ departure ctx count f := by
  rw [← publish_map, ← publish_append _ _ (callsHelper_departure ctx count f)]
  unfold instruction actions departure
  dsimp only
  cases f.inst.kind with
  | mov dst src => cases dst <;> simp
  | iret => by_cases hprotected : ctx.protectedMode = true <;> simp [hprotected]
  | _ => simp

/-! ### Blocks are well-formed -/

/-- The last operations of a block: one that leaves, or a jump over one that leaves to another. -/
def Closing (ops : List MicroOp) : Prop :=
  (∃ op, op.leaves = true ∧ ops = [op]) ∨
    ∃ cond eip eip' slot slot' entry entry', ops =
      [.jumpIf cond 0, .act (.setEip eip), .link slot entry, .bind 0, .act (.setEip eip'), .link slot' entry']

/-- Actions and what leaves. -/
def Shaped (ops : List MicroOp) : Prop :=
  ∃ (as : List Action) (last : List MicroOp), Closing last ∧ ops = as.map .act ++ last

theorem Shaped.actions {ops : List MicroOp} (h : Shaped ops) (as : List Action) : Shaped (as.map .act ++ ops) := by
  obtain ⟨as', last, hlast, rfl⟩ := h
  exact ⟨as ++ as', last, hlast, by rw [List.map_append, List.append_assoc]⟩

theorem Shaped.charge {ops : List MicroOp} (h : Shaped ops) (n : Nat) : Shaped (charge n ++ ops) := by
  unfold Lowering.charge
  split
  · exact h
  · exact h.actions [.subCycles n.toUInt32]

theorem Shaped.leaving (as : List Action) {op : MicroOp} (hop : op.leaves = true) : Shaped (as.map .act ++ [op]) :=
  ⟨as, [op], .inl ⟨op, hop, rfl⟩, rfl⟩

theorem shaped_departure {f : Fetched} (h : f.inst.endsBlock = true) (count : Nat) : Shaped (departure ctx count f) := by
  unfold Instruction.endsBlock at h
  unfold departure bail
  cases hkind : f.inst.kind
  all_goals
    rw [hkind] at h
    dsimp only at h ⊢
  case mov | alu | unary | lea | push | pop | div | nop | fpu => cases h
  case jmp => exact (Shaped.leaving [_] rfl).charge _
  case jcc => exact Shaped.charge ⟨[], _, .inr ⟨_, _, _, _, _, _, _, rfl⟩, rfl⟩ _
  case call => exact (Shaped.leaving [_] rfl).charge _
  case ret => exact (Shaped.leaving [] rfl).charge _
  case iret =>
    split
    · exact (Shaped.leaving [_] rfl).charge _
    · exact (Shaped.leaving [] rfl).charge _
  case callback => exact (Shaped.leaving [_, _] rfl).charge _
  case other => exact (Shaped.leaving [_] rfl).charge _
  case invalid => exact (Shaped.leaving [_] rfl).charge _

theorem departure_eq_nil {f : Fetched} (h : f.inst.endsBlock = false) (count : Nat) : departure ctx count f = [] := by
  unfold Instruction.endsBlock at h
  unfold departure
  cases hkind : f.inst.kind
  case jmp | jcc | call | ret | iret | callback | other | invalid =>
    rw [hkind] at h
    cases h
  all_goals rfl

theorem shaped_ending (count : Nat) {stop : TraceEnd} (h : stop ≠ .terminal) : Shaped (ending ctx count stop) := by
  cases stop with
  | terminal => exact absurd rfl h
  | unfetchable eip =>
      rw [ending]
      split
      · exact Shaped.leaving [_] rfl
      · exact (Shaped.leaving [_] rfl).charge _
  | full eip => exact (Shaped.leaving [_] rfl).charge _

theorem shaped_instructions {code32 : Bool} {eip : UInt32} {insts : List Fetched} {stop : TraceEnd}
    (h : Follows code32 eip insts stop) (count : Nat) :
    Shaped (instructions ctx count insts ++ ending ctx (count + insts.length) stop) := by
  induction insts generalizing eip count with
  | nil =>
      apply shaped_ending
      rintro rfl
      rcases h with h | h <;> cases h
  | cons f insts ih =>
      obtain ⟨-, hrest⟩ := h
      rw [instructions, instruction_eq, List.append_assoc, List.append_assoc]
      apply Shaped.actions
      by_cases hends : f.inst.endsBlock = true
      · rw [if_pos hends] at hrest
        obtain ⟨rfl, rfl⟩ := hrest
        rw [instructions, ending, List.append_nil, List.append_nil]
        exact shaped_departure ctx hends count
      · rw [if_neg hends] at hrest
        have hlength : count + (f :: insts).length = count + 1 + insts.length := by
          rw [List.length_cons]
          omega
        rw [departure_eq_nil ctx (Bool.eq_false_iff.2 hends), List.nil_append, hlength]
        exact ih hrest (count + 1)

theorem wellFormed_of_shaped {ops : List MicroOp} (h : Shaped ops) : WellFormed ops := by
  obtain ⟨as, last, hlast, rfl⟩ := h
  have hbind (l : Label) : (as.map MicroOp.act).count (.bind l) = 0 := by
    apply List.count_eq_zero.2
    simp
  refine ⟨?_, fun cond l hjump => ?_⟩
  · rcases hlast with ⟨op, hop, rfl⟩ | ⟨cond, eip, eip', slot, slot', entry, entry', rfl⟩
    · exact ⟨op, List.getLast?_concat, hop⟩
    · exact ⟨.link slot' entry', by simp, rfl⟩
  · rw [List.count_append, hbind, Nat.zero_add]
    rcases hlast with ⟨op, hop, rfl⟩ | ⟨cond', eip, eip', slot, slot', entry, entry', rfl⟩
    · simp only [List.mem_append, List.mem_map, reduceCtorEq, and_false, exists_false, List.mem_singleton, false_or] at hjump
      rw [← hjump] at hop
      cases hop
    · have hl : cond = cond' ∧ l = 0 := by simpa using hjump
      rw [hl.2]
      rfl

/-- Only conditional jumps bind a label. -/
theorem bind_mem_departure {l : Label} {count : Nat} {f : Fetched} (h : .bind l ∈ departure ctx count f) :
    l = 0 ∧ ∃ cond target, f.inst.kind = .jcc cond target := by
  have hcharge (n : Nat) : .bind l ∉ charge n := by
    unfold charge
    split <;> simp
  unfold departure bail Lowering.link at h
  cases hkind : f.inst.kind
  all_goals
    rw [hkind] at h
    dsimp only at h
  case jcc cond target =>
    refine ⟨?_, cond, target, rfl⟩
    simpa [hcharge] using h
  case iret => split at h <;> simp [hcharge] at h
  all_goals simp [hcharge] at h

theorem bind_mem_instructions {l : Label} {count : Nat} {insts : List Fetched} (h : .bind l ∈ instructions ctx count insts) :
    l = 0 ∧ ∃ f ∈ insts, ∃ cond target, f.inst.kind = .jcc cond target := by
  induction insts generalizing count with
  | nil => cases h
  | cons f insts ih =>
      rw [instructions, instruction_eq, List.mem_append, List.mem_append] at h
      rcases h with (h | h) | h
      · simp at h
      · obtain ⟨hl, hkind⟩ := bind_mem_departure ctx h
        exact ⟨hl, f, List.mem_cons_self, hkind⟩
      · obtain ⟨hl, f', hf', hkind⟩ := ih h
        exact ⟨hl, f', List.mem_cons_of_mem _ hf', hkind⟩

theorem bind_not_mem_ending (l : Label) (count : Nat) (stop : TraceEnd) : .bind l ∉ ending ctx count stop := by
  have hcharge (n : Nat) : .bind l ∉ charge n := by
    unfold charge
    split <;> simp
  unfold ending Lowering.link
  split
  · simp
  · split <;> simp [hcharge]
  · simp [hcharge]

theorem lt_labels {l : Label} {t : Trace} (h : .bind l ∈ block ctx t) : l < labels t := by
  unfold block at h
  rw [List.mem_cons, List.mem_append] at h
  rcases h with h | h | h
  · cases h
  · obtain ⟨rfl, f, hf, cond, target, hkind⟩ := bind_mem_instructions ctx h
    unfold labels
    apply List.length_pos_of_mem
    apply List.mem_filter.2 ⟨hf, ?_⟩
    rw [hkind]
  · exact absurd h (bind_not_mem_ending ctx l _ _)

/-! ### Blocks enter themselves only, and leave through their own slots -/

/-- An operation that enters no block, and if it is a link goes through a slot of the block. -/
def Inner : MicroOp → Prop
  | .act (.enter _) => False
  | .link _ entry => ∃ slot, entry = ctx.entry slot
  | _ => True

theorem inner_charge (n : Nat) : ∀ op ∈ charge n, Inner ctx op := by
  unfold charge
  split <;> simp [Inner]

theorem inner_read (hotImm : Option UInt32) (op : Operand) (w : Width) (dst addrTmp : Tmp) :
    ∀ a ∈ read hotImm op w dst addrTmp, Inner ctx (.act a) := by
  unfold read immediate address
  cases op <;> cases hotImm <;> simp [Inner]

theorem inner_write (op : Operand) (w : Width) (src addrTmp : Tmp) : ∀ a ∈ write op w src addrTmp, Inner ctx (.act a) := by
  unfold write
  cases op <;> simp [Inner]

theorem inner_push (w : Width) : ∀ a ∈ push ctx w, Inner ctx (.act a) := by
  unfold push wrapStack
  split <;> simp [Inner]

theorem inner_pop (w : Width) (extra : UInt32) : ∀ a ∈ pop ctx w extra, Inner ctx (.act a) := by
  unfold pop wrapStack
  split <;> simp [Inner]

theorem inner_actions (f : Fetched) : ∀ a ∈ actions ctx f, Inner ctx (.act a) := by
  have hread := inner_read ctx f.hotImm
  have hwrite := inner_write ctx
  have hpush := inner_push ctx
  have hpop := inner_pop ctx
  unfold actions
  cases f.inst.kind with
  | mov dst src =>
      dsimp only
      rw [List.forall_mem_append, List.forall_mem_append]
      refine ⟨⟨?_, hread _ _ _ _⟩, hwrite _ _ _ _⟩
      cases dst <;> simp [Inner, address]
  | alu op dst src =>
      dsimp only
      rw [List.forall_mem_append, List.forall_mem_append, List.forall_mem_append]
      refine ⟨⟨⟨hread _ _ _ _, hread _ _ _ _⟩, by simp [Inner]⟩, ?_⟩
      split
      · exact hwrite _ _ _ _
      · simp
  | unary op dst =>
      dsimp only
      rw [List.forall_mem_append, List.forall_mem_append]
      exact ⟨⟨hread _ _ _ _, by simp [Inner]⟩, hwrite _ _ _ _⟩
  | lea dst addr => simp [Inner]
  | push src => exact List.forall_mem_append.2 ⟨hread _ _ _ _, hpush _⟩
  | pop dst => exact List.forall_mem_append.2 ⟨hpop _ _, by simp [Inner]⟩
  | call target => exact List.forall_mem_cons.2 ⟨trivial, hpush _⟩
  | ret extra => exact List.forall_mem_append.2 ⟨hpop _ _, by simp [Inner]⟩
  | div signed src => exact List.forall_mem_append.2 ⟨hread _ _ _ _, by simp [Inner]⟩
  | iret =>
      dsimp only
      split <;> simp [Inner]
  | _ => simp [Inner]

theorem inner_publishActions {eip : UInt32} {as : List Action} (h : ∀ a ∈ as, Inner ctx (.act a)) :
    ∀ a ∈ publishActions eip as, Inner ctx (.act a) := by
  induction as with
  | nil => exact h
  | cons a as ih =>
      rw [publishActions]
      split
      · exact List.forall_mem_cons.2 ⟨trivial, h⟩
      · exact List.forall_mem_cons.2 ⟨h a List.mem_cons_self, ih fun a' ha' => h a' (List.mem_cons_of_mem a ha')⟩

theorem inner_departure (count : Nat) (f : Fetched) : ∀ op ∈ departure ctx count f, Inner ctx op := by
  have hcharge := inner_charge ctx
  have hbail : ∀ eip exit, ∀ op ∈ bail eip count exit, Inner ctx op := fun eip exit =>
    List.forall_mem_append.2 ⟨hcharge count, by simp [Inner]⟩
  unfold departure
  cases f.inst.kind with
  | iret =>
      dsimp only
      split
      · exact hbail _ _
      · exact List.forall_mem_append.2 ⟨hcharge _, by simp [Inner]⟩
  | other => exact hbail _ _
  | invalid => exact hbail _ _
  | jmp target => exact List.forall_mem_append.2 ⟨hcharge _, by simp [Inner, Lowering.link]⟩
  | jcc cond target => exact List.forall_mem_append.2 ⟨hcharge _, by simp [Inner, Lowering.link]⟩
  | call target => exact List.forall_mem_append.2 ⟨hcharge _, by simp [Inner, Lowering.link]⟩
  | ret extra => exact List.forall_mem_append.2 ⟨hcharge _, by simp [Inner]⟩
  | callback n => exact List.forall_mem_append.2 ⟨hcharge _, by simp [Inner]⟩
  | _ => simp

theorem inner_instructions (count : Nat) (insts : List Fetched) : ∀ op ∈ instructions ctx count insts, Inner ctx op := by
  induction insts generalizing count with
  | nil => simp [instructions]
  | cons f insts ih =>
      rw [instructions, instruction_eq, List.forall_mem_append, List.forall_mem_append]
      refine ⟨⟨?_, inner_departure ctx count f⟩, ih (count + 1)⟩
      simpa using inner_publishActions ctx (inner_actions ctx f)

theorem inner_ending (count : Nat) (stop : TraceEnd) : ∀ op ∈ ending ctx count stop, Inner ctx op := by
  have hcharge := inner_charge ctx
  unfold ending
  split
  · simp
  · split
    · simp [Inner]
    · exact List.forall_mem_append.2 ⟨hcharge _, by simp [Inner, Lowering.link]⟩
  · exact List.forall_mem_append.2 ⟨hcharge _, by simp [Inner, Lowering.link]⟩

/-- A block enters itself first. -/
theorem exists_block_eq (t : Trace) :
    ∃ tail, block ctx t = .act (.enter ctx.block.toUInt32) :: tail ∧ ∀ op ∈ tail, Inner ctx op :=
  ⟨_, rfl, List.forall_mem_append.2 ⟨inner_instructions ctx 0 t.insts, inner_ending ctx t.insts.length t.stop⟩⟩

/-- A trace that is well put together lowers to a block. -/
theorem shaped_block {code32 : Bool} {eip : UInt32} {t : Trace} (h : Follows code32 eip t.insts t.stop) : Shaped (block ctx t) := by
  have hshaped := shaped_instructions ctx h 0
  rw [Nat.zero_add] at hshaped
  exact hshaped.actions [.enter ctx.block.toUInt32]

end Lowering

/-! ### Traces follow the instruction pointer -/

namespace Scan

variable {site : Site} {s s' : Scan}

/-- What is decoded for a block begins on one of its two pages. -/
theorem decodeAt_some {eip linear : UInt32} {inst : Instruction} (h : s.decodeAt site eip linear = .ok (.ok (some inst), s')) :
    (pageOf linear = site.linearPage ∨ pageOf linear = site.linearPage + 1) ∧
      ∃ bytes, decode bytes eip site.cpu.codeBig = .ok inst := by
  generalize hr : (.ok (some inst) : Except CoreError (Option Instruction)) = r at h
  cases decodeAt_cases h with
  | first hpage hdecode =>
      cases hr
      exact ⟨.inl hpage, _, hdecode⟩
  | scarce | alone | elsewhere => cases hr
  | across hpage => exact ⟨.inl hpage, _, eq_ok_of_toOption (Except.ok.inj hr).symm⟩
  | second hpage => exact ⟨.inr hpage, _, eq_ok_of_toOption (Except.ok.inj hr).symm⟩

/-- An instruction that is fetched for a block. -/
structure Nearby (site : Site) (inst : Instruction) : Prop where
  page : pageOf (site.cpu.base .cs + inst.ip) = site.linearPage ∨ pageOf (site.cpu.base .cs + inst.ip) = site.linearPage + 1
  pos : 0 < inst.len
  le : inst.len ≤ Encoding.maxLength

/-- An instruction is fetched as it is decoded, and its immediate marked if it changes often. -/
theorem decodeAt_of_fetch {eip : UInt32} {f : Fetched} (h : s.fetch site eip = .ok (.ok (some f), s')) :
    ∃ s₁, s.decodeAt site eip (site.cpu.base .cs + eip) = .ok (.ok (some f.inst), s₁) ∧
      f.hotImm = hotImmediate site s₁.cache f.inst (site.cpu.base .cs + eip) := by
  cases fetch_cases h with
  | found hdecode => exact ⟨_, hdecode, rfl⟩

theorem fetch_some {eip : UInt32} {f : Fetched} (h : s.fetch site eip = .ok (.ok (some f), s')) :
    f.inst.ip = eip ∧ Nearby site f.inst := by
  obtain ⟨s₁, hdecode, -⟩ := decodeAt_of_fetch h
  obtain ⟨hpage, bytes, hbytes⟩ := decodeAt_some hdecode
  obtain ⟨hip, hpos, -, hmax, -⟩ := decode_ok hbytes
  exact ⟨hip, by rw [hip]; exact hpage, hpos, hmax⟩

theorem ip_of_fetch {eip : UInt32} {f : Fetched} (h : s.fetch site eip = .ok (.ok (some f), s')) : f.inst.ip = eip :=
  (fetch_some h).1

/-- Every instruction of a trace was fetched, in a state with all that fetching keeps. -/
theorem Takes.fetched {I : Scan → Prop} (hkeeps : ∀ {s s' eip f}, I s → s.fetch site eip = .ok (.ok (some f), s') → I s')
    {n : Nat} {eip : UInt32} {r : Except CoreError Trace} (h : Takes site n eip s r s') (hs : I s) {t : Trace} (hr : r = .ok t) :
    ∀ f ∈ t.insts, ∃ s₁ s₂ eip, I s₁ ∧ s₁.fetch site eip = .ok (.ok (some f), s₂) := by
  induction h generalizing t with
  | scarce => cases hr
  | missing =>
      cases hr
      exact List.forall_mem_nil _
  | terminal hfetch | full hfetch =>
      cases hr
      exact List.forall_mem_singleton.2 ⟨_, _, _, hs, hfetch⟩
  | @more _ _ _ _ _ _ r hfetch _ _ ih =>
      cases r with
      | error => cases hr
      | ok t =>
          cases hr
          exact List.forall_mem_cons.2 ⟨⟨_, _, _, hs, hfetch⟩, ih (hkeeps hs hfetch) rfl⟩

theorem fetch_of_take {I : Scan → Prop} (hkeeps : ∀ {s s' eip f}, I s → s.fetch site eip = .ok (.ok (some f), s') → I s') (hs : I s)
    {n : Nat} {eip : UInt32} {t : Trace} (h : s.take site n eip = .ok (.ok t, s')) :
    ∀ f ∈ t.insts, ∃ s₁ s₂ eip, I s₁ ∧ s₁.fetch site eip = .ok (.ok (some f), s₂) :=
  (take_cases h).fetched hkeeps hs rfl

theorem nearby_of_take {n : Nat} {eip : UInt32} {t : Trace} (h : s.take site n eip = .ok (.ok t, s')) :
    ∀ f ∈ t.insts, Nearby site f.inst := by
  intro f hf
  obtain ⟨s₁, s₂, eip, -, hfetch⟩ := fetch_of_take (I := fun _ => True) (fun _ _ => trivial) trivial h f hf
  exact (fetch_some hfetch).2

/-- A trace is empty only if its first instruction cannot be fetched. -/
theorem stop_of_take_nil {n : Nat} {eip : UInt32} {t : Trace} (h : s.take site n eip = .ok (.ok t, s')) (hinsts : t.insts = []) :
    t.stop = .unfetchable eip := by
  generalize hr : (.ok t : Except CoreError Trace) = r at h
  cases take_cases h with
  | scarce => cases hr
  | missing =>
      cases hr
      rfl
  | terminal | full =>
      cases hr
      cases hinsts
  | @more _ _ _ _ _ _ r =>
      cases r with
      | error => cases hr
      | ok =>
          cases hr
          cases hinsts

theorem Takes.follows {n : Nat} {eip : UInt32} {r : Except CoreError Trace} (h : Takes site n eip s r s') {t : Trace}
    (hr : r = .ok t) : Follows site.cpu.codeBig eip t.insts t.stop := by
  induction h generalizing t with
  | scarce => cases hr
  | missing =>
      cases hr
      exact .inl rfl
  | terminal hfetch hends =>
      cases hr
      exact ⟨ip_of_fetch hfetch, by rw [if_pos hends]; exact ⟨rfl, rfl⟩⟩
  | full hfetch hends =>
      cases hr
      exact ⟨ip_of_fetch hfetch, by rw [if_neg hends]; exact .inr rfl⟩
  | @more _ _ _ _ _ _ r hfetch hends _ ih =>
      cases r with
      | error => cases hr
      | ok t =>
          cases hr
          exact ⟨ip_of_fetch hfetch, by rw [if_neg hends]; exact ih rfl⟩

theorem follows_of_take {n : Nat} {eip : UInt32} {t : Trace} (h : s.take site n eip = .ok (.ok t, s')) :
    Follows site.cpu.codeBig eip t.insts t.stop :=
  (take_cases h).follows rfl

end Scan

end Recompiler
