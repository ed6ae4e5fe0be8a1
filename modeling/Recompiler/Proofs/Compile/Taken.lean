import Recompiler.Compile.Trace

/-! The ways a trace is taken. Each part of a scan is inverted once, case by case; what a scan keeps is then shown by
going through the cases, and for a whole trace by induction on how it was taken. -/

namespace Recompiler

/-- The trace goes on after an instruction. -/
def Trace.cons (f : Fetched) (t : Trace) : Trace :=
  ⟨f :: t.insts, t.stop⟩

theorem Trace.eq_cons_of_map {r : Except CoreError Trace} {f : Fetched} {t' : Trace} (h : r.map (.cons f) = .ok t') :
    ∃ t, r = .ok t ∧ t' = t.cons f := by
  cases r with
  | error err => cases h
  | ok t => exact ⟨t, rfl, (Except.ok.inj h).symm⟩

theorem eq_ok_of_toOption {ε α : Type} {x : Except ε α} {a : α} (h : x.toOption = some a) : x = .ok a := by
  cases x with
  | error e => cases h
  | ok b => rw [Option.some.inj h]

namespace Scan

variable {site : Site} {s s' : Scan} {eip linear : UInt32}

/-! ### The companion -/

/-- The ways a scan comes by its companion, or by none. -/
inductive Seeks (site : Site) : Scan → Except CoreError (Option Companion) → Scan → Prop where
  /-- It has one. -/
  | known (c : Cache) (mem : Memory) (o : Companion) : Seeks site ⟨c, mem, some o⟩ (.ok (some o)) ⟨c, mem, some o⟩
  /-- The second page may not hold code, or it is missing. -/
  | refused {c c' : Cache} {mem mem' : Memory} {r : Except PageFault (Option MonitorId)}
      (hsearch : c.codePage mem (pageBase (site.linearPage + 1)) site.cpu.codeBig (some site.monitor) = .ok (r, mem', c'))
      (hr : ∀ m, r ≠ .ok (some m)) : Seeks site ⟨c, mem, none⟩ (.ok none) ⟨c', mem', none⟩
  /-- There is no descriptor. -/
  | scarce {c c' : Cache} {mem mem' : Memory} {m : MonitorId} {err : CoreError}
      (hsearch : c.codePage mem (pageBase (site.linearPage + 1)) site.cpu.codeBig (some site.monitor) =
        .ok (.ok (some m), mem', c'))
      (halloc : c'.allocate = .error err) : Seeks site ⟨c, mem, none⟩ (.error err) ⟨c', mem', none⟩
  /-- It is created. -/
  | created {c c' d : Cache} {mem mem' : Memory} {o : Companion}
      (hsearch : c.codePage mem (pageBase (site.linearPage + 1)) site.cpu.codeBig (some site.monitor) =
        .ok (.ok (some o.monitor), mem', c'))
      (halloc : c'.allocate = .ok (o.block, d))
      (hpage : (((d.addCompanion o.monitor o.block).pair site.block o.block).monitor o.monitor).page = o.page) :
      Seeks site ⟨c, mem, none⟩ (.ok (some o)) ⟨(d.addCompanion o.monitor o.block).pair site.block o.block, mem', some o⟩

theorem needCompanion_cases {r : Except CoreError (Option Companion)} (h : s.needCompanion site = .ok (r, s')) :
    Seeks site s r s' := by
  unfold needCompanion at h
  split at h
  · cases h
    exact .known ..
  · split at h
    · cases h
    · rename_i hsearch
      cases h
      exact .refused hsearch (by simp)
    · rename_i hsearch
      cases h
      exact .refused hsearch (by simp)
    · rename_i hsearch
      split at h
      · rename_i halloc
        cases h
        exact .scarce hsearch halloc
      · rename_i halloc
        cases h
        exact .created (o := ⟨_, _, _⟩) hsearch halloc rfl

/-! ### One instruction -/

/-- The ways an instruction is decoded, or not. -/
inductive Decodes (site : Site) (eip linear : UInt32) (s : Scan) : Except CoreError (Option Instruction) → Scan → Prop where
  /-- It is all on the first page. -/
  | first {inst : Instruction} (hpage : pageOf linear = site.linearPage)
      (hdecode : decode (pageBytes s.mem site.page (pageOffset linear) Encoding.maxLength) eip site.cpu.codeBig = .ok inst) :
      Decodes site eip linear s (.ok (some inst)) s
  /-- There is no descriptor for the second page. -/
  | scarce {err : CoreError} {s' : Scan} (hneed : s.needCompanion site = .ok (.error err, s')) :
      Decodes site eip linear s (.error err) s'
  /-- There is no second page. -/
  | alone {s' : Scan} (hneed : s.needCompanion site = .ok (.ok none, s')) : Decodes site eip linear s (.ok none) s'
  /-- It goes on to the second page. -/
  | across {o : Companion} {s' : Scan} {err : DecodeError} (hpage : pageOf linear = site.linearPage)
      (hshort : decode (pageBytes s.mem site.page (pageOffset linear) Encoding.maxLength) eip site.cpu.codeBig = .error err)
      (hneed : s.needCompanion site = .ok (.ok (some o), s')) :
      Decodes site eip linear s
        (.ok (decode (pageBytes s.mem site.page (pageOffset linear) Encoding.maxLength ++ pageBytes s'.mem o.page 0
          (Encoding.maxLength - (pageBytes s.mem site.page (pageOffset linear) Encoding.maxLength).length)) eip
          site.cpu.codeBig).toOption) s'
  /-- It begins on the second page. -/
  | second {o : Companion} {s' : Scan} (hpage : pageOf linear = site.linearPage + 1)
      (hneed : s.needCompanion site = .ok (.ok (some o), s')) :
      Decodes site eip linear s
        (.ok (decode (pageBytes s'.mem o.page (pageOffset linear) Encoding.maxLength) eip site.cpu.codeBig).toOption) s'
  /-- It is on another page. -/
  | elsewhere (hfirst : pageOf linear ≠ site.linearPage) (hsecond : pageOf linear ≠ site.linearPage + 1) :
      Decodes site eip linear s (.ok none) s

theorem decodeAt_cases {r : Except CoreError (Option Instruction)} (h : s.decodeAt site eip linear = .ok (r, s')) :
    Decodes site eip linear s r s' := by
  unfold decodeAt at h
  dsimp only at h
  split at h
  · rename_i hpage
    split at h
    · rename_i hdecode
      cases h
      exact .first hpage hdecode
    · rename_i hshort
      split at h
      · cases h
      · rename_i hneed
        cases h
        exact .scarce hneed
      · rename_i hneed
        cases h
        exact .alone hneed
      · rename_i hneed
        cases h
        exact .across hpage hshort hneed
  · rename_i hfirst
    split at h
    · rename_i hpage
      split at h
      · cases h
      · rename_i hneed
        cases h
        exact .scarce hneed
      · rename_i hneed
        cases h
        exact .alone hneed
      · rename_i hneed
        cases h
        exact .second hpage hneed
    · rename_i hsecond
      cases h
      exact .elsewhere hfirst hsecond

/-- The ways an instruction is fetched, or not. -/
inductive Fetches (site : Site) (eip : UInt32) (s : Scan) : Except CoreError (Option Fetched) → Scan → Prop where
  | scarce {err : CoreError} {s' : Scan} (hdecode : s.decodeAt site eip (site.cpu.base .cs + eip) = .ok (.error err, s')) :
      Fetches site eip s (.error err) s'
  | missing {s' : Scan} (hdecode : s.decodeAt site eip (site.cpu.base .cs + eip) = .ok (.ok none, s')) :
      Fetches site eip s (.ok none) s'
  | found {inst : Instruction} {s₁ : Scan}
      (hdecode : s.decodeAt site eip (site.cpu.base .cs + eip) = .ok (.ok (some inst), s₁)) :
      Fetches site eip s (.ok (some ⟨inst, hotImmediate site s₁.cache inst (site.cpu.base .cs + eip)⟩))
        (s₁.cover site ⟨inst, hotImmediate site s₁.cache inst (site.cpu.base .cs + eip)⟩ (site.cpu.base .cs + eip))

theorem fetch_cases {r : Except CoreError (Option Fetched)} (h : s.fetch site eip = .ok (r, s')) :
    Fetches site eip s r s' := by
  unfold fetch at h
  dsimp only at h
  split at h
  · cases h
  · rename_i hdecode
    cases h
    exact .scarce hdecode
  · rename_i hdecode
    cases h
    exact .missing hdecode
  · rename_i hdecode
    cases h
    exact .found hdecode

/-! ### The trace -/

/-- The ways a trace is taken, or not. -/
inductive Takes (site : Site) : Nat → UInt32 → Scan → Except CoreError Trace → Scan → Prop where
  /-- A descriptor is lacking. -/
  | scarce {n : Nat} {eip : UInt32} {s s' : Scan} {err : CoreError} (hfetch : s.fetch site eip = .ok (.error err, s')) :
      Takes site n eip s (.error err) s'
  /-- There is no further instruction. -/
  | missing {n : Nat} {eip : UInt32} {s s' : Scan} (hfetch : s.fetch site eip = .ok (.ok none, s')) :
      Takes site n eip s (.ok ⟨[], .unfetchable eip⟩) s'
  /-- The instruction ends the block. -/
  | terminal {n : Nat} {eip : UInt32} {s s' : Scan} {f : Fetched} (hfetch : s.fetch site eip = .ok (.ok (some f), s'))
      (hends : f.inst.endsBlock = true) : Takes site n eip s (.ok ⟨[f], .terminal⟩) s'
  /-- The instruction is the last for which there is room. -/
  | full {eip : UInt32} {s s' : Scan} {f : Fetched} (hfetch : s.fetch site eip = .ok (.ok (some f), s'))
      (hends : ¬f.inst.endsBlock = true) :
      Takes site 0 eip s (.ok ⟨[f], .full (f.inst.nextIp site.cpu.codeBig)⟩) s'
  /-- The rest of the trace follows. -/
  | more {n : Nat} {eip : UInt32} {s s₁ s' : Scan} {f : Fetched} {r : Except CoreError Trace}
      (hfetch : s.fetch site eip = .ok (.ok (some f), s₁)) (hends : ¬f.inst.endsBlock = true)
      (hrest : Takes site n (f.inst.nextIp site.cpu.codeBig) s₁ r s') : Takes site (n + 1) eip s (r.map (.cons f)) s'

theorem take_cases {n : Nat} {r : Except CoreError Trace} (h : Scan.take site n eip s = .ok (r, s')) :
    Takes site n eip s r s' := by
  induction n generalizing eip s r with
  | zero =>
      unfold Scan.take at h
      split at h
      · cases h
      · rename_i hfetch
        cases h
        exact .scarce hfetch
      · rename_i hfetch
        cases h
        exact .missing hfetch
      · rename_i hfetch
        dsimp only at h
        split at h
        · rename_i hends
          cases h
          exact .terminal hfetch hends
        · rename_i hends
          cases h
          exact .full hfetch hends
  | succ n ih =>
      unfold Scan.take at h
      split at h
      · cases h
      · rename_i hfetch
        cases h
        exact .scarce hfetch
      · rename_i hfetch
        cases h
        exact .missing hfetch
      · rename_i hfetch
        dsimp only at h
        split at h
        · rename_i hends
          cases h
          exact .terminal hfetch hends
        · rename_i hends
          split at h
          · cases h
          · rename_i hrest
            cases h
            exact .more hfetch hends (ih hrest)
          · rename_i hrest
            cases h
            exact .more hfetch hends (ih hrest)

end Scan

end Recompiler
