import Recompiler.Proofs.Cache.Frame
import Recompiler.Proofs.Compile.Layout

/-! The phases of a compilation. Bytes are taken in without a change to the places of monitors; at most once the monitor
of the second page is looked for; and the rest of the compilation is as quiet as its beginning. -/

namespace Recompiler

open Cache

namespace Scan

variable {site : Site} {s s' s'' : Scan}

/-- The search for the monitor of the second page. -/
def search (site : Site) (mem : Memory) (c : Cache) : Except Abort (Except PageFault (Option MonitorId) × Memory × Cache) :=
  c.codePage mem (pageBase (site.linearPage + 1)) site.cpu.codeBig (some site.monitor)

/-- Bytes were taken in at most. -/
structure Taking (s s' : Scan) : Prop where
  quiet : Quiet s.cache s'.cache
  mem : s'.mem = s.mem
  companion : s'.companion = s.companion

/-- The monitor of the second page was looked for, once. -/
def Searched (site : Site) (s s' : Scan) : Prop :=
  ∃ c r c', Quiet s.cache c ∧ search site s.mem c = .ok (r, s'.mem, c') ∧ Quiet c' s'.cache

/-- What a part of a scan did that gave a result if `more` is right: it took in bytes at most, or it looked for the second
page. In the latter case there is a companion, or no result. -/
def Advances (site : Site) (more : Prop) (s s' : Scan) : Prop :=
  Taking s s' ∨ s.companion = none ∧ Searched site s s' ∧ (more → s'.companion.isSome = true)

namespace Taking

theorem refl (s : Scan) : Taking s s :=
  ⟨.refl _, rfl, rfl⟩

theorem trans (h : Taking s s') (h' : Taking s' s'') : Taking s s'' :=
  ⟨h.quiet.trans h'.quiet, h'.mem.trans h.mem, h'.companion.trans h.companion⟩

theorem searched (h : Taking s s') (h' : Searched site s' s'') : Searched site s s'' := by
  obtain ⟨c, r, c', hquiet, hsearch, hquiet'⟩ := h'
  exact ⟨c, r, c', h.quiet.trans hquiet, h.mem ▸ hsearch, hquiet'⟩

theorem coverByte (site : Site) (masked : Nat → Bool) (linear : UInt32) (s : Scan) :
    Taking s (s.coverByte site masked linear) := by
  by_cases hpage : pageOf linear = site.linearPage
  · rw [coverByte_first hpage]
    exact ⟨.takeByte .., rfl, rfl⟩
  · cases ho : s.companion with
    | some o =>
        rw [coverByte_second hpage ho]
        exact ⟨.takeByte .., rfl, rfl⟩
    | none =>
        obtain ⟨cache, mem, companion⟩ := s
        obtain rfl : companion = none := ho
        simp only [Scan.coverByte, hpage, if_false]
        exact refl _

theorem coverBytes (site : Site) (masked : Nat → Bool) (linear : UInt32) (offsets : List Nat) (s : Scan) :
    Taking s (offsets.foldl (fun s i => s.coverByte site masked (linear + i.toUInt32)) s) := by
  induction offsets generalizing s with
  | nil => exact refl s
  | cons i offsets ih => exact (coverByte site masked _ s).trans (ih _)

end Taking

theorem Searched.taking (h : Searched site s s') (h' : Taking s' s'') : Searched site s s'' := by
  obtain ⟨c, r, c', hquiet, hsearch, hquiet'⟩ := h
  exact ⟨c, r, c', hquiet, h'.mem ▸ hsearch, hquiet'.trans h'.quiet⟩

namespace Advances

variable {more more' : Prop}

theorem mono (h : Advances site more s s') (hmore : more' → more) : Advances site more' s s' :=
  h.imp_right fun ⟨hnone, hsearched, hsome⟩ => ⟨hnone, hsearched, fun hm => hsome (hmore hm)⟩

/-- Once the second page was looked for and there was a result, there is a companion and no further search. -/
theorem trans (h : Advances site True s s') (h' : Advances site more s' s'') : Advances site more s s'' := by
  rcases h with h | ⟨hnone, hsearched, hsome⟩
  · exact h'.imp h.trans fun ⟨hnone, hsearched, hsome⟩ => ⟨h.companion.symm.trans hnone, h.searched hsearched, hsome⟩
  · rcases h' with h' | ⟨hnone', -, -⟩
    · exact .inr ⟨hnone, hsearched.taking h', fun _ => by rw [h'.companion]; exact hsome trivial⟩
    · exact absurd (hsome trivial) (by rw [hnone']; simp)

theorem searched (h : Advances site more s s') : Quiet s.cache s'.cache ∨ Searched site s s' :=
  h.imp (·.quiet) (·.2.1)

theorem memory (h : Advances site more s s') : s'.mem.unreleased = s.mem.unreleased := by
  rcases h with h | ⟨-, ⟨c, r, c', -, hsearch, -⟩, -⟩
  · rw [h.mem]
  · exact codePage_memory hsearch

end Advances

theorem needCompanion_advances {r : Except CoreError (Option Companion)} (hr : s.needCompanion site = .ok (r, s')) :
    Advances site (∃ o, r = .ok (some o)) s s' := by
  cases needCompanion_cases hr with
  | known => exact .inl (.refl _)
  | refused hsearch | scarce hsearch => exact .inr ⟨rfl, ⟨_, _, _, .refl _, hsearch, .refl _⟩, by simp⟩
  | created hsearch halloc =>
      exact .inr ⟨rfl, ⟨_, _, _, .refl _, hsearch, ((Quiet.allocate halloc).trans (.addCompanion ..)).trans (.pair ..)⟩, fun _ => rfl⟩

theorem decodeAt_advances {eip linear : UInt32} {r : Except CoreError (Option Instruction)}
    (hr : s.decodeAt site eip linear = .ok (r, s')) : Advances site (∃ inst, r = .ok (some inst)) s s' := by
  cases decodeAt_cases hr with
  | first | elsewhere => exact .inl (.refl _)
  | scarce hneed | alone hneed => exact (needCompanion_advances hneed).mono (by simp)
  | across _ _ hneed => exact (needCompanion_advances hneed).mono (by simp)
  | second _ hneed => exact (needCompanion_advances hneed).mono (by simp)

theorem fetch_advances {eip : UInt32} {r : Except CoreError (Option Fetched)} (hr : s.fetch site eip = .ok (r, s')) :
    Advances site (∃ f, r = .ok (some f)) s s' := by
  cases fetch_cases hr with
  | scarce hdecode | missing hdecode => exact (decodeAt_advances hdecode).mono (by simp)
  | @found inst _ hdecode =>
      exact ((decodeAt_advances hdecode).mono fun _ => ⟨inst, rfl⟩).trans (.inl (.coverBytes _ _ _ _ _))

theorem take_advances {n : Nat} {eip : UInt32} {r : Except CoreError Trace} (hr : Scan.take site n eip s = .ok (r, s')) :
    Advances site False s s' := by
  have htakes := take_cases hr
  clear hr
  induction htakes with
  | scarce hfetch | missing hfetch => exact (fetch_advances hfetch).mono False.elim
  | terminal hfetch | full hfetch => exact (fetch_advances hfetch).mono False.elim
  | @more _ _ _ _ _ f _ hfetch _ _ ih => exact ((fetch_advances hfetch).mono fun _ : True => ⟨f, rfl⟩).trans ih

/-! ### Answers -/

/-- The search for the second page gives an answer, if it is made. -/
def Searchable (site : Site) (s : Scan) : Prop :=
  s.companion = none → ∀ c, Quiet s.cache c → ∃ out, search site s.mem c = .ok out

theorem Searchable.advances (h : Searchable site s) (ha : Advances site True s s') : Searchable site s' := by
  intro hnone c hc
  rcases ha with ha | ⟨-, -, hsome⟩
  · rw [ha.mem]
    exact h (ha.companion.symm.trans hnone) c (ha.quiet.trans hc)
  · exact absurd (hsome trivial) (by simp [hnone])

theorem Searchable.needCompanion (h : Searchable site s) : ∃ out, s.needCompanion site = .ok out := by
  obtain ⟨cache, mem, companion⟩ := s
  unfold Scan.needCompanion
  cases companion with
  | some o => exact ⟨_, rfl⟩
  | none =>
      obtain ⟨⟨r, mem', c'⟩, hout⟩ := h rfl cache (.refl cache)
      unfold search at hout
      dsimp only at hout ⊢
      rw [hout]
      rcases r with fault | (_ | m)
      · exact ⟨_, rfl⟩
      · exact ⟨_, rfl⟩
      · dsimp only
        split <;> exact ⟨_, rfl⟩

theorem Searchable.decodeAt (h : Searchable site s) (eip linear : UInt32) : ∃ out, s.decodeAt site eip linear = .ok out := by
  obtain ⟨⟨r, s₁⟩, hneed⟩ := h.needCompanion
  unfold Scan.decodeAt
  dsimp only
  rw [hneed]
  split
  · split
    · exact ⟨_, rfl⟩
    · rcases r with e | (_ | o) <;> exact ⟨_, rfl⟩
  · split
    · rcases r with e | (_ | o) <;> exact ⟨_, rfl⟩
    · exact ⟨_, rfl⟩

theorem Searchable.fetch (h : Searchable site s) (eip : UInt32) : ∃ out, s.fetch site eip = .ok out := by
  obtain ⟨⟨r, s₁⟩, hdecode⟩ := h.decodeAt eip (site.cpu.base .cs + eip)
  unfold Scan.fetch
  dsimp only
  rw [hdecode]
  rcases r with e | (_ | inst) <;> exact ⟨_, rfl⟩

/-- A trace can be taken if the search for the second page gives an answer. -/
theorem Searchable.take (h : Searchable site s) (n : Nat) (eip : UInt32) : ∃ out, Scan.take site n eip s = .ok out := by
  induction n generalizing s eip with
  | zero =>
      obtain ⟨⟨r, s₁⟩, hfetch⟩ := h.fetch eip
      unfold Scan.take
      rw [hfetch]
      rcases r with e | (_ | f)
      · exact ⟨_, rfl⟩
      · exact ⟨_, rfl⟩
      · dsimp only
        split <;> exact ⟨_, rfl⟩
  | succ n ih =>
      obtain ⟨⟨r, s₁⟩, hfetch⟩ := h.fetch eip
      unfold Scan.take
      rw [hfetch]
      rcases r with e | (_ | f)
      · exact ⟨_, rfl⟩
      · exact ⟨_, rfl⟩
      · obtain ⟨⟨r₂, s₂⟩, hrest⟩ := ih (h.advances ((fetch_advances hfetch).mono fun _ => ⟨f, rfl⟩)) (f.inst.nextIp site.cpu.codeBig)
        dsimp only
        split
        · exact ⟨_, rfl⟩
        · rw [hrest]
          rcases r₂ with e | t <;> exact ⟨_, rfl⟩

end Scan

namespace Compilation

variable {k : Compilation} {c' : Cache}

/-- Memory is as the scan left it, and a block is made from a trace. -/
theorem outcome_of_result {t : Except CoreError Trace} {s : Scan} (hout : k.outcome = .ok (t, s))
    {r : Except CoreError BlockId} {mem' : Memory} {code' : HostCode} (hr : k.result = .ok (r, mem', c', code')) :
    mem' = s.mem ∧ ∀ id, r = .ok id → t = .ok k.trace := by
  rw [result_eq, hout] at hr
  cases t with
  | error e =>
      cases hr
      exact ⟨rfl, by simp⟩
  | ok t =>
      have htrace : k.trace = t := by rw [trace, hout]
      dsimp only at hr
      split at hr
      · cases hr
      · cases hr
        exact ⟨rfl, fun _ _ => by rw [htrace]⟩

/-- A compilation makes no link: what a slot leads to afterwards, it led to when the span was opened. -/
theorem Pending.target_eq (h : k.Pending) (hc : k.cache.Sound) {r : Except CoreError BlockId} {mem' : Memory} {code' : HostCode}
    (hr : k.result = .ok (r, mem', c', code')) {x y : BlockId} {slot : Slot} (htarget : (c'.linkSlot x slot).target = some y) :
    (k.opened.linkSlot x slot).target = some y := by
  obtain ⟨t, s, hout, -, -, hquiet, -⟩ := h.settles hc hr
  have hopen : Quiet k.opened k.scan.cache := by
    unfold opened scan Compile.openSite
    generalize k.cache.openBlock = opened
    obtain ⟨id, d⟩ := opened
    refine .trans (.rewrite d id ?_ ?_) (.enlist _ k.monitor id _) <;> exact fun _ => rfl
  apply hopen.target
  have htarget := hquiet.target _ _ _ htarget
  rcases (Scan.take_advances hout).searched with htaking | ⟨c, r₁, c₁, hbefore, hsearch, hafter⟩
  · exact htaking.target _ _ _ htarget
  · exact hbefore.target _ _ _ ((Fades.codePage hsearch).target _ _ _ (hafter.target _ _ _ htarget))

end Compilation

end Recompiler
