import Recompiler.Proofs.Compile.Phases
import Recompiler.Proofs.Dispatch.Arena

/-! Releases of monitors, over whole sessions. Whatever a caller asks for, memory is told the page of each monitor that is
released, and of no other. -/

namespace Recompiler

open Cache

/-- Memory may change in any way, but only the cache tells it of releases. -/
def Regime.untold : Regime where
  begins _ := True
  may mem mem' := mem'.released = mem.released

/-- A compilation may look for the monitor of a second page, and otherwise leaves all monitors where they are. -/
theorem Compilation.Pending.announced {k : Compilation} (h : k.Pending) (hc : k.cache.Sound) {r : Except CoreError BlockId}
    {mem' : Memory} {c' : Cache} {code' : HostCode} (hr : k.result = .ok (r, mem', c', code')) :
    ∃ pages, Announced k.mem k.cache pages mem' c' := by
  obtain ⟨t, s, hout, -, -, hquiet, -⟩ := h.settles hc hr
  obtain ⟨rfl, -⟩ := outcome_of_result hout hr
  have hopen : Quiet k.cache k.scan.cache := .openSite k.cpu k.monitor k.cache
  rcases Scan.take_advances hout with htaking | ⟨-, ⟨c, r₁, c₁, hbefore, hsearch, hafter⟩, -⟩
  · have hall := (hopen.trans htaking.quiet).trans hquiet
    exact ⟨[], .of_stationed hall.toStationed (congrArg Memory.released htaking.mem)⟩
  · have hstationed := (hopen.trans hbefore).toStationed
    have hstart : Announced k.mem k.cache [] k.scan.mem c := .of_stationed hstationed rfl
    obtain ⟨pages, hfound⟩ := Announced.codePage (hc.watches.stationed hstationed) hsearch
    exact ⟨_, (hstart.trans hfound).remain (.of_stationed (hafter.trans hquiet).toStationed) rfl⟩

/-- From a state on, all releases are announced, whatever is done. -/
theorem Cache.Announced.sustained (mem₀ : Memory) (c₀ : Cache) :
    Sustained .untold (fun _ => True) fun _ mem c _ => Sound c ∧ ∃ pages, Announced mem₀ c₀ pages mem c where
  sound h := h.1
  change := by
    rintro log mem mem' c code ⟨hs, pages, h⟩ hmay
    exact ⟨hs, pages, h.retold hmay⟩
  stored := by
    rintro log mem mem' c c' code ⟨-, pages, h⟩ hsaved
    obtain ⟨pages', h'⟩ := hsaved.announced
    exact ⟨hsaved.sound, _, h.trans h'⟩
  link := by
    rintro log mem c code id slot target ⟨hs, pages, h⟩ hid htarget hfree
    exact ⟨hs.link hid htarget hfree, pages, h.remain (.of_stationed (.link c id slot target)) rfl⟩
  paged := by
    rintro log mem mem' c c' code page linear code32 r ⟨hs, pages, h⟩ hr hp
    obtain ⟨pages', h'⟩ := Announced.codePage hs.watches hr
    exact ⟨hp.sound, _, h.trans h'⟩
  compile := by
    rintro log k r mem' c' code' ⟨hs, pages, h⟩ hpending - hr
    obtain ⟨pages', h'⟩ := hpending.announced hs hr
    exact ⟨(hpending.laid hs hr).sound, _, h.trans h'⟩

/-! ### Sessions -/

/-- What a caller asks of a recompiler, and may do to the processor and the platform in between. -/
inductive Request (σ : Type) where
  | prepare
  | run (fuel : Nat)
  | execute (fuel : Nat) (id : BlockId)
  | write (linear : UInt32) (w : Width) (value : UInt32)
  | writeBytewise (linear : UInt32) (w : Width) (value : UInt32)
  | caller (cpu : Cpu) (host : σ)

namespace Machine

variable {σ : Type} {p : Platform σ} {R : Regime} {I : Condition} {log : List Compilation} {m m' : Machine σ}

/-- The machine after a request, whatever the answer. -/
def serve (p : Platform σ) (m : Machine σ) : Request σ → Except Abort (Machine σ)
  | .prepare => m.prepareBlock.map Prod.snd
  | .run fuel => (m.run p fuel).map Prod.snd
  | .execute fuel id => (m.executeBlock p fuel id).map Prod.snd
  | .write linear w value => .ok (m.write linear w value).2
  | .writeBytewise linear w value => .ok (m.writeBytewise linear w value).2
  | .caller cpu host => .ok { m with cpu, host }

theorem exists_of_map_snd {α : Type} {x : Except Abort (α × Machine σ)} (h : x.map Prod.snd = .ok m') : ∃ a, x = .ok (a, m') := by
  cases x with
  | error abort => cases h
  | ok out =>
      cases h
      exact ⟨out.1, rfl⟩

theorem acts_of_serve {request : Request σ} (hr : m.serve p request = .ok m') : ∃ new, Acts R p m new m' := by
  cases request with
  | prepare =>
      obtain ⟨r, hprepare⟩ := exists_of_map_snd hr
      exact ⟨_, .prepare hprepare⟩
  | run fuel =>
      obtain ⟨r, hrun⟩ := exists_of_map_snd hr
      exact ⟨_, .run hrun⟩
  | execute fuel id =>
      obtain ⟨r, hexecute⟩ := exists_of_map_snd hr
      exact ⟨_, .execute hexecute⟩
  | write linear w value =>
      cases hr
      exact ⟨_, .write linear w value⟩
  | writeBytewise linear w value =>
      cases hr
      exact ⟨_, .writeBytewise linear w value⟩
  | caller cpu host =>
      cases hr
      exact ⟨_, .caller cpu host⟩

/-- A sequence of requests. -/
theorem serves_keep (hI : Sustained R (fun _ => True) I) (hp : p.Confined R) (h : Keeps I log m) {requests : List (Request σ)}
    (hr : requests.foldlM (serve p) m = .ok m') : ∃ log', Keeps I log' m' := by
  induction requests generalizing m log with
  | nil =>
      cases hr
      exact ⟨log, h⟩
  | cons request requests ih =>
      rw [List.foldlM_cons] at hr
      cases hone : m.serve p request with
      | error abort =>
          rw [hone] at hr
          cases hr
      | ok m₁ =>
          rw [hone] at hr
          obtain ⟨new, hacts⟩ := acts_of_serve (R := R) hone
          exact ih (hacts.keeps hI hp h) hr

/-- Over any sequence of requests to prepare, run and execute blocks and to store to memory, in any state that can be
reached, memory is told the pages of the monitors that are released, in order, each when its monitor is released and no
other. So it is told as many as the count of releases grows by. -/
theorem every_release_announced (hp : p.Confined .untold) (h : History .untold p m log) {requests : List (Request σ)}
    (hr : requests.foldlM (serve p) m = .ok m') :
    ∃ res res' pages, m.core.resources = some res ∧ m'.core.resources = some res' ∧
      Announced m.mem res.cache pages m'.mem res'.cache ∧ m'.mem.released.toList = m.mem.released.toList ++ pages ∧
      res'.cache.stats.released = res.cache.stats.released + pages.length := by
  obtain ⟨res, hres, hhoused⟩ := h.keeps (Housed.upkeep _ fun _ => True) hp fun _ _ => trivial
  have hstart : Keeps (fun _ mem c _ => Sound c ∧ ∃ pages, Announced m.mem res.cache pages mem c) log m :=
    ⟨res, hres, hhoused.sound, [], .refl⟩
  obtain ⟨log', res', hres', -, pages, hannounced⟩ := serves_keep (Announced.sustained m.mem res.cache) hp hstart hr
  exact ⟨res, res', pages, hres, hres', hannounced, hannounced.told, hannounced.count⟩

/-- A page that is no longer to hold code is cleared when it is asked for code of the other size. -/
theorem codePage_barred {c : Cache} {mem : Memory} {m : MonitorId} (h : Watches c) {linear paddr : UInt32} {code32 : Bool}
    (hresolve : mem.resolve linear false = .ok paddr) (hflags : mem.pageFlags (pageOf paddr) = PageFlag.noCode)
    (hinst : (c.monitor m).installed = true) (hpage : (c.monitor m).page = pageOf paddr)
    (hcode32 : (c.monitor m).code32 ≠ code32) :
    c.codePage mem linear code32 none = .ok (.ok none, mem.release (pageOf paddr), c.clearRelease m) := by
  have hfound : c.monitorOf (pageOf paddr) = some m := (h.byPage _ _).mpr ⟨hinst, hpage⟩
  have hflags' : (mem.release (pageOf paddr)).pageFlags (pageOf paddr) = PageFlag.noCode := hflags
  have hbarred : (!PageFlag.has PageFlag.noCode PageFlag.readable || PageFlag.has PageFlag.noCode PageFlag.noCode) = true := by
    decide
  simp only [Cache.codePage, hresolve, hfound, if_neg hcode32, Cache.codePage.install, hflags', hbarred, if_true]

/-- The processor turns to such a page. -/
theorem serve_of_barred (p : Platform σ) {res : Resources} (hres : m.core.resources = some res) {cpu : Cpu} {mem : Memory} {c : Cache}
    (h : res.cache.codePage m.mem cpu.ipLinear cpu.codeBig none = .ok (.ok none, mem, c)) (host : σ) :
    [.caller cpu host, .prepare].foldlM (serve p) m =
      .ok ⟨{ m.core with resources := some ⟨c, res.code⟩ }, cpu, mem, host⟩ := by
  obtain ⟨⟨settings, resources, trap, stats⟩, cpu₀, mem₀, host₀⟩ := m
  obtain rfl : resources = some res := hres
  have hprepare : prepareBlock ⟨⟨settings, some res, trap, stats⟩, cpu, mem₀, host⟩ =
      .ok (.ok none, ⟨⟨settings, some ⟨c, res.code⟩, trap, stats⟩, cpu, mem, host⟩) := by
    simp only [prepareBlock, h]
  change ((prepareBlock _).map Prod.snd >>= pure) = _
  rw [hprepare]
  rfl

/-- The processor in code of 16 bits. -/
def flat16 : Cpu :=
  { Cpu.flat32 with codeBig := false }

/-- A jump to itself was compiled, and its page is no longer to hold code. The page loses its monitor when the processor
comes to it again, with code of the other size. -/
theorem every_release_announced_barred :
    ∃ (m m' : Machine Interpreter) (log : List Compilation) (res res' : Resources), History .untold Interpreter.platform m log ∧
      [.caller flat16 {}, .prepare].foldlM (serve Interpreter.platform) m = .ok m' ∧
      m.core.resources = some res ∧ m'.core.resources = some res' ∧ (res.cache.block 0).owner = some 0 ∧
      m'.mem.released = m.mem.released.push 0 ∧ Announced m.mem res.cache [0] m'.mem res'.cache ∧
      res'.cache.stats.released = res.cache.stats.released + 1 := by
  obtain ⟨id, mem, c, code, hcreate, hc⟩ := exists_created
    (r := Compile.createBlock .flat32 0 (onePage 0 [0xEB, 0xFE]) watchedCache scantCode)
    (fun mem c _ => { mem with flags := #[] }.resolve flat16.ipLinear false == .ok 0 && (c.monitor 0).installed &&
      (c.monitor 0).page == 0 && (c.monitor 0).code32 && (c.block 0).owner == some 0) (by decide +kernel)
  simp only [Bool.and_eq_true, beq_iff_eq] at hc
  obtain ⟨⟨⟨⟨hresolve, hinst⟩, hpage⟩, hcode32⟩, howner⟩ := hc
  obtain ⟨hprepare, -⟩ := prepareBlock_onePage (by decide) rfl hcreate
  have hcompiled := (history_onePageMachine (R := .untold) Interpreter.platform trivial _).prepare hprepare
  have hmay : Regime.untold.may mem { mem with flags := #[] } := rfl
  have hbarred := hcompiled.change hmay
  obtain ⟨res, hres, hhoused⟩ :=
    hbarred.keeps (Housed.upkeep _ fun _ => True) (Interpreter.platform_confined _) fun _ _ => trivial
  obtain rfl : ⟨c, code⟩ = res := Option.some.inj hres
  have hother : (c.monitor 0).code32 ≠ flat16.codeBig := by
    rw [hcode32]
    decide
  have hsearch := codePage_barred hhoused.sound.watches hresolve rfl hinst hpage hother
  have hsession := serve_of_barred Interpreter.platform hres hsearch {}
  obtain ⟨_, _, pages, hbefore, hafter, hannounced, htold, hcount⟩ :=
    every_release_announced (Interpreter.platform_confined _) hbarred hsession
  obtain rfl := Option.some.inj hbefore
  obtain rfl := Option.some.inj hafter
  have hzero : pageOf 0 = 0 := by decide
  obtain rfl : [0] = pages := by simpa [Memory.release, hzero] using htold
  exact ⟨_, _, _, _, _, hbarred, hsession, rfl, rfl, howner, rfl, hannounced, hcount⟩

end Machine

end Recompiler
