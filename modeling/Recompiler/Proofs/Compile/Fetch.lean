import Recompiler.Proofs.Compile.Scan

/-! Fetching the instructions of a trace. What is fetched is what the bytes of memory at the instruction pointer spell,
and exactly the bytes of the instruction are taken in. -/

namespace Recompiler

namespace Scan

open Cache

variable {site : Site} {E : Finset BlockId} {s s' s'' : Scan} {linear eip : UInt32}

/-! ### Addresses of an instruction -/

/-- Walking on to the following page. -/
theorem page_add_next (a : UInt32) {n : Nat} (h : pageSize ≤ pageOffset a + n) (h' : pageOffset a + n < 2 * pageSize) :
    pageOf (a + n.toUInt32) = nextPage (pageOf a) ∧ pageOffset (a + n.toUInt32) + pageSize = pageOffset a + n := by
  have hlt := a.toNat_lt
  rw [pageOffset_eq, pageSize] at h h'
  have hsum : (a + n.toUInt32).toNat = (a.toNat + n) % 4294967296 := by
    rw [UInt32.toNat_add, toNat_ofNat_toUInt32 (by omega)]
  rw [← UInt32.toNat_inj, toNat_nextPage, toNat_pageOf, toNat_pageOf, pageOffset_eq, pageOffset_eq,
    hsum, pageSize]
  omega

/-- The bytes of memory from an address on. -/
def codeBytes (mem : Memory) (linear : UInt32) (n : Nat) : List UInt8 :=
  (List.range n).map fun i => mem.byte (linear + i.toUInt32)

theorem pageBase_pageOf_add (a : UInt32) : pageBase (pageOf a) + (pageOffset a).toUInt32 = a := by
  obtain ⟨hpage, hoffset⟩ := pageBase_add (pageOf a) (toNat_pageOf_lt a) (pageOffset_lt a)
  exact eq_of_page_offset hpage hoffset

theorem add_toUInt32 (a : UInt32) (i j : Nat) : a + (i + j).toUInt32 = a + i.toUInt32 + j.toUInt32 := by
  simp [Nat.toUInt32, UInt32.add_assoc]

theorem pageBytes_eq (mem : Memory) (linear : UInt32) (n : Nat) :
    pageBytes mem (pageOf linear) (pageOffset linear) n = codeBytes mem linear (min n (pageSize - pageOffset linear)) := by
  unfold pageBytes codeBytes
  refine List.map_congr_left fun i _ => ?_
  rw [add_toUInt32, pageBase_pageOf_add]

theorem codeBytes_add (mem : Memory) (linear : UInt32) (n k : Nat) :
    codeBytes mem linear (n + k) = codeBytes mem linear n ++ codeBytes mem (linear + n.toUInt32) k := by
  unfold codeBytes
  rw [List.range_add, List.map_append, List.map_map]
  refine congrArg _ (List.map_congr_left fun i _ => ?_)
  rw [Function.comp_apply, add_toUInt32]

@[simp] theorem length_codeBytes (mem : Memory) (linear : UInt32) (n : Nat) : (codeBytes mem linear n).length = n := by
  simp [codeBytes]

theorem codeBytes_congr {mem mem' : Memory} (h : mem'.unreleased = mem.unreleased) (linear : UInt32) (n : Nat) :
    codeBytes mem' linear n = codeBytes mem linear n :=
  List.map_congr_left fun _ _ => Memory.byte_eq_of_unreleased h _

/-! ### Decoding -/

theorem codeBytes_take (mem : Memory) (linear : UInt32) {k n : Nat} (h : k ≤ n) :
    (codeBytes mem linear n).take k = codeBytes mem linear k := by
  obtain ⟨d, rfl⟩ := Nat.exists_eq_add_of_le h
  rw [codeBytes_add, List.take_append_of_le_length (by simp), List.take_of_length_le (by simp)]

theorem take_codeBytes (mem : Memory) (linear : UInt32) {n k len : Nat} (hn : len ≤ n) (hk : len ≤ k) :
    (codeBytes mem linear n).take len = (codeBytes mem linear k).take len := by
  rw [codeBytes_take mem linear hn, codeBytes_take mem linear hk]

/-- What is decoded from some bytes at an address is what the memory there spells. -/
theorem decode_codeBytes {mem : Memory} {n : Nat} {ip : UInt32} {code32 : Bool} {inst : Instruction}
    (h : decode (codeBytes mem linear n) ip code32 = .ok inst) {k : Nat} (hk : inst.len ≤ k) :
    decode (codeBytes mem linear k) ip code32 = .ok inst := by
  obtain ⟨-, -, hlen, -, hstable⟩ := decode_ok h
  rw [length_codeBytes] at hlen
  exact hstable _ (take_codeBytes mem linear hk hlen)

/-- Only the end of a page can cut an instruction short. -/
theorem lt_maxLength_of_decode_error {mem : Memory} {ip : UInt32} {code32 : Bool} {e : DecodeError}
    (h : decode (codeBytes mem linear (min Encoding.maxLength (pageSize - pageOffset linear))) ip code32 = .error e) :
    pageSize - pageOffset linear < Encoding.maxLength := by
  by_contra hlong
  have hlen : Encoding.maxLength ≤ (codeBytes mem linear (min Encoding.maxLength (pageSize - pageOffset linear))).length := by
    rw [length_codeBytes]
    omega
  obtain ⟨inst, hinst⟩ := decode_of_length hlen ip code32
  rw [hinst] at h
  cases h

/-- The bytes up to the end of a page and those from the start of the following page. -/
theorem codeBytes_append_pageBytes {mem mem' : Memory} (hmem : mem'.unreleased = mem.unreleased)
    (hshort : pageSize - pageOffset linear < Encoding.maxLength) :
    codeBytes mem linear (pageSize - pageOffset linear) ++
        pageBytes mem' (nextPage (pageOf linear)) 0 (Encoding.maxLength - (pageSize - pageOffset linear)) =
      codeBytes mem linear Encoding.maxLength := by
  have hoffset := pageOffset_lt linear
  obtain ⟨hnext, hzero⟩ := page_add_next linear (n := pageSize - pageOffset linear) (by omega) (by omega)
  have hmore := pageBytes_eq mem' (linear + (pageSize - pageOffset linear).toUInt32)
    (Encoding.maxLength - (pageSize - pageOffset linear))
  rw [hnext, show pageOffset (linear + (pageSize - pageOffset linear).toUInt32) = 0 by omega, codeBytes_congr hmem,
    Nat.min_eq_left (by simp only [Encoding.maxLength, pageSize]; omega)] at hmore
  rw [hmore, ← codeBytes_add, Nat.add_sub_cancel' hshort.le]

/-- Where the next instruction of a trace is fetched from: right after the bytes taken in on the first page, right
after those on the second page or at its start, or from a page that is not part of the block. -/
def Cursor (site : Site) (E : Finset BlockId) (s : Scan) (linear : UInt32) : Prop :=
  pageOf linear = site.linearPage ∧ s.companion = none ∧ TakesNext s.cache E site.block (pageOffset linear) ∨
  pageOf linear = nextPage site.linearPage ∧ E = ∅ ∧
    (s.companion = none ∧ pageOffset linear = 0 ∨
      ∃ o, s.companion = some o ∧ TakesNext s.cache ∅ o.block (pageOffset linear)) ∨
  pageOf linear ≠ site.linearPage ∧ pageOf linear ≠ site.linearPage + 1 ∧ E = ∅

/-- The bytes of a decoded instruction can be taken in: all on the first page, on both, or all on the second. -/
def Reach (site : Site) (E : Finset BlockId) (s : Scan) (linear : UInt32) (len : Nat) : Prop :=
  pageOf linear = site.linearPage ∧ TakesNext s.cache E site.block (pageOffset linear) ∧
    (s.companion = none ∧ (∀ x ∈ E, x = site.block) ∧ pageOffset linear + len ≤ pageSize ∨
      pageSize < pageOffset linear + len ∧ ∃ o, s.companion = some o ∧ o.block ∈ E ∧ (s.cache.block o.block).start = 0 ∧
        (s.cache.block o.block).last = 0) ∨
  pageOf linear = nextPage site.linearPage ∧ site.block ∉ E ∧ pageOffset linear + len ≤ pageSize ∧
    ∃ o, s.companion = some o ∧ (∀ x ∈ E, x = o.block) ∧ TakesNext s.cache E o.block (pageOffset linear)

/-- What decoding at the cursor does. -/
structure Spelled (site : Site) (E : Finset BlockId) (eip linear : UInt32) (s : Scan) (inst : Instruction) (s' : Scan)
    (E' : Finset BlockId) : Prop where
  scanning : Scanning site E' s'
  progress : Progress site E s s'
  counted : site.block ∉ E → site.block ∉ E'
  spelled : decode (codeBytes s.mem linear Encoding.maxLength) eip site.cpu.codeBig = .ok inst
  reach : Reach site E' s' linear inst.len

/-- An instruction that goes on to the second page. -/
theorem Scanning.decode_across (h : Scanning site E s) (hsite : site.page = site.linearPage)
    (hpage : pageOf linear = site.linearPage) (hnone : s.companion = none)
    (ht : TakesNext s.cache E site.block (pageOffset linear)) {e : DecodeError}
    (hdecode : decode (codeBytes s.mem linear (min Encoding.maxLength (pageSize - pageOffset linear))) eip site.cpu.codeBig = .error e)
    {o : Companion} (hneed : s.needCompanion site = .ok (.ok (some o), s')) :
    ∃ inst E', decode (codeBytes s.mem linear (min Encoding.maxLength (pageSize - pageOffset linear)) ++
        pageBytes s'.mem o.page 0 (Encoding.maxLength - min Encoding.maxLength (pageSize - pageOffset linear))) eip
          site.cpu.codeBig = .ok inst ∧ Spelled site E eip linear s inst s' E' := by
  have hoffset := pageOffset_lt linear
  have hshort := lt_maxLength_of_decode_error hdecode
  rw [Nat.min_eq_right hshort.le] at hdecode ⊢
  have hs := h.needCompanion hsite hnone hneed
  rcases hs.result with ⟨-, -, hno⟩ | ⟨o', ho', hcomp, hnot, hscan, hstart, hlast⟩
  · exact absurd rfl (hno o)
  obtain rfl : o = o' := by simpa using ho'
  rw [hscan.second_page hcomp, hsite, ← hpage, codeBytes_append_pageBytes hs.progress.memory hshort]
  obtain ⟨inst, hinst⟩ := decode_of_length (length_codeBytes s.mem linear Encoding.maxLength).ge eip site.cpu.codeBig
  have hne := hscan.second_ne hcomp
  have hid : site.block ∈ insert o.block E ↔ site.block ∈ E := by simp [hne.symm]
  refine ⟨inst, insert o.block E, hinst, hscan, hs.progress, fun hE => hid.not.mpr hE, hinst,
    .inl ⟨hpage, ht.congr hid hs.claim, .inr ⟨?_, o, hcomp, Finset.mem_insert_self _ _, hstart, hlast⟩⟩⟩
  by_contra hfit
  rw [decode_codeBytes hinst (k := pageSize - pageOffset linear) (by omega)] at hdecode
  cases hdecode

/-- An instruction at the start of the second page, for which the companion is created. -/
theorem Scanning.decode_next (h : Scanning site ∅ s) (hsite : site.page = site.linearPage)
    (hpage : pageOf linear = nextPage site.linearPage) (hnone : s.companion = none) (hzero : pageOffset linear = 0)
    {o : Companion} (hneed : s.needCompanion site = .ok (.ok (some o), s')) :
    ∃ inst E', decode (pageBytes s'.mem o.page (pageOffset linear) Encoding.maxLength) eip site.cpu.codeBig = .ok inst ∧
      Spelled site ∅ eip linear s inst s' E' := by
  have hs := h.needCompanion hsite hnone hneed
  rcases hs.result with ⟨-, -, hno⟩ | ⟨o', ho', hcomp, hnot, hscan, hstart, hlast⟩
  · exact absurd rfl (hno o)
  obtain rfl : o = o' := by simpa using ho'
  have hmin : min Encoding.maxLength (pageSize - pageOffset linear) = Encoding.maxLength := by
    rw [hzero]
    decide
  rw [hscan.second_page hcomp, hsite, ← hpage, pageBytes_eq, codeBytes_congr hs.progress.memory, hmin]
  obtain ⟨inst, hinst⟩ := decode_of_length (length_codeBytes s.mem linear Encoding.maxLength).ge eip site.cpu.codeBig
  obtain ⟨-, -, -, hmax, -⟩ := decode_ok hinst
  have hid : site.block ∉ insert o.block (∅ : Finset BlockId) := by simp [(hscan.second_ne hcomp).symm]
  refine ⟨inst, insert o.block ∅, hinst, hscan, hs.progress, fun _ => hid, hinst,
    .inr ⟨hpage, hid, ?_, o, hcomp, by simp, .inl ⟨by simp, ?_, ?_, (hscan.second o hcomp).2.2.2⟩⟩⟩
  · simp only [Encoding.maxLength, pageSize] at hmax ⊢
    omega
  · rw [hstart, hzero]
  · rw [hlast, hzero]

theorem Scanning.decodeAt (h : Scanning site E s) (hsite : site.page = site.linearPage) (hcursor : Cursor site E s linear)
    {r : Except CoreError (Option Instruction)} (hr : s.decodeAt site eip linear = .ok (r, s')) :
    (∀ inst, r ≠ .ok (some inst)) ∧ Scanning site E s' ∧ Progress site E s s' ∨
      ∃ inst E', r = .ok (some inst) ∧ Spelled site E eip linear s inst s' E' := by
  have hoffset := pageOffset_lt linear
  have hfirst : pageOf linear = site.linearPage → s.companion = none ∧ TakesNext s.cache E site.block (pageOffset linear) := by
    intro hpage
    rcases hcursor with ⟨-, hnone, ht⟩ | ⟨hnext, -⟩ | ⟨hne, -⟩
    · exact ⟨hnone, ht⟩
    · exact absurd (hnext.symm.trans hpage) (nextPage_ne _)
    · exact absurd hpage hne
  have hbytes : pageOf linear = site.linearPage → pageBytes s.mem site.page (pageOffset linear) Encoding.maxLength =
      codeBytes s.mem linear (min Encoding.maxLength (pageSize - pageOffset linear)) := by
    intro hpage
    rw [hsite, ← hpage, pageBytes_eq]
  cases decodeAt_cases hr with
  | @first inst hpage hdecode =>
      obtain ⟨hnone, ht⟩ := hfirst hpage
      rw [hbytes hpage] at hdecode
      obtain ⟨-, -, hlen, hmax, -⟩ := decode_ok hdecode
      rw [length_codeBytes] at hlen
      refine .inr ⟨inst, E, rfl, h, .refl site E s, fun hE => hE, decode_codeBytes hdecode hmax,
        .inl ⟨hpage, ht, .inl ⟨hnone, fun x hx => ?_, by omega⟩⟩⟩
      rcases h.uncounted x hx with hx | ⟨o, ho, -⟩
      · exact hx
      · rw [hnone] at ho
        cases ho
  | scarce hneed | alone hneed => exact .inl ⟨by simp, h.alone hsite hneed (by simp)⟩
  | across hpage hdecode hneed =>
      obtain ⟨hnone, ht⟩ := hfirst hpage
      rw [hbytes hpage] at hdecode ⊢
      rw [length_codeBytes]
      obtain ⟨inst, E', hinst, hspelled⟩ := h.decode_across hsite hpage hnone ht hdecode hneed
      exact .inr ⟨inst, E', by rw [hinst]; rfl, hspelled⟩
  | @second o _ hpage hneed =>
      rcases hcursor with ⟨hpage', -⟩ | ⟨hnext, rfl, ⟨hnone, hzero⟩ | ⟨o', ho', ht⟩⟩ | ⟨-, hne, -⟩
      · exact absurd (hpage'.symm.trans hpage) (by simp)
      · obtain ⟨inst, E', hinst, hspelled⟩ := h.decode_next hsite hnext hnone hzero hneed
        exact .inr ⟨inst, E', by rw [hinst]; rfl, hspelled⟩
      · cases needCompanion_cases hneed with
        | known =>
            obtain rfl := Option.some.inj ho'
            rw [h.second_page ho', hsite, ← hnext, pageBytes_eq]
            cases hdecode : decode (codeBytes _ linear (min Encoding.maxLength (pageSize - pageOffset linear))) eip
                site.cpu.codeBig with
            | error e => exact .inl ⟨by simp [Except.toOption], h, .refl site ∅ _⟩
            | ok inst =>
                obtain ⟨-, -, hlen, hmax, -⟩ := decode_ok hdecode
                rw [length_codeBytes] at hlen
                exact .inr ⟨inst, ∅, rfl, h, .refl site ∅ _, fun _ => by simp, decode_codeBytes hdecode hmax,
                  .inr ⟨hnext, by simp, by omega, o, ho', by simp, ht⟩⟩
        | created => cases ho'
      · exact absurd hpage hne
  | elsewhere => exact .inl ⟨by simp, h, .refl site E s⟩

/-! ### Taking in an instruction -/

/-- Page offsets of the immediate operand of an instruction that reads it when it runs. -/
def hot (f : Fetched) (offset : Nat) : Bool :=
  match f.hotImm, immediateSource f.inst.kind with
  | some paddr, some imm => pageOffset paddr ≤ offset && offset < pageOffset paddr + imm.size
  | _, _ => false

theorem cover_eq (site : Site) (f : Fetched) (linear : UInt32) (s : Scan) :
    s.cover site f linear =
      (List.range f.inst.len).foldl (fun s i => s.coverByte site (hot f) (linear + i.toUInt32)) s := rfl

/-- Taking in bytes in two runs. -/
theorem foldl_coverByte_add (site : Site) (masked : Nat → Bool) (a : UInt32) (n k : Nat) (s : Scan) :
    (List.range (n + k)).foldl (fun s i => s.coverByte site masked (a + i.toUInt32)) s =
      (List.range k).foldl (fun s i => s.coverByte site masked (a + n.toUInt32 + i.toUInt32))
        ((List.range n).foldl (fun s i => s.coverByte site masked (a + i.toUInt32)) s) := by
  rw [List.range_add, List.foldl_append, List.foldl_map]
  simp only [add_toUInt32]

/-- What taking in an instruction does. -/
structure Covered (site : Site) (E : Finset BlockId) (f : Fetched) (linear : UInt32) (s s' : Scan) : Prop where
  scanning : Scanning site ∅ s'
  progress : Progress site E s s'
  guards : ∀ i < f.inst.len, s'.cache.Guards site.block (linear + i.toUInt32)
  reads : ∀ i < f.inst.len, s'.cache.Reads site.block (linear + i.toUInt32) → hot f (pageOffset linear + i) = true
  cursor : Cursor site ∅ s' (linear + f.inst.len.toUInt32)

/-- The page after the second one is neither of the two. -/
theorem nextPage_nextPage_ne (p : UInt32) : nextPage (nextPage p) ≠ p ∧ nextPage (nextPage p) ≠ p + 1 := by
  have hone : (1 : UInt32).toNat = 1 := rfl
  constructor
  all_goals
    intro heq
    have hnat := congrArg UInt32.toNat heq
    rw [toNat_nextPage, toNat_nextPage] at hnat
  · omega
  · rw [UInt32.toNat_add, hone] at hnat
    omega

theorem Scanning.cover_first {f : Fetched} (h : Scanning site E s) (hsite : site.page = site.linearPage) (hpos : 0 < f.inst.len)
    (hpage : pageOf linear = site.linearPage) (ht : TakesNext s.cache E site.block (pageOffset linear))
    (hnone : s.companion = none) (hE : ∀ x ∈ E, x = site.block) (hfit : pageOffset linear + f.inst.len ≤ pageSize) :
    Covered site E f linear s (s.cover site f linear) := by
  have hon : OnPart site s site.block site.monitor linear := .inl ⟨rfl, rfl, hpage⟩
  obtain ⟨n, hn⟩ := Nat.exists_eq_succ_of_ne_zero hpos.ne'
  rw [hn] at hfit
  have htook := h.takeBytes hsite hon ht (fun hne => absurd rfl hne) (hot f) n hfit
  rw [cover_eq, hn]
  generalize (List.range (n + 1)).foldl (fun s i => s.coverByte site (hot f) (linear + i.toUInt32)) s = s' at htook
  have hempty : E.erase site.block = ∅ :=
    Finset.eq_empty_iff_forall_notMem.mpr fun x hx => (Finset.mem_erase.mp hx).1 (hE x (Finset.mem_of_mem_erase hx))
  have hscan := htook.scanning
  rw [hempty] at hscan
  refine ⟨hscan, htook.progress, hn ▸ htook.guards, fun i hi hread => ((htook.reads i (by omega)).mp hread).2, ?_⟩
  rw [hn]
  rcases Nat.lt_or_eq_of_le hfit with hlt | heq
  · obtain ⟨hpage', hoffset⟩ := page_add linear hlt
    refine .inl ⟨hpage'.trans hpage, htook.companion.trans hnone, hscan.takesNext (.inl rfl) (by simp) ?_⟩
    rw [hoffset, htook.last]
  · obtain ⟨hpage', hoffset⟩ := page_add_next linear heq.ge (by rw [Nat.succ_eq_add_one, heq]; decide)
    exact .inr (.inl ⟨hpage'.trans (congrArg nextPage hpage), rfl, .inl ⟨htook.companion.trans hnone, by omega⟩⟩)

theorem Scanning.cover_second {f : Fetched} (h : Scanning site E s) (hsite : site.page = site.linearPage) (hpos : 0 < f.inst.len)
    (hpage : pageOf linear = nextPage site.linearPage) (hid : site.block ∉ E) {o : Companion} (ho : s.companion = some o)
    (ht : TakesNext s.cache E o.block (pageOffset linear)) (hE : ∀ x ∈ E, x = o.block)
    (hfit : pageOffset linear + f.inst.len ≤ pageSize) : Covered site E f linear s (s.cover site f linear) := by
  have hon : OnPart site s o.block o.monitor linear := .inr ⟨o, ho, rfl, rfl, hpage⟩
  obtain ⟨n, hn⟩ := Nat.exists_eq_succ_of_ne_zero hpos.ne'
  rw [hn] at hfit
  have htook := h.takeBytes hsite hon ht (fun _ => hid) (hot f) n hfit
  rw [cover_eq, hn]
  generalize (List.range (n + 1)).foldl (fun s i => s.coverByte site (hot f) (linear + i.toUInt32)) s = s' at htook
  have hempty : E.erase o.block = ∅ :=
    Finset.eq_empty_iff_forall_notMem.mpr fun x hx => (Finset.mem_erase.mp hx).1 (hE x (Finset.mem_of_mem_erase hx))
  have hscan := htook.scanning
  rw [hempty] at hscan
  have ho' := htook.companion.trans ho
  refine ⟨hscan, htook.progress, hn ▸ htook.guards, fun i hi hread => ((htook.reads i (by omega)).mp hread).2, ?_⟩
  rw [hn]
  rcases Nat.lt_or_eq_of_le hfit with hlt | heq
  · obtain ⟨hpage', hoffset⟩ := page_add linear hlt
    refine .inr (.inl ⟨hpage'.trans hpage, rfl, .inr ⟨o, ho', hscan.takesNext (.inr ⟨o, ho', rfl⟩) (by simp) ?_⟩⟩)
    rw [hoffset, htook.last]
  · obtain ⟨hpage', -⟩ := page_add_next linear heq.ge (by rw [Nat.succ_eq_add_one, heq]; decide)
    obtain ⟨hne, hne'⟩ := nextPage_nextPage_ne site.linearPage
    rw [hpage] at hpage'
    exact .inr (.inr ⟨hpage' ▸ hne, hpage' ▸ hne', rfl⟩)

theorem Scanning.cover_both {f : Fetched} (h : Scanning site E s) (hsite : site.page = site.linearPage)
    (hmax : f.inst.len ≤ Encoding.maxLength) (hpage : pageOf linear = site.linearPage)
    (ht : TakesNext s.cache E site.block (pageOffset linear)) (hfit : pageSize < pageOffset linear + f.inst.len) {o : Companion}
    (ho : s.companion = some o) (hoE : o.block ∈ E) (hstart : (s.cache.block o.block).start = 0)
    (hlast : (s.cache.block o.block).last = 0) : Covered site E f linear s (s.cover site f linear) := by
  have hoffset := pageOffset_lt linear
  have hne := h.second_ne ho
  have hmask := (h.second o ho).2.2.2
  obtain ⟨n, hn⟩ : ∃ n, pageSize = pageOffset linear + (n + 1) := ⟨pageSize - pageOffset linear - 1, by omega⟩
  obtain ⟨k, hk⟩ : ∃ k, f.inst.len = n + 1 + (k + 1) := ⟨f.inst.len - (n + 1) - 1, by omega⟩
  obtain ⟨hpage₁, hoffset₁⟩ := page_add_next linear (n := n + 1) hn.le (by omega)
  have hzero : pageOffset (linear + (n + 1).toUInt32) = 0 := by omega
  -- First the rest of the first page, then the second page from its start.
  have hfirst := h.takeBytes hsite (.inl ⟨rfl, rfl, hpage⟩) ht (fun hne => absurd rfl hne) (hot f) n hn.ge
  rw [cover_eq, hk, foldl_coverByte_add]
  generalize (List.range (n + 1)).foldl (fun s i => s.coverByte site (hot f) (linear + i.toUInt32)) s = s₁ at hfirst
  have hblock := hfirst.other o.block hne
  have ho₁ := hfirst.companion.trans ho
  have hid₁ : site.block ∉ E.erase site.block := Finset.notMem_erase _ _
  have ht₁ : TakesNext s₁.cache (E.erase site.block) o.block (pageOffset (linear + (n + 1).toUInt32)) := by
    refine .inl ⟨Finset.mem_erase.mpr ⟨hne, hoE⟩, ?_, ?_, ?_⟩
    · rw [hblock, hstart, hzero]
    · rw [hblock, hlast, hzero]
    · rw [hblock, hmask]
  have hon₁ : OnPart site s₁ o.block o.monitor (linear + (n + 1).toUInt32) :=
    .inr ⟨o, ho₁, rfl, rfl, hpage₁.trans (congrArg nextPage hpage)⟩
  have hfit₁ : pageOffset (linear + (n + 1).toUInt32) + (k + 1) ≤ pageSize := by
    rw [hzero]
    simp only [Encoding.maxLength, pageSize] at *
    omega
  have hsecond := hfirst.scanning.takeBytes hsite hon₁ ht₁ (fun _ => hid₁) (hot f) k hfit₁
  generalize (List.range (k + 1)).foldl
    (fun s i => s.coverByte site (hot f) (linear + (n + 1).toUInt32 + i.toUInt32)) s₁ = s₂ at hsecond
  have hempty : (E.erase site.block).erase o.block = ∅ := by
    refine Finset.eq_empty_iff_forall_notMem.mpr fun x hx => ?_
    obtain ⟨hxo, hxs, hxE⟩ := by simpa only [Finset.mem_erase] using hx
    rcases h.uncounted x hxE with hx | ⟨o', ho', hx⟩
    · exact hxs hx
    · obtain rfl : o = o' := Option.some.inj (ho.symm.trans ho')
      exact hxo hx
  have hscan := hsecond.scanning
  rw [hempty] at hscan
  have ho₂ := hsecond.companion.trans ho₁
  refine ⟨hscan, hfirst.progress.trans hsecond.progress fun _ => hid₁, fun i hi => ?_, fun i hi hread => ?_, ?_⟩
  · rcases Nat.lt_or_ge i (n + 1) with hlt | hge
    · exact hsecond.progress.guards _ (hfirst.guards i hlt)
    · obtain ⟨j, rfl⟩ := Nat.exists_eq_add_of_le hge
      rw [add_toUInt32]
      exact hsecond.guards j (by omega)
  · rcases Nat.lt_or_ge i (n + 1) with hlt | hge
    · rw [hsecond.progress.reads hid₁ _ (hfirst.guards i hlt), hfirst.reads i hlt] at hread
      exact hread.2
    · obtain ⟨j, rfl⟩ := Nat.exists_eq_add_of_le hge
      rw [add_toUInt32, hsecond.reads j (by omega)] at hread
      exact absurd hread.1 hne
  · obtain ⟨hpage₂, hoffset₂⟩ := page_add (linear + (n + 1).toUInt32) (n := k + 1) (by
      rw [hzero]
      simp only [Encoding.maxLength, pageSize] at *
      omega)
    rw [hk, add_toUInt32]
    refine .inr (.inl ⟨hpage₂.trans (hpage₁.trans (congrArg nextPage hpage)), rfl,
      .inr ⟨o, ho₂, hscan.takesNext (.inr ⟨o, ho₂, rfl⟩) (by simp) ?_⟩⟩)
    rw [hoffset₂, hsecond.last]

theorem Scanning.cover {f : Fetched} (h : Scanning site E s) (hsite : site.page = site.linearPage) (hpos : 0 < f.inst.len)
    (hmax : f.inst.len ≤ Encoding.maxLength) (hreach : Reach site E s linear f.inst.len) :
    Covered site E f linear s (s.cover site f linear) := by
  rcases hreach with ⟨hpage, ht, ⟨hnone, hE, hfit⟩ | ⟨hfit, o, ho, hoE, hstart, hlast⟩⟩ | ⟨hpage, hid, hfit, o, ho, hE, ht⟩
  · exact h.cover_first hsite hpos hpage ht hnone hE hfit
  · exact h.cover_both hsite hmax hpage ht hfit ho hoE hstart hlast
  · exact h.cover_second hsite hpos hpage hid ho ht hE hfit

/-! ### The next instruction -/

/-- An instruction on one of two pages ends on one of them or at the start of a third one. -/
theorem page_near {p : UInt32} {len : Nat} (hpage : pageOf linear = p ∨ pageOf linear = nextPage p) (hmax : len ≤ Encoding.maxLength) :
    pageOf (linear + len.toUInt32) = p ∨ pageOf (linear + len.toUInt32) = nextPage p ∨
      pageOf (linear + len.toUInt32) = nextPage (nextPage p) := by
  have hoffset := pageOffset_lt linear
  have hstep : pageOf (linear + len.toUInt32) = pageOf linear ∨ pageOf (linear + len.toUInt32) = nextPage (pageOf linear) := by
    rcases Nat.lt_or_ge (pageOffset linear + len) pageSize with hlt | hge
    · exact .inl (page_add linear hlt).1
    · refine .inr (page_add_next linear hge ?_).1
      simp only [Encoding.maxLength, pageSize] at *
      omega
  rcases hpage with hpage | hpage
  · rw [hpage] at hstep
    exact hstep.imp_right .inl
  · rw [hpage] at hstep
    exact .inr hstep

theorem Reach.near {len : Nat} (h : Reach site E s linear len) (hmax : len ≤ Encoding.maxLength) :
    pageOf (linear + len.toUInt32) = site.linearPage ∨ pageOf (linear + len.toUInt32) = nextPage site.linearPage ∨
      pageOf (linear + len.toUInt32) = nextPage (nextPage site.linearPage) := by
  refine page_near ?_ hmax
  rcases h with ⟨hpage, -⟩ | ⟨hpage, -⟩
  · exact .inl hpage
  · exact .inr hpage

/-- Cutting an instruction pointer to sixteen bits leads far away from the block, if it changes it. -/
theorem wrapped_ne {base ip p : UInt32} (hwrap : ip &&& 0xFFFF ≠ ip)
    (hnear : pageOf (base + ip) = p ∨ pageOf (base + ip) = nextPage p ∨ pageOf (base + ip) = nextPage (nextPage p)) :
    pageOf (base + (ip &&& 0xFFFF)) ≠ p ∧ pageOf (base + (ip &&& 0xFFFF)) ≠ p + 1 ∧
      pageOf (base + (ip &&& 0xFFFF)) ≠ nextPage p := by
  have hmask : (ip &&& 0xFFFF).toNat = ip.toNat % 65536 := by
    have : (0xFFFF : UInt32).toNat = 2 ^ 16 - 1 := rfl
    rw [UInt32.toNat_and, this, Nat.and_two_pow_sub_one_eq_mod]
  have hne : ip.toNat % 65536 ≠ ip.toNat := fun h => hwrap (UInt32.toNat_inj.mp (hmask.trans h))
  have hip := ip.toNat_lt
  have hbase := base.toNat_lt
  have hone : (1 : UInt32).toNat = 1 := rfl
  simp only [← UInt32.toNat_inj, toNat_nextPage, toNat_pageOf, UInt32.toNat_add, hmask, hone, ne_eq] at hnear ⊢
  omega

/-- An instruction fetched into a trace. -/
structure Gathered (site : Site) (E : Finset BlockId) (eip : UInt32) (s : Scan) (f : Fetched) (s' : Scan) : Prop where
  scanning : Scanning site ∅ s'
  progress : Progress site E s s'
  spelled : decode (codeBytes s.mem (site.cpu.base .cs + eip) Encoding.maxLength) eip site.cpu.codeBig = .ok f.inst
  hotImm : ∀ paddr, f.hotImm = some paddr → ∃ imm, immediateSource f.inst.kind = some imm ∧
    paddr = site.cpu.base .cs + eip + imm.offset.toUInt32 ∧ pageOf paddr = site.linearPage ∧
    pageOf (paddr + (imm.size - 1).toUInt32) = site.linearPage
  guards : ∀ i < f.inst.len, s'.cache.Guards site.block (site.cpu.base .cs + eip + i.toUInt32)
  reads : ∀ i < f.inst.len, s'.cache.Reads site.block (site.cpu.base .cs + eip + i.toUInt32) →
    hot f (pageOffset (site.cpu.base .cs + eip) + i) = true
  cursor : Cursor site ∅ s' (site.cpu.base .cs + f.inst.nextIp site.cpu.codeBig)

theorem pageBase_or (a : UInt32) : pageBase (pageOf a) ||| (a &&& 0xFFF) = a := by
  have hlt := a.toNat_lt
  have hand : (a &&& 0xFFF).toNat = a.toNat % 2 ^ 12 := pageOffset_eq a
  have hbase : (pageBase (pageOf a)).toNat = (a.toNat / 2 ^ 12) <<< 12 := by
    rw [toNat_pageBase, toNat_pageOf, Nat.shiftLeft_eq]
    omega
  rw [← UInt32.toNat_inj, UInt32.toNat_or, hand, hbase, ← Nat.shiftLeft_add_eq_or_of_lt (Nat.mod_lt _ (by decide)),
    Nat.shiftLeft_eq]
  omega

theorem hotImmediate_spec {cache : Cache} {inst : Instruction} (hsite : site.page = site.linearPage) {paddr : UInt32}
    (h : hotImmediate site cache inst linear = some paddr) : ∃ imm, immediateSource inst.kind = some imm ∧
      paddr = linear + imm.offset.toUInt32 ∧ pageOf paddr = site.linearPage ∧
      pageOf (paddr + (imm.size - 1).toUInt32) = site.linearPage := by
  unfold hotImmediate at h
  split at h
  · cases h
  · rename_i imm himm
    dsimp only at h
    split at h
    · rename_i hcond
      obtain ⟨hfirst, hlast, -⟩ := hcond
      obtain rfl := Option.some.inj h
      rw [hsite, ← hfirst, pageBase_or]
      exact ⟨imm, himm, rfl, rfl, hlast.trans hfirst.symm⟩
    · cases h

theorem Scanning.fetch (h : Scanning site E s) (hsite : site.page = site.linearPage)
    (hcursor : Cursor site E s (site.cpu.base .cs + eip)) {r : Except CoreError (Option Fetched)}
    (hr : s.fetch site eip = .ok (r, s')) :
    (∀ f, r ≠ .ok (some f)) ∧ Scanning site E s' ∧ Progress site E s s' ∨
      ∃ f, r = .ok (some f) ∧ Gathered site E eip s f s' := by
  cases fetch_cases hr with
  | scarce hdecode | missing hdecode =>
      rcases h.decodeAt hsite hcursor hdecode with ⟨-, hscan, hprog⟩ | ⟨inst, E', hr, -⟩
      · exact .inl ⟨by simp, hscan, hprog⟩
      · cases hr
  | @found inst s₁ hdecode =>
      obtain ⟨hno, -⟩ | ⟨inst', E', hr', hsp⟩ := h.decodeAt hsite hcursor hdecode
      · exact absurd rfl (hno inst)
      obtain rfl : inst = inst' := by simpa using hr'
      obtain ⟨hip, hpos, -, hmax, -⟩ := decode_ok hsp.spelled
      have hcov := hsp.scanning.cover (f := ⟨inst, hotImmediate site s₁.cache inst (site.cpu.base .cs + eip)⟩) hsite hpos hmax
        hsp.reach
      refine .inr ⟨_, rfl, hcov.scanning, hsp.progress.trans hcov.progress hsp.counted, hsp.spelled, fun paddr hp =>
        hotImmediate_spec hsite hp, hcov.guards, hcov.reads, ?_⟩
      have hnear := hsp.reach.near hmax
      have hcur := hcov.cursor
      dsimp only at hcur ⊢
      unfold Instruction.nextIp
      rw [hip]
      rw [UInt32.add_assoc] at hnear hcur
      split
      · exact hcur
      · by_cases hwrap : (eip + inst.len.toUInt32) &&& 0xFFFF = eip + inst.len.toUInt32
        · rw [hwrap]
          exact hcur
        · obtain ⟨hne, hne', -⟩ := wrapped_ne hwrap hnear
          exact .inr (.inr ⟨hne, hne', rfl⟩)

/-! ### Traces -/

/-- The instructions follow one another from an instruction pointer on, up to the end of the trace. -/
def Follows (code32 : Bool) : UInt32 → List Fetched → TraceEnd → Prop
  | eip, [], stop => stop = .unfetchable eip ∨ stop = .full eip
  | eip, f :: rest, stop =>
    f.inst.ip = eip ∧
      if f.inst.endsBlock then rest = [] ∧ stop = .terminal else Follows code32 (f.inst.nextIp code32) rest stop

/-- What a block knows of an instruction it was made from: it is what memory spelled there, all its bytes belong to the
block, and only bytes of a hot immediate are read when it runs. -/
structure Recorded (site : Site) (mem : Memory) (c : Cache) (f : Fetched) : Prop where
  spelled : decode (codeBytes mem (site.cpu.base .cs + f.inst.ip) Encoding.maxLength) f.inst.ip site.cpu.codeBig = .ok f.inst
  hotImm : ∀ paddr, f.hotImm = some paddr → ∃ imm, immediateSource f.inst.kind = some imm ∧
    paddr = site.cpu.base .cs + f.inst.ip + imm.offset.toUInt32 ∧ pageOf paddr = site.linearPage ∧
    pageOf (paddr + (imm.size - 1).toUInt32) = site.linearPage
  guards : ∀ i < f.inst.len, c.Guards site.block (site.cpu.base .cs + f.inst.ip + i.toUInt32)
  reads : ∀ i < f.inst.len, c.Reads site.block (site.cpu.base .cs + f.inst.ip + i.toUInt32) →
    hot f (pageOffset (site.cpu.base .cs + f.inst.ip) + i) = true

theorem Recorded.mono {mem : Memory} {f : Fetched} (h : Recorded site mem s.cache f) (hp : Progress site ∅ s s') :
    Recorded site mem s'.cache f :=
  ⟨h.spelled, h.hotImm, fun i hi => hp.guards _ (h.guards i hi), fun i hi hread =>
    h.reads i hi ((hp.reads (by simp) _ (h.guards i hi)).mp hread)⟩

theorem Gathered.ip {f : Fetched} (h : Gathered site E eip s f s') : f.inst.ip = eip :=
  (decode_ok h.spelled).1

theorem Gathered.recorded {f : Fetched} (h : Gathered site E eip s f s') {mem : Memory}
    (hmem : s.mem.unreleased = mem.unreleased) : Recorded site mem s'.cache f := by
  have hip := h.ip
  refine ⟨?_, hip ▸ h.hotImm, hip ▸ h.guards, hip ▸ h.reads⟩
  rw [hip, ← codeBytes_congr hmem]
  exact h.spelled

/-- Whether an instruction can be fetched at all. -/
def gathers (site : Site) (eip : UInt32) (s : Scan) : Bool :=
  match s.fetch site eip with
  | .ok (.ok (some _), _) => true
  | _ => false

theorem gathers_of_fetch {f : Fetched} (h : s.fetch site eip = .ok (.ok (some f), s')) : gathers site eip s = true := by
  rw [gathers, h]

theorem gathers_eq_false {r : Except CoreError (Option Fetched)} (h : s.fetch site eip = .ok (r, s'))
    (hr : ∀ f, r ≠ .ok (some f)) : gathers site eip s = false := by
  rw [gathers, h]
  match r, hr with
  | .ok (some f), hr => exact absurd rfl (hr f)
  | .ok none, _ => rfl
  | .error _, _ => rfl

/-- What taking a trace does. If its first instruction can be fetched all its bytes are counted afterwards. -/
structure Traced (site : Site) (E : Finset BlockId) (eip : UInt32) (mem : Memory) (s : Scan) (r : Except CoreError Trace)
    (s' : Scan) : Prop where
  progress : Progress site E s s'
  counted : gathers site eip s = true → Scanning site ∅ s'
  uncounted : gathers site eip s = false → Scanning site E s'
  nonempty : ∀ t, r = .ok t → (gathers site eip s = true ↔ t.insts ≠ [])
  follows : ∀ t, r = .ok t → Follows site.cpu.codeBig eip t.insts t.stop
  recorded : ∀ t, r = .ok t → ∀ f ∈ t.insts, Recorded site mem s'.cache f

/-- The trace ends with its first instruction. -/
theorem Gathered.traced_single {f : Fetched} (hg : Gathered site E eip s f s') (hf : s.fetch site eip = .ok (.ok (some f), s'))
    {mem : Memory} (hmem : s.mem.unreleased = mem.unreleased) {stop : TraceEnd}
    (hstop : if f.inst.endsBlock then stop = .terminal else stop = .full (f.inst.nextIp site.cpu.codeBig)) :
    Traced site E eip mem s (.ok ⟨[f], stop⟩) s' := by
  have hgathers := gathers_of_fetch hf
  refine ⟨hg.progress, fun _ => hg.scanning, fun h => absurd (hgathers.symm.trans h) (by simp), fun t ht => ?_, fun t ht => ?_,
    fun t ht g hmem' => ?_⟩
  all_goals obtain rfl := Except.ok.inj ht
  · simp [hgathers]
  · refine ⟨hg.ip, ?_⟩
    split at hstop
    · rename_i hends
      rw [if_pos hends]
      exact ⟨rfl, hstop⟩
    · rename_i hends
      rw [if_neg hends]
      exact .inr hstop
  · obtain rfl : g = f := by simpa using hmem'
    exact hg.recorded hmem

/-- Nothing could be fetched. -/
theorem Scanning.traced_none (hscan : Scanning site E s') (hprog : Progress site E s s')
    {r₁ : Except CoreError (Option Fetched)} (hf : s.fetch site eip = .ok (r₁, s')) (hno : ∀ f, r₁ ≠ .ok (some f))
    {mem : Memory} {r : Except CoreError Trace} (hr : ∀ t, r = .ok t → t = ⟨[], .unfetchable eip⟩) :
    Traced site E eip mem s r s' := by
  have hgathers := gathers_eq_false hf hno
  refine ⟨hprog, fun h => absurd (hgathers.symm.trans h) (by simp), fun _ => hscan, fun t ht => ?_, fun t ht => ?_, fun t ht f hf => ?_⟩
  all_goals obtain rfl := hr t ht
  · simp [hgathers]
  · exact .inl rfl
  · cases hf

/-- The trace goes on after its first instruction. -/
theorem Gathered.traced_cons {f : Fetched} (hg : Gathered site E eip s f s') (hf : s.fetch site eip = .ok (.ok (some f), s'))
    {mem : Memory} (hmem : s.mem.unreleased = mem.unreleased) (hends : ¬f.inst.endsBlock = true) {r : Except CoreError Trace}
    (ht : Traced site ∅ (f.inst.nextIp site.cpu.codeBig) mem s' r s'') : Traced site E eip mem s (r.map (.cons f)) s'' := by
  have hgathers := gathers_of_fetch hf
  refine ⟨hg.progress.trans ht.progress (by simp), fun _ => ?_, fun hno => absurd (hgathers.symm.trans hno) (by simp),
    fun t' ht' => ?_, fun t' ht' => ?_, fun t' ht' g hmem' => ?_⟩
  · cases hb : gathers site (f.inst.nextIp site.cpu.codeBig) s' with
    | true => exact ht.counted hb
    | false => exact ht.uncounted hb
  all_goals obtain ⟨t, rfl, rfl⟩ := Trace.eq_cons_of_map ht'
  · simp [hgathers, Trace.cons]
  · refine ⟨hg.ip, ?_⟩
    rw [if_neg hends]
    exact ht.follows t rfl
  · rcases List.mem_cons.mp hmem' with rfl | hmem'
    · exact (hg.recorded hmem).mono ht.progress
    · exact ht.recorded t rfl g hmem'

theorem Scanning.take (n : Nat) (h : Scanning site E s) (hsite : site.page = site.linearPage)
    (hcursor : Cursor site E s (site.cpu.base .cs + eip)) {mem : Memory} (hmem : s.mem.unreleased = mem.unreleased)
    {r : Except CoreError Trace} (hr : Scan.take site n eip s = .ok (r, s')) : Traced site E eip mem s r s' := by
  have hgathered : ∀ {E s s' eip f}, Scanning site E s → Cursor site E s (site.cpu.base .cs + eip) →
      s.fetch site eip = .ok (.ok (some f), s') → Gathered site E eip s f s' := by
    intro E s s' eip f h hcursor hfetch
    rcases h.fetch hsite hcursor hfetch with ⟨hno, -⟩ | ⟨f', hr, hg⟩
    · exact absurd rfl (hno f)
    · obtain rfl : f = f' := by simpa using hr
      exact hg
  have htakes := take_cases hr
  clear hr
  induction htakes generalizing E with
  | scarce hfetch | missing hfetch =>
      rcases h.fetch hsite hcursor hfetch with ⟨hno, hscan, hprog⟩ | ⟨f, hr, -⟩
      · exact hscan.traced_none hprog hfetch hno (by simp)
      · cases hr
  | terminal hfetch hends => exact (hgathered h hcursor hfetch).traced_single hfetch hmem (by rw [if_pos hends])
  | full hfetch hends => exact (hgathered h hcursor hfetch).traced_single hfetch hmem (by rw [if_neg hends])
  | more hfetch hends _ ih =>
      have hg := hgathered h hcursor hfetch
      exact hg.traced_cons hfetch hmem hends (ih hg.scanning hg.cursor (hg.progress.memory.trans hmem))

end Scan

end Recompiler
