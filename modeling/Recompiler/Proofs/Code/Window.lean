import Recompiler.Compile.Block
import Recompiler.Proofs.Memory

/-! Writing host code changes nothing outside the window it is written to, whatever is written and whether it fits. -/

namespace Recompiler

namespace CodeBuffer

/-- The same window, over a store that differs in it at most. -/
structure Within (b b' : CodeBuffer) : Prop where
  start : b'.start = b.start
  capacity : b'.capacity = b.capacity
  base : b'.base = b.base
  size : b'.store.size = b.store.size
  outside : ∀ j, j < b.start ∨ b.start + b.capacity ≤ j → b'.store.data[j]? = b.store.data[j]?

namespace Within

variable {b b' b'' : CodeBuffer}

theorem refl (b : CodeBuffer) : Within b b :=
  ⟨rfl, rfl, rfl, rfl, fun _ _ => rfl⟩

theorem trans (h : Within b b') (h' : Within b' b'') : Within b b'' where
  start := h'.start.trans h.start
  capacity := h'.capacity.trans h.capacity
  base := h'.base.trans h.base
  size := h'.size.trans h.size
  outside j hj := by
    have hj' : j < b'.start ∨ b'.start + b'.capacity ≤ j := by rwa [h.start, h.capacity]
    exact (h'.outside j hj').trans (h.outside j hj)

/-- Bytes that end inside the window. -/
theorem overwrite (b : CodeBuffer) {position pos : Nat} {bytes : List UInt8} (h : position + bytes.length ≤ b.capacity) :
    Within b { b with store := Recompiler.overwrite b.store (b.start + position) bytes, pos := pos } := by
  refine ⟨rfl, rfl, rfl, size_overwrite .., fun j hj => ?_⟩
  rw [getElem?_overwrite, if_neg]
  omega

theorem emit (b : CodeBuffer) (bytes : List UInt8) : Within b (b.emit bytes) := by
  unfold CodeBuffer.emit
  dsimp only
  split
  · rename_i hfit
    exact overwrite b hfit
  · exact ⟨rfl, rfl, rfl, rfl, fun _ _ => rfl⟩

theorem patch (b : CodeBuffer) (position : Nat) (bytes : List UInt8) : Within b (b.patch position bytes) := by
  unfold CodeBuffer.patch
  split
  · rename_i hfit
    exact overwrite b hfit
  · exact .refl b

end Within

end CodeBuffer

namespace Assembly

open CodeBuffer

variable (e : HostEncoding)

theorem within_piece (a : Assembly) (p : Piece) : Within a.buffer (a.piece e p).buffer := by
  cases p <;> exact .emit ..

theorem within_pieces (a : Assembly) (ps : List Piece) : Within a.buffer (ps.foldl (Assembly.piece e) a).buffer := by
  induction ps generalizing a with
  | nil => exact .refl _
  | cons p ps ih => exact (within_piece e a p).trans (ih _)

theorem within_op {a a' : Assembly} {op : MicroOp} (h : a.op e op = .ok a') : Within a.buffer a'.buffer := by
  cases op with
  | bind l =>
      by_cases hl : l < a.bound.size
      · rw [Assembly.op, dif_pos hl] at h
        cases h
        exact .refl _
      · rw [Assembly.op, dif_neg hl] at h
        cases h
  | _ =>
      cases h
      exact within_pieces e a _

theorem within_ops {a a' : Assembly} {ops : List MicroOp} (h : ops.foldlM (Assembly.op e) a = .ok a') :
    Within a.buffer a'.buffer := by
  induction ops generalizing a with
  | nil =>
      cases h
      exact .refl _
  | cons op ops ih =>
      rw [List.foldlM_cons] at h
      cases hop : a.op e op with
      | error abort =>
          rw [hop] at h
          cases h
      | ok a₁ =>
          rw [hop] at h
          exact (within_op e hop).trans (ih h)

theorem within_resolve {bound : Array (Option Nat)} {fields : List (Nat × Label)} {b b' : CodeBuffer} {r : Except EmitError Unit}
    (h : resolve e bound fields b = .ok (r, b')) : Within b b' := by
  induction fields generalizing b with
  | nil =>
      cases h
      exact .refl _
  | cons field fields ih =>
      obtain ⟨position, l⟩ := field
      unfold resolve at h
      split at h
      · cases h
      · cases h
        exact .refl _
      · exact (Within.patch b position _).trans (ih h)

end Assembly

theorem within_assemble {e : HostEncoding} {labels : Nat} {ops : List MicroOp} {b b' : CodeBuffer} {r : Except EmitError Unit}
    (h : assemble e labels ops b = .ok (r, b')) : b.Within b' := by
  unfold assemble at h
  cases hops : ops.foldlM (Assembly.op e) { buffer := b, bound := Array.replicate labels none } with
  | error abort =>
      rw [hops] at h
      cases h
  | ok a =>
      rw [hops] at h
      have hwritten := Assembly.within_ops e hops
      exact hwritten.trans (Assembly.within_resolve e h)

namespace Emitter

theorem within_emit (e : Emitter) (pieces : List Piece) (b : CodeBuffer) : b.Within (e.emit pieces b) :=
  Assembly.within_pieces e.encoding { buffer := b, bound := #[] } pieces

theorem within_entry (e : Emitter) (b : CodeBuffer) : b.Within (e.entry b).2.2 := by
  unfold entry
  split
  · exact .refl b
  · exact (within_emit e _ b).trans (within_emit _ _ _)

theorem within_emitStubs {e e' : Emitter} {b b' : CodeBuffer} {stubs : Stubs} (h : e.emitStubs b = .ok (stubs, e', b')) :
    b.Within b' := by
  have hentry := within_entry e b
  unfold emitStubs at h
  generalize e.entry b = out at h hentry
  obtain ⟨trampoline, e₁, b₁⟩ := out
  dsimp only [exitStub] at h
  split at h
  · cases h
  · cases h
    exact hentry.trans ((within_emit _ _ _).trans (within_emit _ _ _))

end Emitter

namespace HostCode

variable {code code' : HostCode} {start capacity labels : Nat} {ops : List MicroOp} {r : Except EmitError Nat}

/-- Writing a block changes the arena in the window of the block at most, and what code at other addresses does stays. -/
structure Wrote (start capacity : Nat) (code code' : HostCode) : Prop where
  base : code'.base = code.base
  stubs : code'.stubs = code.stubs
  emitter : code'.emitter = code.emitter
  size : code'.arena.size = code.arena.size
  outside : ∀ j, j < start ∨ start + capacity ≤ j → code'.arena.bytes.data[j]? = code.arena.bytes.data[j]?
  programs : ∀ addr, addr ≠ code.base + start → code'.programs[addr]? = code.programs[addr]?

theorem Wrote.refl (start capacity : Nat) (code : HostCode) : Wrote start capacity code code :=
  ⟨rfl, rfl, rfl, rfl, fun _ _ => rfl, fun _ _ => rfl⟩

theorem wrote_emitBlock (h : code.emitBlock start capacity labels ops = .ok (r, code')) : Wrote start capacity code code' := by
  obtain ⟨⟨bytes, protection⟩, base, emitter, stubs, programs⟩ := code
  unfold emitBlock at h
  dsimp only at h
  split at h
  · split at h
    · cases h
    · rename_i hemit
      have hwithin := within_assemble hemit
      cases h
      refine ⟨rfl, rfl, rfl, hwithin.size, hwithin.outside, fun addr haddr => ?_⟩
      dsimp only
      cases emitter.backend with
      | portable => rfl
      | native => rw [Std.HashMap.getElem?_insert, if_neg (by simpa using Ne.symm haddr)]
  · cases h

/-- On a host that runs machine code, the code that is written does what its micro-operations do. -/
theorem programs_emitBlock (hbackend : code.emitter.backend = .native)
    (h : code.emitBlock start capacity labels ops = .ok (r, code')) : code'.programs[code.base + start]? = some ops := by
  obtain ⟨⟨bytes, protection⟩, base, emitter, stubs, programs⟩ := code
  unfold emitBlock at h
  dsimp only at h hbackend
  rw [hbackend] at h
  split at h
  · split at h
    · cases h
    · cases h
      exact Std.HashMap.getElem?_insert_self
  · cases h

/-- Blocks are written only to windows that lie in the arena. -/
theorem contains_of_emitBlock {out : Except EmitError Nat × HostCode} (h : code.emitBlock start capacity labels ops = .ok out) :
    code.arena.contains start (start + capacity) = true := by
  unfold emitBlock at h
  dsimp only at h
  split at h
  · assumption
  · cases h

/-- The arena has room for the shared code, the spans and the slack behind the last span. -/
theorem size_create {s : Settings} (h : create s = .ok code) :
    Arena.blocksStart + s.cacheSize + s.maxBlockSize ≤ code.arena.size := by
  unfold create at h
  generalize harena : Arena.allocate s.cacheSize s.maxBlockSize s.protection = arena at h
  obtain ⟨bytes, protection⟩ := arena
  dsimp only at h
  split at h
  · cases h
  · rename_i hstubs
    have hsize := (Emitter.within_emitStubs hstubs).size
    cases h
    have hbytes : bytes = zeroBytes ((Arena.stubArea + s.cacheSize + s.maxBlockSize + pageSize - 1) / pageSize * pageSize) :=
      (congrArg Arena.bytes harena).symm
    have hzero : ∀ n, (zeroBytes n).size = n := fun n => Array.size_replicate
    rw [Arena.size, hsize, hbytes, hzero, Arena.blocksStart, Arena.stubArea, pageSize]
    omega

end HostCode

end Recompiler
