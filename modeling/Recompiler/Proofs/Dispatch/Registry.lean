import Recompiler.Proofs.Dispatch.Arena

/-! The blocks of a page. In every state that can be reached the buckets of the monitors are an index of the live blocks:
every block is in one bucket of one monitor, and looking for an offset finds the block that starts there. -/

namespace Recompiler

namespace Cache

variable {c : Cache} {m : MonitorId} {id : BlockId} {start : Nat}

/-- The bucket that a block belongs in. -/
def homeBucket (c : Cache) (id : BlockId) : Nat :=
  if (c.block id).isCompanion then 0 else c.bucketOf (c.block id).start

namespace Registry

theorem bucket_eq_homeBucket (h : Registry c) (hlive : (c.block id).live = true) : (c.block id).bucket = c.homeBucket id := by
  unfold homeBucket
  cases hcomp : (c.block id).isCompanion with
  | true => simpa [Block.isCompanion] using hcomp
  | false => exact h.ordinary id hlive hcomp

/-- A block is in the bucket of its owner that it belongs in, and in no other bucket. -/
theorem mem_bucket_iff (h : Registry c) (i : Nat) :
    id ∈ (c.monitor m).bucket i ↔ (c.block id).owner = some m ∧ i = c.homeBucket id := by
  rw [h.mem_bucket]
  refine and_congr_right fun howner => ?_
  rw [h.bucket_eq_homeBucket (live_iff.mpr ⟨m, howner⟩), eq_comm]

theorem count_bucket (h : Registry c) (howner : (c.block id).owner = some m) :
    ((c.monitor m).bucket (c.homeBucket id)).count id = 1 :=
  List.count_eq_one_of_mem (h.nodup m _) ((h.mem_bucket_iff _).mpr ⟨howner, rfl⟩)

/-- No block of the page starts where none is found, and two blocks that start at one offset are the same. -/
theorem find_eq_some_iff (h : Registry c) :
    c.find m start = some id ↔ (c.block id).owner = some m ∧ (c.block id).isCompanion = false ∧ (c.block id).start = start := by
  refine ⟨find_spec h, ?_⟩
  rintro ⟨howner, hord, hstart⟩
  cases hfind : c.find m start with
  | none => exact absurd hstart (find_eq_none h hfind howner hord)
  | some x =>
      obtain ⟨hx, hxord, hxstart⟩ := find_spec h hfind
      rw [h.start_inj x id m hx howner hxord hord (hxstart.trans hstart.symm)]

end Registry

end Cache

namespace Machine

open Cache

/-- In every state that can be reached, a block is live exactly if it is in a bucket of a monitor. That monitor is its
owner, and is found by its page. The block is there once, in the bucket that it belongs in, which is the first one for
companions. Every monitor counts its blocks. No two blocks of a page with code of their own start at one offset, so that
looking for an offset gives the one that starts there, and none exactly if there is none. -/
theorem live_iff_mem_bucket {σ : Type} {p : Platform σ} (hp : p.Confined .free) {m : Machine σ} {log : List Compilation}
    (h : History .free p m log) {r : Resources} (hr : m.core.resources = some r) :
    (∀ id, (r.cache.block id).live = true ↔ ∃ n i, id ∈ (r.cache.monitor n).bucket i) ∧
    (∀ id n, (r.cache.block id).owner = some n →
      (r.cache.monitor n).installed = true ∧ r.cache.monitorOf (r.cache.monitor n).page = some n ∧
      ((r.cache.monitor n).bucket (r.cache.homeBucket id)).count id = 1) ∧
    (∀ id n i, id ∈ (r.cache.monitor n).bucket i → (r.cache.block id).owner = some n ∧ i = r.cache.homeBucket id) ∧
    (∀ n, (r.cache.monitor n).activeBlocks = (r.cache.owned n).card) ∧
    (∀ a b n, (r.cache.block a).owner = some n → (r.cache.block b).owner = some n → (r.cache.block a).isCompanion = false →
      (r.cache.block b).isCompanion = false → (r.cache.block a).start = (r.cache.block b).start → a = b) ∧
    (∀ n start id, r.cache.find n start = some id ↔
      (r.cache.block id).owner = some n ∧ (r.cache.block id).isCompanion = false ∧ (r.cache.block id).start = start) ∧
    ∀ n start, r.cache.find n start = none ↔
      ¬∃ id, (r.cache.block id).owner = some n ∧ (r.cache.block id).isCompanion = false ∧ (r.cache.block id).start = start := by
  obtain ⟨r', hr', hhoused⟩ := h.keeps (Housed.upkeep _ fun _ => True) hp fun _ _ => trivial
  obtain rfl : r = r' := Option.some.inj (hr.symm.trans hr')
  have hreg := hhoused.sound.registry
  refine ⟨fun id => ?_, fun id n howner => ?_, fun id n i => (hreg.mem_bucket_iff i).mp, hreg.active, hreg.start_inj,
    fun n start id => hreg.find_eq_some_iff, fun n start => ?_⟩
  · rw [live_iff]
    exact ⟨fun ⟨n, hn⟩ => ⟨n, _, (hreg.mem_bucket_iff _).mpr ⟨hn, rfl⟩⟩,
      fun ⟨n, i, hmem⟩ => ⟨n, ((hreg.mem_bucket_iff i).mp hmem).1⟩⟩
  · have hinst := hreg.installed id n howner
    exact ⟨hinst, (hhoused.sound.watches.byPage _ n).mpr ⟨hinst, rfl⟩, hreg.count_bucket howner⟩
  · simp only [Option.eq_none_iff_forall_ne_some, ne_eq, hreg.find_eq_some_iff, not_exists]

/-- The block for a jump to itself is found where it starts. -/
theorem live_iff_mem_bucket_loop :
    ∃ (m : Machine Interpreter) (log : List Compilation) (r : Resources) (n : MonitorId),
      History .free Interpreter.platform m log ∧ m.core.resources = some r ∧ (r.cache.block 0).owner = some n ∧
        r.cache.find n (r.cache.block 0).start = some 0 ∧ (r.cache.monitor n).activeBlocks = (r.cache.owned n).card := by
  obtain ⟨m, log, r, hhistory, hr, hlive, hord⟩ := exists_history_loop (R := .free) trivial
  obtain ⟨-, -, -, hactive, -, hfind, -⟩ := live_iff_mem_bucket (Interpreter.platform_confined _) hhistory hr
  obtain ⟨n, hn⟩ := live_iff.mp hlive
  exact ⟨m, log, r, n, hhistory, hr, hn, (hfind n _ 0).mpr ⟨hn, hord, rfl⟩, hactive n⟩

end Machine

end Recompiler
