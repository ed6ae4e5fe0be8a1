import Mathlib
import Recompiler.Cache.Basic

/-! Lists threaded through numbered records. Free descriptors, spans, link sources and installed monitors are all
kept as such lists: a first number, and in every record the number of the next one. -/

namespace Recompiler

/-- Following `next` from `start` passes exactly the listed records and then stands at `stop`. -/
def Path (next : Nat → Option Nat) : (start : Option Nat) → List Nat → (stop : Option Nat) → Prop
  | start, [], stop => start = stop
  | start, a :: rest, stop => start = some a ∧ Path next (next a) rest stop

namespace Path

variable {next next' : Nat → Option Nat} {start stop : Option Nat} {l l' : List Nat} {a : Nat}

@[simp] theorem nil_iff : Path next start [] stop ↔ start = stop := Iff.rfl

@[simp] theorem cons_iff : Path next start (a :: l) stop ↔ start = some a ∧ Path next (next a) l stop := Iff.rfl

theorem append_iff : Path next start (l ++ l') stop ↔ ∃ mid, Path next start l mid ∧ Path next mid l' stop := by
  induction l generalizing start with
  | nil => simp
  | cons a l ih =>
      simp only [List.cons_append, cons_iff, ih]
      constructor
      · rintro ⟨hstart, mid, hl, hl'⟩
        exact ⟨mid, ⟨hstart, hl⟩, hl'⟩
      · rintro ⟨mid, ⟨hstart, hl⟩, hl'⟩
        exact ⟨hstart, mid, hl, hl'⟩

/-- Only the links of the records on the way matter. -/
theorem congr (h : Path next start l stop) (hnext : ∀ a ∈ l, next' a = next a) : Path next' start l stop := by
  induction l generalizing start with
  | nil => exact h
  | cons a l ih =>
      refine ⟨h.1, ?_⟩
      rw [hnext a List.mem_cons_self]
      exact ih h.2 fun b hb => hnext b (List.mem_cons_of_mem a hb)

theorem unique (h : Path next start l none) (h' : Path next start l' none) : l = l' := by
  induction l generalizing start l' with
  | nil =>
      cases l' with
      | nil => rfl
      | cons b l' => rw [nil_iff.mp h] at h'; exact absurd h'.1 (by simp)
  | cons a l ih =>
      cases l' with
      | nil => rw [nil_iff.mp h'] at h; exact absurd h.1 (by simp)
      | cons b l' =>
          have hab : a = b := Option.some.inj (h.1.symm.trans h'.1)
          subst hab
          rw [ih h.2 h'.2]

/-- A list that ends passes no record twice, since the records that follow a record are determined by it. -/
theorem nodup (h : Path next start l none) : l.Nodup := by
  induction l generalizing start with
  | nil => exact List.nodup_nil
  | cons a l ih =>
      refine List.nodup_cons.mpr ⟨fun hmem => ?_, ih h.2⟩
      obtain ⟨before, after, rfl⟩ := List.append_of_mem hmem
      obtain ⟨mid, -, hmid⟩ := append_iff.mp h.2
      have hshort : Path next (some a) (a :: after) none := ⟨rfl, hmid.2⟩
      have hlong : Path next (some a) (a :: (before ++ a :: after)) none := ⟨rfl, h.2⟩
      have hlen := congrArg List.length (unique hshort hlong)
      simp only [List.length_cons, List.length_append] at hlen
      omega

/-- The bounded walk along a list is the list. -/
theorem chain_eq (h : Path next start l none) {n : Nat} (hn : l.length ≤ n) : Cache.chain next n start = l := by
  induction l generalizing start n with
  | nil =>
      rw [nil_iff.mp h]
      cases n <;> rfl
  | cons a l ih =>
      obtain ⟨n, rfl⟩ : ∃ k, n = k + 1 := ⟨n - 1, by simp only [List.length_cons] at hn; omega⟩
      rw [h.1, Cache.chain, ih h.2 (by simpa using hn)]

/-- A record in the middle of a list leads to what follows it. -/
theorem tail_of_mem (h : Path next start l none) (hmem : a ∈ l) :
    ∃ before after, l = before ++ a :: after ∧ Path next start before (some a) ∧ Path next (next a) after none := by
  obtain ⟨before, after, rfl⟩ := List.append_of_mem hmem
  obtain ⟨mid, hbefore, hmid, hafter⟩ := append_iff.mp h
  exact ⟨before, after, rfl, hmid ▸ hbefore, hafter⟩

/-- The list without its first record. -/
theorem skip_head (h : Path next start (a :: l) none) (hnext : ∀ b, b ≠ a → next' b = next b) :
    Path next' (next a) l none := by
  refine h.2.congr fun b hb => hnext b ?_
  rintro rfl
  exact (List.nodup_cons.mp h.nodup).1 hb

/-- The list without the record `a`, when the one before it is made to lead past it. -/
theorem bypass {init : List Nat} {p : Nat} (h : Path next start (init ++ p :: a :: l) none)
    (hnext : ∀ b, b ≠ p → b ≠ a → next' b = next b) (hp : next' p = next a) :
    Path next' start (init ++ p :: l) none := by
  have hnodup := h.nodup
  simp only [List.nodup_append, List.nodup_cons, List.mem_cons, not_or, ne_eq, forall_eq_or_imp] at hnodup
  obtain ⟨-, ⟨⟨-, hpl⟩, hal, -⟩, hapart⟩ := hnodup
  obtain ⟨mid, hinit, hmid⟩ := append_iff.mp h
  refine append_iff.mpr ⟨mid, hinit.congr fun b hb => hnext b (hapart b hb).1 (hapart b hb).2.1, hmid.1, ?_⟩
  rw [hp]
  exact hmid.2.2.congr fun b hb => hnext b (fun h' => hpl (h' ▸ hb)) fun h' => hal (h' ▸ hb)

end Path

end Recompiler
