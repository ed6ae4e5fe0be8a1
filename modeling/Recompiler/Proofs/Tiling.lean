import Mathlib

/-! Ranges that stand back to back. The spans of the arena are such ranges: joining two neighbours, or splitting one,
moves no border but the one between the two. -/

namespace Recompiler

/-- The listed ranges stand back to back from `lo` to `hi`, and none of them is empty. -/
def Tiles (start size : Nat → Nat) : (lo : Nat) → List Nat → (hi : Nat) → Prop
  | lo, [], hi => lo = hi
  | lo, a :: rest, hi => start a = lo ∧ 0 < size a ∧ Tiles start size (lo + size a) rest hi

namespace Tiles

variable {start size start' size' : Nat → Nat} {lo hi : Nat} {l l' : List Nat} {a b : Nat}

theorem append_iff : Tiles start size lo (l ++ l') hi ↔ ∃ mid, Tiles start size lo l mid ∧ Tiles start size mid l' hi := by
  induction l generalizing lo with
  | nil => simp [Tiles]
  | cons a l ih =>
      simp only [List.cons_append, Tiles, ih]
      constructor
      · rintro ⟨hstart, hpos, mid, hl, hl'⟩
        exact ⟨mid, ⟨hstart, hpos, hl⟩, hl'⟩
      · rintro ⟨mid, ⟨hstart, hpos, hl⟩, hl'⟩
        exact ⟨hstart, hpos, mid, hl, hl'⟩

theorem congr (h : Tiles start size lo l hi) (hstart : ∀ a ∈ l, start' a = start a) (hsize : ∀ a ∈ l, size' a = size a) :
    Tiles start' size' lo l hi := by
  induction l generalizing lo with
  | nil => exact h
  | cons a l ih =>
      obtain ⟨ha, hpos, hl⟩ := h
      refine ⟨(hstart a List.mem_cons_self).trans ha, ?_, ?_⟩
      · rw [hsize a List.mem_cons_self]
        exact hpos
      · rw [hsize a List.mem_cons_self]
        exact ih hl (fun b hb => hstart b (List.mem_cons_of_mem a hb)) fun b hb => hsize b (List.mem_cons_of_mem a hb)

theorem add_sum_eq (h : Tiles start size lo l hi) : lo + (l.map size).sum = hi := by
  induction l generalizing lo with
  | nil => simpa [Tiles] using h
  | cons a l ih =>
      have hrest := ih h.2.2
      rw [List.map_cons, List.sum_cons]
      omega

/-- Every range lies between the two ends. -/
theorem bounds (h : Tiles start size lo l hi) (ha : a ∈ l) : lo ≤ start a ∧ 0 < size a ∧ start a + size a ≤ hi := by
  obtain ⟨before, after, rfl⟩ := List.append_of_mem ha
  obtain ⟨mid, hbefore, hstart, hpos, hafter⟩ := append_iff.mp h
  have hlo := hbefore.add_sum_eq
  have hhi := hafter.add_sum_eq
  exact ⟨by omega, hpos, by omega⟩

/-- A range ends before any later one begins. -/
theorem pairwise (h : Tiles start size lo l hi) : l.Pairwise fun a b => start a + size a ≤ start b := by
  induction l generalizing lo with
  | nil => exact List.Pairwise.nil
  | cons a l ih =>
      obtain ⟨hstart, -, hl⟩ := h
      refine List.pairwise_cons.mpr ⟨fun b hb => ?_, ih hl⟩
      rw [hstart]
      exact (hl.bounds hb).1

/-- The last range reaches up to the end. -/
theorem last_end (h : Tiles start size lo (l ++ [a]) hi) : start a + size a = hi := by
  obtain ⟨mid, -, ha, -, hend⟩ := append_iff.mp h
  rw [ha]
  exact hend

/-- A range takes in the next one. -/
theorem merge (h : Tiles start size lo (l ++ a :: b :: l') hi) (hl : a ∉ l) (hl' : a ∉ l') :
    Tiles start (Function.update size a (size a + size b)) lo (l ++ a :: l') hi := by
  have hkeep : ∀ x, x ≠ a → Function.update size a (size a + size b) x = size x := fun x hx => Function.update_of_ne hx _ _
  obtain ⟨mid, hbefore, hstart, hpos, -, -, hafter⟩ := append_iff.mp h
  refine append_iff.mpr ⟨mid, ?_, hstart, ?_, ?_⟩
  · exact hbefore.congr (fun _ _ => rfl) fun x hx => hkeep x fun h' => hl (h' ▸ hx)
  · rw [Function.update_self]
    exact Nat.add_pos_left hpos _
  · rw [Function.update_self, ← Nat.add_assoc]
    exact hafter.congr (fun _ _ => rfl) fun x hx => hkeep x fun h' => hl' (h' ▸ hx)

/-- The end of a range becomes a range of its own. -/
theorem split (h : Tiles start size lo (l ++ a :: l') hi) (hpos : 0 < size' a) (hlt : size' a < size a)
    (hstart : ∀ x ∈ l ++ a :: l', start' x = start x) (hsize : ∀ x ∈ l ++ l', size' x = size x)
    (hbstart : start' b = start a + size' a) (hbsize : size' b = size a - size' a) :
    Tiles start' size' lo (l ++ a :: b :: l') hi := by
  obtain ⟨mid, hbefore, ha, -, hafter⟩ := append_iff.mp h
  have hend : mid + size' a + size' b = mid + size a := by omega
  refine append_iff.mpr ⟨mid, ?_, ?_, hpos, ?_, ?_, ?_⟩
  · exact hbefore.congr (fun x hx => hstart x (List.mem_append_left _ hx)) fun x hx => hsize x (List.mem_append_left _ hx)
  · rw [hstart a (by simp), ha]
  · rw [hbstart, ha]
  · omega
  · rw [hend]
    exact hafter.congr (fun x hx => hstart x (by simp [hx])) fun x hx => hsize x (List.mem_append_right _ hx)

end Tiles

end Recompiler
