import Recompiler.Proofs.Code.Window

/-! What assembly writes, for any host encoding: the pieces of the micro-operations one after the other, with each label
field filled in for the place where its label is bound last. -/

namespace Recompiler

namespace CodeBuffer

variable {b b' : CodeBuffer}

/-- The byte at a position of the window. -/
def byte (b : CodeBuffer) (j : Nat) : Option UInt8 :=
  b.store.data[b.start + j]?

/-- The whole window lies in the store. -/
def Backed (b : CodeBuffer) : Prop :=
  b.start + b.capacity ≤ b.store.size

/-- Bytes that stand in the window from a position on. -/
def Holds (b : CodeBuffer) (pos : Nat) (bytes : List UInt8) : Prop :=
  ∀ i, i < bytes.length → b.byte (pos + i) = bytes[i]?

theorem Within.backed (h : b.Within b') (hb : b.Backed) : b'.Backed := by
  rw [Backed, h.start, h.capacity, h.size]
  exact hb

theorem byte_overwrite (hb : b.Backed) {position pos : Nat} {bytes : List UInt8} (hfit : position + bytes.length ≤ b.capacity)
    (j : Nat) :
    byte { b with store := overwrite b.store (b.start + position) bytes, pos := pos } j =
      if position ≤ j ∧ j < position + bytes.length then bytes[j - position]? else b.byte j := by
  unfold Backed at hb
  unfold byte
  dsimp only
  rw [getElem?_overwrite]
  by_cases hj : position ≤ j ∧ j < position + bytes.length
  · have hsub : b.start + j - (b.start + position) = j - position := by omega
    rw [if_pos hj, if_pos (by omega), hsub]
  · rw [if_neg hj, if_neg (by omega)]

theorem byte_emit (hb : b.Backed) {bytes : List UInt8} (hfit : b.pos + bytes.length ≤ b.capacity) (j : Nat) :
    (b.emit bytes).byte j =
      if b.pos ≤ j ∧ j < b.pos + bytes.length then bytes[j - b.pos]? else b.byte j := by
  unfold emit
  dsimp only
  rw [if_pos hfit]
  exact byte_overwrite hb hfit j

theorem byte_patch (hb : b.Backed) {position : Nat} {bytes : List UInt8} (hfit : position + bytes.length ≤ b.capacity) (j : Nat) :
    (b.patch position bytes).byte j =
      if position ≤ j ∧ j < position + bytes.length then bytes[j - position]? else b.byte j := by
  unfold patch
  rw [if_pos hfit]
  exact byte_overwrite hb hfit j

@[simp] theorem pos_emit (b : CodeBuffer) (bytes : List UInt8) : (b.emit bytes).pos = b.pos + bytes.length := by
  unfold emit
  dsimp only
  split <;> rfl

@[simp] theorem pos_patch (b : CodeBuffer) (position : Nat) (bytes : List UInt8) : (b.patch position bytes).pos = b.pos := by
  unfold patch
  split <;> rfl

/-- What is in the window before the cursor stays. -/
theorem byte_emit_of_lt (b : CodeBuffer) (bytes : List UInt8) {j : Nat} (hj : j < b.pos) : (b.emit bytes).byte j = b.byte j := by
  unfold emit byte
  dsimp only
  split
  · dsimp only
    rw [getElem?_overwrite, if_neg (by omega)]
  · rfl

namespace Holds

variable {pos : Nat} {xs ys : List UInt8}

theorem nil (b : CodeBuffer) (pos : Nat) : b.Holds pos [] :=
  fun _ hi => absurd hi (by simp)

theorem append (hx : b.Holds pos xs) (hy : b.Holds (pos + xs.length) ys) : b.Holds pos (xs ++ ys) := by
  intro i hi
  rw [List.length_append] at hi
  by_cases hix : i < xs.length
  · rw [List.getElem?_append_left hix]
    exact hx i hix
  · have hpos : pos + i = pos + xs.length + (i - xs.length) := by omega
    rw [List.getElem?_append_right (by omega), hpos]
    exact hy (i - xs.length) (by omega)

theorem left (h : b.Holds pos (xs ++ ys)) : b.Holds pos xs := by
  intro i hi
  have hbyte := h i (by rw [List.length_append]; omega)
  rwa [List.getElem?_append_left hi] at hbyte

theorem right (h : b.Holds pos (xs ++ ys)) : b.Holds (pos + xs.length) ys := by
  intro i hi
  have hbyte := h (xs.length + i) (by rw [List.length_append]; omega)
  rw [List.getElem?_append_right (by omega), Nat.add_sub_cancel_left] at hbyte
  rwa [Nat.add_assoc]

theorem congr (h : b.Holds pos xs) (hbyte : ∀ j, pos ≤ j → j < pos + xs.length → b'.byte j = b.byte j) : b'.Holds pos xs := by
  intro i hi
  rw [hbyte (pos + i) (by omega) (by omega)]
  exact h i hi

theorem emit (hb : b.Backed) (hfit : b.pos + xs.length ≤ b.capacity) : (b.emit xs).Holds b.pos xs := by
  intro i hi
  rw [byte_emit hb hfit, if_pos (by omega), Nat.add_sub_cancel_left]

theorem patch (hb : b.Backed) (hfit : pos + xs.length ≤ b.capacity) : (b.patch pos xs).Holds pos xs := by
  intro i hi
  rw [byte_patch hb hfit, if_pos (by omega), Nat.add_sub_cancel_left]

end Holds

end CodeBuffer

/-! ### Sizes and contents of pieces -/

@[simp] theorem length_littleEndian (n value : Nat) : (littleEndian n value).length = n := by
  induction n generalizing value with
  | zero => rfl
  | succ n ih => rw [littleEndian, List.length_cons, ih]

namespace HostEncoding

variable (e : HostEncoding)

/-- The pieces that stand for a micro-operation; none stand for a label. -/
def written : MicroOp → List Piece
  | .bind _ => []
  | op => e.pieces op

/-- Label fields are filled in to their size. -/
def Sized : Prop :=
  ∀ base field target, (e.labelField base field target).length = e.labelSize

def pieceSize : Piece → Nat
  | .raw bytes => bytes.length
  | .distance _ => 4
  | .label _ => e.labelSize

def size (ps : List Piece) : Nat :=
  (ps.map e.pieceSize).sum

/-- Size of the code of micro-operations. -/
def codeSize (ops : List MicroOp) : Nat :=
  e.size (ops.flatMap e.written)

/-- The bytes of a piece at a position of a block at the host address `base`; `content` gives those of label fields. -/
def pieceBytes (base : Nat) (content : Nat → Label → List UInt8) (pos : Nat) : Piece → List UInt8
  | .raw bytes => bytes
  | .distance target => distance32 (base + pos + 4) target
  | .label l => content pos l

/-- The bytes of consecutive pieces. -/
def render (base : Nat) (content : Nat → Label → List UInt8) : (pos : Nat) → List Piece → List UInt8
  | _, [] => []
  | pos, p :: ps => pieceBytes base content pos p ++ render base content (pos + e.pieceSize p) ps

/-- The label fields among consecutive pieces, with their positions. -/
def fields : (pos : Nat) → List Piece → List (Nat × Label)
  | _, [] => []
  | pos, .label l :: ps => (pos, l) :: fields (pos + e.labelSize) ps
  | pos, p :: ps => fields (pos + e.pieceSize p) ps

/-- The content of a label field before its label is known. -/
def blank (_ : Nat) (_ : Label) : List UInt8 :=
  List.replicate e.labelSize 0

@[simp] theorem size_append (ps qs : List Piece) : e.size (ps ++ qs) = e.size ps + e.size qs := by
  simp [size]

@[simp] theorem codeSize_append (ops ops' : List MicroOp) : e.codeSize (ops ++ ops') = e.codeSize ops + e.codeSize ops' := by
  simp [codeSize]

theorem codeSize_cons (op : MicroOp) (ops : List MicroOp) : e.codeSize (op :: ops) = e.size (e.written op) + e.codeSize ops := by
  simp [codeSize]

variable {e}

theorem length_pieceBytes {content : Nat → Label → List UInt8} (hc : ∀ pos l, (content pos l).length = e.labelSize) (base pos : Nat)
    (p : Piece) : (pieceBytes base content pos p).length = e.pieceSize p := by
  cases p with
  | raw bytes => rfl
  | distance target => exact length_littleEndian 4 _
  | label l => exact hc pos l

theorem length_render {content : Nat → Label → List UInt8} (hc : ∀ pos l, (content pos l).length = e.labelSize) (base pos : Nat)
    (ps : List Piece) : (e.render base content pos ps).length = e.size ps := by
  induction ps generalizing pos with
  | nil => rfl
  | cons p ps ih =>
      rw [render, List.length_append, length_pieceBytes hc, ih]
      simp [size]

theorem length_blank (pos : Nat) (l : Label) : (e.blank pos l).length = e.labelSize :=
  List.length_replicate

theorem render_append (base : Nat) (content : Nat → Label → List UInt8) (pos : Nat) (ps qs : List Piece) :
    e.render base content pos (ps ++ qs) = e.render base content pos ps ++ e.render base content (pos + e.size ps) qs := by
  induction ps generalizing pos with
  | nil => rfl
  | cons p ps ih =>
      have hsize : pos + e.size (p :: ps) = pos + e.pieceSize p + e.size ps := by
        simp only [size, List.map_cons, List.sum_cons]
        omega
      rw [List.cons_append, render, render, ih, hsize, List.append_assoc]

theorem fields_cons (pos : Nat) (p : Piece) (ps : List Piece) :
    e.fields pos (p :: ps) = e.fields pos [p] ++ e.fields (pos + e.pieceSize p) ps := by
  cases p <;> rfl

theorem fields_append (pos : Nat) (ps qs : List Piece) :
    e.fields pos (ps ++ qs) = e.fields pos ps ++ e.fields (pos + e.size ps) qs := by
  induction ps generalizing pos with
  | nil => rfl
  | cons p ps ih =>
      have hsize : pos + e.size (p :: ps) = pos + e.pieceSize p + e.size ps := by
        simp only [size, List.map_cons, List.sum_cons]
        omega
      rw [List.cons_append, fields_cons, ih, hsize, fields_cons pos p ps, List.append_assoc]

end HostEncoding

/-! ### Writing pieces -/

namespace Assembly

variable {e : HostEncoding} {a a' a'' : Assembly} {ps qs : List Piece}

/-- Pieces are appended, with their label fields left blank. -/
structure Appends (e : HostEncoding) (ps : List Piece) (a a' : Assembly) : Prop where
  within : a.buffer.Within a'.buffer
  pos : a'.buffer.pos = a.buffer.pos + e.size ps
  fields : a'.fields = a.fields ++ e.fields a.buffer.pos ps
  before : ∀ j, j < a.buffer.pos → a'.buffer.byte j = a.buffer.byte j
  holds : a.buffer.Backed → a'.buffer.pos ≤ a.buffer.capacity →
    a'.buffer.Holds a.buffer.pos (e.render a.buffer.base e.blank a.buffer.pos ps)

namespace Appends

/-- Nothing is appended. -/
theorem none (hbuffer : a'.buffer = a.buffer) (hfields : a'.fields = a.fields) : Appends e [] a a' where
  within := hbuffer ▸ .refl _
  pos := congrArg CodeBuffer.pos hbuffer
  fields := hfields.trans (List.append_nil _).symm
  before j _ := congrArg (CodeBuffer.byte · j) hbuffer
  holds _ _ := .nil _ _

theorem trans (h : Appends e ps a a') (h' : Appends e qs a' a'') : Appends e (ps ++ qs) a a'' where
  within := h.within.trans h'.within
  pos := by rw [h'.pos, h.pos, HostEncoding.size_append, Nat.add_assoc]
  fields := by rw [h'.fields, h.fields, h.pos, HostEncoding.fields_append, List.append_assoc]
  before j hj := by
    have hj' : j < a'.buffer.pos := by rw [h.pos]; omega
    exact (h'.before j hj').trans (h.before j hj)
  holds hb hfit := by
    have hlength := HostEncoding.length_render (e := e) HostEncoding.length_blank a.buffer.base a.buffer.pos ps
    have hle : a'.buffer.pos ≤ a.buffer.capacity := by
      have hpos := h'.pos
      omega
    have hfirst : a''.buffer.Holds a.buffer.pos _ := (h.holds hb hle).congr fun j _ hj => h'.before j (by rw [h.pos]; omega)
    have hrest := h'.holds (h.within.backed hb) (by rwa [h.within.capacity])
    rw [h.within.base, h.pos] at hrest
    rw [HostEncoding.render_append]
    apply hfirst.append
    rwa [hlength]

theorem piece (a : Assembly) (p : Piece) : Appends e [p] a (a.piece e p) := by
  have hlength := HostEncoding.length_pieceBytes (e := e) HostEncoding.length_blank a.buffer.base a.buffer.pos p
  have hemit : (a.piece e p).buffer = a.buffer.emit (HostEncoding.pieceBytes a.buffer.base e.blank a.buffer.pos p) := by
    cases p <;> rfl
  have hpos : (a.piece e p).buffer.pos = a.buffer.pos + e.pieceSize p := by
    rw [hemit, CodeBuffer.pos_emit, hlength]
  refine ⟨within_piece e a p, ?_, ?_, fun j hj => ?_, fun hb hfit => ?_⟩
  · rw [hpos]
    simp [HostEncoding.size]
  · cases p with
    | label l => rfl
    | raw bytes => exact (List.append_nil _).symm
    | distance target => exact (List.append_nil _).symm
  · rw [hemit]
    exact CodeBuffer.byte_emit_of_lt _ _ hj
  · rw [hpos, ← hlength] at hfit
    rw [HostEncoding.render, HostEncoding.render, List.append_nil, hemit]
    exact .emit hb hfit

theorem pieces (a : Assembly) (ps : List Piece) : Appends e ps a (ps.foldl (Assembly.piece e) a) := by
  induction ps generalizing a with
  | nil => exact .none rfl rfl
  | cons p ps ih => exact (piece a p).trans (ih _)

theorem op {op : MicroOp} (h : a.op e op = .ok a') : Appends e (e.written op) a a' := by
  cases op with
  | bind l =>
      by_cases hl : l < a.bound.size
      · rw [Assembly.op, dif_pos hl] at h
        cases h
        exact .none rfl rfl
      · rw [Assembly.op, dif_neg hl] at h
        cases h
  | _ =>
      cases h
      exact pieces a _

theorem ops {ops : List MicroOp} (h : ops.foldlM (Assembly.op e) a = .ok a') : Appends e (ops.flatMap e.written) a a' := by
  induction ops generalizing a with
  | nil =>
      cases h
      exact .none rfl rfl
  | cons op ops ih =>
      rw [List.foldlM_cons] at h
      cases hop : a.op e op with
      | error abort =>
          rw [hop] at h
          cases h
      | ok a₁ =>
          rw [hop] at h
          exact (Appends.op hop).trans (ih h)

end Appends

end Assembly

/-! ### Binding labels -/

namespace MicroOp

/-- The operations before the last place where a label is bound. -/
def beforeBind (label : Label) : List MicroOp → List MicroOp
  | [] => []
  | op :: rest => if rest.contains (bind label) then op :: beforeBind label rest else []

theorem eq_beforeBind_append {l : Label} {ops : List MicroOp} (h : bind l ∈ ops) :
    ops = beforeBind l ops ++ bind l :: afterBind l ops ∧ bind l ∉ afterBind l ops := by
  induction ops with
  | nil => cases h
  | cons op rest ih =>
      by_cases hrest : bind l ∈ rest
      · have hcontains : rest.contains (bind l) = true := by simpa using hrest
        obtain ⟨hsplit, hlast⟩ := ih hrest
        rw [beforeBind, afterBind, if_pos hcontains, if_pos hcontains]
        exact ⟨congrArg (op :: ·) hsplit, hlast⟩
      · have hcontains : ¬rest.contains (bind l) = true := by simpa using hrest
        have hop : op = bind l := by
          rcases List.mem_cons.1 h with hop | hmem
          · exact hop.symm
          · exact absurd hmem hrest
        rw [beforeBind, afterBind, if_neg hcontains, if_neg hcontains, if_pos hop, hop]
        exact ⟨rfl, hrest⟩

end MicroOp

namespace Assembly

open MicroOp

variable {e : HostEncoding} {a a' : Assembly} {ops : List MicroOp} {l : Label}

theorem bound_pieces (a : Assembly) (ps : List Piece) : (ps.foldl (Assembly.piece e) a).bound = a.bound := by
  induction ps generalizing a with
  | nil => rfl
  | cons p ps ih =>
      rw [List.foldl_cons, ih]
      cases p <;> rfl

theorem bound_op_bind (h : a.op e (.bind l) = .ok a') :
    l < a.bound.size ∧ a'.bound = a.bound.setIfInBounds l (some a.buffer.pos) := by
  by_cases hl : l < a.bound.size
  · rw [Assembly.op, dif_pos hl] at h
    cases h
    refine ⟨hl, ?_⟩
    rw [Array.setIfInBounds, dif_pos hl]
  · rw [Assembly.op, dif_neg hl] at h
    cases h

theorem bound_op_of_ne {op : MicroOp} (h : a.op e op = .ok a') (hop : op ≠ .bind l) :
    a'.bound.size = a.bound.size ∧ a'.bound[l]? = a.bound[l]? := by
  cases op with
  | bind l' =>
      rw [(bound_op_bind h).2, Array.size_setIfInBounds]
      refine ⟨rfl, Array.getElem?_setIfInBounds_ne ?_⟩
      rintro rfl
      exact hop rfl
  | _ =>
      cases h
      rw [bound_pieces]
      exact ⟨rfl, rfl⟩

theorem bound_ops_of_not_mem (h : ops.foldlM (Assembly.op e) a = .ok a') (hl : .bind l ∉ ops) : a'.bound[l]? = a.bound[l]? := by
  induction ops generalizing a with
  | nil =>
      cases h
      rfl
  | cons op ops ih =>
      rw [List.mem_cons, not_or] at hl
      rw [List.foldlM_cons] at h
      cases hop : a.op e op with
      | error abort =>
          rw [hop] at h
          cases h
      | ok a₁ =>
          rw [hop] at h
          rw [ih h hl.2]
          exact (bound_op_of_ne hop (Ne.symm hl.1)).2

/-- A label stands where it was bound last. -/
theorem bound_ops_of_mem (h : ops.foldlM (Assembly.op e) a = .ok a') (hl : .bind l ∈ ops) :
    a'.bound[l]? = some (some (a.buffer.pos + e.codeSize (beforeBind l ops))) := by
  obtain ⟨hsplit, hlast⟩ := eq_beforeBind_append hl
  rw [hsplit, List.foldlM_append] at h
  cases hbefore : (beforeBind l ops).foldlM (Assembly.op e) a with
  | error abort =>
      rw [hbefore] at h
      cases h
  | ok a₁ =>
      rw [hbefore] at h
      change (bind l :: afterBind l ops).foldlM (Assembly.op e) a₁ = .ok a' at h
      rw [List.foldlM_cons] at h
      cases hbind : a₁.op e (.bind l) with
      | error abort =>
          rw [hbind] at h
          cases h
      | ok a₂ =>
          rw [hbind] at h
          obtain ⟨hlt, hbound⟩ := bound_op_bind hbind
          have hpos : a₁.buffer.pos = a.buffer.pos + e.codeSize (beforeBind l ops) := (Appends.ops hbefore).pos
          rw [bound_ops_of_not_mem h hlast, hbound, Array.getElem?_setIfInBounds_self_of_lt hlt, hpos]

theorem size_bound_op {op : MicroOp} (h : a.op e op = .ok a') : a'.bound.size = a.bound.size := by
  cases op with
  | bind l => rw [(bound_op_bind h).2, Array.size_setIfInBounds]
  | _ =>
      cases h
      rw [bound_pieces]

theorem exists_ops (hbind : ∀ l, .bind l ∈ ops → l < a.bound.size) : ∃ a', ops.foldlM (Assembly.op e) a = .ok a' := by
  induction ops generalizing a with
  | nil => exact ⟨a, rfl⟩
  | cons op ops ih =>
      have hop : ∃ a₁, a.op e op = .ok a₁ := by
        cases op with
        | bind l => exact ⟨_, dif_pos (hbind l List.mem_cons_self)⟩
        | _ => exact ⟨_, rfl⟩
      obtain ⟨a₁, ha₁⟩ := hop
      rw [List.foldlM_cons, ha₁]
      exact ih fun l hl => (hbind l (List.mem_cons_of_mem _ hl)).trans_eq (size_bound_op ha₁).symm

/-- The label fields of consecutive pieces are filled in. -/
structure Fills (e : HostEncoding) (target : Label → Nat) (pos : Nat) (ps : List Piece) (b b' : CodeBuffer) : Prop where
  within : b.Within b'
  cursor : b'.pos = b.pos
  before : b.Backed → pos + e.size ps ≤ b.capacity → ∀ j, j < pos → b'.byte j = b.byte j
  holds : b.Backed → pos + e.size ps ≤ b.capacity → b.Holds pos (e.render b.base e.blank pos ps) →
    b'.Holds pos (e.render b.base (fun field l => e.labelField b.base field (target l)) pos ps)

namespace Fills

variable {target : Label → Nat} {pos : Nat} {p : Piece} {ps : List Piece} {b b' : CodeBuffer}

theorem refl (b : CodeBuffer) : Fills e target pos [] b b :=
  ⟨.refl b, rfl, fun _ _ _ _ => rfl, fun _ _ h => h⟩

/-- A piece without a label field is passed over. -/
theorem skip (hp : ∀ content, HostEncoding.pieceBytes b.base content pos p = HostEncoding.pieceBytes b.base e.blank pos p)
    (h : Fills e target (pos + e.pieceSize p) ps b b') : Fills e target pos (p :: ps) b b' := by
  have hsize : e.size (p :: ps) = e.pieceSize p + e.size ps := rfl
  have hlength := HostEncoding.length_pieceBytes (e := e) HostEncoding.length_blank b.base pos p
  refine ⟨h.within, h.cursor, fun hb hfit j hj => h.before hb (by omega) j (by omega), fun hb hfit hblank => ?_⟩
  have hbefore := h.before hb (by omega)
  rw [HostEncoding.render] at hblank ⊢
  rw [hp]
  have hright := hblank.right
  rw [hlength] at hright
  apply (hblank.left.congr fun j _ hj => hbefore j (by omega)).append
  rw [hlength]
  exact h.holds hb (by omega) hright

/-- A label field is filled in before those behind it. -/
theorem patch (he : e.Sized)
    (h : Fills e target (pos + e.labelSize) ps (b.patch pos (e.labelField b.base pos (target l))) b') :
    Fills e target pos (.label l :: ps) b b' := by
  have hpatch := CodeBuffer.Within.patch b pos (e.labelField b.base pos (target l))
  have hsize : e.size (.label l :: ps) = e.labelSize + e.size ps := rfl
  have hlength := he b.base pos (target l)
  have hbyte (hb : b.Backed) (hfit : pos + e.size (.label l :: ps) ≤ b.capacity) :=
    CodeBuffer.byte_patch hb (show pos + (e.labelField b.base pos (target l)).length ≤ b.capacity by omega)
  have hbefore (hb : b.Backed) (hfit : pos + e.size (.label l :: ps) ≤ b.capacity) :=
    h.before (hpatch.backed hb) (by rw [hpatch.capacity]; omega)
  refine ⟨hpatch.trans h.within, h.cursor.trans (CodeBuffer.pos_patch ..), fun hb hfit j hj => ?_, fun hb hfit hblank => ?_⟩
  · rw [hbefore hb hfit j (by omega), hbyte hb hfit, if_neg (by omega)]
  · have hfield : (b.patch pos (e.labelField b.base pos (target l))).Holds pos (e.labelField b.base pos (target l)) :=
      .patch hb (by omega)
    have hright := hblank.right
    change b.Holds (pos + (e.blank pos l).length) (e.render b.base e.blank (pos + e.labelSize) ps) at hright
    rw [HostEncoding.length_blank] at hright
    have hrest := h.holds (hpatch.backed hb) (by rw [hpatch.capacity]; omega)
    rw [hpatch.base] at hrest
    apply (hfield.congr fun j _ hj => hbefore hb hfit j (by omega)).append
    rw [hlength]
    exact hrest (hright.congr fun j hj _ => by rw [hbyte hb hfit, if_neg (by omega)])

end Fills

theorem resolve_spec (he : e.Sized) {bound : Array (Option Nat)} {target : Label → Nat} {ps : List Piece}
    (hbound : ∀ l, .label l ∈ ps → bound[l]? = some (some (target l))) (pos : Nat) (b : CodeBuffer) :
    ∃ b', resolve e bound (e.fields pos ps) b = .ok (.ok (), b') ∧ Fills e target pos ps b b' := by
  induction ps generalizing pos b with
  | nil => exact ⟨b, rfl, .refl b⟩
  | cons p ps ih =>
      have hrest : ∀ l, .label l ∈ ps → bound[l]? = some (some (target l)) := fun l hl => hbound l (List.mem_cons_of_mem _ hl)
      cases p with
      | raw bytes =>
          obtain ⟨b', hresolve, hfills⟩ := ih hrest (pos + bytes.length) b
          exact ⟨b', hresolve, hfills.skip fun _ => rfl⟩
      | distance t =>
          obtain ⟨b', hresolve, hfills⟩ := ih hrest (pos + 4) b
          exact ⟨b', hresolve, hfills.skip fun _ => rfl⟩
      | label l =>
          obtain ⟨b', hresolve, hfills⟩ := ih hrest (pos + e.labelSize) (b.patch pos (e.labelField b.base pos (target l)))
          refine ⟨b', ?_, hfills.patch he⟩
          rw [HostEncoding.fields, resolve, hbound l List.mem_cons_self]
          exact hresolve

end Assembly

/-- What stands in label fields: each label stands where it is bound last. -/
def HostEncoding.resolved (e : HostEncoding) (base : Nat) (ops : List MicroOp) (field : Nat) (l : Label) : List UInt8 :=
  e.labelField base field (e.codeSize (MicroOp.beforeBind l ops))

/-- Assembly succeeds when every label in use is bound, and the code then is the bytes of all pieces. -/
theorem assemble_spec {e : HostEncoding} (he : e.Sized) {labels : Nat} {ops : List MicroOp} {b : CodeBuffer} (hpos : b.pos = 0)
    (hlabels : ∀ l, .bind l ∈ ops → l < labels) (hbound : ∀ l, .label l ∈ ops.flatMap e.written → .bind l ∈ ops) :
    ∃ b', assemble e labels ops b = .ok (.ok (), b') ∧ b.Within b' ∧ b'.pos = e.codeSize ops ∧
      (b.Backed → e.codeSize ops ≤ b.capacity →
        b'.Holds 0 (e.render b.base (e.resolved b.base ops) 0 (ops.flatMap e.written))) := by
  obtain ⟨a, ha⟩ := Assembly.exists_ops (e := e) (a := { buffer := b, bound := Array.replicate labels none })
    (fun l hl => by rw [Array.size_replicate]; exact hlabels l hl)
  have happends := Assembly.Appends.ops ha
  have hstart : a.buffer.pos = e.codeSize ops := by
    rw [happends.pos, hpos, Nat.zero_add]
    rfl
  have htarget : ∀ l, .label l ∈ ops.flatMap e.written →
      a.bound[l]? = some (some (e.codeSize (MicroOp.beforeBind l ops))) := fun l hl => by
    rw [Assembly.bound_ops_of_mem ha (hbound l hl), hpos, Nat.zero_add]
  obtain ⟨b', hresolve, hfills⟩ := Assembly.resolve_spec he htarget 0 a.buffer
  have hfields : a.fields = e.fields 0 (ops.flatMap e.written) := by
    rw [happends.fields, hpos]
    rfl
  refine ⟨b', ?_, happends.within.trans hfills.within, hfills.cursor.trans hstart, fun hb hfit => ?_⟩
  · unfold assemble
    rw [ha]
    change Assembly.resolve e a.bound a.fields a.buffer = _
    rw [hfields]
    exact hresolve
  · have hblank := happends.holds hb (by rw [hstart]; exact hfit)
    have hcapacity : 0 + e.size (ops.flatMap e.written) ≤ a.buffer.capacity := by
      rw [happends.within.capacity, Nat.zero_add]
      exact hfit
    have hholds := hfills.holds (happends.within.backed hb) hcapacity
    rw [happends.within.base] at hholds
    rw [hpos] at hblank
    exact hholds hblank

end Recompiler
