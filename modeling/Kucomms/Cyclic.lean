import Mathlib.Data.List.Range
import Mathlib.Data.Nat.ModEq
import Mathlib.Logic.Function.Basic

/-!
# A bounded queue laid out cyclically

A circular buffer of `L` cells holds a sequence between a read index and a
write index, one cell short of full so that equal indices mean empty.
`Cyclic.Holds L q rd wr l` says that the cells `q` hold the sequence `l`
between `rd` and `wr`, and the rules say how the two ends move: cells are
written in the free part (`Holds.update_free`), published by moving `wr`
(`Holds.push`), read from the front (`Holds.read`) and given up by moving
`rd` (`Holds.pop`).

The cells are a function on all of `ℕ`; only those below `L` matter. What a
cell contains is arbitrary.
-/

namespace Cyclic

variable {β : Type} {L : ℕ} {q q' : ℕ → β} {rd wr : ℕ} {l d : List β}

/-! ## Offsets modulo the length -/

/-- Two offsets below the length that reach the same cell are the same. -/
theorem add_mod_inj {r a b : ℕ} (ha : a < L) (hb : b < L)
    (h : (r + a) % L = (r + b) % L) : a = b :=
  Nat.ModEq.eq_of_lt_of_lt (Nat.ModEq.add_left_cancel' r h) ha hb

/-- How far ahead of `rd` the index `wr` is. -/
def dist (L rd wr : ℕ) : ℕ := (wr + L - rd) % L

/-- The distance between an index and the one `n` cells ahead of it. -/
theorem dist_add_mod (hrd : rd < L) {n : ℕ} (hn : n < L) :
    dist L rd ((rd + n) % L) = n := by
  unfold dist
  by_cases h : rd + n < L
  · rw [Nat.mod_eq_of_lt h, show rd + n + L - rd = n + L by omega,
      Nat.add_mod_right, Nat.mod_eq_of_lt hn]
  · have hmod : (rd + n) % L = rd + n - L := by
      rw [Nat.mod_eq_sub_mod (by omega), Nat.mod_eq_of_lt (by omega)]
    rw [hmod, show rd + n - L + L - rd = n by omega, Nat.mod_eq_of_lt hn]

/-- The distance written with a case split and no remainder, as index
arithmetic in code has it. -/
theorem dist_eq (hrd : rd < L) (hwr : wr < L) :
    dist L rd wr = if rd ≤ wr then wr - rd else L + wr - rd := by
  unfold dist
  split
  · rw [show wr + L - rd = wr - rd + L by omega, Nat.add_mod_right,
      Nat.mod_eq_of_lt (by omega)]
  · rw [Nat.mod_eq_of_lt (by omega)]
    omega

theorem dist_lt (hrd : rd < L) : dist L rd wr < L :=
  Nat.mod_lt _ (Nat.zero_lt_of_lt hrd)

/-- An index is as far ahead as it is. -/
theorem add_dist_mod (hrd : rd < L) (hwr : wr < L) :
    (rd + dist L rd wr) % L = wr := by
  unfold dist
  rw [Nat.add_mod_mod, show rd + (wr + L - rd) = wr + L by omega,
    Nat.add_mod_right, Nat.mod_eq_of_lt hwr]

/-- The index ahead moves on. -/
theorem dist_grow (hrd : rd < L) (hwr : wr < L) {n : ℕ}
    (hn : dist L rd wr + n < L) :
    dist L rd ((wr + n) % L) = dist L rd wr + n := by
  have hmove : (wr + n) % L = (rd + (dist L rd wr + n)) % L := by
    rw [← Nat.add_assoc, ← Nat.mod_add_mod (rd + dist L rd wr),
      add_dist_mod hrd hwr]
  rw [hmove, dist_add_mod hrd hn]

/-- The index behind moves on, not past the other. -/
theorem dist_drop (hrd : rd < L) (hwr : wr < L) {n : ℕ}
    (hn : n ≤ dist L rd wr) :
    dist L ((rd + n) % L) wr = dist L rd wr - n := by
  have hlt : dist L rd wr < L := dist_lt hrd
  have hmove : wr = ((rd + n) % L + (dist L rd wr - n)) % L := by
    rw [Nat.mod_add_mod, Nat.add_assoc, Nat.add_sub_of_le hn,
      add_dist_mod hrd hwr]
  rw [congrArg (dist L ((rd + n) % L)) hmove,
    dist_add_mod (Nat.mod_lt _ (by omega)) (by omega)]

/-! ## Reading cells in a circle -/

/-- The `n` cells from the offset `off` on, in a circle of length `L`. -/
def slice (L : ℕ) (q : ℕ → β) (off n : ℕ) : List β :=
  (List.range n).map (fun k => q ((off + k) % L))

@[simp] theorem length_slice (off n : ℕ) : (slice L q off n).length = n := by
  simp [slice]

theorem getElem_slice {off n k : ℕ} (hk : k < (slice L q off n).length) :
    (slice L q off n)[k] = q ((off + k) % L) := by
  simp [slice]

/-- Reading on from where a first reading stopped. -/
theorem slice_add (off m n : ℕ) :
    slice L q off (m + n) = slice L q off m ++ slice L q (off + m) n := by
  unfold slice
  rw [List.range_add, List.map_append, List.map_map]
  simp only [Function.comp_def, Nat.add_assoc]

/-- Only the residue of the offset matters. -/
theorem slice_mod (off n : ℕ) : slice L q (off % L) n = slice L q off n := by
  simp only [slice, Nat.mod_add_mod]

theorem slice_congr {off n : ℕ}
    (h : ∀ k < n, q ((off + k) % L) = q' ((off + k) % L)) :
    slice L q off n = slice L q' off n :=
  List.map_congr_left (fun k hk => h k (List.mem_range.mp hk))

/-- A slice is a given list exactly if it is so cell by cell. -/
theorem slice_eq_iff {off : ℕ} :
    slice L q off l.length = l
      ↔ ∀ k (hk : k < l.length), q ((off + k) % L) = l[k] := by
  constructor
  · intro h k hk
    have hk' : k < (slice L q off l.length).length := by simpa using hk
    rw [← getElem_slice hk']
    simp only [h]
  · intro h
    refine List.ext_getElem (by simp) (fun k hk hk' => ?_)
    rw [getElem_slice, h k hk']

/-! ## The queue between two indices -/

/-- **The cells hold the sequence `l` between `rd` and `wr`.** -/
structure Holds (L : ℕ) (q : ℕ → β) (rd wr : ℕ) (l : List β) : Prop where
  rd_lt : rd < L
  /-- One cell stays free, so the indices are equal only when `l = []`. -/
  length_lt : l.length < L
  wr_eq : wr = (rd + l.length) % L
  cells : slice L q rd l.length = l

namespace Holds

/-- The empty queue. -/
theorem nil (h : rd < L) : Holds L q rd rd [] :=
  ⟨h, by simp; omega, by simp [Nat.mod_eq_of_lt h], rfl⟩

theorem wr_lt (h : Holds L q rd wr l) : wr < L := by
  rw [h.wr_eq]
  exact Nat.mod_lt _ (Nat.zero_lt_of_lt h.rd_lt)

/-- The length of the sequence, read off the indices. -/
theorem length_eq (h : Holds L q rd wr l) : l.length = dist L rd wr := by
  rw [h.wr_eq, dist_add_mod h.rd_lt h.length_lt]

/-- Equal indices mean that nothing is held. -/
theorem eq_nil_iff (h : Holds L q rd wr l) : rd = wr ↔ l = [] := by
  constructor
  · intro he
    have hlen := h.length_eq
    rw [← he, dist_eq h.rd_lt h.rd_lt, if_pos le_rfl, Nat.sub_self] at hlen
    exact List.length_eq_zero_iff.mp hlen
  · rintro rfl
    rw [h.wr_eq, List.length_nil, Nat.add_zero, Nat.mod_eq_of_lt h.rd_lt]

/-- The write index and the number held give the read index. -/
theorem rd_unique {rd' : ℕ} (h : Holds L q rd wr l)
    (h' : Holds L q' rd' wr d) (hlen : l.length = d.length) : rd = rd' := by
  have hmod : (l.length + rd) % L = (l.length + rd') % L := by
    rw [Nat.add_comm, ← h.wr_eq, h'.wr_eq, hlen, Nat.add_comm]
  exact add_mod_inj h.rd_lt h'.rd_lt hmod

/-- A held element, read from its cell. -/
theorem read (h : Holds L q rd wr l) {k : ℕ} (hk : k < l.length) :
    q ((rd + k) % L) = l[k] :=
  slice_eq_iff.mp h.cells k hk

/-- A cell counted from the write end, counted from the read end. -/
theorem free_cell (h : Holds L q rd wr l) (k : ℕ) :
    (wr + k) % L = (rd + (l.length + k)) % L := by
  rw [h.wr_eq, Nat.mod_add_mod, Nat.add_assoc]

/-- **The free part and the held part do not meet.** -/
theorem free_ne (h : Holds L q rd wr l) {j k : ℕ} (hj : j < l.length)
    (hk : l.length + k < L) : (rd + j) % L ≠ (wr + k) % L := by
  rw [h.free_cell]
  intro he
  have := add_mod_inj (by omega) hk he
  omega

/-- Changing cells outside the held part changes nothing held. -/
theorem congr (h : Holds L q rd wr l)
    (hq : ∀ k < l.length, q' ((rd + k) % L) = q ((rd + k) % L)) :
    Holds L q' rd wr l :=
  ⟨h.rd_lt, h.length_lt, h.wr_eq, (slice_congr hq).trans h.cells⟩

/-- **Writing a free cell** keeps what is held. -/
theorem update_free (h : Holds L q rd wr l) {k : ℕ} (hk : l.length + k < L)
    (b : β) : Holds L (Function.update q ((wr + k) % L) b) rd wr l :=
  h.congr (fun _ hj => Function.update_of_ne (h.free_ne hj hk) _ _)

/-- **Publishing**: the cells after `wr` hold `d`, and `wr` moves past
them. -/
theorem push (h : Holds L q rd wr l) (hlen : l.length + d.length < L)
    (hd : slice L q wr d.length = d) :
    Holds L q rd ((wr + d.length) % L) (l ++ d) := by
  refine ⟨h.rd_lt, by simpa using hlen, ?_, ?_⟩
  · rw [List.length_append, h.free_cell]
  · rw [List.length_append, slice_add, h.cells, ← slice_mod, ← h.wr_eq, hd]

/-- **Consuming**: `rd` moves past the front part of what is held. -/
theorem pop (h : Holds L q rd wr (d ++ l)) :
    Holds L q ((rd + d.length) % L) wr l := by
  have hlen : d.length + l.length < L := by simpa using h.length_lt
  have hcells : slice L q rd d.length ++ slice L q (rd + d.length) l.length
      = d ++ l := by
    rw [← slice_add, ← List.length_append]
    exact h.cells
  refine ⟨Nat.mod_lt _ (by omega), by omega, ?_, ?_⟩
  · rw [h.wr_eq, List.length_append, Nat.mod_add_mod, Nat.add_assoc]
  · rw [slice_mod]
    exact (List.append_inj hcells (by simp)).2

end Holds

end Cyclic
