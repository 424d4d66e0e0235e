import Mathlib.Data.List.Nodup
import Mathlib.Data.Nat.Notation

/-!
# A ledger of allocations

The blocks that an allocator has given out and not got back. A ledger also
keeps whether a block was ever freed that was not live, and whether one was
freed when it was not safe to do so; when that is, the user of the ledger
says at every `free`.

`Ledger.Exact` says that the blocks that are live are those that someone
owns, each once, and that nothing went wrong so far. Allocating a block for
an owner keeps it (`Exact.alloc`), and so does freeing one that is owned
(`Exact.free`).

Blocks have addresses, and may be freed by them (`freeAt`); an allocator
gives out no address that is in use (`grant`).
-/

/-- **A ledger** of the blocks `B`. -/
structure Ledger (B : Type) where
  /-- The blocks that are allocated. -/
  live : List B
  /-- A block was freed that was not allocated. -/
  badFree : Bool
  /-- A block was freed too early. -/
  early : Bool

namespace Ledger

variable {B : Type}

/-- No block. -/
def empty : Ledger B := ⟨[], false, false⟩

def alloc (g : Ledger B) (b : B) : Ledger B := { g with live := b :: g.live }

/-- Free a block, `safe` being whether that is safe now. -/
def free [DecidableEq B] (g : Ledger B) (b : B) (safe : Bool) : Ledger B where
  live := g.live.erase b
  badFree := g.badFree || !decide (b ∈ g.live)
  early := g.early || !safe

/-- **The ledger is exact**: the live blocks are those that are owned. -/
structure Exact (g : Ledger B) (owned : B → Prop) : Prop where
  nodup : g.live.Nodup
  mem_iff : ∀ b, b ∈ g.live ↔ owned b
  badFree : g.badFree = false
  early : g.early = false

section Exact

variable {g : Ledger B} {owned owned' : B → Prop} {b : B}

theorem Exact.empty (h : ∀ b, ¬ owned b) : (empty : Ledger B).Exact owned :=
  ⟨List.nodup_nil, fun b => ⟨fun hb => absurd hb List.not_mem_nil,
    fun hb => absurd hb (h b)⟩, rfl, rfl⟩

theorem Exact.congr (hg : g.Exact owned) (h : ∀ c, owned' c ↔ owned c) :
    g.Exact owned' :=
  ⟨hg.nodup, fun c => (hg.mem_iff c).trans (h c).symm, hg.badFree, hg.early⟩

/-- **A block is allocated** and has an owner. -/
theorem Exact.alloc (hg : g.Exact owned) (hb : ¬ owned b)
    (h : ∀ c, owned' c ↔ c = b ∨ owned c) : (g.alloc b).Exact owned' := by
  refine ⟨List.nodup_cons.mpr ⟨fun hmem => hb ((hg.mem_iff b).mp hmem),
    hg.nodup⟩, fun c => ?_, hg.badFree, hg.early⟩
  show c ∈ b :: g.live ↔ _
  rw [List.mem_cons, hg.mem_iff, h]

/-- **A block is freed** and has no owner any more. -/
theorem Exact.free [DecidableEq B] (hg : g.Exact owned) (hb : owned b)
    {safe : Bool} (hsafe : safe = true) (h : ∀ c, owned' c ↔ c ≠ b ∧ owned c) :
    (g.free b safe).Exact owned' := by
  have hmem := (hg.mem_iff b).mpr hb
  refine ⟨hg.nodup.erase b, fun c => ?_, ?_, ?_⟩
  · show c ∈ g.live.erase b ↔ _
    rw [hg.nodup.mem_erase_iff, hg.mem_iff, h]
  · show (g.badFree || !decide (b ∈ g.live)) = false
    rw [hg.badFree, decide_eq_true hmem]
    rfl
  · show (g.early || !safe) = false
    rw [hg.early, hsafe]
    rfl

/-- A block that is freed at once leaves no trace. -/
theorem free_alloc [DecidableEq B] (g : Ledger B) (b : B) :
    (g.alloc b).free b true = g := by
  have hmem : b ∈ b :: g.live := List.mem_cons_self
  show Ledger.mk ((b :: g.live).erase b)
    (g.badFree || !decide (b ∈ b :: g.live)) (g.early || !true) = g
  rw [List.erase_cons_head, decide_eq_true hmem, Bool.not_true, Bool.or_false,
    Bool.or_false]

end Exact

/-! ## Addresses -/

section Addresses

variable (addr : B → Option ℕ)

/-- The live block at an address. -/
def find (g : Ledger B) (p : ℕ) : Option B :=
  g.live.find? (fun b => addr b = some p)

/-- Free what is at an address. -/
def freeAt [DecidableEq B] (g : Ledger B) (p : ℕ) (safe : Bool) :
    Ledger B :=
  match g.find addr p with
  | none => { g with badFree := true, early := g.early || !safe }
  | some b => g.free b safe

/-- **What an allocator gives out** that would like to give out `p`: null if
that is in use. -/
def grant (g : Ledger B) (p : ℕ) : ℕ :=
  if (g.find addr p).isSome then 0 else p

variable {addr} {g : Ledger B} {owned : B → Prop} {p : ℕ} {b : B}

theorem freeAt_alloc [DecidableEq B] (hb : addr b = some p) :
    (g.alloc b).freeAt addr p true = g := by
  have hfind : (g.alloc b).find addr p = some b :=
    List.find?_cons_of_pos (decide_eq_true hb)
  unfold freeAt
  rw [hfind]
  exact free_alloc g b

/-- The block at an address, if only one has it. -/
theorem Exact.freeAt_eq [DecidableEq B] (hg : g.Exact owned) (hb : owned b)
    (haddr : addr b = some p)
    (huniq : ∀ c, owned c → addr c = some p → c = b) (safe : Bool) :
    g.freeAt addr p safe = g.free b safe := by
  have hfind : g.find addr p = some b := by
    cases hc : g.find addr p with
    | none =>
      have hno := List.find?_eq_none.mp hc b ((hg.mem_iff b).mpr hb)
      exact absurd (decide_eq_true haddr) hno
    | some c =>
      have hmem := (hg.mem_iff c).mp (List.mem_of_find?_eq_some hc)
      have hc' : g.live.find? (fun b => addr b = some p) = some c := hc
      have haddr' := List.find?_some hc'
      rw [huniq c hmem (of_decide_eq_true haddr')]
  unfold freeAt
  rw [hfind]

/-- **A block is freed by its address**, which no other has. -/
theorem Exact.freeAt [DecidableEq B] (hg : g.Exact owned) (hb : owned b)
    (haddr : addr b = some p)
    (huniq : ∀ c, owned c → addr c = some p → c = b) {safe : Bool}
    (hsafe : safe = true) {owned' : B → Prop}
    (h : ∀ c, owned' c ↔ c ≠ b ∧ owned c) :
    (g.freeAt addr p safe).Exact owned' := by
  rw [hg.freeAt_eq hb haddr huniq]
  exact hg.free hb hsafe h

/-- What is given out can be given out, being null or not in use. -/
theorem grant_grant : g.grant addr (g.grant addr p) = g.grant addr p := by
  by_cases hused : (g.find addr p).isSome
  · have hnull : g.grant addr p = 0 := if_pos hused
    rw [hnull]
    exact ite_self 0
  · have hfree : g.grant addr p = p := if_neg hused
    rw [hfree, hfree]

/-- An address that is given out is not in use. -/
theorem Exact.grant_fresh (hg : g.Exact owned) (hne : p ≠ 0)
    (hp : g.grant addr p = p) {c : B} (hc : owned c) : addr c ≠ some p := by
  intro haddr
  have hfind : (g.find addr p).isSome :=
    List.find?_isSome.mpr ⟨c, (hg.mem_iff c).mpr hc, decide_eq_true haddr⟩
  exact hne (hp.symm.trans (if_pos hfind))

/-- **Addresses stay distinct** when a block is added at an address that is not
in use, or at none. -/
theorem address_insert {owned' : B → Prop}
    (hinj : ∀ c d p, owned c → owned d → addr c = some p → addr d = some p →
      c = d)
    (hb : ∀ c p, owned c → addr b = some p → addr c ≠ some p)
    (h : ∀ c, owned' c ↔ c = b ∨ owned c) (c d : B) (p : ℕ) (hc : owned' c)
    (hd : owned' d) (hcp : addr c = some p) (hdp : addr d = some p) :
    c = d := by
  rcases (h c).mp hc with rfl | hc
  · rcases (h d).mp hd with rfl | hd
    · rfl
    · exact absurd hdp (hb d p hd hcp)
  · rcases (h d).mp hd with rfl | hd
    · exact absurd hcp (hb c p hc hdp)
    · exact hinj c d p hc hd hcp hdp

end Addresses

end Ledger
