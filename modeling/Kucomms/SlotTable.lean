import Mathlib.Data.Finset.Option
import Mathlib.Data.Fintype.Card
import Mathlib.Data.List.FinRange

/-!
# Tables of slots as finite sets and maps

A table of `n` slots, each free or holding a key: `Fin n → Option K`. The
operations are those of C tables: look a key up by trying the slots in order,
take the first free slot for a new key, free the slot of a key. As long as
no key is in two slots (`Distinct`), the table is the finite set of its keys
(`keys`), and the slot of a key is a function of it.

`exists_free` is the pigeonhole that bounds one table by another: a table
whose keys are among those of a table no larger, and not all of them, has a
free slot.
-/

namespace SlotTable

variable {n : ℕ} {K : Type} [DecidableEq K] {s t : Fin n → Option K}
  {k k' : K} {u v : Fin n}

/-! ## Lookup and free slots -/

/-- The first slot that holds the key. -/
def find (s : Fin n → Option K) (k : K) : Option (Fin n) :=
  (List.finRange n).find? (fun u => s u = some k)

/-- The first free slot. -/
def firstFree (s : Fin n → Option K) : Option (Fin n) :=
  (List.finRange n).find? (fun u => s u = none)

/-- No key is in two slots. -/
def Distinct (s : Fin n → Option K) : Prop :=
  ∀ ⦃u v k⦄, s u = some k → s v = some k → u = v

/-- **The keys in a table.** -/
def keys (s : Fin n → Option K) : Finset K :=
  (Finset.univ.image s).eraseNone

theorem mem_keys : k ∈ keys s ↔ ∃ u, s u = some k := by
  simp [keys]

theorem find_some (h : find s k = some u) : s u = some k := by
  simpa using List.find?_some h

theorem find_eq_none : find s k = none ↔ k ∉ keys s := by
  simp [find, mem_keys]

/-- With distinct keys, the slot found is the slot of the key. -/
theorem find_eq_some (hs : Distinct s) : find s k = some u ↔ s u = some k := by
  refine ⟨find_some, fun h => ?_⟩
  cases hf : find s k with
  | none => exact absurd (mem_keys.mpr ⟨u, h⟩) (find_eq_none.mp hf)
  | some v => rw [hs (find_some hf) h]

omit [DecidableEq K] in
theorem firstFree_some (h : firstFree s = some u) : s u = none := by
  simpa using List.find?_some h

omit [DecidableEq K] in
theorem firstFree_eq_none : firstFree s = none ↔ ∀ u, s u ≠ none := by
  simp [firstFree]

/-! ## Taking and freeing slots -/

omit [DecidableEq K] in
/-- The empty table. -/
theorem Distinct.empty : Distinct (fun _ => none : Fin n → Option K) :=
  fun _ _ _ h => nomatch h

/-- A new key in a free slot. -/
theorem Distinct.insert (hs : Distinct s) (hk : k ∉ keys s) :
    Distinct (Function.update s u (some k)) := by
  have hne : ∀ v, v ≠ u → s v ≠ some k := fun v _ h =>
    hk (mem_keys.mpr ⟨v, h⟩)
  intro v w k' hv hw
  by_cases hvu : v = u <;> by_cases hwu : w = u
  · rw [hvu, hwu]
  · subst hvu
    rw [Function.update_self] at hv
    rw [Function.update_of_ne hwu, ← hv] at hw
    exact absurd hw (hne w hwu)
  · subst hwu
    rw [Function.update_self] at hw
    rw [Function.update_of_ne hvu, ← hw] at hv
    exact absurd hv (hne v hvu)
  · rw [Function.update_of_ne hvu] at hv
    rw [Function.update_of_ne hwu] at hw
    exact hs hv hw

omit [DecidableEq K] in
/-- A slot freed. -/
theorem Distinct.erase (hs : Distinct s) :
    Distinct (Function.update s u none) := by
  intro v w k' hv hw
  by_cases hvu : v = u
  · subst hvu
    rw [Function.update_self] at hv
    exact nomatch hv
  · by_cases hwu : w = u
    · subst hwu
      rw [Function.update_self] at hw
      exact nomatch hw
    · rw [Function.update_of_ne hvu] at hv
      rw [Function.update_of_ne hwu] at hw
      exact hs hv hw

/-- **Taking a free slot** adds the key. -/
theorem keys_insert (hu : s u = none) :
    keys (Function.update s u (some k)) = insert k (keys s) := by
  ext k'
  rw [Finset.mem_insert, mem_keys, mem_keys]
  constructor
  · rintro ⟨v, hv⟩
    by_cases hvu : v = u
    · subst hvu
      rw [Function.update_self] at hv
      exact .inl (Option.some.inj hv).symm
    · rw [Function.update_of_ne hvu] at hv
      exact .inr ⟨v, hv⟩
  · rintro (rfl | ⟨v, hv⟩)
    · exact ⟨u, Function.update_self ..⟩
    · have hvu : v ≠ u := by
        rintro rfl
        rw [hu] at hv
        exact nomatch hv
      exact ⟨v, by rw [Function.update_of_ne hvu, hv]⟩

/-- **Freeing the slot of a key** removes it. -/
theorem keys_erase (hs : Distinct s) (hu : s u = some k) :
    keys (Function.update s u none) = (keys s).erase k := by
  ext k'
  rw [Finset.mem_erase, mem_keys, mem_keys]
  constructor
  · rintro ⟨v, hv⟩
    by_cases hvu : v = u
    · subst hvu
      rw [Function.update_self] at hv
      exact nomatch hv
    · rw [Function.update_of_ne hvu] at hv
      exact ⟨fun h => hvu (hs hv (h ▸ hu)), v, hv⟩
  · rintro ⟨hne, v, hv⟩
    have hvu : v ≠ u := by
      rintro rfl
      exact hne (Option.some.inj (hv.symm.trans hu))
    exact ⟨v, by rw [Function.update_of_ne hvu, hv]⟩

/-! ## Slots with values -/

/-- **The map a table stands for** when each slot has a value beside its
key. -/
structure Maps {V : Type} (s : Fin n → Option K) (e : Fin n → V)
    (m : K → Option V) : Prop where
  present : ∀ u k, s u = some k → m k = some (e u)
  absent : ∀ k, k ∉ keys s → m k = none

namespace Maps

variable {V : Type} {e : Fin n → V} {m : K → Option V} {v : V}

theorem empty (e : Fin n → V) :
    Maps (fun _ => none : Fin n → Option K) e (fun _ => none) :=
  ⟨fun _ _ h => (nomatch h), fun _ _ => rfl⟩

theorem isNone (h : Maps s e m) : (m k).isNone ↔ k ∉ keys s := by
  constructor
  · intro hnone hmem
    obtain ⟨u, hu⟩ := mem_keys.mp hmem
    rw [h.present u k hu] at hnone
    exact Bool.false_ne_true hnone
  · intro hk
    rw [h.absent k hk]
    rfl

/-- **Taking a free slot** binds the key. -/
theorem insert (h : Maps s e m) (hk : k ∉ keys s) (hu : s u = none) :
    Maps (Function.update s u (some k)) (Function.update e u v)
      (Function.update m k (some v)) := by
  refine ⟨fun w k' hw => ?_, fun k' hk' => ?_⟩
  · by_cases hwu : w = u
    · subst hwu
      rw [Function.update_self] at hw
      obtain rfl := Option.some.inj hw
      rw [Function.update_self, Function.update_self]
    · rw [Function.update_of_ne hwu] at hw ⊢
      have hne : k' ≠ k := fun hc => hk (mem_keys.mpr ⟨w, hc ▸ hw⟩)
      rw [Function.update_of_ne hne]
      exact h.present w k' hw
  · rw [keys_insert hu, Finset.mem_insert, not_or] at hk'
    rw [Function.update_of_ne hk'.1]
    exact h.absent k' hk'.2

/-- **Freeing a slot** unbinds its key, whatever value stays behind. -/
theorem erase (h : Maps s e m) (hs : Distinct s) (hu : s u = some k) :
    Maps (Function.update s u none) (Function.update e u v)
      (Function.update m k none) := by
  refine ⟨fun w k' hw => ?_, fun k' hk' => ?_⟩
  · by_cases hwu : w = u
    · subst hwu
      rw [Function.update_self] at hw
      exact nomatch hw
    · rw [Function.update_of_ne hwu] at hw ⊢
      have hne : k' ≠ k := by
        rintro rfl
        exact hwu (hs hw hu)
      rw [Function.update_of_ne hne]
      exact h.present w k' hw
  · by_cases hne : k' = k
    · rw [hne, Function.update_self]
    · rw [keys_erase hs hu, Finset.mem_erase, not_and] at hk'
      rw [Function.update_of_ne hne]
      exact h.absent k' (hk' hne)

/-- **Changing the value** of a slot in use rebinds its key. -/
theorem modify (h : Maps s e m) (hs : Distinct s) (hu : s u = some k) :
    Maps s (Function.update e u v) (Function.update m k (some v)) := by
  refine ⟨fun w k' hw => ?_, fun k' hk' => ?_⟩
  · by_cases hwu : w = u
    · subst hwu
      obtain rfl := Option.some.inj (hu.symm.trans hw)
      rw [Function.update_self, Function.update_self]
    · have hne : k' ≠ k := by
        rintro rfl
        exact hwu (hs hw hu)
      rw [Function.update_of_ne hwu, Function.update_of_ne hne]
      exact h.present w k' hw
  · have hne : k' ≠ k := by
      rintro rfl
      exact hk' (mem_keys.mpr ⟨u, hu⟩)
    rw [Function.update_of_ne hne]
    exact h.absent k' hk'

end Maps

/-! ## Counting -/

/-- A table has room for as many keys as slots. -/
theorem card_keys_le : (keys s).card ≤ n :=
  (Finset.card_eraseNone_le _).trans
    (Finset.card_image_le.trans (Finset.card_fin n).le)

/-- **A table with distinct keys has a free slot** exactly if it has fewer
keys than slots. -/
theorem exists_free_iff (hs : Distinct s) :
    (∃ u, s u = none) ↔ (keys s).card < n := by
  constructor
  · rintro ⟨u, hu⟩
    have hmem : none ∈ Finset.univ.image s :=
      Finset.mem_image.mpr ⟨u, Finset.mem_univ u, hu⟩
    have hle : (Finset.univ.image s).card ≤ n :=
      Finset.card_image_le.trans (Finset.card_fin n).le
    have hpos := Finset.card_pos.mpr ⟨none, hmem⟩
    unfold keys
    rw [Finset.card_eraseNone_of_mem hmem]
    omega
  · contrapose!
    intro hfull
    have hmem : none ∉ Finset.univ.image s := by
      rw [Finset.mem_image]
      rintro ⟨u, -, hu⟩
      exact hfull u hu
    have hinj : Function.Injective s := by
      intro u v huv
      obtain ⟨k, hk⟩ := Option.ne_none_iff_exists'.mp (hfull u)
      exact hs hk (huv ▸ hk)
    unfold keys
    rw [Finset.card_eraseNone_of_not_mem hmem,
      Finset.card_image_of_injective _ hinj, Finset.card_fin]

/-- **Pigeonhole**: a table whose keys are among those of another of the same
size, and not all of them, has a free slot. -/
theorem exists_free (hs : Distinct s) (hsub : keys s ⊆ keys t)
    (hk : k ∈ keys t) (hk' : k ∉ keys s) : ∃ u, s u = none := by
  rw [exists_free_iff hs]
  have hlt : (keys s).card < (keys t).card :=
    Finset.card_lt_card (Finset.ssubset_iff_subset_ne.mpr
      ⟨hsub, fun h => hk' (h ▸ hk)⟩)
  exact lt_of_lt_of_le hlt card_keys_le

end SlotTable
