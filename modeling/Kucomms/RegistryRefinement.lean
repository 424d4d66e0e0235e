import Kucomms.Directory
import Kucomms.RegistryTables

/-!
# The registry refines a directory

Whatever is called, in any order and as often as one likes, the two tables
answer as the directory of `Kucomms.Directory` does (`registry_refines`).
Each call is made with nothing in between, which is what the mutex is for.

That the directory has no case for a full table of callbacks is the
pigeonhole of `SlotTable.exists_free`: a name without callbacks that is the
name of a device leaves a slot free, since both tables have 16.
-/

open Prog

/-! ## The calls -/

/-- **The calls**, with what the kernel answers where it is asked. -/
inductive RegistryOp where
  | create (name : Name) (env : ChrdevAnswer)
  | remove (name : Name)
  | register (name : Name) (c : Callbacks)
  | unregister (name : Name)
  | findAndOpen (name : Name)
  | findAndClose (name : Name)

/-- A function of the registry, run with nothing in between. -/
def LockedRegProg.atomic {α : Type} (p : LockedRegProg α)
    (env : ChrdevAnswer) (r : Registry) : α × Registry :=
  p.run (LockAct.execAlone (RegAct.exec env)) r

namespace RegistryOp

/-- **A call**: its answer and the tables after it. The entry that
`kucomms_find_and_open` returns is a pointer, and is answered by what it
points to. -/
def step : Object RegistryOp (Directory.Answer Callbacks) Registry
  | .create name env, r =>
    let x := LockedRegProg.atomic (kucommsCharDeviceCreate name) env r
    (.done x.1, x.2)
  | .remove name, r =>
    let x := LockedRegProg.atomic (kucommsCharDeviceRemove name) .unused r
    (.done x.1, x.2)
  | .register name c, r =>
    let x := LockedRegProg.atomic (kucommsRegister name c) .unused r
    (.done x.1, x.2)
  | .unregister name, r =>
    let x := LockedRegProg.atomic (kucommsUnregister name) .unused r
    (.done x.1, x.2)
  | .findAndOpen name, r =>
    let x := LockedRegProg.atomic (kucommsFindAndOpen name) .unused r
    (.entry (x.1.1.map (fun u => (x.2.cblist u).callbacks)) x.1.2, x.2)
  | .findAndClose name, r =>
    let x := LockedRegProg.atomic (kucommsFindAndClose name) .unused r
    (.closed, x.2)

end RegistryOp

/-- The name that passes the checks of `kucomms_char_device_create`, without
its newline. -/
def checkedKey (name : Name) : Option (List UInt8) :=
  (checkName name).map (fun n => nameBytes n.1 n.2)

/-- The name that passes the checks of `kucomms_register`. -/
def registerKey (name : Name) : Option (List UInt8) :=
  if name.len < kucommsFnameSize then name.key else none

/-- The callbacks, if no handler is null. -/
def Callbacks.checked (c : Callbacks) : Option Callbacks :=
  if c.msghlr = 0 ∨ c.workhlr = 0 ∨ c.timerhlr = 0 then none else some c

/-- **The call as an operation of the directory.** -/
def RegistryOp.dirOp : RegistryOp → Directory.Op (List UInt8) Callbacks
  | .create name env => .create (checkedKey name) (0 ≤ env.major)
  | .remove name => .remove (checkedKey name)
  | .register name c => .register (registerKey name) c.checked
  | .unregister name => .unregister name.key
  | .findAndOpen name => .findAndOpen name.key
  | .findAndClose name => .findAndClose name.key

/-! ## The directory in the tables -/

/-- What a slot of the callbacks holds. -/
def KucommsCallbackData.entry (e : KucommsCallbackData) : Entry Callbacks :=
  ⟨e.callbacks, e.isOpen⟩

/-- **What the tables store**: the names in use are distinct in each, the
names with callbacks are names of devices, a slot that is free is not marked
open, and the directory is what the slots in use hold. -/
structure Stores (r : Registry) (d : Directory (List UInt8) Callbacks) :
    Prop where
  distinct : ∀ t, SlotTable.Distinct (r.slotKeys t)
  registered_sub :
    SlotTable.keys (r.slotKeys .cblist) ⊆ SlotTable.keys (r.slotKeys .devlist)
  free_closed : ∀ u, r.slotKeys .cblist u = none → (r.cblist u).isOpen = false
  devices : SlotTable.keys (r.slotKeys .devlist) = d.devices
  entries : SlotTable.Maps (r.slotKeys .cblist) (fun u => (r.cblist u).entry)
    d.entries

namespace Stores

variable {r : Registry} {d : Directory (List UInt8) Callbacks}
  {u : Fin kucommsListSize} {k : List UInt8} {name : Name}

/-- The tables after `kucomms_callback_list_init` and
`kucomms_device_list_init`. -/
theorem init (r : Registry) : Stores (kucommsInit r) .empty := by
  have hnone : ∀ t, (kucommsInit r).slotKeys t = fun _ => none := by
    intro t
    funext u
    exact Registry.slotKeys_eq_none.mpr (by cases t <;> rfl)
  have hkeys : ∀ t, SlotTable.keys ((kucommsInit r).slotKeys t) = ∅ := by
    intro t
    rw [hnone t, Finset.eq_empty_iff_forall_notMem]
    intro k hk
    obtain ⟨u, hu⟩ := SlotTable.mem_keys.mp hk
    exact nomatch hu
  refine ⟨fun t => ?_, ?_, fun u _ => rfl, hkeys .devlist, ?_⟩
  · rw [hnone t]
    exact SlotTable.Distinct.empty
  · rw [hkeys .cblist]
    exact Finset.empty_subset _
  · rw [hnone .cblist]
    exact SlotTable.Maps.empty _

/-! ### Changing the tables -/

/-- The values after a slot of the callbacks has changed. -/
theorem entry_modifyCb (f : KucommsCallbackData → KucommsCallbackData) :
    (fun v => ((r.modifyCb u f).cblist v).entry)
      = Function.update (fun v => (r.cblist v).entry) u
        (f (r.cblist u)).entry := by
  funext v
  exact Function.apply_update (fun _ e => KucommsCallbackData.entry e) _ u _ v

/-- **A slot of the callbacks changes** in a way that suits the map. -/
theorem modifyCb (h : Stores r d)
    {f : KucommsCallbackData → KucommsCallbackData} {o : Option (Entry Callbacks)}
    (hdistinct : SlotTable.Distinct ((r.modifyCb u f).slotKeys .cblist))
    (hsub : SlotTable.keys ((r.modifyCb u f).slotKeys .cblist) ⊆ d.devices)
    (hclosed : (r.modifyCb u f).slotKeys .cblist u = none →
      (f (r.cblist u)).isOpen = false)
    (hmap : SlotTable.Maps ((r.modifyCb u f).slotKeys .cblist)
      (Function.update (fun v => (r.cblist v).entry) u (f (r.cblist u)).entry)
      (d.setEntry k o).entries) :
    Stores (r.modifyCb u f) (d.setEntry k o) := by
  refine ⟨fun t => ?_, ?_, fun v hv => ?_, h.devices, ?_⟩
  · cases t with
    | cblist => exact hdistinct
    | devlist => exact h.distinct .devlist
  · rw [Registry.slotKeys_modifyCb_devlist, h.devices]
    exact hsub
  · by_cases hvu : v = u
    · subst hvu
      rw [Registry.modifyCb_cblist, Function.update_self]
      exact hclosed hv
    · rw [Registry.modifyCb_cblist, Function.update_of_ne hvu]
      rw [Registry.slotKeys_modifyCb, Function.update_of_ne hvu] at hv
      exact h.free_closed v hv
  · rw [entry_modifyCb]
    exact hmap

/-- The flag of a slot in use is stored. -/
theorem setOpen (h : Stores r d) (b : Bool)
    (hu : r.slotKeys .cblist u = some k) :
    Stores (r.setOpen u b)
      (d.setEntry k (some ⟨(r.cblist u).callbacks, b⟩)) := by
  have hkeys := Registry.slotKeys_setOpen (r := r) (u := u) b .cblist
  refine h.modifyCb ?_ ?_ (fun hnone => ?_) ?_
  · exact hkeys ▸ h.distinct .cblist
  · exact hkeys ▸ h.devices ▸ h.registered_sub
  · exact nomatch (hu.symm.trans (congrFun hkeys u).symm).trans hnone
  · exact hkeys ▸ h.entries.modify (h.distinct .cblist) hu

/-- A free slot is taken for a name with a device. -/
theorem register (h : Stores r d) {p : Bytes} {len : UInt32} (hlen : len ≠ 0)
    (c : Callbacks) (hu : r.slotKeys .cblist u = none)
    (hk : nameBytes p len ∉ SlotTable.keys (r.slotKeys .cblist))
    (hdev : nameBytes p len ∈ d.devices) :
    Stores (r.modifyCb u (registered p len c))
      (d.setEntry (nameBytes p len) (some ⟨c, false⟩)) := by
  have hkeys : (r.modifyCb u (registered p len c)).slotKeys .cblist
      = Function.update (r.slotKeys .cblist) u (some (nameBytes p len)) := by
    rw [Registry.slotKeys_modifyCb, slotKey_registered hlen]
  have hopen := h.free_closed u hu
  refine h.modifyCb ?_ ?_ (fun _ => hopen) ?_
  · rw [hkeys]
    exact (h.distinct .cblist).insert hk
  · rw [hkeys, SlotTable.keys_insert hu]
    exact Finset.insert_subset hdev (h.devices ▸ h.registered_sub)
  · have hentry : (registered p len c (r.cblist u)).entry = ⟨c, false⟩ :=
      congrArg (Entry.mk c) hopen
    rw [hkeys, hentry]
    exact h.entries.insert hk hu

/-- The slot of a name is given up. -/
theorem unregister (h : Stores r d) (hu : r.slotKeys .cblist u = some k) :
    Stores (r.modifyCb u unregistered) (d.setEntry k none) := by
  have hkeys : (r.modifyCb u unregistered).slotKeys .cblist
      = Function.update (r.slotKeys .cblist) u none := by
    rw [Registry.slotKeys_modifyCb, slotKey_unregistered]
  refine h.modifyCb ?_ ?_ (fun _ => rfl) ?_
  · rw [hkeys]
    exact (h.distinct .cblist).erase
  · rw [hkeys, SlotTable.keys_erase (h.distinct .cblist) hu]
    exact (Finset.erase_subset _ _).trans (h.devices ▸ h.registered_sub)
  · rw [hkeys]
    exact h.entries.erase (h.distinct .cblist) hu

/-- **A slot of the devices changes**, in a way that leaves the names with
callbacks. -/
theorem modifyDev (h : Stores r d)
    {f : KucommsCharDeviceData → KucommsCharDeviceData}
    {D : Finset (List UInt8)}
    (hdistinct : SlotTable.Distinct ((r.modifyDev u f).slotKeys .devlist))
    (hkeys : SlotTable.keys ((r.modifyDev u f).slotKeys .devlist) = D)
    (hsub : SlotTable.keys (r.slotKeys .cblist) ⊆ D) :
    Stores (r.modifyDev u f) { d with devices := D } := by
  refine ⟨fun t => ?_, ?_, h.free_closed, hkeys, h.entries⟩
  · cases t with
    | cblist => exact h.distinct .cblist
    | devlist => exact hdistinct
  · rw [hkeys]
    exact hsub

/-- A free slot is taken for a new device. -/
theorem create (h : Stores r d) {p : Bytes} {len : UInt32} (hlen : len ≠ 0)
    (env : ChrdevAnswer) (hu : r.slotKeys .devlist u = none)
    (hk : nameBytes p len ∉ d.devices) :
    Stores (r.modifyDev u (created env p len))
      { d with devices := insert (nameBytes p len) d.devices } := by
  have hkeys : (r.modifyDev u (created env p len)).slotKeys .devlist
      = Function.update (r.slotKeys .devlist) u (some (nameBytes p len)) := by
    rw [Registry.slotKeys_modifyDev, slotKey_created hlen]
  have hsub := h.registered_sub
  rw [h.devices] at hsub
  refine h.modifyDev ?_ ?_ (hsub.trans (Finset.subset_insert _ _))
  · rw [hkeys]
    exact (h.distinct .devlist).insert (h.devices ▸ hk)
  · rw [hkeys, SlotTable.keys_insert hu, h.devices]

/-- A free slot is taken and freed again. -/
theorem rollBack (h : Stores r d) (p : Bytes) (len : UInt32)
    (hu : r.slotKeys .devlist u = none) :
    Stores (r.modifyDev u (rolledBack p len)) d := by
  have hkeys : (r.modifyDev u (rolledBack p len)).slotKeys .devlist
      = r.slotKeys .devlist := by
    rw [Registry.slotKeys_modifyDev, slotKey_rolledBack, ← hu,
      Function.update_eq_self]
  have hsub := h.registered_sub
  rw [h.devices] at hsub
  refine h.modifyDev ?_ ?_ hsub
  · rw [hkeys]
    exact h.distinct .devlist
  · rw [hkeys, h.devices]

/-- The slot of a device without callbacks is given up. -/
theorem remove (h : Stores r d) (hu : r.slotKeys .devlist u = some k)
    (hk : k ∉ SlotTable.keys (r.slotKeys .cblist)) :
    Stores (r.modifyDev u removed) { d with devices := d.devices.erase k } := by
  have hkeys : (r.modifyDev u removed).slotKeys .devlist
      = Function.update (r.slotKeys .devlist) u none := by
    rw [Registry.slotKeys_modifyDev, slotKey_removed]
  have hsub := h.registered_sub
  rw [h.devices] at hsub
  refine h.modifyDev ?_ ?_ (Finset.subset_erase.mpr ⟨hsub, hk⟩)
  · rw [hkeys]
    exact (h.distinct .devlist).erase
  · rw [hkeys, SlotTable.keys_erase (h.distinct .devlist) hu, h.devices]

/-! ### Lookups -/

/-- The slot found for a name. -/
theorem find_eq (h : Stores r d) (t : RegTable) (hk : name.key = some k) :
    r.find t name = some u ↔ r.slotKeys t u = some k := by
  rw [Registry.find, hk]
  exact SlotTable.find_eq_some (h.distinct t)

theorem find_eq_none (t : RegTable) (hk : name.key = some k) :
    r.find t name = none ↔ k ∉ SlotTable.keys (r.slotKeys t) := by
  rw [Registry.find, hk]
  exact SlotTable.find_eq_none

theorem find_of_key_none (t : RegTable) (hk : name.key = none) :
    r.find t name = none := by
  rw [Registry.find, hk]
  rfl

/-- What is registered for a name that is found. -/
theorem entry_of_find (h : Stores r d) (hk : name.key = some k)
    (hf : r.find .cblist name = some u) :
    d.entries k = some (r.cblist u).entry :=
  h.entries.present u k ((h.find_eq .cblist hk).mp hf)

/-- The slot of what is registered. -/
theorem slot_of_entry (h : Stores r d) {e : Entry Callbacks}
    (he : d.entries k = some e) :
    ∃ u, r.slotKeys .cblist u = some k ∧ (r.cblist u).entry = e := by
  have hmem : k ∈ SlotTable.keys (r.slotKeys .cblist) := by
    by_contra hk
    exact nomatch (h.entries.absent k hk).symm.trans he
  obtain ⟨u, hu⟩ := SlotTable.mem_keys.mp hmem
  exact ⟨u, hu, Option.some.inj ((h.entries.present u k hu).symm.trans he)⟩

/-- Nothing is registered for a name that is not found. -/
theorem entry_of_not_find (h : Stores r d) (hk : name.key = some k)
    (hf : r.find .cblist name = none) : d.entries k = none :=
  h.entries.absent k ((find_eq_none .cblist hk).mp hf)

end Stores

/-! ## The steps -/

/-- **A step refines the directory's**: the same answer, and the tables store
the directory afterwards. -/
def RegistryOp.StepRefines (op : RegistryOp) (r : Registry)
    (d : Directory (List UInt8) Callbacks) : Prop :=
  (op.step r).1 = (Directory.step kucommsListSize op.dirOp d).1
    ∧ Stores (op.step r).2 (Directory.step kucommsListSize op.dirOp d).2

section Steps

variable {r : Registry} {d : Directory (List UInt8) Callbacks} {name : Name}

theorem atomic_locked {α : Type} (p : RegProg α) (env : ChrdevAnswer)
    (r : Registry) :
    LockedRegProg.atomic (locked p) env r = p.run (RegAct.exec env) r :=
  locked_run (RegAct.exec env) p r

theorem step_findAndOpen (h : Stores r d) :
    (RegistryOp.findAndOpen name).StepRefines r d := by
  unfold RegistryOp.StepRefines
  simp only [RegistryOp.step, kucommsFindAndOpen, atomic_locked,
    findAndOpen_run, RegistryOp.dirOp]
  cases hk : name.key with
  | none =>
    rw [Stores.find_of_key_none .cblist hk]
    exact ⟨rfl, h⟩
  | some k =>
    cases hf : r.find .cblist name with
    | none =>
      simp only [Directory.step, h.entry_of_not_find hk hf]
      exact ⟨rfl, h⟩
    | some u =>
      simp only [Directory.step, h.entry_of_find hk hf, Option.map_some,
        Registry.setOpen, Registry.modifyCb_cblist, Function.update_self]
      exact ⟨rfl, h.setOpen true ((h.find_eq .cblist hk).mp hf)⟩

theorem step_findAndClose (h : Stores r d) :
    (RegistryOp.findAndClose name).StepRefines r d := by
  unfold RegistryOp.StepRefines
  simp only [RegistryOp.step, kucommsFindAndClose, atomic_locked,
    findAndClose_run, RegistryOp.dirOp]
  cases hk : name.key with
  | none =>
    rw [Stores.find_of_key_none .cblist hk]
    exact ⟨rfl, h⟩
  | some k =>
    cases hf : r.find .cblist name with
    | none =>
      simp only [Directory.step, h.entry_of_not_find hk hf]
      exact ⟨trivial, h⟩
    | some u =>
      simp only [Directory.step, h.entry_of_find hk hf]
      exact ⟨trivial, h.setOpen false ((h.find_eq .cblist hk).mp hf)⟩

theorem step_unregister (h : Stores r d) :
    (RegistryOp.unregister name).StepRefines r d := by
  unfold RegistryOp.StepRefines
  simp only [RegistryOp.step, kucommsUnregister, atomic_locked,
    unregister_run, RegistryOp.dirOp]
  cases hk : name.key with
  | none =>
    rw [Stores.find_of_key_none .cblist hk]
    exact ⟨rfl, h⟩
  | some k =>
    cases hf : r.find .cblist name with
    | none =>
      simp only [Directory.step, h.entry_of_not_find hk hf]
      exact ⟨trivial, h⟩
    | some u =>
      simp only [Directory.step, h.entry_of_find hk hf,
        KucommsCallbackData.entry]
      by_cases hopen : (r.cblist u).isOpen = true
      · rw [if_pos hopen, if_pos hopen]
        exact ⟨rfl, h⟩
      · rw [if_neg hopen, if_neg hopen]
        exact ⟨rfl, h.unregister ((h.find_eq .cblist hk).mp hf)⟩

/-- What `kucomms_register` may register, in the directory. -/
theorem canRegister_iff (h : Stores r d) {c : Callbacks} :
    CanRegister r name c ↔ ∃ k, registerKey name = some k
      ∧ c.checked = some c ∧ k ∈ d.devices ∧ (d.entries k).isNone := by
  unfold registerKey Callbacks.checked
  constructor
  · intro hcan
    obtain ⟨k, hk⟩ := Option.ne_none_iff_exists'.mp hcan.key
    refine ⟨k, (if_pos hcan.len_lt).trans hk, if_neg hcan.handlers, ?_, ?_⟩
    · have hdev := hcan.device
      rw [Ne, Stores.find_eq_none .devlist hk, not_not, h.devices] at hdev
      exact hdev
    · exact h.entries.isNone.mpr
        ((Stores.find_eq_none .cblist hk).mp hcan.not_registered)
  · rintro ⟨k, hk, hc, hdev, hnone⟩
    by_cases hlen : name.len < kucommsFnameSize
    · rw [if_pos hlen] at hk
      refine ⟨hlen, Option.ne_none_iff_exists'.mpr ⟨k, hk⟩, fun hnull => ?_,
        (Stores.find_eq_none .cblist hk).mpr (h.entries.isNone.mp hnone), ?_⟩
      · rw [if_pos hnull] at hc
        exact nomatch hc
      · rw [Ne, Stores.find_eq_none .devlist hk, not_not, h.devices]
        exact hdev
    · rw [if_neg hlen] at hk
      exact nomatch hk

/-- A name with a device and without callbacks leaves a slot free. -/
theorem exists_free (h : Stores r d) {k : List UInt8} (hdev : k ∈ d.devices)
    (hnone : (d.entries k).isNone) :
    ∃ u, SlotTable.firstFree (r.slotKeys .cblist) = some u := by
  obtain ⟨u, hu⟩ := SlotTable.exists_free (h.distinct .cblist)
    h.registered_sub (h.devices.symm ▸ hdev) (h.entries.isNone.mp hnone)
  exact Option.ne_none_iff_exists'.mp
    (fun hc => SlotTable.firstFree_eq_none.mp hc u hu)

theorem step_register {c : Callbacks} (h : Stores r d) :
    (RegistryOp.register name c).StepRefines r d := by
  unfold RegistryOp.StepRefines
  simp only [RegistryOp.step, kucommsRegister, atomic_locked,
    RegistryOp.dirOp]
  by_cases hcan : CanRegister r name c
  · obtain ⟨k, hk, hc, hdev, hnone⟩ := (canRegister_iff h).mp hcan
    obtain ⟨u, hu⟩ := exists_free h hdev hnone
    rw [registerKey, if_pos hcan.len_lt] at hk
    obtain ⟨ptr, hptr, hlen, rfl⟩ := Name.key_eq_some.mp hk
    rw [register_run_true hptr hcan, hu, registerKey, if_pos hcan.len_lt, hk,
      hc]
    simp only [Directory.step]
    rw [if_pos ⟨hdev, hnone⟩]
    exact ⟨rfl, h.register hlen c (SlotTable.firstFree_some hu)
      (h.entries.isNone.mp hnone) hdev⟩
  · rw [register_run_false hcan]
    cases hk : registerKey name with
    | none => exact ⟨rfl, h⟩
    | some k =>
      cases hc : c.checked with
      | none => exact ⟨rfl, h⟩
      | some c' =>
        have hcc : c' = c := by
          unfold Callbacks.checked at hc
          split at hc
          · exact nomatch hc
          · exact (Option.some.inj hc).symm
        subst hcc
        have hno : ¬(k ∈ d.devices ∧ (d.entries k).isNone) := fun hyes =>
          hcan ((canRegister_iff h).mpr ⟨k, hk, hc, hyes⟩)
        simp only [Directory.step]
        rw [if_neg hno]
        exact ⟨rfl, h⟩

/-- The length of a name that passes the checks, without its newline. -/
theorem checkName_len {p : Bytes} {len : UInt32}
    (h : checkName name = some (p, len)) : 8 ≤ len.toNat ∧ len.toNat ≤ 63 := by
  unfold checkName at h
  split at h
  · exact nomatch h
  · simp only [Option.ite_none_left_eq_some] at h
    obtain ⟨-, hlt, hgt, -, -, h⟩ := h
    have hlt : name.len.toNat < 64 := UInt32.not_le.mp hlt
    have hgt : 8 < name.len.toNat := Nat.lt_of_not_le hgt
    have hone : (name.len - 1).toNat = name.len.toNat - 1 :=
      UInt32.toNat_sub_of_le _ _ (UInt32.le_iff_toNat_le.mpr
        (show 1 ≤ name.len.toNat by omega))
    split at h
    · obtain ⟨-, rfl⟩ := Prod.mk.inj (Option.some.inj h)
      omega
    · obtain ⟨-, rfl⟩ := Prod.mk.inj (Option.some.inj h)
      omega

/-- A name that passes the checks stands for something. -/
theorem key_of_checkName {p : Bytes} {len : UInt32}
    (h : checkName name = some (p, len)) :
    len ≠ 0 ∧ (⟨some p, len⟩ : Name).key = some (nameBytes p len) := by
  have hlen : len ≠ 0 := by
    rintro rfl
    exact absurd (checkName_len h).1 (by decide)
  exact ⟨hlen, if_neg hlen⟩

theorem step_create {env : ChrdevAnswer} (h : Stores r d) :
    (RegistryOp.create name env).StepRefines r d := by
  unfold RegistryOp.StepRefines
  simp only [RegistryOp.step, kucommsCharDeviceCreate, RegistryOp.dirOp,
    checkedKey]
  cases hcheck : checkName name with
  | none => exact ⟨rfl, h⟩
  | some n =>
    obtain ⟨p, len⟩ := n
    obtain ⟨hlen, hk⟩ := key_of_checkName hcheck
    simp only [Option.map_some, Directory.step, atomic_locked,
      charDeviceCreate_run]
    have hfind := Stores.find_eq_none (r := r) .devlist hk
    rw [h.devices] at hfind
    by_cases hdev : nameBytes p len ∈ d.devices
    · rw [if_pos (fun hf => hfind.mp hf hdev), if_neg (fun hc => hc.1 hdev)]
      exact ⟨rfl, h⟩
    · rw [if_neg (not_not.mpr (hfind.mpr hdev))]
      cases hu : SlotTable.firstFree (r.slotKeys .devlist) with
      | none =>
        have hfull : ¬d.devices.card < kucommsListSize := by
          rw [← h.devices, ← SlotTable.exists_free_iff (h.distinct .devlist)]
          exact not_exists.mpr (SlotTable.firstFree_eq_none.mp hu)
        rw [if_neg (fun hc => hfull hc.2.1)]
        exact ⟨rfl, h⟩
      | some u =>
        have hfree := SlotTable.firstFree_some hu
        have hroom : d.devices.card < kucommsListSize := by
          rw [← h.devices, ← SlotTable.exists_free_iff (h.distinct .devlist)]
          exact ⟨u, hfree⟩
        dsimp only
        by_cases hmajor : env.major < 0
        · rw [if_pos hmajor,
            if_neg (fun hc => absurd (of_decide_eq_true hc.2.2) (by omega))]
          exact ⟨rfl, h.rollBack p len hfree⟩
        · rw [if_neg hmajor,
            if_pos ⟨hdev, hroom, decide_eq_true (by omega)⟩]
          exact ⟨rfl, h.create hlen env hfree hdev⟩

theorem step_remove (h : Stores r d) :
    (RegistryOp.remove name).StepRefines r d := by
  unfold RegistryOp.StepRefines
  simp only [RegistryOp.step, kucommsCharDeviceRemove, RegistryOp.dirOp,
    checkedKey]
  cases hcheck : checkName name with
  | none => exact ⟨rfl, h⟩
  | some n =>
    obtain ⟨p, len⟩ := n
    obtain ⟨hlen, hk⟩ := key_of_checkName hcheck
    simp only [Option.map_some, Directory.step, atomic_locked,
      charDeviceRemove_run]
    have hcb : (d.entries (nameBytes p len)).isNone
        ↔ r.find .cblist ⟨some p, len⟩ = none :=
      h.entries.isNone.trans (Stores.find_eq_none .cblist hk).symm
    by_cases hnone : r.find .cblist ⟨some p, len⟩ = none
    · rw [if_neg (not_not.mpr hnone)]
      have hfind := Stores.find_eq_none (r := r) .devlist hk
      rw [h.devices] at hfind
      cases hu : r.find .devlist ⟨some p, len⟩ with
      | none =>
        rw [if_neg (fun hc => hfind.mp hu hc.1)]
        exact ⟨rfl, h⟩
      | some u =>
        have hdev : nameBytes p len ∈ d.devices := by
          by_contra hno
          exact nomatch hu.symm.trans (hfind.mpr hno)
        rw [if_pos ⟨hdev, hcb.mpr hnone⟩]
        exact ⟨rfl, h.remove ((h.find_eq .devlist hk).mp hu)
          ((Stores.find_eq_none .cblist hk).mp hnone)⟩
    · rw [if_pos hnone, if_neg (fun hc => hnone (hcb.mp hc.2))]
      exact ⟨rfl, h⟩

end Steps

/-! ## Any calls in any order -/

/-- **Every call refines the directory's operation.** -/
theorem RegistryOp.step_refines (op : RegistryOp) {r : Registry}
    {d : Directory (List UInt8) Callbacks} (h : Stores r d) :
    op.StepRefines r d := by
  cases op with
  | create name env => exact step_create h
  | remove name => exact step_remove h
  | register name c => exact step_register h
  | unregister name => exact step_unregister h
  | findAndOpen name => exact step_findAndOpen h
  | findAndClose name => exact step_findAndClose h

/-- **The registry refines a directory.** From the tables that are set up at
the start on, any list of calls gets the answers of the directory, and the
tables store it. -/
theorem registry_refines (r : Registry) (ops : List RegistryOp) :
    let tables := Object.run RegistryOp.step ops (kucommsInit r)
    let directory := Object.run
      (fun op => Directory.step kucommsListSize op.dirOp) ops .empty
    tables.1 = directory.1 ∧ Stores tables.2 directory.2 := by
  have hstep : Object.Refines RegistryOp.step
      (fun op => Directory.step kucommsListSize op.dirOp) (fun _ => True)
      Stores := fun op _ _ _ h => op.step_refines h
  exact hstep.run (fun _ _ => trivial) (Stores.init r)
