import Kucomms.Register
import Kucomms.SlotTable

/-!
# What the registry functions do

The functions of the registry, run under the mutex with nothing in between,
as operations on the tables: a slot holds the bytes of its name if its
`filename_len` is not 0, whatever else is left in it, and the loops over
slots and bytes are the lookups of `Kucomms.SlotTable`.

One lemma for each function, `…_run`, says what it returns and what it does
to the tables. The programs are not opened again after this module.
-/

open Prog

/-! ## Names -/

/-- The bytes of a name. -/
def nameBytes (name : Bytes) (len : UInt32) : List UInt8 :=
  (List.range len.toNat).map name

/-- **The name a pointer and a length stand for**, if they stand for one. -/
def Name.key (name : Name) : Option (List UInt8) :=
  match name.ptr with
  | none => none
  | some ptr => if name.len = 0 then none else some (nameBytes ptr name.len)

/-- A name that stands for something. -/
theorem Name.key_eq_some {name : Name} {k : List UInt8} :
    name.key = some k ↔ ∃ ptr, name.ptr = some ptr ∧ name.len ≠ 0
      ∧ k = nameBytes ptr name.len := by
  unfold Name.key
  cases name.ptr with
  | none => simp
  | some ptr =>
    by_cases h : name.len = 0
    · simp [h]
    · simp [h, eq_comm]

theorem length_nameBytes (name : Bytes) (len : UInt32) :
    (nameBytes name len).length = len.toNat := by
  simp [nameBytes]

/-- Two names are the same if their lengths and bytes are. -/
theorem nameBytes_eq {p q : Bytes} {m n : UInt32} :
    nameBytes p m = nameBytes q n ↔ m = n ∧ ∀ j < n.toNat, p j = q j := by
  constructor
  · intro h
    have hlen := congrArg List.length h
    rw [length_nameBytes, length_nameBytes, UInt32.toNat_inj] at hlen
    subst hlen
    refine ⟨rfl, fun j hj => ?_⟩
    have hj' := congrArg (fun l => l[j]?) h
    simpa [nameBytes, hj] using hj'
  · rintro ⟨rfl, h⟩
    exact List.map_congr_left (fun j hj => h j (List.mem_range.mp hj))

namespace Registry

/-- **The names in the slots of a table.** -/
def slotKeys (r : Registry) (t : RegTable) (u : Fin kucommsListSize) :
    Option (List UInt8) :=
  if r.len u t = 0 then none
  else some (nameBytes (r.filename u t) (r.len u t))

/-- The slot of a name. -/
def find (r : Registry) (t : RegTable) (name : Name) :
    Option (Fin kucommsListSize) :=
  name.key.bind (SlotTable.find (r.slotKeys t))

theorem slotKeys_eq_none {r : Registry} {t : RegTable}
    {u : Fin kucommsListSize} : r.slotKeys t u = none ↔ r.len u t = 0 := by
  unfold slotKeys
  split <;> simp_all

theorem slotKeys_eq_some {r : Registry} {t : RegTable}
    {u : Fin kucommsListSize} {name : Bytes} {len : UInt32} (hlen : len ≠ 0) :
    r.slotKeys t u = some (nameBytes name len)
      ↔ r.len u t = len ∧ ∀ j < len.toNat, r.filename u t j = name j := by
  unfold slotKeys
  split
  · next h =>
    rw [h]
    exact ⟨(fun hc => nomatch hc), fun hc => absurd hc.1.symm hlen⟩
  · rw [Option.some_inj, nameBytes_eq]

end Registry

/-! ## The accesses, run alone -/

section Accesses

variable {α : Type} (env : ChrdevAnswer) (r : Registry) (t : RegTable)
  (u : Fin kucommsListSize)

@[simp] theorem run_loadLen (k : UInt32 → RegProg α) :
    (Prog.act (.loadLen t u) k).run (RegAct.exec env) r
      = (k (r.len u t)).run (RegAct.exec env) r := rfl

@[simp] theorem run_loadByte (j : ℕ) (k : UInt8 → RegProg α) :
    (Prog.act (.loadByte t u j) k).run (RegAct.exec env) r
      = (k (r.filename u t j)).run (RegAct.exec env) r := rfl

@[simp] theorem run_loadOpen (k : Bool → RegProg α) :
    (Prog.act (.loadOpen u) k).run (RegAct.exec env) r
      = (k (r.cblist u).isOpen).run (RegAct.exec env) r := rfl

@[simp] theorem run_storeOpen (b : Bool) (k : Unit → RegProg α) :
    (Prog.act (.storeOpen u b) k).run (RegAct.exec env) r
      = (k ()).run (RegAct.exec env)
        (r.modifyCb u (fun d => { d with isOpen := b })) := rfl

@[simp] theorem run_storeLen (n : UInt32) (k : Unit → RegProg α) :
    (Prog.act (.storeLen t u n) k).run (RegAct.exec env) r
      = (k ()).run (RegAct.exec env) (r.setLen u n t) := rfl

@[simp] theorem run_storeByte (j : ℕ) (b : UInt8) (k : Unit → RegProg α) :
    (Prog.act (.storeByte t u j b) k).run (RegAct.exec env) r
      = (k ()).run (RegAct.exec env) (r.setByte u j b t) := rfl

@[simp] theorem run_storeCallbacks (c : Callbacks) (k : Unit → RegProg α) :
    (Prog.act (.storeCallbacks u c) k).run (RegAct.exec env) r
      = (k ()).run (RegAct.exec env)
        (r.modifyCb u (fun d => { d with callbacks := c })) := rfl

@[simp] theorem run_loadMajor (k : ℤ → RegProg α) :
    (Prog.act (.loadMajor u) k).run (RegAct.exec env) r
      = (k (r.devlist u).major).run (RegAct.exec env) r := rfl

@[simp] theorem run_storeMajor (major : ℤ) (k : Unit → RegProg α) :
    (Prog.act (.storeMajor u major) k).run (RegAct.exec env) r
      = (k ()).run (RegAct.exec env)
        (r.modifyDev u (fun d => { d with major := major })) := rfl

@[simp] theorem run_loadCls (k : ℕ → RegProg α) :
    (Prog.act (.loadCls u) k).run (RegAct.exec env) r
      = (k (r.devlist u).cls).run (RegAct.exec env) r := rfl

@[simp] theorem run_storeCls (cls : ℕ) (k : Unit → RegProg α) :
    (Prog.act (.storeCls u cls) k).run (RegAct.exec env) r
      = (k ()).run (RegAct.exec env)
        (r.modifyDev u (fun d => { d with cls := cls })) := rfl

@[simp] theorem run_registerChrdev (k : ℤ → RegProg α) :
    (Prog.act (.registerChrdev u) k).run (RegAct.exec env) r
      = (k env.major).run (RegAct.exec env) r := rfl

@[simp] theorem run_classCreate (k : ℕ → RegProg α) :
    (Prog.act (.classCreate u) k).run (RegAct.exec env) r
      = (k env.cls).run (RegAct.exec env) r := rfl

@[simp] theorem run_deviceCreate (cls : ℕ) (major : ℤ) (k : Unit → RegProg α) :
    (Prog.act (.deviceCreate u cls major) k).run (RegAct.exec env) r
      = (k ()).run (RegAct.exec env) r := rfl

@[simp] theorem run_deviceDestroy (cls : ℕ) (major : ℤ)
    (k : Unit → RegProg α) :
    (Prog.act (.deviceDestroy cls major) k).run (RegAct.exec env) r
      = (k ()).run (RegAct.exec env) r := rfl

@[simp] theorem run_classDestroy (cls : ℕ) (k : Unit → RegProg α) :
    (Prog.act (.classDestroy cls) k).run (RegAct.exec env) r
      = (k ()).run (RegAct.exec env) r := rfl

@[simp] theorem run_unregisterChrdev (major : ℤ) (k : Unit → RegProg α) :
    (Prog.act (.unregisterChrdev u major) k).run (RegAct.exec env) r
      = (k ()).run (RegAct.exec env) r := rfl

end Accesses

/-! ## The loops -/

section Loops

variable {env : ChrdevAnswer} {r : Registry} {t : RegTable}
  {u : Fin kucommsListSize} {name : Bytes}

theorem nameMatches_run (n u1 : ℕ) :
    (nameMatches t u name n u1).run (RegAct.exec env) r
      = (decide (∀ j < n, r.filename u t (u1 + j) = name (u1 + j)), r) := by
  induction n generalizing u1 with
  | zero => simp [nameMatches]
  | succ n ih =>
    have hsplit : (∀ j < n + 1, r.filename u t (u1 + j) = name (u1 + j))
        ↔ r.filename u t u1 = name u1
          ∧ ∀ j < n, r.filename u t (u1 + 1 + j) = name (u1 + 1 + j) := by
      constructor
      · intro h
        refine ⟨h 0 (by omega), fun j hj => ?_⟩
        have := h (j + 1) (by omega)
        rwa [show u1 + (j + 1) = u1 + 1 + j by omega] at this
      · rintro ⟨h0, h⟩ j hj
        cases j with
        | zero => exact h0
        | succ j =>
          rw [show u1 + (j + 1) = u1 + 1 + j by omega]
          exact h j (by omega)
    simp only [nameMatches, act_bind, ret_bind, run_loadByte]
    by_cases hb : r.filename u t u1 = name u1
    · rw [if_neg (not_not.mpr hb), ih]
      simp only [hsplit, hb, true_and]
    · rw [if_pos hb]
      simp only [pure_eq_ret, run_ret, hsplit, hb, false_and, decide_false]

/-- **The search** finds the first of the slots listed that holds the
name. -/
theorem searchSlots_run {len : UInt32} (hlen : len ≠ 0)
    (us : List (Fin kucommsListSize)) :
    (searchSlots t name len us).run (RegAct.exec env) r
      = (us.find? (fun u => r.slotKeys t u = some (nameBytes name len)), r) := by
  induction us with
  | nil => rfl
  | cons u us ih =>
    simp only [searchSlots, act_bind, ret_bind, run_loadLen,
      List.find?_cons, Registry.slotKeys_eq_some hlen]
    by_cases hzero : r.len u t = 0
    · rw [if_pos hzero, ih]
      have hne : r.len u t ≠ len := fun h => hlen (h.symm.trans hzero)
      simp [hne, Registry.slotKeys_eq_some hlen]
    · rw [if_neg hzero]
      by_cases hne : r.len u t = len
      · rw [if_neg (not_not.mpr hne), run_bind, nameMatches_run]
        simp only [Nat.zero_add, hne, true_and]
        by_cases hm : ∀ j < len.toNat, r.filename u t j = name j
        · rw [decide_eq_true hm, if_pos rfl]
          rfl
        · simp only [hm, decide_false, Bool.false_eq_true, if_false]
          rw [ih]
          simp [Registry.slotKeys_eq_some hlen]
      · rw [if_pos hne, ih]
        simp [hne, Registry.slotKeys_eq_some hlen]

/-- **The lookup of a name.** -/
theorem findSlot_run (t : RegTable) (name : Name) :
    (findSlot t name).run (RegAct.exec env) r = (r.find t name, r) := by
  unfold findSlot Registry.find Name.key
  cases name.ptr with
  | none => rfl
  | some ptr =>
    dsimp only
    by_cases h : name.len = 0
    · rw [if_pos h, if_pos h]
      rfl
    · rw [if_neg h, if_neg h, searchSlots_run h]
      rfl

/-- The first free slot. -/
theorem firstFree_run (us : List (Fin kucommsListSize)) :
    (firstFree t us).run (RegAct.exec env) r
      = (us.find? (fun u => r.slotKeys t u = none), r) := by
  induction us with
  | nil => rfl
  | cons u us ih =>
    simp only [firstFree, act_bind, ret_bind, run_loadLen, List.find?_cons,
      Registry.slotKeys_eq_none]
    by_cases h : r.len u t = 0
    · simp [h]
    · rw [if_pos h, ih]
      simp [h, Registry.slotKeys_eq_none]

end Loops

/-! ## Changing a slot -/

namespace Registry

variable {r : Registry} {u : Fin kucommsListSize}

/-- The name that a length and the bytes of a slot stand for. -/
def slotKey (filename : Bytes) (len : UInt32) : Option (List UInt8) :=
  if len = 0 then none else some (nameBytes filename len)

@[simp] theorem modifyCb_modifyCb
    (f g : KucommsCallbackData → KucommsCallbackData) :
    (r.modifyCb u f).modifyCb u g = r.modifyCb u (g ∘ f) := by
  simp [modifyCb]

@[simp] theorem modifyDev_modifyDev
    (f g : KucommsCharDeviceData → KucommsCharDeviceData) :
    (r.modifyDev u f).modifyDev u g = r.modifyDev u (g ∘ f) := by
  simp [modifyDev]

@[simp] theorem modifyCb_cblist
    (f : KucommsCallbackData → KucommsCallbackData) :
    (r.modifyCb u f).cblist = Function.update r.cblist u (f (r.cblist u)) :=
  rfl

@[simp] theorem modifyDev_devlist
    (f : KucommsCharDeviceData → KucommsCharDeviceData) :
    (r.modifyDev u f).devlist = Function.update r.devlist u (f (r.devlist u)) :=
  rfl

theorem slotKeys_cblist :
    r.slotKeys .cblist u
      = slotKey (r.cblist u).filename (r.cblist u).filenameLen := rfl

theorem slotKeys_devlist :
    r.slotKeys .devlist u
      = slotKey (r.devlist u).filename (r.devlist u).filenameLen := rfl

/-- The names after a slot of the callbacks has changed. -/
@[simp] theorem slotKeys_modifyCb
    (f : KucommsCallbackData → KucommsCallbackData) :
    (r.modifyCb u f).slotKeys .cblist
      = Function.update (r.slotKeys .cblist) u
        (slotKey (f (r.cblist u)).filename (f (r.cblist u)).filenameLen) := by
  funext v
  by_cases hvu : v = u
  · subst hvu
    rw [slotKeys_cblist, modifyCb_cblist, Function.update_self,
      Function.update_self]
  · rw [slotKeys_cblist, modifyCb_cblist, Function.update_of_ne hvu,
      Function.update_of_ne hvu, slotKeys_cblist]

@[simp] theorem slotKeys_modifyCb_devlist
    (f : KucommsCallbackData → KucommsCallbackData) :
    (r.modifyCb u f).slotKeys .devlist = r.slotKeys .devlist := rfl

/-- The names after a slot of the devices has changed. -/
@[simp] theorem slotKeys_modifyDev
    (f : KucommsCharDeviceData → KucommsCharDeviceData) :
    (r.modifyDev u f).slotKeys .devlist
      = Function.update (r.slotKeys .devlist) u
        (slotKey (f (r.devlist u)).filename
          (f (r.devlist u)).filenameLen) := by
  funext v
  by_cases hvu : v = u
  · subst hvu
    rw [slotKeys_devlist, modifyDev_devlist, Function.update_self,
      Function.update_self]
  · rw [slotKeys_devlist, modifyDev_devlist, Function.update_of_ne hvu,
      Function.update_of_ne hvu, slotKeys_devlist]

/-- Store the open flag of a slot. -/
def setOpen (r : Registry) (u : Fin kucommsListSize) (b : Bool) : Registry :=
  r.modifyCb u (fun d => { d with isOpen := b })

/-- The open flags have nothing to do with the names. -/
@[simp] theorem slotKeys_setOpen (b : Bool) (t : RegTable) :
    (r.setOpen u b).slotKeys t = r.slotKeys t := by
  cases t with
  | cblist =>
    rw [setOpen, slotKeys_modifyCb]
    exact Function.update_eq_self u (r.slotKeys .cblist)
  | devlist => rfl

theorem find_setOpen (b : Bool) (t : RegTable) (name : Name) :
    (r.setOpen u b).find t name = r.find t name := by
  rw [find, slotKeys_setOpen, find]

end Registry

/-- Memory with `n` bytes from the `k`-th on overwritten. -/
def overwrite (p q : Bytes) (k n : ℕ) : Bytes :=
  fun j => if k ≤ j ∧ j < k + n then q j else p j

theorem overwrite_zero (p q : Bytes) (k : ℕ) : overwrite p q k 0 = p := by
  funext j
  exact if_neg (by omega)

theorem overwrite_succ (p q : Bytes) (k n : ℕ) :
    overwrite (Function.update p k (q k)) q (k + 1) n
      = overwrite p q k (n + 1) := by
  funext j
  unfold overwrite
  by_cases hj : j = k
  · subst hj
    rw [if_neg (by omega), if_pos (by omega), Function.update_self]
  · rw [Function.update_of_ne hj]
    exact if_congr (by omega) rfl rfl

/-- The bytes copied are the bytes of the name. -/
theorem nameBytes_overwrite (p q : Bytes) (len : UInt32) :
    nameBytes (overwrite p q 0 len.toNat) len = nameBytes q len :=
  nameBytes_eq.mpr ⟨rfl, fun j hj => if_pos (by omega)⟩

/-! ## The functions -/

section Functions

variable {env : ChrdevAnswer} {r : Registry} {u : Fin kucommsListSize}
  {name : Name}

/-- The copy of a name into a slot of the callbacks. -/
theorem copyName_run_cblist (p : Bytes) (n k : ℕ) :
    (copyName .cblist u p n k).run (RegAct.exec env) r
      = ((), r.modifyCb u (fun d =>
          { d with filename := overwrite d.filename p k n })) := by
  induction n generalizing k r with
  | zero =>
    simp only [copyName, pure_eq_ret, run_ret, overwrite_zero, Registry.modifyCb,
      Function.update_eq_self]
  | succ n ih =>
    simp only [copyName, act_bind, ret_bind, run_storeByte, ih,
      Registry.setByte, Registry.modifyCb_modifyCb]
    simp only [Function.comp_def, overwrite_succ]

/-- The copy of a name into a slot of the devices. -/
theorem copyName_run_devlist (p : Bytes) (n k : ℕ) :
    (copyName .devlist u p n k).run (RegAct.exec env) r
      = ((), r.modifyDev u (fun d =>
          { d with filename := overwrite d.filename p k n })) := by
  induction n generalizing k r with
  | zero =>
    simp only [copyName, pure_eq_ret, run_ret, overwrite_zero,
      Registry.modifyDev, Function.update_eq_self]
  | succ n ih =>
    simp only [copyName, act_bind, ret_bind, run_storeByte, ih,
      Registry.setByte, Registry.modifyDev_modifyDev]
    simp only [Function.comp_def, overwrite_succ]

/-- **`kucomms_find_and_open`** marks the entry open, and says whether it was
before. -/
theorem findAndOpen_run :
    (findAndOpen name).run (RegAct.exec env) r
      = match r.find .cblist name with
        | none => ((none, false), r)
        | some u => ((some u, (r.cblist u).isOpen), r.setOpen u true) := by
  simp only [findAndOpen, kucommsFindCallbackData, run_bind, findSlot_run]
  cases r.find .cblist name with
  | none => rfl
  | some u => rfl

/-- **`kucomms_find_and_close`** marks the entry closed. -/
theorem findAndClose_run :
    (findAndClose name).run (RegAct.exec env) r
      = match r.find .cblist name with
        | none => ((), r)
        | some u => ((), r.setOpen u false) := by
  simp only [findAndClose, kucommsFindCallbackData, run_bind, findSlot_run]
  cases r.find .cblist name with
  | none => rfl
  | some u => rfl

/-- A slot of the callbacks that is registered. -/
def registered (ptr : Bytes) (len : UInt32) (c : Callbacks)
    (d : KucommsCallbackData) : KucommsCallbackData :=
  { d with
    callbacks := c
    filename := overwrite d.filename ptr 0 len.toNat
    filenameLen := len }

/-- A slot of the callbacks that is given up. -/
def unregistered (d : KucommsCallbackData) : KucommsCallbackData :=
  { d with callbacks := .null, filenameLen := 0, isOpen := false }

/-- What `kucomms_register` asks of its arguments and of the tables. -/
structure CanRegister (r : Registry) (name : Name) (c : Callbacks) : Prop where
  len_lt : name.len < kucommsFnameSize
  key : name.key ≠ none
  handlers : ¬(c.msghlr = 0 ∨ c.workhlr = 0 ∨ c.timerhlr = 0)
  not_registered : r.find .cblist name = none
  device : r.find .devlist name ≠ none

theorem key_of_len (h : name.len = 0) : name.key = none := by
  unfold Name.key
  cases name.ptr with
  | none => rfl
  | some ptr => exact if_pos h

/-- **`kucomms_register`** does nothing when it may not register. -/
theorem register_run_false {c : Callbacks} (h : ¬CanRegister r name c) :
    (register name c).run (RegAct.exec env) r = (false, r) := by
  unfold register
  split
  · rfl
  · next hlen =>
    split
    · rfl
    · next ptr hptr =>
      split
      · rfl
      · next hzero =>
        split
        · rfl
        · next hnull =>
          simp only [kucommsFindCallbackData, kucommsFindDeviceData, run_bind,
            findSlot_run]
          split
          · rfl
          · next hcb =>
            rw [run_bind, findSlot_run]
            split
            · rfl
            · next hdev =>
              refine absurd ⟨?_, ?_, hnull, not_not.mp hcb, hdev⟩ h
              · exact UInt32.not_le.mp hlen
              · simp [Name.key, hptr, hzero]

/-- **`kucomms_register`** takes the first free slot, if there is one. -/
theorem register_run_true {c : Callbacks} {ptr : Bytes}
    (hptr : name.ptr = some ptr) (h : CanRegister r name c) :
    (register name c).run (RegAct.exec env) r
      = match SlotTable.firstFree (r.slotKeys .cblist) with
        | none => (false, r)
        | some u => (true, r.modifyCb u (registered ptr name.len c)) := by
  have hzero : name.len ≠ 0 := fun hc => h.key (key_of_len hc)
  unfold register
  rw [if_neg (UInt32.not_le.mpr h.len_lt), hptr]
  dsimp only
  rw [if_neg hzero, if_neg h.handlers]
  simp only [kucommsFindCallbackData, kucommsFindDeviceData, run_bind,
    findSlot_run]
  rw [if_neg (not_not.mpr h.not_registered), run_bind, findSlot_run,
    if_neg h.device, run_bind, firstFree_run]
  show (match SlotTable.firstFree (r.slotKeys .cblist) with
    | none => _
    | some u => _ : RegProg Bool).run (RegAct.exec env) r = _
  cases SlotTable.firstFree (r.slotKeys .cblist) with
  | none => rfl
  | some u =>
    simp only [act_bind, ret_bind, run_bind, run_storeCallbacks, run_storeLen,
      copyName_run_cblist, Registry.setLen, Registry.modifyCb_modifyCb,
      pure_eq_ret, run_ret]
    rfl

/-- **`kucomms_unregister`** gives up the slot of a name that is not open,
and succeeds also if there is none. -/
theorem unregister_run :
    (unregister name).run (RegAct.exec env) r
      = match r.find .cblist name with
        | none => (true, r)
        | some u =>
          if (r.cblist u).isOpen = true then (false, r)
          else (true, r.modifyCb u unregistered) := by
  simp only [unregister, kucommsFindCallbackData, run_bind, findSlot_run]
  cases r.find .cblist name with
  | none => rfl
  | some u =>
    simp only [act_bind, ret_bind, run_loadOpen]
    split
    · rfl
    · simp only [run_storeCallbacks, run_storeLen, run_storeOpen,
        Registry.setLen, Registry.modifyCb_modifyCb, pure_eq_ret, run_ret]
      rfl

/-- A slot of the devices with a name and the 0 after it. -/
def withName (name : Bytes) (len : UInt32) (d : KucommsCharDeviceData) :
    KucommsCharDeviceData :=
  { d with
    filename :=
      Function.update (overwrite d.filename name 0 len.toNat) len.toNat 0
    filenameLen := len }

/-- A slot of the devices that is taken. -/
def created (env : ChrdevAnswer) (name : Bytes) (len : UInt32)
    (d : KucommsCharDeviceData) : KucommsCharDeviceData :=
  { withName name len d with major := env.major, cls := env.cls }

/-- A slot of the devices after `register_chrdev` failed: it is free again,
with the name left in it. -/
def rolledBack (name : Bytes) (len : UInt32) (d : KucommsCharDeviceData) :
    KucommsCharDeviceData :=
  { withName name len d with major := 0, filenameLen := 0 }

/-- A slot of the devices that is given up. -/
def removed (d : KucommsCharDeviceData) : KucommsCharDeviceData :=
  { d with major := 0, cls := 0, filenameLen := 0 }

/-- **`kucomms_char_device_create`** takes the first free slot, if there is
one, and frees it again if `register_chrdev` fails. -/
theorem charDeviceCreate_run {p : Bytes} {len : UInt32} :
    (charDeviceCreate p len).run (RegAct.exec env) r
      = if r.find .devlist ⟨some p, len⟩ ≠ none then (false, r)
        else match SlotTable.firstFree (r.slotKeys .devlist) with
          | none => (false, r)
          | some u =>
            if env.major < 0 then (false, r.modifyDev u (rolledBack p len))
            else (true, r.modifyDev u (created env p len)) := by
  simp only [charDeviceCreate, kucommsFindDeviceData, run_bind, findSlot_run]
  split
  · rfl
  · rw [run_bind, firstFree_run]
    show (match SlotTable.firstFree (r.slotKeys .devlist) with
      | none => _
      | some u => _ : RegProg Bool).run (RegAct.exec env) r = _
    cases SlotTable.firstFree (r.slotKeys .devlist) with
    | none => rfl
    | some u =>
      simp only [act_bind, ret_bind, run_bind, run_storeLen, run_storeByte,
        copyName_run_devlist, run_registerChrdev, run_storeMajor,
        Registry.setLen, Registry.setByte, Registry.modifyDev_modifyDev]
      split
      · simp only [run_storeMajor, run_storeLen, Registry.setLen,
          Registry.modifyDev_modifyDev, pure_eq_ret, run_ret]
        rfl
      · simp only [run_classCreate, run_storeCls, run_deviceCreate,
          Registry.modifyDev_modifyDev, pure_eq_ret, run_ret]
        rfl

/-- **`kucomms_char_device_remove`** gives up the slot of a name with no
callbacks. -/
theorem charDeviceRemove_run {p : Bytes} {len : UInt32} :
    (charDeviceRemove p len).run (RegAct.exec env) r
      = if r.find .cblist ⟨some p, len⟩ ≠ none then (false, r)
        else match r.find .devlist ⟨some p, len⟩ with
          | none => (false, r)
          | some u => (true, r.modifyDev u removed) := by
  simp only [charDeviceRemove, kucommsFindCallbackData, run_bind,
    findSlot_run]
  split
  · rfl
  · simp only [kucommsFindDeviceData, run_bind, findSlot_run]
    cases r.find .devlist ⟨some p, len⟩ with
    | none => rfl
    | some u =>
      simp only [act_bind, ret_bind, run_loadCls, run_loadMajor,
        run_deviceDestroy, run_classDestroy, run_unregisterChrdev,
        run_storeMajor, run_storeCls, run_storeLen, Registry.setLen,
        Registry.modifyDev_modifyDev, pure_eq_ret, run_ret]
      rfl

/-! ### The names in the slots they leave -/

theorem slotKey_registered {p : Bytes} {len : UInt32} (hlen : len ≠ 0)
    (c : Callbacks) (e : KucommsCallbackData) :
    Registry.slotKey (registered p len c e).filename
        (registered p len c e).filenameLen
      = some (nameBytes p len) :=
  (if_neg hlen).trans (congrArg some (nameBytes_overwrite _ p len))

theorem slotKey_unregistered (e : KucommsCallbackData) :
    Registry.slotKey (unregistered e).filename (unregistered e).filenameLen
      = none := rfl

theorem slotKey_created {p : Bytes} {len : UInt32} (hlen : len ≠ 0)
    (e : KucommsCharDeviceData) :
    Registry.slotKey (created env p len e).filename
        (created env p len e).filenameLen
      = some (nameBytes p len) := by
  refine (if_neg hlen).trans (congrArg some ?_)
  refine Eq.trans (nameBytes_eq.mpr ⟨rfl, fun j hj => ?_⟩)
    (nameBytes_overwrite e.filename p len)
  exact Function.update_of_ne (Nat.ne_of_lt hj) _ _

theorem slotKey_rolledBack {p : Bytes} {len : UInt32}
    (e : KucommsCharDeviceData) :
    Registry.slotKey (rolledBack p len e).filename
      (rolledBack p len e).filenameLen = none := rfl

theorem slotKey_removed (e : KucommsCharDeviceData) :
    Registry.slotKey (removed e).filename (removed e).filenameLen = none :=
  rfl

end Functions
