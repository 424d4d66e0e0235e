import Kucomms.KernelObjects
import Kucomms.RegistryRefinement

/-!
# The module, from its loading to its unloading

`kernel-modules/kucomms/kucomms_mod.c`: `init_kucomms` makes a character
device for the module itself, with two attribute files through which devices
are created and removed, and `exit_kucomms` releases all of it, together with
the devices that are left.

`module_objects` is the account of what the module has got from the kernel,
over any number of loadings and unloadings with anything in between. It is
exact: what is live is what the module, the devices and nobody else hold, and
nothing is released twice, or too early. The exception is an `init_kucomms`
that fails after `register_chrdev`: it removes the file it has made, but
neither device nor class nor device numbers, and nothing ever will.

Two things are counted on that the module does not see to
(`ModuleOp.NoErrorPointer`, `ModuleOp.NothingEarly`). It does not look at what
`class_create` and `device_create` return. And it makes its files before it
initialises its tables, so that a write that comes in between is forgotten
with the device it has created (`early_write_leaks`).
-/

open Prog

/-! ## The registry, and what it has of the kernel -/

/-- **What an action does to the tables**, and to the account of what the kernel
has given out. -/
def RegAct.execObjects (env : KernelAnswers) :
    (a : RegAct) → Registry × KernelObjects →
      a.Res × Registry × KernelObjects
  | .registerChrdev _, (r, g) => (env.major, r, g.registerChrdev env.major)
  | .classCreate _, (r, g) => (env.cls, r, g.classCreate env.cls)
  | .deviceCreate _ cls major, (r, g) =>
    ((), r, g.deviceCreate env.device cls major)
  | .deviceDestroy cls major, (r, g) => ((), r, g.deviceDestroy cls major)
  | .classDestroy cls, (r, g) => ((), r, g.classDestroy cls)
  | .unregisterChrdev _ major, (r, g) => ((), r, g.unregisterChrdev major)
  | a, (r, g) => ((a.exec .unused r).1, (a.exec .unused r).2, g)

/-- The loop of `kucomms_char_device_remove_all` over the slots listed. -/
def removeSlots : List (Fin kucommsListSize) → RegProg Unit
  | [] => return ()
  | u :: us => do
    let n ← (.act (.loadLen .devlist u) .ret : RegProg UInt32)
    if n = 0 then
      removeSlots us
    else
      let cls ← (.act (.loadCls u) .ret : RegProg ℕ)
      let major ← (.act (.loadMajor u) .ret : RegProg ℤ)
      (.act (.deviceDestroy cls major) .ret : RegProg Unit)
      (.act (.classDestroy cls) .ret : RegProg Unit)
      (.act (.unregisterChrdev u major) .ret : RegProg Unit)
      removeSlots us

/-- `kucomms_char_device_remove_all` -/
def kucommsCharDeviceRemoveAll : RegProg Bool := do
  removeSlots (List.finRange kucommsListSize)
  return true

/-- A name as it is passed from a file, `strlen` being the number of its
characters. -/
def nameOf (buf : List UInt8) : Name :=
  ⟨some (fun k => buf.getD k 0), UInt32.ofNat buf.length⟩

/-- `create_device_store` -/
def createDeviceStore (buf : List UInt8) : LockedRegProg ℤ := do
  let ok ← kucommsCharDeviceCreate (nameOf buf)
  if ok = false then return -1
  else return buf.length

/-- `remove_device_store` -/
def removeDeviceStore (buf : List UInt8) : LockedRegProg ℤ := do
  let ok ← kucommsCharDeviceRemove (nameOf buf)
  if ok = false then return -1
  else return buf.length

/-- The `store` method of a file. -/
def deviceStore : DeviceFile → List UInt8 → LockedRegProg ℤ
  | .createDevice => createDeviceStore
  | .removeDevice => removeDeviceStore

/-! ## The module -/

/-- **The actions of the module**: those of the registry, and the calls that
`init_kucomms` and `exit_kucomms` make on their own account. -/
inductive ModAct where
  | reg (a : RegAct)
  /-- `register_chrdev(0, KUCOMMS_DEVICE_NAME, ..)` -/
  | registerChrdev
  /-- `class_create(KUCOMMS_DEVICE_NAME)` -/
  | classCreate
  /-- `device_create(cls, NULL, MKDEV(major, 0), NULL, KUCOMMS_DEVICE_NAME)` -/
  | deviceCreate (cls : ℕ) (major : ℤ)
  /-- `device_create_file(dev_module, ..)` -/
  | deviceCreateFile (dev : ℕ) (f : DeviceFile)
  /-- `device_remove_file(dev_module, ..)` -/
  | deviceRemoveFile (dev : ℕ) (f : DeviceFile)
  /-- `unregister_chrdev(major, KUCOMMS_DEVICE_NAME)` -/
  | unregisterChrdev (major : ℤ)
  /-- `kucomms_callback_list_init` and `kucomms_device_list_init` -/
  | listInit

/-- The answer to an action. -/
@[reducible] def ModAct.Res : ModAct → Type
  | .reg a => a.Res
  | .registerChrdev | .deviceCreateFile _ _ => ℤ
  | .classCreate | .deviceCreate _ _ => ℕ
  | _ => Unit

/-- A write to one of the files, and what Linux answers while it is dealt
with. -/
structure FileWrite where
  file : DeviceFile
  buf : List UInt8
  env : KernelAnswers

/-- What a write does, if the file is there. -/
def FileWrite.exec (s : Registry × KernelObjects) (w : FileWrite) :
    Registry × KernelObjects :=
  if .file w.file ∈ s.2.live then
    ((deviceStore w.file w.buf).run
      (LockAct.execAlone (RegAct.execObjects w.env)) s).2
  else
    s

/-- **What an action of the module does.** While a file is there, somebody may
write to it: `writes f` are the writes after `f` has been made or removed, and
before the module goes on. -/
def ModAct.exec (env : KernelAnswers) (writes : DeviceFile → List FileWrite) :
    (a : ModAct) → Registry × KernelObjects →
      a.Res × Registry × KernelObjects
  | .reg a, s => a.execObjects env s
  | .registerChrdev, (r, g) => (env.major, r, g.registerChrdev env.major)
  | .classCreate, (r, g) => (env.cls, r, g.classCreate env.cls)
  | .deviceCreate cls major, (r, g) =>
    (env.device, r, g.deviceCreate env.device cls major)
  | .deviceCreateFile dev f, (r, g) =>
    (env.file f, (writes f).foldl FileWrite.exec
      (r, g.deviceCreateFile dev f (env.file f)))
  | .deviceRemoveFile dev f, (r, g) =>
    ((), (writes f).foldl FileWrite.exec (r, g.deviceRemoveFile dev f))
  | .unregisterChrdev major, (r, g) => ((), r, g.unregisterChrdev major)
  | .listInit, (r, g) => ((), kucommsInit r, g)

/-- A function of `kucomms_mod.c`. -/
abbrev ModProg : Type → Type := Prog ModAct ModAct.Res

/-- The static variables of `kucomms_mod.c`. -/
structure ModuleGlobals where
  major : ℤ
  cls : ℕ
  devModule : ℕ
  deriving DecidableEq

/-- `ENODEV` -/
def enodev : ℤ := 19

/-- `init_kucomms`: what it returns, and the static variables. -/
def initKucomms : ModProg (ℤ × ModuleGlobals) := do
  let major ← (.act .registerChrdev .ret : ModProg ℤ)
  if major < 0 then
    return (major, ⟨major, 0, 0⟩)
  else
    let cls ← (.act .classCreate .ret : ModProg ℕ)
    let devModule ← (.act (.deviceCreate cls major) .ret : ModProg ℕ)
    let ret ← (.act (.deviceCreateFile devModule .createDevice) .ret :
      ModProg ℤ)
    if ret ≠ 0 then
      return (-enodev, ⟨major, cls, devModule⟩)
    else
      let ret ← (.act (.deviceCreateFile devModule .removeDevice) .ret :
        ModProg ℤ)
      if ret ≠ 0 then
        (.act (.deviceRemoveFile devModule .createDevice) .ret :
          ModProg Unit)
        return (-enodev, ⟨major, cls, devModule⟩)
      else
        (.act .listInit .ret : ModProg Unit)
        return (0, ⟨major, cls, devModule⟩)

/-- `exit_kucomms` -/
def exitKucomms (m : ModuleGlobals) : ModProg Unit := do
  (.act (.deviceRemoveFile m.devModule .createDevice) .ret : ModProg Unit)
  (.act (.deviceRemoveFile m.devModule .removeDevice) .ret : ModProg Unit)
  let _ok ← (kucommsCharDeviceRemoveAll.embed ModAct.reg fun _ r => r :
    ModProg Bool)
  (.act (.reg (.deviceDestroy m.cls m.major)) .ret : ModProg Unit)
  (.act (.reg (.classDestroy m.cls)) .ret : ModProg Unit)
  .act (.unregisterChrdev m.major) .ret

/-! ## The system -/

/-- **The state**: the tables and the static variables of the module while it
is loaded, and the account of what the kernel has given out. -/
structure ModuleState where
  registry : Registry
  globals : Option ModuleGlobals
  /-- The static variables of every `init_kucomms` that failed after it had
  device numbers. -/
  failed : List ModuleGlobals
  objects : KernelObjects

/-- **What happens**: the module is loaded, or unloaded, somebody writes to one
of the files, and modules and opened files call the functions that are about
callbacks. -/
inductive ModuleOp where
  /-- `init_kucomms`, and what is written to the files while it runs. -/
  | load (env : KernelAnswers) (early : DeviceFile → List FileWrite)
  /-- `exit_kucomms`, and what is written to the files while it runs. -/
  | unload (late : DeviceFile → List FileWrite)
  | store (w : FileWrite)
  | register (name : Name) (c : Callbacks)
  | unregister (name : Name)
  | findAndOpen (name : Name)
  | findAndClose (name : Name)

/-- No answers are needed. -/
def KernelAnswers.unused : KernelAnswers := ⟨0, 0, 0, fun _ => 0⟩

namespace ModuleState

/-- The module has never been loaded. -/
def start : ModuleState := ⟨.blank, none, [], .empty⟩

/-- A call that is about callbacks. -/
def call {α : Type} (p : LockedRegProg α) (s : ModuleState) : ModuleState :=
  let x := p.run (LockAct.execAlone (RegAct.execObjects .unused))
    (s.registry, s.objects)
  { s with registry := x.2.1, objects := x.2.2 }

/-- **One event.** The module is loaded when it is not, into fresh memory,
and its functions are called while it is. -/
def step (s : ModuleState) : ModuleOp → ModuleState
  | .load env early =>
    match s.globals with
    | some _ => s
    | none =>
      let x := initKucomms.run (ModAct.exec env early) (.blank, s.objects)
      if x.1.1 = 0 then
        { s with registry := x.2.1, globals := some x.1.2, objects := x.2.2 }
      else if x.1.2.major < 0 then
        { s with objects := x.2.2 }
      else
        { s with failed := s.failed ++ [x.1.2], objects := x.2.2 }
  | .unload late =>
    match s.globals with
    | none => s
    | some m =>
      let x := (exitKucomms m).run (ModAct.exec .unused late)
        (s.registry, s.objects)
      { s with registry := .blank, globals := none, objects := x.2.2 }
  | .store w =>
    match s.globals with
    | none => s
    | some _ =>
      let x := w.exec (s.registry, s.objects)
      { s with registry := x.1, objects := x.2 }
  | .register name c =>
    match s.globals with
    | none => s
    | some _ => s.call (kucommsRegister name c)
  | .unregister name =>
    match s.globals with
    | none => s
    | some _ => s.call (kucommsUnregister name)
  | .findAndOpen name =>
    match s.globals with
    | none => s
    | some _ => s.call (kucommsFindAndOpen name)
  | .findAndClose name =>
    match s.globals with
    | none => s
    | some _ => s.call (kucommsFindAndClose name)

/-- Any number of events. -/
def run (s : ModuleState) (ops : List ModuleOp) : ModuleState :=
  ops.foldl step s

end ModuleState

/-! ## What is counted on -/

/-- **Linux behaves as documented** in an event. -/
def ModuleOp.Documented (s : ModuleState) : ModuleOp → Prop
  | .load env _ => env.Documented s.objects
  | .store w => w.env.Documented s.objects
  | _ => True

/-- **No error pointers**: `class_create` succeeds, and so does `device_create`
for the module itself, whose device `device_create_file` is given. -/
def ModuleOp.NoErrorPointer : ModuleOp → Prop
  | .load env _ => env.cls ≠ 0 ∧ env.device ≠ 0
  | .store w => w.env.cls ≠ 0
  | _ => True

/-- **Nothing is written to the files early**: before `init_kucomms` has
returned. -/
def ModuleOp.NothingEarly : ModuleOp → Prop
  | .load _ early => ∀ f, early f = []
  | _ => True

/-- **A history in which this is so** in each event. -/
def ModuleState.Goes (s : ModuleState) : List ModuleOp → Prop
  | [] => True
  | op :: ops => (op.Documented s ∧ op.NoErrorPointer ∧ op.NothingEarly)
    ∧ (s.step op).Goes ops

section Decidable

instance (env : KernelAnswers) (g : KernelObjects) :
    Decidable (env.Documented g) :=
  decidable_of_iff ((¬env.major < 0 → .chrdev env.major ∉ g.live)
    ∧ (env.cls ≠ 0 → .cls env.cls ∉ g.live))
    ⟨fun h => ⟨h.1, h.2⟩, fun h => ⟨h.1, h.2⟩⟩

instance (s : ModuleState) (op : ModuleOp) : Decidable (op.Documented s) :=
  match op with
  | .load env _ => inferInstanceAs (Decidable (env.Documented s.objects))
  | .store w => inferInstanceAs (Decidable (w.env.Documented s.objects))
  | .unload _ | .register _ _ | .unregister _ | .findAndOpen _
  | .findAndClose _ => inferInstanceAs (Decidable True)

instance (op : ModuleOp) : Decidable op.NoErrorPointer :=
  match op with
  | .load env _ => inferInstanceAs (Decidable (env.cls ≠ 0 ∧ env.device ≠ 0))
  | .store w => inferInstanceAs (Decidable (w.env.cls ≠ 0))
  | .unload _ | .register _ _ | .unregister _ | .findAndOpen _
  | .findAndClose _ => inferInstanceAs (Decidable True)

instance (op : ModuleOp) : Decidable op.NothingEarly :=
  match op with
  | .load _ early => decidable_of_iff
      (early .createDevice = [] ∧ early .removeDevice = [])
      ⟨fun h f => by cases f; exacts [h.1, h.2], fun h => ⟨h _, h _⟩⟩
  | .unload _ | .store _ | .register _ _ | .unregister _ | .findAndOpen _
  | .findAndClose _ => inferInstanceAs (Decidable True)

instance ModuleState.decidableGoes (s : ModuleState) :
    (ops : List ModuleOp) → Decidable (s.Goes ops)
  | [] => inferInstanceAs (Decidable True)
  | op :: ops =>
    have := decidableGoes (s.step op) ops
    inferInstanceAs (Decidable ((op.Documented s ∧ op.NoErrorPointer
      ∧ op.NothingEarly) ∧ (s.step op).Goes ops))

end Decidable

/-! ## Programs that ask nothing of the kernel -/

/-- The accesses to the tables. -/
def RegAct.OnTables : RegAct → Prop
  | .registerChrdev _ | .classCreate _ | .deviceCreate _ _ _ => False
  | .deviceDestroy _ _ | .classDestroy _ | .unregisterChrdev _ _ => False
  | _ => True

/-- Those of them that store nothing in the table of devices. -/
def RegAct.OnCallbacks : RegAct → Prop
  | .storeLen t _ _ | .storeByte t _ _ _ => t = .cblist
  | .storeMajor _ _ | .storeCls _ _ => False
  | a => a.OnTables

section OnTables

variable {α : Type} {env : KernelAnswers} {r : Registry} {g : KernelObjects}
  {t : RegTable} {u : Fin kucommsListSize} {name : Bytes}

theorem RegAct.OnCallbacks.onTables {a : RegAct} (h : a.OnCallbacks) :
    a.OnTables := by
  cases a <;> trivial

/-- Without the kernel, only the tables matter. -/
theorem run_onTables {p : RegProg α} (hp : p.All RegAct.OnTables) :
    p.run (RegAct.execObjects env) (r, g)
      = ((p.run (RegAct.exec .unused) r).1,
        (p.run (RegAct.exec .unused) r).2, g) := by
  induction p generalizing r with
  | ret v => rfl
  | act a k ih =>
    obtain ⟨ha, hk⟩ := hp
    have hexec : a.execObjects env (r, g)
        = ((a.exec .unused r).1, (a.exec .unused r).2, g) := by
      cases a <;> first | rfl | exact ha.elim
    rw [run_act, hexec]
    exact ih _ (hk _)

/-- The devices stay as they are. -/
theorem devlist_onCallbacks {p : RegProg α} (hp : p.All RegAct.OnCallbacks) :
    (p.run (RegAct.exec .unused) r).2.devlist = r.devlist := by
  induction p generalizing r with
  | ret v => rfl
  | act a k ih =>
    obtain ⟨ha, hk⟩ := hp
    refine (ih _ (hk _)).trans ?_
    cases a with
    | storeLen t u n =>
      obtain rfl : t = .cblist := ha
      rfl
    | storeByte t u k b =>
      obtain rfl : t = .cblist := ha
      rfl
    | storeMajor u n => exact ha.elim
    | storeCls u n => exact ha.elim
    | _ => rfl

theorem nameMatches_onCallbacks (n u1 : ℕ) :
    (nameMatches t u name n u1).All RegAct.OnCallbacks := by
  induction n generalizing u1 with
  | zero => trivial
  | succ n ih => exact ⟨trivial, fun _ => .ite trivial (ih _)⟩

theorem searchSlots_onCallbacks (len : UInt32)
    (us : List (Fin kucommsListSize)) :
    (searchSlots t name len us).All RegAct.OnCallbacks := by
  induction us with
  | nil => trivial
  | cons u us ih =>
    exact ⟨trivial, fun _ => .ite ih (.ite ih
      (.bind (nameMatches_onCallbacks _ _) fun _ => .ite trivial ih))⟩

theorem findSlot_onCallbacks (name : Name) :
    (findSlot t name).All RegAct.OnCallbacks := by
  unfold findSlot
  split
  · trivial
  · exact .ite trivial (searchSlots_onCallbacks _ _)

theorem firstFree_onCallbacks (us : List (Fin kucommsListSize)) :
    (firstFree t us).All RegAct.OnCallbacks := by
  induction us with
  | nil => trivial
  | cons u us ih => exact ⟨trivial, fun _ => .ite ih trivial⟩

theorem copyName_all {T : RegAct → Prop}
    (hT : ∀ k b, T (.storeByte t u k b)) (n k : ℕ) :
    (copyName t u name n k).All T := by
  induction n generalizing k with
  | zero => trivial
  | succ n ih => exact ⟨hT _ _, fun _ => ih _⟩

theorem register_onCallbacks (name : Name) (c : Callbacks) :
    (register name c).All RegAct.OnCallbacks := by
  unfold register
  refine .ite trivial ?_
  split
  · trivial
  · refine .ite trivial (.ite trivial (.bind (findSlot_onCallbacks _) fun _ =>
      .ite trivial (.bind (findSlot_onCallbacks _) fun _ => .ite trivial
        (.bind (firstFree_onCallbacks _) fun slot => ?_))))
    cases slot with
    | none => trivial
    | some u =>
      exact .bind ⟨trivial, fun _ => trivial⟩ fun _ =>
        .bind ⟨rfl, fun _ => trivial⟩ fun _ =>
          .bind (copyName_all (fun _ _ => rfl) _ _) fun _ => trivial

theorem unregister_onCallbacks (name : Name) :
    (unregister name).All RegAct.OnCallbacks := by
  refine .bind (findSlot_onCallbacks _) fun slot => ?_
  cases slot with
  | none => trivial
  | some u =>
    exact ⟨trivial, fun _ => .ite trivial
      ⟨trivial, fun _ => ⟨rfl, fun _ => ⟨trivial, fun _ => trivial⟩⟩⟩⟩

theorem findAndOpen_onCallbacks (name : Name) :
    (findAndOpen name).All RegAct.OnCallbacks := by
  refine .bind (findSlot_onCallbacks _) fun slot => ?_
  cases slot with
  | none => trivial
  | some u => exact ⟨trivial, fun _ => ⟨trivial, fun _ => trivial⟩⟩

theorem findAndClose_onCallbacks (name : Name) :
    (findAndClose name).All RegAct.OnCallbacks := by
  refine .bind (findSlot_onCallbacks _) fun slot => ?_
  cases slot with
  | none => trivial
  | some u => exact ⟨trivial, fun _ => trivial⟩

end OnTables

/-! ## Creating and removing devices -/

section Devices

variable {env : KernelAnswers} {r : Registry} {g : KernelObjects}
  {p : Bytes} {len : UInt32}

section Accesses

variable {α : Type} {u : Fin kucommsListSize}

theorem objects_storeLen (n : UInt32) (k : Unit → RegProg α) :
    (Prog.act (.storeLen .devlist u n) k).run (RegAct.execObjects env) (r, g)
      = (k ()).run (RegAct.execObjects env)
        (r.modifyDev u (fun d => { d with filenameLen := n }), g) := rfl

theorem objects_storeByte (j : ℕ) (b : UInt8) (k : Unit → RegProg α) :
    (Prog.act (.storeByte .devlist u j b) k).run (RegAct.execObjects env)
        (r, g)
      = (k ()).run (RegAct.execObjects env) (r.modifyDev u (fun d =>
          { d with filename := Function.update d.filename j b }), g) := rfl

theorem objects_storeMajor (n : ℤ) (k : Unit → RegProg α) :
    (Prog.act (.storeMajor u n) k).run (RegAct.execObjects env) (r, g)
      = (k ()).run (RegAct.execObjects env)
        (r.modifyDev u (fun d => { d with major := n }), g) := rfl

theorem objects_storeCls (n : ℕ) (k : Unit → RegProg α) :
    (Prog.act (.storeCls u n) k).run (RegAct.execObjects env) (r, g)
      = (k ()).run (RegAct.execObjects env)
        (r.modifyDev u (fun d => { d with cls := n }), g) := rfl

theorem objects_registerChrdev (k : ℤ → RegProg α) :
    (Prog.act (.registerChrdev u) k).run (RegAct.execObjects env) (r, g)
      = (k env.major).run (RegAct.execObjects env)
        (r, g.registerChrdev env.major) := rfl

theorem objects_classCreate (k : ℕ → RegProg α) :
    (Prog.act (.classCreate u) k).run (RegAct.execObjects env) (r, g)
      = (k env.cls).run (RegAct.execObjects env)
        (r, g.classCreate env.cls) := rfl

theorem objects_deviceCreate (cls : ℕ) (major : ℤ) (k : Unit → RegProg α) :
    (Prog.act (.deviceCreate u cls major) k).run (RegAct.execObjects env)
        (r, g)
      = (k ()).run (RegAct.execObjects env)
        (r, g.deviceCreate env.device cls major) := rfl

theorem objects_loadLen (k : UInt32 → RegProg α) :
    (Prog.act (.loadLen .devlist u) k).run (RegAct.execObjects env) (r, g)
      = (k (r.devlist u).filenameLen).run (RegAct.execObjects env) (r, g) :=
  rfl

/-- The slot of a device is read, and its parts are released. -/
theorem objects_destroy (p : RegProg α) :
    (Prog.act (.loadCls u) fun cls => .act (.loadMajor u) fun major =>
        .act (.deviceDestroy cls major) fun _ =>
          .act (.classDestroy cls) fun _ =>
            .act (.unregisterChrdev u major) fun _ => p).run
        (RegAct.execObjects env) (r, g)
      = p.run (RegAct.execObjects env)
        (r, g.destroy ⟨(r.devlist u).major, (r.devlist u).cls⟩) := rfl

end Accesses

theorem copyName_objects (u : Fin kucommsListSize) (n k : ℕ) :
    (copyName .devlist u p n k).run (RegAct.execObjects env) (r, g)
      = ((), r.modifyDev u (fun d =>
          { d with filename := overwrite d.filename p k n }), g) := by
  rw [run_onTables (copyName_all (fun _ _ => trivial) _ _),
    copyName_run_devlist]

theorem findSlot_objects (t : RegTable) (name : Name) :
    (findSlot t name).run (RegAct.execObjects env) (r, g)
      = (r.find t name, r, g) := by
  rw [run_onTables ((findSlot_onCallbacks name).mono
    fun _ => RegAct.OnCallbacks.onTables), findSlot_run]

/-- **`kucomms_char_device_create`**, and what it gets from the kernel. -/
theorem charDeviceCreate_objects :
    (charDeviceCreate p len).run (RegAct.execObjects env) (r, g)
      = if r.find .devlist ⟨some p, len⟩ ≠ none then (false, r, g)
        else match SlotTable.firstFree (r.slotKeys .devlist) with
          | none => (false, r, g)
          | some u =>
            if env.major < 0 then
              (false, r.modifyDev u (rolledBack p len), g)
            else (true, r.modifyDev u (created env.chrdev p len),
              g.create env) := by
  simp only [charDeviceCreate, kucommsFindDeviceData, run_bind,
    findSlot_objects]
  split
  · rfl
  · rw [run_bind, run_onTables ((firstFree_onCallbacks _).mono
      fun _ => RegAct.OnCallbacks.onTables), firstFree_run]
    show (match SlotTable.firstFree (r.slotKeys .devlist) with
      | none => _
      | some u => _ : RegProg Bool).run (RegAct.execObjects env) (r, g) = _
    cases SlotTable.firstFree (r.slotKeys .devlist) with
    | none => rfl
    | some u =>
      simp only [act_bind, ret_bind, objects_storeLen, objects_storeByte,
        run_bind, copyName_objects, objects_registerChrdev,
        objects_storeMajor, Registry.modifyDev_modifyDev]
      by_cases hmajor : env.major < 0
      · simp only [if_pos hmajor, objects_storeMajor, objects_storeLen,
          Registry.modifyDev_modifyDev, pure_eq_ret, run_ret,
          KernelObjects.registerChrdev]
        rfl
      · simp only [if_neg hmajor, objects_classCreate, objects_storeCls,
          objects_deviceCreate, Registry.modifyDev_modifyDev, pure_eq_ret,
          run_ret]
        rfl

/-- **`kucomms_char_device_remove`**, and what it gives back. -/
theorem charDeviceRemove_objects :
    (charDeviceRemove p len).run (RegAct.execObjects env) (r, g)
      = if r.find .cblist ⟨some p, len⟩ ≠ none then (false, r, g)
        else match r.find .devlist ⟨some p, len⟩ with
          | none => (false, r, g)
          | some u => (true, r.modifyDev u removed,
              g.destroy ⟨(r.devlist u).major, (r.devlist u).cls⟩) := by
  simp only [charDeviceRemove, kucommsFindCallbackData, run_bind,
    findSlot_objects]
  split
  · rfl
  · simp only [kucommsFindDeviceData, run_bind, findSlot_objects]
    cases r.find .devlist ⟨some p, len⟩ with
    | none => rfl
    | some u =>
      simp only [act_bind, ret_bind, objects_destroy, objects_storeMajor,
        objects_storeCls, objects_storeLen, Registry.modifyDev_modifyDev,
        pure_eq_ret, run_ret]
      rfl

end Devices

/-! ## Who holds what -/

/-- **Who holds a triple**: the module, a device, or nobody any more, after an
`init_kucomms` that failed. -/
inductive Holder where
  | kucomms
  | slot (u : Fin kucommsListSize)
  | failed (n : ℕ)
  deriving DecidableEq

/-- The numbers and the class of the module. -/
def ModuleGlobals.answer (m : ModuleGlobals) : ChrdevAnswer :=
  ⟨m.major, m.cls⟩

/-- Those of a device. -/
def KucommsCharDeviceData.answer (d : KucommsCharDeviceData) :
    Option ChrdevAnswer :=
  if d.filenameLen = 0 then none else some ⟨d.major, d.cls⟩

/-- **What they hold.** -/
def heldBy (r : Registry) (globals : Option ModuleGlobals)
    (failed : List ModuleGlobals) : Holder → Option ChrdevAnswer
  | .kucomms => globals.map ModuleGlobals.answer
  | .slot u => (r.devlist u).answer
  | .failed n => failed[n]?.map ModuleGlobals.answer

section HeldBy

variable {r r' : Registry} {globals : Option ModuleGlobals}
  {failed : List ModuleGlobals} {u : Fin kucommsListSize} {m : ModuleGlobals}

theorem heldBy_modifyDev
    (f : KucommsCharDeviceData → KucommsCharDeviceData) :
    heldBy (r.modifyDev u f) globals failed
      = Function.update (heldBy r globals failed) (.slot u)
        (f (r.devlist u)).answer := by
  funext x
  by_cases hx : x = .slot u
  · subst hx
    rw [Function.update_self]
    exact congrArg KucommsCharDeviceData.answer (Function.update_self ..)
  · rw [Function.update_of_ne hx]
    cases x with
    | slot v =>
      have hvu : v ≠ u := fun h => hx (h ▸ rfl)
      exact congrArg KucommsCharDeviceData.answer
        (Function.update_of_ne hvu ..)
    | _ => rfl

theorem heldBy_congr (h : r'.devlist = r.devlist) :
    heldBy r' globals failed = heldBy r globals failed := by
  funext x
  cases x with
  | slot v => exact congrArg (fun d => (d v).answer) h
  | _ => rfl

theorem heldBy_load :
    heldBy r (some m) failed
      = Function.update (heldBy r none failed) .kucomms (some m.answer) := by
  funext x
  cases x <;> rfl

theorem heldBy_unload (globals : Option ModuleGlobals) :
    heldBy r none failed
      = Function.update (heldBy r globals failed) .kucomms none := by
  funext x
  cases x <;> rfl

theorem heldBy_fail :
    heldBy r globals (failed ++ [m])
      = Function.update (heldBy r globals failed) (.failed failed.length)
        (some m.answer) := by
  funext x
  cases x with
  | failed n =>
    by_cases hn : n = failed.length
    · subst hn
      rw [Function.update_self]
      exact congrArg (Option.map _) List.getElem?_concat_length
    · rw [Function.update_of_ne (fun h => hn (Holder.failed.inj h))]
      refine congrArg (Option.map _) ?_
      rw [List.getElem?_append]
      split
      · rfl
      · rw [List.getElem?_eq_none (by simp; omega),
          List.getElem?_eq_none (by omega)]
  | _ => rfl

end HeldBy

/-! ## The calls -/

section Calls

variable {env : KernelAnswers} {r : Registry} {g : KernelObjects}
  {globals : Option ModuleGlobals} {failed : List ModuleGlobals}
  {files : DeviceFile → Prop}

/-- **The triples are those of the tables**, and of the module. -/
def InOrder (globals : Option ModuleGlobals) (failed : List ModuleGlobals)
    (files : DeviceFile → Prop) (s : Registry × KernelObjects) : Prop :=
  Triples (heldBy s.1 globals failed) files s.2

theorem InOrder.create {p : Bytes} {len : UInt32} (hlen : len ≠ 0)
    (hcls : env.cls ≠ 0) (henv : env.Documented g)
    (h : InOrder globals failed files (r, g)) :
    InOrder globals failed files
      ((charDeviceCreate p len).run (RegAct.execObjects env) (r, g)).2 := by
  rw [charDeviceCreate_objects]
  split
  · exact h
  · cases hu : SlotTable.firstFree (r.slotKeys .devlist) with
    | none => exact h
    | some u =>
      have hfree : heldBy r globals failed (.slot u) = none :=
        if_pos (Registry.slotKeys_eq_none.mp (SlotTable.firstFree_some hu))
      by_cases hmajor : env.major < 0
      · simp only [if_pos hmajor]
        unfold InOrder
        rw [heldBy_modifyDev]
        refine h.congr (fun x => ?_) (fun _ => Iff.rfl)
        exact congrFun (Function.update_eq_self_iff.mpr hfree.symm) x
      · simp only [if_neg hmajor]
        unfold InOrder
        rw [heldBy_modifyDev]
        have hanswer : (created env.chrdev p len (r.devlist u)).answer
            = some env.chrdev := if_neg hlen
        rw [hanswer]
        exact Triples.give h hfree hmajor hcls henv

theorem InOrder.remove {p : Bytes} {len : UInt32}
    (h : InOrder globals failed files (r, g)) :
    InOrder globals failed files
      ((charDeviceRemove p len).run (RegAct.execObjects env) (r, g)).2 := by
  rw [charDeviceRemove_objects]
  split
  · exact h
  · cases hu : r.find .devlist ⟨some p, len⟩ with
    | none => exact h
    | some u =>
      obtain ⟨k, -, hk⟩ := Option.bind_eq_some_iff.mp hu
      have hkey := SlotTable.find_some hk
      have hlen : (r.devlist u).filenameLen ≠ 0 := fun hzero =>
        nomatch (Registry.slotKeys_eq_none.mpr
          (show r.len u .devlist = 0 from hzero)).symm.trans hkey
      have hheld : heldBy r globals failed (.slot u)
          = some ⟨(r.devlist u).major, (r.devlist u).cls⟩ := if_neg hlen
      unfold InOrder
      simp only
      rw [heldBy_modifyDev]
      exact Triples.take h hheld

/-- What a write returns does not matter to the tables. -/
theorem deviceStore_state (f : DeviceFile) (buf : List UInt8)
    {exec : (a : LockAct RegAct) → Registry × KernelObjects →
      LockAct.Res RegAct.Res a × Registry × KernelObjects}
    (x : Registry × KernelObjects) :
    ((deviceStore f buf).run exec x).2
      = ((match f with
        | .createDevice => kucommsCharDeviceCreate (nameOf buf)
        | .removeDevice => kucommsCharDeviceRemove (nameOf buf) :
          LockedRegProg Bool).run exec x).2 := by
  cases f <;> simp only [deviceStore, createDeviceStore, removeDeviceStore,
    run_bind, run_ite] <;> split <;> rfl

/-- **A write to one of the files** keeps the order, if it is one that creates
no device, or is documented. -/
theorem InOrder.write {s : Registry × KernelObjects}
    (h : InOrder globals failed files s) {w : FileWrite}
    (hnew : files .createDevice →
      w.env.cls ≠ 0 ∧ w.env.Documented s.2) :
    InOrder globals failed files (w.exec s) := by
  obtain ⟨r, g⟩ := s
  obtain ⟨f, buf, env⟩ := w
  unfold FileWrite.exec
  split
  case isFalse => exact h
  case isTrue hlive =>
    rw [deviceStore_state]
    cases f with
    | createDevice =>
      obtain ⟨devices, hg, -⟩ := h.exact
      obtain ⟨hcls, henv⟩ := hnew ((hg.mem_iff (.file .createDevice)).mp hlive)
      simp only [kucommsCharDeviceCreate]
      cases hcheck : checkName (nameOf buf) with
      | none => exact h
      | some n =>
        simp only [locked_run]
        exact h.create (key_of_checkName hcheck).1 hcls henv
    | removeDevice =>
      simp only [kucommsCharDeviceRemove]
      cases hcheck : checkName (nameOf buf) with
      | none => exact h
      | some n =>
        simp only [locked_run]
        exact h.remove

/-- **Any number of writes**, when no device can be created any more. -/
theorem InOrder.writes {s : Registry × KernelObjects}
    (h : InOrder globals failed files s) (hfile : ¬files .createDevice)
    (ws : List FileWrite) :
    InOrder globals failed files (ws.foldl FileWrite.exec s) := by
  induction ws generalizing s with
  | nil => exact h
  | cons w ws ih => exact ih (h.write (fun hf => absurd hf hfile))

/-- **The loop of `kucomms_char_device_remove_all`** releases the triples of
the slots listed. -/
theorem removeSlots_objects (env : KernelAnswers) (r : Registry)
    {us : List (Fin kucommsListSize)}
    (hus : us.Nodup) {held : Holder → Option ChrdevAnswer}
    (hheld : ∀ u ∈ us, held (.slot u) = (r.devlist u).answer)
    (h : Triples held files g) :
    ∃ g', (removeSlots us).run (RegAct.execObjects env) (r, g) = ((), r, g')
      ∧ Triples (fun x => if ∃ u ∈ us, x = .slot u then none else held x)
        files g' := by
  induction us generalizing g held with
  | nil => exact ⟨g, rfl, h.congr (fun x => by simp) (fun _ => Iff.rfl)⟩
  | cons u us ih =>
    obtain ⟨hu, hus⟩ := List.nodup_cons.mp hus
    simp only [removeSlots, act_bind, ret_bind, objects_loadLen]
    by_cases hlen : (r.devlist u).filenameLen = 0
    · rw [if_pos hlen]
      obtain ⟨g', hrun, hg'⟩ := ih hus
        (fun v hv => hheld v (List.mem_cons_of_mem u hv)) h
      refine ⟨g', hrun, hg'.congr (fun x => ?_) (fun _ => Iff.rfl)⟩
      by_cases hx : x = .slot u
      · have hnone : held (.slot u) = none :=
          (hheld u List.mem_cons_self).trans (if_pos hlen)
        simp [hx, hnone]
      · simp [hx]
    · rw [if_neg hlen, objects_destroy]
      have hheldu : held (.slot u)
          = some ⟨(r.devlist u).major, (r.devlist u).cls⟩ :=
        (hheld u List.mem_cons_self).trans (if_neg hlen)
      have hrest : ∀ v ∈ us, Function.update held (.slot u) none (.slot v)
          = (r.devlist v).answer := fun v hv => by
        have hvu : Holder.slot v ≠ .slot u := fun hv' =>
          hu (Holder.slot.inj hv' ▸ hv)
        rw [Function.update_of_ne hvu]
        exact hheld v (List.mem_cons_of_mem u hv)
      obtain ⟨g', hrun, hg'⟩ := ih hus hrest (h.take hheldu)
      refine ⟨g', hrun, hg'.congr (fun x => ?_) (fun _ => Iff.rfl)⟩
      by_cases hx : x = .slot u
      · simp [hx]
      · simp [hx]

/-- **`kucomms_char_device_remove_all`** releases the triples of all
devices. -/
theorem removeAll_objects (env : KernelAnswers)
    (h : InOrder globals failed files (r, g)) :
    ∃ g', kucommsCharDeviceRemoveAll.run (RegAct.execObjects env) (r, g)
        = (true, r, g')
      ∧ Triples (heldBy .blank globals failed) files g' := by
  obtain ⟨g', hrun, hg'⟩ := removeSlots_objects env r
    (List.nodup_finRange kucommsListSize) (fun u _ => rfl) h
  refine ⟨g', ?_, hg'.congr (fun x => ?_) (fun _ => Iff.rfl)⟩
  · unfold kucommsCharDeviceRemoveAll
    rw [run_bind, hrun]
    rfl
  · cases x with
    | slot u => simp [heldBy, Registry.blank, KucommsCharDeviceData.answer]
    | _ => simp [heldBy]

end Calls

/-! ## Loading and unloading -/

section Module

variable {env : KernelAnswers} {early : DeviceFile → List FileWrite}
  {r : Registry} {g : KernelObjects} {failed : List ModuleGlobals}
  {m : ModuleGlobals}

/-- The functions of the registry inside those of the module. -/
theorem reg_run {α : Type} (p : RegProg α) (s : Registry × KernelObjects) :
    (p.embed ModAct.reg fun _ r => r).run (ModAct.exec env early) s
      = p.run (RegAct.execObjects env) s := by
  induction p generalizing s with
  | ret v => rfl
  | act a k ih => exact ih _ _

/-- **A file is removed**, and what can be written after that is. -/
theorem InOrder.removeFile {globals : Option ModuleGlobals}
    {files : DeviceFile → Prop} {s : Registry × KernelObjects}
    (h : InOrder globals failed files s) {dev : ℕ} (hdev : dev ≠ 0)
    {f : DeviceFile} (hf : files f)
    (hfile : ¬(DeviceFile.createDevice ≠ f ∧ files .createDevice))
    (ws : List FileWrite) :
    InOrder globals failed (fun f' => f' ≠ f ∧ files f')
      (ws.foldl FileWrite.exec (s.1, s.2.deviceRemoveFile dev f)) := by
  have hremoved : InOrder globals failed (fun f' => f' ≠ f ∧ files f')
      (s.1, s.2.deviceRemoveFile dev f) := Triples.removeFile h hdev hf
  exact hremoved.writes hfile ws

/-- **`exit_kucomms`** leaves nothing behind, also when it removes devices that
somebody else removes at the same time. -/
theorem exitKucomms_objects (hdev : m.devModule ≠ 0)
    (late : DeviceFile → List FileWrite)
    (h : InOrder (some m) failed (fun _ => True) (r, g)) :
    Triples (heldBy .blank none failed) (fun _ => False)
      ((exitKucomms m).run (ModAct.exec env late) (r, g)).2.2 := by
  have hfirst := h.removeFile hdev (f := .createDevice) trivial
    (fun hf => hf.1 rfl) (late .createDevice)
  generalize hs₁ : (late .createDevice).foldl FileWrite.exec _ = s₁ at hfirst
  have hsecond := hfirst.removeFile hdev (f := .removeDevice)
    ⟨(fun h => nomatch h), trivial⟩ (fun hf => hf.2.1 rfl)
    (late .removeDevice)
  generalize hs₂ : (late .removeDevice).foldl FileWrite.exec _ = s₂ at hsecond
  obtain ⟨r₂, g₂⟩ := s₂
  obtain ⟨g', hrun, hg'⟩ := removeAll_objects env hsecond
  have hexit : ((exitKucomms m).run (ModAct.exec env late) (r, g)).2.2
      = g'.destroy m.answer := by
    show (((kucommsCharDeviceRemoveAll.embed ModAct.reg fun _ r => r) >>= _ :
      ModProg Unit).run (ModAct.exec env late)
        ((late .removeDevice).foldl FileWrite.exec
          (((late .createDevice).foldl FileWrite.exec _).1,
            ((late .createDevice).foldl FileWrite.exec _).2.deviceRemoveFile
              _ _))).2.2 = _
    rw [hs₁, hs₂, run_bind, reg_run, hrun]
    rfl
  rw [hexit, heldBy_unload (some m)]
  refine (hg'.take rfl).congr (fun _ => rfl) (fun f => ?_)
  cases f <;> simp

theorem module_registerChrdev {α : Type} (k : ℤ → ModProg α) :
    (Prog.act .registerChrdev k).run (ModAct.exec env early) (r, g)
      = (k env.major).run (ModAct.exec env early)
        (r, g.registerChrdev env.major) := rfl

theorem module_create {α : Type} (k : ℕ → ℕ → ModProg α) :
    (Prog.act .classCreate fun cls =>
        .act (.deviceCreate cls env.major) (k cls)).run
        (ModAct.exec env early) (r, g.registerChrdev env.major)
      = (k env.cls env.device).run (ModAct.exec env early)
        (r, g.create env) := rfl

/-- **Nothing is written early**: a file is made. -/
theorem module_deviceCreateFile {α : Type} (dev : ℕ) {f : DeviceFile}
    (hearly : early f = []) (k : ℤ → ModProg α) :
    (Prog.act (.deviceCreateFile dev f) k).run (ModAct.exec env early) (r, g)
      = (k (env.file f)).run (ModAct.exec env early)
        (r, g.deviceCreateFile dev f (env.file f)) := by
  show (k (env.file f)).run _ ((early f).foldl FileWrite.exec _) = _
  rw [hearly]
  rfl

theorem module_deviceRemoveFile {α : Type} (dev : ℕ) {f : DeviceFile}
    (hearly : early f = []) (k : Unit → ModProg α) :
    (Prog.act (.deviceRemoveFile dev f) k).run (ModAct.exec env early) (r, g)
      = (k ()).run (ModAct.exec env early) (r, g.deviceRemoveFile dev f) := by
  show (k ()).run _ ((early f).foldl FileWrite.exec _) = _
  rw [hearly]
  rfl

/-- **How `init_kucomms` ends**: the module is loaded, or the kernel had no
numbers for it, or it could not make one of its files. -/
inductive InitEnds (failed : List ModuleGlobals) (g : KernelObjects) :
    (ℤ × ModuleGlobals) × Registry × KernelObjects → Prop where
  | loaded {m : ModuleGlobals} {g' : KernelObjects} (hdev : m.devModule ≠ 0)
      (h : InOrder (some m) failed (fun _ => True) (kucommsInit .blank, g')) :
      InitEnds failed g ((0, m), kucommsInit .blank, g')
  | refused {n : ℤ} {m : ModuleGlobals} (hn : n < 0) (hm : m.major < 0) :
      InitEnds failed g ((n, m), .blank, g)
  | left {m : ModuleGlobals} {g' : KernelObjects} (hm : ¬m.major < 0)
      (h : InOrder none (failed ++ [m]) (fun _ => False) (.blank, g')) :
      InitEnds failed g ((-enodev, m), .blank, g')

/-- Its files, the triple being its own or nobody's. -/
theorem initFiles_objects {g₁ : KernelObjects} (hm : ¬m.major < 0)
    (hdev : m.devModule ≠ 0) (hearly : ∀ f, early f = [])
    (hloaded : InOrder (some m) failed (fun _ => False) (.blank, g₁))
    (hleft : InOrder none (failed ++ [m]) (fun _ => False) (.blank, g₁)) :
    InitEnds failed g
      ((Prog.act (.deviceCreateFile m.devModule .createDevice) fun ret =>
        if ret ≠ 0 then return (-enodev, m)
        else .act (.deviceCreateFile m.devModule .removeDevice) fun ret =>
          if ret ≠ 0 then
            .act (.deviceRemoveFile m.devModule .createDevice) fun _ =>
              return (-enodev, m)
          else .act .listInit fun _ => return (0, m) :
        ModProg (ℤ × ModuleGlobals)).run (ModAct.exec env early)
          (.blank, g₁)) := by
  rw [module_deviceCreateFile _ (hearly _)]
  have hloaded' := Triples.createFile hloaded hdev (f := .createDevice) id
    (env.file .createDevice)
  have hleft' := Triples.createFile hleft hdev (f := .createDevice) id
    (env.file .createDevice)
  by_cases hret : env.file .createDevice = 0
  · rw [if_neg (not_not.mpr hret), module_deviceCreateFile _ (hearly _)]
    have hloaded'' := hloaded'.createFile hdev (f := .removeDevice) (by simp)
      (env.file .removeDevice)
    have hleft'' := hleft'.createFile hdev (f := .removeDevice) (by simp)
      (env.file .removeDevice)
    by_cases hret' : env.file .removeDevice = 0
    · rw [if_neg (not_not.mpr hret')]
      refine .loaded hdev (hloaded''.congr (fun _ => rfl) (fun f => ?_))
      cases f <;> simp [hret, hret']
    · rw [if_pos hret', module_deviceRemoveFile _ (hearly _)]
      refine .left hm ((hleft''.removeFile hdev (f := .createDevice)
        (.inr (.inl ⟨rfl, hret⟩))).congr (fun _ => rfl) (fun f => ?_))
      cases f <;> simp [hret']
  · rw [if_pos hret]
    refine .left hm (hleft'.congr (fun _ => rfl) (fun f => ?_))
    cases f <;> simp [hret]

/-- **`init_kucomms`** makes a triple and two files, or as much of it as it
can. -/
theorem initKucomms_objects (hcls : env.cls ≠ 0) (hdev : env.device ≠ 0)
    (henv : env.Documented g) (hearly : ∀ f, early f = [])
    (h : InOrder none failed (fun _ => False) (.blank, g)) :
    InitEnds failed g
      (initKucomms.run (ModAct.exec env early) (.blank, g)) := by
  simp only [initKucomms, act_bind, ret_bind, module_registerChrdev]
  by_cases hmajor : env.major < 0
  · rw [if_pos hmajor, KernelObjects.registerChrdev, if_pos hmajor]
    exact .refused hmajor hmajor
  · rw [if_neg hmajor, module_create]
    refine initFiles_objects (m := ⟨env.major, env.cls, env.device⟩) hmajor
      hdev hearly ?_ ?_
    · unfold InOrder
      rw [heldBy_load]
      exact Triples.give h rfl hmajor hcls henv
    · unfold InOrder
      rw [heldBy_fail]
      have hnew : heldBy .blank none failed (.failed failed.length) = none :=
        congrArg (Option.map _) (List.getElem?_eq_none le_rfl)
      exact Triples.give h hnew hmajor hcls henv

end Module

/-! ## Any number of events -/

namespace ModuleState

/-- **The invariant.** -/
structure Inv (s : ModuleState) : Prop where
  inOrder : InOrder s.globals s.failed (fun _ => s.globals.isSome = true)
    (s.registry, s.objects)
  blank : s.globals = none → s.registry = .blank
  device : ∀ m, s.globals = some m → m.devModule ≠ 0

theorem Inv.start : start.Inv := by
  refine ⟨⟨⟨fun _ _ => False, Ledger.Exact.empty fun b hb => ?_,
    fun _ _ h => h.elim⟩, fun {x y a b} hx => ?_, fun {x y a b} hx => ?_⟩,
    fun _ => rfl, (fun _ h => nomatch h)⟩
  · cases b with
    | chrdev n =>
      obtain ⟨x, a, hx, -⟩ := hb
      cases x <;> exact nomatch hx
    | cls p =>
      obtain ⟨x, a, hx, -⟩ := hb
      cases x <;> exact nomatch hx
    | device p n => exact hb
    | file f => exact nomatch hb
  · cases x <;> exact nomatch hx
  · cases x <;> exact nomatch hx

variable {s : ModuleState}

/-- A call of the registry that is about callbacks. -/
theorem Inv.onCallbacks (h : s.Inv) {m : ModuleGlobals}
    (hm : s.globals = some m) {α : Type} {p : RegProg α}
    (hp : p.All RegAct.OnCallbacks) : (s.call (locked p)).Inv := by
  have hrun : s.call (locked p)
      = { s with registry := (p.run (RegAct.exec .unused) s.registry).2 } := by
    unfold call
    rw [locked_run, run_onTables (hp.mono fun _ => RegAct.OnCallbacks.onTables)]
  rw [hrun]
  refine ⟨?_, fun hnone => absurd (hm.symm.trans hnone)
    (Option.some_ne_none m), h.device⟩
  exact Triples.congr h.inOrder
    (congrFun (heldBy_congr (devlist_onCallbacks hp))) (fun _ => Iff.rfl)

/-- A write to one of the files. -/
theorem Inv.store (h : s.Inv) {m : ModuleGlobals} (hm : s.globals = some m)
    {w : FileWrite} (hcls : w.env.cls ≠ 0)
    (henv : w.env.Documented s.objects) :
    Inv { s with
      registry := (w.exec (s.registry, s.objects)).1
      objects := (w.exec (s.registry, s.objects)).2 } :=
  ⟨h.inOrder.write fun _ => ⟨hcls, henv⟩, fun hnone =>
    absurd (hm.symm.trans hnone) (Option.some_ne_none m), h.device⟩

theorem Inv.step (h : s.Inv) {op : ModuleOp} (hdoc : op.Documented s)
    (herr : op.NoErrorPointer) (hearly : op.NothingEarly) :
    (s.step op).Inv := by
  cases hg : s.globals with
  | none =>
    cases op with
    | load env early =>
      obtain ⟨r, globals, failed, g⟩ := s
      obtain rfl : globals = none := hg
      obtain rfl : r = .blank := h.blank rfl
      have hstart : InOrder none failed (fun _ => False) (.blank, g) :=
        h.inOrder.congr (fun _ => rfl) (fun _ => by simp)
      have hends := initKucomms_objects herr.1 herr.2 hdoc hearly hstart
      simp only [ModuleState.step]
      generalize initKucomms.run (ModAct.exec env early) (.blank, g) = x
        at hends ⊢
      cases hends with
      | @loaded m g' hdev hloaded =>
        rw [if_pos rfl]
        exact ⟨hloaded.congr (fun _ => rfl) (fun _ => by simp),
          (fun h => nomatch h), fun m' hm => Option.some.inj hm ▸ hdev⟩
      | refused hn hm =>
        rw [if_neg (ne_of_lt hn), if_pos hm]
        exact h
      | left hm hleft =>
        rw [if_neg (show -enodev ≠ 0 by decide), if_neg hm]
        exact ⟨hleft.congr (fun _ => rfl) (fun _ => by simp), fun _ => rfl,
          (fun _ h => nomatch h)⟩
    | _ => simpa only [ModuleState.step, hg] using h
  | some m =>
    cases op with
    | load env early => simpa only [ModuleState.step, hg] using h
    | unload late =>
      simp only [ModuleState.step, hg]
      have hloaded : InOrder (some m) s.failed (fun _ => True)
          (s.registry, s.objects) := by
        have := h.inOrder
        rw [hg] at this
        exact this.congr (fun _ => rfl) (fun _ => by simp)
      refine ⟨?_, fun _ => rfl, (fun _ h => nomatch h)⟩
      exact (exitKucomms_objects (h.device m hg) late hloaded).congr
        (fun _ => rfl) (fun _ => by simp)
    | store w =>
      simp only [ModuleState.step, hg]
      have hstore := h.store hg herr hdoc
      rw [hg] at hstore
      exact hstore
    | register name c =>
      simp only [ModuleState.step, hg]
      exact h.onCallbacks hg (register_onCallbacks name c)
    | unregister name =>
      simp only [ModuleState.step, hg]
      exact h.onCallbacks hg (unregister_onCallbacks name)
    | findAndOpen name =>
      simp only [ModuleState.step, hg]
      exact h.onCallbacks hg (findAndOpen_onCallbacks name)
    | findAndClose name =>
      simp only [ModuleState.step, hg]
      exact h.onCallbacks hg (findAndClose_onCallbacks name)

/-- **A history keeps the invariant**, event by event. -/
theorem Inv.run (h : s.Inv) {ops : List ModuleOp} (hgoes : s.Goes ops) :
    (s.run ops).Inv := by
  induction ops generalizing s with
  | nil => exact h
  | cons op ops ih =>
    obtain ⟨⟨hdoc, herr, hearly⟩, hrest⟩ := hgoes
    exact ih (h.step hdoc herr hearly) hrest

/-- What is held in a state. -/
def held (s : ModuleState) : Holder → Option ChrdevAnswer :=
  heldBy s.registry s.globals s.failed

/-- **Everything is accounted for.** -/
structure Accounted (s : ModuleState) : Prop where
  /-- Nothing was released, or passed to the kernel, that was not there, and no
  error pointer was. -/
  badFree : s.objects.badFree = false
  /-- No class and no number was released before the devices on it. -/
  early : s.objects.early = false
  once : s.objects.live.Nodup
  chrdev : ∀ n, .chrdev n ∈ s.objects.live
    ↔ ∃ x a, s.held x = some a ∧ a.major = n
  cls : ∀ p, .cls p ∈ s.objects.live
    ↔ ∃ x a, s.held x = some a ∧ a.cls = p
  device : ∀ p n, .device p n ∈ s.objects.live → ∃ x, s.held x = some ⟨n, p⟩
  file : ∀ f, .file f ∈ s.objects.live ↔ s.globals.isSome = true
  /-- No two of them have the same number. -/
  apart : ∀ {x y a b}, s.held x = some a → s.held y = some b →
    a.major = b.major → x = y
  /-- While the module is not loaded, what is live is what was left by an
  `init_kucomms` that failed. -/
  unloaded : s.globals = none → ∀ b ∈ s.objects.live, ∃ m ∈ s.failed,
    b = .chrdev m.major ∨ b = .cls m.cls ∨ b = .device m.cls m.major

theorem Inv.held_unloaded (h : s.Inv) (hunloaded : s.globals = none)
    {x : Holder} {a : ChrdevAnswer} (hx : s.held x = some a) :
    ∃ m ∈ s.failed, a = m.answer := by
  have hblank := h.blank hunloaded
  cases x with
  | kucomms =>
    rw [held, heldBy, hunloaded] at hx
    exact nomatch hx
  | slot u =>
    rw [held, heldBy, hblank] at hx
    exact nomatch hx
  | failed n =>
    obtain ⟨m, hm, rfl⟩ := Option.map_eq_some_iff.mp hx
    exact ⟨m, List.mem_of_getElem? hm, rfl⟩

theorem Inv.accounted (h : s.Inv) : s.Accounted := by
  obtain ⟨⟨devices, hexact, hdevices⟩, hmajors, -⟩ := h.inOrder
  refine ⟨hexact.badFree, hexact.early, hexact.nodup,
    fun n => hexact.mem_iff (.chrdev n), fun p => hexact.mem_iff (.cls p),
    fun p n hp => hdevices p n ((hexact.mem_iff (.device p n)).mp hp),
    fun f => hexact.mem_iff (.file f), hmajors, fun hunloaded b hb => ?_⟩
  have hb := (hexact.mem_iff b).mp hb
  cases b with
  | chrdev n =>
    obtain ⟨x, a, hx, rfl⟩ := hb
    obtain ⟨m, hm, rfl⟩ := h.held_unloaded hunloaded hx
    exact ⟨m, hm, .inl rfl⟩
  | cls p =>
    obtain ⟨x, a, hx, rfl⟩ := hb
    obtain ⟨m, hm, rfl⟩ := h.held_unloaded hunloaded hx
    exact ⟨m, hm, .inr (.inl rfl)⟩
  | device p n =>
    obtain ⟨x, hx⟩ := hdevices p n hb
    obtain ⟨m, hm, heq⟩ := h.held_unloaded hunloaded hx
    obtain ⟨rfl, rfl⟩ := ChrdevAnswer.mk.inj heq
    exact ⟨m, hm, .inr (.inr rfl)⟩
  | file f =>
    have hloaded : s.globals.isSome = true := hb
    rw [hunloaded] at hloaded
    exact nomatch hloaded

end ModuleState

section Early

variable {env : KernelAnswers} {g : KernelObjects} {p : Bytes}
  {len : UInt32} {w : FileWrite}

/-- Where there are no devices yet, a device is created in some slot. -/
theorem charDeviceCreate_blank {k : List UInt8}
    (hkey : (⟨some p, len⟩ : Name).key = some k) (hmajor : ¬env.major < 0) :
    ∃ u, (charDeviceCreate p len).run (RegAct.execObjects env) (.blank, g)
      = (true, Registry.blank.modifyDev u (created env.chrdev p len),
        g.create env) := by
  have hfree : ∀ u, Registry.blank.slotKeys .devlist u = none :=
    fun _ => Registry.slotKeys_eq_none.mpr rfl
  have hfind : Registry.blank.find .devlist ⟨some p, len⟩ = none := by
    unfold Registry.find
    rw [hkey]
    exact SlotTable.find_eq_none.mpr (fun hk => by
      obtain ⟨u, hu⟩ := SlotTable.mem_keys.mp hk
      exact nomatch (hfree u).symm.trans hu)
  rw [charDeviceCreate_objects, hfind, if_neg (fun h => h rfl)]
  cases hslot : SlotTable.firstFree (Registry.blank.slotKeys .devlist) with
  | none => exact absurd (hfree 0) (SlotTable.firstFree_eq_none.mp hslot 0)
  | some u =>
    simp only [if_neg hmajor]
    exact ⟨u, rfl⟩

/-- A write that creates the first device. -/
theorem FileWrite.exec_blank (hlive : .file w.file ∈ g.live)
    (hfile : w.file = .createDevice)
    (hname : checkName (nameOf w.buf) = some (p, len))
    (hmajor : ¬w.env.major < 0) :
    (w.exec (.blank, g)).2 = g.create w.env := by
  obtain ⟨u, hcreate⟩ := charDeviceCreate_blank (g := g)
    (key_of_checkName hname).2 hmajor
  unfold FileWrite.exec
  rw [if_pos hlive, deviceStore_state, hfile]
  simp only [kucommsCharDeviceCreate, hname, locked_run, hcreate]

/-- What has been given out is live, until it is given back. -/
theorem mem_create (hmajor : ¬env.major < 0) :
    .chrdev env.major ∈ (g.create env).live := by
  have hnumbers : .chrdev env.major
      ∈ ((g.registerChrdev env.major).classCreate env.cls).live := by
    unfold KernelObjects.registerChrdev KernelObjects.classCreate
    rw [if_neg hmajor]
    split
    · exact List.mem_cons_self
    · exact List.mem_cons_of_mem _ List.mem_cons_self
  unfold KernelObjects.create KernelObjects.deviceCreate
  dsimp only
  split
  · exact hnumbers
  · exact List.mem_cons_of_mem _ hnumbers

end Early

/-- **A write that comes too early is forgotten**: when the files are made, and
the lists are not initialised yet. The numbers of the device that it creates
are live when the module is loaded, and nobody has them. -/
theorem early_write_leaks {s : ModuleState} (hs : s.globals = none)
    {env : KernelAnswers} (hmajor : ¬env.major < 0)
    (hfiles : ∀ f, env.file f = 0) {w : FileWrite} {p : Bytes} {len : UInt32}
    (hfile : w.file = .createDevice)
    (hname : checkName (nameOf w.buf) = some (p, len))
    (hnew : ¬w.env.major < 0) (hne : w.env.major ≠ env.major)
    (hfailed : ∀ m ∈ s.failed, m.major ≠ w.env.major)
    {early : DeviceFile → List FileWrite} (hearly : early .createDevice = [])
    (hw : early .removeDevice = [w]) :
    .chrdev w.env.major ∈ (s.step (.load env early)).objects.live
      ∧ ∀ x a, (s.step (.load env early)).held x = some a →
        a.major ≠ w.env.major := by
  obtain ⟨g, hlive, hg⟩ : ∃ g : KernelObjects, .file w.file ∈ g.live
      ∧ initKucomms.run (ModAct.exec env early) (.blank, s.objects)
        = ((0, ⟨env.major, env.cls, env.device⟩),
          kucommsInit (w.exec (.blank, g)).1, (w.exec (.blank, g)).2) := by
    refine ⟨((s.objects.create env).deviceCreateFile env.device .createDevice
      (env.file .createDevice)).deviceCreateFile env.device .removeDevice
      (env.file .removeDevice), ?_, ?_⟩
    · rw [hfile]
      unfold KernelObjects.deviceCreateFile
      simp only [hfiles, ne_eq, not_true_eq_false, if_false]
      exact List.mem_cons_of_mem _ List.mem_cons_self
    · simp only [initKucomms, act_bind, ret_bind, module_registerChrdev]
      rw [if_neg hmajor, module_create, module_deviceCreateFile _ hearly,
        if_neg (not_not.mpr (hfiles _))]
      show ((if env.file .removeDevice ≠ 0 then _ else _ :
        ModProg (ℤ × ModuleGlobals)).run (ModAct.exec env early)
          ((early .removeDevice).foldl FileWrite.exec _)) = _
      rw [if_neg (not_not.mpr (hfiles _)), hw]
      rfl
  have hexec := FileWrite.exec_blank hlive hfile hname hnew
  have hstep : s.step (.load env early) = { s with
      registry := kucommsInit (w.exec (.blank, g)).1
      globals := some ⟨env.major, env.cls, env.device⟩
      objects := g.create w.env } := by
    simp only [ModuleState.step, hs, hg, hexec]
    rfl
  rw [hstep]
  refine ⟨mem_create hnew, fun x a hx ha => ?_⟩
  cases x with
  | kucomms =>
    obtain rfl := Option.some.inj hx
    exact hne ha.symm
  | slot u => exact absurd hx.symm (Option.some_ne_none a)
  | failed n =>
    obtain ⟨m, hm, rfl⟩ := Option.map_eq_some_iff.mp hx
    exact hfailed m (List.mem_of_getElem? hm) ha
