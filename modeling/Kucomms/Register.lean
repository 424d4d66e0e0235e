import Kucomms.Locked
import Kucomms.MessageManager

/-!
# The registry of devices and callbacks

`kernel-modules/kucomms/kucomms_register.c`: two tables of 16 slots, one of
character devices and one of the callbacks registered for them. A slot is in
use while its `filename_len` is not 0; the bytes of a name stay behind in a
slot that is freed, and are written over when it is used again.

All functions but the two that look a name up take `cblist_mutex` first, by
`mutex_lock_interruptible`, and do not look at what that returns. What they do
under the mutex is a `Prog` over the accesses to the tables and the calls into
the kernel; `kucommsRegister` and so on are those programs under the lock.
-/

/-! ## The tables -/

/-- `KUCOMMS_CBLIST_SIZE` and `KUCOMMS_DEVLIST_SIZE` -/
abbrev kucommsListSize : ℕ := 16

/-- `KUCOMMS_FNAME_SIZE` -/
def kucommsFnameSize : UInt32 := 64

/-- The pointers of `struct kucomms_callback_data`. -/
structure Callbacks where
  msghlr : ℕ
  workhlr : ℕ
  timerhlr : ℕ
  userData : ℕ
  deriving DecidableEq

/-- The pointers of a slot that is not in use. -/
def Callbacks.null : Callbacks := ⟨0, 0, 0, 0⟩

/-- `struct kucomms_callback_data`. Pointers are addresses, null being 0. -/
structure KucommsCallbackData where
  callbacks : Callbacks
  message : ℕ
  filename : Bytes
  filenameLen : UInt32
  isOpen : Bool

/-- `struct kucomms_char_device_data` -/
structure KucommsCharDeviceData where
  major : ℤ
  cls : ℕ
  filename : Bytes
  filenameLen : UInt32

/-- The two tables. -/
structure Registry where
  cblist : Fin kucommsListSize → KucommsCallbackData
  devlist : Fin kucommsListSize → KucommsCharDeviceData

/-- Which table. -/
inductive RegTable where
  | cblist | devlist
  deriving DecidableEq

namespace Registry

/-- `filename_len` of a slot. -/
def len (r : Registry) (u : Fin kucommsListSize) : RegTable → UInt32
  | .cblist => (r.cblist u).filenameLen
  | .devlist => (r.devlist u).filenameLen

/-- `filename` of a slot. -/
def filename (r : Registry) (u : Fin kucommsListSize) : RegTable → Bytes
  | .cblist => (r.cblist u).filename
  | .devlist => (r.devlist u).filename

/-- Change a slot of the callbacks. -/
def modifyCb (r : Registry) (u : Fin kucommsListSize)
    (f : KucommsCallbackData → KucommsCallbackData) : Registry :=
  { r with cblist := Function.update r.cblist u (f (r.cblist u)) }

/-- Change a slot of the devices. -/
def modifyDev (r : Registry) (u : Fin kucommsListSize)
    (f : KucommsCharDeviceData → KucommsCharDeviceData) : Registry :=
  { r with devlist := Function.update r.devlist u (f (r.devlist u)) }

/-- Store `filename_len` of a slot. -/
def setLen (r : Registry) (u : Fin kucommsListSize) (n : UInt32) :
    RegTable → Registry
  | .cblist => r.modifyCb u (fun d => { d with filenameLen := n })
  | .devlist => r.modifyDev u (fun d => { d with filenameLen := n })

/-- Store a byte of `filename` of a slot. -/
def setByte (r : Registry) (u : Fin kucommsListSize) (k : ℕ) (b : UInt8) :
    RegTable → Registry
  | .cblist => r.modifyCb u (fun d =>
      { d with filename := Function.update d.filename k b })
  | .devlist => r.modifyDev u (fun d =>
      { d with filename := Function.update d.filename k b })

end Registry

/-! ## The accesses to the tables -/

/-- **The accesses to the tables**, and the calls into the kernel. -/
inductive RegAct where
  | loadLen (t : RegTable) (u : Fin kucommsListSize)
  | storeLen (t : RegTable) (u : Fin kucommsListSize) (n : UInt32)
  | loadByte (t : RegTable) (u : Fin kucommsListSize) (k : ℕ)
  | storeByte (t : RegTable) (u : Fin kucommsListSize) (k : ℕ) (b : UInt8)
  | loadOpen (u : Fin kucommsListSize)
  | storeOpen (u : Fin kucommsListSize) (b : Bool)
  | loadCb (u : Fin kucommsListSize)
  | storeCallbacks (u : Fin kucommsListSize) (c : Callbacks)
  | loadMajor (u : Fin kucommsListSize)
  | storeMajor (u : Fin kucommsListSize) (major : ℤ)
  | loadCls (u : Fin kucommsListSize)
  | storeCls (u : Fin kucommsListSize) (cls : ℕ)
  /-- `register_chrdev(0, devlist[u0].filename, ..)` -/
  | registerChrdev (u : Fin kucommsListSize)
  /-- `class_create(devlist[u0].filename)` -/
  | classCreate (u : Fin kucommsListSize)
  /-- `device_create(cls, NULL, MKDEV(major, 0), NULL, ..)` -/
  | deviceCreate (u : Fin kucommsListSize) (cls : ℕ) (major : ℤ)
  /-- `device_destroy(cls, MKDEV(major, 0))` -/
  | deviceDestroy (cls : ℕ) (major : ℤ)
  /-- `class_destroy(cls)` -/
  | classDestroy (cls : ℕ)
  /-- `unregister_chrdev(major, filename)` -/
  | unregisterChrdev (u : Fin kucommsListSize) (major : ℤ)

/-- The answer to an access. -/
@[reducible] def RegAct.Res : RegAct → Type
  | .loadLen _ _ => UInt32
  | .loadByte _ _ _ => UInt8
  | .loadOpen _ => Bool
  | .loadCb _ => KucommsCallbackData
  | .loadMajor _ | .registerChrdev _ => ℤ
  | .loadCls _ | .classCreate _ => ℕ
  | _ => Unit

/-- What the kernel answers to `register_chrdev` and `class_create`. -/
structure ChrdevAnswer where
  major : ℤ
  cls : ℕ

/-- The same where the kernel is not asked. -/
def ChrdevAnswer.unused : ChrdevAnswer := ⟨0, 0⟩

/-- What an access does to the tables. -/
def RegAct.exec (env : ChrdevAnswer) :
    (a : RegAct) → Registry → a.Res × Registry
  | .loadLen t u, r => (r.len u t, r)
  | .storeLen t u n, r => ((), r.setLen u n t)
  | .loadByte t u k, r => (r.filename u t k, r)
  | .storeByte t u k b, r => ((), r.setByte u k b t)
  | .loadOpen u, r => ((r.cblist u).isOpen, r)
  | .storeOpen u b, r => ((), r.modifyCb u (fun d => { d with isOpen := b }))
  | .loadCb u, r => (r.cblist u, r)
  | .storeCallbacks u c, r =>
    ((), r.modifyCb u (fun d => { d with callbacks := c }))
  | .loadMajor u, r => ((r.devlist u).major, r)
  | .storeMajor u major, r =>
    ((), r.modifyDev u (fun d => { d with major := major }))
  | .loadCls u, r => ((r.devlist u).cls, r)
  | .storeCls u cls, r =>
    ((), r.modifyDev u (fun d => { d with cls := cls }))
  | .registerChrdev _, r => (env.major, r)
  | .classCreate _, r => (env.cls, r)
  | .deviceCreate _ _ _, r => ((), r)
  | .deviceDestroy _ _, r => ((), r)
  | .classDestroy _, r => ((), r)
  | .unregisterChrdev _ _, r => ((), r)

/-- A function of `kucomms_register.c`, or what it does under the mutex. -/
abbrev RegProg : Type → Type := Prog RegAct RegAct.Res

/-- The same with the mutex. -/
abbrev LockedRegProg : Type → Type :=
  Prog (LockAct RegAct) (LockAct.Res RegAct.Res)

/-! ## Looking a name up -/

/-- A name as it is passed: a pointer, null being `none`, and a length. -/
structure Name where
  ptr : Option Bytes
  len : UInt32

/-- The comparison of the name in a slot with `name`, byte by byte, `n` bytes
from `u1` on. -/
def nameMatches (t : RegTable) (u : Fin kucommsListSize) (name : Bytes) :
    ℕ → ℕ → RegProg Bool
  | 0, _ => return true
  | n + 1, u1 => do
    let b ← (.act (.loadByte t u u1) .ret : RegProg UInt8)
    if b ≠ name u1 then
      return false
    else
      nameMatches t u name n (u1 + 1)

/-- The search through the slots listed for the first with the name. -/
def searchSlots (t : RegTable) (name : Bytes) (len : UInt32) :
    List (Fin kucommsListSize) → RegProg (Option (Fin kucommsListSize))
  | [] => return none
  | u :: us => do
    let n ← (.act (.loadLen t u) .ret : RegProg UInt32)
    if n = 0 then
      searchSlots t name len us
    else if n ≠ len then
      searchSlots t name len us
    else
      let found ← nameMatches t u name len.toNat 0
      if found = true then
        return some u
      else
        searchSlots t name len us

/-- The lookup of a name in a table. -/
def findSlot (t : RegTable) (name : Name) :
    RegProg (Option (Fin kucommsListSize)) :=
  match name.ptr with
  | none => return none
  | some ptr =>
    if name.len = 0 then return none
    else searchSlots t ptr name.len (List.finRange kucommsListSize)

/-- `kucomms_find_callback_data` -/
def kucommsFindCallbackData (name : Name) :
    RegProg (Option (Fin kucommsListSize)) :=
  findSlot .cblist name

/-- `kucomms_find_device_data` -/
def kucommsFindDeviceData (name : Name) :
    RegProg (Option (Fin kucommsListSize)) :=
  findSlot .devlist name

/-! ## The open flag -/

/-- What `kucomms_find_and_open` does under the mutex: the entry, and
`*open`. -/
def findAndOpen (name : Name) :
    RegProg (Option (Fin kucommsListSize) × Bool) := do
  let pcbdata ← kucommsFindCallbackData name
  match pcbdata with
  | none => return (none, false)
  | some u => do
    let isOpen ← (.act (.loadOpen u) .ret : RegProg Bool)
    (.act (.storeOpen u true) .ret : RegProg Unit)
    return (some u, isOpen)

/-- `kucomms_find_and_open` -/
def kucommsFindAndOpen (name : Name) :
    LockedRegProg (Option (Fin kucommsListSize) × Bool) :=
  locked (findAndOpen name)

/-- What `kucomms_find_and_close` does under the mutex. -/
def findAndClose (name : Name) : RegProg Unit := do
  let pcbdata ← kucommsFindCallbackData name
  match pcbdata with
  | none => return ()
  | some u => .act (.storeOpen u false) .ret

/-- `kucomms_find_and_close` -/
def kucommsFindAndClose (name : Name) : LockedRegProg Unit :=
  locked (findAndClose name)

/-! ## Registering and unregistering callbacks -/

/-- The first slot of a table, among those listed, that is not in use. -/
def firstFree (t : RegTable) :
    List (Fin kucommsListSize) → RegProg (Option (Fin kucommsListSize))
  | [] => return none
  | u :: us => do
    let n ← (.act (.loadLen t u) .ret : RegProg UInt32)
    if n ≠ 0 then
      firstFree t us
    else
      return some u

/-- `memcpy` of `n` bytes of a name into a slot, from the `k`-th on. -/
def copyName (t : RegTable) (u : Fin kucommsListSize) (name : Bytes) :
    ℕ → ℕ → RegProg Unit
  | 0, _ => return ()
  | n + 1, k => do
    (.act (.storeByte t u k (name k)) .ret : RegProg Unit)
    copyName t u name n (k + 1)

/-- What `kucomms_register` does under the mutex. -/
def register (name : Name) (c : Callbacks) : RegProg Bool :=
  if name.len ≥ kucommsFnameSize then return false
  else
    match name.ptr with
    | none => return false
    | some ptr =>
      if name.len = 0 then return false
      else if c.msghlr = 0 ∨ c.workhlr = 0 ∨ c.timerhlr = 0 then return false
      else do
        let cb ← kucommsFindCallbackData name
        if cb ≠ none then return false
        else
          let dev ← kucommsFindDeviceData name
          if dev = none then return false
          else
            let slot ← firstFree .cblist (List.finRange kucommsListSize)
            match slot with
            | none => return false
            | some u => do
              (.act (.storeCallbacks u c) .ret : RegProg Unit)
              (.act (.storeLen .cblist u name.len) .ret : RegProg Unit)
              copyName .cblist u ptr name.len.toNat 0
              return true

/-- `kucomms_register` -/
def kucommsRegister (name : Name) (c : Callbacks) : LockedRegProg Bool :=
  locked (register name c)

/-- What `kucomms_unregister` does under the mutex. -/
def unregister (name : Name) : RegProg Bool := do
  let pcbdata ← kucommsFindCallbackData name
  match pcbdata with
  | none => return true
  | some u => do
    let isOpen ← (.act (.loadOpen u) .ret : RegProg Bool)
    if isOpen = true then
      return false
    else
      (.act (.storeCallbacks u .null) .ret : RegProg Unit)
      (.act (.storeLen .cblist u 0) .ret : RegProg Unit)
      (.act (.storeOpen u false) .ret : RegProg Unit)
      return true

/-- `kucomms_unregister` -/
def kucommsUnregister (name : Name) : LockedRegProg Bool :=
  locked (unregister name)

/-! ## Creating and removing devices -/

/-- `"kucomms_"` -/
def basename : List UInt8 := [107, 117, 99, 111, 109, 109, 115, 95]

/-- `(name[u0]>='a') && (name[u0]<='z')`, or `'_'`. -/
def nameChar (b : UInt8) : Bool := (97 ≤ b && b ≤ 122) || b = 95

/-- The loop over the characters of a name: `n` from `u0` on. A newline is
allowed at the end. -/
def nameCharsOk (name : Bytes) (len : ℕ) : ℕ → ℕ → Bool
  | 0, _ => true
  | n + 1, u0 =>
    if nameChar (name u0) then nameCharsOk name len n (u0 + 1)
    else name u0 = 10 && u0 = len - 1

/-- The checks of `kucomms_char_device_create` and `_remove` on their
argument, and the name without its newline. -/
def checkName (name : Name) : Option (Bytes × UInt32) :=
  match name.ptr with
  | none => none
  | some ptr =>
    if name.len = 0 then none
    else if name.len ≥ kucommsFnameSize then none
    else if name.len.toNat ≤ basename.length then none
    else if (List.range basename.length).map ptr ≠ basename then none
    else if nameCharsOk ptr name.len.toNat name.len.toNat 0 = false then none
    else if ptr (name.len.toNat - 1) = 10 then some (ptr, name.len - 1)
    else some (ptr, name.len)

/-- What `kucomms_char_device_create` does under the mutex, with a name that
passed the checks. -/
def charDeviceCreate (name : Bytes) (len : UInt32) : RegProg Bool := do
  let dev ← kucommsFindDeviceData ⟨some name, len⟩
  if dev ≠ none then return false
  else
    let slot ← firstFree .devlist (List.finRange kucommsListSize)
    match slot with
    | none => return false
    | some u => do
      (.act (.storeLen .devlist u len) .ret : RegProg Unit)
      copyName .devlist u name len.toNat 0
      (.act (.storeByte .devlist u len.toNat 0) .ret : RegProg Unit)
      let major ← (.act (.registerChrdev u) .ret : RegProg ℤ)
      (.act (.storeMajor u major) .ret : RegProg Unit)
      if major < 0 then
        (.act (.storeMajor u 0) .ret : RegProg Unit)
        (.act (.storeLen .devlist u 0) .ret : RegProg Unit)
        return false
      else
        let cls ← (.act (.classCreate u) .ret : RegProg ℕ)
        (.act (.storeCls u cls) .ret : RegProg Unit)
        (.act (.deviceCreate u cls major) .ret : RegProg Unit)
        return true

/-- `kucomms_char_device_create` -/
def kucommsCharDeviceCreate (name : Name) : LockedRegProg Bool :=
  match checkName name with
  | none => return false
  | some (ptr, len) => locked (charDeviceCreate ptr len)

/-- What `kucomms_char_device_remove` does under the mutex, with a name that
passed the checks. -/
def charDeviceRemove (name : Bytes) (len : UInt32) : RegProg Bool := do
  let cb ← kucommsFindCallbackData ⟨some name, len⟩
  if cb ≠ none then return false
  else
    let dev ← kucommsFindDeviceData ⟨some name, len⟩
    match dev with
    | none => return false
    | some u => do
      let cls ← (.act (.loadCls u) .ret : RegProg ℕ)
      let major ← (.act (.loadMajor u) .ret : RegProg ℤ)
      (.act (.deviceDestroy cls major) .ret : RegProg Unit)
      (.act (.classDestroy cls) .ret : RegProg Unit)
      (.act (.unregisterChrdev u major) .ret : RegProg Unit)
      (.act (.storeMajor u 0) .ret : RegProg Unit)
      (.act (.storeCls u 0) .ret : RegProg Unit)
      (.act (.storeLen .devlist u 0) .ret : RegProg Unit)
      return true

/-- `kucomms_char_device_remove` -/
def kucommsCharDeviceRemove (name : Name) : LockedRegProg Bool :=
  match checkName name with
  | none => return false
  | some (ptr, len) => locked (charDeviceRemove ptr len)

/-! ## The tables at the start -/

/-- `kucomms_callback_list_init` on a slot. -/
def initCallbackData (d : KucommsCallbackData) : KucommsCallbackData :=
  { d with callbacks := .null, filenameLen := 0, isOpen := false }

/-- `kucomms_device_list_init` on a slot. -/
def initDeviceData (d : KucommsCharDeviceData) : KucommsCharDeviceData :=
  { d with major := 0, cls := 0, filenameLen := 0 }

/-- Tables in which nothing was ever registered. -/
def Registry.blank : Registry where
  cblist _ := ⟨.null, 0, fun _ => 0, 0, false⟩
  devlist _ := ⟨0, 0, fun _ => 0, 0⟩

/-- `kucomms_callback_list_init` and `kucomms_device_list_init`, whatever is
in the tables. -/
def kucommsInit (r : Registry) : Registry where
  cblist u := initCallbackData (r.cblist u)
  devlist u := initDeviceData (r.devlist u)

/-! ## Adding to the transmit ring of an open file -/

/-- `struct kucomms_file_data` -/
structure KucommsFileData where
  vaddr : ℕ
  vaddrLen : UInt64
  thread : ℕ
  cbdata : KucommsCallbackData
  rxMsgq : ℕ
  txMsgq : ℕ
  msgmgr : MessageManagerStruct

/-- The accesses to rings at addresses. -/
abbrev RingProg : Type → Type :=
  Prog (ℕ × QAct) (fun a => a.2.Res)

/-- An operation on the ring at an address. -/
def QProg.ringAt {α : Type} (p : QProg α) (msgq : ℕ) : RingProg α :=
  p.embed (fun a => (msgq, a)) (fun _ r => r)

/-- What an access does to the rings in memory. -/
def RingMem.exec (a : ℕ × QAct) (mem : RingMem) : a.2.Res × RingMem :=
  ((a.2.exec (mem a.1)).1, Function.update mem a.1 (a.2.exec (mem a.1)).2)

/-- `message_queue_add_tx0` -/
def messageQueueAddTx0 (pfd : KucommsFileData) (message : Bytes) :
    RingProg Bool :=
  let txMsgq := pfd.msgmgr.txMsgqArray 0
  let txMsgqQueueLength := pfd.msgmgr.txMsgqLenArray 0
  (messageQueueAddL txMsgqQueueLength message).ringAt txMsgq

/-- `message_queue_add_tx0_locked`, under `add_mutex`. -/
def messageQueueAddTx0Locked (pfd : KucommsFileData) (message : Bytes) :
    Prog (LockAct (ℕ × QAct)) (LockAct.Res fun a => a.2.Res) Bool :=
  locked (messageQueueAddTx0 pfd message)
