import Kucomms.Register

/-!
# The file operations

`kernel-modules/kucomms/kucomms_fops.c`: what happens when a user process
opens, maps and closes a device file, and the kernel thread that serves it
in between.

A function here works on the tables of the registry and on the
`struct kucomms_file_data` of one file. `FopsAct.exec` says what its actions
do to these; what the kernel answers, and what is read from memory that the
user process can write, is an `FopsEnv`.

`pr_info` and `pr_err` are left out, and so is what no function here reads
back: whether memory was freed, and the counts of `try_module_get`.
-/

/-! ## The handlers of the kernel thread -/

section Handlers

/-- `message->m_length` in `kucomms_message_hlr`. -/
def loadMessageLength : MessagePtr → MgrProg UInt64
  | .ring msgq slot => (loadWord slot).at msgq
  | .buffer content => do
    (.act (.loadBuffer 0 8) .ret : MgrProg Unit)
    return content.mLength

/-- A byte of `*message`, copied to `cbdata.message`. -/
def copyMessageByte (k : ℕ) : MessagePtr → MgrProg UInt8
  | .ring msgq slot => (copyOut (.cbdata k) (slot + k)).at msgq
  | .buffer content => do
    (.act (.loadBuffer k 1) .ret : MgrProg Unit)
    (.act (.storeCbdata k (content k)) .ret : MgrProg Unit)
    return content k

/-- `memcpy(pfd->cbdata.message, message, ..)`: `n` bytes from the `k`-th
on. -/
def copyToCbdata (message : MessagePtr) : ℕ → ℕ → Bytes → MgrProg Bytes
  | 0, _, copy => return copy
  | n + 1, k, copy => do
    let b ← copyMessageByte k message
    copyToCbdata message n (k + 1) (Function.update copy k b)

/-- The byte `k` of a 64-bit word. -/
def wordByte (w : UInt64) (k : ℕ) : UInt8 :=
  UInt8.ofNat (w.toNat / 256 ^ k)

/-- `pfd->cbdata.message->m_length = length`: `n` bytes from the `k`-th on. -/
def storeCbdataLength (length : UInt64) : ℕ → ℕ → Bytes → MgrProg Bytes
  | 0, _, copy => return copy
  | n + 1, k, copy => do
    (.act (.storeCbdata k (wordByte length k)) .ret : MgrProg Unit)
    storeCbdataLength length n (k + 1)
      (Function.update copy k (wordByte length k))

/-- `kucomms_message_hlr`: the message is copied, and the copy handed over. -/
def kucommsMessageHlr (cbdata : Callbacks) : MessageHandlerProg :=
  fun u0 message txMsgq rxLen txLen => do
    let length ← loadMessageLength message
    let messageSize := length + sizeofMessage
    if messageSize ≥ rxLen then
      return false
    else
      let copy ← copyToCbdata message messageSize.toNat 0 (fun _ => 0)
      let copy ← storeCbdataLength length 8 0 copy
      if cbdata.msghlr ≠ 0 then
        callMsghlr u0 (.buffer copy) txMsgq rxLen txLen
      else
        return false

/-- The handler that an action of the thread calls, if it calls one:
`kucomms_message_hlr`, `kucomms_work_hlr` and `kucomms_timer_hlr` look
whether there is one. -/
def MgrAct.handler (cbdata : Callbacks) : MgrAct → Option ℕ
  | .msghlr _ _ _ _ _ => if cbdata.msghlr ≠ 0 then some cbdata.msghlr else none
  | .workhlr => if cbdata.workhlr ≠ 0 then some cbdata.workhlr else none
  | .timerhlr _ =>
    if cbdata.timerhlr ≠ 0 then some cbdata.timerhlr else none
  | _ => none

end Handlers

/-! ## A file and its thread -/

/-- Where a kernel thread is. -/
inductive ThreadState where
  /-- There is none. -/
  | none
  /-- `kthread_create` has created it; it waits to be woken. -/
  | created
  | woken
  /-- It is in `message_manager_run`. -/
  | running (l : RunLocals)
  | exited

namespace ThreadState

/-- The thread may be in its function, or get there. -/
def Active : ThreadState → Prop
  | woken | running _ => True
  | _ => False

/-- The thread is in its function. -/
def Running : ThreadState → Prop
  | running _ => True
  | _ => False

end ThreadState

/-- **A file**: what `filp->private_data` points to, and the thread. -/
structure OpenFile where
  pfd : KucommsFileData
  privateData : Bool
  thread : ThreadState
  shouldStop : Bool

/-- A `*pfd` that nothing was stored to. -/
def KucommsFileData.blank : KucommsFileData :=
  ⟨0, 0, 0, ⟨.null, 0, fun _ => 0, 0, false⟩, 0, 0, messageManagerInit 0 0 0 0⟩

/-- The stores to `*pfd`. -/
inductive FdStore where
  | vaddr (vaddr : ℕ)
  | vaddrLen (len : UInt64)
  | thread (thread : ℕ)
  | callbacks (c : Callbacks)
  | message (message : ℕ)
  | cbdata (cbdata : KucommsCallbackData)
  | rxMsgq (msgq : ℕ)
  | txMsgq (msgq : ℕ)

/-- What a store does. -/
def FdStore.apply (st : FdStore) (pfd : KucommsFileData) : KucommsFileData :=
  match st with
  | .vaddr p => { pfd with vaddr := p }
  | .vaddrLen n => { pfd with vaddrLen := n }
  | .thread t => { pfd with thread := t }
  | .callbacks c => { pfd with cbdata := { pfd.cbdata with callbacks := c } }
  | .message p => { pfd with cbdata := { pfd.cbdata with message := p } }
  | .cbdata d => { pfd with cbdata := d }
  | .rxMsgq q => { pfd with rxMsgq := q }
  | .txMsgq q => { pfd with txMsgq := q }

/-! ## The actions -/

/-- **The actions of the file operations** and of the kernel thread. -/
inductive FopsAct where
  /-- An access to the tables, or to their mutex. -/
  | registry (a : LockAct RegAct)
  /-- `vmalloc(sizeof(struct kucomms_file_data))` -/
  | vmallocFileData
  /-- `vfree(pfd)` -/
  | vfreeFileData
  /-- `kthread_create(kucomms_thread, pfd, ..)`, `none` for an error. -/
  | kthreadCreate
  | tryModuleGet
  | modulePut
  /-- The read of a field of `*pfd`. -/
  | loadFd
  /-- A store to `*pfd`. -/
  | storeFd (st : FdStore)
  /-- `filp->private_data = pfd` -/
  | storePrivateData
  /-- `vmalloc_user(len)`, null being 0. -/
  | vmallocUser (len : UInt64)
  /-- `remap_vmalloc_range(vma, vaddr, 0)` -/
  | remapVmallocRange (vaddr : ℕ)
  /-- `vmalloc(len)`, null being 0. -/
  | vmalloc (len : UInt64)
  | vfree (p : ℕ)
  /-- An access to a ring in the mapping. -/
  | ring (msgq : ℕ) (a : QAct)
  /-- An access to `pfd->msgmgr`. -/
  | msgmgr (a : ManagerAct)
  | wakeUpProcess
  /-- `kthread_stop`: the thread is told to stop, and woken. -/
  | kthreadStop
  /-- `kthread_stop`: the thread has ended. -/
  | kthreadStopWait
  /-- An action of the kernel thread. -/
  | thread (a : MgrAct)

/-- The answer to an action. -/
@[reducible] def FopsAct.Res : FopsAct → Type
  | .registry a => LockAct.Res RegAct.Res a
  | .vmallocFileData => Bool
  | .kthreadCreate => Option ℕ
  | .loadFd => KucommsFileData
  | .vmallocUser _ | .vmalloc _ => ℕ
  | .remapVmallocRange _ => ℤ
  | .ring _ a => a.Res
  | .msgmgr a => a.Res
  | .thread a => a.Res
  | _ => Unit

/-- **What is answered from outside**: by the kernel, by memory that the user
process can write at any time, by the clock and by the handlers. -/
structure FopsEnv where
  fileData : Bool
  kthread : Option ℕ
  vaddr : ℕ
  remap : ℤ
  message : ℕ
  ring : (a : QAct) → a.Res
  clock : UInt64
  handled : Bool

/-- An environment in which all goes well: the memory is there, the rings
are empty, and the clock stands. -/
def FopsEnv.calm : FopsEnv :=
  ⟨true, some 1, 4096, 0, 8192, fun a => (a.exec .zeroed).1, 0, false⟩

/-- The answers to the thread's own actions: `stopped` is a variable of
`kucomms_thread` that nothing sets. -/
def FopsEnv.answer (env : FopsEnv) (shouldStop : Bool) : (a : MgrAct) → a.Res
  | .ring _ a => env.ring a
  | .loadStopped => false
  | .kthreadShouldStop => shouldStop
  | .clock => env.clock
  | .msghlr _ _ _ _ _ => ()
  | .msghlrReturn => env.handled
  | .workhlr => env.handled
  | .timerhlr _ => ()
  | .usleep _ => ()
  | .loadBuffer _ _ => ()
  | .storeCbdata _ _ => ()

/-- The thread once it is woken. -/
def ThreadState.wake : ThreadState → ThreadState
  | .created => .woken
  | t => t

/-- **What an action does** to the tables and to the file. -/
def FopsAct.exec (env : FopsEnv) :
    (a : FopsAct) → Registry × OpenFile → a.Res × (Registry × OpenFile)
  | .registry a, (r, fd) =>
    let x := LockAct.execAlone (RegAct.exec .unused) a r
    (x.1, (x.2, fd))
  | .vmallocFileData, s => (env.fileData, s)
  | .vfreeFileData, s => ((), s)
  | .kthreadCreate, (r, fd) =>
    (env.kthread,
      (r, if env.kthread.isSome then { fd with thread := .created } else fd))
  | .tryModuleGet, s => ((), s)
  | .modulePut, s => ((), s)
  | .loadFd, (r, fd) => (fd.pfd, (r, fd))
  | .storeFd st, (r, fd) => ((), (r, { fd with pfd := st.apply fd.pfd }))
  | .storePrivateData, (r, fd) => ((), (r, { fd with privateData := true }))
  | .vmallocUser _, s => (env.vaddr, s)
  | .remapVmallocRange _, s => (env.remap, s)
  | .vmalloc _, s => (env.message, s)
  | .vfree _, s => ((), s)
  | .ring _ a, s => (env.ring a, s)
  | .msgmgr a, (r, fd) =>
    let x := a.exec fd.pfd.msgmgr
    (x.1, (r, { fd with pfd := { fd.pfd with msgmgr := x.2 } }))
  | .wakeUpProcess, (r, fd) => ((), (r, { fd with thread := fd.thread.wake }))
  | .kthreadStop, (r, fd) => ((), (r, { fd with shouldStop := true }))
  | .kthreadStopWait, (r, fd) => ((), (r, { fd with thread := .exited }))
  | .thread a, (r, fd) => (env.answer fd.shouldStop a, (r, fd))

/-! ## The functions -/

/-- A file operation. -/
abbrev FopsProg : Type → Type := Prog FopsAct FopsAct.Res

/-- A function of the registry, called by a file operation. -/
def LockedRegProg.inFops {α : Type} (p : LockedRegProg α) : FopsProg α :=
  p.embed FopsAct.registry (fun _ r => r)

/-- An operation on a ring in the mapping. -/
def QProg.inFops {α : Type} (p : QProg α) (msgq : ℕ) : FopsProg α :=
  p.embed (FopsAct.ring msgq) (fun _ r => r)

/-- An operation on `pfd->msgmgr`. -/
def ManagerProg.inFops {α : Type} (p : ManagerProg α) : FopsProg α :=
  p.embed FopsAct.msgmgr (fun _ r => r)

/-- A function of the manager, in the kernel thread. -/
def MgrProg.inFops {α : Type} (p : MgrProg α) : FopsProg α :=
  p.embed FopsAct.thread (fun _ r => r)

def loadFd : FopsProg KucommsFileData := .act .loadFd .ret

def storeFd (st : FdStore) : FopsProg Unit := .act (.storeFd st) .ret

def vfree (p : ℕ) : FopsProg Unit := .act (.vfree p) .ret

/-- What `kucomms_fops_open` does once it has its memory and its thread: it
fills in `*pfd`, with a copy of the entry. -/
def fillFileData (pcbdata : Fin kucommsListSize) (thread : ℕ) :
    FopsProg Unit := do
  storeFd (.vaddr 0)
  storeFd (.vaddrLen 0)
  storeFd (.thread thread)
  storeFd (.callbacks .null)
  storeFd (.message 0)
  let cbdata ←
    (.act (.registry (.act (.loadCb pcbdata))) .ret :
      FopsProg KucommsCallbackData)
  storeFd (.cbdata cbdata)
  storeFd (.rxMsgq 0)
  storeFd (.txMsgq 0)
  (.act .storePrivateData .ret : FopsProg Unit)

/-- What `kucomms_fops_open` does after its checks, having found the entry
`pcbdata` closed and marked it open: on an error the mark is taken back. -/
def createFileData (name : Name) (pcbdata : Fin kucommsListSize) :
    FopsProg ℤ := do
  let pfd ← (.act .vmallocFileData .ret : FopsProg Bool)
  if pfd = false then
    LockedRegProg.inFops (kucommsFindAndClose name)
    return -1
  else
    let thread ← (.act .kthreadCreate .ret : FopsProg (Option ℕ))
    match thread with
    | none => do
      LockedRegProg.inFops (kucommsFindAndClose name)
      (.act .vfreeFileData .ret : FopsProg Unit)
      return -1
    | some thread => do
      (.act .tryModuleGet .ret : FopsProg Unit)
      fillFileData pcbdata thread
      return 0

/-- `kucomms_fops_open`, of a file with the name `name`. -/
def kucommsFopsOpen (name : Name) : FopsProg ℤ := do
  let ret ← LockedRegProg.inFops (kucommsFindAndOpen name)
  match ret with
  | (none, _) => return -1
  | (some pcbdata, isOpen) =>
    if isOpen = true then return -1 else createFileData name pcbdata

/-- `-EIO` -/
def negEio : ℤ := -5

/-- `KUCOMMS_MAX_MEM_ALLOC_SIZE` -/
def kucommsMaxMemAllocSize : UInt64 := 1024 * 1024 * 1024

/-- The end of `kucomms_fops_mmap` when something has failed. -/
def freeSession (vaddr message : ℕ) : FopsProg ℤ := do
  vfree message
  vfree vaddr
  return negEio

/-- What `kucomms_fops_mmap` does with its rings: it sets up the manager, and
wakes the thread. -/
def startManager (len : UInt64) (vaddr message : ℕ) : FopsProg ℤ := do
  -- the addresses of `kucomms_message_hlr` and so on, and of `*pfd`, are not
  -- looked at
  let ok ← ManagerProg.inFops (messageManagerInitAt 1 2 3 4)
  if ok = false then
    freeSession vaddr message
  else
    let queueLength := messageQueueGetQueueLength (len / 2)
    let rx ← loadFd
    let tx ← loadFd
    let ok ← ManagerProg.inFops (messageManagerAddMsgqAt rx.rxMsgq tx.txMsgq
      queueLength queueLength)
    if ok = false then
      freeSession vaddr message
    else
      storeFd (.vaddr vaddr)
      storeFd (.vaddrLen len)
      storeFd (.message message)
      (.act .wakeUpProcess .ret : FopsProg Unit)
      return 0

/-- What `kucomms_fops_mmap` does with its memory: it sets up the rings in
it. -/
def startSession (len : UInt64) (vaddr message : ℕ) : FopsProg ℤ := do
  storeFd (.rxMsgq vaddr)
  storeFd (.txMsgq (vaddr + (len / 2).toNat))
  let rx ← loadFd
  let ok ← QProg.inFops (messageQueueInit (len / 2)) rx.rxMsgq
  if ok = false then
    freeSession vaddr message
  else
    let tx ← loadFd
    let ok ← QProg.inFops (messageQueueInit (len / 2)) tx.txMsgq
    if ok = false then
      freeSession vaddr message
    else
      startManager len vaddr message

/-- `kucomms_fops_mmap`, of `len` bytes. -/
def kucommsFopsMmap (len : UInt64) : FopsProg ℤ := do
  let pfd ← loadFd
  if pfd.vaddr ≠ 0 then
    return negEio
  else if len > kucommsMaxMemAllocSize then
    return negEio
  else
    let vaddr ← (.act (.vmallocUser len) .ret : FopsProg ℕ)
    if vaddr = 0 then
      return negEio
    else
      let ret ← (.act (.remapVmallocRange vaddr) .ret : FopsProg ℤ)
      if ret ≠ 0 then
        vfree vaddr
        return negEio
      else
        let message ← (.act (.vmalloc
          (messageQueueGetQueueLength (len / 2))) .ret : FopsProg ℕ)
        if message = 0 then
          vfree vaddr
          return negEio
        else
          startSession len vaddr message

/-- `kucomms_fops_release`, of a file with the name `name`. -/
def kucommsFopsRelease (name : Name) : FopsProg ℤ := do
  LockedRegProg.inFops (kucommsFindAndClose name)
  let pfd ← loadFd
  (.act .kthreadStop .ret : FopsProg Unit)
  (.act .kthreadStopWait .ret : FopsProg Unit)
  if pfd.cbdata.message ≠ 0 then
    vfree pfd.cbdata.message
  if pfd.vaddr ≠ 0 then
    vfree pfd.vaddr
  (.act .vfreeFileData .ret : FopsProg Unit)
  (.act .modulePut .ret : FopsProg Unit)
  return 0

/-- `kucomms_thread` up to the loop of `message_manager_run`. -/
def kucommsThreadEnter (buffer : Bytes) : FopsProg RunLocals :=
  MgrProg.inFops (messageManagerEnter buffer)

/-- One turn of the loop of `message_manager_run` in `kucomms_thread`, with
the bounce buffer of `vaddr_len / 2` bytes. -/
def kucommsThreadTurn (hz : UInt64) (pfd : KucommsFileData) (l : RunLocals) :
    FopsProg TurnEnd :=
  MgrProg.inFops (messageManagerTurn (.kernel hz) pfd.msgmgr
    (pfd.vaddrLen / 2) (kucommsMessageHlr pfd.cbdata.callbacks) l)

/-! ## What `kucomms_fops_mmap` leaves -/

/-- The accesses to `*pfd` and the wake-up. -/
def FopsAct.onFile : FopsAct → Bool
  | .loadFd | .storeFd _ | .msgmgr _ | .wakeUpProcess => true
  | _ => false

section StartManager

variable {T : Type} (exec : (a : FopsAct) → T → a.Res × T) (env : FopsEnv)
  (f : Registry × OpenFile → T)

/-- An operation on `pfd->msgmgr` alone, where the file is part of a larger
state. -/
theorem ManagerProg.inFops_run {α : Type}
    (hexec : ∀ a s, a.onFile = true →
      exec a (f s) = ((a.exec env s).1, f (a.exec env s).2))
    (p : ManagerProg α) (r : Registry) (fd : OpenFile) :
    p.inFops.run exec (f (r, fd))
      = ((p.run ManagerAct.exec fd.pfd.msgmgr).1,
        f (r, { fd with pfd := { fd.pfd with
          msgmgr := (p.run ManagerAct.exec fd.pfd.msgmgr).2 } })) := by
  induction p generalizing fd with
  | ret v => rfl
  | act a k ih =>
    show Prog.run exec (ManagerProg.inFops (k (exec (.msgmgr a) (f (r, fd))).1))
      (exec (.msgmgr a) (f (r, fd))).2 = _
    rw [hexec _ _ rfl]
    exact ih _ _

/-- **The file that `startManager` leaves**: the manager has one pair, and
the rest is stored. -/
theorem startManager_run
    (hexec : ∀ a s, a.onFile = true →
      exec a (f s) = ((a.exec env s).1, f (a.exec env s).2))
    (len : UInt64) (vaddr message : ℕ) (r : Registry) (fd : OpenFile) :
    ∃ fd' m, (startManager len vaddr message).run exec (f (r, fd))
        = (0, f (r, fd'))
      ∧ fd'.pfd.vaddr = vaddr ∧ fd'.pfd.vaddrLen = len
      ∧ fd'.pfd.cbdata.message = message
      ∧ SameManager m (messageManagerInit 1 2 3 4)
      ∧ fd'.pfd.msgmgr = (messageManagerAddMsgq m fd.pfd.rxMsgq
        fd.pfd.txMsgq (messageQueueGetQueueLength (len / 2))
        (messageQueueGetQueueLength (len / 2))).2 := by
  obtain ⟨m, hinit, hm⟩ := messageManagerInitAt_run 1 2 3 4 fd.pfd.msgmgr
  have hne : m.msgqArrayLength ≠ msgmgrMsgqarraySize := by
    rw [hm.length]
    exact Nat.noConfusion
  have hadd : (messageManagerAddMsgq m fd.pfd.rxMsgq fd.pfd.txMsgq
      (messageQueueGetQueueLength (len / 2))
      (messageQueueGetQueueLength (len / 2))).1 = true := by
    unfold messageManagerAddMsgq
    rw [dif_neg hne]
  have hload : ∀ r fd, exec .loadFd (f (r, fd)) = (fd.pfd, f (r, fd)) :=
    fun r fd => hexec .loadFd (r, fd) rfl
  have hstore : ∀ st r fd, exec (.storeFd st) (f (r, fd))
      = ((), f (r, { fd with pfd := st.apply fd.pfd })) :=
    fun st r fd => hexec (.storeFd st) (r, fd) rfl
  have hwake : ∀ r fd, exec .wakeUpProcess (f (r, fd))
      = ((), f (r, { fd with thread := fd.thread.wake })) :=
    fun r fd => hexec .wakeUpProcess (r, fd) rfl
  unfold startManager
  simp only [loadFd, storeFd, Prog.run_bind, Prog.run_act, Prog.act_bind,
    Prog.ret_bind, ManagerProg.inFops_run exec env f hexec, hinit,
    Bool.true_eq_false, if_false, hload, hstore, hwake,
    messageManagerAddMsgqAt_run, hadd]
  exact ⟨_, m, rfl, rfl, rfl, rfl, hm, rfl⟩

end StartManager

-- from here on it is opened by name only
attribute [irreducible] startManager
