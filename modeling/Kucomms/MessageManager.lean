import Kucomms.MessageQueue

/-!
# The message manager

`common/message_manager.c`: a thread that goes round up to 64 receive rings
and hands what it finds to handlers, each message together with the transmit
ring of the same pair.

Rings are known by their addresses, so the accesses of the previous module
become accesses to the ring at an address. A message is handed over by a
pointer into the ring if it is there in one piece, and otherwise by a pointer
to the bounce buffer it was copied to.

The `while` loop of `message_manager_run` does not end by itself. What is
modelled is one turn of it, `messageManagerTurn`, which returns whether to go
on, and with which values of the variables that live across turns; a run of
the function is a sequence of turns.
-/

/-! ## Rings at addresses -/

/-- The rings in memory, by the addresses of their headers. Buffers do not
overlap, so rings at different addresses are different memory. -/
abbrev RingMem : Type := ℕ → MessageQueueHeader

/-- **A pointer to a message**: into a ring, or to the bounce buffer, whose
content no one else changes. -/
inductive MessagePtr where
  | ring (msgq slot : ℕ)
  | buffer (content : Bytes)

/-! ## The manager and its rings -/

/-- `MSGMGR_MSGQARRAY_SIZE` -/
def msgmgrMsgqarraySize : ℕ := 64

/-- `MSGMGR_WORK_INTERVAL` -/
def msgmgrWorkInterval : UInt64 := 8

/-- `struct MessageManagerStruct`. The arrays have `MSGMGR_MSGQARRAY_SIZE`
entries; handlers and `userData` are addresses, null being 0. -/
structure MessageManagerStruct where
  rxMsgqArray : ℕ → ℕ
  txMsgqArray : ℕ → ℕ
  rxMsgqLenArray : ℕ → UInt64
  txMsgqLenArray : ℕ → UInt64
  msgqArrayLength : ℕ
  msghlr : ℕ
  workhlr : ℕ
  timerhlr : ℕ
  userData : ℕ
  sleepMilli : UInt32
  /-- The entries in use are entries there are. -/
  length_le : msgqArrayLength ≤ msgmgrMsgqarraySize

/-- `message_manager_init`: a manager with no rings. -/
def messageManagerInit (msghlr workhlr timerhlr userData : ℕ) :
    MessageManagerStruct where
  rxMsgqArray _ := 0
  txMsgqArray _ := 0
  rxMsgqLenArray _ := 0
  txMsgqLenArray _ := 0
  msgqArrayLength := 0
  msghlr := msghlr
  workhlr := workhlr
  timerhlr := timerhlr
  userData := userData
  sleepMilli := 10 * 1000
  length_le := Nat.zero_le _

/-- `message_manager_add_msgq`: one more pair of rings, if there is a place
for it. -/
def messageManagerAddMsgq (m : MessageManagerStruct)
    (rxMsgq txMsgq : ℕ) (rxMsgqQueueLength txMsgqQueueLength : UInt64) :
    Bool × MessageManagerStruct :=
  if h : m.msgqArrayLength = msgmgrMsgqarraySize then (false, m)
  else
    let n := m.msgqArrayLength
    (true,
      { m with
        rxMsgqArray := Function.update m.rxMsgqArray n rxMsgq
        txMsgqArray := Function.update m.txMsgqArray n txMsgq
        rxMsgqLenArray :=
          Function.update m.rxMsgqLenArray n rxMsgqQueueLength
        txMsgqLenArray :=
          Function.update m.txMsgqLenArray n txMsgqQueueLength
        msgqArrayLength := n + 1
        length_le := lt_of_le_of_ne m.length_le h })

/-! ## The same, access by access

A manager may be in memory that others work on. Then the two functions are
their stores, one by one.
-/

/-- **The stores to a manager.** -/
inductive ManagerStore where
  | msgqArrayLength (n : ℕ) (h : n ≤ msgmgrMsgqarraySize)
  | msghlr (p : ℕ)
  | workhlr (p : ℕ)
  | timerhlr (p : ℕ)
  | userData (p : ℕ)
  | sleepMilli (t : UInt32)
  | rxMsgqArray (u0 msgq : ℕ)
  | txMsgqArray (u0 msgq : ℕ)
  | rxMsgqLenArray (u0 : ℕ) (n : UInt64)
  | txMsgqLenArray (u0 : ℕ) (n : UInt64)

/-- What a store does. -/
def ManagerStore.apply (st : ManagerStore) (m : MessageManagerStruct) :
    MessageManagerStruct :=
  match st with
  | .msgqArrayLength n h => { m with msgqArrayLength := n, length_le := h }
  | .msghlr p => { m with msghlr := p }
  | .workhlr p => { m with workhlr := p }
  | .timerhlr p => { m with timerhlr := p }
  | .userData p => { m with userData := p }
  | .sleepMilli t => { m with sleepMilli := t }
  | .rxMsgqArray u0 msgq =>
    { m with rxMsgqArray := Function.update m.rxMsgqArray u0 msgq }
  | .txMsgqArray u0 msgq =>
    { m with txMsgqArray := Function.update m.txMsgqArray u0 msgq }
  | .rxMsgqLenArray u0 n =>
    { m with rxMsgqLenArray := Function.update m.rxMsgqLenArray u0 n }
  | .txMsgqLenArray u0 n =>
    { m with txMsgqLenArray := Function.update m.txMsgqLenArray u0 n }

/-- **The accesses to a manager.** -/
inductive ManagerAct where
  /-- The read of `msgq_array_length`. -/
  | loadLength
  | store (st : ManagerStore)

/-- The answer to an access. -/
@[reducible] def ManagerAct.Res : ManagerAct → Type
  | .loadLength => Fin (msgmgrMsgqarraySize + 1)
  | .store _ => Unit

/-- What an access does. -/
def ManagerAct.exec : (a : ManagerAct) → MessageManagerStruct →
    a.Res × MessageManagerStruct
  | .loadLength, m => (⟨m.msgqArrayLength, Nat.lt_succ_of_le m.length_le⟩, m)
  | .store st, m => ((), st.apply m)

/-- A function of `message_manager.c` that works on a manager in memory. -/
abbrev ManagerProg : Type → Type := Prog ManagerAct ManagerAct.Res

/-- A store. -/
def storeManager (st : ManagerStore) : ManagerProg Unit := .act (.store st) .ret

/-- The loop of `message_manager_init`, over `n` entries from `u0` on. -/
def clearMsgqs : ℕ → ℕ → ManagerProg Unit
  | _, 0 => return ()
  | u0, n + 1 => do
    storeManager (.rxMsgqArray u0 0)
    storeManager (.txMsgqArray u0 0)
    storeManager (.rxMsgqLenArray u0 0)
    storeManager (.txMsgqLenArray u0 0)
    clearMsgqs (u0 + 1) n

/-- `message_manager_init`, on a manager in memory. -/
def messageManagerInitAt (msghlr workhlr timerhlr userData : ℕ) :
    ManagerProg Bool := do
  storeManager (.msgqArrayLength 0 (Nat.zero_le _))
  storeManager (.msghlr msghlr)
  storeManager (.workhlr workhlr)
  storeManager (.timerhlr timerhlr)
  storeManager (.userData userData)
  storeManager (.sleepMilli (10 * 1000))
  clearMsgqs 0 msgmgrMsgqarraySize
  return true

/-- `message_manager_add_msgq`, on a manager in memory. The length is read
once. -/
def messageManagerAddMsgqAt (rxMsgq txMsgq : ℕ)
    (rxMsgqQueueLength txMsgqQueueLength : UInt64) : ManagerProg Bool := do
  let n ← (.act .loadLength .ret :
    ManagerProg (Fin (msgmgrMsgqarraySize + 1)))
  if h : n.val = msgmgrMsgqarraySize then return false
  else
    storeManager (.rxMsgqArray n rxMsgq)
    storeManager (.txMsgqArray n txMsgq)
    storeManager (.rxMsgqLenArray n rxMsgqQueueLength)
    storeManager (.txMsgqLenArray n txMsgqQueueLength)
    storeManager (.msgqArrayLength (n + 1)
      (lt_of_le_of_ne (Nat.le_of_lt_succ n.isLt) h))
    return true

/-- An array with `n` entries from `u0` on set to `z`. -/
def clearedAt {β : Type} (z : β) (f : ℕ → β) (u0 n : ℕ) : ℕ → β :=
  fun k => if u0 ≤ k ∧ k < u0 + n then z else f k

theorem clearedAt_zero {β : Type} (z : β) (f : ℕ → β) (u0 : ℕ) :
    clearedAt z f u0 0 = f :=
  funext fun _ => if_neg (by omega)

theorem clearedAt_succ {β : Type} (z : β) (f : ℕ → β) (u0 n : ℕ) :
    clearedAt z (Function.update f u0 z) (u0 + 1) n
      = clearedAt z f u0 (n + 1) := by
  funext k
  unfold clearedAt
  by_cases hk : k = u0
  · rw [if_neg (by omega), if_pos (by omega), hk, Function.update_self]
  · rw [Function.update_of_ne hk]
    exact if_congr (by omega) rfl rfl

/-- **The loop** clears the entries it runs over. -/
theorem clearMsgqs_run (n u0 : ℕ) (m : MessageManagerStruct) :
    (clearMsgqs u0 n).run ManagerAct.exec m
      = ((), { m with
        rxMsgqArray := clearedAt 0 m.rxMsgqArray u0 n
        txMsgqArray := clearedAt 0 m.txMsgqArray u0 n
        rxMsgqLenArray := clearedAt 0 m.rxMsgqLenArray u0 n
        txMsgqLenArray := clearedAt 0 m.txMsgqLenArray u0 n }) := by
  induction n generalizing u0 m with
  | zero =>
    simp only [clearedAt_zero]
    rfl
  | succ n ih =>
    refine (ih (u0 + 1) _).trans ?_
    simp only [ManagerAct.exec, ManagerStore.apply, clearedAt_succ]

/-- Managers that no one can tell apart: beyond the end of their arrays there
is nothing. -/
structure SameManager (m m' : MessageManagerStruct) : Prop where
  length : m.msgqArrayLength = m'.msgqArrayLength
  handlers : (m.msghlr, m.workhlr, m.timerhlr, m.userData)
    = (m'.msghlr, m'.workhlr, m'.timerhlr, m'.userData)
  sleep : m.sleepMilli = m'.sleepMilli
  entry : ∀ k < msgmgrMsgqarraySize, m.rxMsgqArray k = m'.rxMsgqArray k
    ∧ m.txMsgqArray k = m'.txMsgqArray k
    ∧ m.rxMsgqLenArray k = m'.rxMsgqLenArray k
    ∧ m.txMsgqLenArray k = m'.txMsgqLenArray k

/-- **`message_manager_init`, store by store**, makes a manager with no
rings. -/
theorem messageManagerInitAt_run (msghlr workhlr timerhlr userData : ℕ)
    (m : MessageManagerStruct) :
    ∃ m', (messageManagerInitAt msghlr workhlr timerhlr userData).run
        ManagerAct.exec m = (true, m')
      ∧ SameManager m' (messageManagerInit msghlr workhlr timerhlr
        userData) := by
  have hcleared : ∀ {β : Type} (z : β) (f : ℕ → β) {k : ℕ},
      k < msgmgrMsgqarraySize → clearedAt z f 0 msgmgrMsgqarraySize k = z :=
    fun z f k hk => if_pos (by omega)
  unfold messageManagerInitAt
  simp only [storeManager, Prog.act_bind, Prog.ret_bind, Prog.run_act,
    Prog.run_bind, clearMsgqs_run]
  exact ⟨_, rfl, rfl, rfl, rfl, fun k hk =>
    ⟨hcleared _ _ hk, hcleared _ _ hk, hcleared _ _ hk, hcleared _ _ hk⟩⟩

/-- **`message_manager_add_msgq`, access by access**, adds the pair. -/
theorem messageManagerAddMsgqAt_run (rxMsgq txMsgq : ℕ)
    (rxMsgqQueueLength txMsgqQueueLength : UInt64)
    (m : MessageManagerStruct) :
    (messageManagerAddMsgqAt rxMsgq txMsgq rxMsgqQueueLength
        txMsgqQueueLength).run ManagerAct.exec m
      = messageManagerAddMsgq m rxMsgq txMsgq rxMsgqQueueLength
        txMsgqQueueLength := by
  unfold messageManagerAddMsgq
  by_cases h : m.msgqArrayLength = msgmgrMsgqarraySize
  · rw [dif_pos h]
    show Prog.run _ (if h : m.msgqArrayLength = msgmgrMsgqarraySize
      then _ else _) m = _
    rw [dif_pos h]
    rfl
  · rw [dif_neg h]
    show Prog.run _ (if h : m.msgqArrayLength = msgmgrMsgqarraySize
      then _ else _) m = _
    rw [dif_neg h]
    rfl

/-! ## The actions of the manager's thread -/

/-- **What the manager's thread does** that others can see or decide. -/
inductive MgrAct where
  /-- An access to the ring at an address. -/
  | ring (msgq : ℕ) (a : QAct)
  /-- The read of `*stopped`. -/
  | loadStopped
  /-- `kthread_should_stop()` -/
  | kthreadShouldStop
  /-- The read of `jiffies_64`, or `time(0)`. -/
  | clock
  /-- The call of the message handler for the pair `u0`. -/
  | msghlr (u0 : ℕ) (message : MessagePtr) (txMsgq : ℕ)
      (rxMsgqQueueLength txMsgqQueueLength : UInt64)
  /-- The return of the message handler. -/
  | msghlrReturn
  /-- A call of the work handler. -/
  | workhlr
  /-- A call of the timer handler. -/
  | timerhlr (now : UInt64)
  /-- `usleep_range(sleep_milli, sleep_milli+10)`, or `usleep(sleep_milli)`. -/
  | usleep (microseconds : UInt32)
  /-- The read of `n` bytes of the bounce buffer, from the `k`-th on. -/
  | loadBuffer (k n : ℕ)
  /-- The store of a byte of `cbdata.message`. -/
  | storeCbdata (k : ℕ) (b : UInt8)

/-- The answer to an action. -/
@[reducible] def MgrAct.Res : MgrAct → Type
  | .ring _ a => a.Res
  | .loadStopped | .kthreadShouldStop => Bool
  | .clock => UInt64
  | .msghlr _ _ _ _ _ => Unit
  | .msghlrReturn | .workhlr => Bool
  | .timerhlr _ | .usleep _ | .loadBuffer _ _ | .storeCbdata _ _ => Unit

/-- A function of the manager's thread. -/
abbrev MgrProg : Type → Type := Prog MgrAct MgrAct.Res

/-- An operation on the ring at an address. -/
def QProg.at {α : Type} (p : QProg α) (msgq : ℕ) : MgrProg α :=
  p.embed (MgrAct.ring msgq) (fun _ r => r)

/-! ## One turn of the loop -/

/-- The two builds of the source. -/
inductive Build where
  /-- `KERNEL_BUILD`, with the number of jiffies in a second. -/
  | kernel (hz : UInt64)
  | user

/-- **The variables that live across turns** of the loop, and the content of
the bounce buffer. -/
structure RunLocals where
  counter : UInt64
  lastTimerTime : UInt64
  buffer : Bytes

/-- The variables of one turn: `avail` is set to 0 at its beginning, and once
`error` is set there is no other turn. -/
structure TurnLocals extends RunLocals where
  avail : UInt64
  error : Bool

/-- The message handler as the loop calls it: for the pair `u0`, with the
pointer, the transmit ring and the two lengths. -/
abbrev MessageHandlerProg : Type :=
  ℕ → MessagePtr → ℕ → UInt64 → UInt64 → MgrProg Bool

/-- **Any message handler**, of which the loop sees the call and the value
returned. -/
def callMsghlr : MessageHandlerProg := fun u0 message txMsgq rxLen txLen => do
  let _ ← (.act (.msghlr u0 message txMsgq rxLen txLen) .ret : MgrProg Unit)
  (.act .msghlrReturn .ret : MgrProg Bool)

section Turn

variable (build : Build) (m : MessageManagerStruct)

def readClock : MgrProg UInt64 := .act .clock .ret

def callWorkhlr : MgrProg Bool := .act .workhlr .ret

def callTimerhlr (now : UInt64) : MgrProg Unit := .act (.timerhlr now) .ret

def callUsleep : MgrProg Unit := .act (.usleep m.sleepMilli) .ret

/-- `timer_mod`, in the user build. -/
def timerMod : UInt32 := 1000000 / m.sleepMilli

/-- `time_after64(a, b)` -/
def timeAfter64 (a b : UInt64) : Bool := (b - a).toInt64 < 0

/-- The timer at the end of every delivery and of every idle turn: in the
kernel one read of the clock each time, in user space one every `timer_mod`
times. -/
def checkTimer (counter lastTimerTime : UInt64) : MgrProg UInt64 :=
  match build with
  | .kernel hz => do
    let now ← readClock
    if timeAfter64 now (lastTimerTime + hz) then
      callTimerhlr now
      return now
    else
      return lastTimerTime
  | .user =>
    if counter % (timerMod m).toUInt64 = 0 then do
      let now ← readClock
      if now.toInt64 > lastTimerTime.toInt64 then
        callTimerhlr now
        return now
      else
        return lastTimerTime
    else
      return lastTimerTime

/-- What follows a delivery from the pair `u0`. -/
def afterDelivery (u0 : ℕ) (s : TurnLocals) : MgrProg TurnLocals := do
  let n ← (messageQueueGetAvailL (m.rxMsgqLenArray u0)).at (m.rxMsgqArray u0)
  let counter := s.counter + 1
  let _ok ← if counter % msgmgrWorkInterval = 0 then callWorkhlr
    else pure true
  let last ← checkTimer build m counter s.lastTimerTime
  return { s with
    avail := s.avail + n, counter := counter, lastTimerTime := last }

variable (bufferLen : UInt64) (hlr : MessageHandlerProg)

/-- **The body of the `for` loop**, for the pair `u0`: at most one message is
taken from its ring and handed over. -/
def forBody (u0 : ℕ) (s : TurnLocals) : MgrProg TurnLocals := do
  let rxMsgq := m.rxMsgqArray u0
  let txMsgq := m.txMsgqArray u0
  let rxLen := m.rxMsgqLenArray u0
  let txLen := m.txMsgqLenArray u0
  let r ← (messageQueueGetBeginL rxLen).at rxMsgq
  match r with
  | none => return s
  | some none => do
    let g ← (messageQueueGetL rxLen s.buffer bufferLen).at rxMsgq
    let s := { s with buffer := g.buffer, error := g.error }
    if g.error = true then
      return s
    else if g.ok = false then
      return s
    else
      let _ok ← hlr u0 (.buffer g.buffer) txMsgq rxLen txLen
      afterDelivery build m u0 s
  | some (some slot) => do
    let _ok ← hlr u0 (.ring rxMsgq slot) txMsgq rxLen txLen
    (messageQueueGetCompleteL rxLen slot).at rxMsgq
    afterDelivery build m u0 s

/-- The `for` loop, with `n` pairs left from `u0` on; an error ends it. -/
def forLoop : ℕ → ℕ → TurnLocals → MgrProg TurnLocals
  | 0, _, s => return s
  | n + 1, u0, s => do
    let s ← forBody build m bufferLen hlr u0 s
    if s.error = true then
      return s
    else
      forLoop n (u0 + 1) s

/-- How a turn ends. -/
inductive TurnEnd where
  /-- The loop goes on. -/
  | again (l : RunLocals)
  /-- The loop is left, and `message_manager_run` returns `ok`. -/
  | exit (ok : Bool)

/-- The end of a turn in which no ring had more to read. -/
def idleEnd (s : TurnLocals) : MgrProg TurnEnd := do
  let ok ← callWorkhlr
  let counter := s.counter + 1
  let last ← checkTimer build m counter s.lastTimerTime
  let l : RunLocals :=
    { s.toRunLocals with counter := counter, lastTimerTime := last }
  if ok = true then
    return .again l
  else
    callUsleep m
    return .again l

/-- `kthread_should_stop()`, in the kernel build only. -/
def shouldStop : MgrProg Bool :=
  match build with
  | .kernel _ => .act .kthreadShouldStop .ret
  | .user => return false

/-- **One turn of `while (*stopped == false)`.** -/
def messageManagerTurn (l : RunLocals) : MgrProg TurnEnd := do
  let stopped ← (.act .loadStopped .ret : MgrProg Bool)
  if stopped = true then
    return .exit true
  else
    let stop ← shouldStop build
    if stop = true then
      return .exit true
    else
      let s ← forLoop build m bufferLen hlr m.msgqArrayLength 0
        { l with avail := 0, error := false }
      if s.error = true then
        return .exit false
      else if s.avail ≠ 0 then
        return .again s.toRunLocals
      else
        idleEnd build m s

/-- What `message_manager_run` does before its loop: it reads the clock; the
buffer it allocates has arbitrary content. -/
def messageManagerEnter (buffer : Bytes) : MgrProg RunLocals := do
  let last ← readClock
  return ⟨0, last, buffer⟩

/-- A turn once it has looked whether to go on. -/
def turnBody (l : RunLocals) : MgrProg TurnEnd := do
  let s ← forLoop build m bufferLen hlr m.msgqArrayLength 0
    { l with avail := 0, error := false }
  if s.error = true then
    return .exit false
  else if s.avail ≠ 0 then
    return .again s.toRunLocals
  else
    idleEnd build m s

/-- **A turn** looks whether to go on, in the kernel twice. -/
theorem messageManagerTurn_eq (l : RunLocals) :
    messageManagerTurn build m bufferLen hlr l
      = .act .loadStopped (fun stopped =>
        if stopped = true then .ret (.exit true)
        else match build with
          | .kernel _ => .act .kthreadShouldStop (fun stop =>
            if stop = true then .ret (.exit true)
            else turnBody build m bufferLen hlr l)
          | .user => turnBody build m bufferLen hlr l) := by
  cases build with
  | kernel hz => rfl
  | user => rfl

/-- The loop over one pair. -/
theorem forLoop_one (u0 : ℕ) (s : TurnLocals) :
    forLoop build m bufferLen hlr 1 u0 s
      = forBody build m bufferLen hlr u0 s := by
  have hend : (fun s => if s.error = true then pure s
      else forLoop build m bufferLen hlr 0 (u0 + 1) s :
      TurnLocals → MgrProg TurnLocals) = Prog.ret := funext (fun s => ite_self _)
  show forBody build m bufferLen hlr u0 s >>= _ = _
  rw [hend, Prog.bind_ret]

end Turn
