import Kucomms.Expansion
import Kucomms.MessageManager

/-!
# The actions of a turn

Between its calls of handlers, a turn of `message_manager_run` does to the
receive rings what a reader does, and touches no other ring
(`messageManagerTurn_all`). And it does nothing with what the message handler
returns, so that the handler may be put in where it is called
(`messageManagerTurn_through`): a turn with the handler `hlr` is a turn that
calls some handler, with `hlr` for the call.
-/

open Prog

/-! ## What a reader does -/

/-- **The accesses of a reader.** -/
def QAct.Takes : QAct → Prop
  | .storeField f _ => f = .rd
  | .storeByte _ _ => False
  | _ => True

section Takes

variable {queueLength : UInt64}

theorem loadField_takes (f : HeaderField) : (loadField f).All QAct.Takes :=
  ⟨trivial, fun _ => trivial⟩

theorem copyHeader_takes (dst : ℕ → CopyDst) (n u0 : ℕ) (rd : UInt64)
    (buffer : Bytes) :
    (copyHeader queueLength dst n u0 rd buffer).All QAct.Takes := by
  induction n generalizing u0 rd buffer with
  | zero => trivial
  | succ n ih => exact ⟨trivial, fun _ => ih _ _ _⟩

theorem memcpyOut_takes (n dst src : ℕ) (buffer : Bytes) :
    (memcpyOut dst src n buffer).All QAct.Takes := by
  induction n generalizing dst src buffer with
  | zero => trivial
  | succ n ih => exact ⟨trivial, fun _ => ih _ _ _⟩

theorem copyDataOut_takes (rd mLength : UInt64) (buffer : Bytes) :
    (copyDataOut queueLength rd mLength buffer).All QAct.Takes :=
  All.ite (memcpyOut_takes _ _ _ _)
    ((memcpyOut_takes _ _ _ _).bind (fun _ => memcpyOut_takes _ _ _ _))

theorem messageQueueGetL_takes (buffer : Bytes) (bufferLen : UInt64) :
    (messageQueueGetL queueLength buffer bufferLen).All QAct.Takes := by
  refine (loadField_takes _).bind (fun rd =>
    (loadField_takes _).bind (fun wr => ?_))
  refine All.ite trivial (All.ite trivial (All.ite trivial (All.ite trivial
    ((copyHeader_takes _ _ _ _ _).bind (fun head => ?_)))))
  dsimp only
  generalize head.2.mLength = mLength
  refine All.ite trivial (All.ite ⟨rfl, fun _ => trivial⟩
    (All.ite trivial ?_))
  exact (copyDataOut_takes _ _ _).bind (fun _ => ⟨rfl, fun _ => trivial⟩)

theorem messageQueueGetBeginL_takes :
    (messageQueueGetBeginL queueLength).All QAct.Takes := by
  refine (loadField_takes _).bind (fun rd =>
    (loadField_takes _).bind (fun wr => ?_))
  refine All.ite trivial (All.ite trivial (All.ite trivial
    ((copyHeader_takes _ _ _ _ _).bind (fun head => ?_))))
  dsimp only
  generalize head.2.mLength = mLength
  exact All.ite trivial (All.ite trivial trivial)

theorem messageQueueGetCompleteL_takes (message : ℕ) :
    (messageQueueGetCompleteL queueLength message).All QAct.Takes := by
  refine ⟨trivial, fun length => ⟨trivial, fun rd => ?_⟩⟩
  exact All.ite trivial (All.ite trivial ⟨rfl, fun _ => trivial⟩)

theorem messageQueueGetAvailL_takes :
    (messageQueueGetAvailL queueLength).All QAct.Takes :=
  (loadField_takes _).bind (fun _ => (loadField_takes _).bind
    (fun _ => trivial))

end Takes

/-! ## The parts of a turn -/

/-- **What a turn does by itself**: it reads from the receive rings of its
manager, and calls the work and timer handlers; the message handler is none
of its business. -/
def MgrAct.Aside (m : MessageManagerStruct) : MgrAct → Prop
  | .ring msgq a => a.Takes
    ∧ ∃ k < m.msgqArrayLength, msgq = m.rxMsgqArray k
  | .msghlr _ _ _ _ _ | .msghlrReturn => False
  | _ => True

/-- **What a turn does.** -/
def MgrAct.InTurn (m : MessageManagerStruct) : MgrAct → Prop
  | .msghlr _ _ _ _ _ | .msghlrReturn => True
  | a => a.Aside m

theorem MgrAct.Aside.inTurn {m : MessageManagerStruct} {a : MgrAct}
    (h : a.Aside m) : a.InTurn m := by
  cases a with
  | msghlr => trivial
  | msghlrReturn => trivial
  | _ => exact h

section Parts

variable {build : Build} {m : MessageManagerStruct} {bufferLen : UInt64}
  {u0 : ℕ} {α : Type}

theorem at_aside {p : QProg α} (hp : p.All QAct.Takes)
    (hu : u0 < m.msgqArrayLength) :
    (p.at (m.rxMsgqArray u0)).All (MgrAct.Aside m) := by
  unfold QProg.at
  induction p with
  | ret v => trivial
  | act a k ih => exact ⟨⟨hp.1, u0, hu, rfl⟩, fun r => ih r (hp.2 r)⟩

theorem checkTimer_aside (counter last : UInt64) :
    (checkTimer build m counter last).All (MgrAct.Aside m) := by
  unfold checkTimer
  cases build with
  | kernel hz =>
    exact ⟨trivial, fun now => All.ite ⟨trivial, fun _ => trivial⟩ trivial⟩
  | user =>
    refine All.ite ⟨trivial, fun now => ?_⟩ trivial
    exact All.ite ⟨trivial, fun _ => trivial⟩ trivial

theorem afterDelivery_aside (hu : u0 < m.msgqArrayLength) (s : TurnLocals) :
    (afterDelivery build m u0 s).All (MgrAct.Aside m) := by
  refine (at_aside messageQueueGetAvailL_takes hu).bind (fun n => ?_)
  have hrest : (checkTimer build m (s.counter + 1) s.lastTimerTime >>=
      fun last => pure { s with avail := s.avail + n, counter := s.counter + 1,
                                lastTimerTime := last } :
      MgrProg TurnLocals).All (MgrAct.Aside m) :=
    (checkTimer_aside _ _).bind (fun _ => trivial)
  exact All.ite ⟨trivial, fun _ => hrest⟩ hrest

theorem idleEnd_aside (s : TurnLocals) :
    (idleEnd build m s).All (MgrAct.Aside m) := by
  refine ⟨trivial, fun ok => (checkTimer_aside _ _).bind (fun last => ?_)⟩
  exact All.ite trivial ⟨trivial, fun _ => trivial⟩

theorem callMsghlr_inTurn (ptr : MessagePtr) (tx : ℕ) (rxLen txLen : UInt64) :
    (callMsghlr u0 ptr tx rxLen txLen).All (MgrAct.InTurn m) :=
  ⟨trivial, fun _ => ⟨trivial, fun _ => trivial⟩⟩

theorem forBody_inTurn (hu : u0 < m.msgqArrayLength) (s : TurnLocals) :
    (forBody build m bufferLen callMsghlr u0 s).All (MgrAct.InTurn m) := by
  have hring : ∀ {β : Type} {p : QProg β}, p.All QAct.Takes →
      (p.at (m.rxMsgqArray u0)).All (MgrAct.InTurn m) := fun hp =>
    (at_aside hp hu).mono (fun _ => MgrAct.Aside.inTurn)
  have hafter : ∀ s, (afterDelivery build m u0 s).All (MgrAct.InTurn m) :=
    fun s => (afterDelivery_aside hu s).mono (fun _ => MgrAct.Aside.inTurn)
  refine (hring messageQueueGetBeginL_takes).bind (fun r => ?_)
  match r with
  | none => trivial
  | some none =>
    refine (hring (messageQueueGetL_takes _ _)).bind (fun g => ?_)
    exact All.ite trivial (All.ite trivial
      ((callMsghlr_inTurn _ _ _ _).bind (fun _ => hafter _)))
  | some (some slot) =>
    refine (callMsghlr_inTurn _ _ _ _).bind (fun _ => ?_)
    exact (hring (messageQueueGetCompleteL_takes _)).bind (fun _ => hafter _)

theorem forLoop_inTurn {n : ℕ} (hn : u0 + n ≤ m.msgqArrayLength)
    (s : TurnLocals) :
    (forLoop build m bufferLen callMsghlr n u0 s).All (MgrAct.InTurn m) := by
  induction n generalizing u0 s with
  | zero => trivial
  | succ n ih =>
    exact (forBody_inTurn (by omega) s).bind
      (fun s => All.ite trivial (ih (by omega) s))

theorem turnBody_inTurn (l : RunLocals) :
    (turnBody build m bufferLen callMsghlr l).All (MgrAct.InTurn m) := by
  refine (forLoop_inTurn (by omega) _).bind (fun s => ?_)
  exact All.ite trivial (All.ite trivial
    ((idleEnd_aside s).mono (fun _ => MgrAct.Aside.inTurn)))

end Parts

/-- **What a turn does** to rings, a reader does, and only to the receive
rings of the manager. -/
theorem messageManagerTurn_all (build : Build) (m : MessageManagerStruct)
    (bufferLen : UInt64) (l : RunLocals) :
    (messageManagerTurn build m bufferLen callMsghlr l).All
      (MgrAct.InTurn m) := by
  rw [messageManagerTurn_eq]
  refine ⟨trivial, fun stopped => All.ite trivial ?_⟩
  cases build with
  | kernel hz =>
    exact ⟨trivial, fun stop => All.ite trivial (turnBody_inTurn l)⟩
  | user => exact turnBody_inTurn l

/-! ## The message handler, put in -/

/-- Programs of which only actions are left that two expansions treat alike
are expanded alike. -/
theorem Prog.expand_congr {A A' : Type} {R : A → Type} {R' : A' → Type}
    {α : Type} {f g : (a : A) → Prog A' R' (R a)} {p : Prog A R α}
    (hp : p.All (fun a => f a = g a)) : p.expand f = p.expand g := by
  induction p with
  | ret v => rfl
  | act a k ih =>
    rw [expand_act, expand_act, hp.1]
    exact congrArg (g a >>= ·) (funext (fun r => ih r (hp.2 r)))

section Through

variable {A : Type} {R : A → Type} {α : Type}

/-- **The call of the message handler is the handler `hlr`**, its own actions
expanded by `f`; the rest is expanded by `f` as well. -/
def through (hlr : MessageHandlerProg) (f : (a : MgrAct) → Prog A R a.Res) :
    (a : MgrAct) → Prog A R a.Res
  | .msghlr u0 ptr tx rxLen txLen =>
    (hlr u0 ptr tx rxLen txLen).expand f >>= fun _ => .ret ()
  | .msghlrReturn => .ret true
  | a => f a

variable {hlr : MessageHandlerProg} {f : (a : MgrAct) → Prog A R a.Res}
  {build : Build} {m : MessageManagerStruct} {bufferLen : UInt64}

theorem MgrAct.Aside.through {a : MgrAct} (h : a.Aside m) :
    f a = through hlr f a := by
  cases a with
  | msghlr => exact h.elim
  | msghlrReturn => exact h.elim
  | _ => rfl

/-- The parts that are no calls of the message handler. -/
theorem Prog.All.through {p : MgrProg α} (hp : p.All (MgrAct.Aside m)) :
    p.expand f = p.expand (through hlr f) :=
  expand_congr (hp.mono (fun _ => MgrAct.Aside.through))

/-- The call of the message handler, and what follows it. -/
theorem callMsghlr_through {u0 : ℕ} {ptr : MessagePtr} {tx : ℕ}
    {rxLen txLen : UInt64} {p : MgrProg α}
    (hp : p.expand f = p.expand (through hlr f)) :
    (hlr u0 ptr tx rxLen txLen >>= fun _ => p).expand f
      = (callMsghlr u0 ptr tx rxLen txLen >>= fun _ => p).expand
        (through hlr f) := by
  show _ = ((hlr u0 ptr tx rxLen txLen).expand f >>= fun _ => .ret ())
    >>= fun _ => p.expand (through hlr f)
  rw [expand_bind, bind_assoc, hp]
  rfl

theorem forBody_through {u0 : ℕ} (hu : u0 < m.msgqArrayLength)
    (s : TurnLocals) :
    (forBody build m bufferLen hlr u0 s).expand f
      = (forBody build m bufferLen callMsghlr u0 s).expand
        (through hlr f) := by
  unfold forBody
  rw [expand_bind, expand_bind,
    (at_aside messageQueueGetBeginL_takes hu).through]
  refine congrArg (_ >>= ·) (funext (fun r => ?_))
  match r with
  | none => rfl
  | some none =>
    dsimp only
    rw [expand_bind, expand_bind,
      (at_aside (messageQueueGetL_takes _ _) hu).through]
    refine congrArg (_ >>= ·) (funext (fun g => ?_))
    rw [expand_ite, expand_ite, expand_ite, expand_ite,
      callMsghlr_through (afterDelivery_aside hu _).through]
    rfl
  | some (some slot) =>
    dsimp only
    exact callMsghlr_through ((at_aside (messageQueueGetCompleteL_takes slot)
      hu).bind (fun _ => afterDelivery_aside hu s)).through

theorem forLoop_through {n u0 : ℕ} (hn : u0 + n ≤ m.msgqArrayLength)
    (s : TurnLocals) :
    (forLoop build m bufferLen hlr n u0 s).expand f
      = (forLoop build m bufferLen callMsghlr n u0 s).expand
        (through hlr f) := by
  induction n generalizing u0 s with
  | zero => rfl
  | succ n ih =>
    unfold forLoop
    rw [expand_bind, expand_bind, forBody_through (by omega)]
    refine congrArg (_ >>= ·) (funext (fun s => ?_))
    rw [expand_ite, expand_ite, ih (by omega)]
    rfl

theorem turnBody_through (l : RunLocals) :
    (turnBody build m bufferLen hlr l).expand f
      = (turnBody build m bufferLen callMsghlr l).expand
        (through hlr f) := by
  unfold turnBody
  rw [expand_bind, expand_bind, forLoop_through (by omega)]
  refine congrArg (_ >>= ·) (funext (fun s => ?_))
  have hend : (idleEnd build m s).expand f
      = (idleEnd build m s).expand (through hlr f) :=
    (idleEnd_aside s).through
  rw [expand_ite, expand_ite, expand_ite, expand_ite, hend]
  rfl

end Through

/-- **A turn with the message handler `hlr`** is a turn that calls one, with
`hlr` put in for the call. -/
theorem messageManagerTurn_through {A : Type} {R : A → Type}
    (build : Build) (m : MessageManagerStruct) (bufferLen : UInt64)
    (hlr : MessageHandlerProg) (f : (a : MgrAct) → Prog A R a.Res)
    (l : RunLocals) :
    (messageManagerTurn build m bufferLen hlr l).expand f
      = (messageManagerTurn build m bufferLen callMsghlr l).expand
        (through hlr f) := by
  rw [messageManagerTurn_eq, messageManagerTurn_eq, expand_act, expand_act]
  refine congrArg (f .loadStopped >>= ·) (funext (fun stopped => ?_))
  rw [expand_ite, expand_ite]
  have hbody : (turnBody build m bufferLen hlr l).expand f
      = (turnBody build m bufferLen callMsghlr l).expand (through hlr f) :=
    turnBody_through l
  cases build with
  | kernel hz =>
    simp only [expand_act, expand_ite, hbody]
    rfl
  | user =>
    simp only [hbody]
    rfl
