import Kucomms.Machine
import Kucomms.MessageManager
import Kucomms.QueueInvariant

/-!
# The manager and its producers

`message_manager_run` on any number of pairs of rings, and one producer for
each receive ring, that calls `message_queue_add_l` on it; each step of one
of them between any steps of the others.

The handlers are not known. They may do anything to memory that is not a
receive ring, and return what they like; what is recorded is the calls of the
message handler: for which pair, with which pointer, which message the
pointer showed, and what was passed along.
-/

/-! ## The pairs -/

/-- **A pair of rings**: where they are, and the lengths of the buffers they
were set up in. -/
structure RingPair where
  rx : ℕ
  tx : ℕ
  rxBufferLength : UInt64
  txBufferLength : UInt64

namespace RingPair

/-- The queue length of the receive ring. -/
def rxLen (p : RingPair) : UInt64 :=
  messageQueueGetQueueLength p.rxBufferLength

/-- The queue length of the transmit ring. -/
def txLen (p : RingPair) : UInt64 :=
  messageQueueGetQueueLength p.txBufferLength

end RingPair

/-- **The pairs are added**, one after the other, with
`message_manager_add_msgq`. -/
def addPairs (m : MessageManagerStruct) (ps : List RingPair) :
    MessageManagerStruct :=
  ps.foldl
    (fun m p => (messageManagerAddMsgq m p.rx p.tx p.rxLen p.txLen).2) m

/-- The manager has the pairs. -/
structure HasPairs (m : MessageManagerStruct) (ps : List RingPair) : Prop where
  length : m.msgqArrayLength = ps.length
  pair : ∀ i p, ps[i]? = some p → m.rxMsgqArray i = p.rx
    ∧ m.txMsgqArray i = p.tx ∧ m.rxMsgqLenArray i = p.rxLen
    ∧ m.txMsgqLenArray i = p.txLen

/-- One more pair, while there is a place for it. -/
theorem HasPairs.add {m : MessageManagerStruct} {ps : List RingPair}
    (h : HasPairs m ps) (p : RingPair)
    (hroom : ps.length < msgmgrMsgqarraySize) :
    HasPairs (messageManagerAddMsgq m p.rx p.tx p.rxLen p.txLen).2
      (ps ++ [p]) := by
  have hne : m.msgqArrayLength ≠ msgmgrMsgqarraySize := by
    rw [h.length]
    exact hroom.ne
  unfold messageManagerAddMsgq
  rw [dif_neg hne]
  refine ⟨by rw [List.length_append, ← h.length]; rfl, fun i q hq => ?_⟩
  by_cases hi : i = m.msgqArrayLength
  · have hpq : p = q := by
      rw [hi, h.length, List.getElem?_concat_length] at hq
      exact Option.some.inj hq
    subst hi hpq
    simp only [Function.update_self, and_self]
  · have hlt : i < ps.length := by
      have := (List.getElem?_eq_some_iff.mp hq).1
      rw [List.length_append, List.length_singleton] at this
      rw [h.length] at hi
      omega
    rw [List.getElem?_append_left hlt] at hq
    simp only [Function.update_of_ne hi]
    exact h.pair i q hq

/-- **All pairs find a place**, if there are 64 at most. -/
theorem addPairs_hasPairs (msghlr workhlr timerhlr userData : ℕ)
    {ps : List RingPair} (h64 : ps.length ≤ msgmgrMsgqarraySize) :
    HasPairs (addPairs (messageManagerInit msghlr workhlr timerhlr userData)
      ps) ps := by
  induction ps using List.reverseRecOn with
  | nil => exact ⟨rfl, fun i p hp => nomatch hp⟩
  | append_singleton ps p ih =>
    rw [List.length_append, List.length_singleton] at h64
    rw [addPairs, List.foldl_append]
    exact (ih (by omega)).add p h64

/-! ## The state -/

/-- **A call of the message handler**, with the message that the pointer
showed. -/
structure Delivery where
  pair : ℕ
  ptr : MessagePtr
  message : DataMessage
  tx : ℕ
  rxLen : UInt64
  txLen : UInt64

/-- The messages delivered from a pair. -/
def fromPair (ds : List Delivery) (i : ℕ) : List DataMessage :=
  (ds.filter (fun d => d.pair = i)).map Delivery.message

theorem fromPair_concat_self (ds : List Delivery) (d : Delivery) :
    fromPair (ds ++ [d]) d.pair = fromPair ds d.pair ++ [d.message] := by
  unfold fromPair
  rw [List.filter_append, List.map_append]
  simp

theorem fromPair_concat_ne {ds : List Delivery} {d : Delivery} {i : ℕ}
    (h : i ≠ d.pair) : fromPair (ds ++ [d]) i = fromPair ds i := by
  unfold fromPair
  rw [List.filter_append, List.filter_cons_of_neg (by simpa using h.symm)]
  simp

/-- Where `message_manager_run` is. -/
inductive ManagerPhase where
  | ready
  | running (l : RunLocals)
  | returned (ok : Bool)

/-- **The state.** -/
structure DeliveryState where
  /-- The rings, with their histories. -/
  rings : ℕ → Traced
  /-- The calls of the message handler, in order. -/
  delivered : List Delivery
  /-- The one that has not returned. -/
  current : Option Delivery
  manager : ManagerPhase

namespace DeliveryState

/-- The message a pointer shows. -/
def shown (s : DeliveryState) : MessagePtr → DataMessage
  | .ring msgq slot => DataMessage.ofMem ((s.rings msgq).ring.slot slot)
  | .buffer content => DataMessage.ofMem content

/-- The message handler is called. -/
def deliver (s : DeliveryState) (d : Delivery) (rings : ℕ → Traced) :
    DeliveryState :=
  { s with
    rings := rings, delivered := s.delivered ++ [d], current := some d }

end DeliveryState

/-! ## The machine -/

/-- The manager, and the producers of the receive rings. -/
inductive Party (n : ℕ) where
  | manager
  | producer (i : Fin n)
  deriving DecidableEq

/-- **The calls.** -/
inductive DeliveryCall where
  /-- `message_queue_add_l` on the receive ring of a pair. -/
  | add (p : RingPair) (m : DataMessage)
  /-- `message_manager_run` up to its loop. -/
  | enter (buffer : Bytes)
  /-- A turn of its loop. -/
  | turn (l : RunLocals)

namespace DeliveryCall

/-- What a call returns. -/
@[reducible] def Ret : DeliveryCall → Type
  | .add _ _ => Bool
  | .enter _ => RunLocals
  | .turn _ => TurnEnd

/-- The programs. -/
def prog (build : Build) (m : MessageManagerStruct) (bufferLen : UInt64) :
    (c : DeliveryCall) → MgrProg c.Ret
  | .add p msg => QProg.at (messageQueueAddL p.rxLen msg.mem) p.rx
  | .enter buffer => messageManagerEnter buffer
  | .turn l => messageManagerTurn build m bufferLen callMsghlr l

/-- The message a call publishes if it stores `m_wr`. -/
def msg : DeliveryCall → MessageQueueHeader → DataMessage
  | .add _ m, _ => m
  | _, h => DataMessage.ofMem (h.slot h.mWr.toNat)

/-- Who may call what when. A message is memory with `m_length` data bytes,
which is shorter than the address space. -/
def may (ps : List RingPair) (s : DeliveryState) :
    Party ps.length → DeliveryCall → Prop
  | .producer i, .add p m => p = ps[i] ∧ m.size < 2 ^ 64
  | .manager, .enter _ => s.manager = .ready
  | .manager, .turn l => s.manager = .running l
  | _, _ => False

/-- What is recorded when a call returns. -/
def onRet (s : DeliveryState) : (c : DeliveryCall) → c.Ret → DeliveryState
  | .add _ _, _ => s
  | .enter _, l => { s with manager := .running l }
  | .turn _, .again l => { s with manager := .running l }
  | .turn _, .exit ok => { s with manager := .returned ok }

end DeliveryCall

/-- The actions that neither touch a ring nor have to do with the message
handler. -/
def MgrAct.quiet : MgrAct → Bool
  | .ring _ _ | .msghlr _ _ _ _ _ | .msghlrReturn => false
  | _ => true

/-- Memory that is a receive ring is as it was. -/
def KeepsRx (ps : List RingPair) (rings rings' : ℕ → Traced) : Prop :=
  ∀ p ∈ ps, rings' p.rx = rings p.rx

/-- **What an action may do.** A handler may change what is not a receive
ring, and so may others while the manager does something else. -/
inductive DeliverySem (ps : List RingPair)
    (msg : MessageQueueHeader → DataMessage) : (a : MgrAct) → DeliveryState →
    a.Res → DeliveryState → Prop where
  | ring {s : DeliveryState} (msgq : ℕ) (a : QAct) :
      DeliverySem ps msg (.ring msgq a) s ((s.rings msgq).exec msg a).1
        { s with rings :=
          Function.update s.rings msgq ((s.rings msgq).exec msg a).2 }
  | msghlr {s : DeliveryState} {u0 : ℕ} {ptr : MessagePtr} {tx : ℕ}
      {rxLen txLen : UInt64} {rings : ℕ → Traced}
      (hrx : KeepsRx ps s.rings rings) :
      DeliverySem ps msg (.msghlr u0 ptr tx rxLen txLen) s ()
        (s.deliver ⟨u0, ptr, s.shown ptr, tx, rxLen, txLen⟩ rings)
  | msghlrReturn {s : DeliveryState} {ok : Bool} {rings : ℕ → Traced}
      (hrx : KeepsRx ps s.rings rings) :
      DeliverySem ps msg .msghlrReturn s ok
        { s with rings := rings, current := none }
  | quiet {s : DeliveryState} {a : MgrAct} {r : a.Res} {rings : ℕ → Traced}
      (ha : a.quiet = true) (hrx : KeepsRx ps s.rings rings) :
      DeliverySem ps msg a s r { s with rings := rings }

/-- **The manager and its producers.** -/
def deliveryMachine (build : Build) (m : MessageManagerStruct)
    (bufferLen : UInt64) (ps : List RingPair) :
    Machine (Party ps.length) MgrAct MgrAct.Res DeliveryState where
  Call := DeliveryCall
  Ret := DeliveryCall.Ret
  prog := DeliveryCall.prog build m bufferLen
  may i s c := c.may ps s i
  onCall _ _ s := s
  sem _ c := DeliverySem ps c.msg
  onRet _ c v s := c.onRet s v

/-- The state at the beginning. -/
def DeliveryState.start (rings : ℕ → Traced) : DeliveryState :=
  ⟨rings, [], none, .ready⟩
