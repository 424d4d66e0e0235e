import Kucomms.DeliveryMachine
import Kucomms.Expansion
import Kucomms.Fops
import Kucomms.Messages

/-!
# Managers whose handlers are programs

So far a handler was a call and an answer. Here it is a program: what a user
of the library writes, in the kernel or in user space, to be called by
`message_manager_run`. A handler looks at the message it was given through a
pointer that may lead into the receive ring, adds messages to the transmit
rings of the manager's pairs – one of its own, or the very message it was
given – and works on memory of its own, of type `P`.

`Node.turn` is one turn of the manager's loop with its handlers filled in, in
either build: the kernel's, where `kucomms_message_hlr` copies the message
first and `message_queue_add_tx0` knows the length of the ring, and the one
of user space, where `MessageQueueWriter::add` has the length from the
header.
-/

variable {P α : Type}

/-! ## What handlers do -/

/-- **What a handler does** on its own account. -/
inductive HandlerAct (P : Type) where
  /-- Add a message to the transmit ring of the pair `k`. -/
  | add (k : ℕ) (m : DataMessage)
  /-- `rand()` -/
  | rand
  /-- Load its own memory. -/
  | load
  /-- Store it. -/
  | store (p : P)

/-- The answer to an action. -/
@[reducible] def HandlerAct.Res : HandlerAct P → Type
  | .add _ _ => Bool
  | .rand => ℕ
  | .load => P
  | .store _ => Unit

/-- A work or timer handler. -/
abbrev HandlerProg (P : Type) : Type → Type := Prog (HandlerAct P) HandlerAct.Res

/-- **What a message handler does**, with the message it was given. -/
inductive MsghlrAct (P : Type) where
  /-- Load the 64-bit field at an offset of the message. -/
  | field (k : ℕ)
  /-- Load a byte of it. -/
  | byte (k : ℕ)
  /-- Add the message to the transmit ring of the pair `k`. -/
  | forward (k : ℕ)
  | own (a : HandlerAct P)

/-- The answer to an action. -/
@[reducible] def MsghlrAct.Res : MsghlrAct P → Type
  | .field _ => UInt64
  | .byte _ => UInt8
  | .forward _ => Bool
  | .own a => a.Res

/-- A message handler. -/
abbrev MsghlrProg (P : Type) : Type → Type := Prog (MsghlrAct P) MsghlrAct.Res

/-- Add a message to the transmit ring of the pair `k`. -/
def addMessage (k : ℕ) (m : DataMessage) : HandlerProg P Bool :=
  .act (.add k m) .ret

/-- `rand()` -/
def randInt : HandlerProg P ℕ := .act .rand .ret

/-- Load the handlers' memory. -/
def loadMemory : HandlerProg P P := .act .load .ret

/-- Store a part of the handlers' memory: what is stored may depend on what is
there. -/
def modifyMemory (f : P → P) : HandlerProg P Unit := do
  let p ← loadMemory
  .act (.store (f p)) .ret

/-- What a message handler does on its own account. -/
def HandlerProg.inMsghlr (p : HandlerProg P α) : MsghlrProg P α :=
  p.embed .own (fun _ r => r)

/-- The 64-bit field of `*message` at an offset. -/
def messageField (k : ℕ) : MsghlrProg P UInt64 := .act (.field k) .ret

/-- A byte of `*message`. -/
def messageByte (k : ℕ) : MsghlrProg P UInt8 := .act (.byte k) .ret

/-- Add `*message` to the transmit ring of the pair `k`. -/
def forwardMessage (k : ℕ) : MsghlrProg P Bool := .act (.forward k) .ret

/-! ## The accesses behind it -/

/-- A 64-bit field of `*message`. -/
def loadMessageField (k : ℕ) : MessagePtr → MgrProg UInt64
  | .ring msgq slot => (loadWord (slot + k)).at msgq
  | .buffer content => return Bytes.load64 (fun i => content (k + i))

/-- A byte of `*message`. -/
def loadMessageByte (k : ℕ) : MessagePtr → MgrProg UInt8
  | .ring msgq slot => (copyOut (.buffer k) (slot + k)).at msgq
  | .buffer content => return content k

/-- `memcpy` of `n` bytes of `*message` into the ring at `txMsgq`. -/
def memcpyMessage (message : MessagePtr) (txMsgq : ℕ) :
    ℕ → ℕ → ℕ → MgrProg Unit
  | _, _, 0 => return ()
  | dst, src, n + 1 => do
    let b ← loadMessageByte src message
    (storeByte dst b).at txMsgq
    memcpyMessage message txMsgq (dst + 1) (src + 1) n

/-- The copy of `*message` to the index `wr`: in one piece, or around the end
of the ring in two. -/
def copyMessageTo (queueLength wr : UInt64) (message : MessagePtr)
    (txMsgq : ℕ) (messageSize : UInt64) : MgrProg Unit :=
  let headSize := queueLength - wr
  if headSize ≥ messageSize then
    memcpyMessage message txMsgq wr.toNat 0 messageSize.toNat
  else do
    memcpyMessage message txMsgq wr.toNat 0 headSize.toNat
    memcpyMessage message txMsgq 0 headSize.toNat
      (messageSize - headSize).toNat

/-- `message_queue_add_l` of a message that may lie in a ring itself, so that
each of its bytes is loaded when it is copied. -/
def messageQueueAddPtrL (queueLength : UInt64) (message : MessagePtr)
    (txMsgq : ℕ) : MgrProg Bool := do
  let mLength ← loadMessageField 0 message
  let messageSize := mLength + sizeofMessage
  let rd ← (loadField .rd).at txMsgq
  let wr ← (loadField .wr).at txMsgq
  if messageSize > messageQueueGetFreeLBase queueLength rd wr then
    return false
  else if wr ≥ queueLength then
    return false
  else
    copyMessageTo queueLength wr message txMsgq messageSize
    (storeField .wr ((wr + messageSize) % queueLength)).at txMsgq
    return true

/-- What a handler calls to add a message: `message_queue_add_tx0` in the
kernel, `MessageQueueWriter::add` in user space. -/
def addToTx (build : Build) (m : MessageManagerStruct) (k : ℕ)
    (message : MessagePtr) : MgrProg Bool :=
  match build with
  | .kernel _ =>
    messageQueueAddPtrL (m.txMsgqLenArray k) message (m.txMsgqArray k)
  | .user => do
    let queueLength ← (loadField .length).at (m.txMsgqArray k)
    messageQueueAddPtrL queueLength message (m.txMsgqArray k)

/-- **The actions of a thread** that runs a manager, those of its handlers
included. -/
inductive NodeAct (P : Type) where
  | mgr (a : MgrAct)
  | rand
  | load
  | store (p : P)

/-- The answer to an action. -/
@[reducible] def NodeAct.Res : NodeAct P → Type
  | .mgr a => a.Res
  | .rand => ℕ
  | .load => P
  | .store _ => Unit

/-- A program of such a thread. -/
abbrev NodeProg (P : Type) : Type → Type := Prog (NodeAct P) NodeAct.Res

/-- A function that handlers have no part in. -/
def MgrProg.inNode (p : MgrProg α) : NodeProg P α :=
  p.embed NodeAct.mgr (fun _ r => r)

/-- **The handler that the manager calls.** In the kernel it is
`kucomms_message_hlr`, that copies the message and calls the one that is
registered; its address is not looked at. -/
def Build.entry : Build → MessageHandlerProg
  | .kernel _ => kucommsMessageHlr ⟨1, 2, 3, 4⟩
  | .user => callMsghlr

/-! ## Nodes -/

/-- **A manager with its handlers.** -/
structure Node (P : Type) where
  build : Build
  /-- The length of its bounce buffer. -/
  bufferLen : UInt64
  /-- The addresses of its receive and transmit rings. -/
  pairs : List (ℕ × ℕ)
  /-- The message handler, by the pair. -/
  msghlr : ℕ → MsghlrProg P Bool
  workhlr : HandlerProg P Bool
  timerhlr : UInt64 → HandlerProg P Unit

namespace Node

/-- What an action of a handler is. -/
def handlerAct (build : Build) (m : MessageManagerStruct) :
    (a : HandlerAct P) → NodeProg P a.Res
  | .add k msg => (addToTx build m k (.buffer msg.mem)).inNode
  | .rand => .act .rand .ret
  | .load => .act .load .ret
  | .store p => .act (.store p) .ret

/-- What an action of a message handler is, the message being at `message`. -/
def msghlrAct (build : Build) (m : MessageManagerStruct)
    (message : MessagePtr) : (a : MsghlrAct P) → NodeProg P a.Res
  | .field k => (loadMessageField k message).inNode
  | .byte k => (loadMessageByte k message).inNode
  | .forward k => (addToTx build m k message).inNode
  | .own a => handlerAct build m a

variable (N : Node P) (m : MessageManagerStruct)

/-- **The handlers are filled in**: the call of a handler is its program.
What the message handler returns is not used. -/
def handlers : (a : MgrAct) → NodeProg P a.Res
  | .msghlr u0 message txMsgq rxLen txLen =>
    .act (.mgr (.msghlr u0 message txMsgq rxLen txLen)) fun _ =>
      (N.msghlr u0).expand (msghlrAct N.build m message) >>= fun _ok =>
        return ()
  | .workhlr => N.workhlr.expand (handlerAct N.build m)
  | .timerhlr now => (N.timerhlr now).expand (handlerAct N.build m)
  | .ring msgq a => .act (.mgr (.ring msgq a)) .ret
  | .loadStopped => .act (.mgr .loadStopped) .ret
  | .kthreadShouldStop => .act (.mgr .kthreadShouldStop) .ret
  | .clock => .act (.mgr .clock) .ret
  | .msghlrReturn => .act (.mgr .msghlrReturn) .ret
  | .usleep t => .act (.mgr (.usleep t)) .ret
  | .loadBuffer k n => .act (.mgr (.loadBuffer k n)) .ret
  | .storeCbdata k b => .act (.mgr (.storeCbdata k b)) .ret

/-- `message_manager_run` up to its loop. -/
def enter (buffer : Bytes) : NodeProg P RunLocals :=
  (messageManagerEnter buffer).expand (N.handlers m)

/-- **One turn of its loop**, with the handlers. -/
def turn (l : RunLocals) : NodeProg P TurnEnd :=
  (messageManagerTurn N.build m N.bufferLen N.build.entry l).expand
    (N.handlers m)

end Node
