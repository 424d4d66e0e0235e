import Kucomms.Peers

/-!
# The long test

The module `kucomms_longtest` and the program of the same name talk to each
other for as long as one lets them. Each sends messages of its own, of type
1 and of type 0, sends those of the other back, and compares what comes back
with what it sent: the module by calculating it again from the sequence
number, the program by looking it up in a map of all that is under way.

This module has the handlers of both, as the source has them. That no
comparison ever fails, while no addition does, is proved in
`Kucomms.LongtestRuns`.
-/

namespace Longtest

/-- **The global variables** of the module or of the program, which have the
same names; `firstMessageReceived` is one of the module only, and
`idToMessage` of the program. -/
structure Globals where
  sequenceWr : UInt64
  sequenceRd : UInt64
  /-- `std::map`: what is not in it is an empty vector as soon as it is
  looked at. -/
  idToMessage : UInt64 → List UInt8
  messageSentCount0 : UInt64
  messageSentCount1 : UInt64
  messageReceivedCount0 : UInt64
  messageReceivedCount1 : UInt64
  messageCompareErrorCount : UInt64
  messageAddErrorCount : UInt64
  timerCounter : UInt64
  firstMessageReceived : Bool

/-- Their initial values. -/
def Globals.init : Globals := ⟨0, 0, fun _ => [], 0, 0, 0, 0, 0, 0, 0, false⟩

/-! ## What both do -/

/-- `if (!ok) g_message_add_error_count++;` -/
def countAddError (ok : Bool) : HandlerProg Globals Unit :=
  if ok = true then
    return ()
  else
    modifyMemory fun g =>
      { g with messageAddErrorCount := g.messageAddErrorCount + 1 }

/-- **A message of the other is sent back**: `received` and `sent` count it. -/
def echoMessage (received sent : Globals → Globals) :
    MsghlrProg Globals Bool := do
  (modifyMemory received).inMsghlr
  let ok ← forwardMessage 0
  (countAddError ok).inMsghlr
  (modifyMemory sent).inMsghlr
  return true

/-- `g_message_compare_error_count++; return true;` -/
def compareError : MsghlrProg Globals Bool := do
  (modifyMemory fun g =>
    { g with messageCompareErrorCount := g.messageCompareErrorCount + 1 }
  ).inMsghlr
  return true

/-- `hlr` of the timer handlers: every tenth time the counters are printed. -/
def timerHlr (_time : UInt64) : HandlerProg Globals Unit :=
  modifyMemory fun g => { g with timerCounter := g.timerCounter + 1 }

/-! ## The module -/

/-- The comparison of the data in `kucomms_message_hlr`, from `u0` on. -/
def compareData (value : UInt64) : ℕ → ℕ → MsghlrProg Globals Bool
  | _, 0 => return true
  | u0, n + 1 => do
    let b ← messageByte (32 + u0)
    if b.toUInt64 ≠ value then
      return false
    else
      compareData value (u0 + 1) n

/-- `kucomms_message_hlr` -/
def kucommsMessageHlr : MsghlrProg Globals Bool := do
  (modifyMemory fun g => { g with firstMessageReceived := true }).inMsghlr
  let mType ← messageField DataMessage.offType
  if mType = 0 then
    echoMessage
      (fun g => { g with messageReceivedCount0 := g.messageReceivedCount0 + 1 })
      (fun g => { g with messageSentCount0 := g.messageSentCount0 + 1 })
  else
    (modifyMemory fun g =>
      { g with messageReceivedCount1 := g.messageReceivedCount1 + 1 }).inMsghlr
    let mId ← messageField DataMessage.offId
    let g ← loadMemory.inMsghlr
    if mId ≠ g.sequenceRd then
      compareError
    else
      let dataLength := g.sequenceRd % 2048
      let mLength ← messageField 0
      if mLength ≠ dataLength then
        compareError
      else
        let same ← compareData (g.sequenceRd % 256) 0 dataLength.toNat
        if same = false then
          compareError
        else
          (modifyMemory fun g =>
            { g with sequenceRd := g.sequenceRd + 1 }).inMsghlr
          return true

/-- The message that `kucomms_work_hlr` makes. -/
def moduleMessage (sequenceWr : UInt64) : DataMessage :=
  .make (sequenceWr % 2048) 1 sequenceWr 0
    (fun _ => (sequenceWr % 256).toUInt8)

/-- `kucomms_work_hlr`, when `vmalloc` has memory for the message. -/
def kucommsWorkHlr : HandlerProg Globals Bool := do
  let g ← loadMemory
  if g.firstMessageReceived = false then
    return false
  else
    let ok ← addMessage 0 (moduleMessage g.sequenceWr)
    countAddError ok
    modifyMemory fun g => { g with messageSentCount1 := g.messageSentCount1 + 1 }
    modifyMemory fun g => { g with sequenceWr := g.sequenceWr + 1 }
    return false

/-! ## The program -/

/-- `memcmp` of the bytes `buf` with those of `*message` from the `k`-th on;
whether it returns 0. -/
def memcmpMessage : List UInt8 → ℕ → MsghlrProg Globals Bool
  | [], _ => return true
  | b :: buf, k => do
    let c ← messageByte k
    if b ≠ c then
      return false
    else
      memcmpMessage buf (k + 1)

/-- `KuCommsMessageHandler::hlr` -/
def messageHandlerHlr : MsghlrProg Globals Bool := do
  let mType ← messageField DataMessage.offType
  if mType = 1 then
    echoMessage
      (fun g => { g with messageReceivedCount1 := g.messageReceivedCount1 + 1 })
      (fun g => { g with messageSentCount1 := g.messageSentCount1 + 1 })
  else
    (modifyMemory fun g =>
      { g with messageReceivedCount0 := g.messageReceivedCount0 + 1 }).inMsghlr
    let mId ← messageField DataMessage.offId
    let g ← loadMemory.inMsghlr
    if mId ≠ g.sequenceRd then
      compareError
    else
      let msgbuf := g.idToMessage g.sequenceRd
      let mLength ← messageField 0
      if msgbuf.length ≠ (mLength + sizeofMessage).toNat then
        compareError
      else
        let same ← memcmpMessage msgbuf 0
        if same = false then
          compareError
        else
          (modifyMemory fun g => { g with
            idToMessage := Function.update g.idToMessage g.sequenceRd [] }
          ).inMsghlr
          (modifyMemory fun g =>
            { g with sequenceRd := g.sequenceRd + 1 }).inMsghlr
          return true

/-- The data that `format_message` fills in, from `u0` on. -/
def randomData : ℕ → ℕ → Bytes → HandlerProg Globals Bytes
  | _, 0, data => return data
  | u0, n + 1, data => do
    let r ← randInt
    randomData (u0 + 1) n (Function.update data u0 (.ofNat (r % 256)))

/-- `format_message` of a new message. -/
def formatMessage (dataLength id : UInt64) : HandlerProg Globals DataMessage := do
  let data ← randomData 0 dataLength.toNat (fun _ => 0)
  return .make dataLength 0 id 0 data

/-- A message of `KuCommsWorkHandler::hlr`. -/
def sendRandom : HandlerProg Globals Unit := do
  let r ← randInt
  let g ← loadMemory
  let msg ← formatMessage (.ofNat (r % 2048)) g.sequenceWr
  modifyMemory fun g => { g with
    idToMessage := Function.update g.idToMessage g.sequenceWr msg.bytes }
  let ok ← addMessage 0 msg
  countAddError ok
  modifyMemory fun g => { g with messageSentCount0 := g.messageSentCount0 + 1 }
  modifyMemory fun g => { g with sequenceWr := g.sequenceWr + 1 }

/-- `n` of its messages. -/
def sendRandoms : ℕ → HandlerProg Globals Unit
  | 0 => return ()
  | n + 1 => do
    sendRandom
    sendRandoms n

/-- `KuCommsWorkHandler::hlr` -/
def workHandlerHlr : HandlerProg Globals Bool := do
  sendRandoms 4
  return false

/-! ## The two of them -/

/-- **The module and the program**, with the rings in the two halves of a
mapping. -/
def network (hz : UInt64) (vaddr : ℕ) (vaddrLen : UInt64) :
    Network Peer Globals :=
  peerNetwork vaddr vaddrLen
    (deviceNode hz vaddrLen vaddr (vaddr + (vaddrLen / 2).toNat)
      kucommsMessageHlr kucommsWorkHlr timerHlr)
    messageHandlerHlr workHandlerHlr timerHlr

/-- **The counters that the two of them print**, and the sequence numbers, are
such that nothing was lost so far: no addition has failed, and there have not
been so many messages that the numbers start again. -/
def NothingLost (s : NetState Peer Globals) : Prop :=
  (s.node .device).memory.messageAddErrorCount = 0
    ∧ (s.node .process).memory.messageAddErrorCount = 0
    ∧ (s.node .process).memory.sequenceWr ≠ 0xffffffffffffffff

end Longtest
