import Kucomms.QueueAdds
import Kucomms.QueueRefinement
import Kucomms.RingBounds

/-!
# `MessageQueueReader` and `MessageQueueWriter`

The classes user space works with: a `MessageQueueReader` and a
`MessageQueueWriter` on the two ends of a ring, each with a buffer of its own.
They call the functions that trust the length in the header, and make their
buffer as long as they find necessary before they do.

`reader_writer_refine_fifo`: on a ring that `init` has set up they are the
bounded FIFO of `Kucomms.Fifo`, with two differences that make them easier to
use. A message may be written by a handler, and there is no buffer to pass: a
`get` takes whatever message is at the head, and an `add_callback` refuses one
only for lack of room. So no buffer either class makes is ever too short.

A buffer may not be made at all: `resize` throws `bad_alloc` when there is no
memory, and `length_error` when it is asked for more bytes than a vector can
have. The exception leaves the function before it has touched the ring, and
the FIFO is as if there had been no call.
-/

open Prog

/-! ## The functions that trust the header -/

/-- A function that reads the length of the ring from the header. -/
def trusting {α : Type} (p : UInt64 → QProg α) : QProg α := do
  let queueLength ← loadField .length
  p queueLength

/-- `message_queue_get_avail` -/
def messageQueueGetAvail : QProg UInt64 := trusting messageQueueGetAvailL

/-- `message_queue_get_free` -/
def messageQueueGetFree : QProg UInt64 := trusting messageQueueGetFreeL

/-- `message_queue_add_begin` -/
def messageQueueAddBegin (dataLength : UInt64) : QProg (Option (Option ℕ)) :=
  trusting (fun queueLength => messageQueueAddBeginL queueLength dataLength)

/-- `message_queue_add_complete` -/
def messageQueueAddComplete (message : ℕ) : QProg Unit :=
  trusting (fun queueLength => messageQueueAddCompleteL queueLength message)

/-- `message_queue_add_callback` -/
def messageQueueAddCallback (hlr : InitMessageFn) (dataLength : UInt64)
    (buffer : Bytes) (bufferLen : UInt64) : QProg AddCallbackResult :=
  trusting (fun queueLength =>
    messageQueueAddCallbackL queueLength hlr dataLength buffer bufferLen)

/-- `message_queue_next_length` -/
def messageQueueNextLength : QProg (Option UInt64) :=
  trusting messageQueueNextLengthL

/-- `message_queue_get_begin` -/
def messageQueueGetBegin : QProg (Option (Option ℕ)) :=
  trusting messageQueueGetBeginL

/-- `message_queue_get_complete` -/
def messageQueueGetComplete (message : ℕ) : QProg Unit :=
  trusting (fun queueLength => messageQueueGetCompleteL queueLength message)

theorem trusting_run {α : Type} (p : UInt64 → QProg α)
    (h : MessageQueueHeader) :
    (trusting p).run QAct.exec h = (p h.mLength).run QAct.exec h := rfl

theorem messageQueueAdd_run (message : Bytes) (h : MessageQueueHeader) :
    (messageQueueAdd message).run QAct.exec h
      = (messageQueueAddL h.mLength message).run QAct.exec h :=
  trusting_run (fun queueLength => messageQueueAddL queueLength message) h

theorem messageQueueGet_run (buffer : Bytes) (bufferLen : UInt64)
    (h : MessageQueueHeader) :
    (messageQueueGet buffer bufferLen).run QAct.exec h
      = (messageQueueGetL h.mLength buffer bufferLen).run QAct.exec h :=
  trusting_run (fun queueLength => messageQueueGetL queueLength buffer bufferLen)
    h

/-! ## The classes -/

/-- **`std::vector<__u8>`**: memory, of which the first `size` bytes are its
own. -/
structure ByteVector where
  data : Bytes
  size : UInt64

namespace ByteVector

/-- A vector of no bytes. -/
def empty : ByteVector := ⟨fun _ => 0, 0⟩

/-- `max_size()` -/
def maxSize : UInt64 := 0x7fffffffffffffff

/-- `resize` to more bytes: those there were stay, new ones are zero. It throws
if they are more than a vector can have, or if the memory is not `granted`. -/
def resize (v : ByteVector) (granted : Bool) (n : UInt64) :
    Option ByteVector :=
  if n ≤ maxSize ∧ granted = true then
    some ⟨fun k => if k < v.size.toNat then v.data k else 0, n⟩
  else
    none

/-- The vector, resized to `n` bytes if it has fewer. -/
def atLeast (v : ByteVector) (granted : Bool) (n : UInt64) :
    Option ByteVector :=
  if v.size < n then v.resize granted n else some v

theorem toNat_maxSize : maxSize.toNat = 2 ^ 63 - 1 := by
  decide +kernel

theorem le_size_of_atLeast {v b : ByteVector} {granted : Bool} {n : UInt64}
    (h : v.atLeast granted n = some b) : n ≤ b.size := by
  unfold atLeast at h
  split at h
  · unfold resize at h
    split at h
    · obtain rfl := Option.some.inj h
      exact UInt64.le_refl n
    · exact nomatch h
  · next hle =>
    obtain rfl := Option.some.inj h
    exact UInt64.not_lt.mp hle

/-- **Only what cannot be granted throws.** -/
theorem atLeast_throws {v : ByteVector} {granted : Bool} {n : UInt64}
    (h : v.atLeast granted n = none) : ¬(n ≤ maxSize ∧ granted = true) := by
  unfold atLeast at h
  split at h
  · unfold resize at h
    split at h
    · exact nomatch h
    · assumption
  · exact nomatch h

end ByteVector

/-- `MessageQueueReader`, but for the pointer to the ring. -/
structure MessageQueueReader where
  mGetBuffer : ByteVector

/-- `MessageQueueWriter`, but for the pointer to the ring and the mutex. -/
structure MessageQueueWriter where
  mAddBuffer : ByteVector

/-- The buffer of a reader that is going to get a message. -/
def MessageQueueReader.bufferForRing (r : MessageQueueReader)
    (granted : Bool) : QProg (Option ByteVector) := do
  let mLength ← loadField .length
  if r.mGetBuffer.size < mLength then
    let mLength ← loadField .length
    return r.mGetBuffer.resize granted mLength
  else
    return some r.mGetBuffer

/-- `MessageQueueReader::get` of a pointer: the bytes at the pointer, which is
null if there is nothing to get. `none` stands for an exception. -/
def MessageQueueReader.get (r : MessageQueueReader) (granted : Bool) :
    QProg (Option (Option Bytes × MessageQueueReader)) := do
  match ← r.bufferForRing granted with
  | none => return none
  | some buffer =>
    let g ← messageQueueGet buffer.data buffer.size
    return some (if g.ok then some g.buffer else none,
      ⟨⟨g.buffer, buffer.size⟩⟩)

/-- `MessageQueueWriter::add_callback` of an `InitMessage`. -/
def MessageQueueWriter.addCallback (w : MessageQueueWriter)
    (initMessage : InitMessageFn) (dataLength : UInt64) (granted : Bool) :
    QProg (Option (Bool × MessageQueueWriter)) :=
  match w.mAddBuffer.atLeast granted (dataLength + sizeofMessage) with
  | none => return none
  | some buffer => do
    let r ← messageQueueAddCallback initMessage dataLength buffer.data
      buffer.size
    return some (r.ok, ⟨⟨r.buffer, buffer.size⟩⟩)

/-- What the caller of `add_begin` and `add_complete` does: it stores the
record in between. -/
def addRecordBetween (m : DataMessage) : QProg (Option (Option ℕ)) := do
  let r ← messageQueueAddBegin m.mem.mLength
  match r with
  | some (some slot) => do
    memcpyIn m.mem slot 0 m.size
    messageQueueAddComplete slot
    return r
  | r => return r

/-- What the caller of `get_begin` and `get_complete` does: it reads the
record in between. -/
def getRecordBetween : QProg (Option (Option DataMessage)) := do
  let r ← messageQueueGetBegin
  match r with
  | none => return none
  | some none => return some none
  | some (some slot) => do
    let m ← readSlot slot
    messageQueueGetComplete slot
    return some (some m)

/-! ## The classes as an object -/

/-- **A ring with a reader and a writer.** -/
structure QueueEnds where
  ring : MessageQueueHeader
  mqrd : MessageQueueReader
  mqwr : MessageQueueWriter

/-- **The calls of the two classes**, and whether the memory they ask for is
granted. -/
inductive EndCall where
  | add (m : DataMessage)
  /-- `add_callback` with a handler that is going to write `m`. -/
  | addCallback (initMessage : InitMessageFn) (m : DataMessage)
    (granted : Bool)
  /-- `add_begin`, the record stored, and `add_complete`. -/
  | addBetween (m : DataMessage)
  | get (granted : Bool)
  | getInto (buffer : Bytes) (bufferLen : UInt64)
  | nextLength
  /-- `get_begin`, the record read, and `get_complete`. -/
  | getBetween
  | getAvail
  | getFree

namespace EndCall

/-- What a call answers, and what it leaves of the buffers, unless it ends with
an exception. -/
def prog (r : MessageQueueReader) (w : MessageQueueWriter) : EndCall →
    QProg (Option
      (Fifo.Answer DataMessage × MessageQueueReader × MessageQueueWriter))
  | add m => return some (.added (← messageQueueAdd m.mem), r, w)
  | addCallback initMessage m granted => do
    let x ← w.addCallback initMessage m.mem.mLength granted
    return x.map fun x => (.added x.1, r, x.2)
  | addBetween m => return some (.reserved (← addRecordBetween m), r, w)
  | get granted => do
    let x ← r.get granted
    return x.map fun x => (.got (x.1.map DataMessage.ofMem) false, x.2, w)
  | getInto buffer bufferLen => do
    let g ← messageQueueGet buffer bufferLen
    return some (.got (if g.ok then some (DataMessage.ofMem g.buffer) else none)
      g.error, r, w)
  | nextLength => do
    let n ← messageQueueNextLength
    return some (.nextLength (n.map UInt64.toNat), r, w)
  | getBetween => return some (.shown (← getRecordBetween), r, w)
  | getAvail => return some (.cells (← messageQueueGetAvail).toNat, r, w)
  | getFree => return some (.cells (← messageQueueGetFree).toNat, r, w)

/-- **The classes as an object**, whose answer to a call that throws is
`none`. -/
def step : Object EndCall (Option (Fifo.Answer DataMessage)) QueueEnds :=
  fun c s =>
    match (c.prog s.mqrd s.mqwr).run QAct.exec s.ring with
    | (some x, ring) => (some x.1, ⟨ring, x.2.1, x.2.2⟩)
    | (none, ring) => (none, { s with ring := ring })

/-- The operation of the FIFO of `L` cells: a `get` has room for every
message. -/
def fifoOp (L : ℕ) : EndCall → Fifo.Op DataMessage
  | add m => .add m
  | addCallback _ m _ => .add m
  | addBetween m => .addInPlace m
  | get _ => .get L
  | getInto _ bufferLen => .get bufferLen.toNat
  | nextLength => .nextLength
  | getBetween => .getInPlace
  | getAvail => .getAvail
  | getFree => .getFree

/-- A message added is shorter than the address space, and a handler writes
its message. -/
def Valid : EndCall → Prop
  | add m | addBetween m => m.size < 2 ^ 64
  | addCallback initMessage m _ => m.size < 2 ^ 64 ∧ Writes initMessage m.mem
  | _ => True

/-- **What the call needs is granted**: memory for its buffer, which is not
longer than a vector may be. -/
def Granted : EndCall → Prop
  | addCallback _ m granted => m.size < 2 ^ 63 ∧ granted = true
  | get granted => granted = true
  | _ => True

end EndCall

/-! ## No function stores the length -/

/-- Anything but a store of the length. -/
def QAct.KeepsLength : QAct → Prop
  | .storeField .length _ => False
  | _ => True

section KeepsLength

variable {α : Type} {queueLength : UInt64}

theorem run_mLength {p : QProg α} (hp : p.All QAct.KeepsLength)
    (h : MessageQueueHeader) : (p.run QAct.exec h).2.mLength = h.mLength := by
  induction p generalizing h with
  | ret v => rfl
  | act a k ih =>
    have hexec : (QAct.exec a h).2.mLength = h.mLength := by
      cases a with
      | storeField f v =>
        cases f with
        | length => exact hp.1.elim
        | _ => rfl
      | _ => rfl
    exact (ih _ (hp.2 _) _).trans hexec

theorem QAct.Copies.keepsLength {a : QAct} (ha : a.Copies) :
    a.KeepsLength := by
  cases a with
  | storeField f v => exact ha.elim
  | _ => trivial

theorem loadField_keepsLength (f : HeaderField) :
    (loadField f).All QAct.KeepsLength := ⟨trivial, fun _ => trivial⟩

theorem addL_keepsLength (message : Bytes) :
    (messageQueueAddL queueLength message).All QAct.KeepsLength := by
  rw [messageQueueAddL_eq]
  refine ((copyMessageL_copies message).mono
    (fun _ => QAct.Copies.keepsLength)).bind (fun r => ?_)
  cases r with
  | none => trivial
  | some wr => exact ⟨trivial, fun _ => trivial⟩

theorem addBeginL_keepsLength (dataLength : UInt64) :
    (messageQueueAddBeginL queueLength dataLength).All QAct.KeepsLength :=
  (loadField_keepsLength _).bind (fun _ =>
    (loadField_keepsLength _).bind (fun _ =>
      .ite trivial (.ite trivial (.ite trivial trivial))))

theorem addCompleteL_keepsLength (slot : ℕ) :
    (messageQueueAddCompleteL queueLength slot).All QAct.KeepsLength :=
  ⟨trivial, fun _ => (loadField_keepsLength _).bind (fun _ =>
    .ite trivial ⟨trivial, fun _ => trivial⟩)⟩

theorem getL_keepsLength (buffer : Bytes) (bufferLen : UInt64) :
    (messageQueueGetL queueLength buffer bufferLen).All QAct.KeepsLength := by
  rw [messageQueueGetL_eq]
  refine ((copyHeadOutL_copies buffer bufferLen).mono
    (fun _ => QAct.Copies.keepsLength)).bind (fun r => ?_)
  obtain ⟨rd, g⟩ := r
  cases rd with
  | none => trivial
  | some rd => exact ⟨trivial, fun _ => trivial⟩

theorem copyHeader_keepsLength {dst : ℕ → CopyDst} {n u0 : ℕ} {rd : UInt64}
    {buffer : Bytes} :
    (copyHeader queueLength dst n u0 rd buffer).All QAct.KeepsLength :=
  (copyHeader_copies dst n u0 rd buffer).mono (fun _ => QAct.Copies.keepsLength)

theorem nextLengthL_keepsLength :
    (messageQueueNextLengthL queueLength).All QAct.KeepsLength :=
  (loadField_keepsLength _).bind (fun _ =>
    (loadField_keepsLength _).bind (fun _ =>
      .ite trivial (.ite trivial (.ite trivial
        (copyHeader_keepsLength.bind (fun head => by
          generalize head.2.mLength = mLength
          exact .ite trivial trivial))))))

theorem getBeginL_keepsLength :
    (messageQueueGetBeginL queueLength).All QAct.KeepsLength :=
  (loadField_keepsLength _).bind (fun _ =>
    (loadField_keepsLength _).bind (fun _ =>
      .ite trivial (.ite trivial (.ite trivial
        (copyHeader_keepsLength.bind (fun head => by
          generalize head.2.mLength = mLength
          exact .ite trivial (.ite trivial trivial)))))))

theorem getCompleteL_keepsLength (slot : ℕ) :
    (messageQueueGetCompleteL queueLength slot).All QAct.KeepsLength :=
  ⟨trivial, fun _ => (loadField_keepsLength _).bind (fun _ =>
    .ite trivial (.ite trivial ⟨trivial, fun _ => trivial⟩))⟩

theorem readSlot_keepsLength (slot : ℕ) :
    (readSlot slot).All QAct.KeepsLength :=
  ⟨trivial, fun _ => ((memcpyOut_copies _ _ _ _).mono
    (fun _ => QAct.Copies.keepsLength)).bind (fun _ => trivial)⟩

theorem memcpyIn_keepsLength (message : Bytes) (dst src n : ℕ) :
    (memcpyIn message dst src n).All QAct.KeepsLength :=
  (memcpyIn_copies message n dst src).mono (fun _ => QAct.Copies.keepsLength)

/-- No operation stores it. -/
theorem QueueOp.prog_keepsLength (op : QueueOp) :
    (op.prog queueLength).All QAct.KeepsLength := by
  cases op with
  | add m => exact (addL_keepsLength _).bind (fun _ => trivial)
  | addInPlace m =>
    refine All.bind ((addBeginL_keepsLength _).bind (fun r => ?_))
      (fun _ => trivial)
    match r with
    | none => trivial
    | some none => trivial
    | some (some slot) =>
      exact ((memcpyIn_keepsLength _ _ _ _).bind
        (fun _ => addCompleteL_keepsLength slot)).bind (fun _ => trivial)
  | get buffer bufferLen => exact (getL_keepsLength _ _).bind (fun _ => trivial)
  | nextLength => exact nextLengthL_keepsLength.bind (fun _ => trivial)
  | getInPlace =>
    refine All.bind (getBeginL_keepsLength.bind (fun r => ?_))
      (fun _ => trivial)
    match r with
    | none => trivial
    | some none => trivial
    | some (some slot) =>
      refine All.bind (All.bind (readSlot_keepsLength slot) (fun m => ?_))
        (fun _ => trivial)
      exact (getCompleteL_keepsLength slot).bind (fun _ => trivial)
  | getAvail => exact ⟨trivial, fun _ => ⟨trivial, fun _ => trivial⟩⟩
  | getFree => exact ⟨trivial, fun _ => ⟨trivial, fun _ => trivial⟩⟩

end KeepsLength

/-! ## The calls refine the FIFO's -/

/-- The ring of the two classes represents the records of the FIFO, and its
header says how long it is. -/
structure QueueEnds.Holds (queueLength : UInt64) (s : QueueEnds)
    (f : Fifo DataMessage) : Prop where
  ring : Abstracts queueLength.toNat s.ring f
  length : s.ring.mLength = queueLength

section Calls

variable {queueLength : UInt64} {s : QueueEnds} {f : Fifo DataMessage}
  {c : EndCall} {h : MessageQueueHeader}

/-- **A call refines the FIFO's**, or throws and changes nothing. -/
def EndCall.Refines (queueLength : UInt64) (c : EndCall) (s : QueueEnds)
    (f : Fifo DataMessage) : Prop :=
  (c.step s).1 = some (Fifo.step DataMessage.size queueLength.toNat
      (c.fifoOp queueLength.toNat) f).1
    ∧ (c.step s).2.Holds queueLength (Fifo.step DataMessage.size
      queueLength.toNat (c.fifoOp queueLength.toNat) f).2
  ∨ c.step s = (none, s) ∧ ¬c.Granted

/-- A call that is granted what it needs does not throw. -/
theorem EndCall.Refines.answers (h : c.Refines queueLength s f)
    (hc : c.Granted) :
    (c.step s).1 = some (Fifo.step DataMessage.size queueLength.toNat
        (c.fifoOp queueLength.toNat) f).1
      ∧ (c.step s).2.Holds queueLength (Fifo.step DataMessage.size
        queueLength.toNat (c.fifoOp queueLength.toNat) f).2 :=
  h.resolve_right (fun hthrows => hthrows.2 hc)

/-- A call that answers and leaves the ring as an operation does refines what
that operation refines. -/
theorem EndCall.refines_of_op (op : QueueOp) (hop : op.Valid)
    (hL : 0 < queueLength.toNat ∧ queueLength.toNat < 2 ^ 63)
    (hs : s.Holds queueLength f)
    (hfifo : op.fifoOp = c.fifoOp queueLength.toNat)
    (hrun : ((c.step s).1, (c.step s).2.ring)
      = (some (op.step queueLength s.ring).1, (op.step queueLength s.ring).2)) :
    c.Refines queueLength s f := by
  obtain ⟨hstep, habs⟩ := step_refines hL op s.ring f hop hs.ring
  have hkeep : (op.step queueLength s.ring).2.mLength = s.ring.mLength :=
    run_mLength op.prog_keepsLength s.ring
  obtain ⟨hans, hring⟩ := Prod.mk.inj hrun
  rw [← hring] at habs hkeep
  rw [hstep] at hans
  rw [hfifo] at hans habs
  exact .inl ⟨hans, habs, hkeep.trans hs.length⟩

/-- A record that is there fits in the ring. -/
theorem Abstracts.head_le {L : ℕ} {h : MessageQueueHeader} {m : DataMessage}
    {rest : List DataMessage} (ha : Abstracts L h f)
    (hf : f.records = m :: rest) : m.size ≤ L := by
  have hlt : used f.records < L := ha.rep.length_lt
  rw [hf, used_cons] at hlt
  omega

/-- So a `get` with that much room takes it. -/
theorem Abstracts.get_all {L limit : ℕ} {h : MessageQueueHeader}
    (ha : Abstracts L h f) (hle : L ≤ limit) :
    Fifo.step DataMessage.size L (.get limit) f
      = (.got f.records.head? false, match f.records with
        | [] => f
        | m :: rest => f.pop DataMessage.size L m rest) := by
  simp only [Fifo.step]
  cases hf : f.records with
  | nil => rfl
  | cons m rest =>
    rw [List.head?_cons]
    exact if_pos ((ha.head_le hf).trans hle)

/-- `MessageQueueReader::get` is `message_queue_get_l` with a buffer that is
as long as the ring, if it is granted one. -/
theorem MessageQueueReader.get_run (r : MessageQueueReader) (granted : Bool)
    (h : MessageQueueHeader) :
    (r.get granted).run QAct.exec h
      = match r.mGetBuffer.atLeast granted h.mLength with
        | none => (none, h)
        | some b =>
          let g := (messageQueueGetL h.mLength b.data b.size).run QAct.exec h
          (some (if g.1.ok then some g.1.buffer else none,
            ⟨⟨g.1.buffer, b.size⟩⟩), g.2) := by
  have hbuffer : (r.bufferForRing granted).run QAct.exec h
      = (r.mGetBuffer.atLeast granted h.mLength, h) := by
    show (if r.mGetBuffer.size < h.mLength then _ else _ :
      QProg (Option ByteVector)).run QAct.exec h = _
    rw [run_ite]
    unfold ByteVector.atLeast
    split
    · rfl
    · rfl
  unfold MessageQueueReader.get
  rw [run_bind, hbuffer]
  cases r.mGetBuffer.atLeast granted h.mLength with
  | none => rfl
  | some b =>
    dsimp only
    rw [run_bind, messageQueueGet_run]
    rfl

theorem EndCall.get_refines {granted : Bool}
    (hL : 0 < queueLength.toNat ∧ queueLength.toNat < 2 ^ 63)
    (hs : s.Holds queueLength f) :
    (EndCall.get granted).Refines queueLength s f := by
  obtain ⟨habs, rfl⟩ := hs
  have hget := s.mqrd.get_run granted s.ring
  cases hbuffer : s.mqrd.mGetBuffer.atLeast granted s.ring.mLength with
  | none =>
    rw [hbuffer] at hget
    refine .inr ⟨?_, fun hgranted => ?_⟩
    · simp only [EndCall.step, EndCall.prog, run_bind, pure_eq_ret, run_ret,
        hget, Option.map_none]
    · refine ByteVector.atLeast_throws hbuffer ⟨?_, hgranted⟩
      rw [UInt64.le_iff_toNat_le]
      rw [ByteVector.toNat_maxSize]
      omega
  | some b =>
    have hb := UInt64.le_iff_toNat_le.mp (ByteVector.le_size_of_atLeast hbuffer)
    rw [hbuffer] at hget
    have hop : StepRefines s.ring.mLength (.get b.data b.size) s.ring f :=
      step_get hL.2 habs
    have hkeep : ((QueueOp.prog s.ring.mLength (.get b.data b.size)).run
        QAct.exec s.ring).2.mLength = s.ring.mLength :=
      run_mLength (QueueOp.prog_keepsLength _) s.ring
    unfold StepRefines at hop
    simp only [QueueOp.fifoOp, habs.get_all hb, QueueOp.step, QueueOp.prog,
      run_bind, pure_eq_ret, run_ret] at hop hkeep
    unfold EndCall.Refines
    simp only [EndCall.fifoOp]
    rw [habs.get_all le_rfl]
    simp only [EndCall.step, EndCall.prog, run_bind, pure_eq_ret, run_ret,
      hget, Option.map_some]
    obtain ⟨hans, hleft⟩ := hop
    refine .inl ⟨congrArg some ?_, hleft, hkeep⟩
    injection hans with hm herr
    rw [← hm]
    split
    · rfl
    · rfl

/-- `MessageQueueWriter::add_callback` is `message_queue_add_callback_l` with
a buffer that is as long as the message, if it is granted one. -/
theorem MessageQueueWriter.addCallback_run (w : MessageQueueWriter)
    (initMessage : InitMessageFn) (dataLength : UInt64) (granted : Bool)
    (h : MessageQueueHeader) :
    (w.addCallback initMessage dataLength granted).run QAct.exec h
      = match w.mAddBuffer.atLeast granted (dataLength + sizeofMessage) with
        | none => (none, h)
        | some b =>
          let x := (messageQueueAddCallbackL h.mLength initMessage dataLength
            b.data b.size).run QAct.exec h
          (some (x.1.ok, ⟨⟨x.1.buffer, b.size⟩⟩), x.2) := by
  unfold MessageQueueWriter.addCallback
  cases w.mAddBuffer.atLeast granted (dataLength + sizeofMessage) with
  | none => rfl
  | some b =>
    dsimp only
    rw [run_bind, messageQueueAddCallback, trusting_run]
    rfl

/-- `MessageQueueWriter::add_callback` -/
theorem EndCall.addCallback_refines {initMessage : InitMessageFn}
    {m : DataMessage} {granted : Bool}
    (hL : 0 < queueLength.toNat ∧ queueLength.toNat < 2 ^ 63)
    (hm : m.size < 2 ^ 64) (hinit : Writes initMessage m.mem)
    (hs : s.Holds queueLength f) :
    (EndCall.addCallback initMessage m granted).Refines queueLength s f := by
  obtain ⟨habs, rfl⟩ := hs
  have hsize := m.size_eq
  have hadd := s.mqwr.addCallback_run initMessage m.mem.mLength granted s.ring
  cases hbuffer : s.mqwr.mAddBuffer.atLeast granted
      (m.mem.mLength + sizeofMessage) with
  | none =>
    rw [hbuffer] at hadd
    refine .inr ⟨?_, fun hgranted => ?_⟩
    · simp only [EndCall.step, EndCall.prog, run_bind, pure_eq_ret, run_ret,
        hadd, Option.map_none]
    · refine ByteVector.atLeast_throws hbuffer ⟨?_, hgranted.2⟩
      have hlt : m.size < 2 ^ 63 := hgranted.1
      rw [UInt64.le_iff_toNat_le, toNat_add_header (by omega),
        ByteVector.toNat_maxSize]
      omega
  | some b =>
    have hb := ByteVector.le_size_of_atLeast hbuffer
    rw [hbuffer] at hadd
    rcases hx : (messageQueueAddCallbackL s.ring.mLength initMessage
      m.mem.mLength b.data b.size).run QAct.exec s.ring with ⟨r, h'⟩
    have hop : (messageQueueAddL s.ring.mLength m.mem).run QAct.exec s.ring
        = (r.ok, h') :=
      (callback_agrees hL.2 (by omega) hinit b.data hb hx).symm
    simp only [hx] at hadd
    refine EndCall.refines_of_op (.add m) hm hL ⟨habs, rfl⟩ rfl ?_
    simp only [EndCall.step, EndCall.prog, QueueOp.step, QueueOp.prog,
      run_bind, pure_eq_ret, run_ret, hadd, hop, Option.map_some]

/-- The caller of `add_begin` and `add_complete` adds in place. -/
theorem addRecordBetween_run (m : DataMessage) (h : MessageQueueHeader) :
    (addRecordBetween m).run QAct.exec h
      = (addRecordInPlace h.mLength m).run QAct.exec h := by
  unfold addRecordBetween addRecordInPlace
  rw [run_bind, run_bind, messageQueueAddBegin, trusting_run,
    messageQueueAddBeginL_run]
  generalize (if h.HasRoom _ _ then some _ else none :
    Option (Option ℕ)) = r
  match r with
  | none => rfl
  | some none => rfl
  | some (some slot) =>
    have hkeep := run_mLength (memcpyIn_keepsLength m.mem slot 0 m.size) h
    show (memcpyIn m.mem slot 0 m.size >>= fun _ =>
        messageQueueAddComplete slot >>= fun _ => .ret _).run QAct.exec h
      = (fillAndComplete h.mLength m slot >>= fun _ => .ret _).run QAct.exec h
    unfold fillAndComplete
    rw [bind_assoc, run_bind, run_bind, run_bind, run_bind,
      messageQueueAddComplete, trusting_run, hkeep]

/-- The caller of `get_begin` and `get_complete` gets in place. -/
theorem getRecordBetween_run (hL : h.mLength.toNat < 2 ^ 63) :
    getRecordBetween.run QAct.exec h
      = (getRecordInPlace h.mLength).run QAct.exec h := by
  unfold getRecordBetween getRecordInPlace
  rw [run_bind, run_bind, messageQueueGetBegin, trusting_run,
    messageQueueGetBeginL_run h hL]
  generalize (if h.HasHead h.mLength ∧ h.headSize h.mLength < h.mLength then
    some _ else none : Option (Option ℕ)) = r
  match r with
  | none => rfl
  | some none => rfl
  | some (some slot) =>
    have hkeep := run_mLength (readSlot_keepsLength slot) h
    show (readSlot slot >>= fun m =>
        messageQueueGetComplete slot >>= fun _ => .ret (some (some m))).run
          QAct.exec h
      = (readAndComplete h.mLength slot >>= fun m => .ret (some (some m))).run
          QAct.exec h
    unfold readAndComplete
    rw [bind_assoc, run_bind, run_bind, run_bind, bind_assoc, run_bind,
      messageQueueGetComplete, trusting_run, hkeep]
    rfl

/-- **Every call refines the FIFO's**, but for those that throw. -/
theorem EndCall.refines
    (hL : 0 < queueLength.toNat ∧ queueLength.toNat < 2 ^ 63) :
    EndCall.step.RefinesOrThrows (fun c => Fifo.step DataMessage.size
      queueLength.toNat (c.fifoOp queueLength.toNat)) EndCall.Valid
      EndCall.Granted (QueueEnds.Holds queueLength) := by
  rintro c s f hc ⟨habs, rfl⟩
  show c.Refines s.ring.mLength s f
  cases c with
  | add m =>
    refine refines_of_op (.add m) hc hL ⟨habs, rfl⟩ rfl ?_
    simp only [EndCall.step, EndCall.prog, QueueOp.step, QueueOp.prog,
      run_bind, pure_eq_ret, run_ret, messageQueueAdd_run]
  | addCallback initMessage m granted =>
    exact addCallback_refines hL hc.1 hc.2 ⟨habs, rfl⟩
  | addBetween m =>
    refine refines_of_op (.addInPlace m) hc hL ⟨habs, rfl⟩ rfl ?_
    simp only [EndCall.step, EndCall.prog, QueueOp.step, QueueOp.prog,
      run_bind, pure_eq_ret, run_ret, addRecordBetween_run]
  | get granted => exact get_refines hL ⟨habs, rfl⟩
  | getInto buffer bufferLen =>
    refine refines_of_op (.get buffer bufferLen) hc hL ⟨habs, rfl⟩ rfl ?_
    simp only [EndCall.step, EndCall.prog, QueueOp.step, QueueOp.prog,
      run_bind, pure_eq_ret, run_ret, messageQueueGet_run]
  | nextLength =>
    refine refines_of_op .nextLength hc hL ⟨habs, rfl⟩ rfl ?_
    simp only [EndCall.step, EndCall.prog, QueueOp.step, QueueOp.prog,
      run_bind, pure_eq_ret, run_ret, messageQueueNextLength, trusting_run]
  | getBetween =>
    refine refines_of_op .getInPlace hc hL ⟨habs, rfl⟩ rfl ?_
    simp only [EndCall.step, EndCall.prog, QueueOp.step, QueueOp.prog,
      run_bind, pure_eq_ret, run_ret, getRecordBetween_run hL.2]
  | getAvail =>
    exact refines_of_op .getAvail hc hL ⟨habs, rfl⟩ rfl rfl
  | getFree =>
    exact refines_of_op .getFree hc hL ⟨habs, rfl⟩ rfl rfl

end Calls

/-- `message_queue_init` leaves an empty FIFO. -/
theorem QueueEnds.Holds.init {bufferLength : UInt64}
    (h32 : 32 < bufferLength.toNat) (h63 : bufferLength.toNat < 2 ^ 63)
    (s : QueueEnds) :
    ({ s with ring := ((messageQueueInit bufferLength).run QAct.exec s.ring).2 }
      : QueueEnds).Holds (messageQueueGetQueueLength bufferLength) ⟨0, []⟩ :=
  ⟨⟨(Traced.Inv.init (queueLength_bounds h32 h63).1 bufferLength s.ring).rep,
    rfl⟩, rfl⟩

/-- **A reader and a writer refine a bounded FIFO.** Once `init` has set up
the ring, any list of calls, whatever buffers the two start with, and whatever
memory they are granted: the calls that do not throw get the answers of the
FIFO whose `get` has room for every message; the others change nothing, and
are ones that were refused the memory for a buffer, or asked for more than a
vector can have; the ring represents the records of the FIFO, and its header
still has its length. -/
theorem reader_writer_refine_fifo {bufferLength : UInt64}
    (h32 : 32 < bufferLength.toNat) (h63 : bufferLength.toNat < 2 ^ 63)
    (s : QueueEnds) {calls : List EndCall} (hcalls : ∀ c ∈ calls, c.Valid) :
    let queueLength := messageQueueGetQueueLength bufferLength
    let ends := EndCall.step.run calls
      { s with ring :=
        ((messageQueueInit bufferLength).run QAct.exec s.ring).2 }
    let fifo := Object.run (fun c : EndCall => Fifo.step DataMessage.size
      queueLength.toNat (c.fifoOp queueLength.toNat))
      (Object.carriedOut calls ends.1) ⟨0, []⟩
    ends.1.reduceOption = fifo.1
      ∧ (∀ p ∈ calls.zip ends.1, p.2 = none → ¬p.1.Granted)
      ∧ Represents queueLength.toNat ends.2.ring fifo.2.records
      ∧ ends.2.ring.mLength = queueLength := by
  intro queueLength ends fifo
  obtain ⟨hans, habs, hthrows⟩ := Object.RefinesOrThrows.run
    (EndCall.refines (queueLength_bounds h32 h63)) hcalls
    (QueueEnds.Holds.init h32 h63 s)
  exact ⟨hans, hthrows, habs.ring.rep, habs.length⟩

set_option maxRecDepth 8000 in
/-- Messages through a ring of 100 bytes, between a reader and a writer that
have no buffers yet: one that a handler writes, after a first attempt for
which there was no memory, and one that is copied. -/
theorem reader_writer_refine_fifo_two_messages :
    (EndCall.step.run
      [.addCallback (testInitMessage (DataMessage.ofData [5, 6, 7]).mem)
          (.ofData [5, 6, 7]) false,
        .addCallback (testInitMessage (DataMessage.ofData [5, 6, 7]).mem)
          (.ofData [5, 6, 7]) true,
        .add (.ofData [8, 9]), .get false, .get true, .get true]
      ⟨((messageQueueInit 132).run QAct.exec .zeroed).2, ⟨.empty⟩,
        ⟨.empty⟩⟩).1.reduceOption
      = [.added true, .added true, .got (some (.ofData [5, 6, 7])) false,
        .got (some (.ofData [8, 9])) false] := by
  have hvalid : ∀ c ∈ [EndCall.addCallback
      (testInitMessage (DataMessage.ofData [5, 6, 7]).mem) (.ofData [5, 6, 7])
      false, .addCallback (testInitMessage (DataMessage.ofData [5, 6, 7]).mem)
        (.ofData [5, 6, 7]) true,
      .add (.ofData [8, 9]), .get false, .get true, .get true],
      c.Valid := by
    have hsize : (DataMessage.ofData [5, 6, 7]).size < 2 ^ 64
      ∧ (DataMessage.ofData [8, 9]).size < 2 ^ 64 := by decide +kernel
    intro c hc
    simp only [List.mem_cons, List.not_mem_nil, or_false] at hc
    rcases hc with rfl | rfl | rfl | rfl | rfl | rfl
    · exact ⟨hsize.1, testInitMessage_writes _⟩
    · exact ⟨hsize.1, testInitMessage_writes _⟩
    · exact hsize.2
    · trivial
    · trivial
    · trivial
  exact (reader_writer_refine_fifo (by decide) (by decide)
    ⟨.zeroed, ⟨.empty⟩, ⟨.empty⟩⟩ hvalid).1.trans rfl
