import Mathlib.Data.Nat.Digits.Defs
import Mathlib.Logic.Function.Basic
import Kucomms.Prog

/-!
# The message queue

`common/message_queue.c`: a ring of variable-length records in memory two
sides share. Each record is a `struct Message` header of 32 bytes followed by
`m_length` bytes of data, and may straddle the end of the ring anywhere.

The functions below are the `_l` family of the source, which gets the length
of the ring as an argument and never trusts the one in the shared header.
Each is a `Prog` over the accesses it makes to the ring, in the order the C
makes them: the index loads and stores are single actions, and a `memcpy` is
one action per byte. Memory only the caller sees – the message to add, the
buffer to fill, a local `struct Message` – is an ordinary value, and the copy
of a byte into it names the place it goes to.

All arithmetic on lengths and indices is on `UInt64`, so it wraps as it does
in C.
-/

/-! ## Memory and messages -/

/-- Memory as seen through a pointer: the byte at each offset. -/
abbrev Bytes : Type := ℕ → UInt8

/-- The 64-bit word at a pointer, in the byte order of the machine. -/
def Bytes.load64 (p : Bytes) : UInt64 :=
  UInt64.ofNat (Nat.ofDigits 256 ((List.range 8).map (fun k => (p k).toNat)))

/-- The field `m_length` of the `struct Message` at a pointer: the number of
data bytes behind the header. It is the first field. -/
def Bytes.mLength (p : Bytes) : UInt64 := p.load64

/-- Only the eight bytes of the field matter. -/
theorem Bytes.mLength_congr {p p' : Bytes} (h : ∀ k < 8, p k = p' k) :
    p.mLength = p'.mLength := by
  unfold mLength load64
  rw [List.map_congr_left (fun k hk => by rw [h k (List.mem_range.mp hk)])]

/-- `sizeof(struct Message)`: four 64-bit fields, the data not counted. -/
def sizeofMessage : UInt64 := 32

/-- `sizeof(struct MessageQueueHeader)`: four 64-bit fields. -/
def sizeofMessageQueueHeader : UInt64 := 32

/-- **A message**: the bytes of its header and data, as long as its own
`m_length` says. This is what `DataMessage` builds in user space, and the
content of any memory that holds a `struct Message` with its data. -/
structure DataMessage where
  /-- Header and data. -/
  bytes : List UInt8
  /-- `m_length` is the number of data bytes. -/
  length_eq : bytes.length
    = (Bytes.mLength (fun k => bytes.getD k 0)).toNat + 32

namespace DataMessage

/-- The memory a pointer to the message shows. -/
def mem (m : DataMessage) : Bytes := fun k => m.bytes.getD k 0

/-- Header and data together: what `messageSize` is in the source. -/
def size (m : DataMessage) : ℕ := m.bytes.length

/-- The message in memory at a pointer. -/
def ofMem (p : Bytes) : DataMessage where
  bytes := (List.range (p.mLength.toNat + 32)).map p
  length_eq := by
    have h : Bytes.mLength (fun k =>
        ((List.range (p.mLength.toNat + 32)).map p).getD k 0) = p.mLength := by
      refine Bytes.mLength_congr (fun k hk => ?_)
      rw [List.getD_eq_getElem?_getD, List.getElem?_map,
        List.getElem?_range (by omega), Option.map_some, Option.getD_some]
    rw [h, List.length_map, List.length_range]

/-- A message of no data, all fields zero. -/
def empty : DataMessage where
  bytes := List.replicate 32 0
  length_eq := by decide +kernel

/-- A message of a few bytes of data, whose other fields are zero. -/
def ofData (data : List UInt8) : DataMessage :=
  .ofMem fun k => if k = 0 then UInt8.ofNat data.length
    else if k < 32 then 0 else data.getD (k - 32) 0

end DataMessage

/-! ## The ring and the accesses to it -/

/-- `struct MessageQueueHeader`, with the ring behind it. -/
structure MessageQueueHeader where
  mMagic : UInt64
  mLength : UInt64
  /-- Where the reader continues. -/
  mRd : UInt64
  /-- Where the writer continues. -/
  mWr : UInt64
  /-- The bytes from `m_queue` on. -/
  mQueue : Bytes

/-- Memory full of zeros, as `vmalloc_user` returns it. -/
def MessageQueueHeader.zeroed : MessageQueueHeader := ⟨0, 0, 0, 0, fun _ => 0⟩

/-- The fields of the header. -/
inductive HeaderField where
  | magic | length | rd | wr
  deriving DecidableEq

namespace MessageQueueHeader

/-- Read a field. -/
def get (h : MessageQueueHeader) : HeaderField → UInt64
  | .magic => h.mMagic
  | .length => h.mLength
  | .rd => h.mRd
  | .wr => h.mWr

@[simp] theorem get_rd (h : MessageQueueHeader) : h.get .rd = h.mRd := rfl

@[simp] theorem get_wr (h : MessageQueueHeader) : h.get .wr = h.mWr := rfl

/-- Write a field. -/
def set (h : MessageQueueHeader) (v : UInt64) :
    HeaderField → MessageQueueHeader
  | .magic => { h with mMagic := v }
  | .length => { h with mLength := v }
  | .rd => { h with mRd := v }
  | .wr => { h with mWr := v }

/-- The memory a pointer to the byte `off` of the ring shows. -/
def slot (h : MessageQueueHeader) (off : ℕ) : Bytes := fun k => h.mQueue (off + k)

end MessageQueueHeader

/-- Where a byte copied out of the ring goes. -/
inductive CopyDst where
  /-- A `struct Message` on the stack. -/
  | message (k : ℕ)
  /-- The caller's buffer. -/
  | buffer (k : ℕ)
  /-- The kernel's copy of a message, at `cbdata.message`. -/
  | cbdata (k : ℕ)

/-- **The accesses to a ring.** -/
inductive QAct where
  /-- Load a field of the header. -/
  | loadField (f : HeaderField)
  /-- Store a field of the header. -/
  | storeField (f : HeaderField) (v : UInt64)
  /-- Copy the byte `src` of the ring to `dst`. -/
  | copyOut (dst : CopyDst) (src : ℕ)
  /-- Store a byte of the ring. -/
  | storeByte (dst : ℕ) (b : UInt8)
  /-- Load the word at the byte `src` of the ring, as a read of `m_length`
  through a pointer into the ring does. -/
  | loadWord (src : ℕ)

/-- The answer to an access. -/
@[reducible] def QAct.Res : QAct → Type
  | .loadField _ => UInt64
  | .storeField _ _ => Unit
  | .copyOut _ _ => UInt8
  | .storeByte _ _ => Unit
  | .loadWord _ => UInt64

/-- What an access does to the ring. -/
def QAct.exec : (a : QAct) → MessageQueueHeader → a.Res × MessageQueueHeader
  | .loadField f, h => (h.get f, h)
  | .storeField f v, h => ((), h.set v f)
  | .copyOut _ src, h => (h.mQueue src, h)
  | .storeByte dst b, h =>
    ((), { h with mQueue := Function.update h.mQueue dst b })
  | .loadWord src, h => ((h.slot src).load64, h)

/-- A function of `message_queue.c`. -/
abbrev QProg : Type → Type := Prog QAct QAct.Res

def loadField (f : HeaderField) : QProg UInt64 := .act (.loadField f) .ret

def storeField (f : HeaderField) (v : UInt64) : QProg Unit :=
  .act (.storeField f v) .ret

def copyOut (dst : CopyDst) (src : ℕ) : QProg UInt8 :=
  .act (.copyOut dst src) .ret

def storeByte (dst : ℕ) (b : UInt8) : QProg Unit :=
  .act (.storeByte dst b) .ret

def loadWord (src : ℕ) : QProg UInt64 := .act (.loadWord src) .ret

/-! ## Copying -/

/-- `memcpy` of `n` bytes of private memory into the ring. -/
def memcpyIn (message : Bytes) : ℕ → ℕ → ℕ → QProg Unit
  | _, _, 0 => return ()
  | dst, src, n + 1 => do
    storeByte dst (message src)
    memcpyIn message (dst + 1) (src + 1) n

/-- `memcpy` of `n` bytes of the ring into the caller's buffer. -/
def memcpyOut : ℕ → ℕ → ℕ → Bytes → QProg Bytes
  | _, _, 0, buffer => return buffer
  | dst, src, n + 1, buffer => do
    let b ← copyOut (.buffer dst) src
    memcpyOut (dst + 1) (src + 1) n (Function.update buffer dst b)

/-- The copy of `messageSize` bytes of a message to the index `wr`: in one
piece, or around the end of the ring in two. -/
def copyMessageIn (queueLength wr : UInt64) (message : Bytes)
    (messageSize : UInt64) : QProg Unit :=
  let headSize := queueLength - wr
  if headSize ≥ messageSize then
    memcpyIn message wr.toNat 0 messageSize.toNat
  else do
    memcpyIn message wr.toNat 0 headSize.toNat
    memcpyIn message 0 headSize.toNat (messageSize - headSize).toNat

/-- The copy of `mLength` data bytes from the index `rd` to behind the header
in `buffer`: in one piece, or around the end of the ring in two. -/
def copyDataOut (queueLength rd mLength : UInt64) (buffer : Bytes) :
    QProg Bytes :=
  let headSize := queueLength - rd
  if headSize ≥ mLength then
    memcpyOut 32 rd.toNat mLength.toNat buffer
  else do
    let buffer ← memcpyOut 32 rd.toNat headSize.toNat buffer
    memcpyOut (32 + headSize.toNat) 0 (mLength - headSize).toNat buffer

/-- The loop that copies a header out of the ring byte by byte, the read
index wrapping at every step: `n` bytes from the `u0`-th on. -/
def copyHeader (queueLength : UInt64) (dst : ℕ → CopyDst) :
    ℕ → ℕ → UInt64 → Bytes → QProg (UInt64 × Bytes)
  | 0, _, rd, buffer => return (rd, buffer)
  | n + 1, u0, rd, buffer => do
    let b ← copyOut (dst u0) rd.toNat
    copyHeader queueLength dst n (u0 + 1) ((rd + 1) % queueLength)
      (Function.update buffer u0 b)

/-! ## Setting up a ring, and its free and used parts -/

def messageQueueGetQueueLength (bufferLength : UInt64) : UInt64 :=
  bufferLength - sizeofMessageQueueHeader

def messageQueueInit (bufferLength : UInt64) : QProg Bool := do
  storeField .magic 0x1122334455667788
  storeField .length (messageQueueGetQueueLength bufferLength)
  storeField .rd 0
  storeField .wr 0
  return true

def messageQueueGetAvailLBase (queueLength rd wr : UInt64) : UInt64 :=
  if rd ≥ queueLength then 0
  else if wr ≥ queueLength then 0
  else if rd = wr then 0
  else if wr > rd then wr - rd
  else queueLength + wr - rd

def messageQueueGetAvailL (queueLength : UInt64) : QProg UInt64 := do
  let rd ← loadField .rd
  let wr ← loadField .wr
  return messageQueueGetAvailLBase queueLength rd wr

def messageQueueGetFreeLBase (queueLength rd wr : UInt64) : UInt64 :=
  queueLength - 1 - messageQueueGetAvailLBase queueLength rd wr

def messageQueueGetFreeL (queueLength : UInt64) : QProg UInt64 := do
  let rd ← loadField .rd
  let wr ← loadField .wr
  return messageQueueGetFreeLBase queueLength rd wr

/-! ## Adding a message -/

/-- `message_queue_add_l`: copy a message into the ring, in one piece or
around its end, and publish it. -/
def messageQueueAddL (queueLength : UInt64) (message : Bytes) :
    QProg Bool := do
  let messageSize := message.mLength + sizeofMessage
  let rd ← loadField .rd
  let wr ← loadField .wr
  if messageSize > messageQueueGetFreeLBase queueLength rd wr then
    return false
  else if wr ≥ queueLength then
    return false
  else
    copyMessageIn queueLength wr message messageSize
    storeField .wr ((wr + messageSize) % queueLength)
    return true

/-- `message_queue_add_begin_l`: reserve a place in the ring. `none` is the
return value `false`; otherwise the answer is the pointer stored in
`*pmessage`, null if the record would straddle the end of the ring. -/
def messageQueueAddBeginL (queueLength dataLength : UInt64) :
    QProg (Option (Option ℕ)) := do
  let messageSize := dataLength + sizeofMessage
  let rd ← loadField .rd
  let wr ← loadField .wr
  if messageSize > messageQueueGetFreeLBase queueLength rd wr then
    return none
  else if wr ≥ queueLength then
    return none
  else if queueLength - wr ≥ messageSize then
    return some (some wr.toNat)
  else
    return some none

/-- `message_queue_add_complete_l`: publish the record at `message`, by the
`m_length` found there. -/
def messageQueueAddCompleteL (queueLength : UInt64) (message : ℕ) :
    QProg Unit := do
  let mLength ← loadWord message
  let messageSize := mLength + sizeofMessage
  let wr ← loadField .wr
  if wr ≥ queueLength then
    return ()
  else
    storeField .wr ((wr + messageSize) % queueLength)

/-! ## Adding a message that a handler writes -/

/-- What a handler does through the pointer it is given: `k` is the offset
from the pointer. -/
inductive PtrAct where
  /-- Load the word at an offset. -/
  | load (k : ℕ)
  /-- Store a byte. -/
  | store (k : ℕ) (b : UInt8)

/-- The answer to an access. -/
@[reducible] def PtrAct.Res : PtrAct → Type
  | .load _ => UInt64
  | .store _ _ => Unit

/-- What an access does to the memory at the pointer. -/
def PtrAct.exec : (a : PtrAct) → Bytes → a.Res × Bytes
  | .load k, p => (Bytes.load64 (fun i => p (k + i)), p)
  | .store k b, p => ((), Function.update p k b)

/-- The same access through a pointer into the ring. -/
def PtrAct.inRing (slot : ℕ) : PtrAct → QAct
  | .load k => .loadWord (slot + k)
  | .store k b => .storeByte (slot + k) b

/-- Its answer. -/
def PtrAct.ofRing (slot : ℕ) : (a : PtrAct) → (a.inRing slot).Res → a.Res
  | .load _, r => r
  | .store _ _, r => r

/-- What is done through a pointer. -/
abbrev PtrProg : Type → Type := Prog PtrAct PtrAct.Res

/-- The same through a pointer into the ring. -/
def PtrProg.inRing {α : Type} (p : PtrProg α) (slot : ℕ) : QProg α :=
  p.embed (PtrAct.inRing slot) (PtrAct.ofRing slot)

/-- **`InitMessageFn`**: what a handler does with the pointer it is given, by
`dataLength`. Its `userData` is part of the handler. -/
abbrev InitMessageFn : Type := UInt64 → PtrProg Bool

/-- What `message_queue_add_callback_l` returns: its value, `*error` and the
buffer. -/
structure AddCallbackResult where
  ok : Bool
  error : Bool
  buffer : Bytes

/-- `message_queue_add_callback_l`: the handler writes the message in its
place in the ring, or to `buffer` if the record would straddle the end. -/
def messageQueueAddCallbackL (queueLength : UInt64) (hlr : InitMessageFn)
    (dataLength : UInt64) (buffer : Bytes) (bufferLen : UInt64) :
    QProg AddCallbackResult := do
  let messageSize := dataLength + sizeofMessage
  let r ← messageQueueAddBeginL queueLength dataLength
  match r with
  | none => return ⟨false, false, buffer⟩
  | some none =>
    if bufferLen < messageSize then
      return ⟨false, true, buffer⟩
    else
      let x := (hlr dataLength).run PtrAct.exec buffer
      if x.1 = false then
        return ⟨false, false, x.2⟩
      else
        let ok ← messageQueueAddL queueLength x.2
        return ⟨ok, false, x.2⟩
  | some (some slot) => do
    let ok ← (hlr dataLength).inRing slot
    if ok = false then
      return ⟨false, false, buffer⟩
    else
      messageQueueAddCompleteL queueLength slot
      return ⟨true, false, buffer⟩

/-! ## Getting a message -/

/-- What `message_queue_get_l` returns: its value, `*error` and the buffer. -/
structure GetResult where
  ok : Bool
  error : Bool
  buffer : Bytes

/-- `message_queue_get_l`: copy the message at the read index into `buffer`,
header first, and consume it. -/
def messageQueueGetL (queueLength : UInt64) (buffer : Bytes)
    (bufferLen : UInt64) : QProg GetResult := do
  let rd ← loadField .rd
  let wr ← loadField .wr
  if rd ≥ queueLength then
    return ⟨false, true, buffer⟩
  else if wr ≥ queueLength then
    return ⟨false, true, buffer⟩
  else if rd = wr then
    return ⟨false, false, buffer⟩
  else if bufferLen < sizeofMessage then
    return ⟨false, true, buffer⟩
  else
    let head ← copyHeader queueLength .buffer 32 0 rd buffer
    let rd := head.1
    let buffer := head.2
    -- the copies below start at `buffer + 32` and leave `m_length` alone
    let mLength := buffer.mLength
    let messageSize := mLength + sizeofMessage
    if messageSize ≥ queueLength then
      return ⟨false, true, buffer⟩
    else if mLength = 0 then
      storeField .rd rd
      return ⟨true, false, buffer⟩
    else if bufferLen < messageSize then
      return ⟨false, true, buffer⟩
    else
      let buffer ← copyDataOut queueLength rd mLength buffer
      storeField .rd ((rd + mLength) % queueLength)
      return ⟨true, false, buffer⟩

/-- The bytes of an uninitialised `struct Message` on the stack. -/
def stackMessage : Bytes := fun _ => 0

/-- `message_queue_next_length_l`: the size of the message at the read
index, `none` for the return value `false`. -/
def messageQueueNextLengthL (queueLength : UInt64) :
    QProg (Option UInt64) := do
  let rd ← loadField .rd
  let wr ← loadField .wr
  if rd ≥ queueLength then
    return none
  else if wr ≥ queueLength then
    return none
  else if rd = wr then
    return none
  else
    let head ← copyHeader queueLength .message 32 0 rd stackMessage
    let messageSize := head.2.mLength + sizeofMessage
    if messageSize ≥ queueLength then
      return none
    else
      return some messageSize

/-- `message_queue_get_begin_l`: a pointer to the message at the read index,
null if it straddles the end of the ring; `none` is the return value
`false`. -/
def messageQueueGetBeginL (queueLength : UInt64) :
    QProg (Option (Option ℕ)) := do
  let rd ← loadField .rd
  let wr ← loadField .wr
  if rd ≥ queueLength then
    return none
  else if wr ≥ queueLength then
    return none
  else if rd = wr then
    return none
  else
    let head ← copyHeader queueLength .message 32 0 rd stackMessage
    let messageSize := head.2.mLength + sizeofMessage
    if messageSize ≥ queueLength then
      return none
    else if queueLength - rd ≥ messageSize then
      return some (some rd.toNat)
    else
      return some none

/-- `message_queue_get_complete_l`: consume the record at `message`, by the
`m_length` found there. -/
def messageQueueGetCompleteL (queueLength : UInt64) (message : ℕ) :
    QProg Unit := do
  let length ← loadWord message
  let messageSize := length + sizeofMessage
  let rd ← loadField .rd
  if rd ≥ queueLength then
    return ()
  else if messageSize ≥ queueLength then
    return ()
  else
    storeField .rd ((rd + messageSize) % queueLength)
