import Mathlib.Data.List.Infix
import Kucomms.Machine
import Kucomms.QueueReader
import Kucomms.QueueWriter

/-!
# One producer and one consumer

The system a ring is made for: one thread that adds, one that gets, and any
interleaving of their accesses. `spsc` is that system with every operation of
the two sides in it, the in-place ones included: a producer may reserve a
slot, write into it byte by byte and publish it, a consumer may be given the
slot of the message at the head, read it byte by byte and consume it. Which
operations a system uses is a parameter.

What is recorded is what the two sides can observe: the messages added, the
messages got, and the slots that are out on *lease* – to the consumer from
the return of `message_queue_get_begin_l` to the store of `m_rd`, to the
producer from the return of `message_queue_add_begin_l` to the store of
`m_wr`.

`spscOutline` is the proof of the system, and two results are read off it:
the ring is a FIFO (`spsc_fifo`), and leases do not interfere
(`spsc_leases`).
-/

/-- The two sides of a ring. -/
inductive Side where
  | producer | consumer
  deriving DecidableEq

/-- **The calls of the two sides.** -/
inductive SpscCall where
  /-- `message_queue_add_l`. -/
  | add (m : DataMessage)
  /-- `message_queue_add_begin_l`. -/
  | addBegin (dataLength : UInt64)
  /-- The producer stores a byte of the slot it reserved. -/
  | fill (slot k : ℕ) (b : UInt8)
  /-- `message_queue_add_complete_l`. -/
  | addComplete (slot : ℕ)
  /-- `message_queue_get_free_l`. -/
  | getFree
  /-- `message_queue_get_l`. -/
  | get (buffer : Bytes) (bufferLen : UInt64)
  /-- `message_queue_get_begin_l`. -/
  | getBegin
  /-- The consumer loads a byte of the slot it was given. -/
  | inspect (slot k : ℕ)
  /-- `message_queue_get_complete_l`. -/
  | getComplete (slot : ℕ)
  /-- `message_queue_next_length_l`. -/
  | nextLength
  /-- `message_queue_get_avail_l`. -/
  | getAvail

namespace SpscCall

/-- Who makes a call. -/
def side : SpscCall → Side
  | .add _ | .addBegin _ | .fill _ _ _ | .addComplete _ | .getFree => .producer
  | _ => .consumer

/-- What a call returns. -/
@[reducible] def Ret : SpscCall → Type
  | .add _ => Bool
  | .addBegin _ | .getBegin => Option (Option ℕ)
  | .fill _ _ _ | .addComplete _ | .getComplete _ => Unit
  | .getFree | .getAvail => UInt64
  | .get _ _ => GetResult
  | .inspect _ _ => UInt8
  | .nextLength => Option UInt64

/-- The program of a call. -/
def prog (queueLength : UInt64) : (c : SpscCall) → QProg c.Ret
  | .add m => messageQueueAddL queueLength m.mem
  | .addBegin dataLength => messageQueueAddBeginL queueLength dataLength
  | .fill slot k b => storeByte (slot + k) b
  | .addComplete slot => messageQueueAddCompleteL queueLength slot
  | .getFree => messageQueueGetFreeL queueLength
  | .get buffer bufferLen => messageQueueGetL queueLength buffer bufferLen
  | .getBegin => messageQueueGetBeginL queueLength
  | .inspect slot k => copyOut (.message k) (slot + k)
  | .getComplete slot => messageQueueGetCompleteL queueLength slot
  | .nextLength => messageQueueNextLengthL queueLength
  | .getAvail => messageQueueGetAvailL queueLength

/-- The message a call publishes if it stores `m_wr`. -/
def msg : SpscCall → MessageQueueHeader → DataMessage
  | .add m, _ => m
  | .addComplete slot, h => DataMessage.ofMem (h.slot slot)
  | _, h => DataMessage.ofMem (h.slot h.mWr.toNat)

/-- The calls that copy whole messages in and out. -/
def Copying : SpscCall → Prop
  | .add _ | .get _ _ => True
  | _ => False

/-- The additions and the reads, copying or in place. -/
def Transferring : SpscCall → Prop
  | .getFree | .nextLength | .getAvail => False
  | _ => True

end SpscCall

/-- **The ring with what the two sides observe.** -/
structure SpscState where
  traced : Traced
  /-- The messages got, in order: copied out by a call that returned `true`,
  or read in place and completed. -/
  received : List DataMessage
  /-- The slot the producer has reserved, with the data length it asked
  for. -/
  wlease : Option (ℕ × UInt64)
  /-- The slot the consumer has been given. -/
  rlease : Option ℕ

namespace SpscState

/-- The ring. -/
def ring (s : SpscState) : MessageQueueHeader := s.traced.ring

/-- A side begins a ring operation only when it holds no slot, and works on a
slot only while it holds it. A message is memory with `m_length` data bytes,
which is shorter than the address space; what is committed is not longer than
what was reserved. -/
def May (s : SpscState) : SpscCall → Prop
  | .add m => s.wlease = none ∧ m.size < 2 ^ 64
  | .addBegin dataLength => s.wlease = none ∧ dataLength.toNat + 32 < 2 ^ 64
  | .fill slot k _ => ∃ n, s.wlease = some (slot, n) ∧ k < n.toNat + 32
  | .addComplete slot => ∃ n, s.wlease = some (slot, n)
      ∧ (s.ring.slot slot).mLength ≤ n
  | .getFree => s.wlease = none
  | .inspect slot k => s.rlease = some slot
      ∧ k < (DataMessage.ofMem (s.ring.slot slot)).size
  | .getComplete slot => s.rlease = some slot
  | _ => s.rlease = none

/-- What the correctness of a call needs of that: what is added is a message,
and a side works on a slot only while it holds it. -/
def Proper (s : SpscState) : SpscCall → Prop
  | .add m => m.size < 2 ^ 64
  | .addBegin dataLength => dataLength.toNat + 32 < 2 ^ 64
  | .fill slot k _ => ∃ n, s.wlease = some (slot, n) ∧ k < n.toNat + 32
  | .addComplete slot => ∃ n, s.wlease = some (slot, n)
      ∧ (s.ring.slot slot).mLength ≤ n
  | .inspect slot k => s.rlease = some slot
      ∧ k < (DataMessage.ofMem (s.ring.slot slot)).size
  | .getComplete slot => s.rlease = some slot
  | _ => True

theorem May.proper {s : SpscState} {c : SpscCall} (h : s.May c) :
    s.Proper c := by
  cases c with
  | add m => exact h.2
  | addBegin dataLength => exact h.2
  | fill slot k b => exact h
  | addComplete slot => exact h
  | inspect slot k => exact h
  | getComplete slot => exact h
  | _ => trivial

/-- Completing a slot counts as having got the message in it. -/
def onCall (s : SpscState) : SpscCall → SpscState
  | .getComplete slot => { s with
      received := s.received ++ [DataMessage.ofMem (s.ring.slot slot)] }
  | _ => s

/-- The stores of the indices end the leases. -/
def exec (c : SpscCall) (a : QAct) (s : SpscState) : a.Res × SpscState :=
  ((s.traced.exec c.msg a).1,
    { traced := (s.traced.exec c.msg a).2
      received := s.received
      wlease := match a with
        | .storeField .wr _ => none
        | _ => s.wlease
      rlease := match a with
        | .storeField .rd _ => none
        | _ => s.rlease })

section Exec

variable {c : SpscCall} {a : QAct} {s : SpscState}

/-- Only a store of `m_wr` ends a lease of the producer. -/
theorem exec_wlease (h : ∀ v, a ≠ .storeField .wr v) :
    (s.exec c a).2.wlease = s.wlease := by
  cases a with
  | storeField f v =>
    cases f with
    | wr => exact absurd rfl (h v)
    | _ => rfl
  | _ => rfl

/-- Only a store of `m_rd` ends a lease of the consumer. -/
theorem exec_rlease (h : ∀ v, a ≠ .storeField .rd v) :
    (s.exec c a).2.rlease = s.rlease := by
  cases a with
  | storeField f v =>
    cases f with
    | rd => exact absurd rfl (h v)
    | _ => rfl
  | _ => rfl

end Exec

/-- A successful get has got the message in the buffer, and a slot that is
returned begins a lease. -/
def onRet (s : SpscState) : (c : SpscCall) → c.Ret → SpscState
  | .get _ _, g => if g.ok then
      { s with received := s.received ++ [DataMessage.ofMem g.buffer] } else s
  | .addBegin dataLength, some (some slot) =>
    { s with wlease := some (slot, dataLength) }
  | .getBegin, some (some slot) => { s with rlease := some slot }
  | _, _ => s

end SpscState

/-- **One producer and one consumer on a ring**, using the calls `uses`. -/
def spsc (queueLength : UInt64) (uses : SpscCall → Prop) :
    Machine Side QAct QAct.Res SpscState where
  Call := SpscCall
  Ret := SpscCall.Ret
  prog := SpscCall.prog queueLength
  may i s c := c.side = i ∧ uses c ∧ s.May c
  onCall _ c s := s.onCall c
  sem _ c a s r s' := s.exec c a = (r, s')
  onRet _ c v s := s.onRet c v

/-- A ring just set up in memory with arbitrary content, before anything is
added or got. -/
def spscStart (bufferLength : UInt64) (h : MessageQueueHeader) : SpscState where
  traced := Traced.init bufferLength h
  received := []
  wlease := none
  rlease := none

/-- A call that is left alone, from beginning to return. -/
def SpscState.alone (queueLength : UInt64) (s : SpscState) (c : SpscCall) :
    SpscState :=
  let r := (c.prog queueLength).run (SpscState.exec c) (s.onCall c)
  r.2.onRet c r.1

/-- A call made while both sides are idle may be left alone. -/
theorem spsc_alone {queueLength : UInt64} {uses : SpscCall → Prop}
    {x : (spsc queueLength uses).Conf} {s : SpscState} (c : SpscCall)
    (hx : (spsc queueLength uses).Reach x ⟨s, fun _ => none⟩)
    (hc : uses c) (hmay : s.May c) :
    (spsc queueLength uses).Reach x
      ⟨s.alone queueLength c, fun _ => none⟩ :=
  hx.trans (Machine.Reach.call (M := spsc queueLength uses) (i := c.side) c
    (SpscState.exec c) (fun _ _ => rfl) rfl ⟨rfl, hc, hmay⟩)

/-! ## The invariant -/

/-- **The invariant of the system.** -/
structure SpscInv (L : ℕ) (s : SpscState) : Prop where
  traced : s.traced.Inv L
  received : s.received <+: s.traced.accepted
  /-- A reserved slot is at the write index, free, and in one piece. -/
  wlease : ∀ slot n, s.wlease = some (slot, n) →
    slot = s.ring.mWr.toNat ∧ used s.traced.pending + (n.toNat + 32) < L
      ∧ slot + (n.toNat + 32) ≤ L
  /-- A slot given out shows the message at the head, in one piece. -/
  rlease : ∀ slot, s.rlease = some slot →
    ∃ m, Leased L s.traced.taken slot m s.traced

/-- The message behind those received extends them. -/
theorem SpscInv.concat_received {L : ℕ} {s : SpscState} (h : SpscInv L s)
    {m : DataMessage} (hm : s.traced.accepted[s.received.length]? = some m) :
    s.received ++ [m] <+: s.traced.accepted := by
  obtain ⟨hlt, rfl⟩ := List.getElem?_eq_some_iff.mp hm
  exact List.concat_get_prefix h.received hlt

/-- What a step of the producer may do. -/
structure ProducerStep (L : ℕ) (s s' : SpscState) : Prop where
  inv : SpscInv L s → SpscInv L s'
  writer : WriterStep L s.traced s'.traced
  received : s'.received = s.received
  rlease : s'.rlease = s.rlease

/-- What a step of the consumer may do. -/
structure ConsumerStep (L : ℕ) (s s' : SpscState) : Prop where
  inv : SpscInv L s → SpscInv L s'
  reader : ReaderStep L s.traced s'.traced
  wlease : s'.wlease = s.wlease

theorem ProducerStep.trans {L : ℕ} {s t u : SpscState}
    (h : ProducerStep L s t) (h' : ProducerStep L t u) : ProducerStep L s u :=
  ⟨h'.inv ∘ h.inv, h.writer.trans h'.writer, h'.received.trans h.received,
    h'.rlease.trans h.rlease⟩

theorem ConsumerStep.trans {L : ℕ} {s t u : SpscState}
    (h : ConsumerStep L s t) (h' : ConsumerStep L t u) : ConsumerStep L s u :=
  ⟨h'.inv ∘ h.inv, h.reader.trans h'.reader, h'.wlease.trans h.wlease⟩

section Steps

variable {L : ℕ} {s : SpscState} {t : Traced}

/-- **A step of the writer inside the system**: what the consumer holds is
untouched, and the reservation has to be in order after it. -/
theorem SpscInv.writerStep (h : SpscInv L s) (hstep : WriterStep L s.traced t)
    {w : Option (ℕ × UInt64)}
    (hw : ∀ slot n, w = some (slot, n) →
      slot = t.ring.mWr.toNat ∧ used t.pending + (n.toNat + 32) < L
        ∧ slot + (n.toNat + 32) ≤ L) :
    ProducerStep L s { s with traced := t, wlease := w } := by
  refine ⟨fun _ => ⟨hstep.inv h.traced, h.received.trans hstep.accepted, hw,
    fun slot hslot => ?_⟩, hstep, rfl, rfl⟩
  obtain ⟨m, hm⟩ := h.rlease slot hslot
  exact ⟨m, hstep.taken.symm ▸ hm.stable hstep⟩

/-- **A step of the reader inside the system**: what the producer holds is
untouched, and the slot given out has to be in order after it. -/
theorem SpscInv.readerStep (h : SpscInv L s) (hstep : ReaderStep L s.traced t)
    {r : Option ℕ} {received : List DataMessage}
    (hrec : received <+: s.traced.accepted)
    (hr : ∀ slot, r = some slot → ∃ m, Leased L t.taken slot m t) :
    ConsumerStep L s
      { s with traced := t, rlease := r, received := received } := by
  refine ⟨fun _ => ⟨hstep.inv h.traced, hstep.accepted.symm ▸ hrec,
    fun slot n hslot => ?_, hr⟩, hstep, rfl⟩
  obtain ⟨heq, hroom, hfits⟩ := h.wlease slot n hslot
  have hused := hstep.used_le
  exact ⟨by rw [heq]; exact congrArg UInt64.toNat hstep.wr.symm, by
    show used t.pending + _ < L
    omega, hfits⟩

end Steps

/-! ## The calls inside the system -/

/-- What the consumer touches: bytes in use, and none of a reserved slot. -/
def consumerSafe (L : ℕ) (a : QAct) (s : SpscState) : Prop :=
  readerSafe L a s.traced ∧ ∀ slot n, s.wlease = some (slot, n) →
    ∀ i, a.Reads i → ¬(slot ≤ i ∧ i < slot + (n.toNat + 32))

/-- The specification of the producer inside a call. -/
def producerSpec (L : ℕ) (c : SpscCall) : RGSpec QAct QAct.Res SpscState where
  sem a s r s' := s.exec c a = (r, s')
  safe a s := writerSafe L a s.traced
  rely := ConsumerStep L
  guar := ProducerStep L
  rely_refl _ := ⟨id, ReaderStep.refl _, rfl⟩
  rely_trans := ConsumerStep.trans

/-- The specification of the consumer inside a call. -/
def consumerSpec (L : ℕ) (c : SpscCall) : RGSpec QAct QAct.Res SpscState where
  sem a s r s' := s.exec c a = (r, s')
  safe := consumerSafe L
  rely := ProducerStep L
  guar := ConsumerStep L
  rely_refl _ := ⟨id, WriterStep.refl _, rfl, rfl⟩
  rely_trans := ProducerStep.trans

section View

variable {L : ℕ} {c : SpscCall} {α : Type} {p : QProg α}
  {Q : α → Traced → Prop} {s : SpscState}

/-- A reserved slot is not among the bytes in use. -/
theorem SpscInv.reserved_ne (h : SpscInv L s) {slot : ℕ} {n : UInt64}
    (hslot : s.wlease = some (slot, n)) {i k : ℕ}
    (hk : k < used s.traced.pending)
    (hi : i = (s.ring.mRd.toNat + k) % L) :
    ¬(slot ≤ i ∧ i < slot + (n.toNat + 32)) := by
  rintro ⟨hle, hlt⟩
  obtain ⟨heq, hroom, hfits⟩ := h.wlease slot n hslot
  refine h.traced.rep.free_ne (j := k) (k := i - slot) hk
    (lt_of_le_of_lt (Nat.add_le_add_left (by omega) _) hroom) ?_
  show (s.ring.mRd.toNat + k) % L = (s.ring.mWr.toNat + (i - slot)) % L
  rw [← hi, ← heq, Nat.add_sub_cancel' hle, Nat.mod_eq_of_lt (by omega)]

/-- **A writer's operation in the system**: it is as correct as alone with
the ring, and keeps the invariant. -/
theorem producer_view (hs : SpscInv L s)
    (h : p.Wp (writerSpec L c.msg) Q s.traced) :
    p.Wp (producerSpec L c) (fun v s => Q v s.traced ∧ SpscInv L s) s := by
  refine Prog.Wp.view (producerSpec L c) SpscState.traced (SpscInv L)
    (fun _ _ _ ha => ha) (fun a t r t' ht _ hsem => ?_)
    (fun _ _ ht hr => ⟨hr.reader, hr.inv ht⟩) hs h
  obtain rfl : (t.exec c a).1 = r := congrArg Prod.fst hsem
  obtain rfl : (t.exec c a).2 = t' := congrArg Prod.snd hsem
  refine ⟨rfl, fun hstep => ?_⟩
  have hr : (t.exec c a).2.rlease = t.rlease := by
    by_cases ha : ∃ v, a = .storeField .rd v
    · obtain ⟨v, rfl⟩ := ha
      exact absurd hstep.taken (Nat.succ_ne_self _)
    · exact SpscState.exec_rlease (fun v hv => ha ⟨v, hv⟩)
  have hw : ∀ slot n, (t.exec c a).2.wlease = some (slot, n) →
      slot = (t.exec c a).2.ring.mWr.toNat
        ∧ used (t.exec c a).2.traced.pending + (n.toNat + 32) < L
        ∧ slot + (n.toNat + 32) ≤ L := by
    intro slot n hslot
    by_cases ha : ∃ v, a = .storeField .wr v
    · obtain ⟨v, rfl⟩ := ha
      exact nomatch hslot
    · have hne : ∀ v, a ≠ .storeField .wr v := fun v hv => ha ⟨v, hv⟩
      obtain ⟨hwr, hacc⟩ := Traced.exec_of_ne_storeWr c.msg t.traced hne
      rw [SpscState.exec_wlease hne] at hslot
      have hpend : (t.exec c a).2.traced.pending = t.traced.pending := by
        unfold Traced.pending
        rw [hstep.taken, show (t.exec c a).2.traced.accepted = _ from hacc]
      rw [hpend]
      have := ht.wlease slot n hslot
      exact ⟨this.1.trans (congrArg UInt64.toNat hwr.symm), this.2⟩
  have := ht.writerStep hstep hw
  rw [← hr] at this
  exact ⟨this, this.inv ht⟩

/-- **A reader's operation in the system**: it is as correct as alone with
the ring, reads nothing of a reserved slot, and keeps the invariant and what
was received. -/
theorem consumer_view {R : List DataMessage} (hs : SpscInv L s)
    (hR : s.received = R) (h : p.Wp (readerSpec L c.msg) Q s.traced) :
    p.Wp (consumerSpec L c)
      (fun v s => Q v s.traced ∧ SpscInv L s ∧ s.received = R) s := by
  refine Prog.Wp.view (consumerSpec L c) SpscState.traced
    (fun s => SpscInv L s ∧ s.received = R)
    (fun a t ht ha => ⟨ha, fun slot n hslot i hi => ?_⟩)
    (fun a t r t' ht _ hsem => ?_)
    (fun _ _ ht hr => ⟨hr.writer, hr.inv ht.1, hr.received.trans ht.2⟩)
    ⟨hs, hR⟩ h
  · obtain ⟨k, hk, hik⟩ := ha.reads hi
    exact ht.1.reserved_ne hslot hk hik
  · obtain rfl : (t.exec c a).1 = r := congrArg Prod.fst hsem
    obtain rfl : (t.exec c a).2 = t' := congrArg Prod.snd hsem
    refine ⟨rfl, fun hstep => ?_⟩
    have hw : (t.exec c a).2.wlease = t.wlease := by
      by_cases ha : ∃ v, a = .storeField .wr v
      · obtain ⟨v, rfl⟩ := ha
        exact absurd hstep.accepted (by simp [SpscState.exec])
      · exact SpscState.exec_wlease (fun v hv => ha ⟨v, hv⟩)
    have hr : ∀ slot, (t.exec c a).2.rlease = some slot →
        ∃ m, Leased L (t.exec c a).2.traced.taken slot m
          (t.exec c a).2.traced := by
      intro slot hslot
      by_cases ha : ∃ v, a = .storeField .rd v
      · obtain ⟨v, rfl⟩ := ha
        exact nomatch hslot
      · have hne : ∀ v, a ≠ .storeField .rd v := fun v hv => ha ⟨v, hv⟩
        obtain ⟨hrd, htaken⟩ := Traced.exec_of_ne_storeRd c.msg t.traced hne
        rw [SpscState.exec_rlease hne] at hslot
        obtain ⟨m, hm⟩ := ht.1.rlease slot hslot
        refine ⟨m, ?_⟩
        rw [show (t.exec c a).2.traced.taken = _ from htaken]
        exact hm.of_reader hstep hrd htaken
    have := ht.1.readerStep hstep ht.1.received hr
    rw [← hw] at this
    exact ⟨this, this.inv ht.1, ht.2⟩

end View

/-! ## The outline -/

/-- **What holds while a side is idle**: the consumer has received exactly
what was consumed. -/
def Side.Idle (L : ℕ) : Side → SpscState → Prop
  | .producer, s => SpscInv L s
  | .consumer, s => SpscInv L s ∧ s.received.length = s.traced.taken

/-- What the other side may do to this one. -/
def Side.rely (L : ℕ) : Side → SpscState → SpscState → Prop
  | .producer => ConsumerStep L
  | .consumer => ProducerStep L

/-- What a step of a side amounts to. -/
def Side.guar (L : ℕ) : Side → SpscState → SpscState → Prop
  | .producer => ProducerStep L
  | .consumer => ConsumerStep L

/-- When a side may perform an action. -/
def Side.safe (L : ℕ) : Side → QAct → SpscState → Prop
  | .producer, a, s => writerSafe L a s.traced
  | .consumer, a, s => consumerSafe L a s

/-- **What holds when a call is about to return.** -/
def SpscCall.Post (L : ℕ) : (c : SpscCall) → c.Ret → SpscState → Prop
  | .add m, ok, s => SpscInv L s ∧ ∃ acc n, AddPost L acc m n ok s.traced
  | .addBegin dataLength, r, s => SpscInv L s ∧ ∃ acc n,
      AddBeginPost L acc n (dataLength.toNat + 32) r s.traced
  | .get _ bufferLen, g, s => SpscInv L s ∧ ∃ n,
      GetPost L s.received.length n bufferLen g s.traced
  | .getBegin, r, s => SpscInv L s ∧ ∃ n,
      GetBeginPost L s.received.length n r s.traced
  | c, _, s => c.side.Idle L s

section Outline

variable {queueLength : UInt64} {s : SpscState}

theorem Side.Idle.inv {L : ℕ} {i : Side} (h : i.Idle L s) : SpscInv L s := by
  cases i with
  | producer => exact h
  | consumer => exact h.1

/-- The calls of the producer are correct. -/
theorem producer_ok {c : SpscCall} (hc : c.side = .producer)
    (hL : 0 < queueLength.toNat ∧ queueLength.toNat < 2 ^ 63)
    (hs : SpscInv queueLength.toNat s) (hmay : s.Proper c) :
    (c.prog queueLength).Wp (producerSpec queueLength.toNat c)
      (c.Post queueLength.toNat) (s.onCall c) := by
  cases c with
  | add m =>
    exact (producer_view hs (messageQueueAddL_wp hL hmay (fun _ => rfl)
      hs.traced rfl)).mono (fun ok t ht => ⟨ht.2, _, _, ht.1⟩)
  | addBegin dataLength =>
    exact (producer_view hs (messageQueueAddBeginL_wp hL hmay hs.traced
      rfl)).mono (fun ok t ht => ⟨ht.2, _, _, ht.1⟩)
  | fill slot k b =>
    obtain ⟨n, hslot, hk⟩ := hmay
    obtain ⟨heq, hroom, hfits⟩ := hs.wlease slot n hslot
    exact (producer_view hs (fillSlot_wp hk hfits
      ⟨hs.traced, rfl, heq.symm, hroom⟩)).mono (fun _ t ht => ht.2)
  | addComplete slot =>
    obtain ⟨n, hslot, hlen⟩ := hmay
    obtain ⟨heq, hroom, hfits⟩ := hs.wlease slot n hslot
    have hres : Reserved queueLength.toNat s.traced.accepted slot
        (n.toNat + 32) (DataMessage.ofMem (s.ring.slot slot)) s.traced :=
      ⟨⟨hs.traced, rfl, heq.symm, hroom⟩, hfits, rfl⟩
    have hsize : (DataMessage.ofMem (s.ring.slot slot)).size
        ≤ n.toNat + 32 := by
      rw [UInt64.le_iff_toNat_le] at hlen
      rw [DataMessage.size_ofMem]
      omega
    have hmsg : ∀ h : MessageQueueHeader, h.mWr.toNat = slot →
        (SpscCall.addComplete slot).msg h
          = DataMessage.ofMem (h.slot slot) := fun _ _ => rfl
    have hwp := messageQueueAddCompleteL_wp hL.2 hmsg hsize hres
    exact (producer_view hs hwp).mono (fun _ t ht => ht.2)
  | getFree =>
    exact (producer_view hs (messageQueueGetFreeL_wp hL hs.traced rfl)).mono
      (fun _ t ht => ht.2)
  | _ => exact absurd hc (by simp [SpscCall.side])

/-- The calls of the consumer are correct. -/
theorem consumer_ok {c : SpscCall} (hc : c.side = .consumer)
    (hL : queueLength.toNat < 2 ^ 63)
    (hs : Side.consumer.Idle queueLength.toNat s) (hmay : s.Proper c) :
    ConsumerStep queueLength.toNat s (s.onCall c) ∧
      (c.prog queueLength).Wp (consumerSpec queueLength.toNat c)
        (c.Post queueLength.toNat) (s.onCall c) := by
  obtain ⟨hs, hlen⟩ := hs
  have hrefl : ConsumerStep queueLength.toNat s s :=
    ⟨id, ReaderStep.refl _, rfl⟩
  cases c with
  | get buffer bufferLen =>
    refine ⟨hrefl, (consumer_view hs rfl (messageQueueGetL_wp hL hs.traced
      rfl)).mono (fun g t ht => ⟨ht.2.1, s.traced.accepted.length, ?_⟩)⟩
    rw [ht.2.2, hlen]
    exact ht.1
  | getBegin =>
    refine ⟨hrefl, (consumer_view hs rfl (messageQueueGetBeginL_wp
      hs.traced rfl)).mono (fun g t ht => ⟨ht.2.1, s.traced.accepted.length, ?_⟩)⟩
    rw [ht.2.2, hlen]
    exact ht.1
  | inspect slot k =>
    obtain ⟨hslot, hk⟩ := hmay
    obtain ⟨m, hm⟩ := hs.rlease slot hslot
    have hsize : k < m.size := by
      rwa [show s.ring = s.traced.ring from rfl, hm.ofMem_slot] at hk
    refine ⟨hrefl, (consumer_view hs rfl (inspectSlot_wp hsize hm)).mono
      (fun b t ht => ⟨ht.2.1, ?_⟩)⟩
    rw [ht.2.2, hlen, ht.1.2.at_head.taken]
  | getComplete slot =>
    obtain ⟨m, hm⟩ := hs.rlease slot hmay
    have hrec := hs.concat_received (hlen ▸ hm.at_head.head)
    have hcall : s.onCall (.getComplete slot)
        = { s with received := s.received ++ [m] } := by
      show { s with received := s.received ++ [DataMessage.ofMem
        (s.traced.ring.slot slot)] } = _
      rw [hm.ofMem_slot]
    have hstep := hs.readerStep (ReaderStep.refl _) hrec hs.rlease
    rw [hcall]
    refine ⟨hstep, (consumer_view (hstep.inv hs) rfl
      (messageQueueGetCompleteL_wp hL hm)).mono
      (fun _ t ht => ⟨ht.2.1, ?_⟩)⟩
    rw [ht.2.2, ht.1.2.1, List.length_append, hlen]
    rfl
  | nextLength =>
    refine ⟨hrefl, (consumer_view hs rfl (messageQueueNextLengthL_wp
      hs.traced rfl)).mono (fun g t ht => ⟨ht.2.1, ?_⟩)⟩
    rw [ht.2.2, hlen, ht.1.taken]
  | getAvail =>
    refine ⟨hrefl, (consumer_view hs rfl (messageQueueGetAvailL_wp
      hs.traced rfl)).mono (fun g t ht => ⟨ht.2.1, ?_⟩)⟩
    rw [ht.2.2, hlen, ht.1.2.1]
  | _ => exact absurd hc (by simp [SpscCall.side])

/-- A call that returns leaves its side idle. -/
theorem ret_ok {c : SpscCall} {v : c.Ret} {L : ℕ} (h : c.Post L v s) :
    c.side.guar L s (s.onRet c v) ∧ c.side.Idle L (s.onRet c v) := by
  have hprod : SpscInv L s → ProducerStep L s s :=
    fun _ => ⟨id, WriterStep.refl _, rfl, rfl⟩
  have hcons : ConsumerStep L s s := ⟨id, ReaderStep.refl _, rfl⟩
  cases c with
  | add m => exact ⟨hprod h.1, h.1⟩
  | addBegin dataLength =>
    obtain ⟨hs, acc, n, h⟩ := h
    match v, h with
    | none, _ => exact ⟨hprod hs, hs⟩
    | some none, _ => exact ⟨hprod hs, hs⟩
    | some (some slot), h =>
      obtain ⟨hroom, heq⟩ := h.room _ rfl
      have hstep := hs.writerStep (w := some (slot, dataLength))
        (WriterStep.refl _) (fun slot' n' hw => ?_)
      · exact ⟨hstep, hstep.inv hs⟩
      · obtain ⟨rfl, rfl⟩ := Prod.mk.inj (Option.some.inj hw)
        split at heq
        · next hfits =>
          obtain rfl := Option.some.inj heq
          exact ⟨rfl, hroom, hfits⟩
        · exact nomatch heq
  | get buffer bufferLen =>
    obtain ⟨hs, n, h⟩ := h
    have htaken := h.taken
    show ConsumerStep L s (if v.ok = true then _ else s)
      ∧ Side.consumer.Idle L (if v.ok = true then _ else s)
    split
    · next hok =>
      rw [if_pos hok] at htaken
      obtain ⟨-, hmsg, -⟩ := h.message hok
      have hrec := hs.concat_received hmsg
      have hstep := hs.readerStep (ReaderStep.refl _) hrec hs.rlease
      refine ⟨hstep, hstep.inv hs, ?_⟩
      rw [List.length_append, htaken]
      rfl
    · next hok =>
      rw [if_neg hok] at htaken
      exact ⟨hcons, hs, htaken.symm⟩
  | getBegin =>
    obtain ⟨hs, n, h⟩ := h
    match v, h with
    | none, h => exact ⟨hcons, hs, h.taken.symm⟩
    | some none, h => exact ⟨hcons, hs, h.taken.symm⟩
    | some (some slot), h =>
      obtain ⟨m, hm, heq⟩ := h.slot _ rfl
      have hstep := hs.readerStep (r := some slot) (ReaderStep.refl _)
        hs.received (fun slot' hr => ?_)
      · exact ⟨hstep, hstep.inv hs, h.taken.symm⟩
      · obtain rfl := Option.some.inj hr
        split at heq
        · next hfits =>
          obtain rfl := Option.some.inj heq
          refine ⟨m, ⟨⟨h.inv, rfl, rfl⟩, ?_⟩, rfl, hfits⟩
          rw [h.taken]
          exact hm
        · exact nomatch heq
  | fill => exact ⟨hprod h, h⟩
  | addComplete => exact ⟨hprod h, h⟩
  | getFree => exact ⟨hprod h, h⟩
  | _ => exact ⟨hcons, h⟩

/-- **A call is correct**, whichever side makes it. -/
theorem SpscCall.ok {c : SpscCall}
    (hL : 0 < queueLength.toNat ∧ queueLength.toNat < 2 ^ 63)
    (h : c.side.Idle queueLength.toNat s) (hmay : s.Proper c) :
    (c.side = .producer → ProducerStep queueLength.toNat s (s.onCall c)
      ∧ (c.prog queueLength).Wp (producerSpec queueLength.toNat c)
        (c.Post queueLength.toNat) (s.onCall c))
    ∧ (c.side = .consumer → ConsumerStep queueLength.toNat s (s.onCall c)
      ∧ (c.prog queueLength).Wp (consumerSpec queueLength.toNat c)
        (c.Post queueLength.toNat) (s.onCall c)) := by
  refine ⟨fun hc => ?_, fun hc => ?_⟩
  · have hcall : s.onCall c = s := by
      cases c <;> first | rfl | exact nomatch hc
    refine ⟨?_, producer_ok hc hL h.inv hmay⟩
    rw [hcall]
    exact ⟨id, WriterStep.refl _, rfl, rfl⟩
  · exact consumer_ok hc hL.2 (hc ▸ h) hmay

end Outline

section Sides

variable (queueLength : UInt64)

theorem Side.rely_refl (i : Side) (s : SpscState) :
    i.rely queueLength.toNat s s := by
  cases i with
  | producer => exact ⟨id, ReaderStep.refl _, rfl⟩
  | consumer => exact ⟨id, WriterStep.refl _, rfl, rfl⟩

theorem Side.rely_trans (i : Side) {s t u : SpscState}
    (h : i.rely queueLength.toNat s t) (h' : i.rely queueLength.toNat t u) :
    i.rely queueLength.toNat s u := by
  cases i with
  | producer => exact ConsumerStep.trans h h'
  | consumer => exact ProducerStep.trans h h'

/-- The two sides keep to the bargain. -/
theorem Side.guar_rely {i j : Side} {s s' : SpscState} (hij : i ≠ j)
    (h : i.guar queueLength.toNat s s') : j.rely queueLength.toNat s s' := by
  cases i <;> cases j <;> first | exact h | exact absurd rfl hij

theorem Side.idle_stable {i : Side} {s s' : SpscState}
    (h : i.Idle queueLength.toNat s) (hr : i.rely queueLength.toNat s s') :
    i.Idle queueLength.toNat s' := by
  cases i with
  | producer => exact hr.inv h
  | consumer => exact ⟨hr.inv h.1, by rw [hr.received, hr.writer.taken, h.2]⟩

theorem Side.guar_inv {L : ℕ} {i : Side} {s s' : SpscState}
    (hg : i.guar L s s') (hs : SpscInv L s) : SpscInv L s' := by
  cases i with
  | producer => exact hg.inv hs
  | consumer => exact hg.inv hs

end Sides

/-- **The proof of the system.** -/
def spscOutline (queueLength : UInt64) (uses : SpscCall → Prop)
    (hL : 0 < queueLength.toNat ∧ queueLength.toNat < 2 ^ 63) :
    (spsc queueLength uses).Outline where
  rely := Side.rely queueLength.toNat
  guar := Side.guar queueLength.toNat
  safe i _ := Side.safe queueLength.toNat i
  idle := Side.Idle queueLength.toNat
  post i c v s := c.side = i ∧ c.Post queueLength.toNat v s
  rely_refl := Side.rely_refl queueLength
  rely_trans := Side.rely_trans queueLength
  guar_rely := Side.guar_rely queueLength
  idle_stable := Side.idle_stable queueLength
  call_ok {i s c} h hmay := by
    obtain ⟨rfl, -, hmay⟩ := hmay
    have hok := SpscCall.ok hL h hmay.proper
    cases hi : c.side with
    | producer =>
      exact ⟨(hok.1 hi).1, (hok.1 hi).2.mono (fun v t ht => ⟨rfl, ht⟩)⟩
    | consumer =>
      exact ⟨(hok.2 hi).1, (hok.2 hi).2.mono (fun v t ht => ⟨rfl, ht⟩)⟩
  ret_ok {i s c v} h := by
    obtain ⟨rfl, h⟩ := h
    exact ret_ok h

/-! ## The results -/

section Results

variable {bufferLength : UInt64} {h : MessageQueueHeader}

/-- A ring just set up, as the outline starts from it. -/
theorem spscStart_idle {L : ℕ} (hL : 0 < L) (i : Side) :
    i.Idle L (spscStart bufferLength h) := by
  have hinv : SpscInv L (spscStart bufferLength h) :=
    ⟨Traced.Inv.init hL _ _, List.prefix_rfl, (fun _ _ h => nomatch h),
      (fun _ h => nomatch h)⟩
  cases i with
  | producer => exact hinv
  | consumer => exact ⟨hinv, rfl⟩

/-- The invariant holds in every configuration. -/
theorem spsc_inv {uses : SpscCall → Prop} (h32 : 32 < bufferLength.toNat)
    (h63 : bufferLength.toNat < 2 ^ 63)
    {x : (spsc (messageQueueGetQueueLength bufferLength) uses).Conf}
    (hx : (spsc (messageQueueGetQueueLength bufferLength) uses).Reach
      (Machine.start _ (spscStart bufferLength h)) x) :
    SpscInv (messageQueueGetQueueLength bufferLength).toNat x.st := by
  have hL := queueLength_bounds h32 h63
  exact (spscOutline _ uses hL).invariant Side.guar_inv
    (spscStart_idle hL.1) (spscStart_idle hL.1 .producer) hx

/-- **The ring is a FIFO.** Whatever the interleaving, the messages got are a
prefix of the messages whose addition stored `m_wr`; between two gets the
consumer has got all that was consumed, and the ring represents the rest. A
get that returns `true` returns the next message, and one that sets `*error`
was given a buffer too small for it. -/
theorem spsc_fifo (h32 : 32 < bufferLength.toNat)
    (h63 : bufferLength.toNat < 2 ^ 63)
    {x : (spsc (messageQueueGetQueueLength bufferLength)
      SpscCall.Copying).Conf}
    (hx : (spsc (messageQueueGetQueueLength bufferLength)
      SpscCall.Copying).Reach (Machine.start _ (spscStart bufferLength h)) x) :
    x.st.received <+: x.st.traced.accepted
    ∧ (x.pc .consumer = none →
        x.st.received = x.st.traced.accepted.take x.st.traced.taken
        ∧ Represents (messageQueueGetQueueLength bufferLength).toNat
          x.st.ring (x.st.traced.accepted.drop x.st.traced.taken))
    ∧ ∀ buffer bufferLen g,
        x.pc .consumer = some ⟨.get buffer bufferLen, .ret g⟩ →
        (g.ok = true → g.error = false
          ∧ x.st.traced.accepted[x.st.received.length]?
            = some (DataMessage.ofMem g.buffer))
        ∧ (g.error = true → ∃ m,
          x.st.traced.accepted[x.st.received.length]? = some m
            ∧ bufferLen.toNat < m.size) := by
  have hL := queueLength_bounds h32 h63
  let O := spscOutline (messageQueueGetQueueLength bufferLength)
    SpscCall.Copying hL
  have h0 : ∀ i, O.idle i (spscStart bufferLength h) :=
    fun i => spscStart_idle hL.1 i
  refine ⟨(spsc_inv h32 h63 hx).received, fun hpc => ?_,
    fun buffer bufferLen g hpc => ?_⟩
  · obtain ⟨hinv, hlen⟩ := O.idle_of_reach h0 hx hpc
    refine ⟨?_, hinv.traced.rep⟩
    rw [← hlen]
    exact List.prefix_iff_eq_take.mp hinv.received
  · obtain ⟨-, -, n, hpost⟩ := O.post_of_reach h0 hx hpc
    exact ⟨fun hok => ⟨(hpost.message hok).1, (hpost.message hok).2.1⟩,
      hpost.error⟩

/-- The commands of a schedule over a ring in a buffer of 112 bytes. -/
abbrev SmallCmd : Type :=
  (spsc (messageQueueGetQueueLength 112) SpscCall.Copying).Cmd

/-- The producer begins to add a message. -/
def SmallCmd.add (data : List UInt8) : SmallCmd :=
  .call .producer (fun s : SpscState =>
    if h : s.wlease = none ∧ (DataMessage.ofData data).size < 2 ^ 64 then
      some ⟨SpscCall.add (.ofData data), rfl, trivial, h⟩
    else none)

/-- The consumer begins to get a message into a buffer of 64 bytes. -/
def SmallCmd.get : SmallCmd :=
  .call .consumer (fun s : SpscState =>
    if h : s.rlease = none then
      some ⟨SpscCall.get (fun _ => 0) 64, rfl, trivial, h⟩
    else none)

/-- A run in which the second message is added while the first is got. -/
theorem spsc_fifo_interleaved :
    ∃ x, (spsc (messageQueueGetQueueLength 112) SpscCall.Copying).Reach
        (Machine.start _ (spscStart 112 .zeroed)) x
      ∧ x.st.received.map DataMessage.bytes
        = [(DataMessage.ofData [5, 6, 7]).bytes, (DataMessage.ofData [8]).bytes]
      ∧ x.st.received <+: x.st.traced.accepted := by
  obtain ⟨cmds, hcmds⟩ : ∃ cmds : List SmallCmd,
      cmds = [.add [5, 6, 7], .finish .producer, .add [8], .acts .producer 10,
        .get, .acts .consumer 10, .acts .producer 10, .finish .consumer,
        .finish .producer, .get, .finish .consumer] := ⟨_, rfl⟩
  have hrun : ((cmds.foldlM (Machine.perform _ fun _ c a s => some (s.exec c a))
      (Machine.start _ (spscStart 112 .zeroed))).map fun x =>
        x.st.received.map DataMessage.bytes)
      = some [(DataMessage.ofData [5, 6, 7]).bytes,
        (DataMessage.ofData [8]).bytes] := by
    subst hcmds
    decide +kernel
  obtain ⟨x, hx, hgot⟩ := Option.map_eq_some_iff.mp hrun
  have hreach := Machine.Reach.schedule
    (fun _ _ _ _ _ _ h => Option.some.inj h) hx
  exact ⟨x, hreach, hgot, (spsc_fifo (by decide) (by decide) hreach).1⟩

/-- **Leases do not interfere.** From the return of a slot to the consumer
until the store of `m_rd` that ends its lease, a step of the producer changes
none of the bytes of the message in it; from the return of a slot to the
producer until the store of `m_wr` that ends its lease, no action of the
consumer reads any of the bytes reserved. -/
theorem spsc_leases (h32 : 32 < bufferLength.toNat)
    (h63 : bufferLength.toNat < 2 ^ 63)
    {x : (spsc (messageQueueGetQueueLength bufferLength)
      SpscCall.Transferring).Conf}
    (hx : (spsc (messageQueueGetQueueLength bufferLength)
      SpscCall.Transferring).Reach
      (Machine.start _ (spscStart bufferLength h)) x) :
    (∀ slot y, x.st.rlease = some slot →
      (spsc (messageQueueGetQueueLength bufferLength)
        SpscCall.Transferring).Step .producer x y →
      y.st.rlease = some slot
        ∧ ∀ k < (x.st.ring.slot slot).mLength.toNat + 32,
          y.st.ring.slot slot k = x.st.ring.slot slot k)
    ∧ ∀ slot n c a p, x.st.wlease = some (slot, n) →
        x.pc .consumer = some ⟨c, .act a p⟩ →
        ∀ i, a.Reads i → ¬(slot ≤ i ∧ i < slot + (n.toNat + 32)) := by
  have hL := queueLength_bounds h32 h63
  let O := spscOutline (messageQueueGetQueueLength bufferLength)
    SpscCall.Transferring hL
  have h0 : ∀ i, O.idle i (spscStart bufferLength h) :=
    fun i => spscStart_idle hL.1 i
  refine ⟨fun slot y hslot hstep => ?_, fun slot n c a p hslot hpc => ?_⟩
  · have hguar : ProducerStep _ x.st y.st := O.guar_of_reach h0 hx hstep
    obtain ⟨m, hm⟩ := (spsc_inv h32 h63 hx).rlease slot hslot
    refine ⟨hguar.rlease.trans hslot, fun k hk => ?_⟩
    rw [← DataMessage.size_ofMem, show x.st.ring = x.st.traced.ring from rfl,
      hm.ofMem_slot] at hk
    exact ((hm.stable hguar.writer).mem_eq hk).trans (hm.mem_eq hk).symm
  · have hsafe : consumerSafe _ a x.st := O.safe_of_reach h0 hx hpc
    exact hsafe.2 slot n hslot

/-- A run in which both sides hold a slot. -/
theorem spsc_leases_both_held :
    ∃ x, (spsc (messageQueueGetQueueLength 200) SpscCall.Transferring).Reach
        (Machine.start _ (spscStart 200 .zeroed)) x
      ∧ x.st.rlease = some 0 ∧ x.st.wlease = some (32, 0)
      ∧ ∀ y, (spsc (messageQueueGetQueueLength 200)
          SpscCall.Transferring).Step .producer x y → y.st.rlease = some 0 := by
  have hx : (spsc (messageQueueGetQueueLength 200)
      SpscCall.Transferring).Reach (Machine.start _ (spscStart 200 .zeroed))
      (Machine.start _ (spscStart 200 .zeroed)) := .refl
  have hx := spsc_alone (.add .empty) hx trivial ⟨rfl, by decide +kernel⟩
  have hx := spsc_alone .getBegin hx trivial
    (by show SpscState.rlease _ = none; decide +kernel)
  have hx := spsc_alone (.addBegin 0) hx trivial
    ⟨by decide +kernel, by decide⟩
  refine ⟨_, hx, ?held, by decide +kernel, fun y hy =>
    ((spsc_leases (by decide) (by decide) hx).1 0 y ?held hy).1⟩
  decide +kernel

end Results
