import Kucomms.Fifo
import Kucomms.QueueReader
import Kucomms.QueueWriter

/-!
# The ring refines a bounded FIFO

Run alone, with nothing in between, the operations of `message_queue.c` are
an object whose states are rings. `queue_refines_fifo` says that it refines
the bounded FIFO: to any list of operations, from `message_queue_init` on, it
gives the FIFO's answers, and the ring represents the records the FIFO holds.

Nothing is proved about the operations again. Each meets its specification
under interference, so also without any (`Prog.Wp.run`); and without
interference the bounds a stale index leaves open close up, since what was
free at the beginning of a call is what is free at its end.
-/

open Prog

/-! ## The operations as an object -/

/-- **The operations**, each with its arguments; an operation in place is the
pair of calls with what the caller does to the slot in between. -/
inductive QueueOp where
  | add (m : DataMessage)
  /-- `message_queue_add_begin_l`, the record stored into the slot, and
  `message_queue_add_complete_l`. -/
  | addInPlace (m : DataMessage)
  | get (buffer : Bytes) (bufferLen : UInt64)
  | nextLength
  /-- `message_queue_get_begin_l`, the record read from the slot, and
  `message_queue_get_complete_l`. -/
  | getInPlace
  | getAvail
  | getFree

/-- A record stored into a slot and published. -/
def fillAndComplete (queueLength : UInt64) (m : DataMessage) (slot : ℕ) :
    QProg Unit := do
  memcpyIn m.mem slot 0 m.size
  messageQueueAddCompleteL queueLength slot

/-- A record added in place. -/
def addRecordInPlace (queueLength : UInt64) (m : DataMessage) :
    QProg (Option (Option ℕ)) := do
  let r ← messageQueueAddBeginL queueLength m.mem.mLength
  match r with
  | some (some slot) => do
    fillAndComplete queueLength m slot
    return r
  | r => return r

/-- A record read in place: `m_length` first, then as many bytes as it
says. -/
def readSlot (slot : ℕ) : QProg DataMessage := do
  let mLength ← loadWord slot
  let buffer ← memcpyOut 0 slot (mLength.toNat + 32) (fun _ => 0)
  return DataMessage.ofMem buffer

/-- A record read in a slot and consumed. -/
def readAndComplete (queueLength : UInt64) (slot : ℕ) :
    QProg DataMessage := do
  let m ← readSlot slot
  messageQueueGetCompleteL queueLength slot
  return m

/-- The record at the head read and consumed in place. -/
def getRecordInPlace (queueLength : UInt64) :
    QProg (Option (Option DataMessage)) := do
  let r ← messageQueueGetBeginL queueLength
  match r with
  | none => return none
  | some none => return some none
  | some (some slot) => do
    let m ← readAndComplete queueLength slot
    return some (some m)

namespace QueueOp

/-- The program of an operation, with its answer as the FIFO gives it. -/
def prog (queueLength : UInt64) : QueueOp → QProg (Fifo.Answer DataMessage)
  | .add m => return .added (← messageQueueAddL queueLength m.mem)
  | .addInPlace m => return .reserved (← addRecordInPlace queueLength m)
  | .get buffer bufferLen => do
    let g ← messageQueueGetL queueLength buffer bufferLen
    return .got (if g.ok then some (DataMessage.ofMem g.buffer) else none)
      g.error
  | .nextLength => do
    let n ← messageQueueNextLengthL queueLength
    return .nextLength (n.map UInt64.toNat)
  | .getInPlace => return .shown (← getRecordInPlace queueLength)
  | .getAvail => return .cells (← messageQueueGetAvailL queueLength).toNat
  | .getFree => return .cells (← messageQueueGetFreeL queueLength).toNat

/-- **The ring as an object.** -/
def step (queueLength : UInt64) :
    Object QueueOp (Fifo.Answer DataMessage) MessageQueueHeader :=
  fun op h => (op.prog queueLength).run QAct.exec h

/-- The operation of the FIFO. -/
def fifoOp : QueueOp → Fifo.Op DataMessage
  | .add m => .add m
  | .addInPlace m => .addInPlace m
  | .get _ bufferLen => .get bufferLen.toNat
  | .nextLength => .nextLength
  | .getInPlace => .getInPlace
  | .getAvail => .getAvail
  | .getFree => .getFree

/-- A message added is shorter than the address space. -/
def Valid : QueueOp → Prop
  | .add m | .addInPlace m => m.size < 2 ^ 64
  | _ => True

end QueueOp

/-- **The abstraction**: the ring represents the records of the FIFO, from
its position on. -/
structure Abstracts (L : ℕ) (h : MessageQueueHeader)
    (f : Fifo DataMessage) : Prop where
  rep : Represents L h f.records
  rd : h.mRd.toNat = f.rd

/-! ## From interference to none -/

section Alone

variable {α : Type} {L : ℕ} {p : QProg α} {t : Traced} {Q : α → Traced → Prop}

/-- The history around a ring does not change what a program does to it. -/
theorem run_traced (msg : MessageQueueHeader → DataMessage) (p : QProg α)
    (t : Traced) :
    (p.run (fun a s => s.exec msg a) t).1 = (p.run QAct.exec t.ring).1
      ∧ (p.run (fun a s => s.exec msg a) t).2.ring
        = (p.run QAct.exec t.ring).2 := by
  induction p generalizing t with
  | ret v => exact ⟨rfl, rfl⟩
  | act a k ih => exact ih _ (t.exec msg a).2

/-- **A writer's operation run alone.** -/
theorem writer_run (msg : MessageQueueHeader → DataMessage)
    (h : p.Wp (writerSpec L msg) Q t) :
    ∃ t', t'.ring = (p.run QAct.exec t.ring).2 ∧ WriterStep L t t'
      ∧ Q (p.run QAct.exec t.ring).1 t' := by
  obtain ⟨hQ, hchain⟩ :=
    Wp.run (fun a s => s.exec msg a) (fun _ _ => rfl) h
  obtain ⟨hans, hring⟩ := run_traced msg p t
  refine ⟨_, hring, ?_, hans ▸ hQ⟩
  exact hchain.trans_induction_on WriterStep.refl id (fun _ _ => .trans)

/-- **A reader's operation run alone.** -/
theorem reader_run (msg : MessageQueueHeader → DataMessage)
    (h : p.Wp (readerSpec L msg) Q t) :
    ∃ t', t'.ring = (p.run QAct.exec t.ring).2 ∧ ReaderStep L t t'
      ∧ Q (p.run QAct.exec t.ring).1 t' := by
  obtain ⟨hQ, hchain⟩ :=
    Wp.run (fun a s => s.exec msg a) (fun _ _ => rfl) h
  obtain ⟨hans, hring⟩ := run_traced msg p t
  refine ⟨_, hring, ?_, hans ▸ hQ⟩
  exact hchain.trans_induction_on ReaderStep.refl id (fun _ _ => .trans)

end Alone

/-! ## One operation -/

section Operations

variable {L : ℕ} {queueLength : UInt64} {h : MessageQueueHeader}
  {f : Fifo DataMessage} {t t' : Traced}

theorem Abstracts.inUse_eq (f : Fifo DataMessage) :
    f.inUse DataMessage.size = used f.records :=
  (used_eq_sum f.records).symm

theorem Abstracts.wr (ha : Abstracts L h f) :
    h.mWr.toNat = f.wr DataMessage.size L := by
  rw [ha.rep.wr_eq, ha.rd, Fifo.wr, Abstracts.inUse_eq]
  rfl

/-- **A ring with no history** but what it represents. -/
structure Fresh (L : ℕ) (f : Fifo DataMessage) (t : Traced) : Prop where
  abs : Abstracts L t.ring f
  accepted : t.accepted = f.records
  taken : t.taken = 0

theorem Abstracts.fresh (ha : Abstracts L h f) :
    ∃ t, t.ring = h ∧ Fresh L f t :=
  ⟨⟨h, f.records, 0⟩, rfl, ha, rfl, rfl⟩

theorem Fresh.pending (ht : Fresh L f t) : t.pending = f.records := by
  rw [Traced.pending, ht.taken, ht.accepted, List.drop_zero]

theorem Fresh.inv (ht : Fresh L f t) : t.Inv L :=
  ⟨by rw [ht.taken]; exact Nat.zero_le _, ht.pending.symm ▸ ht.abs.rep⟩

/-- What a writer leaves. -/
theorem Fresh.writer (ht : Fresh L f t) (hstep : WriterStep L t t') :
    Fresh L { f with records := t'.accepted } t' := by
  have htaken : t'.taken = 0 := hstep.taken.trans ht.taken
  refine ⟨⟨?_, (congrArg UInt64.toNat hstep.rd).trans ht.abs.rd⟩, rfl, htaken⟩
  have hrep := (hstep.inv ht.inv).rep
  rwa [Traced.pending, htaken] at hrep

/-- What a reader leaves that consumed nothing. -/
theorem Fresh.reader (ht : Fresh L f t) (hstep : ReaderStep L t t')
    (htaken : t'.taken = 0) : Fresh L f t' := by
  have hacc := hstep.accepted.trans ht.accepted
  have hrep := (hstep.inv ht.inv).rep
  rw [Traced.pending, htaken, hacc, List.drop_zero] at hrep
  refine ⟨⟨hrep, ?_⟩, hacc, htaken⟩
  unfold Represents at hrep
  rw [hstep.wr] at hrep
  rw [← ht.abs.rd]
  exact hrep.rd_unique ht.abs.rep rfl

/-- What a reader leaves that consumed the head. -/
theorem Fresh.reader_pop {m : DataMessage} {rest : List DataMessage}
    (ht : Fresh L f t) (hf : f.records = m :: rest)
    (hstep : ReaderStep L t t') (htaken : t'.taken = 1) :
    Abstracts L t'.ring (f.pop DataMessage.size L m rest) := by
  have hrep := (hstep.inv ht.inv).rep
  rw [Traced.pending, htaken, hstep.accepted, ht.accepted, hf, List.drop_one,
    List.tail_cons] at hrep
  refine ⟨hrep, ?_⟩
  have hold := ht.abs.rep
  unfold Represents at hrep hold
  rw [hstep.wr] at hrep
  rw [hf, flat_cons] at hold
  show t'.ring.mRd.toNat = (f.rd + m.size) % L
  rw [← ht.abs.rd]
  exact hrep.rd_unique hold.pop rfl

/-- The head, as a reader finds it in the history. -/
theorem Fresh.head {m : DataMessage} (ht : Fresh L f t)
    (hm : t.accepted[t.taken]? = some m) : ∃ rest, f.records = m :: rest := by
  rw [ht.accepted, ht.taken, ← List.head?_eq_getElem?] at hm
  exact List.head?_eq_some_iff.mp hm

/-- Nothing there, as a reader finds it in the history. -/
theorem Fresh.nil (ht : Fresh L f t) (hn : t.accepted.length ≤ t.taken) :
    f.records = [] := by
  rw [ht.accepted, ht.taken] at hn
  exact List.length_eq_zero_iff.mp (Nat.le_zero.mp hn)

/-- **An operation refines the FIFO's**: it gives the same answer and leaves
the ring related. -/
def StepRefines (queueLength : UInt64) (op : QueueOp) (h : MessageQueueHeader)
    (f : Fifo DataMessage) : Prop :=
  (QueueOp.step queueLength op h).1
      = (Fifo.step DataMessage.size queueLength.toNat op.fifoOp f).1
    ∧ Abstracts queueLength.toNat (QueueOp.step queueLength op h).2
      (Fifo.step DataMessage.size queueLength.toNat op.fifoOp f).2

/-- `message_queue_add_l` adds exactly if there is room. -/
theorem step_add (hL : 0 < queueLength.toNat ∧ queueLength.toNat < 2 ^ 63)
    {m : DataMessage} (hm : m.size < 2 ^ 64)
    (ha : Abstracts queueLength.toNat h f) :
    StepRefines queueLength (.add m) h f := by
  obtain ⟨t, rfl, ht⟩ := ha.fresh
  obtain ⟨t', hring, hstep, hpost⟩ := writer_run (fun _ => m)
    (messageQueueAddL_wp hL hm (fun _ => rfl) ht.inv rfl)
  have hleft := (ht.writer hstep).abs
  rw [hring] at hleft
  have hacc := hpost.accepted
  have hfull := hpost.full
  have hlt := hpost.inv.used_lt
  rw [ht.accepted] at hacc
  rw [(ht.writer hstep).pending] at hlt
  rw [ht.pending] at hfull
  unfold StepRefines
  simp only [QueueOp.step, QueueOp.prog, run_bind, pure_eq_ret, run_ret,
    QueueOp.fifoOp, Fifo.step, Abstracts.inUse_eq]
  cases hok : ((messageQueueAddL queueLength m.mem).run QAct.exec t.ring).1
    with
  | true =>
    rw [hok, if_pos rfl] at hacc
    rw [hacc] at hleft hlt
    rw [used_append, used_cons] at hlt
    rw [if_pos (by omega)]
    exact ⟨rfl, hleft⟩
  | false =>
    rw [hok, if_neg Bool.false_ne_true, List.append_nil] at hacc
    rw [hacc] at hleft
    have := hfull hok
    rw [if_neg (by omega)]
    exact ⟨rfl, hleft⟩

/-- `message_queue_get_free_l` -/
theorem step_getFree
    (hL : 0 < queueLength.toNat ∧ queueLength.toNat < 2 ^ 63)
    (ha : Abstracts queueLength.toNat h f) :
    StepRefines queueLength .getFree h f := by
  obtain ⟨t, rfl, ht⟩ := ha.fresh
  obtain ⟨t', hring, hstep, -, hacc, hroom, hfull⟩ := writer_run (fun _ => .empty)
    (messageQueueGetFreeL_wp hL ht.inv rfl)
  have hleft := (ht.writer hstep).abs
  rw [hring, hacc, ht.accepted] at hleft
  have hpend : t'.pending = f.records :=
    (ht.writer hstep).pending.trans (hacc.trans ht.accepted)
  rw [hpend] at hroom
  rw [ht.pending] at hfull
  unfold StepRefines
  simp only [QueueOp.step, QueueOp.prog, run_bind, pure_eq_ret, run_ret,
    QueueOp.fifoOp, Fifo.step, Abstracts.inUse_eq]
  exact ⟨congrArg Fifo.Answer.cells (by omega), hleft⟩

/-- `message_queue_get_avail_l` -/
theorem step_getAvail (ha : Abstracts queueLength.toNat h f) :
    StepRefines queueLength .getAvail h f := by
  obtain ⟨t, rfl, ht⟩ := ha.fresh
  obtain ⟨t', hring, hstep, -, htaken, hge, hle⟩ := reader_run (fun _ => .empty)
    (messageQueueGetAvailL_wp ht.inv rfl)
  have hleft := ht.reader hstep (htaken.trans ht.taken)
  rw [ht.pending] at hge
  rw [hleft.pending] at hle
  have hleft := hleft.abs
  rw [hring] at hleft
  unfold StepRefines
  simp only [QueueOp.step, QueueOp.prog, run_bind, pure_eq_ret, run_ret,
    QueueOp.fifoOp, Fifo.step, Abstracts.inUse_eq]
  exact ⟨congrArg Fifo.Answer.cells (le_antisymm hle hge), hleft⟩

/-- `message_queue_next_length_l` -/
theorem step_nextLength (ha : Abstracts queueLength.toNat h f) :
    StepRefines queueLength .nextLength h f := by
  obtain ⟨t, rfl, ht⟩ := ha.fresh
  obtain ⟨t', hring, hstep, hpost⟩ := reader_run (fun _ => .empty)
    (messageQueueNextLengthL_wp ht.inv rfl)
  have hleft := (ht.reader hstep (hpost.taken.trans ht.taken)).abs
  rw [hring] at hleft
  have hlength := hpost.length
  rw [hstep.accepted] at hlength
  unfold StepRefines
  simp only [QueueOp.step, QueueOp.prog, run_bind, pure_eq_ret, run_ret,
    QueueOp.fifoOp, Fifo.step]
  refine ⟨congrArg Fifo.Answer.nextLength ?_, hleft⟩
  cases hr : ((messageQueueNextLengthL queueLength).run QAct.exec t.ring).1
    with
  | none =>
    rw [ht.nil (hpost.empty hr)]
    rfl
  | some n =>
    obtain ⟨m, hm, hn⟩ := hlength n hr
    obtain ⟨rest, hrest⟩ := ht.head hm
    rw [hrest]
    exact congrArg some hn

/-- `message_queue_get_l` returns the head and consumes it, returns `false`
if there is none, and sets `*error` if it does not fit. -/
theorem step_get {buffer : Bytes} {bufferLen : UInt64}
    (hL : queueLength.toNat < 2 ^ 63) (ha : Abstracts queueLength.toNat h f) :
    StepRefines queueLength (.get buffer bufferLen) h f := by
  obtain ⟨t, rfl, ht⟩ := ha.fresh
  obtain ⟨t', hring, hstep, hpost⟩ := reader_run (fun _ => .empty)
    (show (messageQueueGetL queueLength buffer bufferLen).Wp _ _ t from
      messageQueueGetL_wp hL ht.inv rfl)
  have htaken := hpost.taken
  have hmessage := hpost.message
  have herror := hpost.error
  have hempty := hpost.empty
  rw [hstep.accepted] at hmessage herror
  rw [ht.taken, Nat.zero_add] at htaken
  unfold StepRefines
  simp only [QueueOp.step, QueueOp.prog, run_bind, pure_eq_ret, run_ret,
    QueueOp.fifoOp, Fifo.step]
  rw [← hring]
  generalize ((messageQueueGetL queueLength buffer bufferLen).run QAct.exec
    t.ring).1 = g at htaken hmessage herror hempty
  cases hok : g.ok with
  | true =>
    obtain ⟨herr, hhead, hfits⟩ := hmessage hok
    obtain ⟨rest, hrest⟩ := ht.head hhead
    rw [hok, if_pos rfl] at htaken
    simp only [hrest]
    rw [if_pos hfits, herr]
    exact ⟨rfl, ht.reader_pop hrest hstep htaken⟩
  | false =>
    rw [hok, if_neg Bool.false_ne_true] at htaken
    have hleft := (ht.reader hstep htaken).abs
    cases herr : g.error with
    | true =>
      obtain ⟨m, hhead, hsmall⟩ := herror herr
      obtain ⟨rest, hrest⟩ := ht.head hhead
      simp only [hrest]
      rw [if_neg (not_le.mpr hsmall)]
      exact ⟨rfl, hleft⟩
    | false =>
      have hnil := ht.nil (hempty hok herr)
      simp only [hnil]
      exact ⟨rfl, hleft⟩

/-- **A record stored into a reserved slot and completed** is published. -/
theorem fillAndComplete_wp {msg : MessageQueueHeader → DataMessage}
    {acc : List DataMessage} {m : DataMessage} {slot : ℕ}
    (hL : queueLength.toNat < 2 ^ 63)
    (hmsg : ∀ h, h.mWr.toNat = slot → msg h = DataMessage.ofMem (h.slot slot))
    (hfits : slot + m.size ≤ queueLength.toNat)
    (hs : Room queueLength.toNat acc slot m.size t) :
    (fillAndComplete queueLength m slot).Wp
      (writerSpec queueLength.toNat msg)
      (fun _ s => s.Inv queueLength.toNat ∧ s.accepted = acc ++ [m]) t := by
  have hroom := hs.room
  refine Wp.bind ((memcpyIn_wp msg (w := slot) (n := m.size) m.size slot 0
    (fun j hj => ?_) (by omega)
    ⟨hs, fun j hj => absurd hj (Nat.not_lt_zero j)⟩).mono (fun _ u hu => ?_))
  · rw [Nat.zero_add, Nat.mod_eq_of_lt (by omega)]
  · rw [Nat.zero_add] at hu
    refine messageQueueAddCompleteL_wp (n := m.size) hL hmsg le_rfl
      ⟨hu.toRoom, hfits, m.ofMem_eq (fun k hk => ?_)⟩
    rw [← hu.written k hk, Nat.mod_eq_of_lt (by omega)]
    rfl

/-- `message_queue_add_begin_l` finds room exactly if there is any, and the
record stored in the slot is appended by the completion. -/
theorem step_addInPlace
    (hL : 0 < queueLength.toNat ∧ queueLength.toNat < 2 ^ 63)
    {m : DataMessage} (hm : m.size < 2 ^ 64)
    (ha : Abstracts queueLength.toNat h f) :
    StepRefines queueLength (.addInPlace m) h f := by
  obtain ⟨t, rfl, ht⟩ := ha.fresh
  have hsize := m.size_eq
  obtain ⟨t₁, hring₁, hstep₁, hpost⟩ := writer_run (fun _ => .empty)
    (show (messageQueueAddBeginL queueLength m.mem.mLength).Wp _ _ t from
      messageQueueAddBeginL_wp hL (by omega) ht.inv rfl)
  have hacc := hpost.accepted
  have hfull := hpost.full
  have hroom := hpost.room
  rw [ht.accepted] at hacc
  rw [ht.pending, ← hsize] at hfull
  have ht₁ : Fresh queueLength.toNat f t₁ := by
    have := ht.writer hstep₁
    rwa [hacc] at this
  rw [ht₁.pending, ← hsize, ht₁.abs.wr] at hroom
  unfold StepRefines
  simp only [QueueOp.step, QueueOp.prog, addRecordInPlace, run_bind,
    pure_eq_ret, run_ret, QueueOp.fifoOp, Fifo.step, Abstracts.inUse_eq]
  rw [← hring₁]
  generalize ((messageQueueAddBeginL queueLength m.mem.mLength).run QAct.exec
    t.ring).1 = r at hfull hroom
  match r, hfull, hroom with
  | none, hfull, _ =>
    have := hfull rfl
    rw [if_neg (by omega)]
    exact ⟨rfl, ht₁.abs⟩
  | some slot, _, hroom =>
    obtain ⟨hlt, heq⟩ := hroom slot rfl
    rw [if_pos (by omega)]
    split at heq
    · next hfits =>
      obtain rfl := heq
      rw [if_pos hfits]
      obtain ⟨t₂, hring₂, hstep₂, -, hacc₂⟩ := writer_run
        (fun h => DataMessage.ofMem (h.slot h.mWr.toNat))
        (fillAndComplete_wp hL.2 (fun h hw => by rw [hw]) hfits
          ⟨ht₁.inv, rfl, ht₁.abs.wr, by rw [ht₁.pending]; exact hlt⟩)
      have hleft := (ht₁.writer hstep₂).abs
      rw [hacc₂, ht₁.accepted, hring₂] at hleft
      simp only [run_bind, run_ret]
      exact ⟨trivial, hleft⟩
    · next hfits =>
      obtain rfl := heq
      rw [if_neg hfits]
      exact ⟨rfl, ht₁.abs⟩

/-- **The message in a slot, read and completed**, is the head. -/
theorem readAndComplete_wp {msg : MessageQueueHeader → DataMessage}
    {t₀ slot : ℕ} {m : DataMessage} (hL : queueLength.toNat < 2 ^ 63)
    (hs : Leased queueLength.toNat t₀ slot m t) :
    (readAndComplete queueLength slot).Wp (readerSpec queueLength.toNat msg)
      (fun m' s => m' = m ∧ s.taken = t₀ + 1) t := by
  have hm := m.le_size
  unfold readAndComplete readSlot
  simp only [loadWord, act_bind, ret_bind, bind_assoc, pure_eq_ret]
  refine Wp.observe (fun s => (s.ring.slot slot).load64)
    (fun s r s' hsem => by
      obtain ⟨rfl, rfl⟩ := Prod.mk.inj hsem
      exact ⟨rfl, rfl⟩)
    ReaderStep.refl (fun _ _ => Leased.stable) hs
    (fun u hu => ⟨fun j hj => hu.byte_used (by omega), ?_⟩)
  have hlen : (u.ring.slot slot).load64.toNat + 32 = m.size := by
    rw [m.size_eq, ← m.mLength_eq (fun k hk => hu.mem_eq (by omega))]
    rfl
  rw [hlen]
  have hfits := hu.fits
  have hslot := hu.slot_eq
  refine Wp.bind ((memcpyOut_wp msg m.size 0 slot _
    (fun j hj => ?_) (by omega) (fun k hk => absurd hk (Nat.not_lt_zero k))
    hu.at_head).mono (fun buffer v hv => ?_))
  · rw [← hslot, Nat.zero_add, Nat.mod_eq_of_lt (by omega)]
  · obtain ⟨hhead, hbuf⟩ := hv
    rw [Nat.zero_add] at hbuf
    have hlease : Leased queueLength.toNat t₀ slot m v := by
      refine ⟨?_, by rw [hhead.rd]; exact hslot, hfits⟩
      rw [hhead.rd]
      exact hhead
    refine Wp.bind ((messageQueueGetCompleteL_wp hL hlease).mono
      (fun _ w hw => ?_))
    exact Wp.ret_of (P := fun s => s.taken = t₀ + 1)
      (fun _ _ h hr => hr.taken.trans h) hw.2.1
      (fun _ h => ⟨m.ofMem_eq hbuf, h⟩)

/-- `message_queue_get_begin_l` shows the head exactly if there is one, and
the completion consumes it. -/
theorem step_getInPlace (hL : queueLength.toNat < 2 ^ 63)
    (ha : Abstracts queueLength.toNat h f) :
    StepRefines queueLength .getInPlace h f := by
  obtain ⟨t, rfl, ht⟩ := ha.fresh
  obtain ⟨t₁, hring₁, hstep₁, hpost⟩ := reader_run (fun _ => .empty)
    (messageQueueGetBeginL_wp ht.inv rfl)
  have ht₁ := ht.reader hstep₁ (hpost.taken.trans ht.taken)
  have hempty := hpost.empty
  have hslot := hpost.slot
  unfold StepRefines
  simp only [QueueOp.step, QueueOp.prog, getRecordInPlace, run_bind,
    pure_eq_ret, run_ret, QueueOp.fifoOp, Fifo.step]
  rw [← hring₁]
  generalize ((messageQueueGetBeginL queueLength).run QAct.exec t.ring).1 = r
    at hempty hslot
  match r, hempty, hslot with
  | none, hempty, _ =>
    simp only [ht.nil (hempty rfl)]
    exact ⟨rfl, ht₁.abs⟩
  | some slot, _, hslot =>
    obtain ⟨m, hhead, heq⟩ := hslot slot rfl
    rw [← hpost.taken] at hhead
    obtain ⟨rest, hrest⟩ := ht₁.head hhead
    simp only [hrest]
    rw [ht₁.abs.rd] at heq
    split at heq
    · next hfits =>
      obtain rfl := heq
      rw [if_pos hfits]
      have hlease : Leased queueLength.toNat t₁.taken f.rd m t₁ :=
        ⟨⟨⟨ht₁.inv, rfl, rfl⟩, hhead⟩, ht₁.abs.rd.symm, hfits⟩
      obtain ⟨t₂, hring₂, hstep₂, hm, htaken⟩ := reader_run (fun _ => .empty)
        (readAndComplete_wp hL hlease)
      rw [ht₁.taken] at htaken
      have hleft := ht₁.reader_pop hrest hstep₂ htaken
      rw [hring₂] at hleft
      simp only [run_bind, run_ret, hm]
      exact ⟨trivial, hleft⟩
    · next hfits =>
      obtain rfl := heq
      rw [if_neg hfits]
      exact ⟨rfl, ht₁.abs⟩

end Operations

/-! ## All of them -/

/-- **Every operation refines the FIFO's.** -/
theorem step_refines {queueLength : UInt64}
    (hL : 0 < queueLength.toNat ∧ queueLength.toNat < 2 ^ 63) (op : QueueOp)
    (h : MessageQueueHeader) (f : Fifo DataMessage) (hop : op.Valid)
    (ha : Abstracts queueLength.toNat h f) : StepRefines queueLength op h f := by
  cases op with
  | add m => exact step_add hL hop ha
  | addInPlace m => exact step_addInPlace hL hop ha
  | get buffer bufferLen => exact step_get hL.2 ha
  | nextLength => exact step_nextLength ha
  | getInPlace => exact step_getInPlace hL.2 ha
  | getAvail => exact step_getAvail ha
  | getFree => exact step_getFree hL ha

/-- **The ring refines a bounded FIFO.** From `message_queue_init` on, any
list of operations gets the answers of the FIFO, and the ring represents the
records the FIFO holds, from its position on. -/
theorem queue_refines_fifo {bufferLength : UInt64}
    (h32 : 32 < bufferLength.toNat) (h63 : bufferLength.toNat < 2 ^ 63)
    (h : MessageQueueHeader) {ops : List QueueOp}
    (hops : ∀ op ∈ ops, op.Valid) :
    let queueLength := messageQueueGetQueueLength bufferLength
    let ring := (QueueOp.step queueLength).run ops
      ((messageQueueInit bufferLength).run QAct.exec h).2
    let fifo := Object.run (fun op =>
      Fifo.step DataMessage.size queueLength.toNat op.fifoOp) ops ⟨0, []⟩
    ring.1 = fifo.1 ∧ Represents queueLength.toNat ring.2 fifo.2.records
      ∧ ring.2.mRd.toNat = fifo.2.rd := by
  intro queueLength ring fifo
  have hL := queueLength_bounds h32 h63
  have hstart : Abstracts queueLength.toNat
      ((messageQueueInit bufferLength).run QAct.exec h).2 ⟨0, []⟩ :=
    ⟨(Traced.Inv.init hL.1 bufferLength h).rep, rfl⟩
  obtain ⟨hans, habs⟩ := Object.Refines.run (step_refines hL) hops hstart
  exact ⟨hans, habs.rep, habs.rd⟩

/-- A message of 32 bytes through a ring of 40: it fits, fills the ring so
far that no other does, and is got. -/
theorem queue_refines_fifo_one_message :
    ((QueueOp.step (messageQueueGetQueueLength 72)).run
      [.add .empty, .add .empty, .get (fun _ => 0) 32, .getInPlace]
      ((messageQueueInit 72).run QAct.exec .zeroed).2).1
      = [.added true, .added false, .got (some .empty) false, .shown none] :=
  (queue_refines_fifo (by decide) (by decide) .zeroed
    (by simp [QueueOp.Valid]; decide +kernel)).1.trans rfl
