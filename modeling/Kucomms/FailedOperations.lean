import Kucomms.QueueAdds

/-!
# Operations that fail

An operation on a ring can fail in about twenty places, some of them after a
part of its work: a header was copied out, or a handler has written to the
ring. In none of them an index has moved, and in all but one no byte of the
ring is another one: a handler that was given its slot in the ring, and then
returned false, leaves there what it has written.

`fails_unchanged` is for a ring of any content and with any indices. That the
slot of a handler holds no unread bytes is a matter of the free space around
the ring, and needs the indices to be in range (`slot_unread`).
-/

open Prog

variable {queueLength : UInt64} {h : MessageQueueHeader}

/-- The byte `a` is one of those between the read and the write index. -/
def MessageQueueHeader.Unread (h : MessageQueueHeader) (queueLength : UInt64)
    (a : ℕ) : Prop :=
  ∃ k < h.avail queueLength, a = (h.mRd.toNat + k) % queueLength.toNat

/-- There is room for a record of `dataLength` bytes, in one piece at the write
index: this is when a handler is given the ring itself. -/
def MessageQueueHeader.InPlace (h : MessageQueueHeader)
    (queueLength dataLength : UInt64) : Prop :=
  h.HasRoom queueLength (dataLength + sizeofMessage) ∧
    queueLength - h.mWr ≥ dataLength + sizeofMessage

/-- **A ring in which only the slot at the write index was written**, and
none of its `size` bytes was unread. -/
structure OnlySlot (queueLength : UInt64) (h : MessageQueueHeader) (size : ℕ)
    (h' : MessageQueueHeader) : Prop where
  rd : h'.mRd = h.mRd
  wr : h'.mWr = h.mWr
  slot : ∀ a, h'.mQueue a ≠ h.mQueue a →
    h.mWr.toNat ≤ a ∧ a < h.mWr.toNat + size ∧ a < queueLength.toNat
  unread : h.mRd < queueLength → h.mWr < queueLength → ∀ a,
    h'.mQueue a ≠ h.mQueue a → ¬ h.Unread queueLength a

/-- **The operations that fail leave the ring as it was**, but for what a
handler has written to the slot that it was given in the ring. A handler that
was not called, or was given the bounce buffer, changes nothing. -/
structure FailsUnchanged (queueLength : UInt64) (h : MessageQueueHeader)
    (message : Bytes) (hlr : InitMessageFn) (dataLength : UInt64)
    (buffer : Bytes) (bufferLen : UInt64) : Prop where
  add : ((messageQueueAddL queueLength message).run QAct.exec h).1 = false →
    ((messageQueueAddL queueLength message).run QAct.exec h).2 = h
  addBegin : ((messageQueueAddBeginL queueLength dataLength).run
      QAct.exec h).1 = none →
    ((messageQueueAddBeginL queueLength dataLength).run QAct.exec h).2 = h
  addCallback : ((messageQueueAddCallbackL queueLength hlr dataLength buffer
      bufferLen).run QAct.exec h).1.ok = false →
    OnlySlot queueLength h (dataLength.toNat + 32)
      ((messageQueueAddCallbackL queueLength hlr dataLength buffer
        bufferLen).run QAct.exec h).2
  inPlace : ((messageQueueAddCallbackL queueLength hlr dataLength buffer
      bufferLen).run QAct.exec h).1.ok = false →
    h.InPlace queueLength dataLength →
    ((messageQueueAddCallbackL queueLength hlr dataLength buffer
        bufferLen).run QAct.exec h).2
      = h.through h.mWr.toNat
        ((hlr dataLength).run PtrAct.exec (h.slot h.mWr.toNat)).2
  notInPlace : ((messageQueueAddCallbackL queueLength hlr dataLength buffer
      bufferLen).run QAct.exec h).1.ok = false →
    ¬ h.InPlace queueLength dataLength →
    ((messageQueueAddCallbackL queueLength hlr dataLength buffer
      bufferLen).run QAct.exec h).2 = h
  get : ((messageQueueGetL queueLength buffer bufferLen).run
      QAct.exec h).1.ok = false →
    ((messageQueueGetL queueLength buffer bufferLen).run QAct.exec h).2 = h
  nextLength : ((messageQueueNextLengthL queueLength).run
      QAct.exec h).1 = none →
    ((messageQueueNextLengthL queueLength).run QAct.exec h).2 = h
  getBegin : ((messageQueueGetBeginL queueLength).run QAct.exec h).1 = none →
    ((messageQueueGetBeginL queueLength).run QAct.exec h).2 = h
  empty : ((messageQueueGetL queueLength buffer bufferLen).run
        QAct.exec h).1.ok = false
      ∧ ((messageQueueGetL queueLength buffer bufferLen).run
        QAct.exec h).1.error = false
    ↔ h.mRd < queueLength ∧ h.mWr < queueLength ∧ h.mRd = h.mWr

/-! ## The slot of a handler -/

theorem onlySlot_refl {size : ℕ} : OnlySlot queueLength h size h :=
  ⟨rfl, rfl, fun _ hne => absurd rfl hne, fun _ _ _ hne => absurd rfl hne⟩

/-- **What is reserved is not unread**: the slot is a part of what is free. -/
theorem slot_unread (hrd : h.mRd < queueLength) (hwr : h.mWr < queueLength)
    {size : UInt64}
    (hroom : h.HasRoom queueLength size) {a : ℕ}
    (hge : h.mWr.toNat ≤ a) (hlt : a < h.mWr.toNat + size.toNat)
    (hin : a < queueLength.toNat) : ¬ h.Unread queueLength a := by
  rintro ⟨k, hk, rfl⟩
  have hrd' := UInt64.lt_iff_toNat_lt.mp hrd
  have hwr' := UInt64.lt_iff_toNat_lt.mp hwr
  have hfree := (hasRoom_iff hrd hwr).mp hroom
  have havail := avail_lt hrd hwr
  rw [avail_eq hrd hwr] at hk hfree havail
  refine used_ne_free (n := size.toNat) hrd' hwr' hk (by omega) ?_
  rw [Cyclic.dist_eq hwr' hin, if_pos hge]
  omega

/-- A handler that has written to its slot. -/
theorem through_onlySlot {dataLength : UInt64}
    (hwrap : dataLength.toNat + 32 < 2 ^ 64)
    (hroom : h.HasRoom queueLength (dataLength + sizeofMessage))
    (hfit : queueLength - h.mWr ≥ dataLength + sizeofMessage) {mem : Bytes}
    (hmem : ∀ k, dataLength.toNat + 32 ≤ k →
      mem k = h.slot h.mWr.toNat k) :
    OnlySlot queueLength h (dataLength.toNat + 32)
      (h.through h.mWr.toNat mem) := by
  have hsize := toNat_add_header hwrap
  have hslot := slot_fits hroom.2 hfit
  rw [hsize] at hslot
  have hin : ∀ a, (h.through h.mWr.toNat mem).mQueue a ≠ h.mQueue a →
      h.mWr.toNat ≤ a ∧ a < h.mWr.toNat + (dataLength.toNat + 32) := by
    intro a hne
    by_contra hout
    refine hne ?_
    show (if h.mWr.toNat ≤ a then mem (a - h.mWr.toNat) else h.mQueue a)
      = h.mQueue a
    split
    · next hge =>
      rw [hmem _ (by omega)]
      exact congrArg h.mQueue (Nat.add_sub_of_le hge)
    · rfl
  refine ⟨rfl, rfl, fun a hne => ?_, fun hrd hwr a hne => ?_⟩
  · have ha := hin a hne
    exact ⟨ha.1, ha.2, by omega⟩
  · have ha := hin a hne
    exact slot_unread hrd hwr hroom ha.1 (by rw [hsize]; exact ha.2)
      (by omega)

/-- **A handler in the ring that gives up** leaves there what it has written. -/
theorem addCallback_gaveUp {hlr : InitMessageFn} {dataLength : UInt64}
    {buffer : Bytes} {bufferLen : UInt64}
    (hin : h.InPlace queueLength dataLength)
    (hno : ((messageQueueAddCallbackL queueLength hlr dataLength buffer
      bufferLen).run QAct.exec h).1.ok = false) :
    ((messageQueueAddCallbackL queueLength hlr dataLength buffer
        bufferLen).run QAct.exec h).2
      = h.through h.mWr.toNat
        ((hlr dataLength).run PtrAct.exec (h.slot h.mWr.toNat)).2 := by
  obtain ⟨ok, mem, hrun⟩ : ∃ ok mem, (hlr dataLength).run PtrAct.exec
      (h.slot h.mWr.toNat) = (ok, mem) := ⟨_, _, Prod.mk.eta.symm⟩
  rw [addCallback_inPlace buffer bufferLen hin.1 hin.2 hrun] at hno ⊢
  have hok : ok = false := hno
  rw [if_neg (fun hc => Bool.false_ne_true (hok.symm.trans hc)), hrun]

/-! ## The operations -/

section Fails

variable (hL : queueLength.toNat < 2 ^ 63)

include hL

theorem add_fails {message : Bytes}
    (hno : ((messageQueueAddL queueLength message).run QAct.exec h).1
      = false) :
    ((messageQueueAddL queueLength message).run QAct.exec h).2 = h := by
  rw [messageQueueAddL_run h hL] at hno ⊢
  split at hno
  · cases hno
  · next hroom => rw [if_neg hroom]

/-- **A callback that fails elsewhere** did so for want of room, of a bounce
buffer or of the handler's consent, or in the second check of a message from
the bounce buffer. -/
theorem addCallback_refused {hlr : InitMessageFn} {dataLength : UInt64}
    {buffer : Bytes} {bufferLen : UInt64}
    (hout : ¬ h.InPlace queueLength dataLength)
    (hno : ((messageQueueAddCallbackL queueLength hlr dataLength buffer
      bufferLen).run QAct.exec h).1.ok = false) :
    ((messageQueueAddCallbackL queueLength hlr dataLength buffer
      bufferLen).run QAct.exec h).2 = h := by
  by_cases hroom : h.HasRoom queueLength (dataLength + sizeofMessage)
  case neg => rw [addCallback_noRoom buffer bufferLen hroom]
  have hfit : ¬ queueLength - h.mWr ≥ dataLength + sizeofMessage :=
    fun hfit => hout ⟨hroom, hfit⟩
  by_cases hbuf : bufferLen < dataLength + sizeofMessage
  · rw [addCallback_short hroom hfit hbuf]
  obtain ⟨ok, mem, hrun⟩ : ∃ ok mem, (hlr dataLength).run PtrAct.exec
      buffer = (ok, mem) := ⟨_, _, Prod.mk.eta.symm⟩
  rw [addCallback_bounce hroom hfit (UInt64.not_lt.mp hbuf) hrun] at hno ⊢
  cases ok with
  | false => rfl
  | true =>
    rw [if_pos rfl] at hno ⊢
    dsimp only at hno ⊢
    exact add_fails hL hno

/-- In both cases nothing but the slot at the write index was written. -/
theorem addCallback_fails {hlr : InitMessageFn} {dataLength : UInt64}
    (hwrap : dataLength.toNat + 32 < 2 ^ 64)
    (hhlr : (hlr dataLength).All (PtrAct.Inside (dataLength.toNat + 32)))
    {buffer : Bytes} {bufferLen : UInt64}
    (hno : ((messageQueueAddCallbackL queueLength hlr dataLength buffer
      bufferLen).run QAct.exec h).1.ok = false) :
    OnlySlot queueLength h (dataLength.toNat + 32)
      ((messageQueueAddCallbackL queueLength hlr dataLength buffer
        bufferLen).run QAct.exec h).2 := by
  by_cases hin : h.InPlace queueLength dataLength
  · rw [addCallback_gaveUp hin hno]
    exact through_onlySlot hwrap hin.1 hin.2
      (fun k hk => run_outside hhlr (h.slot h.mWr.toNat) hk)
  · rw [addCallback_refused hL hin hno]
    exact onlySlot_refl

theorem get_fails {buffer : Bytes} {bufferLen : UInt64}
    (hno : ((messageQueueGetL queueLength buffer bufferLen).run
      QAct.exec h).1.ok = false) :
    ((messageQueueGetL queueLength buffer bufferLen).run QAct.exec h).2
      = h := by
  rcases messageQueueGetL_cases h hL buffer bufferLen with
    ⟨-, error, buffer', hrun, -⟩ | ⟨-, buffer', hrun, -⟩
  · rw [hrun]
  · rw [hrun] at hno
    cases hno

/-- **No message is not an error**, and only an empty ring has none. -/
theorem get_empty_iff (buffer : Bytes) (bufferLen : UInt64) :
    ((messageQueueGetL queueLength buffer bufferLen).run
          QAct.exec h).1.ok = false
        ∧ ((messageQueueGetL queueLength buffer bufferLen).run
          QAct.exec h).1.error = false
      ↔ h.mRd < queueLength ∧ h.mWr < queueLength ∧ h.mRd = h.mWr := by
  rcases messageQueueGetL_cases h hL buffer bufferLen with
    ⟨-, error, buffer', hrun, herror⟩ | ⟨hgets, buffer', hrun, -⟩
  · rw [hrun, ← herror]
    exact ⟨fun hc => hc.2, fun hc => ⟨rfl, hc⟩⟩
  · rw [hrun]
    exact ⟨fun hc => absurd hc.1.symm Bool.false_ne_true,
      fun hc => absurd hc.2.2 hgets.1.2.2⟩

/-- **Failed operations leave the ring as it was.** -/
theorem fails_unchanged (message : Bytes) {hlr : InitMessageFn}
    {dataLength : UInt64} (hwrap : dataLength.toNat + 32 < 2 ^ 64)
    (hhlr : (hlr dataLength).All (PtrAct.Inside (dataLength.toNat + 32)))
    (buffer : Bytes) (bufferLen : UInt64) :
    FailsUnchanged queueLength h message hlr dataLength buffer bufferLen where
  add := add_fails hL
  addBegin _ := congrArg Prod.snd (messageQueueAddBeginL_run h dataLength)
  addCallback := addCallback_fails hL hwrap hhlr
  inPlace hno hin := addCallback_gaveUp hin hno
  notInPlace hno hout := addCallback_refused hL hout hno
  get := get_fails hL
  nextLength _ := congrArg Prod.snd (messageQueueNextLengthL_run h hL)
  getBegin _ := congrArg Prod.snd (messageQueueGetBeginL_run h hL)
  empty := get_empty_iff hL buffer bufferLen

end Fails

/-- A handler that writes the last byte of its slot, and then gives up. -/
def giveUpHlr : InitMessageFn := fun dataLength =>
  .act (.store (dataLength.toNat + 31) 7) (fun _ => .ret false)

/-- That handler in a ring that has an unread byte before its slot. -/
theorem fails_unchanged_handler :
    FailsUnchanged 100 ⟨0, 0, 10, 11, fun _ => 1⟩ (fun _ => 0) giveUpHlr 8
      (fun _ => 0) 40 := by
  have hinside : (giveUpHlr 8).All
      (PtrAct.Inside ((8 : UInt64).toNat + 32)) :=
    ⟨Nat.lt_succ_self _, fun _ => trivial⟩
  exact fails_unchanged (by decide) _ (by decide) hinside _ _
