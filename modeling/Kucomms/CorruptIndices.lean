import Kucomms.QueueAdds

/-!
# Rings with an index out of range

The header is memory that the other side can write, so every operation
checks the indices it finds there. What is missing from the checks is the
index of the other party: those that add a message leave `m_rd` to
`message_queue_get_free_l_base`, for which a ring with a bad index is empty,
and `message_queue_get_complete_l` does not load `m_wr`.

`fails_closed_iff` says what that comes to: with an index out of range the
readers return false and change nothing, and the writers do so exactly when
`m_wr` is the bad one, or when the message would not fit an empty ring.
-/

open Prog

variable {queueLength : UInt64} {h : MessageQueueHeader}

/-- **The operations fail closed**: those that return something return false,
and none of them changes the ring. -/
structure FailsClosed (queueLength : UInt64) (h : MessageQueueHeader)
    (message : Bytes) (hlr : InitMessageFn) (dataLength : UInt64)
    (buffer : Bytes) (bufferLen : UInt64) (slot : ℕ) : Prop where
  add : (messageQueueAddL queueLength message).run QAct.exec h = (false, h)
  addBegin : (messageQueueAddBeginL queueLength dataLength).run QAct.exec h
    = (none, h)
  addComplete : ((messageQueueAddCompleteL queueLength slot).run
    QAct.exec h).2 = h
  addCallback : ((messageQueueAddCallbackL queueLength hlr dataLength buffer
      bufferLen).run QAct.exec h).1.ok = false
    ∧ ((messageQueueAddCallbackL queueLength hlr dataLength buffer
      bufferLen).run QAct.exec h).2 = h
  get : ((messageQueueGetL queueLength buffer bufferLen).run
      QAct.exec h).1.ok = false
    ∧ ((messageQueueGetL queueLength buffer bufferLen).run QAct.exec h).2 = h
  nextLength : (messageQueueNextLengthL queueLength).run QAct.exec h = (none, h)
  getBegin : (messageQueueGetBeginL queueLength).run QAct.exec h = (none, h)
  getComplete : ((messageQueueGetCompleteL queueLength slot).run
    QAct.exec h).2 = h

/-- **What the operations that check only their own index leave to their
arguments.** A message must be as long as the ring with its header, and a
record that is completed must not move the index; a handler must fail and
leave the ring as it was, or meet with one of the two in the bounce buffer. -/
structure RefusedArguments (queueLength : UInt64) (h : MessageQueueHeader)
    (message : Bytes) (hlr : InitMessageFn) (dataLength : UInt64)
    (buffer : Bytes) (bufferLen : UInt64) (slot : ℕ) : Prop where
  add : h.mWr < queueLength → queueLength ≤ message.mLength + sizeofMessage
  addBegin : h.mWr < queueLength → queueLength ≤ dataLength + sizeofMessage
  addComplete : h.mWr < queueLength →
    (h.mWr + ((h.slot slot).mLength + sizeofMessage)) % queueLength = h.mWr
  addCallback : h.mWr < queueLength → dataLength + sizeofMessage < queueLength →
    if queueLength - h.mWr ≥ dataLength + sizeofMessage then
      (handled queueLength h hlr dataLength buffer).1 = false
        ∧ h.through h.mWr.toNat
          (handled queueLength h hlr dataLength buffer).2 = h
    else bufferLen < dataLength + sizeofMessage
      ∨ (handled queueLength h hlr dataLength buffer).1 = false
      ∨ queueLength ≤ (handled queueLength h hlr dataLength buffer).2.mLength
        + sizeofMessage
  getComplete : h.mRd < queueLength →
    (h.slot slot).mLength + sizeofMessage < queueLength →
    (h.mRd + ((h.slot slot).mLength + sizeofMessage)) % queueLength = h.mRd

section Corrupt

variable (hL : queueLength.toNat < 2 ^ 63)
  (hbad : queueLength ≤ h.mRd ∨ queueLength ≤ h.mWr)

include hbad

theorem not_hasHead : ¬ h.HasHead queueLength := fun hhead =>
  hbad.elim (UInt64.not_le.mpr hhead.1) (UInt64.not_le.mpr hhead.2.1)

/-- **A bad read index looks like an empty ring** to the writers. -/
theorem hasRoom_corrupt {messageSize : UInt64} :
    h.HasRoom queueLength messageSize
      ↔ h.mWr < queueLength ∧ messageSize < queueLength := by
  unfold MessageQueueHeader.HasRoom
  rw [and_comm]
  refine and_congr_right (fun hwr => ?_)
  have hrd := hbad.resolve_right (UInt64.not_le.mpr hwr)
  have hfree : messageQueueGetFreeLBase queueLength h.mRd h.mWr
      = queueLength - 1 := by
    unfold messageQueueGetFreeLBase messageQueueGetAvailLBase
    rw [if_pos hrd, UInt64.sub_zero]
  have hpos : 0 < queueLength.toNat :=
    Nat.zero_lt_of_lt (UInt64.lt_iff_toNat_lt.mp hwr)
  have hone : (1 : UInt64) ≤ queueLength :=
    UInt64.le_iff_toNat_le.mpr (by rw [UInt64.toNat_one]; omega)
  rw [hfree, UInt64.le_iff_toNat_le, UInt64.toNat_sub_of_le _ _ hone,
    UInt64.lt_iff_toNat_lt, UInt64.toNat_one]
  omega

include hL

theorem add_closed_iff (message : Bytes) :
    (messageQueueAddL queueLength message).run QAct.exec h = (false, h)
      ↔ (h.mWr < queueLength →
        queueLength ≤ message.mLength + sizeofMessage) := by
  rw [messageQueueAddL_run h hL, ← UInt64.not_lt, ← not_and,
    ← hasRoom_corrupt hbad]
  split
  · next hroom =>
    exact ⟨fun hc => absurd (congrArg Prod.fst hc).symm Bool.false_ne_true,
      fun hno => absurd hroom hno⟩
  · next hroom => exact ⟨fun _ => hroom, fun _ => rfl⟩

omit hL

theorem addBegin_closed_iff (dataLength : UInt64) :
    (messageQueueAddBeginL queueLength dataLength).run QAct.exec h = (none, h)
      ↔ (h.mWr < queueLength →
        queueLength ≤ dataLength + sizeofMessage) := by
  rw [messageQueueAddBeginL_run, ← UInt64.not_lt, ← not_and,
    ← hasRoom_corrupt hbad]
  by_cases hroom : h.HasRoom queueLength (dataLength + sizeofMessage)
  · rw [if_pos hroom]
    refine ⟨fun hc => ?_, fun hno => absurd hroom hno⟩
    cases congrArg Prod.fst hc
  · rw [if_neg hroom]
    exact ⟨fun _ => hroom, fun _ => rfl⟩

omit hbad

/-- An index is left alone if it is set to what it was. -/
theorem set_wr_eq {v : UInt64} : h.set v .wr = h ↔ v = h.mWr :=
  ⟨fun he => congrArg MessageQueueHeader.mWr he, fun he => by rw [he]; rfl⟩

theorem set_rd_eq {v : UInt64} : h.set v .rd = h ↔ v = h.mRd :=
  ⟨fun he => congrArg MessageQueueHeader.mRd he, fun he => by rw [he]; rfl⟩

theorem addComplete_closed_iff (slot : ℕ) :
    ((messageQueueAddCompleteL queueLength slot).run QAct.exec h).2 = h
      ↔ (h.mWr < queueLength → (h.mWr + ((h.slot slot).mLength
        + sizeofMessage)) % queueLength = h.mWr) := by
  rw [messageQueueAddCompleteL_run]
  by_cases hwr : h.mWr < queueLength
  · show ite _ _ _ = h ↔ _
    rw [if_pos hwr, set_wr_eq]
    exact ⟨fun he _ => he, fun he => he hwr⟩
  · exact ⟨fun _ hc => absurd hc hwr, fun _ => if_neg hwr⟩

theorem getComplete_closed_iff (slot : ℕ) :
    ((messageQueueGetCompleteL queueLength slot).run QAct.exec h).2 = h
      ↔ (h.mRd < queueLength →
        (h.slot slot).mLength + sizeofMessage < queueLength →
        (h.mRd + ((h.slot slot).mLength + sizeofMessage)) % queueLength
          = h.mRd) := by
  rw [messageQueueGetCompleteL_run, ← and_imp]
  by_cases hc : h.mRd < queueLength
      ∧ (h.slot slot).mLength + sizeofMessage < queueLength
  · show ite _ _ _ = h ↔ _
    rw [if_pos hc, set_rd_eq]
    exact ⟨fun he _ => he, fun he => he hc⟩
  · exact ⟨fun _ hyes => absurd hyes hc, fun _ => if_neg hc⟩

include hL hbad

theorem addCallback_closed_iff (hlr : InitMessageFn) (dataLength : UInt64)
    (buffer : Bytes) (bufferLen : UInt64) :
    (((messageQueueAddCallbackL queueLength hlr dataLength buffer
          bufferLen).run QAct.exec h).1.ok = false
        ∧ ((messageQueueAddCallbackL queueLength hlr dataLength buffer
          bufferLen).run QAct.exec h).2 = h)
      ↔ (h.mWr < queueLength → dataLength + sizeofMessage < queueLength →
        if queueLength - h.mWr ≥ dataLength + sizeofMessage then
          (handled queueLength h hlr dataLength buffer).1 = false
            ∧ h.through h.mWr.toNat
              (handled queueLength h hlr dataLength buffer).2 = h
        else bufferLen < dataLength + sizeofMessage
          ∨ (handled queueLength h hlr dataLength buffer).1 = false
          ∨ queueLength
            ≤ (handled queueLength h hlr dataLength buffer).2.mLength
              + sizeofMessage) := by
  rw [← and_imp, ← hasRoom_corrupt hbad]
  unfold handled
  by_cases hroom : h.HasRoom queueLength (dataLength + sizeofMessage)
  · rw [imp_iff_right hroom]
    by_cases hfit : queueLength - h.mWr ≥ dataLength + sizeofMessage
    · simp only [if_pos hfit]
      rw [addCallback_inPlace buffer bufferLen hroom hfit Prod.mk.eta.symm]
      refine and_congr_right (fun hok => ?_)
      rw [if_neg (fun hc => Bool.false_ne_true (hok.symm.trans hc))]
    · simp only [if_neg hfit]
      by_cases hbuf : bufferLen < dataLength + sizeofMessage
      · rw [addCallback_short hroom hfit hbuf]
        exact ⟨fun _ => .inl hbuf, fun _ => ⟨rfl, rfl⟩⟩
      · obtain ⟨ok, mem, hrun⟩ : ∃ ok mem, (hlr dataLength).run PtrAct.exec
            buffer = (ok, mem) := ⟨_, _, Prod.mk.eta.symm⟩
        rw [addCallback_bounce hroom hfit (UInt64.not_lt.mp hbuf) hrun, hrun]
        cases ok with
        | false =>
          rw [if_neg Bool.false_ne_true]
          exact ⟨fun _ => .inr (.inl rfl), fun _ => ⟨rfl, rfl⟩⟩
        | true =>
          -- what was written to the bounce buffer is added
          have hadd := add_closed_iff hL hbad mem
          rw [if_pos rfl]
          dsimp only
          refine ⟨fun hclosed => .inr (.inr ?_), fun hcond => ?_⟩
          · exact hadd.mp (Prod.ext hclosed.1 hclosed.2) hroom.2
          · have hlong := (hcond.resolve_left hbuf).resolve_left
              (fun hc => Bool.false_ne_true hc.symm)
            rw [hadd.mpr (fun _ => hlong)]
            exact ⟨rfl, rfl⟩
  · rw [addCallback_noRoom buffer bufferLen hroom]
    exact ⟨fun _ hc => absurd hc hroom, fun _ => ⟨rfl, rfl⟩⟩

/-- **Exactly when the operations fail closed** on a ring with an index out
of range. -/
theorem fails_closed_iff (message : Bytes) (hlr : InitMessageFn)
    (dataLength : UInt64) (buffer : Bytes) (bufferLen : UInt64) (slot : ℕ) :
    FailsClosed queueLength h message hlr dataLength buffer bufferLen slot
      ↔ RefusedArguments queueLength h message hlr dataLength buffer bufferLen
        slot := by
  have hhead := not_hasHead hbad
  have hread : ¬(h.HasHead queueLength
      ∧ h.headSize queueLength < queueLength) := fun hc => hhead hc.1
  constructor
  · intro hclosed
    exact ⟨(add_closed_iff hL hbad message).mp hclosed.add,
      (addBegin_closed_iff hbad dataLength).mp hclosed.addBegin,
      (addComplete_closed_iff slot).mp hclosed.addComplete,
      (addCallback_closed_iff hL hbad hlr dataLength buffer bufferLen).mp
        hclosed.addCallback,
      (getComplete_closed_iff slot).mp hclosed.getComplete⟩
  · intro hrefused
    refine ⟨(add_closed_iff hL hbad message).mpr hrefused.add,
      (addBegin_closed_iff hbad dataLength).mpr hrefused.addBegin,
      (addComplete_closed_iff slot).mpr hrefused.addComplete,
      (addCallback_closed_iff hL hbad hlr dataLength buffer bufferLen).mpr
        hrefused.addCallback, ?_, ?_, ?_,
      (getComplete_closed_iff slot).mpr hrefused.getComplete⟩
    · rcases messageQueueGetL_cases h hL buffer bufferLen with
        ⟨-, error, buffer', heq, -⟩ | ⟨hgets, -⟩
      · rw [heq]
        exact ⟨rfl, rfl⟩
      · exact absurd hgets.1 hhead
    · rw [messageQueueNextLengthL_run h hL, if_neg hread]
    · rw [messageQueueGetBeginL_run h hL, if_neg hread]

end Corrupt

/-- **With one index out of range** everything fails for a message as long as
the ring: if it is `m_rd`, when the record that is completed goes once around
the ring, and if it is `m_wr`, when its length wraps around. -/
theorem fails_closed_long :
    (∀ buffer, FailsClosed 100 ⟨0, 0, 200, 40, fun k => if k = 40 then 68 else 0⟩
      (DataMessage.ofData (List.replicate 68 7)).mem (lengthHlr 68) 68
      buffer 100 40)
    ∧ ∀ buffer, FailsClosed 100
      ⟨0, 0, 40, 200, fun k => if k = 40 then 224 else 255⟩
      (DataMessage.ofData (List.replicate 68 7)).mem (lengthHlr 68) 68
      buffer 100 40 :=
  ⟨fun buffer => (fails_closed_iff (by decide) (.inl (by decide)) _ _ _ _ _ _).mpr
    { add := fun _ => by decide +kernel
      addBegin := fun _ => by decide
      addComplete := fun _ => by decide +kernel
      addCallback := fun _ hfits => absurd hfits (by decide)
      getComplete := fun hrd => absurd hrd (by decide) },
    fun buffer => (fails_closed_iff (by decide) (.inr (by decide)) _ _ _ _ _ _).mpr
    { add := fun hwr => absurd hwr (by decide)
      addBegin := fun hwr => absurd hwr (by decide)
      addComplete := fun hwr => absurd hwr (by decide)
      addCallback := fun hwr => absurd hwr (by decide)
      getComplete := fun _ _ => by decide +kernel }⟩

/-- **A message is added** to a ring whose read index is out of range. -/
theorem fails_open :
    ¬ FailsClosed 100 ⟨0, 0, 200, 0, fun _ => 0⟩ (fun _ => 0) (lengthHlr 0) 0
      (fun _ => 0) 100 0 := by
  intro hclosed
  have hlong := (add_closed_iff (h := ⟨0, 0, 200, 0, fun _ => 0⟩) (by decide)
    (.inl (by decide)) (fun _ => 0)).mp hclosed.add (by decide)
  exact absurd hlong (by decide +kernel)
