import Kucomms.QueueRuns

/-!
# The readers of any ring

Three functions decode the record at the read index, and two of them consume
it. What they make of a ring that a buggy or hostile writer has left is
compared here.

`reads_written_iff`: they consume no more than was written exactly for rings
in which the record at the read index, its size computed without wrapping, is
not longer than what is in use, or else is longer than the ring, also when
its size is computed with wrapping. They compare the size with the length of
the ring only.

`readers_agree`: as long as the size does not wrap, they make the same of any
ring.
-/

open Prog

variable {queueLength : UInt64} {h : MessageQueueHeader}

/-! ## The record at the read index -/

/-- Memory that shows the header at the read index has its `m_length`. -/
theorem mLength_eq_headLength {p : Bytes}
    (hp : ∀ k < 8, p k = h.around queueLength.toNat h.mRd.toNat k) :
    p.mLength = h.headLength queueLength :=
  Bytes.mLength_congr hp

/-- The size that the readers compute, if it does not wrap. -/
theorem toNat_headSize (hwrap : (h.headLength queueLength).toNat + 32 < 2 ^ 64) :
    (h.headSize queueLength).toNat = (h.headLength queueLength).toNat + 32 :=
  toNat_add_header hwrap

/-- A record in one piece is where its slot is. -/
theorem slot_eq_around {slot k : ℕ} (hk : slot + k < queueLength.toNat) :
    h.slot slot k = h.around queueLength.toNat slot k := by
  show h.mQueue (slot + k) = h.mQueue ((slot + k) % queueLength.toNat)
  rw [Nat.mod_eq_of_lt hk]

/-- **When `message_queue_get_begin_l` returns a slot**: the record at the
read index is in one piece. -/
theorem getBegin_slot (hL : queueLength.toNat < 2 ^ 63) {slot : ℕ}
    (hslot : ((messageQueueGetBeginL queueLength).run QAct.exec h).1
      = some (some slot)) :
    slot = h.mRd.toNat ∧ h.HasHead queueLength
      ∧ h.headSize queueLength < queueLength
      ∧ slot + (h.headSize queueLength).toNat ≤ queueLength.toNat := by
  rw [messageQueueGetBeginL_run h hL] at hslot
  obtain ⟨⟨hhead, hsize⟩, hslot⟩ := Option.ite_none_right_eq_some.mp hslot
  obtain ⟨hfit, hslot⟩ :=
    Option.ite_none_right_eq_some.mp (Option.some.inj hslot)
  obtain rfl := Option.some.inj hslot
  have hrd := UInt64.lt_iff_toNat_lt.mp hhead.1
  rw [ge_iff_le, UInt64.le_iff_toNat_le, UInt64.toNat_sub_of_le _ _
    (UInt64.le_iff_toNat_le.mpr hrd.le)] at hfit
  exact ⟨rfl, hhead, hsize, by omega⟩

/-! ## Consuming what was written -/

/-- **The readers consume no more than was written**: a record that is
delivered has a size, computed without wrapping, that is not more than what
is in use, and that much less is in use afterwards. -/
structure ReadsWritten (queueLength : UInt64) (h : MessageQueueHeader) :
    Prop where
  get : ∀ (buffer : Bytes) (bufferLen : UInt64) (g : GetResult)
    (h' : MessageQueueHeader),
    (messageQueueGetL queueLength buffer bufferLen).run QAct.exec h = (g, h') →
    g.ok = true → (DataMessage.ofMem g.buffer).size ≤ h.avail queueLength
      ∧ h'.avail queueLength
        = h.avail queueLength - (DataMessage.ofMem g.buffer).size
  getInPlace : ∀ (slot : ℕ) (h' : MessageQueueHeader),
    (messageQueueGetBeginL queueLength).run QAct.exec h
      = (some (some slot), h') →
    (DataMessage.ofMem (h'.slot slot)).size ≤ h.avail queueLength
      ∧ ((messageQueueGetCompleteL queueLength slot).run QAct.exec
          h').2.avail queueLength
        = h.avail queueLength - (DataMessage.ofMem (h'.slot slot)).size
  nextLength : ∀ (n : UInt64) (h' : MessageQueueHeader),
    (messageQueueNextLengthL queueLength).run QAct.exec h = (some n, h') →
    n.toNat = (h.headLength queueLength).toNat + 32
      ∧ n.toNat ≤ h.avail queueLength

/-- The read index moves past a record that is in use. -/
theorem avail_setRd (hrd : h.mRd < queueLength) (hwr : h.mWr < queueLength) {rd : UInt64}
    {n : ℕ} (hn : n ≤ h.avail queueLength)
    (hmove : rd.toNat = (h.mRd.toNat + n) % queueLength.toNat) :
    (h.set rd .rd).avail queueLength = h.avail queueLength - n := by
  have hrd' := UInt64.lt_iff_toNat_lt.mp hrd
  have hwr' := UInt64.lt_iff_toNat_lt.mp hwr
  have hlt : rd < queueLength := by
    rw [UInt64.lt_iff_toNat_lt, hmove]
    exact Nat.mod_lt _ (by omega)
  rw [avail_eq hrd hwr] at hn
  rw [avail_eq (h := h.set rd .rd) hlt hwr, avail_eq hrd hwr]
  show Cyclic.dist _ rd.toNat h.mWr.toNat = _
  rw [hmove, Cyclic.dist_drop hrd' hwr' hn]

/-- Where `message_queue_get_l` leaves the read index: behind the record. -/
theorem toNat_behind (hL : queueLength.toNat < 2 ^ 63)
    (hrd : h.mRd < queueLength)
    (hm : (h.headLength queueLength).toNat < 2 ^ 63) :
    (((h.mRd + sizeofMessage) % queueLength + h.headLength queueLength)
      % queueLength).toNat
      = (h.mRd.toNat + ((h.headLength queueLength).toNat + 32))
        % queueLength.toNat := by
  have hrd' := UInt64.lt_iff_toNat_lt.mp hrd
  have hhead : ((h.mRd + sizeofMessage) % queueLength).toNat
      = (h.mRd.toNat + 32) % queueLength.toNat :=
    toNat_advance hL hrd' (by decide)
  have hlt : ((h.mRd + sizeofMessage) % queueLength).toNat
      < queueLength.toNat := by
    rw [hhead]
    exact Nat.mod_lt _ (by omega)
  rw [toNat_advance hL hlt hm, hhead, Nat.mod_add_mod, Nat.add_assoc,
    Nat.add_comm 32]

section Written

variable (hL : queueLength.toNat < 2 ^ 63) (hrd : h.mRd < queueLength)
  (hwr : h.mWr < queueLength)
  (hfit : (h.headLength queueLength).toNat + 32 ≤ h.avail queueLength)

include hL hrd hwr hfit

omit hL in
/-- What is in use is less than the ring, so the size does not wrap. -/
theorem headLength_lt :
    (h.headLength queueLength).toNat + 32 < queueLength.toNat := by
  rw [avail_eq hrd hwr] at hfit
  exact lt_of_le_of_lt hfit (Cyclic.dist_lt (UInt64.lt_iff_toNat_lt.mp hrd))

theorem get_written (buffer : Bytes) (bufferLen : UInt64) {g : GetResult}
    {h' : MessageQueueHeader}
    (hrun : (messageQueueGetL queueLength buffer bufferLen).run QAct.exec h
      = (g, h')) (hok : g.ok = true) :
    (DataMessage.ofMem g.buffer).size ≤ h.avail queueLength
      ∧ h'.avail queueLength
        = h.avail queueLength - (DataMessage.ofMem g.buffer).size := by
  have hlt := headLength_lt hrd hwr hfit
  rcases messageQueueGetL_cases h hL buffer bufferLen with
    ⟨-, error, buffer', heq, -⟩ | ⟨-, buffer', heq, hheader, -⟩
  · obtain ⟨rfl, rfl⟩ := Prod.mk.inj (hrun.symm.trans heq)
    exact absurd hok Bool.false_ne_true
  · obtain ⟨rfl, rfl⟩ := Prod.mk.inj (hrun.symm.trans heq)
    have hlen : buffer'.mLength = h.headLength queueLength :=
      mLength_eq_headLength (fun k hk => hheader k (by omega))
    have hsize : (DataMessage.ofMem buffer').size
        = (h.headLength queueLength).toNat + 32 := by
      rw [DataMessage.size_ofMem, hlen]
    show (DataMessage.ofMem buffer').size ≤ _ ∧ _ = _ - (DataMessage.ofMem
      buffer').size
    rw [hsize]
    exact ⟨hfit, avail_setRd hrd hwr hfit (toNat_behind hL hrd (by omega))⟩

theorem getInPlace_written {slot : ℕ} {h' : MessageQueueHeader}
    (hrun : (messageQueueGetBeginL queueLength).run QAct.exec h
      = (some (some slot), h')) :
    (DataMessage.ofMem (h'.slot slot)).size ≤ h.avail queueLength
      ∧ ((messageQueueGetCompleteL queueLength slot).run QAct.exec
          h').2.avail queueLength
        = h.avail queueLength - (DataMessage.ofMem (h'.slot slot)).size := by
  have hlt := headLength_lt hrd hwr hfit
  have hwrap : (h.headLength queueLength).toNat + 32 < 2 ^ 64 := by omega
  have hsize := toNat_headSize hwrap
  have hsame : h' = h := by
    have := congrArg Prod.snd hrun
    rw [messageQueueGetBeginL_run h hL] at this
    exact this.symm
  obtain ⟨hslot, -, hlt', hend⟩ := getBegin_slot hL (congrArg Prod.fst hrun)
  subst hsame hslot
  have hlen : (h'.slot h'.mRd.toNat).mLength = h'.headLength queueLength :=
    mLength_eq_headLength (fun k hk => slot_eq_around (by omega))
  rw [messageQueueGetCompleteL_run, hlen, if_pos ⟨hrd, hlt'⟩,
    DataMessage.size_ofMem, hlen]
  refine ⟨hfit, avail_setRd hrd hwr hfit ?_⟩
  rw [toNat_advance hL (UInt64.lt_iff_toNat_lt.mp hrd)
    (by rw [hsize]; omega), hsize]

end Written

/-- **Exactly when the readers consume no more than was written.** -/
theorem reads_written_iff (hL : queueLength.toNat < 2 ^ 63)
    (hrd : h.mRd < queueLength) (hwr : h.mWr < queueLength) :
    ReadsWritten queueLength h
      ↔ h.mRd = h.mWr
        ∨ (h.headLength queueLength).toNat + 32 ≤ h.avail queueLength
        ∨ queueLength ≤ h.headSize queueLength := by
  constructor
  · intro hreads
    by_cases hne : h.mRd = h.mWr
    · exact .inl hne
    by_cases hsize : h.headSize queueLength < queueLength
    · -- the record is delivered
      have hrun := messageQueueNextLengthL_run h hL
      have hhead : h.HasHead queueLength ∧ h.headSize queueLength
          < queueLength := ⟨⟨hrd, hwr, hne⟩, hsize⟩
      rw [if_pos hhead] at hrun
      obtain ⟨hexact, hle⟩ := hreads.nextLength _ _ hrun
      exact .inr (.inl (hexact ▸ hle))
    · exact .inr (.inr (UInt64.not_lt.mp hsize))
  · intro hcond
    by_cases hfit : (h.headLength queueLength).toNat + 32
        ≤ h.avail queueLength
    · refine ⟨fun buffer bufferLen g h' hrun hok =>
          get_written hL hrd hwr hfit buffer bufferLen hrun hok,
        fun slot h' hrun => getInPlace_written hL hrd hwr hfit hrun,
        fun n h' hrun => ?_⟩
      have hlt := headLength_lt hrd hwr hfit
      have hwrap : (h.headLength queueLength).toNat + 32 < 2 ^ 64 := by omega
      rw [messageQueueNextLengthL_run h hL] at hrun
      obtain ⟨-, hn⟩ := Option.ite_none_right_eq_some.mp
        (congrArg Prod.fst hrun)
      obtain rfl := Option.some.inj hn
      rw [toNat_headSize hwrap]
      exact ⟨rfl, hfit⟩
    · -- no reader delivers the record
      have hno : ¬(h.HasHead queueLength
          ∧ h.headSize queueLength < queueLength) := fun hc =>
        hcond.elim hc.1.2.2 (fun hor => hor.elim hfit
          (UInt64.not_le.mpr hc.2))
      refine ⟨fun buffer bufferLen g h' hrun hok => ?_,
        fun slot h' hrun => ?_, fun n h' hrun => ?_⟩
      · rcases messageQueueGetL_cases h hL buffer bufferLen with
          ⟨-, error, buffer', heq, -⟩ | ⟨hgets, -⟩
        · obtain ⟨rfl, -⟩ := Prod.mk.inj (hrun.symm.trans heq)
          exact absurd hok Bool.false_ne_true
        · exact absurd ⟨hgets.1, hgets.2.2.1⟩ hno
      · obtain ⟨-, hhead, hsize, -⟩ :=
          getBegin_slot hL (congrArg Prod.fst hrun)
        exact absurd ⟨hhead, hsize⟩ hno
      · rw [messageQueueNextLengthL_run h hL, if_neg hno] at hrun
        cases hrun

/-- A ring in which a message of no data was published, of which 32 bytes are
in use. -/
theorem reads_written_header :
    ReadsWritten 100 ⟨0, 0, 0, 32, fun _ => 0⟩ :=
  (reads_written_iff (by decide) (by decide) (by decide)).mpr
    (.inr (.inl (by decide +kernel)))

/-- **A phantom message**: one byte is in use, and a message of 32 bytes is
delivered. -/
theorem reads_unwritten : ¬ ReadsWritten 100 ⟨0, 0, 0, 1, fun _ => 0⟩ := by
  intro hreads
  have hrun : (messageQueueNextLengthL 100).run QAct.exec
      ⟨0, 0, 0, 1, fun _ => 0⟩ = (some 32, ⟨0, 0, 0, 1, fun _ => 0⟩) := by
    rw [messageQueueNextLengthL_run _ (by decide), if_pos (by decide +kernel)]
    refine congrArg (fun n => (some n, _)) ?_
    decide +kernel
  exact absurd (hreads.nextLength _ _ hrun).2 (by decide +kernel)

/-! ## The readers compared -/

/-- **The readers make the same of a ring**: `get` is what
`message_queue_get_l` returned and left, and so on. -/
structure ReadersAgree (queueLength : UInt64) (h : MessageQueueHeader)
    (get : GetResult × MessageQueueHeader)
    (nextLength : Option UInt64 × MessageQueueHeader)
    (getBegin : Option (Option ℕ) × MessageQueueHeader) : Prop where
  same_nextLength : nextLength.1.isSome = get.1.ok
  same_getBegin : getBegin.1.isSome = get.1.ok
  /-- These two change nothing. -/
  nextLength_keeps : nextLength.2 = h
  getBegin_keeps : getBegin.2 = h
  /-- The length is the size of the message that was copied out. -/
  length : ∀ n, nextLength.1 = some n →
    n.toNat = (DataMessage.ofMem get.1.buffer).size
  /-- The slot is null if the record straddles the end of the ring. -/
  null_iff : get.1.ok = true → (getBegin.1 = some none
    ↔ queueLength.toNat
      < h.mRd.toNat + (DataMessage.ofMem get.1.buffer).size)
  /-- The slot shows the message that was copied out. -/
  bytes : ∀ slot, getBegin.1 = some (some slot) →
    ∀ k < (DataMessage.ofMem get.1.buffer).size,
      getBegin.2.slot slot k = get.1.buffer k
  /-- The read index is left at the same place. -/
  complete : ∀ slot, getBegin.1 = some (some slot) →
    ((messageQueueGetCompleteL queueLength slot).run QAct.exec
      getBegin.2).2.mRd = get.2.mRd

/-- A record is in one piece if it ends before the ring does. -/
theorem fits_iff (hrd : h.mRd < queueLength)
    (hwrap : (h.headLength queueLength).toNat + 32 < 2 ^ 64) :
    queueLength - h.mRd ≥ h.headSize queueLength
      ↔ h.mRd.toNat + ((h.headLength queueLength).toNat + 32)
        ≤ queueLength.toNat := by
  have hrdN := UInt64.lt_iff_toNat_lt.mp hrd
  rw [ge_iff_le, UInt64.le_iff_toNat_le, toNat_headSize hwrap,
    UInt64.toNat_sub_of_le _ _ (UInt64.le_iff_toNat_le.mpr hrdN.le)]
  omega

/-- **The readers agree on a record** that fits. -/
theorem readersAgree_record (hL : queueLength.toNat < 2 ^ 63) (buffer : Bytes)
    {bufferLen : UInt64} (hbuf : queueLength ≤ bufferLen)
    (hhead : h.HasHead queueLength)
    (hlt : h.headSize queueLength < queueLength)
    (hwrap : (h.headLength queueLength).toNat + 32 < 2 ^ 64) :
    ReadersAgree queueLength h
      ((messageQueueGetL queueLength buffer bufferLen).run QAct.exec h)
      ((messageQueueNextLengthL queueLength).run QAct.exec h)
      ((messageQueueGetBeginL queueLength).run QAct.exec h) := by
  have hbegin := messageQueueGetBeginL_run h hL
  have hrd := UInt64.lt_iff_toNat_lt.mp hhead.1
  have hsize := toNat_headSize hwrap
  have hltN := UInt64.lt_iff_toNat_lt.mp hlt
  rw [hsize] at hltN
  -- the size is below the ring, and so below the buffer
  have hgets : h.Gets queueLength bufferLen := by
    refine ⟨hhead, ?_, hlt, .inr (UInt64.le_trans (UInt64.le_of_lt hlt)
      hbuf)⟩
    rw [UInt64.le_iff_toNat_le] at hbuf ⊢
    rw [toNat_sizeofMessage]
    omega
  obtain ⟨buffer', heq, hheader, hdata⟩ :=
    messageQueueGetL_copied h hL hgets buffer
  have hlen : buffer'.mLength = h.headLength queueLength :=
    mLength_eq_headLength (fun k hk => hheader k (by omega))
  have hmsg : (DataMessage.ofMem buffer').size
      = (h.headLength queueLength).toNat + 32 := by
    rw [DataMessage.size_ofMem, hlen]
  rw [messageQueueNextLengthL_run h hL, heq, if_pos ⟨hhead, hlt⟩]
  rw [if_pos (⟨hhead, hlt⟩ : _ ∧ _)] at hbegin
  have hfit := fits_iff hhead.1 hwrap
  refine ⟨rfl, by rw [hbegin]; rfl, rfl, by rw [hbegin], ?_, ?_, ?_, ?_⟩
  · rintro n hn
    obtain rfl := Option.some.inj hn
    show _ = (DataMessage.ofMem buffer').size
    rw [hmsg, hsize]
  · rintro -
    show _ ↔ queueLength.toNat
      < h.mRd.toNat + (DataMessage.ofMem buffer').size
    rw [hmsg, hbegin]
    by_cases hc : queueLength - h.mRd ≥ h.headSize queueLength
    · rw [if_pos hc]
      refine ⟨fun he => ?_, fun he => absurd (hfit.mp hc) (by omega)⟩
      cases he
    · rw [if_neg hc]
      exact ⟨fun _ => not_le.mp (fun hle => hc (hfit.mpr hle)), fun _ => rfl⟩
  · intro slot hslot k hk
    obtain ⟨rfl, -, -, hend⟩ := getBegin_slot hL hslot
    rw [hsize] at hend
    have hk' : k < (h.headLength queueLength).toNat + 32 := hmsg ▸ hk
    rw [hbegin]
    show h.slot h.mRd.toNat k = buffer' k
    have hslot_eq : h.slot h.mRd.toNat k
        = h.around queueLength.toNat h.mRd.toNat k :=
      slot_eq_around (by omega)
    rw [hslot_eq]
    by_cases hk32 : k < 32
    · exact (hheader k hk32).symm
    · have := hdata (by omega) (k - 32) (by omega)
      rw [show 32 + (k - 32) = k by omega] at this
      exact this.symm
  · intro slot hslot
    obtain ⟨rfl, -, -, hend⟩ := getBegin_slot hL hslot
    rw [hsize] at hend
    have hslotLen : (h.slot h.mRd.toNat).mLength
        = h.headLength queueLength :=
      mLength_eq_headLength (fun k hk => slot_eq_around (by omega))
    rw [hbegin, messageQueueGetCompleteL_run, hslotLen,
      if_pos ⟨hhead.1, hlt⟩]
    show (h.mRd + h.headSize queueLength) % queueLength = _ % queueLength
    rw [← UInt64.toNat_inj, toNat_behind hL hhead.1 (by omega),
      toNat_advance hL hrd (by rw [hsize]; omega), hsize]

/-- **They agree that there is none.** -/
theorem readersAgree_none (hL : queueLength.toNat < 2 ^ 63) (buffer : Bytes)
    (bufferLen : UInt64) (hread : ¬ (h.HasHead queueLength
      ∧ h.headSize queueLength < queueLength)) :
    ReadersAgree queueLength h
      ((messageQueueGetL queueLength buffer bufferLen).run QAct.exec h)
      ((messageQueueNextLengthL queueLength).run QAct.exec h)
      ((messageQueueGetBeginL queueLength).run QAct.exec h) := by
  have hbegin := messageQueueGetBeginL_run h hL
  rw [if_neg hread] at hbegin
  rw [messageQueueNextLengthL_run h hL, hbegin, if_neg hread]
  rcases messageQueueGetL_cases h hL buffer bufferLen with
    ⟨-, error, buffer', heq, -⟩ | ⟨hgets, -⟩
  · rw [heq]
    refine ⟨rfl, rfl, rfl, rfl, fun n hn => ?_,
      fun hok => absurd hok Bool.false_ne_true, fun slot hslot => ?_,
      fun slot hslot => ?_⟩
    · cases hn
    · cases hslot
    · cases hslot
  · exact absurd ⟨hgets.1, hgets.2.2.1⟩ hread

/-- **All ways of reading a message agree**, whatever is in the ring, as long
as the size of the record at the read index does not wrap and the buffer is
as long as the ring. -/
theorem readers_agree (hL : queueLength.toNat < 2 ^ 63) (buffer : Bytes)
    {bufferLen : UInt64} (hbuf : queueLength ≤ bufferLen)
    (hwrap : h.mRd < queueLength →
      (h.headLength queueLength).toNat < 2 ^ 64 - 32) :
    ReadersAgree queueLength h
      ((messageQueueGetL queueLength buffer bufferLen).run QAct.exec h)
      ((messageQueueNextLengthL queueLength).run QAct.exec h)
      ((messageQueueGetBeginL queueLength).run QAct.exec h) := by
  by_cases hread : h.HasHead queueLength ∧ h.headSize queueLength < queueLength
  · obtain ⟨hhead, hlt⟩ := hread
    have hlen := hwrap hhead.1
    exact readersAgree_record hL buffer hbuf hhead hlt (by omega)
  · exact readersAgree_none hL buffer bufferLen hread

/-- A record that goes around the end of the ring. -/
theorem readers_agree_straddling :
    ReadersAgree 100 ⟨0, 0, 90, 40, fun _ => 0⟩
      ((messageQueueGetL 100 (fun _ => 0) 100).run QAct.exec
        ⟨0, 0, 90, 40, fun _ => 0⟩)
      ((messageQueueNextLengthL 100).run QAct.exec ⟨0, 0, 90, 40, fun _ => 0⟩)
      ((messageQueueGetBeginL 100).run QAct.exec
        ⟨0, 0, 90, 40, fun _ => 0⟩) :=
  readers_agree (by decide) _ (by decide) (by decide +kernel)
