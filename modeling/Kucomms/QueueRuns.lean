import Kucomms.QueueInvariant

/-!
# The operations on any ring

What each operation of `message_queue.c` does to a ring when it runs alone,
as one equation: for a ring of any content, with indices in range or not. A
peer may have written anything there, so nothing is assumed to be
represented by the ring.

A record begins at an index and goes around the ring: `around` is the memory
that shows, and `written` the ring after a record was copied to it.
-/

open Prog

namespace MessageQueueHeader

/-- The bytes from an index on, around a ring of length `L`. -/
def around (h : MessageQueueHeader) (L i : ℕ) : Bytes :=
  fun k => h.mQueue ((i + k) % L)

/-- A ring of length `L` after `n` bytes of a message were copied around it,
from the index `i` on. -/
def written (h : MessageQueueHeader) (L i : ℕ) (message : Bytes) (n : ℕ) :
    MessageQueueHeader :=
  { h with mQueue := fun a =>
      if a < L ∧ Cyclic.dist L i a < n then message (Cyclic.dist L i a)
      else h.mQueue a }

/-- `m_length` of the record at the read index. -/
def headLength (h : MessageQueueHeader) (queueLength : UInt64) : UInt64 :=
  (h.around queueLength.toNat h.mRd.toNat).mLength

/-- What every reader checks of the indices. -/
def HasHead (h : MessageQueueHeader) (queueLength : UInt64) : Prop :=
  h.mRd < queueLength ∧ h.mWr < queueLength ∧ h.mRd ≠ h.mWr

instance (h : MessageQueueHeader) (queueLength : UInt64) :
    Decidable (h.HasHead queueLength) :=
  inferInstanceAs (Decidable (_ ∧ _))

/-- What every writer checks: that `messageSize` bytes are free, and the
write index. -/
def HasRoom (h : MessageQueueHeader) (queueLength messageSize : UInt64) :
    Prop :=
  messageSize ≤ messageQueueGetFreeLBase queueLength h.mRd h.mWr
    ∧ h.mWr < queueLength

instance (h : MessageQueueHeader) (queueLength messageSize : UInt64) :
    Decidable (h.HasRoom queueLength messageSize) :=
  inferInstanceAs (Decidable (_ ∧ _))

end MessageQueueHeader

/-! ## Single accesses -/

section Accesses

variable {α : Type} (h : MessageQueueHeader)

theorem loadRd_run (k : UInt64 → QProg α) :
    (loadField .rd >>= k).run QAct.exec h = (k h.mRd).run QAct.exec h := rfl

theorem loadWr_run (k : UInt64 → QProg α) :
    (loadField .wr >>= k).run QAct.exec h = (k h.mWr).run QAct.exec h := rfl

theorem loadWord_run (slot : ℕ) (k : UInt64 → QProg α) :
    (loadWord slot >>= k).run QAct.exec h
      = (k (h.slot slot).mLength).run QAct.exec h := rfl

theorem storeField_run (f : HeaderField) (v : UInt64) (k : Unit → QProg α) :
    (storeField f v >>= k).run QAct.exec h
      = (k ()).run QAct.exec (h.set v f) := rfl

end Accesses

/-! ## What is in use -/

/-- What `message_queue_get_avail_l` returns. -/
def MessageQueueHeader.avail (h : MessageQueueHeader) (queueLength : UInt64) :
    ℕ :=
  ((messageQueueGetAvailL queueLength).run QAct.exec h).1.toNat

/-- With both indices in range it is their distance. -/
theorem avail_eq {queueLength : UInt64} {h : MessageQueueHeader}
    (hrd : h.mRd < queueLength) (hwr : h.mWr < queueLength) :
    h.avail queueLength
      = Cyclic.dist queueLength.toNat h.mRd.toNat h.mWr.toNat :=
  toNat_getAvailLBase (UInt64.lt_iff_toNat_lt.mp hrd)
    (UInt64.lt_iff_toNat_lt.mp hwr)

/-! ## Copying -/

section Copying

variable {queueLength : UInt64} (h : MessageQueueHeader)

/-- An index moved ahead by a number. -/
theorem toNat_advance_ofNat (hL : queueLength.toNat < 2 ^ 63) {i : UInt64}
    {n : ℕ} (hi : i.toNat < queueLength.toNat) (hn : n < 2 ^ 63) :
    ((i + UInt64.ofNat n) % queueLength).toNat
      = (i.toNat + n) % queueLength.toNat := by
  have hof : (UInt64.ofNat n).toNat = n := Nat.mod_eq_of_lt (by omega)
  rw [toNat_advance hL hi (by rwa [hof]), hof]

/-- **The loop that copies a header**, around the ring. -/
theorem copyHeader_run (hL : queueLength.toNat < 2 ^ 63)
    (dst : ℕ → CopyDst) (n u0 : ℕ) (rd : UInt64) (buffer : Bytes)
    (hn : n < 2 ^ 63) (hrd : rd < queueLength) :
    (copyHeader queueLength dst n u0 rd buffer).run QAct.exec h
      = (((rd + UInt64.ofNat n) % queueLength,
          fun k => if u0 ≤ k ∧ k < u0 + n
            then h.around queueLength.toNat rd.toNat (k - u0)
            else buffer k), h) := by
  rw [UInt64.lt_iff_toNat_lt] at hrd
  induction n generalizing u0 rd buffer with
  | zero =>
    show ((rd, buffer), h) = _
    refine congrArg (fun x => (x, h)) (Prod.ext ?_ ?_)
    · show rd = (rd + 0) % queueLength
      rw [UInt64.add_zero, ← UInt64.toNat_inj, UInt64.toNat_mod,
        Nat.mod_eq_of_lt hrd]
    · funext k
      show buffer k = if u0 ≤ k ∧ k < u0 + 0 then _ else _
      rw [if_neg (by omega)]
  | succ n ih =>
    have hnext : ((rd + 1) % queueLength).toNat
        = (rd.toNat + 1) % queueLength.toNat :=
      toNat_advance hL hrd (by rw [UInt64.toNat_one]; omega)
    have hlt : ((rd + 1) % queueLength).toNat < queueLength.toNat := by
      rw [hnext]
      exact Nat.mod_lt _ (by omega)
    show (copyHeader queueLength dst n (u0 + 1) ((rd + 1) % queueLength)
      (Function.update buffer u0 (h.mQueue rd.toNat))).run QAct.exec h = _
    rw [ih _ _ _ (by omega) hlt]
    refine congrArg (fun x => (x, h)) (Prod.ext ?_ ?_)
    · show ((rd + 1) % queueLength + UInt64.ofNat n) % queueLength
        = (rd + UInt64.ofNat (n + 1)) % queueLength
      rw [← UInt64.toNat_inj, toNat_advance_ofNat hL hlt (by omega),
        toNat_advance_ofNat hL hrd hn, hnext, Nat.mod_add_mod, Nat.add_assoc,
        Nat.add_comm 1 n]
    · funext k
      show (if u0 + 1 ≤ k ∧ k < u0 + 1 + n then
          h.around queueLength.toNat ((rd + 1) % queueLength).toNat
            (k - (u0 + 1))
          else Function.update buffer u0 (h.mQueue rd.toNat) k)
        = if u0 ≤ k ∧ k < u0 + (n + 1) then _ else _
      unfold MessageQueueHeader.around
      by_cases hk : k = u0
      · rw [if_neg (by omega), if_pos (by omega), hk, Function.update_self,
          Nat.sub_self, Nat.add_zero, Nat.mod_eq_of_lt hrd]
      · rw [Function.update_of_ne hk]
        split
        · rw [if_pos (by omega), hnext, Nat.mod_add_mod,
            show rd.toNat + 1 + (k - (u0 + 1)) = rd.toNat + (k - u0) by omega]
        · rw [if_neg (by omega)]

/-- `memcpy` out of the ring. -/
theorem memcpyOut_run (dst src n : ℕ) (buffer : Bytes) :
    (memcpyOut dst src n buffer).run QAct.exec h
      = (fun k => if dst ≤ k ∧ k < dst + n then h.mQueue (src + (k - dst))
          else buffer k, h) := by
  induction n generalizing dst src buffer with
  | zero =>
    show (buffer, h) = _
    refine congrArg (fun x => (x, h)) ?_
    funext k
    rw [if_neg (by omega)]
  | succ n ih =>
    show (memcpyOut (dst + 1) (src + 1) n
      (Function.update buffer dst (h.mQueue src))).run QAct.exec h = _
    rw [ih]
    refine congrArg (fun x => (x, h)) ?_
    funext k
    by_cases hk : k = dst
    · rw [if_neg (by omega), if_pos (by omega), hk, Function.update_self,
        Nat.sub_self, Nat.add_zero]
    · rw [Function.update_of_ne hk]
      split
      · rw [if_pos (by omega),
          show src + 1 + (k - (dst + 1)) = src + (k - dst) by omega]
      · rw [if_neg (by omega)]

/-- `memcpy` into the ring. -/
theorem memcpyIn_run (message : Bytes) (dst src n : ℕ) :
    (memcpyIn message dst src n).run QAct.exec h
      = ((), { h with mQueue := fun a => if dst ≤ a ∧ a < dst + n
          then message (src + (a - dst)) else h.mQueue a }) := by
  induction n generalizing dst src h with
  | zero =>
    show ((), h) = _
    refine congrArg (fun q => ((), { h with mQueue := q })) ?_
    funext a
    rw [if_neg (by omega)]
  | succ n ih =>
    show (memcpyIn message (dst + 1) (src + 1) n).run QAct.exec
      { h with mQueue := Function.update h.mQueue dst (message src) } = _
    rw [ih]
    refine congrArg (fun q => ((), { h with mQueue := q })) ?_
    funext a
    show (if dst + 1 ≤ a ∧ a < dst + 1 + n then _
      else Function.update h.mQueue dst (message src) a) = _
    by_cases ha : a = dst
    · rw [if_neg (by omega), if_pos (by omega), ha, Function.update_self,
        Nat.sub_self, Nat.add_zero]
    · rw [Function.update_of_ne ha]
      split
      · rw [if_pos (by omega),
          show src + 1 + (a - (dst + 1)) = src + (a - dst) by omega]
      · rw [if_neg (by omega)]

/-- A record that does not go around the end. -/
theorem written_in_place {h : MessageQueueHeader} {L i n : ℕ}
    {message : Bytes} (hfit : i + n ≤ L) (hi : i < L) (a : ℕ) :
    (h.written L i message n).mQueue a
      = if i ≤ a ∧ a < i + n then message (a - i) else h.mQueue a := by
  show (if a < L ∧ Cyclic.dist L i a < n then message (Cyclic.dist L i a)
    else h.mQueue a) = _
  by_cases ha : i ≤ a ∧ a < i + n
  · have hdist : Cyclic.dist L i a = a - i := by
      rw [Cyclic.dist_eq hi (by omega), if_pos ha.1]
    rw [if_pos ha, hdist, if_pos (by omega)]
  · rw [if_neg ha, if_neg]
    rintro ⟨hlt, hdist⟩
    rw [Cyclic.dist_eq hi hlt] at hdist
    split at hdist <;> omega

/-- **A message copied around the ring**, if it is shorter than the ring. -/
theorem copyMessageIn_run {wr messageSize : UInt64} (message : Bytes)
    (hwr : wr < queueLength) (hsize : messageSize < queueLength) :
    (copyMessageIn queueLength wr message messageSize).run QAct.exec h
      = ((), h.written queueLength.toNat wr.toNat message
          messageSize.toNat) := by
  rw [UInt64.lt_iff_toNat_lt] at hwr hsize
  have hhead : (queueLength - wr).toNat = queueLength.toNat - wr.toNat :=
    UInt64.toNat_sub_of_le _ _ (UInt64.le_iff_toNat_le.mpr hwr.le)
  unfold copyMessageIn
  rw [run_ite]
  split
  · next hge =>
    rw [ge_iff_le, UInt64.le_iff_toNat_le, hhead] at hge
    rw [memcpyIn_run]
    refine congrArg (fun q => ((), { h with mQueue := q })) ?_
    funext a
    rw [Nat.zero_add]
    exact (written_in_place (h := h) (by omega) hwr a).symm
  · next hlt =>
    rw [ge_iff_le, UInt64.le_iff_toNat_le, hhead] at hlt
    have htail : (messageSize - (queueLength - wr)).toNat
        = messageSize.toNat - (queueLength.toNat - wr.toNat) := by
      rw [UInt64.toNat_sub_of_le _ _
        (UInt64.le_iff_toNat_le.mpr (by omega)), hhead]
    rw [run_bind, memcpyIn_run, memcpyIn_run, htail, hhead]
    refine congrArg (fun q => ((), { h with mQueue := q })) ?_
    funext a
    show (if 0 ≤ a ∧ a < 0 + (messageSize.toNat
          - (queueLength.toNat - wr.toNat)) then _
      else if wr.toNat ≤ a ∧ a < wr.toNat + (queueLength.toNat - wr.toNat)
        then _ else h.mQueue a) = _
    by_cases hlow : a < messageSize.toNat - (queueLength.toNat - wr.toNat)
    · -- the part around the end
      have hdist : Cyclic.dist queueLength.toNat wr.toNat a
          = queueLength.toNat - wr.toNat + a := by
        rw [Cyclic.dist_eq hwr (by omega), if_neg (by omega)]
        omega
      rw [if_pos (by omega), hdist, if_pos (by omega), Nat.sub_zero]
    · rw [if_neg (by omega)]
      by_cases ha : wr.toNat ≤ a ∧ a < queueLength.toNat
      · have hdist : Cyclic.dist queueLength.toNat wr.toNat a
            = a - wr.toNat := by
          rw [Cyclic.dist_eq hwr ha.2, if_pos ha.1]
        rw [if_pos (by omega), hdist, if_pos (by omega), Nat.zero_add]
      · rw [if_neg (by omega), if_neg]
        rintro ⟨hlt', hdist⟩
        rw [Cyclic.dist_eq hwr hlt'] at hdist
        split at hdist <;> omega

end Copying

/-! ## The writers -/

section Writers

variable {queueLength : UInt64}

/-- What is free is less than the ring, also when the read index is out of
range. -/
theorem getFreeLBase_lt (hL : queueLength.toNat < 2 ^ 63) {rd wr : UInt64}
    (hwr : wr < queueLength) :
    messageQueueGetFreeLBase queueLength rd wr < queueLength := by
  rw [UInt64.lt_iff_toNat_lt] at hwr ⊢
  by_cases hrd : rd.toNat < queueLength.toNat
  · rw [toNat_getFreeLBase hrd hwr]
    omega
  · have hfree : messageQueueGetFreeLBase queueLength rd wr
        = queueLength - 1 := by
      unfold messageQueueGetFreeLBase messageQueueGetAvailLBase
      rw [if_pos (UInt64.le_iff_toNat_le.mpr (Nat.not_lt.mp hrd)), UInt64.sub_zero]
    rw [hfree, UInt64.toNat_sub_of_le _ _ (UInt64.le_iff_toNat_le.mpr
      (by rw [UInt64.toNat_one]; omega)), UInt64.toNat_one]
    omega

variable (h : MessageQueueHeader)

theorem messageQueueAddL_run (hL : queueLength.toNat < 2 ^ 63)
    (message : Bytes) :
    (messageQueueAddL queueLength message).run QAct.exec h
      = if h.HasRoom queueLength (message.mLength + sizeofMessage) then
          (true, (h.written queueLength.toNat h.mWr.toNat message
            (message.mLength + sizeofMessage).toNat).set
              ((h.mWr + (message.mLength + sizeofMessage)) % queueLength) .wr)
        else (false, h) := by
  unfold messageQueueAddL
  simp only [loadRd_run, loadWr_run, run_ite]
  by_cases hsize : message.mLength + sizeofMessage
      ≤ messageQueueGetFreeLBase queueLength h.mRd h.mWr
  · rw [if_neg (UInt64.not_lt.mpr hsize)]
    by_cases hwr : h.mWr < queueLength
    · rw [if_neg (UInt64.not_le.mpr hwr), if_pos ⟨hsize, hwr⟩, run_bind,
        copyMessageIn_run h message hwr
          (UInt64.lt_of_le_of_lt hsize (getFreeLBase_lt hL hwr))]
      exact rfl
    · rw [if_pos (UInt64.not_lt.mp hwr), if_neg (fun hroom => hwr hroom.2)]
      exact rfl
  · rw [if_pos (UInt64.not_le.mp hsize), if_neg (fun hroom => hsize hroom.1)]
    exact rfl

theorem messageQueueAddBeginL_run (dataLength : UInt64) :
    (messageQueueAddBeginL queueLength dataLength).run QAct.exec h
      = (if h.HasRoom queueLength (dataLength + sizeofMessage) then
          some (if queueLength - h.mWr ≥ dataLength + sizeofMessage
            then some h.mWr.toNat else none)
        else none, h) := by
  unfold messageQueueAddBeginL
  simp only [loadRd_run, loadWr_run, run_ite]
  by_cases hsize : dataLength + sizeofMessage
      ≤ messageQueueGetFreeLBase queueLength h.mRd h.mWr
  · rw [if_neg (UInt64.not_lt.mpr hsize)]
    by_cases hwr : h.mWr < queueLength
    · have hroom : h.HasRoom queueLength (dataLength + sizeofMessage) :=
        ⟨hsize, hwr⟩
      rw [if_neg (UInt64.not_le.mpr hwr), if_pos hroom]
      split
      · rfl
      · rfl
    · rw [if_pos (UInt64.not_lt.mp hwr), if_neg (fun hroom => hwr hroom.2)]
      rfl
  · rw [if_pos (UInt64.not_le.mp hsize), if_neg (fun hroom => hsize hroom.1)]
    rfl

theorem messageQueueAddCompleteL_run (slot : ℕ) :
    (messageQueueAddCompleteL queueLength slot).run QAct.exec h
      = ((), if h.mWr < queueLength then
          h.set ((h.mWr + ((h.slot slot).mLength + sizeofMessage))
            % queueLength) .wr
        else h) := by
  unfold messageQueueAddCompleteL
  simp only [loadWord_run, loadWr_run, run_ite]
  by_cases hwr : h.mWr < queueLength
  · rw [if_neg (UInt64.not_le.mpr hwr), if_pos hwr]
    rfl
  · rw [if_pos (UInt64.not_lt.mp hwr), if_neg hwr]
    rfl

end Writers

/-! ## The readers -/

section Readers

variable {queueLength : UInt64} (h : MessageQueueHeader)

/-- **The header at the read index**, copied. -/
theorem copyHeader_head (hL : queueLength.toNat < 2 ^ 63)
    (dst : ℕ → CopyDst) (buffer : Bytes) (hrd : h.mRd < queueLength) :
    (copyHeader queueLength dst 32 0 h.mRd buffer).run QAct.exec h
      = (((h.mRd + sizeofMessage) % queueLength,
          fun k => if k < 32 then h.around queueLength.toNat h.mRd.toNat k
            else buffer k), h) := by
  rw [copyHeader_run h hL dst 32 0 h.mRd buffer (by decide) hrd]
  refine congrArg (fun b => (((h.mRd + sizeofMessage) % queueLength, b), h)) ?_
  funext k
  simp only [Nat.zero_le, true_and, Nat.zero_add, Nat.sub_zero]

/-- Its `m_length`, whatever the bytes behind it. -/
theorem mLength_head (buffer : Bytes) :
    Bytes.mLength (fun k => if k < 32
      then h.around queueLength.toNat h.mRd.toNat k else buffer k)
      = h.headLength queueLength :=
  Bytes.mLength_congr (fun k hk => if_pos (by omega))

/-- **What every reader does first**: the checks of the indices. -/
theorem head_run {α : Type} (bad₁ bad₂ empty : α) (yes : UInt64 → QProg α) :
    (do
      let rd ← loadField .rd
      let wr ← loadField .wr
      if rd ≥ queueLength then return bad₁
      else if wr ≥ queueLength then return bad₂
      else if rd = wr then return empty
      else yes rd : QProg α).run QAct.exec h
      = if h.HasHead queueLength then (yes h.mRd).run QAct.exec h
        else (if h.mRd ≥ queueLength then bad₁
          else if h.mWr ≥ queueLength then bad₂ else empty, h) := by
  simp only [loadRd_run, loadWr_run, run_ite]
  by_cases hrd : h.mRd < queueLength
  · rw [if_neg (UInt64.not_le.mpr hrd), if_neg (UInt64.not_le.mpr hrd)]
    by_cases hwr : h.mWr < queueLength
    · rw [if_neg (UInt64.not_le.mpr hwr), if_neg (UInt64.not_le.mpr hwr)]
      by_cases hne : h.mRd = h.mWr
      · rw [if_pos hne, if_neg (fun hhead => hhead.2.2 hne)]
        rfl
      · have hhead : h.HasHead queueLength := ⟨hrd, hwr, hne⟩
        rw [if_neg hne, if_pos hhead]
    · rw [if_pos (UInt64.not_lt.mp hwr), if_pos (UInt64.not_lt.mp hwr),
        if_neg (fun hhead => hwr hhead.2.1)]
      rfl
  · rw [if_pos (UInt64.not_lt.mp hrd), if_pos (UInt64.not_lt.mp hrd),
      if_neg (fun hhead => hrd hhead.1)]
    rfl

/-- The size of the record at the read index, as the readers compute it. -/
abbrev MessageQueueHeader.headSize (h : MessageQueueHeader)
    (queueLength : UInt64) : UInt64 :=
  h.headLength queueLength + sizeofMessage

theorem messageQueueNextLengthL_run (hL : queueLength.toNat < 2 ^ 63) :
    (messageQueueNextLengthL queueLength).run QAct.exec h
      = (if h.HasHead queueLength ∧ h.headSize queueLength < queueLength then
          some (h.headSize queueLength)
        else none, h) := by
  unfold messageQueueNextLengthL
  rw [head_run]
  split
  · next hhead =>
    rw [run_bind, copyHeader_head h hL .message stackMessage hhead.1]
    simp only [mLength_head, run_ite]
    split
    · next hsize =>
      rw [if_neg (fun hc => UInt64.not_lt.mpr hsize hc.2)]
      rfl
    · next hsize =>
      rw [if_pos ⟨hhead, UInt64.not_le.mp hsize⟩]
      rfl
  · next hhead =>
    rw [ite_self, ite_self, if_neg (fun hc => hhead hc.1)]

theorem messageQueueGetBeginL_run (hL : queueLength.toNat < 2 ^ 63) :
    (messageQueueGetBeginL queueLength).run QAct.exec h
      = (if h.HasHead queueLength ∧ h.headSize queueLength < queueLength then
          some (if queueLength - h.mRd ≥ h.headSize queueLength
            then some h.mRd.toNat else none)
        else none, h) := by
  unfold messageQueueGetBeginL
  rw [head_run]
  split
  · next hhead =>
    rw [run_bind, copyHeader_head h hL .message stackMessage hhead.1]
    simp only [mLength_head, run_ite]
    split
    · next hsize =>
      rw [if_neg (fun hc => UInt64.not_lt.mpr hsize hc.2)]
      rfl
    · next hsize =>
      rw [if_pos (⟨hhead, UInt64.not_le.mp hsize⟩ : _ ∧ _)]
      split
      · rfl
      · rfl
  · next hhead =>
    rw [ite_self, ite_self, if_neg (fun hc => hhead hc.1)]

theorem messageQueueGetCompleteL_run (slot : ℕ) :
    (messageQueueGetCompleteL queueLength slot).run QAct.exec h
      = ((), if h.mRd < queueLength
            ∧ (h.slot slot).mLength + sizeofMessage < queueLength then
          h.set ((h.mRd + ((h.slot slot).mLength + sizeofMessage))
            % queueLength) .rd
        else h) := by
  unfold messageQueueGetCompleteL
  simp only [loadWord_run, loadRd_run, run_ite]
  split
  · next hrd =>
    rw [if_neg (fun hc => UInt64.not_lt.mpr hrd hc.1)]
    rfl
  · next hrd =>
    split
    · next hsize =>
      rw [if_neg (fun hc => UInt64.not_lt.mpr hsize hc.2)]
      rfl
    · next hsize =>
      rw [if_pos ⟨UInt64.not_le.mp hrd, UInt64.not_le.mp hsize⟩]
      rfl

/-- `message_queue_get_l` copies to its buffer and leaves the ring as it
is. -/
theorem copyDataOut_ring (rd mLength : UInt64) (buffer : Bytes) :
    ((copyDataOut queueLength rd mLength buffer).run QAct.exec h).2 = h := by
  unfold copyDataOut
  rw [run_ite]
  split
  · rw [memcpyOut_run]
  · rw [run_bind, memcpyOut_run, memcpyOut_run]

/-- The copy of the data leaves the header alone. -/
theorem copyDataOut_header (rd mLength : UInt64) (buffer : Bytes) {k : ℕ}
    (hk : k < 32) :
    ((copyDataOut queueLength rd mLength buffer).run QAct.exec h).1 k
      = buffer k := by
  unfold copyDataOut
  rw [run_ite]
  split
  · rw [memcpyOut_run]
    exact if_neg (by omega)
  · rw [run_bind, memcpyOut_run, memcpyOut_run]
    exact (if_neg (by omega)).trans (if_neg (by omega))

/-- **The data of a record**, if there are as many bytes in the ring. -/
theorem copyDataOut_data {rd mLength : UInt64} (buffer : Bytes)
    (hrd : rd.toNat < queueLength.toNat)
    (hm : mLength.toNat ≤ queueLength.toNat) {k : ℕ}
    (hk : k < mLength.toNat) :
    ((copyDataOut queueLength rd mLength buffer).run QAct.exec h).1 (32 + k)
      = h.around queueLength.toNat rd.toNat k := by
  have hhead : (queueLength - rd).toNat = queueLength.toNat - rd.toNat :=
    UInt64.toNat_sub_of_le _ _ (UInt64.le_iff_toNat_le.mpr hrd.le)
  unfold copyDataOut MessageQueueHeader.around
  rw [run_ite]
  split
  · next hge =>
    rw [ge_iff_le, UInt64.le_iff_toNat_le, hhead] at hge
    rw [memcpyOut_run, Nat.mod_eq_of_lt (by omega)]
    show (if 32 ≤ 32 + k ∧ 32 + k < 32 + mLength.toNat then _ else _) = _
    rw [if_pos (by omega), Nat.add_sub_cancel_left]
  · next hlt =>
    rw [ge_iff_le, UInt64.le_iff_toNat_le, hhead] at hlt
    have htail : (mLength - (queueLength - rd)).toNat
        = mLength.toNat - (queueLength.toNat - rd.toNat) := by
      rw [UInt64.toNat_sub_of_le _ _
        (UInt64.le_iff_toNat_le.mpr (by omega)), hhead]
    rw [run_bind, memcpyOut_run, memcpyOut_run, hhead, htail]
    show (if 32 + (queueLength.toNat - rd.toNat) ≤ 32 + k
          ∧ 32 + k < 32 + (queueLength.toNat - rd.toNat)
            + (mLength.toNat - (queueLength.toNat - rd.toNat)) then _
        else if 32 ≤ 32 + k ∧ 32 + k < 32 + (queueLength.toNat - rd.toNat)
          then _ else _) = _
    by_cases hwrap : k < queueLength.toNat - rd.toNat
    · rw [if_neg (by omega), if_pos (by omega), Nat.mod_eq_of_lt (by omega),
        Nat.add_sub_cancel_left]
    · rw [if_pos (by omega), Nat.mod_eq_sub_mod (by omega),
        Nat.mod_eq_of_lt (by omega)]
      exact congrArg h.mQueue (by omega)

/-- When `message_queue_get_l` copies a record to a buffer of `bufferLen`
bytes. -/
def MessageQueueHeader.Gets (h : MessageQueueHeader)
    (queueLength bufferLen : UInt64) : Prop :=
  h.HasHead queueLength ∧ sizeofMessage ≤ bufferLen
    ∧ h.headSize queueLength < queueLength
    ∧ (h.headLength queueLength = 0 ∨ h.headSize queueLength ≤ bufferLen)

/-- **`message_queue_get_l` finds no record.** That is an error unless the ring
is empty. -/
theorem messageQueueGetL_noHead (hhead : ¬ h.HasHead queueLength)
    (buffer : Bytes) (bufferLen : UInt64) :
    ∃ error : Bool, (messageQueueGetL queueLength buffer bufferLen).run
        QAct.exec h = (⟨false, error, buffer⟩, h)
      ∧ (error = false ↔ h.mRd < queueLength ∧ h.mWr < queueLength
        ∧ h.mRd = h.mWr) := by
  unfold messageQueueGetL
  rw [head_run, if_neg hhead]
  split
  · next hrd =>
    exact ⟨true, rfl, fun hc => absurd hc.symm Bool.false_ne_true,
      fun hc => absurd hc.1 (UInt64.not_lt.mpr hrd)⟩
  next hrd =>
  split
  · next hwr =>
    exact ⟨true, rfl, fun hc => absurd hc.symm Bool.false_ne_true,
      fun hc => absurd hc.2.1 (UInt64.not_lt.mpr hwr)⟩
  next hwr =>
  have hne : h.mRd = h.mWr := by
    by_contra hne
    exact hhead ⟨UInt64.not_le.mp hrd, UInt64.not_le.mp hwr, hne⟩
  exact ⟨false, rfl, fun _ => ⟨UInt64.not_le.mp hrd, UInt64.not_le.mp hwr,
    hne⟩, fun _ => rfl⟩

/-- **It refuses a record** that is too long for the ring or the buffer. -/
theorem messageQueueGetL_refused (hL : queueLength.toNat < 2 ^ 63)
    {bufferLen : UInt64} (hhead : h.HasHead queueLength)
    (hno : ¬ h.Gets queueLength bufferLen) (buffer : Bytes) :
    ∃ buffer' : Bytes, (messageQueueGetL queueLength buffer bufferLen).run
      QAct.exec h = (⟨false, true, buffer'⟩, h) := by
  unfold messageQueueGetL
  rw [head_run, if_pos hhead, run_ite]
  split
  · exact ⟨buffer, rfl⟩
  next hlen =>
  rw [run_bind, copyHeader_head h hL .buffer buffer hhead.1]
  simp only [mLength_head, run_ite]
  split
  · exact ⟨_, rfl⟩
  next hsize =>
  have hfit : ¬ (h.headLength queueLength = 0
      ∨ h.headSize queueLength ≤ bufferLen) := fun hfit =>
    hno ⟨hhead, UInt64.not_lt.mp hlen, UInt64.not_le.mp hsize, hfit⟩
  split
  · next hzero => exact absurd (.inl hzero) hfit
  split
  · exact ⟨_, rfl⟩
  · next hlt => exact absurd (.inr (UInt64.not_lt.mp hlt)) hfit

/-- **It copies the record** to the buffer, and moves the read index behind
it. -/
theorem messageQueueGetL_copied (hL : queueLength.toNat < 2 ^ 63)
    {bufferLen : UInt64} (hgets : h.Gets queueLength bufferLen)
    (buffer : Bytes) :
    ∃ buffer' : Bytes,
      (messageQueueGetL queueLength buffer bufferLen).run QAct.exec h
        = (⟨true, false, buffer'⟩, h.set
            (((h.mRd + sizeofMessage) % queueLength
              + h.headLength queueLength) % queueLength) .rd)
      ∧ (∀ k < 32, buffer' k = h.around queueLength.toNat h.mRd.toNat k)
      ∧ ((h.headLength queueLength).toNat ≤ queueLength.toNat →
        ∀ k < (h.headLength queueLength).toNat, buffer' (32 + k)
          = h.around queueLength.toNat h.mRd.toNat (32 + k)) := by
  obtain ⟨hhead, hlen, hsize, hfit⟩ := hgets
  unfold messageQueueGetL
  rw [head_run, if_pos hhead, run_ite, if_neg (UInt64.not_lt.mpr hlen),
    run_bind, copyHeader_head h hL .buffer buffer hhead.1]
  simp only [mLength_head, run_ite]
  split
  · next hge => exact absurd hsize (UInt64.not_lt.mpr hge)
  split
  · next hzero =>
    refine ⟨fun k => if k < 32 then h.around queueLength.toNat h.mRd.toNat k
      else buffer k, ?_, fun k hk => if_pos hk, ?_⟩
    · have hmod : (h.mRd + sizeofMessage) % queueLength % queueLength
          = (h.mRd + sizeofMessage) % queueLength := by
        rw [← UInt64.toNat_inj, UInt64.toNat_mod, UInt64.toNat_mod,
          Nat.mod_mod]
      rw [hzero, UInt64.add_zero, hmod]
      rfl
    · rw [hzero]
      exact fun _ k hk => absurd hk (Nat.not_lt_zero k)
  next hzero =>
  split
  · next hlt =>
    exact absurd hlt (UInt64.not_lt.mpr (hfit.resolve_left hzero))
  have hrd : ((h.mRd + sizeofMessage) % queueLength).toNat
      = (h.mRd.toNat + 32) % queueLength.toNat :=
    toNat_advance hL (UInt64.lt_iff_toNat_lt.mp hhead.1) (by decide)
  refine ⟨((copyDataOut queueLength ((h.mRd + sizeofMessage) % queueLength)
    (h.headLength queueLength) (fun k => if k < 32
      then h.around queueLength.toNat h.mRd.toNat k
      else buffer k)).run QAct.exec h).1, ?_, ?_, ?_⟩
  · rw [run_bind, storeField_run, copyDataOut_ring]
    exact rfl
  · intro k hk
    exact (copyDataOut_header h _ _ _ hk).trans (if_pos hk)
  · intro hm k hk
    have hlt : (h.mRd.toNat + 32) % queueLength.toNat
        < queueLength.toNat := Nat.mod_lt _ (by omega)
    refine (copyDataOut_data h _ (by rw [hrd]; exact hlt) hm hk).trans ?_
    show h.mQueue _ = h.mQueue _
    rw [hrd, Nat.mod_add_mod, Nat.add_assoc]

/-- **`message_queue_get_l`**: it fails and leaves the ring as it is, or the
buffer has the record and the read index is behind it. The data are there if
there are as many bytes in the ring. -/
theorem messageQueueGetL_cases (hL : queueLength.toNat < 2 ^ 63)
    (buffer : Bytes) (bufferLen : UInt64) :
    (¬ h.Gets queueLength bufferLen ∧ ∃ (error : Bool) (buffer' : Bytes),
      (messageQueueGetL queueLength buffer bufferLen).run QAct.exec h
        = (⟨false, error, buffer'⟩, h)
      ∧ (error = false ↔ h.mRd < queueLength ∧ h.mWr < queueLength
        ∧ h.mRd = h.mWr))
    ∨ (h.Gets queueLength bufferLen ∧ ∃ buffer' : Bytes,
      (messageQueueGetL queueLength buffer bufferLen).run QAct.exec h
        = (⟨true, false, buffer'⟩, h.set
            (((h.mRd + sizeofMessage) % queueLength
              + h.headLength queueLength) % queueLength) .rd)
      ∧ (∀ k < 32, buffer' k = h.around queueLength.toNat h.mRd.toNat k)
      ∧ ((h.headLength queueLength).toNat ≤ queueLength.toNat →
        ∀ k < (h.headLength queueLength).toNat, buffer' (32 + k)
          = h.around queueLength.toNat h.mRd.toNat (32 + k))) := by
  by_cases hhead : h.HasHead queueLength
  · by_cases hgets : h.Gets queueLength bufferLen
    · exact .inr ⟨hgets, messageQueueGetL_copied h hL hgets buffer⟩
    · obtain ⟨buffer', hrun⟩ :=
        messageQueueGetL_refused h hL hhead hgets buffer
      exact .inl ⟨hgets, true, buffer', hrun,
        fun hc => absurd hc.symm Bool.false_ne_true,
        fun hc => absurd hc.2.2 hhead.2.2⟩
  · obtain ⟨error, hrun, herror⟩ :=
      messageQueueGetL_noHead h hhead buffer bufferLen
    exact .inl ⟨fun hgets => hhead hgets.1, error, buffer, hrun, herror⟩

end Readers
