import Kucomms.QueueInvariant

/-!
# The reader's operations

Each operation of the consumer meets `readerSpec`: whatever the producer does
in between, it reads only bytes in use, and moves `m_rd` only over the
message at the head. What a reader remembers across the writer's steps is the
message at the head. Messages are only ever appended behind it, so once it is
there it stays (`AtHead.stable`), and every byte of it can be read one at a
time.
-/

open Prog

variable {L : ℕ} {queueLength : UInt64} {msg : MessageQueueHeader → DataMessage}
  {t₀ : ℕ} {s s' : Traced}

/-! ## What a reader knows -/

/-- **What a reader knows** between two of its actions: how much it has
consumed and where it stands. -/
structure Reading (L t₀ : ℕ) (rd : UInt64) (s : Traced) : Prop where
  inv : s.Inv L
  taken : s.taken = t₀
  rd : s.ring.mRd = rd

/-- **What a reader knows once it has found a message**: the message at the
head. -/
structure AtHead (L t₀ : ℕ) (rd : UInt64) (m : DataMessage) (s : Traced) :
    Prop extends Reading L t₀ rd s where
  head : s.accepted[t₀]? = some m

theorem Reading.stable {rd : UInt64} {s s' : Traced} (h : Reading L t₀ rd s)
    (hr : WriterStep L s s') : Reading L t₀ rd s' :=
  ⟨hr.inv h.inv, hr.taken.trans h.taken, hr.rd.trans h.rd⟩

theorem AtHead.stable {rd : UInt64} {m : DataMessage} {s s' : Traced}
    (h : AtHead L t₀ rd m s) (hr : WriterStep L s s') :
    AtHead L t₀ rd m s' :=
  ⟨h.toReading.stable hr, hr.getElem? h.head⟩

section AtHead

variable {rd : UInt64} {m : DataMessage}

theorem AtHead.pending_eq (h : AtHead L t₀ rd m s) :
    s.pending = m :: s.accepted.drop (t₀ + 1) := by
  obtain rfl := h.taken
  exact Traced.pending_eq_cons h.head

theorem AtHead.size_le (h : AtHead L t₀ rd m s) :
    m.size ≤ used s.pending := by
  rw [h.pending_eq, used_cons]
  omega

theorem AtHead.size_lt (h : AtHead L t₀ rd m s) : m.size < L :=
  lt_of_le_of_lt h.size_le h.inv.used_lt

/-- A byte of the message at the head. -/
theorem AtHead.byte (h : AtHead L t₀ rd m s) {k : ℕ} (hk : k < m.size) :
    s.ring.mQueue ((rd.toNat + k) % L) = m.mem k := by
  obtain rfl := h.taken
  obtain rfl := h.rd
  exact h.inv.head_byte h.head hk

end AtHead

/-- A reader's load of a field. -/
theorem reader_load {α : Type} {P : Traced → Prop} {Q : α → Traced → Prop}
    {f : HeaderField} {k : UInt64 → QProg α}
    (hP : (readerSpec L msg).Stable P) (hs : P s)
    (h : ∀ s, P s → (k (s.ring.get f)).Wp (readerSpec L msg) Q s) :
    (Prog.act (.loadField f) k).Wp (readerSpec L msg) Q s :=
  Wp.observe (fun s => s.ring.get f)
    (fun s r s' hsem => by
      obtain ⟨rfl, rfl⟩ := Prod.mk.inj hsem
      exact ⟨rfl, rfl⟩)
    ReaderStep.refl hP hs (fun t ht => ⟨trivial, h t ht⟩)

/-- **One byte of the head copied out.** -/
theorem AtHead.copyOut_wp {α : Type} {rd : UInt64} {m : DataMessage}
    {Q : α → Traced → Prop} {k : UInt8 → QProg α} {dst : CopyDst} {src i : ℕ}
    (hi : i < m.size) (hsrc : src = (rd.toNat + i) % L)
    (hs : AtHead L t₀ rd m s)
    (h : ∀ s, AtHead L t₀ rd m s → (k (m.mem i)).Wp (readerSpec L msg) Q s) :
    (Prog.act (.copyOut dst src) k).Wp (readerSpec L msg) Q s := by
  refine Wp.observe (fun s => s.ring.mQueue src)
    (fun s r s' hsem => by
      obtain ⟨rfl, rfl⟩ := Prod.mk.inj hsem
      exact ⟨rfl, rfl⟩)
    ReaderStep.refl (fun _ _ => AtHead.stable) hs (fun t ht => ⟨?_, ?_⟩)
  · exact ⟨i, lt_of_lt_of_le hi ht.size_le, by rw [hsrc, ht.rd]⟩
  · have := h t ht
    rwa [← ht.byte hi, ← hsrc] at this

/-! ## Copying the head out -/

/-- **The header loop** copies the bytes of the head it runs over, and leaves
the read index behind them. -/
theorem copyHeader_wp {dst : ℕ → CopyDst} {rd₀ : UInt64} {m : DataMessage}
    (n u0 : ℕ) (rd : UInt64) (buffer : Bytes)
    (hrd : rd.toNat = (rd₀.toNat + u0) % queueLength.toNat)
    (hn : u0 + n ≤ m.size) (hbuf : ∀ k < u0, buffer k = m.mem k)
    (hs : AtHead queueLength.toNat t₀ rd₀ m s) :
    (copyHeader queueLength dst n u0 rd buffer).Wp
      (readerSpec queueLength.toNat msg)
      (fun r s => AtHead queueLength.toNat t₀ rd₀ m s
        ∧ r.1.toNat = (rd₀.toNat + (u0 + n)) % queueLength.toNat
        ∧ ∀ k < u0 + n, r.2 k = m.mem k) s := by
  induction n generalizing u0 rd buffer s with
  | zero =>
    exact Wp.ret_of (fun _ _ => AtHead.stable) hs
      (fun t ht => ⟨ht, hrd, hbuf⟩)
  | succ n ih =>
    have hlt := hs.size_lt
    refine AtHead.copyOut_wp (i := u0) (by omega) hrd hs (fun t ht => ?_)
    have hone : (1 : UInt64).toNat = 1 := rfl
    have hrd_lt : rd.toNat < queueLength.toNat :=
      hrd ▸ Nat.mod_lt _ (by omega)
    have := ih (u0 + 1) ((rd + 1) % queueLength)
      (Function.update buffer u0 (m.mem u0)) ?_ (by omega) ?_ ht
    · rwa [show u0 + 1 + n = u0 + (n + 1) by omega] at this
    · have hL := queueLength.toNat_lt
      rw [toNat_add_mod (by omega), hone, hrd, Nat.mod_add_mod, Nat.add_assoc]
    · intro k hk
      by_cases h : k = u0
      · subst h
        exact Function.update_self ..
      · exact (Function.update_of_ne h _ _).trans (hbuf k (by omega))

/-- **A `memcpy` out of the ring** whose source runs along the head copies
it. -/
theorem memcpyOut_wp (msg : MessageQueueHeader → DataMessage) {rd₀ : UInt64}
    {m : DataMessage} (len dst src : ℕ) (buffer : Bytes)
    (hsrc : ∀ j < len, src + j = (rd₀.toNat + (dst + j)) % L)
    (hlen : dst + len ≤ m.size) (hbuf : ∀ k < dst, buffer k = m.mem k)
    (hs : AtHead L t₀ rd₀ m s) :
    (memcpyOut dst src len buffer).Wp (readerSpec L msg)
      (fun r s => AtHead L t₀ rd₀ m s ∧ ∀ k < dst + len, r k = m.mem k) s := by
  induction len generalizing dst src buffer s with
  | zero =>
    exact Wp.ret_of (fun _ _ => AtHead.stable) hs (fun t ht => ⟨ht, hbuf⟩)
  | succ len ih =>
    refine AtHead.copyOut_wp (i := dst) (by omega) (hsrc 0 (by omega)) hs
      (fun t ht => ?_)
    have := ih (dst + 1) (src + 1) (Function.update buffer dst (m.mem dst))
      (fun j hj => ?_) (by omega) ?_ ht
    · rwa [show dst + 1 + len = dst + (len + 1) by omega] at this
    · rw [show src + 1 + j = src + (j + 1) by omega, hsrc (j + 1) (by omega),
        show dst + (j + 1) = dst + 1 + j by omega]
    · intro k hk
      by_cases h : k = dst
      · subst h
        exact Function.update_self ..
      · exact (Function.update_of_ne h _ _).trans (hbuf k (by omega))

/-- **The copy of the data behind the header**, in one piece or in two. -/
theorem copyDataOut_wp {rd₀ rd mLength : UInt64} {m : DataMessage}
    {buffer : Bytes}
    (hrd : rd.toNat = (rd₀.toNat + 32) % queueLength.toNat)
    (hlen : mLength.toNat + 32 = m.size)
    (hbuf : ∀ k < 32, buffer k = m.mem k)
    (hs : AtHead queueLength.toNat t₀ rd₀ m s) :
    (copyDataOut queueLength rd mLength buffer).Wp
      (readerSpec queueLength.toNat msg)
      (fun r s => AtHead queueLength.toNat t₀ rd₀ m s
        ∧ ∀ k < m.size, r k = m.mem k) s := by
  have hlt := hs.size_lt
  have hrd_lt : rd.toNat < queueLength.toNat := hrd ▸ Nat.mod_lt _ (by omega)
  have hhead : (queueLength - rd).toNat = queueLength.toNat - rd.toNat :=
    UInt64.toNat_sub_of_le _ _ (UInt64.le_iff_toNat_le.mpr hrd_lt.le)
  -- the data bytes lie from `rd` on, counted around the ring
  have hcell : ∀ j, (rd₀.toNat + (32 + j)) % queueLength.toNat
      = (rd.toNat + j) % queueLength.toNat := by
    intro j
    rw [hrd, Nat.mod_add_mod, Nat.add_assoc]
  unfold copyDataOut
  dsimp only
  split
  · next h =>
    rw [ge_iff_le, UInt64.le_iff_toNat_le, hhead] at h
    have := memcpyOut_wp msg mLength.toNat 32 rd.toNat buffer
      (fun j hj => ?_) (by omega) hbuf hs
    · rwa [show 32 + mLength.toNat = m.size by omega] at this
    · rw [hcell, Nat.mod_eq_of_lt (by omega)]
  · next h =>
    rw [ge_iff_le, UInt64.le_iff_toNat_le, hhead] at h
    have hrest : (mLength - (queueLength - rd)).toNat
        = mLength.toNat - (queueLength.toNat - rd.toNat) := by
      rw [UInt64.toNat_sub_of_le _ _
        (UInt64.le_iff_toNat_le.mpr (by omega)), hhead]
    rw [hrest, hhead]
    refine Wp.bind ((memcpyOut_wp msg _ 32 rd.toNat buffer (fun j hj => ?_)
      (by omega) hbuf hs).mono (fun buffer' t ht => ?_))
    · rw [hcell, Nat.mod_eq_of_lt (by omega)]
    · have := memcpyOut_wp msg
        (mLength.toNat - (queueLength.toNat - rd.toNat))
        (32 + (queueLength.toNat - rd.toNat)) 0 buffer'
        (fun j hj => ?_) (by omega) ht.2 ht.1
      · rwa [show 32 + (queueLength.toNat - rd.toNat)
          + (mLength.toNat - (queueLength.toNat - rd.toNat)) = m.size
          by omega] at this
      · -- the second piece starts where the ring does
        rw [Nat.add_assoc 32, hcell, show rd.toNat
          + (queueLength.toNat - rd.toNat + j) = queueLength.toNat + j by omega,
          Nat.add_mod_left, Nat.mod_eq_of_lt (by omega), Nat.zero_add]

/-! ## Consuming -/

/-- **Moving `m_rd` over the message at the head** consumes it. -/
theorem AtHead.consume {rd v : UInt64} {m : DataMessage} {s : Traced}
    (h : AtHead L t₀ rd m s) (hv : v.toNat = (rd.toNat + m.size) % L) :
    let s' : Traced := { s with
      ring := { s.ring with mRd := v }
      taken := s.taken + 1 }
    ReaderStep L s s' ∧ Reading L (t₀ + 1) v s' := by
  intro s'
  obtain rfl := h.taken
  obtain rfl := h.rd
  have hinv : s'.Inv L := by
    refine ⟨(List.getElem?_eq_some_iff.mp h.head).1, ?_⟩
    have hrep := h.inv.rep
    unfold Represents at hrep ⊢
    rw [h.pending_eq, flat_cons] at hrep
    have := hrep.pop
    exact hv.symm ▸ this
  exact ⟨⟨fun _ => hinv, rfl, rfl, rfl, Nat.le_succ _⟩, hinv, rfl, rfl⟩

/-- The store of `m_rd` at the end of a call that consumed the head. -/
theorem AtHead.storeRd_wp {α : Type} {rd v : UInt64} {m : DataMessage}
    {Q : α → Traced → Prop} {a : α} (hv : v.toNat = (rd.toNat + m.size) % L)
    (hs : AtHead L t₀ rd m s)
    (h : ∀ t, Reading L (t₀ + 1) v t → t.accepted[t₀]? = some m → Q a t) :
    (Prog.act (.storeField .rd v) fun _ => ret a : QProg α).Wp
      (readerSpec L msg) Q s := by
  refine Wp.update _ (fun s r s' h => (congrArg Prod.snd h).symm)
    (fun _ _ => AtHead.stable) hs (fun t ht => ?_)
  obtain ⟨hstep, hread⟩ := ht.consume hv
  exact ⟨rfl, hstep, fun _ => Wp.ret_of
    (P := fun t => Reading L (t₀ + 1) v t ∧ t.accepted[t₀]? = some m)
    (fun t t' ht hr => ⟨ht.1.stable hr, hr.getElem? ht.2⟩)
    ⟨hread, ht.head⟩ (fun t ht => h t ht.1 ht.2)⟩

/-! ## The operations -/

/-- **The common beginning of the reads**: load both indices and compare
them. The rest runs where a message was found; where none was, there was none
when the call began. -/
theorem head_wp {α : Type} {Q : α → Traced → Prop} {bad₁ bad₂ empty : α}
    {yes : UInt64 → QProg α} (hs : s.Inv queueLength.toNat)
    (ht₀ : s.taken = t₀)
    (hempty : ∀ rd t, Reading queueLength.toNat t₀ rd t →
      s.accepted.length ≤ t₀ → Q empty t)
    (hyes : ∀ rd m t, AtHead queueLength.toNat t₀ rd m t →
      (yes rd).Wp (readerSpec queueLength.toNat msg) Q t) :
    (loadField .rd >>= fun rd => loadField .wr >>= fun wr =>
      if rd ≥ queueLength then pure bad₁
      else if wr ≥ queueLength then pure bad₂
      else if rd = wr then pure empty
      else yes rd).Wp (readerSpec queueLength.toNat msg) Q s := by
  simp only [loadField, act_bind, ret_bind]
  refine reader_load (P := fun t => t.Inv queueLength.toNat ∧ t.taken = t₀
      ∧ s.accepted.length ≤ t.accepted.length)
    (fun t t' ht hr => ⟨hr.inv ht.1, hr.taken.trans ht.2.1,
      ht.2.2.trans hr.accepted.length_le⟩) ⟨hs, ht₀, le_rfl⟩ (fun t ht => ?_)
  obtain ⟨hinv, htaken, hlen⟩ := ht
  have hread : Reading queueLength.toNat t₀ t.ring.mRd t :=
    ⟨hinv, htaken, rfl⟩
  rw [MessageQueueHeader.get_rd]
  generalize t.ring.mRd = rd at hread
  refine reader_load (P := fun u => Reading queueLength.toNat t₀ rd u
      ∧ s.accepted.length ≤ u.accepted.length)
    (fun t t' ht hr => ⟨ht.1.stable hr,
      ht.2.trans hr.accepted.length_le⟩) ⟨hread, hlen⟩ (fun u hu => ?_)
  obtain ⟨hu, hulen⟩ := hu
  have hrd := hu.inv.rd_lt
  have hwr := hu.inv.wr_lt
  rw [hu.rd] at hrd
  rw [MessageQueueHeader.get_wr,
    if_neg (by rw [ge_iff_le, UInt64.le_iff_toNat_le]; omega),
    if_neg (by rw [ge_iff_le, UInt64.le_iff_toNat_le]; omega)]
  have hnil : rd = u.ring.mWr ↔ u.accepted.length ≤ t₀ := by
    rw [← UInt64.toNat_inj, ← hu.rd, hu.inv.rep.eq_nil_iff,
      ← List.length_eq_zero_iff]
    show used u.pending = 0 ↔ _
    rw [used_eq_zero, ← hu.taken]
    exact List.drop_eq_nil_iff
  split
  · next h =>
    exact Wp.ret_of (fun _ _ => Reading.stable) hu
      (fun v hv => hempty rd v hv (hulen.trans (hnil.mp h)))
  · next h =>
    have hlt : t₀ < u.accepted.length := not_le.mp (fun hc => h (hnil.mpr hc))
    exact hyes rd _ u ⟨hu, List.getElem?_eq_getElem hlt⟩

/-- The size computed from a header that was copied out is the size of the
message at the head. -/
theorem AtHead.toNat_messageSize {rd : UInt64} {m : DataMessage}
    {buffer : Bytes} (h : AtHead L t₀ rd m s) (hL : L < 2 ^ 64)
    (hbuf : ∀ k < 32, buffer k = m.mem k) :
    (buffer.mLength + sizeofMessage).toNat = m.size := by
  rw [m.mLength_eq hbuf]
  exact m.toNat_messageSize (h.size_lt.trans hL)

/-- What `message_queue_get_l` does before it stores `m_rd`: what it is going
to store, if it consumes the message, and what it returns. -/
def copyHeadOutL (queueLength : UInt64) (buffer : Bytes) (bufferLen : UInt64) :
    QProg (Option UInt64 × GetResult) := do
  let rd ← loadField .rd
  let wr ← loadField .wr
  if rd ≥ queueLength then
    return (none, ⟨false, true, buffer⟩)
  else if wr ≥ queueLength then
    return (none, ⟨false, true, buffer⟩)
  else if rd = wr then
    return (none, ⟨false, false, buffer⟩)
  else if bufferLen < sizeofMessage then
    return (none, ⟨false, true, buffer⟩)
  else
    let head ← copyHeader queueLength .buffer 32 0 rd buffer
    let rd := head.1
    let buffer := head.2
    let mLength := buffer.mLength
    let messageSize := mLength + sizeofMessage
    if messageSize ≥ queueLength then
      return (none, ⟨false, true, buffer⟩)
    else if mLength = 0 then
      return (some rd, ⟨true, false, buffer⟩)
    else if bufferLen < messageSize then
      return (none, ⟨false, true, buffer⟩)
    else
      let buffer ← copyDataOut queueLength rd mLength buffer
      return (some ((rd + mLength) % queueLength), ⟨true, false, buffer⟩)

/-- The rest of it. -/
def consumeHead : Option UInt64 × GetResult → QProg GetResult
  | (none, g) => return g
  | (some rd, g) => do
    storeField .rd rd
    return g

/-- **`message_queue_get_l` copies, and then consumes.** -/
theorem messageQueueGetL_eq (buffer : Bytes) (bufferLen : UInt64) :
    messageQueueGetL queueLength buffer bufferLen
      = copyHeadOutL queueLength buffer bufferLen >>= consumeHead := by
  unfold messageQueueGetL copyHeadOutL
  rw [bind_assoc]
  refine congrArg (_ >>= ·) (funext (fun rd => ?_))
  rw [bind_assoc]
  refine congrArg (_ >>= ·) (funext (fun wr => ?_))
  split
  · rfl
  split
  · rfl
  split
  · rfl
  split
  · rfl
  rw [bind_assoc]
  refine congrArg (_ >>= ·) (funext (fun head => ?_))
  dsimp only
  split
  · rfl
  split
  · rfl
  split
  · rfl
  rw [bind_assoc]
  rfl

/-- What `message_queue_get_l` has found when it has copied. -/
structure CopyOutPost (queueLength : UInt64) (t₀ n₀ : ℕ) (bufferLen : UInt64)
    (r : Option UInt64 × GetResult) (s : Traced) : Prop where
  inv : s.Inv queueLength.toNat
  taken : s.taken = t₀
  /-- Nothing is consumed if the buffer is too small for the head, or if
  nothing was there. -/
  kept : r.1 = none → r.2.ok = false
    ∧ (r.2.error = true →
      ∃ m, s.accepted[t₀]? = some m ∧ bufferLen.toNat < m.size)
    ∧ (r.2.error = false → n₀ ≤ t₀)
  /-- Otherwise the head is in the buffer, and `m_rd` is to be moved past
  it. -/
  copied : ∀ v, r.1 = some v → r.2.ok = true ∧ r.2.error = false
    ∧ ∃ rd m, AtHead queueLength.toNat t₀ rd m s
      ∧ DataMessage.ofMem r.2.buffer = m ∧ m.size ≤ bufferLen.toNat
      ∧ (rd.toNat + m.size < 2 ^ 64 →
        v.toNat = (rd.toNat + m.size) % queueLength.toNat)

/-- Every early return with an error has found the buffer too small. -/
theorem AtHead.refused_wp {n₀ : ℕ} {rd : UInt64} {m : DataMessage}
    {bufferLen : UInt64} (buffer : Bytes)
    (hs : AtHead queueLength.toNat t₀ rd m s)
    (hsmall : bufferLen.toNat < m.size) :
    (ret (none, ⟨false, true, buffer⟩) : QProg (Option UInt64 × GetResult)).Wp
      (readerSpec queueLength.toNat msg)
      (CopyOutPost queueLength t₀ n₀ bufferLen) s :=
  Wp.ret_of (fun _ _ => AtHead.stable) hs (fun _ hu =>
    ⟨hu.inv, hu.taken,
      fun _ => ⟨rfl, fun _ => ⟨m, hu.head, hsmall⟩, (fun h => nomatch h)⟩,
      (fun _ h => nomatch h)⟩)

/-- A return with the head in the buffer. -/
theorem AtHead.copied_wp {n₀ : ℕ} {rd v : UInt64} {m : DataMessage}
    {bufferLen : UInt64} {buffer : Bytes}
    (hs : AtHead queueLength.toNat t₀ rd m s)
    (hfits : m.size ≤ bufferLen.toNat)
    (hv : rd.toNat + m.size < 2 ^ 64 →
      v.toNat = (rd.toNat + m.size) % queueLength.toNat)
    (hbuf : ∀ k < m.size, buffer k = m.mem k) :
    (ret (some v, ⟨true, false, buffer⟩) :
      QProg (Option UInt64 × GetResult)).Wp (readerSpec queueLength.toNat msg)
      (CopyOutPost queueLength t₀ n₀ bufferLen) s := by
  refine Wp.ret_of (fun _ _ => AtHead.stable) hs
    (fun u hu => ⟨hu.inv, hu.taken, (fun h => nomatch h), fun w hw => ?_⟩)
  obtain rfl := Option.some.inj hw
  exact ⟨rfl, rfl, rd, m, hu, m.ofMem_eq hbuf, hfits, hv⟩

/-- **The copy is correct under interference**, however long the ring. -/
theorem copyHeadOutL_wp {bufferLen : UInt64} {buffer : Bytes}
    (hs : s.Inv queueLength.toNat) (ht₀ : s.taken = t₀) :
    (copyHeadOutL queueLength buffer bufferLen).Wp
      (readerSpec queueLength.toNat msg)
      (CopyOutPost queueLength t₀ s.accepted.length bufferLen) s := by
  unfold copyHeadOutL
  refine head_wp hs ht₀ (fun rd t ht hnil => ?_) (fun rd m t ht => ?_)
  · exact ⟨ht.inv, ht.taken,
      fun _ => ⟨rfl, (fun h => nomatch h), fun _ => hnil⟩,
      (fun _ h => nomatch h)⟩
  · have hm := m.le_size
    have hlt := ht.size_lt
    have hrd_lt : rd.toNat < queueLength.toNat := ht.rd ▸ ht.inv.rd_lt
    split
    · next h =>
      rw [UInt64.lt_iff_toNat_lt, toNat_sizeofMessage] at h
      exact ht.refused_wp buffer (by omega)
    · next hlen =>
      rw [UInt64.lt_iff_toNat_lt, toNat_sizeofMessage] at hlen
      refine Wp.bind ((copyHeader_wp 32 0 rd buffer ?_ (by omega)
        (fun k hk => absurd hk (Nat.not_lt_zero k)) ht).mono
        (fun head u hu => ?_))
      · rw [Nat.add_zero, Nat.mod_eq_of_lt hrd_lt]
      · obtain ⟨hu, hhead, hbuf⟩ := hu
        simp only [Nat.zero_add] at hhead hbuf
        dsimp only
        have hsize := hu.toNat_messageSize queueLength.toNat_lt hbuf
        have hmlen : head.2.mLength.toNat + 32 = m.size := by
          rw [m.mLength_eq hbuf, m.size_eq]
        rw [if_neg (by rw [ge_iff_le, UInt64.le_iff_toNat_le]; omega)]
        split
        · next hzero =>
          have hm32 : m.size = 32 := by
            rw [← hmlen, hzero]
            rfl
          exact hu.copied_wp (by omega) (fun _ => by rw [hhead, hm32])
            (fun k hk => hbuf k (by omega))
        · split
          · next h =>
            rw [UInt64.lt_iff_toNat_lt, hsize] at h
            exact hu.refused_wp _ h
          · next h =>
            rw [UInt64.lt_iff_toNat_lt, hsize] at h
            refine Wp.bind ((copyDataOut_wp hhead hmlen hbuf hu).mono
              (fun buffer' v hv => ?_))
            refine hv.1.copied_wp (by omega) (fun hadd => ?_) hv.2
            have hle : head.1.toNat ≤ rd.toNat + 32 :=
              hhead ▸ Nat.mod_le _ _
            rw [toNat_add_mod (by omega), hhead, Nat.mod_add_mod,
              Nat.add_assoc,
              show 32 + head.2.mLength.toNat = m.size by omega]

/-- What `message_queue_get_l` has done when it returns. -/
structure GetPost (L t₀ n₀ : ℕ) (bufferLen : UInt64) (g : GetResult)
    (s : Traced) : Prop where
  inv : s.Inv L
  /-- A message is consumed exactly if the call returns `true`. -/
  taken : s.taken = t₀ + if g.ok then 1 else 0
  /-- It is the one at the head, and it is in the buffer. -/
  message : g.ok = true → g.error = false
    ∧ s.accepted[t₀]? = some (DataMessage.ofMem g.buffer)
    ∧ (DataMessage.ofMem g.buffer).size ≤ bufferLen.toNat
  /-- The buffer is too small for the head, when `*error` is set. -/
  error : g.error = true →
    ∃ m, s.accepted[t₀]? = some m ∧ bufferLen.toNat < m.size
  /-- Nothing was there, when it is not. -/
  empty : g.ok = false → g.error = false → n₀ ≤ t₀

/-- **`message_queue_get_l` is correct under interference.** -/
theorem messageQueueGetL_wp {bufferLen : UInt64} {buffer : Bytes}
    (hL : queueLength.toNat < 2 ^ 63) (hs : s.Inv queueLength.toNat)
    (ht₀ : s.taken = t₀) :
    (messageQueueGetL queueLength buffer bufferLen).Wp
      (readerSpec queueLength.toNat msg)
      (GetPost queueLength.toNat t₀ s.accepted.length bufferLen) s := by
  rw [messageQueueGetL_eq]
  refine Wp.bind ((copyHeadOutL_wp hs ht₀).mono (fun r t ht => ?_))
  obtain ⟨move, g⟩ := r
  cases move with
  | none =>
    obtain ⟨hok, herror, hempty⟩ := ht.kept rfl
    have hok : g.ok = false := hok
    refine Wp.ret_of (P := fun u => u.Inv queueLength.toNat ∧ u.taken = t₀
        ∧ (g.error = true →
          ∃ m, u.accepted[t₀]? = some m ∧ bufferLen.toNat < m.size))
      (fun u v hu hr => ⟨hr.inv hu.1, hr.taken.trans hu.2.1, fun he => ?_⟩)
      ⟨ht.inv, ht.taken, herror⟩
      (fun u hu => ⟨hu.1, by rw [hu.2.1, hok]; rfl,
        fun h => absurd (hok.symm.trans h) Bool.false_ne_true, hu.2.2,
        fun _ => hempty⟩)
    obtain ⟨m, hm, hsmall⟩ := hu.2.2 he
    exact ⟨m, hr.getElem? hm, hsmall⟩
  | some v =>
    obtain ⟨hok, herror, rd, m, hhead, hmem, hfits, hv⟩ := ht.copied v rfl
    have hok : g.ok = true := hok
    have herror : g.error = false := herror
    have hrd : rd.toNat < queueLength.toNat := hhead.rd ▸ hhead.inv.rd_lt
    have hlt := hhead.size_lt
    refine hhead.storeRd_wp (hv (by omega)) (fun u hu hget => ?_)
    refine ⟨hu.inv, by rw [hu.taken, hok]; rfl,
      fun _ => ⟨herror, hmem ▸ hget, hmem ▸ hfits⟩,
      fun h => absurd (herror.symm.trans h) Bool.false_ne_true,
      fun h => absurd (h.symm.trans hok) Bool.false_ne_true⟩

/-- **The header of the head, read into a local `struct Message`**, gives its
size; what follows runs with that size. -/
theorem AtHead.peek_wp {α : Type} {rd : UInt64} {m : DataMessage}
    {Q : α → Traced → Prop} {no : α} (yes : UInt64 → QProg α)
    (hs : AtHead queueLength.toNat t₀ rd m s)
    (hyes : ∀ size t, size.toNat = m.size →
      AtHead queueLength.toNat t₀ rd m t →
      (yes size).Wp (readerSpec queueLength.toNat msg) Q t) :
    (copyHeader queueLength .message 32 0 rd stackMessage >>= fun head =>
      if head.2.mLength + sizeofMessage ≥ queueLength then pure no
      else yes (head.2.mLength + sizeofMessage)).Wp
        (readerSpec queueLength.toNat msg) Q s := by
  have hm := m.le_size
  have hrd_lt : rd.toNat < queueLength.toNat := hs.rd ▸ hs.inv.rd_lt
  refine Wp.bind ((copyHeader_wp 32 0 rd stackMessage ?_ (by omega)
    (fun k hk => absurd hk (Nat.not_lt_zero k)) hs).mono
    (fun head t ht => ?_))
  · rw [Nat.add_zero, Nat.mod_eq_of_lt hrd_lt]
  · obtain ⟨ht, -, hbuf⟩ := ht
    simp only [Nat.zero_add] at hbuf
    have hsize := ht.toNat_messageSize queueLength.toNat_lt hbuf
    have hlt := ht.size_lt
    rw [if_neg (by rw [ge_iff_le, UInt64.le_iff_toNat_le]; omega)]
    exact hyes _ t hsize ht

/-- What `message_queue_next_length_l` has found when it returns. -/
structure NextLengthPost (L t₀ n₀ : ℕ) (r : Option UInt64) (s : Traced) :
    Prop where
  inv : s.Inv L
  taken : s.taken = t₀
  empty : r = none → n₀ ≤ t₀
  length : ∀ k, r = some k →
    ∃ m, s.accepted[t₀]? = some m ∧ k.toNat = m.size

/-- **`message_queue_next_length_l` is correct under interference.** -/
theorem messageQueueNextLengthL_wp (hs : s.Inv queueLength.toNat)
    (ht₀ : s.taken = t₀) :
    (messageQueueNextLengthL queueLength).Wp
      (readerSpec queueLength.toNat msg)
      (NextLengthPost queueLength.toNat t₀ s.accepted.length) s := by
  unfold messageQueueNextLengthL
  refine head_wp hs ht₀ (fun rd t ht hnil => ?_) (fun rd m t ht => ?_)
  · exact ⟨ht.inv, ht.taken, fun _ => hnil, (fun _ h => nomatch h)⟩
  · refine ht.peek_wp (fun size => pure (some size))
      (fun size u hsize hu => ?_)
    refine Wp.ret_of (fun _ _ => AtHead.stable) hu (fun v hv => ?_)
    refine ⟨hv.inv, hv.taken, (fun h => nomatch h), fun k hk => ?_⟩
    obtain rfl := Option.some.inj hk
    exact ⟨m, hv.head, hsize⟩

/-- What `message_queue_get_begin_l` has found when it returns. -/
structure GetBeginPost (L t₀ n₀ : ℕ) (r : Option (Option ℕ)) (s : Traced) :
    Prop where
  inv : s.Inv L
  taken : s.taken = t₀
  empty : r = none → n₀ ≤ t₀
  /-- A call that returns `true` found a message, and a slot at the read
  index unless the record straddles the end. -/
  slot : ∀ slot, r = some slot → ∃ m, s.accepted[t₀]? = some m ∧
    slot = if s.ring.mRd.toNat + m.size ≤ L then some s.ring.mRd.toNat
      else none

/-- **`message_queue_get_begin_l` is correct under interference.** -/
theorem messageQueueGetBeginL_wp (hs : s.Inv queueLength.toNat)
    (ht₀ : s.taken = t₀) :
    (messageQueueGetBeginL queueLength).Wp
      (readerSpec queueLength.toNat msg)
      (GetBeginPost queueLength.toNat t₀ s.accepted.length) s := by
  unfold messageQueueGetBeginL
  refine head_wp hs ht₀ (fun rd t ht hnil => ?_) (fun rd m t ht => ?_)
  · exact ⟨ht.inv, ht.taken, fun _ => hnil, (fun _ h => nomatch h)⟩
  · have hrd_lt : rd.toNat < queueLength.toNat := ht.rd ▸ ht.inv.rd_lt
    have hhead : (queueLength - rd).toNat = queueLength.toNat - rd.toNat :=
      UInt64.toNat_sub_of_le _ _ (UInt64.le_iff_toNat_le.mpr hrd_lt.le)
    refine ht.peek_wp (fun size =>
      if queueLength - rd ≥ size then pure (some (some rd.toNat))
      else pure (some none)) (fun size u hsize hu => ?_)
    have hfits : queueLength - rd ≥ size
        ↔ rd.toNat + m.size ≤ queueLength.toNat := by
      rw [ge_iff_le, UInt64.le_iff_toNat_le, hhead, hsize]
      omega
    have hpost : ∀ slot, slot = (if rd.toNat + m.size ≤ queueLength.toNat
          then some rd.toNat else none) →
        (ret (some slot) : QProg (Option (Option ℕ))).Wp
          (readerSpec queueLength.toNat msg)
          (GetBeginPost queueLength.toNat t₀ s.accepted.length) u := by
      intro slot hslot
      refine Wp.ret_of (fun _ _ => AtHead.stable) hu (fun v hv => ?_)
      refine ⟨hv.inv, hv.taken, (fun h => nomatch h), fun _ h => ?_⟩
      obtain rfl := Option.some.inj h
      exact ⟨m, hv.head, hv.rd.symm ▸ hslot⟩
    split
    · next h => exact hpost _ (by rw [if_pos (hfits.mp h)])
    · next h => exact hpost _ (by rw [if_neg (fun hc => h (hfits.mpr hc))])

/-- **What a reader holds of a slot it was given**: the message at the head,
in one piece. -/
structure Leased (L t₀ slot : ℕ) (m : DataMessage) (s : Traced) : Prop where
  at_head : AtHead L t₀ s.ring.mRd m s
  slot_eq : slot = s.ring.mRd.toNat
  fits : slot + m.size ≤ L

theorem Leased.stable {slot : ℕ} {m : DataMessage} {s s' : Traced}
    (h : Leased L t₀ slot m s) (hr : WriterStep L s s') :
    Leased L t₀ slot m s' := by
  refine ⟨?_, by rw [hr.rd]; exact h.slot_eq, h.fits⟩
  rw [hr.rd]
  exact h.at_head.stable hr

/-- A step of the reader that consumes nothing leaves the slot. -/
theorem Leased.of_reader {slot : ℕ} {m : DataMessage} {s s' : Traced}
    (h : Leased L t₀ slot m s) (hr : ReaderStep L s s')
    (hrd : s'.ring.mRd = s.ring.mRd) (htaken : s'.taken = s.taken) :
    Leased L t₀ slot m s' := by
  refine ⟨⟨⟨hr.inv h.at_head.inv, htaken.trans h.at_head.taken, rfl⟩, ?_⟩,
    by rw [hrd]; exact h.slot_eq, h.fits⟩
  rw [hr.accepted]
  exact h.at_head.head

/-- The slot shows the message at the head. -/
theorem Leased.mem_eq {slot : ℕ} {m : DataMessage}
    (h : Leased L t₀ slot m s) {k : ℕ} (hk : k < m.size) :
    s.ring.slot slot k = m.mem k := by
  have hfits := h.fits
  have := h.at_head.byte hk
  rw [← h.slot_eq, Nat.mod_eq_of_lt (by omega)] at this
  exact this

/-- The message in the slot is the message at the head. -/
theorem Leased.ofMem_slot {slot : ℕ} {m : DataMessage}
    (h : Leased L t₀ slot m s) :
    DataMessage.ofMem (s.ring.slot slot) = m :=
  m.ofMem_eq (fun _ hk => h.mem_eq hk)

/-- The bytes of the slot are in use. -/
theorem Leased.byte_used {slot : ℕ} {m : DataMessage}
    (h : Leased L t₀ slot m s) {j : ℕ} (hj : j < m.size) :
    ∃ k < used s.pending, slot + j = (s.ring.mRd.toNat + k) % L := by
  have hfits := h.fits
  refine ⟨j, lt_of_lt_of_le hj h.at_head.size_le, ?_⟩
  rw [← h.slot_eq, Nat.mod_eq_of_lt (by omega)]

/-- **A load of the caller from a slot it was given** finds the byte of the
message. -/
theorem inspectSlot_wp {dst : CopyDst} {slot k : ℕ} {m : DataMessage}
    (hk : k < m.size) (hs : Leased L t₀ slot m s) :
    (copyOut dst (slot + k)).Wp (readerSpec L msg)
      (fun b s => b = m.mem k ∧ Leased L t₀ slot m s) s := by
  refine Wp.observe (fun s => s.ring.mQueue (slot + k))
    (fun s r s' hsem => by
      obtain ⟨rfl, rfl⟩ := Prod.mk.inj hsem
      exact ⟨rfl, rfl⟩)
    ReaderStep.refl (fun _ _ => Leased.stable) hs
    (fun t ht => ⟨ht.byte_used hk, ?_⟩)
  have hb : t.ring.mQueue (slot + k) = m.mem k := ht.mem_eq hk
  exact Wp.ret_of (fun _ _ => Leased.stable) ht (fun u hu => ⟨hb, hu⟩)

/-- **`message_queue_get_complete_l` is correct under interference**: it
consumes the message in the slot. -/
theorem messageQueueGetCompleteL_wp {slot : ℕ} {m : DataMessage}
    (hL : queueLength.toNat < 2 ^ 63)
    (hs : Leased queueLength.toNat t₀ slot m s) :
    (messageQueueGetCompleteL queueLength slot).Wp
      (readerSpec queueLength.toNat msg)
      (fun _ s => s.Inv queueLength.toNat ∧ s.taken = t₀ + 1
        ∧ s.accepted[t₀]? = some m) s := by
  have hm := m.le_size
  unfold messageQueueGetCompleteL
  simp only [loadWord, loadField, storeField, act_bind, ret_bind]
  refine Wp.observe (fun s => (s.ring.slot slot).load64)
    (fun s r s' hsem => by
      obtain ⟨rfl, rfl⟩ := Prod.mk.inj hsem
      exact ⟨rfl, rfl⟩)
    ReaderStep.refl (fun _ _ => Leased.stable) hs
    (fun t ht => ⟨fun j hj => ht.byte_used (by omega), ?_⟩)
  have hlen : (t.ring.slot slot).load64 = m.mem.mLength :=
    m.mLength_eq (fun k hk => ht.mem_eq (by omega))
  generalize (t.ring.slot slot).load64 = length at hlen
  obtain rfl := hlen
  have hlt := ht.at_head.size_lt
  have hsize := m.toNat_messageSize (by omega)
  refine reader_load (fun _ _ => Leased.stable) ht (fun u hu => ?_)
  rw [MessageQueueHeader.get_rd]
  have hrd := hu.at_head.inv.rd_lt
  rw [if_neg (by rw [ge_iff_le, UInt64.le_iff_toNat_le]; omega),
    if_neg (by rw [ge_iff_le, UInt64.le_iff_toNat_le]; omega)]
  refine hu.at_head.storeRd_wp (a := ()) ?_
    (fun v hv hhead => ⟨hv.inv, hv.taken, hhead⟩)
  rw [toNat_advance hL hrd (by omega), hsize]

/-- **`message_queue_get_avail_l` under interference**: what it returns was
in use when it was called or has been added since, and stays in use as long
as nothing is consumed. -/
theorem messageQueueGetAvailL_wp (hs : s.Inv queueLength.toNat)
    (ht₀ : s.taken = t₀) :
    (messageQueueGetAvailL queueLength).Wp (readerSpec queueLength.toNat msg)
      (fun a t => t.Inv queueLength.toNat ∧ t.taken = t₀
        ∧ used s.pending ≤ a.toNat ∧ a.toNat ≤ used t.pending) s := by
  unfold messageQueueGetAvailL
  simp only [loadField, act_bind, ret_bind]
  refine reader_load (P := fun t => Reading queueLength.toNat t₀ s.ring.mRd t
      ∧ used s.pending ≤ used t.pending)
    (fun t t' ht hr => ⟨ht.1.stable hr, ht.2.trans hr.used_le⟩)
    ⟨⟨hs, ht₀, rfl⟩, le_rfl⟩ (fun t ht => ?_)
  rw [MessageQueueHeader.get_rd]
  obtain ⟨hread, hused⟩ := ht
  rw [hread.rd]
  refine reader_load (P := fun t => Reading queueLength.toNat t₀ s.ring.mRd t
      ∧ used s.pending ≤ used t.pending)
    (fun t t' ht hr => ⟨ht.1.stable hr, ht.2.trans hr.used_le⟩)
    ⟨hread, hused⟩ (fun u hu => ?_)
  obtain ⟨hu, huused⟩ := hu
  rw [MessageQueueHeader.get_wr]
  have havail : (messageQueueGetAvailLBase queueLength s.ring.mRd
      u.ring.mWr).toNat = _ := toNat_getAvailLBase hs.rd_lt hu.inv.wr_lt
  rw [← hu.rd, ← hu.inv.used_eq, hu.rd] at havail
  refine Wp.ret_of (P := fun t => Reading queueLength.toNat t₀ s.ring.mRd t
      ∧ used u.pending ≤ used t.pending)
    (fun t t' ht hr => ⟨ht.1.stable hr, ht.2.trans hr.used_le⟩)
    ⟨hu, le_rfl⟩ (fun v hv => ⟨hv.1.inv, hv.1.taken, ?_, ?_⟩)
  · omega
  · have := hv.2
    omega
