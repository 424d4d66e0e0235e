import Kucomms.QueueInvariant

/-!
# The writer's operations

Each operation of the producer meets `writerSpec`: whatever the consumer does
in between, it writes only free bytes, and moves `m_wr` only over bytes that
are the message it publishes. The one thing a writer remembers across the
reader's steps is how much room there is at the write index, and room never
shrinks on it (`Room.stable`) – so the free space computed from a stale
`m_rd` is a bound that stays good.
-/

open Prog

variable {L : ℕ} {queueLength : UInt64} {msg : MessageQueueHeader → DataMessage}
  {acc : List DataMessage} {s s' : Traced}

/-! ## What a writer knows -/

/-- **What a writer knows** between two of its actions: what it has published
so far, and that `n` bytes from the write index `w` on are free. -/
structure Room (L : ℕ) (acc : List DataMessage) (w n : ℕ) (s : Traced) :
    Prop where
  inv : s.Inv L
  accepted : s.accepted = acc
  wr : s.ring.mWr.toNat = w
  room : used s.pending + n < L

/-- **What a writer knows while it copies**: the first `k` of the `n` bytes
at `p` are in place. -/
structure Writing (L : ℕ) (acc : List DataMessage) (w n : ℕ) (p : Bytes)
    (k : ℕ) (s : Traced) : Prop extends Room L acc w n s where
  written : ∀ j < k, s.ring.mQueue ((w + j) % L) = p j

theorem Room.stable {w n : ℕ} {s s' : Traced} (h : Room L acc w n s)
    (hr : ReaderStep L s s') : Room L acc w n s' :=
  ⟨hr.inv h.inv, hr.accepted.trans h.accepted, hr.wr ▸ h.wr,
    lt_of_le_of_lt (Nat.add_le_add_right hr.used_le n) h.room⟩

theorem Writing.stable {w n k : ℕ} {p : Bytes} {s s' : Traced}
    (h : Writing L acc w n p k s) (hr : ReaderStep L s s') :
    Writing L acc w n p k s' :=
  ⟨h.toRoom.stable hr, hr.queue ▸ h.written⟩

/-- A writer's load of a field. -/
theorem writer_load {α : Type} {P : Traced → Prop} {Q : α → Traced → Prop}
    {f : HeaderField} {k : UInt64 → QProg α}
    (hP : (writerSpec L msg).Stable P) (hs : P s)
    (h : ∀ s, P s → (k (s.ring.get f)).Wp (writerSpec L msg) Q s) :
    (Prog.act (.loadField f) k).Wp (writerSpec L msg) Q s :=
  Wp.observe (fun s => s.ring.get f)
    (fun s r s' hsem => by
      obtain ⟨rfl, rfl⟩ := Prod.mk.inj hsem
      exact ⟨rfl, rfl⟩)
    WriterStep.refl hP hs (fun t ht => ⟨trivial, h t ht⟩)

/-! ## Copying a message into free bytes -/

/-- **One byte written** to the cell `k` cells after the write index. -/
theorem Room.storeByte {w n k : ℕ} {s : Traced} (h : Room L acc w n s)
    (hk : k < n) (b : UInt8) :
    let s' : Traced := { s with ring := { s.ring with
      mQueue := Function.update s.ring.mQueue ((w + k) % L) b } }
    WriterStep L s s' ∧ Room L acc w n s' := by
  intro s'
  obtain rfl := h.wr
  have hroom := h.room
  have hinv : s'.Inv L :=
    ⟨h.inv.taken_le,
      h.inv.rep.update_free (k := k) (by unfold used at hroom; omega) b⟩
  exact ⟨⟨fun _ => hinv, rfl, rfl, List.prefix_rfl⟩,
    ⟨hinv, h.accepted, h.wr, h.room⟩⟩

/-- One byte of a copy written. -/
theorem Writing.storeByte {w n k : ℕ} {p : Bytes} {s : Traced}
    (h : Writing L acc w n p k s) (hk : k < n) :
    let s' : Traced := { s with ring := { s.ring with
      mQueue := Function.update s.ring.mQueue ((w + k) % L) (p k) } }
    WriterStep L s s' ∧ Writing L acc w n p (k + 1) s' := by
  intro s'
  obtain ⟨hstep, hroom'⟩ := h.toRoom.storeByte hk (p k)
  have hroom := h.room
  refine ⟨hstep, hroom', fun j hj => ?_⟩
  by_cases hjk : j = k
  · subst hjk
    exact Function.update_self ..
  · have hne := fun he : (w + j) % L = (w + k) % L =>
      hjk (Cyclic.add_mod_inj (by omega) (by omega) he)
    exact (Function.update_of_ne hne _ _).trans (h.written j (by omega))

/-- **A `memcpy` into the ring** whose destination runs along the free bytes
writes them. -/
theorem memcpyIn_wp (msg : MessageQueueHeader → DataMessage) {w n : ℕ}
    {p : Bytes} (len dst src : ℕ)
    (hdst : ∀ j < len, dst + j = (w + (src + j)) % L) (hlen : src + len ≤ n)
    (hs : Writing L acc w n p src s) :
    (memcpyIn p dst src len).Wp (writerSpec L msg)
      (fun _ s => Writing L acc w n p (src + len) s) s := by
  induction len generalizing dst src s with
  | zero => exact Wp.ret_of (fun _ _ => Writing.stable) hs (fun _ h => h)
  | succ len ih =>
    have h0 : dst = (w + src) % L := hdst 0 (by omega)
    refine Wp.update _ (fun s r s' h => (congrArg Prod.snd h).symm)
      (fun _ _ => Writing.stable) hs (fun t ht => ?_)
    obtain ⟨hstep, hwrite⟩ := ht.storeByte (k := src) (by omega)
    rw [← h0] at hstep hwrite
    refine ⟨⟨src, ?_, ?_⟩, hstep, fun _ => ?_⟩
    · have := ht.room
      omega
    · rw [ht.wr, h0]
    · have := ih (dst + 1) (src + 1) (fun j hj => ?_) (by omega) hwrite
      · rwa [show src + 1 + len = src + (len + 1) by omega] at this
      · rw [show dst + 1 + j = dst + (j + 1) by omega, hdst (j + 1) (by omega),
          show src + (j + 1) = src + 1 + j by omega]

/-- **The copy of a message to the write index**, in one piece or in two. -/
theorem copyMessageIn_wp {wr messageSize : UInt64} {p : Bytes}
    (hwr : wr.toNat < queueLength.toNat)
    (hs : Writing queueLength.toNat acc wr.toNat messageSize.toNat p 0 s) :
    (copyMessageIn queueLength wr p messageSize).Wp
      (writerSpec queueLength.toNat msg)
      (fun _ s => Writing queueLength.toNat acc wr.toNat messageSize.toNat p
        messageSize.toNat s) s := by
  have hhead : (queueLength - wr).toNat = queueLength.toNat - wr.toNat :=
    UInt64.toNat_sub_of_le _ _ (UInt64.le_iff_toNat_le.mpr hwr.le)
  unfold copyMessageIn
  dsimp only
  split
  · next h =>
    rw [ge_iff_le, UInt64.le_iff_toNat_le, hhead] at h
    have := memcpyIn_wp msg messageSize.toNat wr.toNat 0
      (fun j hj => ?_) (by omega) hs
    · rwa [Nat.zero_add] at this
    · rw [Nat.zero_add, Nat.mod_eq_of_lt (by omega)]
  · next h =>
    rw [ge_iff_le, UInt64.le_iff_toNat_le, hhead] at h
    have hrest : (messageSize - (queueLength - wr)).toNat
        = messageSize.toNat - (queueLength.toNat - wr.toNat) := by
      rw [UInt64.toNat_sub_of_le _ _
        (UInt64.le_iff_toNat_le.mpr (by omega)), hhead]
    rw [hrest, hhead]
    refine Wp.bind ((memcpyIn_wp msg _ _ 0 (fun j hj => ?_) (by omega) hs).mono
      (fun _ t ht => ?_))
    · rw [Nat.zero_add, Nat.mod_eq_of_lt (by omega)]
    · rw [Nat.zero_add] at ht
      have hroom := ht.room
      have := memcpyIn_wp msg
        (messageSize.toNat - (queueLength.toNat - wr.toNat)) 0
        (queueLength.toNat - wr.toNat) (fun j hj => ?_) (by omega) ht
      · rwa [show queueLength.toNat - wr.toNat
            + (messageSize.toNat - (queueLength.toNat - wr.toNat))
            = messageSize.toNat by omega] at this
      · -- the second piece starts where the ring does
        rw [show wr.toNat + (queueLength.toNat - wr.toNat + j)
          = queueLength.toNat + j by omega, Nat.add_mod_left,
          Nat.mod_eq_of_lt (by omega), Nat.zero_add]

/-! ## Publishing -/

/-- **Moving `m_wr` over a message** that lies at the write index publishes
it. -/
theorem Writing.publish {w : ℕ} {m : DataMessage} {p : Bytes} {s : Traced}
    {v : UInt64} (h : Writing L acc w m.size p m.size s)
    (hp : ∀ k < m.size, p k = m.mem k) (hmsg : msg s.ring = m)
    (hv : v.toNat = (w + m.size) % L) :
    let s' : Traced := { s with
      ring := { s.ring with mWr := v }
      accepted := s.accepted ++ [msg s.ring] }
    WriterStep L s s' ∧ s'.Inv L ∧ s'.accepted = acc ++ [m] := by
  intro s'
  have hpending : s'.pending = s.pending ++ [m] := by
    show (s.accepted ++ [msg s.ring]).drop s.taken = _
    rw [hmsg, List.drop_append_of_le_length h.inv.taken_le]
    rfl
  have hslice : Cyclic.slice L s.ring.mQueue w m.bytes.length = m.bytes :=
    Cyclic.slice_eq_iff.mpr (fun k hk => by
      rw [h.written k hk, hp k hk, m.mem_eq hk])
  have hinv : s'.Inv L := by
    refine ⟨?_, ?_⟩
    · show s.taken ≤ (s.accepted ++ [msg s.ring]).length
      have := h.inv.taken_le
      rw [List.length_append]
      omega
    · unfold Represents
      rw [hpending, flat_append, flat_cons, flat_nil, List.append_nil]
      have := h.inv.rep.push (d := m.bytes) h.room (h.wr.symm ▸ hslice)
      rw [h.wr] at this
      exact hv.symm ▸ this
  refine ⟨⟨fun _ => hinv, rfl, rfl, List.prefix_append _ _⟩, hinv, ?_⟩
  show s.accepted ++ [msg s.ring] = _
  rw [h.accepted, hmsg]

/-! ## The operations -/

/-- What a writer knows once it has loaded `m_rd`: the free space computed
from that value is there, and stays. -/
structure LoadedRd (L : ℕ) (acc : List DataMessage) (used₀ : ℕ) (rd : UInt64)
    (s : Traced) : Prop where
  inv : s.Inv L
  accepted : s.accepted = acc
  rd_lt : rd.toNat < L
  used_le : used s.pending ≤ Cyclic.dist L rd.toNat s.ring.mWr.toNat
  dist_le : Cyclic.dist L rd.toNat s.ring.mWr.toNat ≤ used₀

theorem LoadedRd.stable {used₀ : ℕ} {rd : UInt64} {s s' : Traced}
    (h : LoadedRd L acc used₀ rd s) (hr : ReaderStep L s s') :
    LoadedRd L acc used₀ rd s' :=
  ⟨hr.inv h.inv, hr.accepted.trans h.accepted, h.rd_lt,
    hr.wr ▸ hr.used_le.trans h.used_le, hr.wr ▸ h.dist_le⟩

/-- **The common beginning of the additions**: load both indices and compare
the size with the free space between them. The rest runs where the size was
found to fit; where it was not, there was no room when the call began. -/
theorem reserve_wp {α : Type} {Q : α → Traced → Prop} {messageSize : UInt64}
    {no : α} {yes : UInt64 → QProg α}
    (hL : 0 < queueLength.toNat)
    (hs : s.Inv queueLength.toNat) (hacc : s.accepted = acc)
    (hno : ∀ t, t.Inv queueLength.toNat → t.accepted = acc →
      queueLength.toNat ≤ used s.pending + messageSize.toNat → Q no t)
    (hyes : ∀ wr t, wr.toNat < queueLength.toNat →
      Writing queueLength.toNat acc wr.toNat messageSize.toNat p 0 t →
      (yes wr).Wp (writerSpec queueLength.toNat msg) Q t) :
    (loadField .rd >>= fun rd => loadField .wr >>= fun wr =>
      if messageSize > messageQueueGetFreeLBase queueLength rd wr then
        pure no
      else if wr ≥ queueLength then
        pure no
      else
        yes wr).Wp (writerSpec queueLength.toNat msg) Q s := by
  simp only [loadField, act_bind, ret_bind]
  refine writer_load (P := fun t => t.Inv queueLength.toNat
      ∧ t.accepted = acc ∧ used t.pending ≤ used s.pending)
    (fun t t' ht hr => ⟨hr.inv ht.1, hr.accepted.trans ht.2.1,
      hr.used_le.trans ht.2.2⟩) ⟨hs, hacc, le_rfl⟩ (fun t ht => ?_)
  obtain ⟨hinv, htacc, hused⟩ := ht
  have hloaded : LoadedRd queueLength.toNat acc (used s.pending)
      t.ring.mRd t :=
    ⟨hinv, htacc, hinv.rd_lt, hinv.used_eq.le, hinv.used_eq ▸ hused⟩
  rw [MessageQueueHeader.get_rd]
  generalize t.ring.mRd = rd at hloaded
  refine writer_load (fun _ _ => LoadedRd.stable) hloaded (fun u hu => ?_)
  have hfree := toNat_getFreeLBase hu.rd_lt hu.inv.wr_lt
  have hle := hu.used_le
  have hdist := hu.dist_le
  have hlt := hu.inv.used_lt
  have hwr := hu.inv.wr_lt
  have hd : Cyclic.dist queueLength.toNat rd.toNat u.ring.mWr.toNat
      < queueLength.toNat := Nat.mod_lt _ hL
  rw [MessageQueueHeader.get_wr]
  split
  · next h =>
    rw [gt_iff_lt, UInt64.lt_iff_toNat_lt, hfree] at h
    exact Wp.ret_of (fun _ _ => LoadedRd.stable) hu
      (fun v hv => hno v hv.inv hv.accepted (by omega))
  · next h =>
    rw [gt_iff_lt, UInt64.lt_iff_toNat_lt, hfree] at h
    rw [if_neg (by rw [ge_iff_le, UInt64.le_iff_toNat_le]; omega)]
    exact hyes _ u hwr ⟨⟨hu.inv, hu.accepted, rfl, by omega⟩,
      fun j hj => absurd hj (Nat.not_lt_zero j)⟩

/-- What `message_queue_add_l` does before it stores `m_wr`: what it is going
to store, if it has copied the message. -/
def copyMessageL (queueLength : UInt64) (message : Bytes) :
    QProg (Option UInt64) := do
  let messageSize := message.mLength + sizeofMessage
  let rd ← loadField .rd
  let wr ← loadField .wr
  if messageSize > messageQueueGetFreeLBase queueLength rd wr then
    return none
  else if wr ≥ queueLength then
    return none
  else
    copyMessageIn queueLength wr message messageSize
    return some ((wr + messageSize) % queueLength)

/-- The rest of it. -/
def publishCopy : Option UInt64 → QProg Bool
  | none => return false
  | some wr => do
    storeField .wr wr
    return true

/-- **`message_queue_add_l` copies, and then publishes.** -/
theorem messageQueueAddL_eq (message : Bytes) :
    messageQueueAddL queueLength message
      = copyMessageL queueLength message >>= publishCopy := by
  unfold messageQueueAddL copyMessageL
  rw [bind_assoc]
  refine congrArg (_ >>= ·) (funext (fun rd => ?_))
  rw [bind_assoc]
  refine congrArg (_ >>= ·) (funext (fun wr => ?_))
  split
  · rfl
  split
  · rfl
  rw [bind_assoc]
  rfl

/-- What `message_queue_add_l` knows when it has copied, or has not. -/
structure CopyInPost (queueLength : UInt64) (acc : List DataMessage)
    (m : DataMessage) (used₀ : ℕ) (r : Option UInt64) (s : Traced) : Prop where
  inv : s.Inv queueLength.toNat
  accepted : s.accepted = acc
  /-- There was no room. -/
  full : r = none → queueLength.toNat ≤ used₀ + m.size
  /-- The message is in the free bytes, and `m_wr` is to be moved past it. -/
  copied : ∀ v, r = some v → ∃ w,
    Writing queueLength.toNat acc w m.size m.mem m.size s
      ∧ (w + m.size < 2 ^ 64 → v.toNat = (w + m.size) % queueLength.toNat)

/-- **The copy is correct under interference**, however long the ring. -/
theorem copyMessageL_wp {m : DataMessage} (hL : 0 < queueLength.toNat)
    (hm : m.size < 2 ^ 64) (hs : s.Inv queueLength.toNat)
    (hacc : s.accepted = acc) :
    (copyMessageL queueLength m.mem).Wp (writerSpec queueLength.toNat msg)
      (CopyInPost queueLength acc m (used s.pending)) s := by
  have hsize := m.toNat_messageSize hm
  unfold copyMessageL
  dsimp only
  refine reserve_wp (p := m.mem) hL hs hacc
    (fun t hinv ht hfull => ?_) (fun wr t hwr hw => ?_)
  · rw [hsize] at hfull
    exact ⟨hinv, ht, fun _ => hfull, (fun _ h => nomatch h)⟩
  · refine Wp.bind ((copyMessageIn_wp hwr hw).mono (fun _ u hu => ?_))
    simp only [hsize] at hu
    refine Wp.ret_of (fun _ _ => Writing.stable) hu (fun v hv =>
      ⟨hv.inv, hv.accepted, (fun h => nomatch h), fun w hw =>
        ⟨wr.toNat, hv, fun hadd => ?_⟩⟩)
    obtain rfl := Option.some.inj hw
    rw [toNat_add_mod (by omega), hsize]

/-- **The store of `m_wr`** at the end of a call that has copied. -/
theorem Writing.storeWr_wp {α : Type} {w : ℕ} {m : DataMessage} {v : UInt64}
    {Q : α → Traced → Prop} {a : α} (hmsg : ∀ h, msg h = m)
    (hv : v.toNat = (w + m.size) % L)
    (hs : Writing L acc w m.size m.mem m.size s)
    (h : ∀ t, t.Inv L → t.accepted = acc ++ [m] → Q a t) :
    (Prog.act (.storeField .wr v) fun _ => ret a : QProg α).Wp
      (writerSpec L msg) Q s := by
  refine Wp.update _ (fun s r s' h => (congrArg Prod.snd h).symm)
    (fun _ _ => Writing.stable) hs (fun t ht => ?_)
  obtain ⟨hstep, hinv, hacc⟩ := ht.publish (fun _ _ => rfl) (hmsg t.ring) hv
  exact ⟨rfl, hstep, fun _ => Wp.ret_of
    (P := fun t => t.Inv L ∧ t.accepted = acc ++ [m])
    (fun t t' ht hr => ⟨hr.inv ht.1, hr.accepted.trans ht.2⟩)
    ⟨hinv, hacc⟩ (fun t ht => h t ht.1 ht.2)⟩

/-- What `message_queue_add_l` has done when it returns. -/
structure AddPost (L : ℕ) (acc : List DataMessage) (m : DataMessage)
    (used₀ : ℕ) (ok : Bool) (s : Traced) : Prop where
  inv : s.Inv L
  /-- The message is published exactly if the call returns `true`. -/
  accepted : s.accepted = acc ++ if ok then [m] else []
  /-- A call that returns `false` found no room. -/
  full : ok = false → L ≤ used₀ + m.size

/-- **`message_queue_add_l` is correct under interference.** -/
theorem messageQueueAddL_wp {m : DataMessage}
    (hL : 0 < queueLength.toNat ∧ queueLength.toNat < 2 ^ 63)
    (hm : m.size < 2 ^ 64) (hmsg : ∀ h, msg h = m)
    (hs : s.Inv queueLength.toNat) (hacc : s.accepted = acc) :
    (messageQueueAddL queueLength m.mem).Wp (writerSpec queueLength.toNat msg)
      (AddPost queueLength.toNat acc m (used s.pending)) s := by
  rw [messageQueueAddL_eq]
  refine Wp.bind ((copyMessageL_wp hL.1 hm hs hacc).mono (fun r t ht => ?_))
  cases r with
  | none =>
    have hfull := ht.full rfl
    exact Wp.ret_of (P := fun u => u.Inv queueLength.toNat
        ∧ u.accepted = acc)
      (fun u v hu hr => ⟨hr.inv hu.1, hr.accepted.trans hu.2⟩)
      ⟨ht.inv, ht.accepted⟩
      (fun u hu => ⟨hu.1, by simpa using hu.2, fun _ => hfull⟩)
  | some v =>
    obtain ⟨w, hw, hv⟩ := ht.copied v rfl
    have hwr := hw.inv.wr_lt
    have hroom := hw.room
    rw [hw.wr] at hwr
    exact hw.storeWr_wp hmsg (hv (by omega))
      (fun u hu hacc' => ⟨hu, by simpa using hacc', by simp⟩)

/-- What `message_queue_add_begin_l` has found when it returns. -/
structure AddBeginPost (L : ℕ) (acc : List DataMessage) (used₀ n : ℕ)
    (r : Option (Option ℕ)) (s : Traced) : Prop where
  inv : s.Inv L
  accepted : s.accepted = acc
  /-- A call that returns `false` found no room. -/
  full : r = none → L ≤ used₀ + n
  /-- A call that returns `true` found room, and a slot at the write index
  unless the record would straddle the end. -/
  room : ∀ slot, r = some slot → used s.pending + n < L ∧
    slot = if s.ring.mWr.toNat + n ≤ L then some s.ring.mWr.toNat else none

/-- **`message_queue_add_begin_l` is correct under interference.** -/
theorem messageQueueAddBeginL_wp {dataLength : UInt64}
    (hL : 0 < queueLength.toNat ∧ queueLength.toNat < 2 ^ 63)
    (hdata : dataLength.toNat + 32 < 2 ^ 64)
    (hs : s.Inv queueLength.toNat) (hacc : s.accepted = acc) :
    (messageQueueAddBeginL queueLength dataLength).Wp
      (writerSpec queueLength.toNat msg)
      (AddBeginPost queueLength.toNat acc (used s.pending)
        (dataLength.toNat + 32)) s := by
  have hsize := toNat_add_header hdata
  unfold messageQueueAddBeginL
  dsimp only
  refine reserve_wp (p := fun _ => 0) hL.1 hs hacc
    (fun t hinv ht hfull => ?_) (fun wr t hwr hw => ?_)
  · rw [hsize] at hfull
    exact ⟨hinv, ht, fun _ => hfull, (fun _ h => nomatch h)⟩
  · rw [hsize] at hw
    have hhead : (queueLength - wr).toNat = queueLength.toNat - wr.toNat :=
      UInt64.toNat_sub_of_le _ _ (UInt64.le_iff_toNat_le.mpr hwr.le)
    have hfits : queueLength - wr ≥ dataLength + sizeofMessage
        ↔ wr.toNat + (dataLength.toNat + 32) ≤ queueLength.toNat := by
      rw [ge_iff_le, UInt64.le_iff_toNat_le, hhead, hsize]
      omega
    have hpost : ∀ slot, slot = (if wr.toNat + (dataLength.toNat + 32)
          ≤ queueLength.toNat then some wr.toNat else none) →
        (ret (some slot) : QProg (Option (Option ℕ))).Wp
          (writerSpec queueLength.toNat msg)
          (AddBeginPost queueLength.toNat acc (used s.pending)
            (dataLength.toNat + 32)) t := by
      intro slot hslot
      refine Wp.ret_of (fun _ _ => Writing.stable) hw (fun u hu => ?_)
      refine ⟨hu.inv, hu.accepted, (fun h => nomatch h), fun _ h => ?_⟩
      obtain rfl := Option.some.inj h
      exact ⟨hu.room, hu.wr.symm ▸ hslot⟩
    split
    · next h => exact hpost _ (by rw [if_pos (hfits.mp h)])
    · next h => exact hpost _ (by rw [if_neg (fun hc => h (hfits.mpr hc))])

/-- **What a writer holds of a reserved slot** of `n` bytes: they are free,
they do not wrap, and the record now in them is `m`. -/
structure Reserved (L : ℕ) (acc : List DataMessage) (slot n : ℕ)
    (m : DataMessage) (s : Traced) : Prop extends Room L acc slot n s where
  fits : slot + n ≤ L
  record : DataMessage.ofMem (s.ring.slot slot) = m

theorem Reserved.stable {slot n : ℕ} {m : DataMessage} {s s' : Traced}
    (h : Reserved L acc slot n m s) (hr : ReaderStep L s s') :
    Reserved L acc slot n m s' := by
  refine ⟨h.toRoom.stable hr, h.fits, ?_⟩
  unfold MessageQueueHeader.slot
  rw [hr.queue]
  exact h.record

/-- **A store of the caller into a slot it reserved** keeps to the free
bytes. -/
theorem fillSlot_wp {slot n k : ℕ} {b : UInt8} (hk : k < n)
    (hfits : slot + n ≤ L) (hs : Room L acc slot n s) :
    (storeByte (slot + k) b).Wp (writerSpec L msg)
      (fun _ s => Room L acc slot n s) s := by
  have hcell : slot + k = (slot + k) % L := by
    rw [Nat.mod_eq_of_lt (by omega)]
  refine Wp.update _ (fun s r s' h => (congrArg Prod.snd h).symm)
    (fun _ _ => Room.stable) hs (fun t ht => ?_)
  obtain ⟨hstep, hroom⟩ := ht.storeByte hk b
  rw [← hcell] at hstep hroom
  refine ⟨⟨k, ?_, ?_⟩, hstep,
    fun _ => Wp.ret_of (fun _ _ => Room.stable) hroom (fun _ h => h)⟩
  · have := ht.room
    omega
  · rw [ht.wr, ← hcell]

/-- The record in a reserved slot, as a message written at the write
index. -/
theorem Reserved.writing {slot n : ℕ} {m : DataMessage} {s : Traced}
    (h : Reserved L acc slot n m s) (hm : m.size ≤ n) :
    Writing L acc slot m.size m.mem m.size s := by
  have hroom := h.room
  have hfits := h.fits
  refine ⟨⟨h.inv, h.accepted, h.wr, by omega⟩, fun j hj => ?_⟩
  rw [Nat.mod_eq_of_lt (by omega)]
  obtain rfl := h.record
  exact (DataMessage.mem_ofMem hj).symm

/-- **`message_queue_add_complete_l` is correct under interference**: it
publishes the record in the slot, when that is no longer than what was
reserved. -/
theorem messageQueueAddCompleteL_wp {slot n : ℕ} {m : DataMessage}
    (hL : queueLength.toNat < 2 ^ 63)
    (hmsg : ∀ h, h.mWr.toNat = slot → msg h = DataMessage.ofMem (h.slot slot))
    (hm : m.size ≤ n)
    (hs : Reserved queueLength.toNat acc slot n m s) :
    (messageQueueAddCompleteL queueLength slot).Wp
      (writerSpec queueLength.toNat msg)
      (fun _ s => s.Inv queueLength.toNat ∧ s.accepted = acc ++ [m]) s := by
  unfold messageQueueAddCompleteL
  simp only [loadWord, loadField, storeField, act_bind, ret_bind]
  refine Wp.observe (fun s => (s.ring.slot slot).load64)
    (fun s r s' hsem => by
      obtain ⟨rfl, rfl⟩ := Prod.mk.inj hsem
      exact ⟨rfl, rfl⟩)
    WriterStep.refl (fun _ _ => Reserved.stable) hs (fun t ht => ⟨trivial, ?_⟩)
  have hlen : (t.ring.slot slot).load64.toNat + 32 = m.size := by
    rw [← ht.record, DataMessage.size_ofMem]
    rfl
  generalize (t.ring.slot slot).load64 = mLength at hlen
  have hlt : m.size < queueLength.toNat := by
    have := ht.room
    omega
  have hsize : (mLength + sizeofMessage).toNat = m.size := by
    rw [toNat_add_header (by omega), hlen]
  refine writer_load (fun _ _ => Reserved.stable) ht (fun u hu => ?_)
  rw [MessageQueueHeader.get_wr]
  have hwr := hu.inv.wr_lt
  rw [if_neg (by rw [ge_iff_le, UInt64.le_iff_toNat_le]; omega)]
  have hv := toNat_advance (n := mLength + sizeofMessage) hL hwr (by omega)
  rw [hu.wr, hsize] at hv
  refine Wp.update _ (fun s r s' h => (congrArg Prod.snd h).symm)
    (fun _ _ => Reserved.stable) hu (fun v hvr => ?_)
  obtain ⟨hstep, hinv, hacc⟩ := (hvr.writing hm).publish (fun _ _ => rfl)
    ((hmsg v.ring hvr.wr).trans hvr.record) hv
  exact ⟨rfl, hstep, fun _ => Wp.ret_of
    (P := fun s => s.Inv queueLength.toNat ∧ s.accepted = acc ++ [m])
    (fun t t' ht hr => ⟨hr.inv ht.1, hr.accepted.trans ht.2⟩)
    ⟨hinv, hacc⟩ (fun t ht => ht)⟩

/-- **`message_queue_get_free_l` under interference**: what it returns was
free when it was called, and is free as long as nothing is added. -/
theorem messageQueueGetFreeL_wp
    (hL : 0 < queueLength.toNat ∧ queueLength.toNat < 2 ^ 63)
    (hs : s.Inv queueLength.toNat) (hacc : s.accepted = acc) :
    (messageQueueGetFreeL queueLength).Wp (writerSpec queueLength.toNat msg)
      (fun f t => t.Inv queueLength.toNat ∧ t.accepted = acc
        ∧ used t.pending + f.toNat < queueLength.toNat
        ∧ queueLength.toNat ≤ used s.pending + f.toNat + 1) s := by
  unfold messageQueueGetFreeL
  simp only [loadField, act_bind, ret_bind]
  refine writer_load (P := fun t => t.Inv queueLength.toNat
      ∧ t.accepted = acc ∧ used t.pending ≤ used s.pending)
    (fun t t' ht hr => ⟨hr.inv ht.1, hr.accepted.trans ht.2.1,
      hr.used_le.trans ht.2.2⟩) ⟨hs, hacc, le_rfl⟩ (fun t ht => ?_)
  obtain ⟨hinv, htacc, hused⟩ := ht
  have hloaded : LoadedRd queueLength.toNat acc (used s.pending)
      t.ring.mRd t :=
    ⟨hinv, htacc, hinv.rd_lt, hinv.used_eq.le, hinv.used_eq ▸ hused⟩
  rw [MessageQueueHeader.get_rd]
  generalize t.ring.mRd = rd at hloaded
  refine writer_load (fun _ _ => LoadedRd.stable) hloaded (fun u hu => ?_)
  have hfree := toNat_getFreeLBase hu.rd_lt hu.inv.wr_lt
  have hd : Cyclic.dist queueLength.toNat rd.toNat u.ring.mWr.toNat
      < queueLength.toNat := Nat.mod_lt _ hL.1
  rw [MessageQueueHeader.get_wr]
  have hdist := hu.dist_le
  refine Wp.ret_of (P := fun t => Room queueLength.toNat acc
      u.ring.mWr.toNat (messageQueueGetFreeLBase queueLength rd
        u.ring.mWr).toNat t) (fun _ _ => Room.stable)
    ⟨hu.inv, hu.accepted, rfl, ?_⟩
    (fun v hv => ⟨hv.inv, hv.accepted, hv.room, ?_⟩)
  · have := hu.used_le
    omega
  · omega
