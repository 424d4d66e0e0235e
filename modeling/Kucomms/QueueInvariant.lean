import Kucomms.Cyclic
import Kucomms.MessageQueue
import Kucomms.RelyGuarantee

/-!
# What a ring represents, and what each side may do to it

A ring represents a list of messages when their bytes, one message after the
other, are what lies between its two indices (`Represents`). Around the ring
this module puts the history that makes its runs observable: the messages
whose addition has been published, in order, and how many of them have been
consumed (`Traced`). The invariant `Traced.Inv` says that the ring represents
the published messages not yet consumed, whatever is half written or half
read at the moment.

What the two sides do to it is `WriterStep` and `ReaderStep`. Each is the
guarantee of one side and the rely of the other: a writer only appends to the
published messages and never moves `m_rd`, a reader only counts up the
consumed ones and changes no byte. `writerSpec` and `readerSpec` are the
resulting specifications, with the bytes each side may touch.
-/

/-! ## Arithmetic on 64-bit lengths and indices -/

section Arithmetic

variable {queueLength rd wr : UInt64}

theorem toNat_sizeofMessage : sizeofMessage.toNat = 32 := rfl

/-- The size of a record, if it does not wrap. -/
theorem toNat_add_header {n : UInt64} (hwrap : n.toNat + 32 < 2 ^ 64) :
    (n + sizeofMessage).toNat = n.toNat + 32 := by
  rw [UInt64.toNat_add, toNat_sizeofMessage, Nat.mod_eq_of_lt hwrap]

/-- The difference is right even if the sum has wrapped. -/
theorem toNat_add_sub (hrd : rd.toNat < queueLength.toNat)
    (hwr : wr.toNat < rd.toNat) :
    (queueLength + wr - rd).toNat
      = queueLength.toNat + wr.toNat - rd.toNat := by
  have hL := queueLength.toNat_lt
  rw [UInt64.toNat_sub, UInt64.toNat_add]
  omega

/-- The bytes in use, between two indices in range. -/
theorem toNat_getAvailLBase (hrd : rd.toNat < queueLength.toNat)
    (hwr : wr.toNat < queueLength.toNat) :
    (messageQueueGetAvailLBase queueLength rd wr).toNat
      = Cyclic.dist queueLength.toNat rd.toNat wr.toNat := by
  rw [Cyclic.dist_eq hrd hwr]
  unfold messageQueueGetAvailLBase
  simp only [ge_iff_le, gt_iff_lt, UInt64.le_iff_toNat_le,
    UInt64.lt_iff_toNat_lt, ← UInt64.toNat_inj]
  rw [if_neg (by omega), if_neg (by omega)]
  split
  · rw [if_pos (by omega), UInt64.toNat_zero]
    omega
  · split
    · rw [if_pos (by omega), UInt64.toNat_sub_of_le _ _
        (UInt64.le_iff_toNat_le.mpr (by omega))]
    · rw [if_neg (by omega), toNat_add_sub hrd (by omega)]

/-- The free bytes, one less than the bytes not in use. -/
theorem toNat_getFreeLBase (hrd : rd.toNat < queueLength.toNat)
    (hwr : wr.toNat < queueLength.toNat) :
    (messageQueueGetFreeLBase queueLength rd wr).toNat
      = queueLength.toNat - 1
        - Cyclic.dist queueLength.toNat rd.toNat wr.toNat := by
  have havail := toNat_getAvailLBase hrd hwr
  have hdist : Cyclic.dist queueLength.toNat rd.toNat wr.toNat
      < queueLength.toNat := Nat.mod_lt _ (by omega)
  have hone : (queueLength - 1).toNat = queueLength.toNat - 1 := by
    rw [UInt64.toNat_sub_of_le _ _
      (UInt64.le_iff_toNat_le.mpr (by rw [UInt64.toNat_one]; omega)),
      UInt64.toNat_one]
  unfold messageQueueGetFreeLBase
  rw [UInt64.toNat_sub_of_le _ _
    (UInt64.le_iff_toNat_le.mpr (by rw [hone, havail]; omega)), hone, havail]

/-- An index moved ahead around the ring, if the sum does not wrap. -/
theorem toNat_add_mod {i n : UInt64} (h : i.toNat + n.toNat < 2 ^ 64) :
    ((i + n) % queueLength).toNat
      = (i.toNat + n.toNat) % queueLength.toNat := by
  rw [UInt64.toNat_mod, UInt64.toNat_add, Nat.mod_eq_of_lt (b := 2 ^ 64) h]

/-- In a ring that is short enough it never does. -/
theorem toNat_advance {i n : UInt64} (hL : queueLength.toNat < 2 ^ 63)
    (hi : i.toNat < queueLength.toNat) (hn : n.toNat < 2 ^ 63) :
    ((i + n) % queueLength).toNat
      = (i.toNat + n.toNat) % queueLength.toNat :=
  toNat_add_mod (by omega)

/-- The length of the ring in a buffer. -/
theorem toNat_getQueueLength {bufferLength : UInt64}
    (h : 32 ≤ bufferLength.toNat) :
    (messageQueueGetQueueLength bufferLength).toNat
      = bufferLength.toNat - 32 :=
  UInt64.toNat_sub_of_le _ _ (UInt64.le_iff_toNat_le.mpr h)

/-- The bounds on a buffer are bounds on its ring. -/
theorem queueLength_bounds {bufferLength : UInt64}
    (h32 : 32 < bufferLength.toNat)
    (h63 : bufferLength.toNat < 2 ^ 63) :
    0 < (messageQueueGetQueueLength bufferLength).toNat
      ∧ (messageQueueGetQueueLength bufferLength).toNat < 2 ^ 63 := by
  rw [toNat_getQueueLength h32.le]
  omega

end Arithmetic

/-! ## The bytes of messages -/

namespace DataMessage

variable (m : DataMessage)

theorem size_eq : m.size = m.mem.mLength.toNat + 32 := m.length_eq

theorem le_size : 32 ≤ m.size := by
  rw [m.size_eq]
  omega

/-- The size of a message, as the source computes it. -/
theorem toNat_messageSize (h : m.size < 2 ^ 64) :
    (m.mem.mLength + sizeofMessage).toNat = m.size := by
  have hsize := m.size_eq
  rw [toNat_add_header (by omega), hsize]

theorem mem_eq {k : ℕ} (hk : k < m.size) : m.mem k = m.bytes[k] := by
  unfold mem
  rw [List.getD_eq_getElem?_getD, List.getElem?_eq_getElem hk,
    Option.getD_some]

/-- Memory that shows the bytes of a message shows its `m_length`. -/
theorem mLength_eq {p : Bytes} (h : ∀ k < 32, p k = m.mem k) :
    p.mLength = m.mem.mLength :=
  Bytes.mLength_congr (fun k hk => h k (by omega))

theorem ext_bytes {m m' : DataMessage} (h : m.bytes = m'.bytes) : m = m' := by
  cases m
  cases m'
  simp only at h
  subst h
  rfl

theorem bytes_ofMem (p : Bytes) :
    (ofMem p).bytes = (List.range (p.mLength.toNat + 32)).map p := by
  simp only [ofMem]

theorem size_ofMem (p : Bytes) : (ofMem p).size = p.mLength.toNat + 32 := by
  rw [size, bytes_ofMem, List.length_map, List.length_range]

theorem mem_ofMem {p : Bytes} {k : ℕ} (hk : k < (ofMem p).size) :
    (ofMem p).mem k = p k := by
  rw [mem_eq _ hk]
  simp only [bytes_ofMem, List.getElem_map, List.getElem_range]

/-- The message in memory that shows the bytes of `m` is `m`. -/
theorem ofMem_eq {p : Bytes} (h : ∀ k < m.size, p k = m.mem k) :
    ofMem p = m := by
  have hlen : p.mLength.toNat + 32 = m.size := by
    rw [m.mLength_eq (fun k hk => h k (lt_of_lt_of_le hk m.le_size)),
      m.size_eq]
  refine ext_bytes ?_
  rw [bytes_ofMem, hlen]
  refine List.ext_getElem (by simp [size]) (fun k hk hk' => ?_)
  rw [List.getElem_map, List.getElem_range, h k hk', m.mem_eq hk']

end DataMessage

/-- The bytes of a list of messages, one after the other. -/
def flat (ms : List DataMessage) : List UInt8 := ms.flatMap DataMessage.bytes

@[simp] theorem flat_nil : flat [] = [] := rfl

@[simp] theorem flat_cons (m : DataMessage) (ms : List DataMessage) :
    flat (m :: ms) = m.bytes ++ flat ms := List.flatMap_cons

@[simp] theorem flat_append (ms ms' : List DataMessage) :
    flat (ms ++ ms') = flat ms ++ flat ms' := List.flatMap_append

/-- The number of bytes in use when the messages `ms` are in the ring. -/
def used (ms : List DataMessage) : ℕ := (flat ms).length

theorem used_append (ms ms' : List DataMessage) :
    used (ms ++ ms') = used ms + used ms' := by
  simp [used]

theorem used_cons (m : DataMessage) (ms : List DataMessage) :
    used (m :: ms) = m.size + used ms := by
  simp [used, DataMessage.size]

theorem used_eq_sum (ms : List DataMessage) :
    used ms = (ms.map DataMessage.size).sum := by
  induction ms with
  | nil => rfl
  | cons m ms ih => rw [used_cons, ih, List.map_cons, List.sum_cons]

theorem used_eq_zero {ms : List DataMessage} : used ms = 0 ↔ ms = [] := by
  cases ms with
  | nil => simp [used]
  | cons m ms =>
    have := m.le_size
    simp only [used_cons, reduceCtorEq, iff_false]
    omega

/-- Dropping more messages leaves no more bytes. -/
theorem used_drop_le {ms : List DataMessage} {i j : ℕ} (h : i ≤ j) :
    used (ms.drop j) ≤ used (ms.drop i) := by
  obtain ⟨d, rfl⟩ := Nat.exists_eq_add_of_le h
  have hsplit : used (ms.drop i)
      = used ((ms.drop i).take d) + used ((ms.drop i).drop d) := by
    rw [← used_append, List.take_append_drop]
  rw [← List.drop_drop]
  omega

/-- **The messages a ring of length `L` represents**: their bytes lie one
after the other from `m_rd` to `m_wr`. -/
def Represents (L : ℕ) (h : MessageQueueHeader) (ms : List DataMessage) :
    Prop :=
  Cyclic.Holds L h.mQueue h.mRd.toNat h.mWr.toNat (flat ms)

/-! ## A ring with its history -/

/-- **A ring with its history.** -/
structure Traced where
  ring : MessageQueueHeader
  /-- The messages whose addition stored `m_wr`, in order. -/
  accepted : List DataMessage
  /-- How many messages were consumed by a store of `m_rd`. -/
  taken : ℕ

namespace Traced

/-- The messages published and not yet consumed. -/
def pending (s : Traced) : List DataMessage := s.accepted.drop s.taken

/-- What an access does to a ring with its history: a store of `m_wr`
publishes a message, given by the call the access belongs to, and a store of
`m_rd` consumes one. -/
def exec (msg : MessageQueueHeader → DataMessage) (a : QAct) (s : Traced) :
    a.Res × Traced :=
  ((a.exec s.ring).1,
    { ring := (a.exec s.ring).2
      accepted := match a with
        | .storeField .wr _ => s.accepted ++ [msg s.ring]
        | _ => s.accepted
      taken := match a with
        | .storeField .rd _ => s.taken + 1
        | _ => s.taken })

section Exec

variable (msg : MessageQueueHeader → DataMessage) (s : Traced)

@[simp] theorem exec_storeWr (v : UInt64) :
    s.exec msg (.storeField .wr v) = ((), { s with
      ring := { s.ring with mWr := v }
      accepted := s.accepted ++ [msg s.ring] }) := rfl

@[simp] theorem exec_storeRd (v : UInt64) :
    s.exec msg (.storeField .rd v) = ((), { s with
      ring := { s.ring with mRd := v }
      taken := s.taken + 1 }) := rfl

/-- Only a store of `m_wr` moves it and publishes. -/
theorem exec_of_ne_storeWr {a : QAct} (h : ∀ v, a ≠ .storeField .wr v) :
    (s.exec msg a).2.ring.mWr = s.ring.mWr
      ∧ (s.exec msg a).2.accepted = s.accepted := by
  cases a with
  | storeField f v =>
    cases f with
    | wr => exact absurd rfl (h v)
    | _ => exact ⟨rfl, rfl⟩
  | _ => exact ⟨rfl, rfl⟩

/-- Only a store of `m_rd` moves it and consumes. -/
theorem exec_of_ne_storeRd {a : QAct} (h : ∀ v, a ≠ .storeField .rd v) :
    (s.exec msg a).2.ring.mRd = s.ring.mRd
      ∧ (s.exec msg a).2.taken = s.taken := by
  cases a with
  | storeField f v =>
    cases f with
    | rd => exact absurd rfl (h v)
    | _ => exact ⟨rfl, rfl⟩
  | _ => exact ⟨rfl, rfl⟩

end Exec

/-- **The invariant**: the ring represents the messages published and not yet
consumed. -/
structure Inv (L : ℕ) (s : Traced) : Prop where
  taken_le : s.taken ≤ s.accepted.length
  rep : Represents L s.ring s.pending

/-- A ring just set up in memory with arbitrary content. -/
def init (bufferLength : UInt64) (h : MessageQueueHeader) : Traced where
  ring := ((messageQueueInit bufferLength).run QAct.exec h).2
  accepted := []
  taken := 0

variable {L : ℕ} {s s' : Traced}

/-- **`message_queue_init` sets up an empty ring.** -/
theorem Inv.init (hL : 0 < L) (bufferLength : UInt64)
    (h : MessageQueueHeader) : Inv L (init bufferLength h) :=
  ⟨le_rfl, Cyclic.Holds.nil hL⟩

theorem Inv.rd_lt (h : Inv L s) : s.ring.mRd.toNat < L := h.rep.rd_lt

theorem Inv.wr_lt (h : Inv L s) : s.ring.mWr.toNat < L := h.rep.wr_lt

theorem Inv.used_lt (h : Inv L s) : used s.pending < L := h.rep.length_lt

theorem Inv.used_eq (h : Inv L s) :
    used s.pending = Cyclic.dist L s.ring.mRd.toNat s.ring.mWr.toNat :=
  h.rep.length_eq

/-- The message at the head, by its place in the history. -/
theorem pending_eq_cons {m : DataMessage} (h : s.accepted[s.taken]? = some m) :
    s.pending = m :: s.accepted.drop (s.taken + 1) := by
  obtain ⟨hlt, rfl⟩ := List.getElem?_eq_some_iff.mp h
  exact List.drop_eq_getElem_cons hlt

/-- **A byte of the message at the head**, read from the ring. -/
theorem Inv.head_byte (h : Inv L s) {m : DataMessage}
    (hm : s.accepted[s.taken]? = some m) {k : ℕ} (hk : k < m.size) :
    s.ring.mQueue ((s.ring.mRd.toNat + k) % L) = m.mem k := by
  have hp := pending_eq_cons hm
  have hlen : k < (flat s.pending).length := by
    rw [hp, flat_cons, List.length_append]
    exact Nat.lt_add_right _ hk
  rw [h.rep.read hlen, m.mem_eq hk]
  simp only [hp, flat_cons]
  exact List.getElem_append_left hk

/-- The message at the head is part of what is in use. -/
theorem head_size_le {m : DataMessage}
    (hm : s.accepted[s.taken]? = some m) : m.size ≤ used s.pending := by
  rw [pending_eq_cons hm, used_cons]
  omega

end Traced

/-! ## The two sides -/

/-- **What a writer does**: it publishes messages, and neither moves `m_rd`
nor consumes. -/
structure WriterStep (L : ℕ) (s s' : Traced) : Prop where
  inv : s.Inv L → s'.Inv L
  rd : s'.ring.mRd = s.ring.mRd
  taken : s'.taken = s.taken
  accepted : s.accepted <+: s'.accepted

/-- **What a reader does**: it consumes messages, and neither moves `m_wr`
nor changes a byte. -/
structure ReaderStep (L : ℕ) (s s' : Traced) : Prop where
  inv : s.Inv L → s'.Inv L
  wr : s'.ring.mWr = s.ring.mWr
  queue : s'.ring.mQueue = s.ring.mQueue
  accepted : s'.accepted = s.accepted
  taken : s.taken ≤ s'.taken

namespace WriterStep

variable {L : ℕ} {s t u : Traced}

theorem refl (s : Traced) : WriterStep L s s :=
  ⟨id, rfl, rfl, List.prefix_rfl⟩

theorem trans (h : WriterStep L s t) (h' : WriterStep L t u) :
    WriterStep L s u :=
  ⟨h'.inv ∘ h.inv, h'.rd.trans h.rd, h'.taken.trans h.taken,
    h.accepted.trans h'.accepted⟩

/-- What the reader knows to be in use stays in use. -/
theorem used_le (h : WriterStep L s t) : used s.pending ≤ used t.pending := by
  unfold Traced.pending
  obtain ⟨new, hnew⟩ := h.accepted
  rw [h.taken, ← hnew, List.drop_append, used_append]
  omega

/-- What the reader knows of the head stays true. -/
theorem getElem? (h : WriterStep L s t) {i : ℕ} {m : DataMessage}
    (hm : s.accepted[i]? = some m) : t.accepted[i]? = some m := by
  obtain ⟨new, hnew⟩ := h.accepted
  rw [← hnew]
  rw [List.getElem?_append_left (List.getElem?_eq_some_iff.mp hm).1, hm]

end WriterStep

namespace ReaderStep

variable {L : ℕ} {s t u : Traced}

theorem refl (s : Traced) : ReaderStep L s s :=
  ⟨id, rfl, rfl, rfl, le_rfl⟩

theorem trans (h : ReaderStep L s t) (h' : ReaderStep L t u) :
    ReaderStep L s u :=
  ⟨h'.inv ∘ h.inv, h'.wr.trans h.wr, h'.queue.trans h.queue,
    h'.accepted.trans h.accepted, h.taken.trans h'.taken⟩

/-- What the writer knows to be free stays free. -/
theorem used_le (h : ReaderStep L s t) : used t.pending ≤ used s.pending := by
  unfold Traced.pending
  rw [h.accepted]
  exact used_drop_le h.taken

end ReaderStep

/-- What a writer touches: free bytes and `m_wr`. -/
def writerSafe (L : ℕ) : QAct → Traced → Prop
  | .storeByte dst _, s =>
    ∃ k, used s.pending + k < L ∧ dst = (s.ring.mWr.toNat + k) % L
  | .storeField f _, _ => f = .wr
  | .copyOut _ _, _ => False
  | _, _ => True

/-- What a reader touches: bytes in use and `m_rd`. -/
def readerSafe (L : ℕ) : QAct → Traced → Prop
  | .copyOut _ src, s =>
    ∃ k < used s.pending, src = (s.ring.mRd.toNat + k) % L
  | .loadWord src, s => ∀ j < 8, ∃ k < used s.pending,
    src + j = (s.ring.mRd.toNat + k) % L
  | .storeField f _, _ => f = .rd
  | .storeByte _ _, _ => False
  | _, _ => True

/-- The bytes of the ring an access reads. -/
def QAct.Reads : QAct → ℕ → Prop
  | .copyOut _ src, i => i = src
  | .loadWord src, i => src ≤ i ∧ i < src + 8
  | _, _ => False

/-- A reader reads bytes in use. -/
theorem readerSafe.reads {L : ℕ} {a : QAct} {s : Traced} {i : ℕ}
    (h : readerSafe L a s) (hi : a.Reads i) :
    ∃ k < used s.pending, i = (s.ring.mRd.toNat + k) % L := by
  cases a with
  | copyOut dst src =>
    obtain rfl := hi
    exact h
  | loadWord src =>
    obtain ⟨hle, hlt⟩ := hi
    have := h (i - src) (by omega)
    rwa [Nat.add_sub_cancel' hle] at this
  | _ => exact absurd hi (by simp [QAct.Reads])

/-- **The specification of a writer** inside a call that publishes `msg`. -/
def writerSpec (L : ℕ) (msg : MessageQueueHeader → DataMessage) :
    RGSpec QAct QAct.Res Traced where
  sem a s r s' := s.exec msg a = (r, s')
  safe := writerSafe L
  rely := ReaderStep L
  guar := WriterStep L
  rely_refl := ReaderStep.refl
  rely_trans := ReaderStep.trans

/-- **The specification of a reader.** -/
def readerSpec (L : ℕ) (msg : MessageQueueHeader → DataMessage) :
    RGSpec QAct QAct.Res Traced where
  sem a s r s' := s.exec msg a = (r, s')
  safe := readerSafe L
  rely := WriterStep L
  guar := ReaderStep L
  rely_refl := WriterStep.refl
  rely_trans := WriterStep.trans
