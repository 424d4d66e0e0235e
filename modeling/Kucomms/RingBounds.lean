import Kucomms.Mapping
import Kucomms.Spsc

/-!
# A ring stays in its buffer

`message_queue_init` makes a ring of a buffer: 32 bytes of header, and the
rest. What is left is computed by a subtraction, and trusted from then on;
`message_queue_add` and `message_queue_get` read it from the header. It is
right if the buffer has room for the header. If not it wraps, `message_queue_init`
has written behind the buffer, and returns `true` all the same
(`init_unsound`).

In a ring of more than `2 ^ 63` bytes there is a second subtraction to trust:
the sum of an index and a size may wrap before it is reduced modulo the length,
and then the index points into a record. `Straight` says that no record in the
ring ends behind `2 ^ 64`; it holds in every run in which no message is
published that does (`NoOverflow`), and in every run of a ring that is not so
long.
-/

open Prog

/-! ## The functions that trust the header -/

/-- `message_queue_add` -/
def messageQueueAdd (message : Bytes) : QProg Bool := do
  let queueLength ← loadField .length
  messageQueueAddL queueLength message

/-- `message_queue_get` -/
def messageQueueGet (buffer : Bytes) (bufferLen : UInt64) :
    QProg GetResult := do
  let queueLength ← loadField .length
  messageQueueGetL queueLength buffer bufferLen

/-- **The calls.** -/
inductive RingCall where
  | add (m : DataMessage)
  | get (buffer : Bytes) (bufferLen : UInt64)

namespace RingCall

/-- Who makes a call. -/
def side : RingCall → Side
  | add _ => .producer
  | get _ _ => .consumer

/-- What a call returns. -/
@[reducible] def Ret : RingCall → Type
  | add _ => Bool
  | get _ _ => GetResult

/-- The programs. -/
def prog : (c : RingCall) → QProg c.Ret
  | add m => messageQueueAdd m.mem
  | get buffer bufferLen => messageQueueGet buffer bufferLen

/-- The message a call publishes. -/
def msg : RingCall → DataMessage
  | add m => m
  | get _ _ => .empty

/-- A message is shorter than the address space. -/
def WellFormed : RingCall → Prop
  | add m => m.size < 2 ^ 64
  | get _ _ => True

end RingCall

/-- **A producer and a consumer**, in every run in which a message is published
only where it `fits`. -/
def ringMachine (fits : MessageQueueHeader → DataMessage → Prop) :
    Machine Side QAct QAct.Res Traced where
  Call := RingCall
  Ret := RingCall.Ret
  prog := RingCall.prog
  may i _ c := c.side = i ∧ c.WellFormed
  onCall _ _ s := s
  sem _ c a s r s' := s.exec (fun _ => c.msg) a = (r, s')
    ∧ ∀ v, a = .storeField .wr v → fits s.ring c.msg
  onRet _ _ _ s := s

/-! ## What is touched -/

/-- **An access inside a buffer** of `n` bytes, the header being at its
beginning. -/
def QAct.Inside (n : ℕ) (a : QAct) : Prop :=
  ∀ x ∈ a.spans 0, x.region = .mapping → x.start + x.size ≤ n

/-- **All that `message_queue_init`, and then the calls, touch** is inside the
buffer. -/
structure StaysInside (fits : MessageQueueHeader → DataMessage → Prop)
    (bufferLength : UInt64) (h : MessageQueueHeader) : Prop where
  init : (messageQueueInit bufferLength).All
    (QAct.Inside bufferLength.toNat)
  calls : ∀ x, (ringMachine fits).Reach
      (Machine.start _ (Traced.init bufferLength h)) x →
    ∀ (i : Side) (c : RingCall) (a : QAct) (k : a.Res → QProg c.Ret),
      x.pc i = some ⟨c, .act a k⟩ → a.Inside bufferLength.toNat

/-- **What `message_queue_init` accepts** stays inside its buffer. -/
def InitSound (fits : MessageQueueHeader → DataMessage → Prop)
    (bufferLength : UInt64) (h : MessageQueueHeader) : Prop :=
  ((messageQueueInit bufferLength).run QAct.exec h).1 = true →
    StaysInside fits bufferLength h

/-- The message ends below `2 ^ 64` at the write index. -/
def NoOverflow (h : MessageQueueHeader) (m : DataMessage) : Prop :=
  h.mWr.toNat + m.size < 2 ^ 64

/-- The accesses of a copy: all but the stores that move an index. -/
def QAct.Copies : QAct → Prop
  | .loadField _ | .copyOut _ _ | .storeByte _ _ => True
  | _ => False

section Inside

variable {L : ℕ} {a : QAct} {s : Traced}

/-- The fields of the header are inside every buffer that holds one. -/
theorem inside_field (f : HeaderField) {n : ℕ} (hn : 32 ≤ n) :
    ∀ x ∈ [(⟨.mapping, 0 + f.offset, 8⟩ : Span)], x.region = .mapping →
      x.start + x.size ≤ n := by
  intro x hx _
  obtain rfl := List.mem_singleton.mp hx
  cases f <;> simp only [HeaderField.offset] <;> omega

/-- A byte of the ring is inside the buffer. -/
theorem inside_byte {k : ℕ} (hk : k < L) :
    ∀ x ∈ [(⟨.mapping, 0 + 32 + k, 1⟩ : Span)], x.region = .mapping →
      x.start + x.size ≤ L + 32 := by
  intro x hx _
  obtain rfl := List.mem_singleton.mp hx
  show 0 + 32 + k + 1 ≤ L + 32
  omega

/-- **What a writer touches while it copies** is inside the buffer. -/
theorem writerSafe.inside (hL : 0 < L) (ha : a.Copies)
    (h : writerSafe L a s) : a.Inside (L + 32) := by
  cases a with
  | loadField f => exact inside_field f (by omega)
  | copyOut dst src => exact h.elim
  | storeByte dst b =>
    obtain ⟨k, -, rfl⟩ := h
    exact inside_byte (Nat.mod_lt _ hL)
  | _ => exact ha.elim

/-- **What a reader touches while it copies** is inside the buffer. -/
theorem readerSafe.inside (hL : 0 < L) (ha : a.Copies)
    (h : readerSafe L a s) : a.Inside (L + 32) := by
  cases a with
  | loadField f => exact inside_field f (by omega)
  | copyOut dst src =>
    obtain ⟨k, -, rfl⟩ := h
    intro x hx hregion
    rcases List.mem_cons.mp hx with rfl | hx
    · exact inside_byte (Nat.mod_lt _ hL) _ (List.mem_singleton.mpr rfl) rfl
    · -- the destination is in the caller's memory
      obtain rfl := List.mem_singleton.mp hx
      cases dst <;> exact nomatch hregion
  | storeByte dst b => exact h.elim
  | _ => exact ha.elim

/-- A copy neither moves an index nor changes the history. -/
theorem QAct.Copies.exec (ha : a.Copies)
    (msg : MessageQueueHeader → DataMessage) (s : Traced) :
    (s.exec msg a).2.ring.mLength = s.ring.mLength
      ∧ (s.exec msg a).2.ring.mRd = s.ring.mRd
      ∧ (s.exec msg a).2.pending = s.pending := by
  cases a with
  | loadField f => exact ⟨rfl, rfl, rfl⟩
  | copyOut dst src => exact ⟨rfl, rfl, rfl⟩
  | storeByte dst b => exact ⟨rfl, rfl, rfl⟩
  | _ => exact ha.elim

end Inside

/-! ## The copies are copies -/

section Copies

variable {queueLength : UInt64}

theorem memcpyIn_copies (message : Bytes) (n dst src : ℕ) :
    (memcpyIn message dst src n).All QAct.Copies := by
  induction n generalizing dst src with
  | zero => trivial
  | succ n ih => exact ⟨trivial, fun _ => ih _ _⟩

theorem memcpyOut_copies (n dst src : ℕ) (buffer : Bytes) :
    (memcpyOut dst src n buffer).All QAct.Copies := by
  induction n generalizing dst src buffer with
  | zero => trivial
  | succ n ih => exact ⟨trivial, fun _ => ih _ _ _⟩

theorem copyHeader_copies (dst : ℕ → CopyDst) (n u0 : ℕ) (rd : UInt64)
    (buffer : Bytes) :
    (copyHeader queueLength dst n u0 rd buffer).All QAct.Copies := by
  induction n generalizing u0 rd buffer with
  | zero => trivial
  | succ n ih => exact ⟨trivial, fun _ => ih _ _ _⟩

theorem loadField_copies (f : HeaderField) :
    (loadField f).All QAct.Copies :=
  ⟨trivial, fun _ => trivial⟩

theorem copyMessageIn_copies (wr : UInt64) (message : Bytes)
    (messageSize : UInt64) :
    (copyMessageIn queueLength wr message messageSize).All QAct.Copies :=
  All.ite (memcpyIn_copies _ _ _ _)
    ((memcpyIn_copies _ _ _ _).bind (fun _ => memcpyIn_copies _ _ _ _))

theorem copyDataOut_copies (rd mLength : UInt64) (buffer : Bytes) :
    (copyDataOut queueLength rd mLength buffer).All QAct.Copies :=
  All.ite (memcpyOut_copies _ _ _ _)
    ((memcpyOut_copies _ _ _ _).bind (fun _ => memcpyOut_copies _ _ _ _))

theorem copyMessageL_copies (message : Bytes) :
    (copyMessageL queueLength message).All QAct.Copies := by
  unfold copyMessageL
  generalize message.mLength = mLength
  refine (loadField_copies _).bind (fun rd =>
    (loadField_copies _).bind (fun wr => ?_))
  exact All.ite trivial (All.ite trivial
    ((copyMessageIn_copies _ _ _).bind (fun _ => trivial)))

theorem copyHeadOutL_copies (buffer : Bytes) (bufferLen : UInt64) :
    (copyHeadOutL queueLength buffer bufferLen).All QAct.Copies := by
  refine (loadField_copies _).bind (fun rd =>
    (loadField_copies _).bind (fun wr => ?_))
  refine All.ite trivial (All.ite trivial (All.ite trivial (All.ite trivial
    ((copyHeader_copies _ _ _ _ _).bind (fun head => ?_)))))
  dsimp only
  generalize head.2.mLength = mLength
  exact All.ite trivial (All.ite trivial (All.ite trivial
    ((copyDataOut_copies _ _ _).bind (fun _ => trivial))))

end Copies

/-! ## A ring in order -/

/-- **No record ends behind `2 ^ 64`**, when the messages lie one after the
other from `p` on. -/
def Straight (L : ℕ) : ℕ → List DataMessage → Prop
  | _, [] => True
  | p, m :: ms => p + m.size < 2 ^ 64 ∧ Straight L ((p + m.size) % L) ms

/-- One more message, if it does not end there. -/
theorem Straight.concat {L p : ℕ} {ms : List DataMessage} {m : DataMessage}
    (hp : p < L) (h : Straight L p ms)
    (hm : (p + used ms) % L + m.size < 2 ^ 64) :
    Straight L p (ms ++ [m]) := by
  induction ms generalizing p with
  | nil =>
    rw [used_eq_zero.mpr rfl, Nat.add_zero, Nat.mod_eq_of_lt hp] at hm
    exact ⟨hm, trivial⟩
  | cons m' ms ih =>
    refine ⟨h.1, ih (Nat.mod_lt _ (by omega)) h.2 ?_⟩
    rwa [Nat.mod_add_mod, Nat.add_assoc, ← used_cons]

/-- **A ring in order**: its length is in its header, and unless that is zero
it represents messages none of which ends behind `2 ^ 64`. -/
structure Ringed (L : UInt64) (s : Traced) : Prop where
  length : s.ring.mLength = L
  inv : 0 < L.toNat → s.Inv L.toNat
  straight : 0 < L.toNat → Straight L.toNat s.ring.mRd.toNat s.pending

/-- `message_queue_init` puts a ring in order. -/
theorem Ringed.init (bufferLength : UInt64) (h : MessageQueueHeader) :
    Ringed (messageQueueGetQueueLength bufferLength)
      (Traced.init bufferLength h) :=
  ⟨rfl, fun hL => Traced.Inv.init hL _ _, fun _ => trivial⟩

/-- What a side does to a ring. -/
def Side.Moves (L : ℕ) : Side → Traced → Traced → Prop
  | .producer => WriterStep L
  | .consumer => ReaderStep L

/-- The other side. -/
def Side.other : Side → Side
  | .producer => .consumer
  | .consumer => .producer

/-- **What a side does to a ring in order.** -/
structure KeepsRing (L : UInt64) (i : Side) (s s' : Traced) : Prop where
  ringed : Ringed L s → Ringed L s'
  moves : Ringed L s → 0 < L.toNat → i.Moves L.toNat s s'

theorem KeepsRing.refl (L : UInt64) (i : Side) (s : Traced) : KeepsRing L i s s :=
  ⟨id, fun _ _ => by
    cases i with
    | producer => exact WriterStep.refl s
    | consumer => exact ReaderStep.refl s⟩

theorem KeepsRing.trans {L : UInt64} {i : Side} {s t u : Traced}
    (h : KeepsRing L i s t) (h' : KeepsRing L i t u) : KeepsRing L i s u := by
  refine ⟨h'.ringed ∘ h.ringed, fun hs hL => ?_⟩
  have hst := h.moves hs hL
  have htu := h'.moves (h.ringed hs) hL
  cases i with
  | producer => exact WriterStep.trans hst htu
  | consumer => exact ReaderStep.trans hst htu

/-! ## The calls stay inside -/

/-- **The specification of a call**: what it touches is inside the buffer. -/
def boundSpec (fits : MessageQueueHeader → DataMessage → Prop) (L : UInt64)
    (i : Side) (c : RingCall) : RGSpec QAct QAct.Res Traced where
  sem a s r s' := s.exec (fun _ => c.msg) a = (r, s')
    ∧ ∀ v, a = .storeField .wr v → fits s.ring c.msg
  safe a _ := a.Inside (L.toNat + 32)
  rely := KeepsRing L i.other
  guar := KeepsRing L i
  rely_refl := KeepsRing.refl L i.other
  rely_trans := KeepsRing.trans

/-- The specification of a side by itself. -/
def Side.spec (L : ℕ) (msg : MessageQueueHeader → DataMessage) :
    Side → RGSpec QAct QAct.Res Traced
  | .producer => writerSpec L msg
  | .consumer => readerSpec L msg

section Calls

variable {fits : MessageQueueHeader → DataMessage → Prop} {L : UInt64}
  {i : Side} {c : RingCall} {s : Traced} {α : Type}

/-- A ring in order stays so. -/
theorem ringed_stable : (boundSpec fits L i c).Stable (Ringed L) :=
  fun _ _ hs hr => hr.ringed hs

/-- **A copy that is correct in a ring** is inside the buffer. -/
theorem copies_wp {p : QProg α} {Q : α → Traced → Prop}
    (hp : p.All QAct.Copies) (hL : 0 < L.toNat) (hs : Ringed L s)
    (h : p.Wp (i.spec L.toNat (fun _ => c.msg)) Q s) :
    p.Wp (boundSpec fits L i c) (fun v t => Q v t ∧ Ringed L t) s := by
  refine Wp.view (boundSpec fits L i c) id (Ringed L) (fun a t _ hsafe => ?_)
    (fun a t r t' ht hsafe hsem => ?_) (fun t t' ht hr => ?_) hs
    (Wp.only hp h)
  · obtain ⟨ha, hsafe⟩ := hsafe
    cases i with
    | producer => exact writerSafe.inside hL ha hsafe
    | consumer => exact readerSafe.inside hL ha hsafe
  · obtain ⟨ha, -⟩ := hsafe
    obtain ⟨hexec, -⟩ := hsem
    obtain ⟨hlength, hrd, hpending⟩ := ha.exec (fun _ => c.msg) t
    rw [hexec] at hlength hrd hpending
    have hkeep : (t.Inv L.toNat → t'.Inv L.toNat) → Ringed L t' :=
      fun hinv => ⟨hlength.trans ht.length, fun hL => hinv (ht.inv hL),
        fun hL => by rw [hrd, hpending]; exact ht.straight hL⟩
    cases i with
    | producer =>
      refine ⟨hexec, fun hguar => ?_⟩
      have ht' := hkeep (WriterStep.inv hguar)
      exact ⟨⟨fun _ => ht', fun _ _ => hguar⟩, ht'⟩
    | consumer =>
      refine ⟨hexec, fun hguar => ?_⟩
      have ht' := hkeep (ReaderStep.inv hguar)
      exact ⟨⟨fun _ => ht', fun _ _ => hguar⟩, ht'⟩
  · refine ⟨?_, hr.ringed ht⟩
    cases i with
    | producer => exact hr.moves ht hL
    | consumer => exact hr.moves ht hL

/-- **The load of `m_length`** finds the length of a ring in order. -/
theorem loadLength_wp {k : UInt64 → QProg α} {Q : α → Traced → Prop}
    (hs : Ringed L s)
    (h : ∀ t, Ringed L t → (k L).Wp (boundSpec fits L i c) Q t) :
    (loadField .length >>= k).Wp (boundSpec fits L i c) Q s := by
  show (act (.loadField .length) k).Wp (boundSpec fits L i c) Q s
  refine Wp.act_of ringed_stable hs
    (fun t ht => ⟨inside_field _ (by omega), fun r t' hsem => ?_⟩)
  obtain ⟨rfl, rfl⟩ := Prod.mk.inj hsem.1
  refine ⟨KeepsRing.refl L i t, ?_⟩
  rw [show (QAct.exec (.loadField .length) t.ring).1 = L from ht.length]
  exact h t ht

/-- **A call that only loads the header** is inside every buffer. -/
theorem loads_wp {p : QProg α} (hp : p.All (fun a => ∃ f, a = .loadField f))
    (hs : Ringed L s) :
    p.Wp (boundSpec fits L i c) (fun _ t => Ringed L t) s := by
  refine Wp.all hp ringed_stable (fun a t ha ht => ?_) hs
  obtain ⟨f, rfl⟩ := ha
  refine ⟨inside_field f (by omega), fun r t' hsem => ?_⟩
  obtain ⟨rfl, rfl⟩ := Prod.mk.inj hsem.1
  exact ⟨KeepsRing.refl L i t, ht⟩

/-- In a ring of no bytes there is no room. -/
theorem addL_refuses (message : Bytes) :
    (messageQueueAddL 0 message).All (fun a => ∃ f, a = .loadField f) := by
  unfold messageQueueAddL
  generalize message.mLength = mLength
  simp only [loadField, act_bind, ret_bind]
  refine ⟨⟨_, rfl⟩, fun rd => ⟨⟨_, rfl⟩, fun wr => ?_⟩⟩
  refine All.ite trivial ?_
  rw [if_pos (UInt64.le_iff_toNat_le.mpr (Nat.zero_le _))]
  trivial

/-- And no message. -/
theorem getL_refuses (buffer : Bytes) (bufferLen : UInt64) :
    (messageQueueGetL 0 buffer bufferLen).All
      (fun a => ∃ f, a = .loadField f) := by
  unfold messageQueueGetL
  simp only [loadField, act_bind, ret_bind]
  refine ⟨⟨_, rfl⟩, fun rd => ⟨⟨_, rfl⟩, fun wr => ?_⟩⟩
  dsimp only
  rw [if_pos (UInt64.le_iff_toNat_le.mpr (Nat.zero_le _))]
  trivial

/-- **The store of `m_wr`** after a copy keeps the ring in order, if the
message fits. -/
theorem storeWr_ringed {m : DataMessage} {acc : List DataMessage} {w : ℕ}
    {v : UInt64}
    (hfits : ∀ h : MessageQueueHeader, fits h m →
      h.mWr.toNat < L.toNat → m.size < L.toNat →
      h.mWr.toNat + m.size < 2 ^ 64)
    (hL : 0 < L.toNat)
    (hw : Writing L.toNat acc w m.size m.mem m.size s) (hs : Ringed L s)
    (hv : w + m.size < 2 ^ 64 → v.toNat = (w + m.size) % L.toNat) :
    (publishCopy (some v)).Wp (boundSpec fits L .producer (.add m))
      (fun _ t => Ringed L t) s := by
  refine Wp.act_of (P := fun t =>
      Writing L.toNat acc w m.size m.mem m.size t ∧ Ringed L t)
    (fun t t' ht hr => ⟨ht.1.stable (hr.moves ht.2 hL), hr.ringed ht.2⟩)
    ⟨hw, hs⟩ (fun t ht => ⟨inside_field _ (by omega), fun r t' hsem => ?_⟩)
  obtain ⟨hwt, ht⟩ := ht
  obtain ⟨hexec, hfit⟩ := hsem
  obtain rfl := (Prod.mk.inj hexec).2
  have hroom := hwt.room
  have hadd := hfits t.ring (hfit v rfl) hwt.inv.wr_lt (by omega)
  have hwr := hwt.inv.rep.wr_eq
  let msg : MessageQueueHeader → DataMessage := fun _ => m
  have hmsg : msg t.ring = m := rfl
  obtain ⟨hstep, hinv, -⟩ := hwt.publish (fun _ _ => rfl) hmsg
    (hv (hwt.wr ▸ hadd))
  have hpending : (t.accepted ++ [m]).drop t.taken = t.pending ++ [m] :=
    List.drop_append_of_le_length hwt.inv.taken_le
  have ht' : Ringed L (t.exec (fun _ => m) (.storeField .wr v)).2 := by
    refine ⟨ht.length, fun _ => hinv, fun _ => ?_⟩
    show Straight _ _ ((t.accepted ++ [m]).drop t.taken)
    rw [hpending]
    refine (ht.straight hL).concat hwt.inv.rd_lt ?_
    rw [hwr] at hadd
    exact hadd
  exact ⟨⟨fun _ => ht', fun _ _ => hstep⟩,
    Wp.ret_of ringed_stable ht' (fun _ h => h)⟩

/-- **The store of `m_rd`** after a copy keeps the ring in order. -/
theorem storeRd_ringed {m : DataMessage} {t₀ : ℕ} {rd v : UInt64}
    {g : GetResult} (hL : 0 < L.toNat)
    (hm : AtHead L.toNat t₀ rd m s) (hs : Ringed L s)
    (hv : rd.toNat + m.size < 2 ^ 64 →
      v.toNat = (rd.toNat + m.size) % L.toNat) :
    (consumeHead (some v, g)).Wp (boundSpec fits L .consumer c)
      (fun _ t => Ringed L t) s := by
  refine Wp.act_of (P := fun t => AtHead L.toNat t₀ rd m t ∧ Ringed L t)
    (fun t t' ht hr => ⟨ht.1.stable (hr.moves ht.2 hL), hr.ringed ht.2⟩)
    ⟨hm, hs⟩ (fun t ht => ⟨inside_field _ (by omega), fun r t' hsem => ?_⟩)
  obtain ⟨hhead, ht⟩ := ht
  obtain rfl := (Prod.mk.inj hsem.1).2
  have hstraight := ht.straight hL
  rw [hhead.pending_eq, hhead.rd] at hstraight
  have hmove := hv hstraight.1
  obtain ⟨hstep, hread⟩ := hhead.consume hmove
  have ht' : Ringed L (t.exec (fun _ => c.msg) (.storeField .rd v)).2 := by
    refine ⟨ht.length, fun _ => hread.inv, fun _ => ?_⟩
    show Straight _ v.toNat (t.accepted.drop (t.taken + 1))
    rw [hmove, hhead.taken]
    exact hstraight.2
  exact ⟨⟨fun _ => ht', fun _ _ => hstep⟩,
    Wp.ret_of ringed_stable ht' (fun _ h => h)⟩

/-- **A call stays inside**, and leaves the ring in order. -/
theorem RingCall.ok
    (hfits : ∀ (h : MessageQueueHeader) m, fits h m →
      h.mWr.toNat < L.toNat → m.size < L.toNat →
      h.mWr.toNat + m.size < 2 ^ 64)
    (hc : c.WellFormed) (hs : Ringed L s) :
    c.prog.Wp (boundSpec fits L c.side c) (fun _ t => Ringed L t) s := by
  by_cases hL : 0 < L.toNat
  case neg =>
    obtain rfl : L = 0 := UInt64.toNat_inj.mp (by
      rw [UInt64.toNat_zero]
      omega)
    cases c with
    | add m =>
      exact loadLength_wp hs (fun t ht => loads_wp (addL_refuses m.mem) ht)
    | get buffer bufferLen =>
      exact loadLength_wp hs
        (fun t ht => loads_wp (getL_refuses buffer bufferLen) ht)
  case pos =>
    cases c with
    | add m =>
      refine loadLength_wp hs (fun t ht => ?_)
      rw [messageQueueAddL_eq]
      refine Wp.bind ((copies_wp (i := .producer) (c := .add m)
        (copyMessageL_copies m.mem) hL ht
        (copyMessageL_wp hL hc (ht.inv hL) rfl)).mono (fun r u hu => ?_))
      obtain ⟨hpost, hu⟩ := hu
      cases r with
      | none => exact Wp.ret_of ringed_stable hu (fun _ h => h)
      | some v =>
        obtain ⟨w, hw, hv⟩ := hpost.copied v rfl
        exact storeWr_ringed (fun h => hfits h m) hL hw hu hv
    | get buffer bufferLen =>
      refine loadLength_wp hs (fun t ht => ?_)
      rw [messageQueueGetL_eq]
      refine Wp.bind ((copies_wp (i := .consumer)
        (c := .get buffer bufferLen) (copyHeadOutL_copies buffer bufferLen)
        hL ht (copyHeadOutL_wp (ht.inv hL) rfl)).mono (fun r u hu => ?_))
      obtain ⟨hpost, hu⟩ := hu
      obtain ⟨move, g⟩ := r
      cases move with
      | none => exact Wp.ret_of ringed_stable hu (fun _ h => h)
      | some v =>
        obtain ⟨-, -, rd, m, hm, -, -, hv⟩ := hpost.copied v rfl
        exact storeRd_ringed hL hm hu hv

end Calls

/-- The two sides keep to the bargain. -/
theorem KeepsRing.other {L : UInt64} {i j : Side} {s s' : Traced}
    (hij : i ≠ j) (h : KeepsRing L i s s') : KeepsRing L j.other s s' := by
  cases i <;> cases j <;> first | exact h | exact absurd rfl hij

/-- **The proof of the system.** -/
def ringOutline (fits : MessageQueueHeader → DataMessage → Prop) (L : UInt64)
    (hfits : ∀ (h : MessageQueueHeader) m, fits h m →
      h.mWr.toNat < L.toNat → m.size < L.toNat →
      h.mWr.toNat + m.size < 2 ^ 64) :
    (ringMachine fits).Outline where
  rely i := KeepsRing L i.other
  guar := KeepsRing L
  safe _ _ a _ := a.Inside (L.toNat + 32)
  idle _ := Ringed L
  post _ _ _ := Ringed L
  rely_refl i := KeepsRing.refl L i.other
  rely_trans _ {_ _ _} h h' := h.trans h'
  guar_rely hij h := h.other hij
  idle_stable h hr := hr.ringed h
  call_ok {i s c} h hmay := by
    obtain ⟨rfl, hc⟩ := hmay
    exact ⟨KeepsRing.refl L c.side s, RingCall.ok hfits hc h⟩
  ret_ok {i s c v} h := ⟨KeepsRing.refl L i s, h⟩

/-! ## Which buffers are large enough -/

section Results

variable {fits : MessageQueueHeader → DataMessage → Prop}
  {bufferLength : UInt64} {h : MessageQueueHeader}

/-- A buffer with room for the header is large enough. -/
theorem staysInside_of_le (hb : 32 ≤ bufferLength.toNat)
    (hfits : ∀ (h : MessageQueueHeader) m, fits h m →
      h.mWr.toNat < bufferLength.toNat - 32 →
      m.size < bufferLength.toNat - 32 → h.mWr.toNat + m.size < 2 ^ 64) :
    StaysInside fits bufferLength h := by
  have hL := toNat_getQueueLength hb
  rw [← hL] at hfits
  refine ⟨⟨inside_field _ hb, fun _ => ⟨inside_field _ hb, fun _ =>
    ⟨inside_field _ hb, fun _ => ⟨inside_field _ hb, fun _ => trivial⟩⟩⟩⟩,
    fun x hx i c a k hpc => ?_⟩
  have hsafe : a.Inside ((messageQueueGetQueueLength bufferLength).toNat + 32)
    := (ringOutline fits _ hfits).safe_of_reach
      (fun _ => Ringed.init bufferLength h) hx hpc
  rwa [hL, Nat.sub_add_cancel hb] at hsafe

/-- In a buffer with no room for the header `message_queue_init` itself
stores behind the end. -/
theorem le_of_initSound (hs : InitSound fits bufferLength h) :
    32 ≤ bufferLength.toNat := by
  have hinit := (hs rfl).init
  have hwr : QAct.Inside bufferLength.toNat (.storeField .wr 0) :=
    (((hinit.2 ()).2 ()).2 ()).1
  exact hwr _ (List.mem_singleton.mpr rfl) rfl

/-- **When a ring that `message_queue_init` accepts stays inside its
buffer**: exactly when the buffer has room for the header, in the runs in
which no message that is published ends behind `2 ^ 64`. In a ring of at most
`2 ^ 63` bytes these are all runs. -/
theorem initSound_iff (bufferLength : UInt64) (h : MessageQueueHeader) :
    (InitSound NoOverflow bufferLength h ↔ 32 ≤ bufferLength.toNat)
    ∧ (bufferLength.toNat ≤ 2 ^ 63 + 32 →
      (InitSound (fun _ _ => True) bufferLength h
        ↔ 32 ≤ bufferLength.toNat)) := by
  refine ⟨⟨le_of_initSound, fun hb _ => ?_⟩,
    fun hlong => ⟨le_of_initSound, fun hb _ => ?_⟩⟩
  · exact staysInside_of_le hb (fun _ _ hfit _ _ => hfit)
  · exact staysInside_of_le hb (fun _ _ _ hwr hsize => by omega)

/-- In a buffer of 16 bytes the indices lie behind the end. -/
theorem init_unsound :
    ¬InitSound (fun _ _ => True) 16 MessageQueueHeader.zeroed :=
  fun hs => absurd (le_of_initSound hs) (by decide)

end Results
