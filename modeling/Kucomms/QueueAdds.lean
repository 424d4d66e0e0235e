import Kucomms.QueueRuns

/-!
# The writers to any ring

What the ways to add a message do to a ring with indices in range.

`admits_exactly_iff`: a message is let in exactly when it fits, for all
lengths but those that wrap to a size that fits.

`commits_reserved_iff`: `message_queue_add_callback_l` reserves room for
`dataLength` bytes and then publishes as many as the handler has left in
`m_length`. It stays within what it reserved exactly when the handler did.

`adds_agree`: a message is added in the same way by all of them.
-/

open Prog

variable {queueLength : UInt64} {h : MessageQueueHeader}

/-! ## Room -/

/-- What is free, and what is in use. -/
theorem hasRoom_iff (hrd : h.mRd < queueLength) (hwr : h.mWr < queueLength)
    {messageSize : UInt64} :
    h.HasRoom queueLength messageSize
      ↔ messageSize.toNat ≤ queueLength.toNat - 1 - h.avail queueLength := by
  have hfree := toNat_getFreeLBase (UInt64.lt_iff_toNat_lt.mp hrd)
    (UInt64.lt_iff_toNat_lt.mp hwr)
  unfold MessageQueueHeader.HasRoom
  rw [UInt64.le_iff_toNat_le, hfree, avail_eq hrd hwr]
  exact ⟨fun hroom => hroom.1, fun hroom => ⟨hroom, hwr⟩⟩

theorem avail_lt (hrd : h.mRd < queueLength) (hwr : h.mWr < queueLength) :
    h.avail queueLength < queueLength.toNat := by
  rw [avail_eq hrd hwr]
  exact Cyclic.dist_lt (UInt64.lt_iff_toNat_lt.mp hrd)

/-- The write index moves over what was free. -/
theorem avail_setWr (hrd : h.mRd < queueLength) (hwr : h.mWr < queueLength) {wr : UInt64}
    {n : ℕ} (hn : h.avail queueLength + n < queueLength.toNat)
    (hmove : wr.toNat = (h.mWr.toNat + n) % queueLength.toNat) :
    (h.set wr .wr).avail queueLength = h.avail queueLength + n := by
  have hrd' := UInt64.lt_iff_toNat_lt.mp hrd
  have hwr' := UInt64.lt_iff_toNat_lt.mp hwr
  have hlt : wr < queueLength := by
    rw [UInt64.lt_iff_toNat_lt, hmove]
    exact Nat.mod_lt _ (by omega)
  rw [avail_eq hrd hwr] at hn
  rw [avail_eq (h := h.set wr .wr) hrd hlt, avail_eq hrd hwr]
  show Cyclic.dist _ h.mRd.toNat wr.toNat = _
  rw [hmove, Cyclic.dist_grow hrd' hwr' hn]

/-- Only the indices count. -/
theorem avail_congr {h' : MessageQueueHeader} (hrd : h'.mRd = h.mRd)
    (hwr : h'.mWr = h.mWr) : h'.avail queueLength = h.avail queueLength := by
  show (messageQueueGetAvailLBase queueLength h'.mRd h'.mWr).toNat = _
  rw [hrd, hwr]
  rfl

/-! ## What was copied, and what was in use -/

section Written

variable {L wr n k : ℕ} {message : Bytes}

/-- The message is where it was copied to. -/
theorem written_at (hwr : wr < L) (hk : k < n) (hn : n < L) :
    (h.written L wr message n).mQueue ((wr + k) % L) = message k := by
  have hdist := Cyclic.dist_add_mod hwr (show k < L by omega)
  show (if (wr + k) % L < L ∧ Cyclic.dist L wr ((wr + k) % L) < n then
    message (Cyclic.dist L wr ((wr + k) % L)) else _) = _
  rw [hdist, if_pos ⟨Nat.mod_lt _ (by omega), hk⟩]

/-- **What is in use** is not where the free bytes are. -/
theorem used_ne_free {rd : ℕ} (hrd : rd < L) (hwr : wr < L)
    (hk : k < Cyclic.dist L rd wr) (hn : Cyclic.dist L rd wr + n < L) :
    ¬Cyclic.dist L wr ((rd + k) % L) < n := by
  have hadd := Cyclic.add_dist_mod hrd hwr
  generalize Cyclic.dist L rd wr = d at hk hn hadd
  -- counted from the write index, the byte in use comes after all that are free
  have hmove : (rd + k) % L = (wr + (L - d + k)) % L := by
    rw [← Nat.mod_eq_of_lt hwr, ← hadd, Nat.mod_mod, Nat.mod_add_mod,
      show rd + d + (L - d + k) = rd + k + L by omega, Nat.add_mod_right]
  rw [hmove, Cyclic.dist_add_mod hwr (by omega)]
  omega

/-- A message copied to free bytes leaves what is in use. -/
theorem written_used {rd : ℕ} (hrd : rd < L) (hwr : wr < L)
    (hk : k < Cyclic.dist L rd wr) (hn : Cyclic.dist L rd wr + n < L) :
    (h.written L wr message n).mQueue ((rd + k) % L)
      = h.mQueue ((rd + k) % L) :=
  if_neg (fun hc => used_ne_free hrd hwr hk hn hc.2)

end Written

/-! ## Admission -/

/-- **A message is let in exactly when it fits**: when its size, computed
without wrapping, is not more than what is free. -/
structure AdmitsExactly (queueLength : UInt64) (h : MessageQueueHeader)
    (message : Bytes) : Prop where
  add : ((messageQueueAddL queueLength message).run QAct.exec h).1 = true
    ↔ message.mLength.toNat + 32
      ≤ queueLength.toNat - 1 - h.avail queueLength
  grows : ∀ h', (messageQueueAddL queueLength message).run QAct.exec h
      = (true, h') →
    h'.avail queueLength
      = h.avail queueLength + (message.mLength.toNat + 32)
  header : ∀ h', (messageQueueAddL queueLength message).run QAct.exec h
      = (true, h') →
    ∀ k < 32, h'.mQueue ((h.mWr.toNat + k) % queueLength.toNat) = message k
  addBegin : ((messageQueueAddBeginL queueLength message.mLength).run
      QAct.exec h).1.isSome = true
    ↔ message.mLength.toNat + 32
      ≤ queueLength.toNat - 1 - h.avail queueLength

/-- **A message that is let in** is in the ring and published, and what is in
use is left alone. -/
theorem written_published (hL : queueLength.toNat < 2 ^ 63)
    (hrd : h.mRd < queueLength) (hwr : h.mWr < queueLength) (message : Bytes)
    {size : UInt64} (hroom : h.HasRoom queueLength size)
    {h' : MessageQueueHeader}
    (hset : h' = (h.written queueLength.toNat h.mWr.toNat message
      size.toNat).set ((h.mWr + size) % queueLength) .wr) :
    h'.avail queueLength = h.avail queueLength + size.toNat
      ∧ (∀ k < size.toNat,
        h'.mQueue ((h.mWr.toNat + k) % queueLength.toNat) = message k)
      ∧ h'.mRd = h.mRd
      ∧ ∀ k < h.avail queueLength,
        h'.mQueue ((h.mRd.toNat + k) % queueLength.toNat)
          = h.mQueue ((h.mRd.toNat + k) % queueLength.toNat) := by
  have hrd' := UInt64.lt_iff_toNat_lt.mp hrd
  have hwr' := UInt64.lt_iff_toNat_lt.mp hwr
  have havail := avail_lt hrd hwr
  rw [hasRoom_iff hrd hwr] at hroom
  have hqueue : h'.mQueue = (h.written queueLength.toNat h.mWr.toNat message
      size.toNat).mQueue := by rw [hset]; rfl
  have hrd_eq : h'.mRd = h.mRd := by rw [hset]; rfl
  have hwr_eq : h'.mWr = (h.mWr + size) % queueLength := by rw [hset]; rfl
  refine ⟨?_, fun k hk => ?_, hrd_eq, fun k hk => ?_⟩
  · rw [avail_congr (h := h.set h'.mWr .wr) hrd_eq rfl]
    refine avail_setWr hrd hwr (by omega) ?_
    rw [hwr_eq]
    exact toNat_advance hL hwr' (by omega)
  · rw [hqueue]
    exact written_at hwr' hk (by omega)
  · rw [hqueue]
    rw [avail_eq hrd hwr] at hk hroom havail
    exact written_used hrd' hwr' hk (by omega)

theorem add_published (hL : queueLength.toNat < 2 ^ 63)
    {message : Bytes} {h' : MessageQueueHeader}
    (hrun : (messageQueueAddL queueLength message).run QAct.exec h
      = (true, h')) :
    h.HasRoom queueLength (message.mLength + sizeofMessage)
      ∧ h' = (h.written queueLength.toNat h.mWr.toNat message
          (message.mLength + sizeofMessage).toNat).set
        ((h.mWr + (message.mLength + sizeofMessage)) % queueLength) .wr := by
  rw [messageQueueAddL_run h hL] at hrun
  by_cases hroom : h.HasRoom queueLength (message.mLength + sizeofMessage)
  · rw [if_pos hroom] at hrun
    exact ⟨hroom, (Prod.mk.inj hrun).2.symm⟩
  · rw [if_neg hroom] at hrun
    cases hrun

theorem add_ok_iff (hL : queueLength.toNat < 2 ^ 63) (message : Bytes) :
    ((messageQueueAddL queueLength message).run QAct.exec h).1 = true
      ↔ h.HasRoom queueLength (message.mLength + sizeofMessage) := by
  rw [messageQueueAddL_run h hL]
  split
  · next hroom => exact ⟨fun _ => hroom, fun _ => rfl⟩
  · next hroom =>
    exact ⟨fun hc => absurd hc Bool.false_ne_true, fun hc => absurd hc hroom⟩

theorem addBegin_ok_iff (dataLength : UInt64) :
    ((messageQueueAddBeginL queueLength dataLength).run QAct.exec
      h).1.isSome = true
      ↔ h.HasRoom queueLength (dataLength + sizeofMessage) := by
  rw [messageQueueAddBeginL_run]
  show (if _ then some _ else none : Option (Option ℕ)).isSome = true ↔ _
  split
  · next hroom => exact ⟨fun _ => hroom, fun _ => rfl⟩
  · next hroom =>
    exact ⟨fun hc => absurd hc Bool.false_ne_true, fun hc => absurd hc hroom⟩

/-- The size of a message, as the writers compute it. -/
theorem toNat_add_sizeofMessage (n : UInt64) :
    (n + sizeofMessage).toNat = n.toNat + 32
        ∧ n.toNat + 32 < 2 ^ 64
      ∨ (n + sizeofMessage).toNat = n.toNat + 32 - 2 ^ 64
        ∧ 2 ^ 64 ≤ n.toNat + 32 := by
  have hlt := n.toNat_lt
  by_cases hwrap : n.toNat + 32 < 2 ^ 64
  · exact .inl ⟨toNat_add_header hwrap, hwrap⟩
  · rw [UInt64.toNat_add, toNat_sizeofMessage]
    omega

/-- **Exactly when a message is let in exactly when it fits.** -/
theorem admits_exactly_iff (hL : queueLength.toNat < 2 ^ 63)
    (hrd : h.mRd < queueLength) (hwr : h.mWr < queueLength)
    (message : Bytes) :
    AdmitsExactly queueLength h message
      ↔ message.mLength.toNat + 32 < 2 ^ 64
        ∨ queueLength.toNat - 1 - h.avail queueLength
          < message.mLength.toNat + 32 - 2 ^ 64 := by
  have hlt : queueLength.toNat - 1 - h.avail queueLength < 2 ^ 63 := by omega
  have hadd := (add_ok_iff (h := h) hL message).trans (hasRoom_iff hrd hwr)
  have hbegin := (addBegin_ok_iff (h := h) message.mLength).trans
    (hasRoom_iff hrd hwr)
  rcases toNat_add_sizeofMessage message.mLength with ⟨hsize, hnowrap⟩
    | ⟨hsize, hwrap⟩
  · rw [hsize] at hadd hbegin
    refine ⟨fun _ => .inl hnowrap, fun _ =>
      ⟨hadd, fun h' hrun => ?_, fun h' hrun k hk => ?_, hbegin⟩⟩
    · obtain ⟨hroom, hset⟩ := add_published hL hrun
      rw [← hsize]
      exact (written_published hL hrd hwr message hroom hset).1
    · obtain ⟨hroom, hset⟩ := add_published hL hrun
      exact (written_published hL hrd hwr message hroom hset).2.1 k (by omega)
  · rw [hsize] at hadd hbegin
    constructor
    · intro hexact
      by_contra hc
      rw [not_or, Nat.not_lt, Nat.not_lt] at hc
      -- the wrapped size fits
      have hle := hexact.add.mp (hadd.mpr hc.2)
      omega
    · rintro (hc | hout)
      · omega
      have hno : ¬((messageQueueAddL queueLength message).run QAct.exec
          h).1 = true := fun hc => absurd (hadd.mp hc) (by omega)
      exact ⟨⟨fun hc => absurd hc hno, fun hc => absurd hc (by omega)⟩,
        fun h' hrun => absurd (congrArg Prod.fst hrun) hno,
        fun h' hrun => absurd (congrArg Prod.fst hrun) hno,
        ⟨fun hc => absurd (hbegin.mp hc) (by omega),
          fun hc => absurd hc (by omega)⟩⟩

/-- A message of 32 bytes, to a ring in which it goes around the end. -/
theorem admits_exactly_straddling :
    AdmitsExactly 100 ⟨0, 0, 40, 90, fun _ => 0⟩ (fun _ => 0) :=
  (admits_exactly_iff (by decide) (by decide) (by decide) _).mpr
    (.inl (by decide +kernel))

/-- **A message that is not there**: its length is `2 ^ 64 - 1`, and it is let
in as one of 31 bytes. -/
theorem admits_wrapped :
    ¬ AdmitsExactly 100 ⟨0, 0, 0, 0, fun _ => 0⟩ (fun _ => 255) := by
  intro hexact
  have hok := (add_ok_iff (h := ⟨0, 0, 0, 0, fun _ => 0⟩)
    (show (100 : UInt64).toNat < 2 ^ 63 by decide) (fun _ => 255)).mpr
    (by decide +kernel)
  exact absurd (hexact.add.mp hok) (by decide +kernel)

/-! ## What a handler does -/

/-- The ring after a handler has left `mem` at the pointer it was given. -/
def MessageQueueHeader.through (h : MessageQueueHeader) (slot : ℕ)
    (mem : Bytes) : MessageQueueHeader :=
  { h with mQueue := fun a => if slot ≤ a then mem (a - slot) else h.mQueue a }

theorem through_slot (slot : ℕ) : h.through slot (h.slot slot) = h := by
  refine congrArg (fun q => { h with mQueue := q }) ?_
  funext a
  split
  · next hle => exact congrArg h.mQueue (Nat.add_sub_of_le hle)
  · rfl

theorem slot_through (slot : ℕ) (mem : Bytes) :
    (h.through slot mem).slot slot = mem := by
  funext k
  show (if slot ≤ slot + k then mem (slot + k - slot) else _) = _
  rw [if_pos (Nat.le_add_right ..), Nat.add_sub_cancel_left]

/-- **A handler in the ring** does what it does in memory of its own. -/
theorem inRing_run {α : Type} (p : PtrProg α) (slot : ℕ)
    (h : MessageQueueHeader) :
    (p.inRing slot).run QAct.exec h
      = ((p.run PtrAct.exec (h.slot slot)).1,
        h.through slot (p.run PtrAct.exec (h.slot slot)).2) := by
  induction p generalizing h with
  | ret a =>
    show (a, h) = (a, h.through slot (h.slot slot))
    rw [through_slot]
  | act a k ih =>
    cases a with
    | load i => exact ih _ h
    | store i b =>
      have hslot : MessageQueueHeader.slot
          { h with mQueue := Function.update h.mQueue (slot + i) b } slot
          = Function.update (h.slot slot) i b := by
        funext j
        show Function.update h.mQueue (slot + i) b (slot + j) = _
        by_cases hj : j = i
        · rw [hj, Function.update_self, Function.update_self]
        · rw [Function.update_of_ne (by omega), Function.update_of_ne hj]
          rfl
      show (PtrProg.inRing (k ()) slot).run QAct.exec
        { h with mQueue := Function.update h.mQueue (slot + i) b } = _
      rw [ih, hslot]
      refine congrArg (fun q => (_, { h with mQueue := q })) ?_
      funext a
      by_cases ha : slot ≤ a
      · exact (if_pos ha).trans (if_pos ha).symm
      · refine (if_neg ha).trans (Eq.trans ?_ (if_neg ha).symm)
        exact Function.update_of_ne (by omega) _ _

/-- **A handler that writes only** to the first `n` bytes it is given. -/
def PtrAct.Inside (n : ℕ) : PtrAct → Prop
  | .load _ => True
  | .store k _ => k < n

/-- The bytes behind them are as they were. -/
theorem run_outside {α : Type} {n : ℕ} {p : PtrProg α}
    (hp : p.All (PtrAct.Inside n)) (mem : Bytes) {k : ℕ} (hk : n ≤ k) :
    (p.run PtrAct.exec mem).2 k = mem k := by
  induction p generalizing mem with
  | ret a => rfl
  | act a f ih =>
    cases a with
    | load i => exact ih _ (hp.2 _) mem
    | store i b =>
      have hi : i < n := hp.1
      refine (ih () (hp.2 ()) _).trans ?_
      exact Function.update_of_ne (by omega) _ _

/-- A record in one piece, written by a handler. -/
theorem through_eq_written {L slot n : ℕ} {mem : Bytes}
    (hfit : slot + n ≤ L) (hslot : slot < L)
    (hmem : ∀ k, n ≤ k → mem k = h.slot slot k) :
    h.through slot mem = h.written L slot mem n := by
  refine congrArg (fun q => { h with mQueue := q }) ?_
  funext a
  refine Eq.trans ?_ (written_in_place (h := h) hfit hslot a).symm
  by_cases ha : slot ≤ a
  · rw [if_pos ha]
    split
    · rfl
    · next hout =>
      rw [hmem _ (by omega)]
      exact congrArg h.mQueue (Nat.add_sub_of_le ha)
  · rw [if_neg ha, if_neg (fun hc => ha hc.1)]

section Callback

variable {hlr : InitMessageFn} {dataLength : UInt64} {ok : Bool} {mem : Bytes}

/-- **`message_queue_add_callback_l`** without room. -/
theorem addCallback_noRoom (buffer : Bytes) (bufferLen : UInt64)
    (hroom : ¬ h.HasRoom queueLength (dataLength + sizeofMessage)) :
    (messageQueueAddCallbackL queueLength hlr dataLength buffer bufferLen).run
        QAct.exec h = (⟨false, false, buffer⟩, h) := by
  unfold messageQueueAddCallbackL
  rw [run_bind, messageQueueAddBeginL_run, if_neg hroom]
  rfl

/-- The handler writes to the ring, and what is published is the record that
it left. -/
theorem addCallback_inPlace (buffer : Bytes) (bufferLen : UInt64)
    (hroom : h.HasRoom queueLength (dataLength + sizeofMessage))
    (hfit : queueLength - h.mWr ≥ dataLength + sizeofMessage)
    (hrun : (hlr dataLength).run PtrAct.exec (h.slot h.mWr.toNat)
      = (ok, mem)) :
    (messageQueueAddCallbackL queueLength hlr dataLength buffer bufferLen).run
        QAct.exec h
      = (⟨ok, false, buffer⟩, if ok = true then
            (h.through h.mWr.toNat mem).set
              ((h.mWr + (mem.mLength + sizeofMessage)) % queueLength) .wr
          else h.through h.mWr.toNat mem) := by
  have hwr : (h.through h.mWr.toNat mem).mWr < queueLength := hroom.2
  unfold messageQueueAddCallbackL
  rw [run_bind, messageQueueAddBeginL_run, if_pos hroom, if_pos hfit]
  show ((hlr dataLength).inRing h.mWr.toNat >>= _).run QAct.exec h = _
  rw [run_bind, inRing_run, hrun]
  cases ok with
  | false => rfl
  | true =>
    show (messageQueueAddCompleteL queueLength h.mWr.toNat >>= _).run
      QAct.exec _ = _
    rw [run_bind, messageQueueAddCompleteL_run, slot_through, if_pos hwr]
    rfl

/-- The bounce buffer is too short. -/
theorem addCallback_short {buffer : Bytes} {bufferLen : UInt64}
    (hroom : h.HasRoom queueLength (dataLength + sizeofMessage))
    (hfit : ¬ queueLength - h.mWr ≥ dataLength + sizeofMessage)
    (hbuf : bufferLen < dataLength + sizeofMessage) :
    (messageQueueAddCallbackL queueLength hlr dataLength buffer bufferLen).run
        QAct.exec h = (⟨false, true, buffer⟩, h) := by
  unfold messageQueueAddCallbackL
  rw [run_bind, messageQueueAddBeginL_run, if_pos hroom, if_neg hfit]
  show (if bufferLen < dataLength + sizeofMessage then _ else _ :
    QProg AddCallbackResult).run QAct.exec h = _
  rw [if_pos hbuf]
  rfl

/-- The handler writes to the bounce buffer, and what it left is added. -/
theorem addCallback_bounce {buffer : Bytes} {bufferLen : UInt64}
    (hroom : h.HasRoom queueLength (dataLength + sizeofMessage))
    (hfit : ¬ queueLength - h.mWr ≥ dataLength + sizeofMessage)
    (hbuf : dataLength + sizeofMessage ≤ bufferLen)
    (hrun : (hlr dataLength).run PtrAct.exec buffer = (ok, mem)) :
    (messageQueueAddCallbackL queueLength hlr dataLength buffer bufferLen).run
        QAct.exec h
      = if ok = true then
          (⟨((messageQueueAddL queueLength mem).run QAct.exec h).1, false,
            mem⟩, ((messageQueueAddL queueLength mem).run QAct.exec h).2)
        else (⟨false, false, mem⟩, h) := by
  unfold messageQueueAddCallbackL
  rw [run_bind, messageQueueAddBeginL_run, if_pos hroom, if_neg hfit]
  show (if bufferLen < dataLength + sizeofMessage then _ else _ :
    QProg AddCallbackResult).run QAct.exec h = _
  rw [if_neg (UInt64.not_lt.mpr hbuf), hrun]
  cases ok with
  | false => rfl
  | true =>
    show (messageQueueAddL queueLength mem >>= _).run QAct.exec h = _
    rw [run_bind]
    rfl

end Callback

/-! ## The ways of adding compared -/

/-- **Memory to which a message was copied**: the first `n` bytes are those of
the message. -/
def Bytes.over (message : Bytes) (n : ℕ) (mem : Bytes) : Bytes :=
  fun k => if k < n then message k else mem k

/-- **A handler that writes a message** and nothing else. -/
def Writes (hlr : InitMessageFn) (message : Bytes) : Prop :=
  ∀ mem, (hlr message.mLength).run PtrAct.exec mem
    = (true, message.over (message.mLength.toNat + 32) mem)

/-- `memcpy` through the pointer a handler is given: `n` bytes of a message
from the `k`-th on. -/
def memcpyTo (message : Bytes) : ℕ → ℕ → PtrProg Unit
  | 0, _ => return ()
  | n + 1, k => .act (.store k (message k)) (fun _ => memcpyTo message n (k + 1))

/-- `TestInitMessage::init`: the handler of `message_queue_test`. -/
def testInitMessage (msg : Bytes) : InitMessageFn := fun dataLength =>
  if dataLength ≠ msg.mLength then return false
  else do
    memcpyTo msg (msg.mLength.toNat + 32) 0
    return true

theorem memcpyTo_run (message : Bytes) (n k : ℕ) (mem : Bytes) :
    (memcpyTo message n k).run PtrAct.exec mem
      = ((), fun i => if k ≤ i ∧ i < k + n then message i else mem i) := by
  induction n generalizing k mem with
  | zero =>
    refine congrArg (fun m => ((), m)) ?_
    funext i
    exact (if_neg (by omega)).symm
  | succ n ih =>
    show (memcpyTo message n (k + 1)).run PtrAct.exec
      (Function.update mem k (message k)) = _
    rw [ih]
    refine congrArg (fun m => ((), m)) ?_
    funext i
    by_cases hi : i = k
    · rw [if_neg (by omega), if_pos (by omega), hi, Function.update_self]
    · rw [Function.update_of_ne hi]
      split
      · rw [if_pos (by omega)]
      · rw [if_neg (by omega)]

/-- The handler of the test writes its message. -/
theorem testInitMessage_writes (msg : Bytes) :
    Writes (testInitMessage msg) msg := by
  intro mem
  unfold testInitMessage
  rw [run_ite, if_neg (fun hne => hne rfl), run_bind, memcpyTo_run]
  refine congrArg (fun m => (true, m)) ?_
  funext i
  show (if 0 ≤ i ∧ i < 0 + (msg.mLength.toNat + 32) then msg i else mem i)
    = if i < msg.mLength.toNat + 32 then msg i else mem i
  simp only [Nat.zero_le, true_and, Nat.zero_add]

/-- **Adding a message in place**: the caller writes it to the slot that
`message_queue_add_begin_l` has reserved, and falls back to
`message_queue_add_l` if the slot is null. -/
def addInPlaceL (queueLength : UInt64) (message : Bytes) : QProg Bool := do
  let r ← messageQueueAddBeginL queueLength message.mLength
  match r with
  | none => return false
  | some none => messageQueueAddL queueLength message
  | some (some slot) => do
    memcpyIn message slot 0 (message.mLength + sizeofMessage).toNat
    messageQueueAddCompleteL queueLength slot
    return true

section Compared

variable {message mem : Bytes}

/-- Only the bytes that are copied count. -/
theorem written_congr {L i n : ℕ} (hmem : ∀ k < n, mem k = message k) :
    h.written L i mem n = h.written L i message n := by
  refine congrArg (fun q => { h with mQueue := q }) ?_
  funext a
  by_cases hc : a < L ∧ Cyclic.dist L i a < n
  · exact (if_pos hc).trans ((hmem _ hc.2).trans (if_pos hc).symm)
  · exact (if_neg hc).trans (if_neg hc).symm

theorem over_mLength {n : ℕ} : (message.over (n + 32) mem).mLength
    = message.mLength :=
  Bytes.mLength_congr (fun k hk => if_pos (by omega))

/-- Two copies of a message are added alike. -/
theorem add_congr (hL : queueLength.toNat < 2 ^ 63)
    (hwrap : message.mLength.toNat + 32 < 2 ^ 64) :
    (messageQueueAddL queueLength
        (message.over (message.mLength.toNat + 32) mem)).run QAct.exec h
      = (messageQueueAddL queueLength message).run QAct.exec h := by
  have hsize := toNat_add_header hwrap
  have hcopy : ∀ k < message.mLength.toNat + 32,
      message.over (message.mLength.toNat + 32) mem k = message k :=
    fun k hk => if_pos hk
  rw [messageQueueAddL_run h hL, messageQueueAddL_run h hL, over_mLength,
    hsize, written_congr hcopy]

end Compared

/-- The slot of a record in one piece is in the ring. -/
theorem slot_fits {size : UInt64} (hwr : h.mWr < queueLength)
    (hfit : queueLength - h.mWr ≥ size) :
    h.mWr.toNat + size.toNat ≤ queueLength.toNat := by
  rw [UInt64.lt_iff_toNat_lt] at hwr
  rw [ge_iff_le, UInt64.le_iff_toNat_le, UInt64.toNat_sub_of_le _ _
    (UInt64.le_iff_toNat_le.mpr hwr.le)] at hfit
  omega

section Agree

variable {message : Bytes} (hL : queueLength.toNat < 2 ^ 63)
  (hwrap : message.mLength.toNat + 32 < 2 ^ 64)

/-- A message that a handler wrote to the ring. -/
theorem through_over {L slot n : ℕ} (hfit : slot + n ≤ L) (hslot : slot < L) :
    h.through slot (message.over n (h.slot slot))
      = h.written L slot message n := by
  have hout : ∀ k, n ≤ k →
      message.over n (h.slot slot) k = h.slot slot k := fun k hk =>
    if_neg (Nat.not_lt.mpr hk)
  rw [through_eq_written hfit hslot hout]
  exact written_congr (fun k hk => if_pos hk)

include hL hwrap

theorem callback_agrees {hlr : InitMessageFn} (hhlr : Writes hlr message)
    (buffer : Bytes) {bufferLen : UInt64}
    (hbuf : message.mLength + sizeofMessage ≤ bufferLen)
    {r : AddCallbackResult} {h' : MessageQueueHeader}
    (hrun : (messageQueueAddCallbackL queueLength hlr message.mLength buffer
      bufferLen).run QAct.exec h = (r, h')) :
    (r.ok, h') = (messageQueueAddL queueLength message).run QAct.exec h := by
  have hsize := toNat_add_header hwrap
  by_cases hroom : h.HasRoom queueLength (message.mLength + sizeofMessage)
  · by_cases hfit : queueLength - h.mWr ≥ message.mLength + sizeofMessage
    · have hslot := slot_fits hroom.2 hfit
      rw [hsize] at hslot
      rw [addCallback_inPlace buffer _ hroom hfit (hhlr _), if_pos rfl,
        over_mLength, through_over hslot (UInt64.lt_iff_toNat_lt.mp hroom.2)] at hrun
      obtain ⟨rfl, rfl⟩ := Prod.mk.inj hrun
      rw [messageQueueAddL_run h hL, if_pos hroom, hsize]
    · rw [addCallback_bounce hroom hfit hbuf (hhlr _), if_pos rfl,
        add_congr hL hwrap] at hrun
      rw [← (Prod.mk.inj hrun).1, ← (Prod.mk.inj hrun).2]
  · rw [addCallback_noRoom buffer _ hroom] at hrun
    obtain ⟨rfl, rfl⟩ := Prod.mk.inj hrun
    rw [messageQueueAddL_run h hL, if_neg hroom]

theorem inPlace_agrees :
    (addInPlaceL queueLength message).run QAct.exec h
      = (messageQueueAddL queueLength message).run QAct.exec h := by
  have hsize := toNat_add_header hwrap
  unfold addInPlaceL
  rw [run_bind, messageQueueAddBeginL_run]
  by_cases hroom : h.HasRoom queueLength (message.mLength + sizeofMessage)
  · rw [if_pos hroom]
    by_cases hfit : queueLength - h.mWr ≥ message.mLength + sizeofMessage
    · have hslot := slot_fits hroom.2 hfit
      have hlt := UInt64.lt_iff_toNat_lt.mp hroom.2
      rw [hsize] at hslot
      have hcopy : (memcpyIn message h.mWr.toNat 0
          (message.mLength + sizeofMessage).toNat).run QAct.exec h
          = ((), h.written queueLength.toNat h.mWr.toNat message
            (message.mLength.toNat + 32)) := by
        rw [memcpyIn_run, hsize]
        refine congrArg (fun q => ((), { h with mQueue := q })) ?_
        funext a
        rw [Nat.zero_add]
        exact (written_in_place (h := h) hslot hlt a).symm
      -- the length that is published is the one just written
      have hlen : ((h.written queueLength.toNat h.mWr.toNat message
          (message.mLength.toNat + 32)).slot h.mWr.toNat).mLength
          = message.mLength := by
        rw [← through_over hslot hlt, slot_through, over_mLength]
      have hwr : (h.written queueLength.toNat h.mWr.toNat message
          (message.mLength.toNat + 32)).mWr < queueLength := hroom.2
      have hadd := messageQueueAddL_run h hL message
      rw [if_pos hroom, hsize] at hadd
      rw [if_pos hfit, hadd]
      show (memcpyIn message h.mWr.toNat 0
        (message.mLength + sizeofMessage).toNat >>= _).run QAct.exec h = _
      rw [run_bind, hcopy, run_bind, messageQueueAddCompleteL_run, hlen,
        if_pos hwr]
      rfl
    · rw [if_neg hfit]
  · rw [if_neg hroom, messageQueueAddL_run h hL, if_neg hroom]
    rfl

end Agree

/-- **All ways of adding a message agree**, whatever is in the ring: they
return the same and leave the same ring. -/
theorem adds_agree (hL : queueLength.toNat < 2 ^ 63) (h : MessageQueueHeader)
    {message : Bytes} (hwrap : message.mLength.toNat + 32 < 2 ^ 64)
    {hlr : InitMessageFn} (hhlr : Writes hlr message) (buffer : Bytes)
    {bufferLen : UInt64} (hbuf : message.mLength + sizeofMessage ≤ bufferLen) :
    (((messageQueueAddCallbackL queueLength hlr message.mLength buffer
          bufferLen).run QAct.exec h).1.ok,
        ((messageQueueAddCallbackL queueLength hlr message.mLength buffer
          bufferLen).run QAct.exec h).2)
      = (messageQueueAddL queueLength message).run QAct.exec h
    ∧ (addInPlaceL queueLength message).run QAct.exec h
      = (messageQueueAddL queueLength message).run QAct.exec h :=
  ⟨callback_agrees hL hwrap hhlr buffer hbuf Prod.mk.eta.symm,
    inPlace_agrees hL hwrap⟩

/-- A message of no data, to a ring in which it goes around the end. -/
theorem adds_agree_straddling :
    (((messageQueueAddCallbackL 100 (testInitMessage (fun _ => 0)) 0
          (fun _ => 1) 32).run QAct.exec ⟨0, 0, 40, 90, fun _ => 7⟩).1.ok,
        ((messageQueueAddCallbackL 100 (testInitMessage (fun _ => 0)) 0
          (fun _ => 1) 32).run QAct.exec ⟨0, 0, 40, 90, fun _ => 7⟩).2)
      = (messageQueueAddL 100 (fun _ => 0)).run QAct.exec
        ⟨0, 0, 40, 90, fun _ => 7⟩
    ∧ (addInPlaceL 100 (fun _ => 0)).run QAct.exec ⟨0, 0, 40, 90, fun _ => 7⟩
      = (messageQueueAddL 100 (fun _ => 0)).run QAct.exec
        ⟨0, 0, 40, 90, fun _ => 7⟩ := by
  have hzero : Bytes.mLength (fun _ => 0) = 0 := by decide +kernel
  have hL : (100 : UInt64).toNat < 2 ^ 63 := by decide
  have hbuf : Bytes.mLength (fun _ => 0) + sizeofMessage ≤ 32 := by
    decide +kernel
  have hagree := adds_agree hL ⟨0, 0, 40, 90, fun _ => 7⟩ (by decide +kernel)
    (testInitMessage_writes (fun _ => 0)) (fun _ => 1) hbuf
  rwa [hzero] at hagree

/-! ## Committing what was reserved -/

/-- **A record was committed** within `reserved` bytes: what is in use has
grown by as many bytes of `mem` at most, no others were copied, and what was
in use is as it was. -/
structure Commits (queueLength : UInt64) (h : MessageQueueHeader)
    (reserved : ℕ) (mem : Bytes) (h' : MessageQueueHeader) : Prop where
  grows : ∃ n ≤ reserved, h'.avail queueLength = h.avail queueLength + n
    ∧ ∀ k < n, h'.mQueue ((h.mWr.toNat + k) % queueLength.toNat) = mem k
  copied : ∀ a, h'.mQueue a ≠ h.mQueue a → ∃ k < reserved,
    a = (h.mWr.toNat + k) % queueLength.toNat ∧ h'.mQueue a = mem k
  rd : h'.mRd = h.mRd
  unread : ∀ k < h.avail queueLength,
    h'.mQueue ((h.mRd.toNat + k) % queueLength.toNat)
      = h.mQueue ((h.mRd.toNat + k) % queueLength.toNat)

/-- What a handler returns, and what it leaves in the memory that it is given:
the ring, or the bounce buffer if the record would go around the end. -/
def handled (queueLength : UInt64) (h : MessageQueueHeader)
    (hlr : InitMessageFn) (dataLength : UInt64) (buffer : Bytes) :
    Bool × Bytes :=
  (hlr dataLength).run PtrAct.exec
    (if queueLength - h.mWr ≥ dataLength + sizeofMessage
      then h.slot h.mWr.toNat else buffer)

/-- **`message_queue_add_callback_l` commits no more than it has reserved.** -/
def CommitsReserved (queueLength : UInt64) (h : MessageQueueHeader)
    (hlr : InitMessageFn) (dataLength : UInt64) (buffer : Bytes)
    (bufferLen : UInt64) : Prop :=
  ∀ (r : AddCallbackResult) (h' : MessageQueueHeader),
    (messageQueueAddCallbackL queueLength hlr dataLength buffer
      bufferLen).run QAct.exec h = (r, h') → r.ok = true →
    Commits queueLength h (dataLength.toNat + 32)
      (handled queueLength h hlr dataLength buffer).2 h'

/-- **What the handler must keep to**: if it is called and returns true, then
the write index moves over no more than was reserved. In the bounce buffer it
may also leave a length for which there is no room. -/
def KeepsReservation (queueLength : UInt64) (h : MessageQueueHeader)
    (hlr : InitMessageFn) (dataLength : UInt64) (buffer : Bytes) : Prop :=
  h.HasRoom queueLength (dataLength + sizeofMessage) →
  (handled queueLength h hlr dataLength buffer).1 = true →
  if queueLength - h.mWr ≥ dataLength + sizeofMessage then
    Cyclic.dist queueLength.toNat h.mWr.toNat
      ((h.mWr + ((handled queueLength h hlr dataLength buffer).2.mLength
        + sizeofMessage)) % queueLength).toNat ≤ dataLength.toNat + 32
  else
    ((handled queueLength h hlr dataLength buffer).2.mLength
        + sizeofMessage).toNat ≤ dataLength.toNat + 32
      ∨ ¬ h.HasRoom queueLength
        ((handled queueLength h hlr dataLength buffer).2.mLength
          + sizeofMessage)

section Commits

variable {mem : Bytes} {reserved n : ℕ} {h' : MessageQueueHeader}
  (hrd : h.mRd < queueLength) (hwr : h.mWr < queueLength)

include hrd hwr

/-- A record of which the first bytes were published. -/
theorem commits_written {cells : ℕ}
    (hroom : h.avail queueLength + cells < queueLength.toNat)
    (hn : n ≤ cells) (hcells : cells ≤ reserved) {wr : UInt64}
    (hmove : wr.toNat = (h.mWr.toNat + n) % queueLength.toNat)
    (hset : h' = (h.written queueLength.toNat h.mWr.toNat mem cells).set
      wr .wr) :
    Commits queueLength h reserved mem h' := by
  have hrd' := UInt64.lt_iff_toNat_lt.mp hrd
  have hwr' := UInt64.lt_iff_toNat_lt.mp hwr
  have hqueue : h'.mQueue = (h.written queueLength.toNat h.mWr.toNat mem
      cells).mQueue := by rw [hset]; rfl
  have hrd_eq : h'.mRd = h.mRd := by rw [hset]; rfl
  have hwr_eq : h'.mWr = wr := by rw [hset]; rfl
  refine ⟨⟨n, by omega, ?_, fun k hk => ?_⟩, fun a hne => ?_, hrd_eq,
    fun k hk => ?_⟩
  · rw [avail_congr (h := h.set wr .wr) hrd_eq hwr_eq]
    exact avail_setWr hrd hwr (by omega) hmove
  · rw [hqueue]
    exact written_at hwr' (by omega) (by omega)
  · rw [hqueue] at hne ⊢
    by_cases hc : a < queueLength.toNat
        ∧ Cyclic.dist queueLength.toNat h.mWr.toNat a < cells
    · exact ⟨_, lt_of_lt_of_le hc.2 hcells,
        (Cyclic.add_dist_mod hwr' hc.1).symm, if_pos hc⟩
    · exact absurd (if_neg hc) hne
  · rw [hqueue]
    rw [avail_eq hrd hwr] at hk hroom
    exact written_used hrd' hwr' hk hroom

/-- **How far the write index moved** if a record was committed. -/
theorem commits_moved
    (hroom : h.avail queueLength + reserved < queueLength.toNat)
    (hcommits : Commits queueLength h reserved mem h')
    (hwr' : h'.mWr < queueLength) :
    Cyclic.dist queueLength.toNat h.mWr.toNat h'.mWr.toNat ≤ reserved := by
  obtain ⟨n, hn, hgrow, -⟩ := hcommits.grows
  have hltRd := UInt64.lt_iff_toNat_lt.mp hrd
  have hltWr := UInt64.lt_iff_toNat_lt.mp hwr
  have hrd' : h'.mRd < queueLength := by
    rw [hcommits.rd]
    exact hrd
  rw [avail_eq hrd hwr] at hgrow hroom
  rw [avail_eq hrd' hwr', hcommits.rd] at hgrow
  have hmoved : h'.mWr.toNat = (h.mWr.toNat + n) % queueLength.toNat := by
    rw [← Cyclic.add_dist_mod hltRd (UInt64.lt_iff_toNat_lt.mp hwr'), hgrow,
      ← Nat.add_assoc, ← Nat.mod_add_mod, Cyclic.add_dist_mod hltRd hltWr]
  rw [hmoved, Cyclic.dist_add_mod hltWr (by omega)]
  exact hn

end Commits

section Reserved

variable (hL : queueLength.toNat < 2 ^ 63) (hrd : h.mRd < queueLength)
  (hwr : h.mWr < queueLength) {hlr : InitMessageFn} {dataLength : UInt64}
  (hwrap : dataLength.toNat + 32 < 2 ^ 64)
  (hroom : h.HasRoom queueLength (dataLength + sizeofMessage))

include hL hrd hwr hwrap hroom

/-- In the ring, the length that the handler has left is not checked again. -/
theorem inPlace_reserved_iff
    (hhlr : (hlr dataLength).All (PtrAct.Inside (dataLength.toNat + 32)))
    (hfit : queueLength - h.mWr ≥ dataLength + sizeofMessage) {mem : Bytes}
    (hrun : (hlr dataLength).run PtrAct.exec (h.slot h.mWr.toNat)
      = (true, mem)) (buffer : Bytes) (bufferLen : UInt64)
    (r : AddCallbackResult) (h' : MessageQueueHeader)
    (hcall : (messageQueueAddCallbackL queueLength hlr dataLength buffer
      bufferLen).run QAct.exec h = (r, h')) :
    Commits queueLength h (dataLength.toNat + 32) mem h'
      ↔ Cyclic.dist queueLength.toNat h.mWr.toNat
        ((h.mWr + (mem.mLength + sizeofMessage)) % queueLength).toNat
          ≤ dataLength.toNat + 32 := by
  have hsize := toNat_add_header hwrap
  have hslot := slot_fits hwr hfit
  have hwrN := UInt64.lt_iff_toNat_lt.mp hwr
  have havail := avail_lt hrd hwr
  have hfree := (hasRoom_iff hrd hwr).mp hroom
  rw [hsize] at hslot hfree
  have hmem : ∀ k, dataLength.toNat + 32 ≤ k →
      mem k = h.slot h.mWr.toNat k := fun k hk => by
    have hout := run_outside hhlr (h.slot h.mWr.toNat) hk
    rwa [hrun] at hout
  rw [addCallback_inPlace buffer _ hroom hfit hrun, if_pos rfl,
    through_eq_written hslot hwrN hmem] at hcall
  have hset := (Prod.mk.inj hcall).2.symm
  generalize hmove : (h.mWr + (mem.mLength + sizeofMessage)) % queueLength = wr
    at hset ⊢
  have hlt : wr < queueLength := by
    rw [← hmove, UInt64.lt_iff_toNat_lt, UInt64.toNat_mod]
    exact Nat.mod_lt _ (by omega)
  have hltN := UInt64.lt_iff_toNat_lt.mp hlt
  constructor
  · intro hcommits
    have hwr_eq : h'.mWr = wr := by rw [hset]; rfl
    rw [← hwr_eq] at hlt ⊢
    exact commits_moved hrd hwr (by omega) hcommits hlt
  · intro hle
    exact commits_written hrd hwr (by omega) hle (le_refl _)
      (Cyclic.add_dist_mod hwrN hltN).symm hset

/-- From the bounce buffer, the length that the handler has left is checked
again, but against what is free. -/
theorem bounce_reserved_iff
    (hfit : ¬ queueLength - h.mWr ≥ dataLength + sizeofMessage)
    {buffer mem : Bytes} {bufferLen : UInt64}
    (hbuf : dataLength + sizeofMessage ≤ bufferLen)
    (hrun : (hlr dataLength).run PtrAct.exec buffer = (true, mem))
    (r : AddCallbackResult) (h' : MessageQueueHeader)
    (hcall : (messageQueueAddCallbackL queueLength hlr dataLength buffer
      bufferLen).run QAct.exec h = (r, h')) :
    (r.ok = true → Commits queueLength h (dataLength.toNat + 32) mem h')
      ↔ (mem.mLength + sizeofMessage).toNat ≤ dataLength.toNat + 32
        ∨ ¬ h.HasRoom queueLength (mem.mLength + sizeofMessage) := by
  have hsize := toNat_add_header hwrap
  have hwrN := UInt64.lt_iff_toNat_lt.mp hwr
  have havail := avail_lt hrd hwr
  have hfree := (hasRoom_iff hrd hwr).mp hroom
  rw [hsize] at hfree
  rw [addCallback_bounce hroom hfit hbuf hrun, if_pos rfl,
    messageQueueAddL_run h hL] at hcall
  by_cases hroom' : h.HasRoom queueLength (mem.mLength + sizeofMessage)
  · rw [if_pos hroom'] at hcall
    have hok : r.ok = true := by rw [← (Prod.mk.inj hcall).1]
    have hset := (Prod.mk.inj hcall).2.symm
    have hfree' := (hasRoom_iff hrd hwr).mp hroom'
    have hmove : ((h.mWr + (mem.mLength + sizeofMessage))
        % queueLength).toNat
        = (h.mWr.toNat + (mem.mLength + sizeofMessage).toNat)
          % queueLength.toNat := toNat_advance hL hwrN (by omega)
    constructor
    · intro hcommits
      have hwr_eq : h'.mWr = (h.mWr + (mem.mLength + sizeofMessage))
          % queueLength := by rw [hset]; rfl
      have hlt : h'.mWr < queueLength := by
        rw [hwr_eq, UInt64.lt_iff_toNat_lt, hmove]
        exact Nat.mod_lt _ (by omega)
      have hmoved := commits_moved hrd hwr (by omega) (hcommits hok) hlt
      rw [hwr_eq, hmove, Cyclic.dist_add_mod hwrN (by omega)] at hmoved
      exact .inl hmoved
    · rintro (hle | hno) -
      · exact commits_written hrd hwr (by omega) (le_refl _) hle hmove hset
      · exact absurd hroom' hno
  · rw [if_neg hroom'] at hcall
    have hok : r.ok = false := by rw [← (Prod.mk.inj hcall).1]
    exact ⟨fun _ => .inr hroom', fun _ hc => absurd (hok.symm.trans hc)
      Bool.false_ne_true⟩

end Reserved

/-- **Exactly when no more is committed than was reserved.** -/
theorem commits_reserved_iff (hL : queueLength.toNat < 2 ^ 63)
    (hrd : h.mRd < queueLength) (hwr : h.mWr < queueLength)
    {hlr : InitMessageFn} {dataLength : UInt64}
    (hwrap : dataLength.toNat + 32 < 2 ^ 64)
    (hhlr : (hlr dataLength).All (PtrAct.Inside (dataLength.toNat + 32)))
    (buffer : Bytes) {bufferLen : UInt64}
    (hbuf : dataLength + sizeofMessage ≤ bufferLen) :
    CommitsReserved queueLength h hlr dataLength buffer bufferLen
      ↔ KeepsReservation queueLength h hlr dataLength buffer := by
  unfold CommitsReserved KeepsReservation handled
  by_cases hroom : h.HasRoom queueLength (dataLength + sizeofMessage)
  · by_cases hfit : queueLength - h.mWr ≥ dataLength + sizeofMessage
    · simp only [if_pos hfit]
      obtain ⟨ok, mem, hrun⟩ : ∃ ok mem, (hlr dataLength).run PtrAct.exec
          (h.slot h.mWr.toNat) = (ok, mem) := ⟨_, _, Prod.mk.eta.symm⟩
      have hcall := addCallback_inPlace buffer bufferLen hroom hfit hrun
      rw [hrun]
      cases ok with
      | false =>
        exact ⟨fun _ _ hc => absurd hc Bool.false_ne_true,
          fun _ r h' hrun' hok => absurd ((congrArg AddCallbackResult.ok
            (congrArg Prod.fst (hcall.symm.trans hrun'))).trans hok)
            Bool.false_ne_true⟩
      | true =>
        have hiff := inPlace_reserved_iff hL hrd hwr hwrap hroom hhlr hfit
          hrun buffer bufferLen
        refine ⟨fun hall _ _ => ?_, fun hcond r h' hrun' hok => ?_⟩
        · exact (hiff _ _ hcall).mp (hall _ _ hcall rfl)
        · exact (hiff r h' hrun').mpr (hcond hroom rfl)
    · simp only [if_neg hfit]
      obtain ⟨ok, mem, hrun⟩ : ∃ ok mem, (hlr dataLength).run PtrAct.exec
          buffer = (ok, mem) := ⟨_, _, Prod.mk.eta.symm⟩
      have hcall := addCallback_bounce hroom hfit hbuf hrun
      rw [hrun]
      cases ok with
      | false =>
        exact ⟨fun _ _ hc => absurd hc Bool.false_ne_true,
          fun _ r h' hrun' hok => absurd ((congrArg AddCallbackResult.ok
            (congrArg Prod.fst (hcall.symm.trans hrun'))).trans hok)
            Bool.false_ne_true⟩
      | true =>
        have hiff := bounce_reserved_iff hL hrd hwr hwrap hroom hfit hbuf
          hrun
        refine ⟨fun hall _ _ => ?_, fun hcond r h' hrun' => ?_⟩
        · exact (hiff _ _ hcall).mp (hall _ _ hcall)
        · exact (hiff r h' hrun').mpr (hcond hroom rfl)
  · refine ⟨fun _ hc => absurd hc hroom, fun _ r h' hrun' hok => ?_⟩
    rw [addCallback_noRoom buffer _ hroom] at hrun'
    exact absurd ((congrArg AddCallbackResult.ok
      (congrArg Prod.fst hrun')).trans hok) Bool.false_ne_true

/-- A handler that leaves a length of `n` in zeroed memory. -/
def lengthHlr (n : UInt8) : InitMessageFn := fun _ =>
  .act (.store 0 n) (fun _ => .ret true)

/-- A handler that announces the 8 bytes that were reserved. -/
theorem commits_reserved_exact :
    CommitsReserved 100 ⟨0, 0, 0, 0, fun _ => 0⟩ (lengthHlr 8) 8
      (fun _ => 0) 40 := by
  have hinside : (lengthHlr 8 8).All (PtrAct.Inside ((8 : UInt64).toNat + 32)) :=
    ⟨Nat.zero_lt_succ _, fun _ => trivial⟩
  have hkeeps : KeepsReservation 100 ⟨0, 0, 0, 0, fun _ => 0⟩ (lengthHlr 8) 8
      (fun _ => 0) := fun _ _ => by
    rw [if_pos (by decide +kernel)]
    decide +kernel
  exact (commits_reserved_iff (by decide) (by decide) (by decide) (by decide)
    hinside _ (by decide)).mpr hkeeps

/-- **Nothing was reserved** but a header, and a record of 232 bytes is
published. -/
theorem commits_unreserved :
    ¬ CommitsReserved 1000 ⟨0, 0, 0, 0, fun _ => 0⟩ (lengthHlr 200) 0
      (fun _ => 0) 32 := by
  intro hreserved
  obtain ⟨n, hn, hgrow, -⟩ := (hreserved _ _ rfl (by decide +kernel)).grows
  have hn' : n ≤ 32 := hn
  have havail : 232 = 0 + n := Eq.trans (by decide +kernel) hgrow
  omega
