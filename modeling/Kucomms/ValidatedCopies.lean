import Kucomms.Mapping
import Kucomms.QueueAdds

/-!
# The copies that the registered handler gets

`kucomms_message_hlr` loads `m_length` of a message that the user process may
still be writing, checks it, copies the message to `cbdata.message`, and
stores the length that it has checked in the copy. The registered handler
gets the copy, so that nothing it reads there can change any more.

Here the rings are a function of the time: at every action of the call they
may be something else. `hands_validated_iff` says when what is handed over is
in order: always, but for a length that wraps to a size that passes the
check. The copy of such a message is as short as the wrapped size, and says
that it is `2 ^ 64` bytes longer.
-/

open Prog

/-! ## A call of the handler -/

/-- **A call of `kucomms_message_hlr`**, as far as it got: the actions it has
performed, and what was handed to the registered handler after how many of
them. -/
structure HlrCall where
  now : ℕ
  handed : List (ℕ × MessagePtr)

namespace HlrCall

/-- Before the first action. -/
def begin : HlrCall := ⟨0, []⟩

/-- One action later. -/
def tick (c : HlrCall) : HlrCall := { c with now := c.now + 1 }

@[simp] theorem begin_now : begin.now = 0 := rfl

@[simp] theorem tick_now (c : HlrCall) : c.tick.now = c.now + 1 := rfl

@[simp] theorem tick_handed (c : HlrCall) : c.tick.handed = c.handed := rfl

end HlrCall

/-- **What an action does** where `rings t` is what the action number `t`
finds, and the handler returns `handled`. -/
def MgrAct.execOver (rings : ℕ → RingMem) (handled : Bool) :
    (a : MgrAct) → HlrCall → a.Res × HlrCall
  | .ring msgq a, c => ((a.exec (rings c.now msgq)).1, c.tick)
  | .msghlr _ message _ _ _, c =>
    ((), { c.tick with handed := c.handed ++ [(c.now, message)] })
  | .msghlrReturn, c => (handled, c.tick)
  | .workhlr, c => (handled, c.tick)
  | .loadStopped, c => (false, c.tick)
  | .kthreadShouldStop, c => (false, c.tick)
  | .clock, c => (0, c.tick)
  | .timerhlr _, c => ((), c.tick)
  | .usleep _, c => ((), c.tick)
  | .loadBuffer _ _, c => ((), c.tick)
  | .storeCbdata _ _, c => ((), c.tick)

/-- What the action number `t` finds at a pointer to a message. -/
def MessagePtr.bytesAt (rings : ℕ → RingMem) : MessagePtr → ℕ → Bytes
  | .ring msgq slot, t => (rings t msgq).slot slot
  | .buffer content, _ => content

/-- **A validated copy** of a message, handed over after `t` actions: it has
the length that was loaded by the first of them and then checked, its data
are within the receive ring's length, and each byte of them was copied from
the message in between. -/
structure ValidatedCopy (rings : ℕ → RingMem) (message : MessagePtr)
    (rxLen : UInt64) (t : ℕ) (copy : Bytes) : Prop where
  checked : copy.mLength = (message.bytesAt rings 0).mLength
  inside : copy.mLength.toNat + 32 < rxLen.toNat
  copied : ∀ k < copy.mLength.toNat, ∃ u, 0 < u ∧ u < t
    ∧ copy (32 + k) = message.bytesAt rings u (32 + k)

/-- **The registered handler sees validated copies only.** -/
def HandsValidated (rings : ℕ → RingMem) (handled : Bool) (cbdata : Callbacks)
    (u0 : ℕ) (message : MessagePtr) (txMsgq : ℕ) (rxLen txLen : UInt64) :
    Prop :=
  ∀ x ∈ ((kucommsMessageHlr cbdata u0 message txMsgq rxLen txLen).run
      (MgrAct.execOver rings handled) .begin).2.handed,
    ∃ copy, x.2 = .buffer copy ∧ ValidatedCopy rings message rxLen x.1 copy

/-! ## The parts of a call -/

section Parts

variable (rings : ℕ → RingMem) (handled : Bool)

/-- **The only load of `m_length`.** -/
theorem loadMessageLength_run (message : MessagePtr) (c : HlrCall) :
    (loadMessageLength message).run (MgrAct.execOver rings handled) c
      = ((message.bytesAt rings c.now).mLength, c.tick) := by
  cases message with
  | ring msgq slot => rfl
  | buffer content => rfl

/-- A byte is copied as it is at that time. -/
theorem copyMessageByte_run (k : ℕ) (message : MessagePtr) (c : HlrCall) :
    ∃ c', (copyMessageByte k message).run (MgrAct.execOver rings handled) c
        = (message.bytesAt rings c.now k, c')
      ∧ c.now < c'.now ∧ c'.handed = c.handed := by
  cases message with
  | ring msgq slot => exact ⟨c.tick, rfl, Nat.lt_succ_self _, rfl⟩
  | buffer content =>
    exact ⟨c.tick.tick, rfl, Nat.lt_succ_of_lt (Nat.lt_succ_self _), rfl⟩

/-- **The copy**: each byte is what the message was at some time of it. -/
theorem copyToCbdata_run (message : MessagePtr) (n k : ℕ) (copy : Bytes)
    (c : HlrCall) :
    ∃ copy' c', (copyToCbdata message n k copy).run
        (MgrAct.execOver rings handled) c = (copy', c')
      ∧ c.now ≤ c'.now ∧ c'.handed = c.handed
      ∧ (∀ j, k ≤ j → j < k + n → ∃ u, c.now ≤ u ∧ u < c'.now
        ∧ copy' j = message.bytesAt rings u j)
      ∧ ∀ j < k, copy' j = copy j := by
  induction n generalizing k copy c with
  | zero =>
    exact ⟨copy, c, rfl, le_refl _, rfl, fun j _ _ => by omega,
      fun _ _ => rfl⟩
  | succ n ih =>
    obtain ⟨c₁, hbyte, hlt, hhanded⟩ :=
      copyMessageByte_run rings handled k message c
    obtain ⟨copy', c', hrun, hle, hrest, hcopied, hbelow⟩ := ih (k + 1)
      (Function.update copy k (message.bytesAt rings c.now k)) c₁
    refine ⟨copy', c', ?_, by omega, hrest.trans hhanded,
      fun j hj hjn => ?_, fun j hj => ?_⟩
    · show (copyMessageByte k message >>= _).run _ c = _
      rw [run_bind, hbyte]
      exact hrun
    · by_cases hjk : j = k
      · subst hjk
        refine ⟨c.now, le_refl _, by omega, ?_⟩
        rw [hbelow j (by omega), Function.update_self]
      · obtain ⟨u, hu, hu', hval⟩ := hcopied j (by omega) (by omega)
        exact ⟨u, by omega, hu', hval⟩
    · rw [hbelow j (by omega), Function.update_of_ne (by omega)]

/-- The length is stored byte by byte. -/
theorem storeCbdataLength_run (length : UInt64) (n k : ℕ) (copy : Bytes)
    (c : HlrCall) :
    ∃ c', (storeCbdataLength length n k copy).run
        (MgrAct.execOver rings handled) c
        = (fun j => if k ≤ j ∧ j < k + n then wordByte length j
          else copy j, c')
      ∧ c.now ≤ c'.now ∧ c'.handed = c.handed := by
  induction n generalizing k copy c with
  | zero =>
    refine ⟨c, congrArg (fun b => (b, c)) ?_, le_refl _, rfl⟩
    funext j
    exact (if_neg (by omega)).symm
  | succ n ih =>
    obtain ⟨c', hrun, hle, hhanded⟩ := ih (k + 1)
      (Function.update copy k (wordByte length k)) c.tick
    refine ⟨c', ?_, Nat.le_of_succ_le hle, hhanded⟩
    refine hrun.trans (congrArg (fun b => (b, c')) ?_)
    funext j
    by_cases hj : j = k
    · rw [if_neg (by omega), if_pos (by omega), hj, Function.update_self]
    · rw [Function.update_of_ne hj]
      split
      · rw [if_pos (by omega)]
      · rw [if_neg (by omega)]

/-- The length that was stored is the length of the copy. -/
theorem mLength_stored (length : UInt64) (copy : Bytes) :
    Bytes.mLength (fun j => if 0 ≤ j ∧ j < 0 + 8 then wordByte length j
      else copy j) = length := by
  refine Eq.trans ?_ (Bytes.load64_store64 copy 0 length)
  refine Bytes.mLength_congr (fun k hk => ?_)
  show _ = copy.store64 0 length (0 + k)
  rw [if_pos (by omega), Bytes.store64, if_pos (by omega), Nat.zero_add,
    Nat.sub_zero]

end Parts

/-! ## The call -/

section Call

variable {rings : ℕ → RingMem} {handled : Bool} {cbdata : Callbacks}
  {u0 : ℕ} {message : MessagePtr} {txMsgq : ℕ} {rxLen txLen : UInt64}

variable (rings handled cbdata u0 message txMsgq rxLen txLen) in
/-- **The call**: a load, a check, and then the copy and its length. -/
theorem kucommsMessageHlr_run : ∃ (copy : Bytes) (c : HlrCall),
    (kucommsMessageHlr cbdata u0 message txMsgq rxLen txLen).run
        (MgrAct.execOver rings handled) .begin
      = (if (message.bytesAt rings 0).mLength + sizeofMessage ≥ rxLen then
          (false, HlrCall.begin.tick)
        else if cbdata.msghlr ≠ 0 then
          (callMsghlr u0 (.buffer copy) txMsgq rxLen txLen).run
            (MgrAct.execOver rings handled) c
        else (false, c))
      ∧ c.handed = []
      ∧ copy.mLength = (message.bytesAt rings 0).mLength
      ∧ ∀ j, 8 ≤ j →
        j < ((message.bytesAt rings 0).mLength + sizeofMessage).toNat →
        ∃ u, 0 < u ∧ u < c.now ∧ copy j = message.bytesAt rings u j := by
  obtain ⟨copy, c, hcopy, -, hhanded, hcopied, -⟩ := copyToCbdata_run
    rings handled message
    ((message.bytesAt rings 0).mLength + sizeofMessage).toNat 0 (fun _ => 0)
    HlrCall.begin.tick
  obtain ⟨c', hstore, hle, hhanded'⟩ := storeCbdataLength_run
    rings handled (message.bytesAt rings 0).mLength 8 0 copy c
  refine ⟨_, c', ?_, hhanded'.trans hhanded, mLength_stored _ copy,
    fun j hj hlt => ?_⟩
  · unfold kucommsMessageHlr
    rw [run_bind, loadMessageLength_run]
    dsimp only [HlrCall.begin_now]
    rw [run_ite, run_bind, hcopy, run_bind, hstore, run_ite]
    rfl
  · obtain ⟨u, hu, hu', hval⟩ := hcopied j (Nat.zero_le _) (by omega)
    refine ⟨u, hu, by omega, ?_⟩
    show (if 0 ≤ j ∧ j < 0 + 8 then _ else copy j) = _
    rw [if_neg (by omega), hval]

/-- **Nothing is handed over** if the size is not below the ring's length, or
if no handler is registered. -/
theorem handed_nil (hno : rxLen
      ≤ (message.bytesAt rings 0).mLength + sizeofMessage
    ∨ cbdata.msghlr = 0) :
    ((kucommsMessageHlr cbdata u0 message txMsgq rxLen txLen).run
      (MgrAct.execOver rings handled) .begin).2.handed = [] := by
  obtain ⟨copy, c, hrun, hhanded, -⟩ := kucommsMessageHlr_run rings handled
    cbdata u0 message txMsgq rxLen txLen
  rw [hrun]
  split
  · rfl
  next hsize =>
  rw [if_neg (fun hc => hc (hno.resolve_left hsize))]
  exact hhanded

variable (rings handled u0 txMsgq txLen) in
/-- **The copy that is handed over** has the length that was checked, and as
many bytes of the message as the check has allowed. -/
theorem handed_copy (hsize : (message.bytesAt rings 0).mLength
      + sizeofMessage < rxLen) (hhlr : cbdata.msghlr ≠ 0) :
    ∃ t copy, ((kucommsMessageHlr cbdata u0 message txMsgq rxLen txLen).run
        (MgrAct.execOver rings handled) .begin).2.handed
        = [(t, .buffer copy)]
      ∧ copy.mLength = (message.bytesAt rings 0).mLength
      ∧ ∀ j, 8 ≤ j →
        j < ((message.bytesAt rings 0).mLength + sizeofMessage).toNat →
        ∃ u, 0 < u ∧ u < t ∧ copy j = message.bytesAt rings u j := by
  obtain ⟨copy, c, hrun, hhanded, hlength, hcopied⟩ :=
    kucommsMessageHlr_run rings handled cbdata u0 message txMsgq rxLen txLen
  refine ⟨c.now, copy, ?_, hlength, hcopied⟩
  rw [hrun, if_neg (UInt64.not_le.mpr hsize), if_pos hhlr]
  show c.handed ++ _ = _
  rw [hhanded]
  rfl

/-- A length that wraps to a size that passes the check. -/
theorem not_handsValidated (hhlr : cbdata.msghlr ≠ 0)
    (hwrap : 2 ^ 64 ≤ (message.bytesAt rings 0).mLength.toNat + 32)
    (hlt : (message.bytesAt rings 0).mLength.toNat + 32 - 2 ^ 64
      < rxLen.toNat) :
    ¬ HandsValidated rings handled cbdata u0 message txMsgq rxLen txLen := by
  intro hvalid
  have hsize : ((message.bytesAt rings 0).mLength + sizeofMessage).toNat
      = (message.bytesAt rings 0).mLength.toNat + 32 - 2 ^ 64 := by
    have hlen := (message.bytesAt rings 0).mLength.toNat_lt
    rw [UInt64.toNat_add]
    show (_ + 32) % 2 ^ 64 = _
    omega
  obtain ⟨t, copy, hhanded, -⟩ := handed_copy rings handled u0 txMsgq txLen
    (UInt64.lt_iff_toNat_lt.mpr (hsize.trans_lt hlt)) hhlr
  obtain ⟨copy', -, hcopy⟩ := hvalid (t, .buffer copy)
    (by rw [hhanded]; exact List.mem_singleton_self _)
  have hinside := hcopy.inside
  rw [hcopy.checked] at hinside
  have hL := rxLen.toNat_lt
  omega

/-- **Exactly when the registered handler sees validated copies only.** -/
theorem hands_validated_iff :
    HandsValidated rings handled cbdata u0 message txMsgq rxLen txLen
      ↔ cbdata.msghlr = 0
        ∨ (message.bytesAt rings 0).mLength.toNat + 32 < 2 ^ 64
        ∨ rxLen.toNat
          ≤ (message.bytesAt rings 0).mLength.toNat + 32 - 2 ^ 64 := by
  constructor
  · intro hvalid
    by_contra hno
    rw [not_or, not_or, Nat.not_lt, Nat.not_le] at hno
    exact not_handsValidated hno.1 hno.2.1 hno.2.2 hvalid
  · intro hcond x hx
    by_cases hpass : (message.bytesAt rings 0).mLength + sizeofMessage < rxLen
        ∧ cbdata.msghlr ≠ 0
    case neg =>
      have hno : rxLen ≤ (message.bytesAt rings 0).mLength + sizeofMessage
          ∨ cbdata.msghlr = 0 := by
        rw [not_and_or, not_not, UInt64.not_lt] at hpass
        exact hpass
      rw [handed_nil hno] at hx
      exact absurd hx List.not_mem_nil
    obtain ⟨t, copy, hhanded, hlength, hcopied⟩ := handed_copy
      rings handled u0 txMsgq txLen hpass.1 hpass.2
    rw [hhanded, List.mem_singleton] at hx
    subst hx
    have hlt := UInt64.lt_iff_toNat_lt.mp hpass.1
    rcases toNat_add_sizeofMessage (message.bytesAt rings 0).mLength with
      ⟨hsize, -⟩ | ⟨hsize, hwrap⟩
    · rw [hsize] at hlt hcopied
      refine ⟨copy, rfl, hlength, by rw [hlength]; exact hlt, fun k hk => ?_⟩
      rw [hlength] at hk
      exact hcopied (32 + k) (by omega) (by omega)
    · rw [hsize] at hlt
      exact absurd (hcond.resolve_left hpass.2) (by omega)

end Call

/-- **A message of `2 ^ 64 - 1` bytes** in a ring of 4064, which nobody
changes: it is handed over with its length, and 31 bytes of it are copied. -/
theorem hands_wrapped :
    ¬ HandsValidated (fun _ _ => ⟨0, 0, 0, 200, fun _ => 255⟩) false
      ⟨1, 0, 0, 0⟩ 0 (.ring 0 0) 4096 4064 4064 :=
  not_handsValidated (by decide) (by decide +kernel) (by decide +kernel)
