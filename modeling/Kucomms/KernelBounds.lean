import Kucomms.HostileMapping
import Kucomms.RelyGuarantee

/-!
# What the kernel thread touches

The proof of `kernel_in_bounds`, function by function. Memory is forgotten:
the user process may have written anything, so a load may be answered by
anything, and what is left to follow is the bounce buffer, which no one else
writes.

An index that the user process wrote is checked when it is loaded, and a
record begins in the ring; a size that it wrote is below the queue length
where it is used. So a record ends before the end of the second ring, which
lies behind the first in the mapping.
-/

open Prog

/-! ## The specification -/

/-- What may be in the bounce buffer after an action that was answered by
`r`. -/
def MgrAct.bounced (bounce : Bytes) : (a : MgrAct) → a.Res → Bytes
  | .ring _ a, r => a.bounced bounce r
  | _, _ => bounce

/-- The copy of the last byte of a header to the bounce buffer. -/
def MgrAct.endsHeader : MgrAct → Bool
  | .ring _ a => a.endsHeader
  | _ => false

/-- **Accesses that may be answered by anything**, and touch only what they
should; `A` are the accesses to a ring, or all actions of the thread. -/
def anyAnswer {A : Type} {R : A → Type} (pfd : KucommsFileData)
    (spans : A → List Span) (bounced : Bytes → (a : A) → R a → Bytes)
    (endsHeader : A → Bool) : RGSpec A R Bytes where
  sem a s r s' := s' = bounced s a r ∧ (endsHeader a = true → s'.NoWrap)
  safe a _ := ∀ x ∈ spans a, x.Fits pfd
  rely s s' := s' = s
  guar _ _ := True
  rely_refl _ := rfl
  rely_trans h h' := h'.trans h

/-- The accesses to the receive ring. -/
abbrev ringSpec (pfd : KucommsFileData) : RGSpec QAct QAct.Res Bytes :=
  anyAnswer pfd (QAct.spans pfd.vaddr) QAct.bounced QAct.endsHeader

/-- The actions of the thread. -/
abbrev threadSpec (pfd : KucommsFileData) :
    RGSpec MgrAct MgrAct.Res Bytes :=
  anyAnswer pfd MgrAct.spans MgrAct.bounced MgrAct.endsHeader

section Rules

variable {A α : Type} {R : A → Type} {pfd : KucommsFileData}
  {spans : A → List Span} {bounced : Bytes → (a : A) → R a → Bytes}
  {endsHeader : A → Bool} {Q : α → Bytes → Prop} {s : Bytes}

theorem fits_ret {v : α} (h : Q v s) :
    (Prog.ret v : Prog A R α).Wp (anyAnswer pfd spans bounced endsHeader)
      Q s :=
  Wp.ret_of (P := (· = s)) (fun _ _ ht hr => hr.trans ht) rfl
    (fun _ ht => ht ▸ h)

/-- **One action**, that touches what it should. -/
theorem fits_act {a : A} {k : R a → Prog A R α}
    (hfits : ∀ x ∈ spans a, x.Fits pfd)
    (h : ∀ r, (endsHeader a = true → (bounced s a r).NoWrap) →
      (k r).Wp (anyAnswer pfd spans bounced endsHeader) Q (bounced s a r)) :
    (Prog.act a k).Wp (anyAnswer pfd spans bounced endsHeader) Q s := by
  refine Wp.act_of (P := (· = s)) (fun _ _ ht hr => hr.trans ht) rfl ?_
  rintro t rfl
  refine ⟨hfits, fun r u hu => ⟨trivial, ?_⟩⟩
  obtain ⟨rfl, hguard⟩ := hu
  exact h r hguard

end Rules

/-! ## What fits -/

section Fits

variable {pfd : KucommsFileData}

theorem fits_field (h : Mapped pfd) (f : HeaderField) :
    Span.Fits pfd ⟨.mapping, pfd.vaddr + f.offset, 8⟩ := by
  have hlen := h.len
  refine ⟨Nat.le_add_right _ _, ?_⟩
  show pfd.vaddr + f.offset + 8 ≤ pfd.vaddr + pfd.vaddrLen.toNat
  cases f <;> simp only [HeaderField.offset] <;> omega

/-- Behind the queue there is another as long, with its header. -/
theorem fits_queue (h : Mapped pfd) {off n : ℕ}
    (hoff : off + n ≤ 2 * pfd.queueLength.toNat + 32) :
    Span.Fits pfd ⟨.mapping, pfd.vaddr + 32 + off, n⟩ := by
  have hlen := h.len
  refine ⟨Nat.le_trans (Nat.le_add_right _ 32) (Nat.le_add_right _ off), ?_⟩
  show pfd.vaddr + 32 + off + n ≤ pfd.vaddr + pfd.vaddrLen.toNat
  omega

theorem fits_bounce (h : Mapped pfd) {k n : ℕ}
    (hk : k + n ≤ pfd.queueLength.toNat + 32) :
    Span.Fits pfd ⟨.bounce, k, n⟩ := by
  refine ⟨Nat.zero_le _, ?_⟩
  show k + n ≤ 0 + (pfd.vaddrLen / 2).toNat
  rw [h.half]
  omega

theorem fits_message {k : ℕ} (hk : k < pfd.queueLength.toNat) :
    Span.Fits pfd ⟨.message, k, 1⟩ :=
  ⟨Nat.zero_le _, by show k + 1 ≤ 0 + pfd.queueLength.toNat; omega⟩

theorem fits_stack {k : ℕ} (hk : k < 32) : Span.Fits pfd ⟨.stack, k, 1⟩ :=
  ⟨Nat.zero_le _, by show k + 1 ≤ 0 + 32; omega⟩

end Fits

/-! ## The functions of the queue -/

section Queue

variable {pfd : KucommsFileData} {α : Type} {Q : α → Bytes → Prop}
  {s : Bytes}

theorem loadField_fits (h : Mapped pfd) {f : HeaderField}
    {k : UInt64 → QProg α} (hk : ∀ v, (k v).Wp (ringSpec pfd) Q s) :
    (loadField f >>= k).Wp (ringSpec pfd) Q s :=
  fits_act (List.forall_mem_singleton.mpr (fits_field h f)) (fun v _ => hk v)

theorem storeField_fits (h : Mapped pfd) {f : HeaderField} {v : UInt64}
    {k : Unit → QProg α} (hk : (k ()).Wp (ringSpec pfd) Q s) :
    (storeField f v >>= k).Wp (ringSpec pfd) Q s :=
  fits_act (List.forall_mem_singleton.mpr (fits_field h f)) (fun _ _ => hk)

/-- The copy of a byte of the record that begins in the queue. -/
theorem copyOut_fits (h : Mapped pfd) {dst : CopyDst} {src : ℕ}
    {k : UInt8 → QProg α} (hdst : dst.span.Fits pfd)
    (hsrc : src < 2 * pfd.queueLength.toNat)
    (hk : ∀ b, ((QAct.copyOut dst src).endsHeader = true →
        (QAct.bounced s (.copyOut dst src) b).NoWrap) →
      (k b).Wp (ringSpec pfd) Q (QAct.bounced s (.copyOut dst src) b)) :
    (copyOut dst src >>= k).Wp (ringSpec pfd) Q s := by
  refine fits_act ?_ hk
  intro x hx
  rcases List.mem_pair.mp hx with rfl | rfl
  · exact fits_queue h (by omega)
  · exact hdst

/-- **The loop that copies a header**: the read index is in the queue at
every step. `I` is an invariant of the bytes copied so far. -/
theorem copyHeader_fits (h : Mapped pfd) (dst : ℕ → CopyDst)
    (I : ℕ → Bytes → Bytes → Prop)
    (hI : ∀ u0 < 32, ∀ buffer s rd b, I u0 buffer s →
      ((QAct.copyOut (dst u0) rd).endsHeader = true →
        (QAct.bounced s (.copyOut (dst u0) rd) b).NoWrap) →
      I (u0 + 1) (Function.update buffer u0 b)
        (QAct.bounced s (.copyOut (dst u0) rd) b))
    (hdst : ∀ u0 < 32, (dst u0).span.Fits pfd) (n u0 : ℕ) (rd : UInt64)
    (buffer : Bytes) (hn : u0 + n = 32)
    (hrd : rd.toNat < pfd.queueLength.toNat) (hs : I u0 buffer s) :
    (copyHeader pfd.queueLength dst n u0 rd buffer).Wp (ringSpec pfd)
      (fun v s => v.1.toNat < pfd.queueLength.toNat ∧ I 32 v.2 s) s := by
  induction n generalizing u0 rd buffer s with
  | zero =>
    obtain rfl : u0 = 32 := hn
    exact fits_ret ⟨hrd, hs⟩
  | succ n ih =>
    refine copyOut_fits h (hdst u0 (by omega)) (by omega) (fun b hb => ?_)
    refine ih (u0 + 1) _ _ (by omega) ?_
      (hI u0 (by omega) buffer s rd.toNat b hs hb)
    rw [UInt64.toNat_mod]
    exact Nat.mod_lt _ (by omega)

/-- A header on the stack. -/
theorem copyHeader_message_fits (h : Mapped pfd) {rd : UInt64}
    (hrd : rd.toNat < pfd.queueLength.toNat) :
    (copyHeader pfd.queueLength .message 32 0 rd stackMessage).Wp
      (ringSpec pfd) (fun _ _ => True) s :=
  (copyHeader_fits h .message (fun _ _ _ => True) (fun _ _ _ _ _ _ _ _ => trivial)
    (fun _ hu0 => fits_stack hu0) 32 0 rd stackMessage rfl hrd trivial).mono
    (fun _ _ _ => trivial)

/-- **A header in the bounce buffer** is in order. -/
theorem copyHeader_buffer_fits (h : Mapped pfd) {rd : UInt64}
    (hrd : rd.toNat < pfd.queueLength.toNat) (buffer : Bytes) :
    (copyHeader pfd.queueLength .buffer 32 0 rd buffer).Wp (ringSpec pfd)
      (fun v _ => v.1.toNat < pfd.queueLength.toNat ∧ v.2.NoWrap) s := by
  -- what the thread has copied is what the bounce buffer holds
  have hwp := copyHeader_fits (s := s) h .buffer
    (fun u0 buffer s => (∀ k < u0, s k = buffer k)
      ∧ (u0 = 32 → s.NoWrap)) ?_
    (fun u0 hu0 => fits_bounce h (by omega)) 32 0 rd buffer rfl hrd
    ⟨fun _ hk => absurd hk (Nat.not_lt_zero _),
      fun h0 => absurd h0 (by decide)⟩
  · refine hwp.mono (fun v s hv => ⟨hv.1, ?_⟩)
    have hsame : v.2.mLength = s.mLength :=
      Bytes.mLength_congr (fun k hk => (hv.2.1 k (by omega)).symm)
    unfold Bytes.NoWrap
    rw [hsame]
    exact hv.2.2 rfl
  · rintro u0 hu0 buffer s src b ⟨hs, -⟩ hends
    refine ⟨fun k hk => ?_, fun h32 => ?_⟩
    · show Function.update s u0 b k = _
      by_cases hku : k = u0
      · rw [hku, Function.update_self, Function.update_self]
      · rw [Function.update_of_ne hku, Function.update_of_ne hku]
        exact hs k (by omega)
    · obtain rfl : u0 = 31 := by omega
      exact hends rfl

theorem memcpyOut_fits (h : Mapped pfd) (n dst src : ℕ) (buffer : Bytes)
    (hdst : dst + n ≤ pfd.queueLength.toNat + 32)
    (hsrc : src + n ≤ pfd.queueLength.toNat) :
    (memcpyOut dst src n buffer).Wp (ringSpec pfd) (fun _ _ => True) s := by
  induction n generalizing dst src buffer s with
  | zero => exact fits_ret trivial
  | succ n ih =>
    refine copyOut_fits h (fits_bounce h (by omega)) (by omega) (fun b _ => ?_)
    exact ih (dst + 1) (src + 1) _ (by omega) (by omega)

/-- **The data of a record** fit in the bounce buffer, if the size of the
record has not wrapped. -/
theorem copyDataOut_fits (h : Mapped pfd) {rd mLength : UInt64}
    (hrd : rd.toNat < pfd.queueLength.toNat)
    (hm : mLength.toNat + 32 < pfd.queueLength.toNat) (buffer : Bytes) :
    (copyDataOut pfd.queueLength rd mLength buffer).Wp (ringSpec pfd)
      (fun _ _ => True) s := by
  have hhead : (pfd.queueLength - rd).toNat
      = pfd.queueLength.toNat - rd.toNat :=
    UInt64.toNat_sub_of_le _ _ (UInt64.le_iff_toNat_le.mpr hrd.le)
  unfold copyDataOut
  show Wp _ _ (if pfd.queueLength - rd ≥ mLength then _ else _) _
  split
  · next hge =>
    rw [ge_iff_le, UInt64.le_iff_toNat_le, hhead] at hge
    exact memcpyOut_fits h _ _ _ _ (by omega) (by omega)
  · next hlt =>
    rw [ge_iff_le, UInt64.le_iff_toNat_le, hhead] at hlt
    have htail : (mLength - (pfd.queueLength - rd)).toNat
        = mLength.toNat - (pfd.queueLength.toNat - rd.toNat) := by
      rw [UInt64.toNat_sub_of_le _ _
        (UInt64.le_iff_toNat_le.mpr (by omega)), hhead]
    refine Wp.bind ((memcpyOut_fits h _ _ _ _ ?_ ?_).mono
      (fun _ _ _ => memcpyOut_fits h _ _ _ _ ?_ ?_))
    all_goals omega

/-- A message in the ring that is looked at through a pointer begins in the
queue. -/
theorem messageQueueGetBeginL_fits (h : Mapped pfd) :
    (messageQueueGetBeginL pfd.queueLength).Wp (ringSpec pfd)
      (fun r _ => ∀ slot, r = some (some slot) →
        slot < pfd.queueLength.toNat) s := by
  unfold messageQueueGetBeginL
  refine loadField_fits h (fun rd => loadField_fits h (fun wr => ?_))
  have hnone : ∀ (t : Bytes) (v : Option (Option ℕ)), v.join = none →
      (Prog.ret v : QProg (Option (Option ℕ))).Wp (ringSpec pfd)
        (fun r _ => ∀ slot, r = some (some slot) →
          slot < pfd.queueLength.toNat) t := by
    intro t v hv
    refine fits_ret (fun slot hslot => ?_)
    rw [hslot] at hv
    cases hv
  split
  · exact hnone s none rfl
  next hrd =>
  rw [ge_iff_le, UInt64.le_iff_toNat_le, not_le] at hrd
  split
  · exact hnone s none rfl
  split
  · exact hnone s none rfl
  refine Wp.bind ((copyHeader_message_fits h hrd).mono (fun head t _ => ?_))
  show Wp _ _ (if head.2.mLength + sizeofMessage ≥ pfd.queueLength then _
    else _) _
  split
  · exact hnone t none rfl
  split
  · refine fits_ret (fun slot hslot => ?_)
    obtain rfl := Option.some.inj (Option.some.inj hslot)
    exact hrd
  · exact hnone t (some none) rfl

/-- **`message_queue_get_l`**, of a header that is in order. -/
theorem messageQueueGetL_fits (h : Mapped pfd) (buffer : Bytes)
    (bufferLen : UInt64) :
    (messageQueueGetL pfd.queueLength buffer bufferLen).Wp (ringSpec pfd)
      (fun _ _ => True) s := by
  unfold messageQueueGetL
  refine loadField_fits h (fun rd => loadField_fits h (fun wr => ?_))
  split
  · exact fits_ret trivial
  next hrd =>
  rw [ge_iff_le, UInt64.le_iff_toNat_le, not_le] at hrd
  split
  · exact fits_ret trivial
  split
  · exact fits_ret trivial
  split
  · exact fits_ret trivial
  refine Wp.bind ((copyHeader_buffer_fits h hrd buffer).mono ?_)
  rintro head t ⟨hrd', hwrap⟩
  show Wp _ _ (if head.2.mLength + sizeofMessage ≥ pfd.queueLength then _
    else _) _
  split
  · exact fits_ret trivial
  next hsize =>
  rw [ge_iff_le, UInt64.le_iff_toNat_le, not_le, toNat_add_header hwrap]
    at hsize
  split
  · exact storeField_fits h (fits_ret trivial)
  split
  · exact fits_ret trivial
  refine Wp.bind ((copyDataOut_fits h hrd' hsize head.2).mono ?_)
  exact fun _ _ _ => storeField_fits h (fits_ret trivial)

theorem loadWord_fits (h : Mapped pfd) {slot : ℕ}
    {k : UInt64 → QProg α} (hslot : slot < pfd.queueLength.toNat)
    (hk : ∀ v, (k v).Wp (ringSpec pfd) Q s) :
    (loadWord slot >>= k).Wp (ringSpec pfd) Q s :=
  fits_act (List.forall_mem_singleton.mpr (fits_queue h (by omega)))
    (fun v _ => hk v)

theorem messageQueueGetCompleteL_fits (h : Mapped pfd) {slot : ℕ}
    (hslot : slot < pfd.queueLength.toNat) :
    (messageQueueGetCompleteL pfd.queueLength slot).Wp (ringSpec pfd)
      (fun _ _ => True) s := by
  unfold messageQueueGetCompleteL
  refine loadWord_fits h hslot (fun length => loadField_fits h (fun rd => ?_))
  split
  · exact fits_ret trivial
  split
  · exact fits_ret trivial
  · exact storeField_fits h (fits_ret trivial)

theorem messageQueueGetAvailL_fits (h : Mapped pfd) :
    (messageQueueGetAvailL pfd.queueLength).Wp (ringSpec pfd)
      (fun _ _ => True) s :=
  loadField_fits h (fun _ => loadField_fits h (fun _ => fits_ret trivial))

end Queue

/-! ## The thread -/

section Thread

variable {pfd : KucommsFileData} {α : Type} {Q : α → Bytes → Prop}
  {s : Bytes}

/-- A function of the queue, on the receive ring. -/
theorem ring_fits {p : QProg α} (hp : p.Wp (ringSpec pfd) Q s) :
    (QProg.at p pfd.vaddr).Wp (threadSpec pfd) Q s :=
  (Wp.embed (G := ringSpec pfd) (threadSpec pfd) (MgrAct.ring pfd.vaddr)
    (fun _ r => r) id (fun _ => True) (fun _ _ _ hsafe => hsafe)
    (fun _ _ _ _ _ _ hsem => ⟨hsem, fun _ => ⟨trivial, trivial⟩⟩)
    (fun _ _ _ hr => ⟨hr, trivial⟩) trivial hp).mono (fun _ _ hv => hv.1)

/-- **An action that touches no memory** of those, or only this. -/
theorem thread_fits {a : MgrAct} {k : a.Res → MgrProg α}
    (hfits : a.InBounds pfd) (hring : ∀ r, a.bounced s r = s)
    (hk : ∀ r, (k r).Wp (threadSpec pfd) Q s) :
    (Prog.act a k : MgrProg α).Wp (threadSpec pfd) Q s := by
  refine fits_act hfits (fun r _ => ?_)
  rw [hring]
  exact hk r

/-- A pointer to a record in the receive ring, or to the bounce buffer. -/
def MessagePtr.InQueue (pfd : KucommsFileData) : MessagePtr → Prop
  | .ring msgq slot => msgq = pfd.vaddr ∧ slot < pfd.queueLength.toNat
  | .buffer _ => True

theorem loadMessageLength_fits (h : Mapped pfd) {message : MessagePtr}
    (hm : message.InQueue pfd) :
    (loadMessageLength message).Wp (threadSpec pfd) (fun _ _ => True) s := by
  cases message with
  | ring msgq slot =>
    obtain ⟨rfl, hslot⟩ := hm
    exact ring_fits (loadWord_fits h hslot (fun _ => fits_ret trivial))
  | buffer content =>
    exact thread_fits (List.forall_mem_singleton.mpr (fits_bounce h (by omega)))
      (fun _ => rfl) (fun _ => fits_ret trivial)

theorem copyMessageByte_fits (h : Mapped pfd) {message : MessagePtr}
    (hm : message.InQueue pfd) {k : ℕ} (hk : k < pfd.queueLength.toNat) :
    (copyMessageByte k message).Wp (threadSpec pfd) (fun _ _ => True) s := by
  cases message with
  | ring msgq slot =>
    obtain ⟨rfl, hslot⟩ := hm
    exact ring_fits (copyOut_fits h (fits_message hk) (by omega)
      (fun _ _ => fits_ret trivial))
  | buffer content =>
    refine thread_fits (List.forall_mem_singleton.mpr
      (fits_bounce h (by omega))) (fun _ => rfl) (fun _ => ?_)
    exact thread_fits (List.forall_mem_singleton.mpr (fits_message hk))
      (fun _ => rfl) (fun _ => fits_ret trivial)

/-- The copy into `cbdata.message`, of a size below the queue length. -/
theorem copyToCbdata_fits (h : Mapped pfd) {message : MessagePtr}
    (hm : message.InQueue pfd) (n k : ℕ) (copy : Bytes)
    (hn : k + n ≤ pfd.queueLength.toNat) :
    (copyToCbdata message n k copy).Wp (threadSpec pfd)
      (fun _ _ => True) s := by
  induction n generalizing k copy s with
  | zero => exact fits_ret trivial
  | succ n ih =>
    refine Wp.bind ((copyMessageByte_fits h hm (by omega)).mono ?_)
    exact fun b _ _ => ih (k + 1) _ (by omega)

theorem storeCbdataLength_fits (length : UInt64) (n k : ℕ) (copy : Bytes)
    (hn : k + n ≤ pfd.queueLength.toNat) :
    (storeCbdataLength length n k copy).Wp (threadSpec pfd)
      (fun _ _ => True) s := by
  induction n generalizing k copy s with
  | zero => exact fits_ret trivial
  | succ n ih =>
    refine thread_fits (List.forall_mem_singleton.mpr
      (fits_message (by omega))) (fun _ => rfl) (fun _ => ?_)
    exact ih (k + 1) _ (by omega)

/-- **`kucomms_message_hlr`** reads the length again, checks it again, and
copies what it has checked. -/
theorem kucommsMessageHlr_fits (h : Mapped pfd) (cbdata : Callbacks)
    (u0 : ℕ) (message : MessagePtr) (hm : message.InQueue pfd) (txMsgq : ℕ)
    (txLen : UInt64) :
    (kucommsMessageHlr cbdata u0 message txMsgq pfd.queueLength txLen).Wp
      (threadSpec pfd) (fun _ _ => True) s := by
  have hq := h.le_queueLength
  unfold kucommsMessageHlr
  refine Wp.bind ((loadMessageLength_fits h hm).mono (fun length t _ => ?_))
  show Wp _ _ (if length + sizeofMessage ≥ pfd.queueLength then _ else _) _
  split
  · exact fits_ret trivial
  next hsize =>
  rw [ge_iff_le, UInt64.le_iff_toNat_le, not_le] at hsize
  refine Wp.bind ((copyToCbdata_fits h hm _ 0 _ (by omega)).mono ?_)
  intro copy u _
  refine Wp.bind ((storeCbdataLength_fits length 8 0 copy (by omega)).mono ?_)
  intro copy' v _
  split
  · exact thread_fits (List.forall_mem_nil _) (fun _ => rfl) (fun _ =>
      thread_fits (List.forall_mem_nil _) (fun _ => rfl)
        (fun _ => fits_ret trivial))
  · exact fits_ret trivial

variable {hz : UInt64}

theorem checkTimer_fits (m : MessageManagerStruct) (counter last : UInt64) :
    (checkTimer (.kernel hz) m counter last).Wp (threadSpec pfd)
      (fun _ _ => True) s := by
  unfold checkTimer
  refine thread_fits (List.forall_mem_nil _) (fun _ => rfl) (fun now => ?_)
  show Wp _ _ (if timeAfter64 now (last + hz) = true then _ else _) _
  split
  · exact thread_fits (List.forall_mem_nil _) (fun _ => rfl)
      (fun _ => fits_ret trivial)
  · exact fits_ret trivial

theorem callWorkhlr_fits {k : Bool → MgrProg α}
    (hk : ∀ ok, (k ok).Wp (threadSpec pfd) Q s) :
    (callWorkhlr >>= k).Wp (threadSpec pfd) Q s :=
  thread_fits (List.forall_mem_nil _) (fun _ => rfl) hk

theorem afterDelivery_fits (h : Mapped pfd) (l : TurnLocals) :
    (afterDelivery (.kernel hz) pfd.msgmgr 0 l).Wp (threadSpec pfd)
      (fun _ _ => True) s := by
  obtain ⟨hrx, -, hlen, -⟩ := h.pairs.pair 0 _ rfl
  unfold afterDelivery
  rw [hrx, hlen]
  refine Wp.bind ((ring_fits (messageQueueGetAvailL_fits h)).mono ?_)
  intro n t _
  have hrest : (checkTimer (.kernel hz) pfd.msgmgr (l.counter + 1)
      l.lastTimerTime >>= fun last =>
        pure { l with avail := l.avail + n, counter := l.counter + 1,
                      lastTimerTime := last } : MgrProg TurnLocals).Wp
      (threadSpec pfd) (fun _ _ => True) t :=
    Wp.bind ((checkTimer_fits _ _ _).mono (fun _ _ _ => fits_ret trivial))
  show Wp _ _ (if (l.counter + 1) % msgmgrWorkInterval = 0 then _ else _) _
  split
  · exact callWorkhlr_fits (fun _ => hrest)
  · exact hrest

/-- **The body of the loop**, on either way that a message may go. -/
theorem forBody_fits (h : Mapped pfd) (cbdata : Callbacks) (l : TurnLocals)
    (bufferLen : UInt64) :
    (forBody (.kernel hz) pfd.msgmgr bufferLen (kucommsMessageHlr cbdata) 0
      l).Wp (threadSpec pfd) (fun _ _ => True) s := by
  obtain ⟨hrx, -, hrxLen, -⟩ := h.pairs.pair 0 _ rfl
  unfold forBody
  simp only [hrx, hrxLen]
  refine Wp.bind ((ring_fits (messageQueueGetBeginL_fits h)).mono ?_)
  intro r t hr
  match r, hr with
  | none, _ => exact fits_ret trivial
  | some none, _ =>
    refine Wp.bind ((ring_fits (messageQueueGetL_fits h _ _)).mono ?_)
    intro g u _
    show Wp _ _ (if g.error = true then _
      else if g.ok = false then _ else _) _
    split
    · exact fits_ret trivial
    split
    · exact fits_ret trivial
    · exact Wp.bind ((kucommsMessageHlr_fits h cbdata 0 (.buffer g.buffer)
        trivial _ _).mono (fun _ _ _ => afterDelivery_fits h _))
  | some (some slot), hr =>
    have hslot := hr slot rfl
    refine Wp.bind ((kucommsMessageHlr_fits h cbdata 0 (.ring pfd.vaddr slot)
      ⟨rfl, hslot⟩ _ _).mono (fun _ u _ => ?_))
    exact Wp.bind ((ring_fits (messageQueueGetCompleteL_fits h hslot)).mono
      (fun _ _ _ => afterDelivery_fits h _))

theorem idleEnd_fits (l : TurnLocals) (m : MessageManagerStruct) :
    (idleEnd (.kernel hz) m l).Wp (threadSpec pfd) (fun _ _ => True) s := by
  unfold idleEnd
  refine callWorkhlr_fits (fun ok => ?_)
  refine Wp.bind ((checkTimer_fits _ _ _).mono (fun last t _ => ?_))
  show Wp _ _ (if ok = true then _ else _) _
  split
  · exact fits_ret trivial
  · exact thread_fits (List.forall_mem_nil _) (fun _ => rfl)
      (fun _ => fits_ret trivial)

/-- **A turn of `message_manager_run`.** -/
theorem messageManagerTurn_fits (h : Mapped pfd) (cbdata : Callbacks)
    (bufferLen : UInt64) (l : RunLocals) :
    (messageManagerTurn (.kernel hz) pfd.msgmgr bufferLen
      (kucommsMessageHlr cbdata) l).Wp (threadSpec pfd)
      (fun _ _ => True) s := by
  rw [messageManagerTurn_eq]
  refine thread_fits (List.forall_mem_nil _) (fun _ => rfl) (fun stopped => ?_)
  split
  · exact fits_ret trivial
  refine thread_fits (List.forall_mem_nil _) (fun _ => rfl) (fun stop => ?_)
  split
  · exact fits_ret trivial
  have hone : pfd.msgmgr.msgqArrayLength = 1 := h.pairs.length
  unfold turnBody
  rw [hone, forLoop_one]
  refine Wp.bind ((forBody_fits h cbdata _ bufferLen).mono (fun l' t _ => ?_))
  show Wp _ _ (if l'.error = true then _ else if l'.avail ≠ 0 then _
    else _) _
  split
  · exact fits_ret trivial
  split
  · exact fits_ret trivial
  · exact idleEnd_fits l' _

end Thread

/-! ## Any run -/

section Machine

variable {pfd : KucommsFileData} {hz : UInt64}

/-- What the machine does is what anything may answer. -/
theorem HostileSem.anyAnswer {a : MgrAct} {s s' : HostileState} {r : a.Res}
    (h : HostileSem Bytes.NoWrap a s r s') :
    s'.bounce = a.bounced s.bounce r
      ∧ (a.endsHeader = true → s'.bounce.NoWrap) := by
  cases h with
  | ring msgq a hguard => exact ⟨rfl, hguard⟩
  | other r ha =>
    cases a with
    | ring msgq b => exact absurd rfl (ha msgq b)
    | _ => exact ⟨rfl, fun h => absurd h Bool.false_ne_true⟩

/-- **The outline**: the user process leaves the bounce buffer alone, and so
does everything the thread does beside its accesses to the ring. -/
def hostileOutline (h : Mapped pfd) :
    (hostileMachine Bytes.NoWrap hz pfd).Outline where
  rely i s s' := i = .kernel → s'.bounce = s.bounce
  guar i s s' := i = .user → s'.bounce = s.bounce
  safe i _ a _ := i = .kernel → a.InBounds pfd
  idle _ _ := True
  post _ _ _ _ := True
  rely_refl _ _ _ := rfl
  rely_trans _ _ _ _ h h' hi := (h' hi).trans (h hi)
  guar_rely {i j _ _} hij hguar hj := by
    cases i with
    | kernel => exact absurd hj.symm hij
    | user => exact hguar rfl
  idle_stable _ _ := trivial
  call_ok {i s c} _ hmay := by
    cases i with
    | user =>
      cases c with
      | poke address b =>
        exact ⟨fun _ => rfl, Wp.ret_of (fun _ _ _ _ => trivial) trivial
          (fun _ _ => trivial)⟩
      | _ => exact absurd hmay id
    | kernel =>
      refine ⟨fun h => absurd h (by decide), ?_⟩
      have hwp : (HostileCall.prog hz pfd c).Wp (threadSpec pfd)
          (fun _ _ => True) (c.onCall s).bounce := by
        cases c with
        | enter buffer =>
          exact thread_fits (List.forall_mem_nil _) (fun _ => rfl)
            (fun _ => fits_ret trivial)
        | turn l => exact messageManagerTurn_fits h _ _ l
        | poke address b => exact absurd hmay id
      refine (Wp.view (G := threadSpec pfd) _ HostileState.bounce
        (fun _ => True) (fun _ _ _ hsafe _ => hsafe) ?_ ?_ trivial
        hwp).mono (fun _ _ _ => trivial)
      · exact fun a s r s' _ _ hsem => ⟨HostileSem.anyAnswer hsem,
          fun _ => ⟨fun h => absurd h (by decide), trivial⟩⟩
      · exact fun s s' _ hr => ⟨hr rfl, trivial⟩
  ret_ok {i s c v} _ := by
    refine ⟨fun _ => ?_, trivial⟩
    cases c with
    | turn l => cases v <;> rfl
    | _ => rfl

/-- **The kernel thread stays in bounds.** Whatever the user process writes
to its mapping, and whenever: in every run in which no header that
`message_queue_get_l` copies to the bounce buffer has an `m_length` to which
32 cannot be added, the next action of the kernel thread touches no byte
outside the mapping, the bounce buffer, `cbdata.message` and its own stack.
The mapping is any that `kucomms_fops_mmap` returns 0 for; its length is a
multiple of the page size. The bounce buffer is there: `message_manager_run`
does not test what `vmalloc` has returned, and the model takes it that the
allocation succeeded. -/
theorem kernel_in_bounds {env : FopsEnv} {len : UInt64} {r : Registry}
    {fd : OpenFile} {mem bounce : Bytes}
    (hpage : 4096 ∣ len.toNat) (hpos : 0 < len)
    (hmmap : (afterMmap env len r fd).1 = 0)
    {x : (hostileMachine Bytes.NoWrap hz (afterMmap env len r fd).2).Conf}
    (hreach : Machine.Reach _ (Machine.start _ ⟨mem, bounce, .woken⟩) x)
    {c : HostileCall} {a : MgrAct} {k : a.Res → MgrProg c.Ret}
    (hpc : x.pc .kernel = some ⟨c, .act a k⟩) :
    a.InBounds (afterMmap env len r fd).2 :=
  (hostileOutline (mapped_of_mmap hpage hpos hmmap).1).safe_of_reach
    (fun _ => trivial) hreach hpc rfl

end Machine

/-! ## A run at the end of the ring -/

section Schedule

instance (p : Bytes) : Decidable p.NoWrap :=
  inferInstanceAs (Decidable (_ < _))

variable {guard : Bytes → Prop} [DecidablePred guard]

/-- What an action does, if the header it may complete is in order: the flags
are clear, the clock stands, and the handlers succeed. -/
def hostileExec (guard : Bytes → Prop) [DecidablePred guard] (a : MgrAct)
    (s : HostileState) : Option (a.Res × HostileState) :=
  match a with
  | .ring msgq b =>
    let y := b.execAt msgq s.mem
    let bounce := b.bounced s.bounce y.1
    if b.endsHeader = true → guard bounce then
      some (y.1, { s with mem := y.2, bounce := bounce })
    else none
  | .loadStopped => some (false, s)
  | .kthreadShouldStop => some (false, s)
  | .clock => some (0, s)
  | .msghlr _ _ _ _ _ => some ((), s)
  | .msghlrReturn => some (true, s)
  | .workhlr => some (true, s)
  | .timerhlr _ => some ((), s)
  | .usleep _ => some ((), s)
  | .loadBuffer _ _ => some ((), s)
  | .storeCbdata _ _ => some ((), s)

theorem hostileExec_sem (a : MgrAct) (s : HostileState) (r : a.Res)
    (s' : HostileState) (h : hostileExec guard a s = some (r, s')) :
    HostileSem guard a s r s' := by
  cases a with
  | ring msgq b =>
    obtain ⟨hguard, h⟩ := Option.ite_none_right_eq_some.mp h
    obtain ⟨rfl, rfl⟩ := Prod.mk.inj (Option.some.inj h)
    exact .ring msgq b hguard
  | _ =>
    obtain ⟨rfl, rfl⟩ := Prod.mk.inj (Option.some.inj h)
    exact .other _ (fun _ _ h => by cases h)

/-- A page that is mapped. -/
def pageMapped : ℤ × KucommsFileData :=
  afterMmap .calm 4096 (kucommsInit .blank) ⟨.blank, true, .created, false⟩

/-- The mapping as `kucomms_fops_mmap` leaves it. -/
def initMapping (pfd : KucommsFileData) : Bytes :=
  let half := pfd.vaddrLen / 2
  let rx := ((messageQueueInit half).run (QAct.execAt pfd.vaddr)
    (fun _ => 0)).2
  ((messageQueueInit half).run
    (QAct.execAt (pfd.vaddr + half.toNat)) rx).2

/-- The commands of a schedule of the two. -/
abbrev HostileCmd (guard : Bytes → Prop) : Type :=
  (hostileMachine guard 100 pageMapped.2).Cmd

/-- The user process writes a byte of its mapping. -/
def HostileCmd.poke {guard : Bytes → Prop} (off : ℕ) (b : UInt8) :
    List (HostileCmd guard) :=
  [.call .user (fun _ =>
    if h : pageMapped.2.vaddr ≤ pageMapped.2.vaddr + off
        ∧ pageMapped.2.vaddr + off
          < pageMapped.2.vaddr + pageMapped.2.vaddrLen.toNat then
      some ⟨.poke (pageMapped.2.vaddr + off) b, h⟩
    else none), .finish .user]

/-- The kernel thread enters its function, and then begins a turn. -/
def HostileCmd.enterAndTurn {guard : Bytes → Prop} :
    List (HostileCmd guard) :=
  [.call .kernel (fun s => match hthread : s.thread with
    | .woken => some ⟨.enter (fun _ => 0), hthread⟩
    | _ => none),
   .finish .kernel,
   .call .kernel (fun s => match hthread : s.thread with
    | .running l => some ⟨.turn l, hthread⟩
    | _ => none)]

/-- The user process puts the read index 16 bytes before the end of the ring:
the header found there goes around the end. -/
def straddle (guard : Bytes → Prop) : List (HostileCmd guard) :=
  HostileCmd.poke 16 0xd0 ++ HostileCmd.poke 17 0x07

/-- The start, with the mapping as it is set up. -/
def hostileStart (guard : Bytes → Prop) :
    (hostileMachine guard 100 pageMapped.2).Conf :=
  Machine.start _ ⟨initMapping pageMapped.2, fun _ => 0, .woken⟩

/-- Whether the next action of a thread is in bounds. -/
def nextInBounds {guard : Bytes → Prop} :
    (hostileMachine guard 100 pageMapped.2).Pc → Option Bool
  | some ⟨_, .act a _⟩ => some (a.InBounds pageMapped.2)
  | _ => none

theorem nextInBounds_iff {guard : Bytes → Prop}
    {pc : (hostileMachine guard 100 pageMapped.2).Pc} {b : Bool}
    (h : nextInBounds pc = some b) :
    ∃ (c : HostileCall) (a : MgrAct) (k : a.Res → MgrProg c.Ret),
      pc = some ⟨c, .act a k⟩ ∧ decide (a.InBounds pageMapped.2) = b := by
  unfold nextInBounds at h
  split at h
  · exact ⟨_, _, _, rfl, Option.some.inj h⟩
  · cases h

/-- **A run in bounds**: a record of no data goes to the bounce buffer. -/
theorem kernel_in_bounds_straddling :
    ∃ x : (hostileMachine Bytes.NoWrap 100 pageMapped.2).Conf,
      ∃ (c : HostileCall) (a : MgrAct) (k : a.Res → MgrProg c.Ret),
        x.pc .kernel = some ⟨c, .act a k⟩ ∧ a.InBounds pageMapped.2 := by
  obtain ⟨cmds, hcmds⟩ : ∃ cmds : List (HostileCmd Bytes.NoWrap), cmds =
    straddle _ ++ HostileCmd.enterAndTurn
      -- the two flags, `message_queue_get_begin_l`, the header
      ++ [.acts .kernel 70] := ⟨_, rfl⟩
  have hsome : (cmds.foldlM (Machine.perform _
      (fun _ _ => hostileExec Bytes.NoWrap)) (hostileStart _)).isSome
      = true := by
    subst hcmds
    decide +kernel
  obtain ⟨x, hx⟩ := Option.isSome_iff_exists.mp hsome
  have hnext : (cmds.foldlM (Machine.perform _
      (fun _ _ => hostileExec Bytes.NoWrap)) (hostileStart _)).all
      (fun x => (nextInBounds (x.pc .kernel)).isSome) = true := by
    subst hcmds
    decide +kernel
  rw [hx] at hnext
  obtain ⟨b, hb⟩ := Option.isSome_iff_exists.mp hnext
  obtain ⟨c, a, k, hpc, -⟩ := nextInBounds_iff hb
  exact ⟨x, c, a, k, hpc, kernel_in_bounds ⟨1, rfl⟩ (by decide)
    (by decide +kernel) (Machine.Reach.schedule (fun _ _ => hostileExec_sem) hx) hpc⟩

/-! ## A length that wraps -/

/-- The user process declares a length of `2 ^ 64 - 1`. -/
def wrapLength (guard : Bytes → Prop) : List (HostileCmd guard) :=
  (List.range 8).flatMap (fun k => HostileCmd.poke (32 + 2000 + k) 0xff)

/-- **Out of bounds.** The header goes around the end of the ring, and its
`m_length` wraps: the size of the record is 31, which all checks accept, and
`m_length` bytes are copied. The bounce buffer has 2048. -/
theorem wrapped_length_overruns :
    pageMapped.1 = 0 ∧ ∃ x : (hostileMachine (fun _ => True) 100
        pageMapped.2).Conf,
      (hostileMachine (fun _ => True) 100 pageMapped.2).Reach
        (hostileStart (fun _ => True)) x
      ∧ ∃ (c : HostileCall) (a : MgrAct) (k : a.Res → MgrProg c.Ret),
        x.pc .kernel = some ⟨c, .act a k⟩ ∧ ¬ a.InBounds pageMapped.2 := by
  obtain ⟨cmds, hcmds⟩ : ∃ cmds : List (HostileCmd (fun _ => True)), cmds =
    straddle _ ++ wrapLength _ ++ HostileCmd.enterAndTurn
      -- after the header 2000 bytes to the end of the ring, and 16 more
      ++ [.acts .kernel 70, .acts .kernel 2016] := ⟨_, rfl⟩
  have hnext : ((cmds.foldlM (Machine.perform _
      (fun _ _ => hostileExec (fun _ => True))) (hostileStart _)).bind
      (fun x => nextInBounds (x.pc .kernel))) = some false := by
    subst hcmds
    decide +kernel
  obtain ⟨x, hx, hb⟩ := Option.bind_eq_some_iff.mp hnext
  obtain ⟨c, a, k, hpc, hout⟩ := nextInBounds_iff hb
  exact ⟨by decide +kernel, x,
    Machine.Reach.schedule (fun _ _ => hostileExec_sem) hx,
    c, a, k, hpc, of_decide_eq_false hout⟩

end Schedule
