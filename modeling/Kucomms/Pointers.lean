import Kucomms.Nodes
import Kucomms.QueueInvariant

/-!
# Through a pointer

A message handler is given a pointer, and what it points to is a message: in
the bounce buffer, in the copy that `kucomms_message_hlr` makes, or still in
the receive ring. `MessagePtr.Finds` says what a load through it finds, and
what follows is that the functions that read through a pointer come to what
they come to with the message itself: the additions to
`message_queue_add_l` with private memory (`messageQueueAddPtrL_reading`),
and `kucomms_message_hlr` to a call of the registered handler with an equal
message (`kucommsMessageHlr_wp`).
-/

open Prog

/-! ## What is found -/

/-- **What an action finds** through a pointer to the message `m`: it is a
load of a part of the message, or has nothing to find. -/
inductive MessagePtr.Finds (m : DataMessage) :
    MessagePtr → (a : MgrAct) → a.Res → Prop where
  | byte {msgq slot k : ℕ} (dst : CopyDst) (hk : k < m.size) :
      Finds m (.ring msgq slot) (.ring msgq (.copyOut dst (slot + k)))
        (m.mem k)
  | word {msgq slot k : ℕ} (hk : k + 8 ≤ m.size) :
      Finds m (.ring msgq slot) (.ring msgq (.loadWord (slot + k))) (m.word k)
  | loadBuffer {content : Bytes} (k n : ℕ) :
      Finds m (.buffer content) (.loadBuffer k n) ()
  | storeCbdata {ptr : MessagePtr} (k : ℕ) (b : UInt8) :
      Finds m ptr (.storeCbdata k b) ()

/-- A buffer that is pointed to has the message in it. -/
def MessagePtr.Bears (m : DataMessage) : MessagePtr → Prop
  | .ring _ _ => True
  | .buffer content => ∀ k < m.size, content k = m.mem k

section Pointers

variable {m : DataMessage} {ptr : MessagePtr}

theorem DataMessage.word_zero (m : DataMessage) : m.word 0 = m.mem.mLength := by
  unfold word
  simp only [Nat.zero_add]
  rfl

/-- **A field** that is loaded. -/
theorem loadMessageField_reading (h : ptr.Bears m) {k : ℕ}
    (hk : k + 8 ≤ m.size) :
    Reading (ptr.Finds m) (Prog.ret (m.word k)) (loadMessageField k ptr) := by
  cases ptr with
  | ring msgq slot => exact .read (.word hk) (.ret _)
  | buffer content =>
    have hword : Bytes.load64 (fun i => content (k + i)) = m.word k :=
      Bytes.mLength_congr (fun i hi => h (k + i) (by omega))
    show Reading _ _ (Prog.ret (Bytes.load64 (fun i => content (k + i))))
    rw [hword]
    exact .ret _

/-- **A byte** that is loaded. -/
theorem loadMessageByte_reading (h : ptr.Bears m) {k : ℕ} (hk : k < m.size) :
    Reading (ptr.Finds m) (Prog.ret (m.mem k)) (loadMessageByte k ptr) := by
  cases ptr with
  | ring msgq slot => exact .read (.byte _ hk) (.ret _)
  | buffer content =>
    show Reading _ _ (Prog.ret (content k))
    rw [h k hk]
    exact .ret _

/-! ## Additions -/

section Add

variable {txMsgq : ℕ} {queueLength : UInt64}

/-- **A `memcpy` from the message** is one from private memory with the same
content, but for the loads. -/
theorem memcpyMessage_reading (h : ptr.Bears m) (n dst src : ℕ)
    (hn : src + n ≤ m.size) :
    Reading (ptr.Finds m) ((memcpyIn m.mem dst src n).at txMsgq)
      (memcpyMessage ptr txMsgq dst src n) := by
  induction n generalizing dst src with
  | zero => exact .ret ()
  | succ n ih =>
    exact .bind_ret (loadMessageByte_reading h (by omega))
      (.act (fun _ => ih _ _ (by omega)))

theorem copyMessageTo_reading (h : ptr.Bears m) (wr messageSize : UInt64)
    (hsize : messageSize.toNat ≤ m.size) :
    Reading (ptr.Finds m)
      ((copyMessageIn queueLength wr m.mem messageSize).at txMsgq)
      (copyMessageTo queueLength wr ptr txMsgq messageSize) := by
  unfold copyMessageIn copyMessageTo QProg.at
  dsimp only
  rw [embed_ite]
  refine .ite (fun _ => ?_) (fun hhead => ?_)
  · exact memcpyMessage_reading h _ _ _ (by omega)
  · rw [ge_iff_le, UInt64.le_iff_toNat_le, not_le] at hhead
    have hrest := UInt64.toNat_sub_of_le messageSize (queueLength - wr)
      (UInt64.le_iff_toNat_le.mpr hhead.le)
    rw [embed_bind]
    exact (memcpyMessage_reading h _ _ _ (by omega)).bind
      (fun _ => memcpyMessage_reading h _ _ _ (by omega))

/-- **An addition through a pointer** is an addition of the message, but for
the loads. -/
theorem messageQueueAddPtrL_reading (h : ptr.Bears m)
    (hm : m.size < 2 ^ 64) :
    Reading (ptr.Finds m) ((messageQueueAddL queueLength m.mem).at txMsgq)
      (messageQueueAddPtrL queueLength ptr txMsgq) := by
  have hle := m.le_size
  have hsize := m.toNat_messageSize hm
  refine .bind_ret (loadMessageField_reading h (by omega)) ?_
  rw [m.word_zero]
  unfold messageQueueAddL QProg.at
  dsimp only
  generalize m.mem.mLength + sizeofMessage = messageSize at hsize
  rw [embed_bind]
  refine Reading.rfl.bind (fun rd => ?_)
  rw [embed_bind]
  refine Reading.rfl.bind (fun wr => ?_)
  rw [embed_ite, embed_ite]
  refine .ite (fun _ => .ret _) (fun _ => .ite (fun _ => .ret _) (fun _ => ?_))
  rw [embed_bind]
  exact (copyMessageTo_reading h wr messageSize hsize.le).bind
    (fun _ => Reading.rfl)

end Add

/-! ## The copy of the kernel -/

theorem loadMessageLength_reading (h : ptr.Bears m) :
    Reading (ptr.Finds m) (Prog.ret m.mem.mLength)
      (loadMessageLength ptr) := by
  have hle := m.le_size
  cases ptr with
  | ring msgq slot =>
    have hfinds := @MessagePtr.Finds.word m msgq slot 0 (by omega)
    rw [m.word_zero] at hfinds
    exact .read hfinds (.ret _)
  | buffer content =>
    have hlength : content.mLength = m.mem.mLength :=
      Bytes.mLength_congr (fun k hk => h k (by omega))
    refine .read (.loadBuffer 0 8) ?_
    rw [hlength]
    exact .ret _

/-- **The copy of the message** from the `k`-th byte on. -/
theorem copyToCbdata_reading (h : ptr.Bears m) (n k : ℕ) (copy : Bytes)
    (hn : k + n ≤ m.size) :
    ∃ copy', (∀ j < k, copy' j = copy j)
      ∧ (∀ j, k ≤ j → j < k + n → copy' j = m.mem j)
      ∧ Reading (ptr.Finds m) (Prog.ret copy')
        (copyToCbdata ptr n k copy) := by
  induction n generalizing k copy with
  | zero => exact ⟨copy, fun _ _ => rfl, fun j _ _ => by omega, .ret _⟩
  | succ n ih =>
    obtain ⟨copy', hbelow, hcopied, hrest⟩ := ih (k + 1)
      (Function.update copy k (m.mem k)) (by omega)
    refine ⟨copy', fun j hj => ?_, fun j hj hjn => ?_, ?_⟩
    · rw [hbelow j (by omega), Function.update_of_ne (by omega)]
    · by_cases hjk : j = k
      · rw [hjk, hbelow k (by omega), Function.update_self]
      · exact hcopied j (by omega) (by omega)
    · refine .bind_ret (v := m.mem k) ?_ hrest
      cases ptr with
      | ring msgq slot => exact .read (.byte _ (by omega)) (.ret _)
      | buffer content =>
        have hk := h k (by omega)
        refine .read (.loadBuffer k 1) (.read (.storeCbdata k _) ?_)
        show Reading _ _ (Prog.ret (content k))
        rw [hk]
        exact .ret _

/-- The stores of the length change nothing in a copy that has it. -/
theorem storeCbdataLength_reading (n k : ℕ) (copy : Bytes) (hn : k + n ≤ 8)
    (hcopy : ∀ j < m.size, copy j = m.mem j) :
    ∃ copy', (∀ j < m.size, copy' j = m.mem j)
      ∧ Reading (ptr.Finds m) (Prog.ret copy')
        (storeCbdataLength m.mem.mLength n k copy) := by
  induction n generalizing k copy with
  | zero => exact ⟨copy, hcopy, .ret _⟩
  | succ n ih =>
    have hstore : ∀ j < m.size, Function.update copy k
        (wordByte m.mem.mLength k) j = m.mem j := by
      intro j hj
      by_cases hjk : j = k
      · rw [hjk, Function.update_self]
        exact wordByte_load64 m.mem (by omega)
      · rw [Function.update_of_ne hjk]
        exact hcopy j hj
    obtain ⟨copy', hcopy', hrest⟩ := ih (k + 1) _ (by omega) hstore
    exact ⟨copy', hcopy', .read (.storeCbdata k _) hrest⟩

/-- **`kucomms_message_hlr` hands over an equal message**, when it is shorter
than the ring it comes from. -/
theorem kucommsMessageHlr_wp {A S : Type} {R : A → Type} {G : RGSpec A R S}
    {f : (a : MgrAct) → Prog A R a.Res} {P : S → Prop} {Q : Bool → S → Prop}
    (hread : ∀ {α : Type} {v : α} {q : MgrProg α} {s : S},
      Reading (ptr.Finds m) (Prog.ret v) q → P s →
      (q.expand f).Wp G (fun w s => w = v ∧ P s) s)
    {u0 txMsgq : ℕ} {rxLen txLen : UInt64} (hsize : m.size < rxLen.toNat)
    (h : ptr.Bears m)
    (hcall : ∀ (copy : Bytes) (s : S), (∀ k < m.size, copy k = m.mem k) →
      P s → ((callMsghlr u0 (.buffer copy) txMsgq rxLen txLen).expand f).Wp G
        Q s)
    {hz : UInt64} {s : S} (hs : P s) :
    (((Build.kernel hz).entry u0 ptr txMsgq rxLen txLen).expand f).Wp G Q
      s := by
  have hlt := rxLen.toNat_lt
  have hmsize := m.toNat_messageSize (by omega)
  show Wp G Q (Prog.expand f (loadMessageLength ptr >>= _)) s
  rw [expand_bind]
  refine Wp.bind ((hread (loadMessageLength_reading h) hs).mono ?_)
  rintro _ t ⟨rfl, ht⟩
  rw [expand_ite, if_neg (by rw [ge_iff_le, UInt64.le_iff_toNat_le]; omega),
    hmsize]
  obtain ⟨copy, -, hcopy, hcopied⟩ := copyToCbdata_reading h m.size 0
    (fun _ => 0) (by omega)
  obtain ⟨copy', hcopy', hstored⟩ := @storeCbdataLength_reading m ptr 8 0 copy
    (by omega) (fun j hj => hcopy j (Nat.zero_le _) (by omega))
  rw [expand_bind]
  refine Wp.bind ((hread hcopied ht).mono ?_)
  rintro _ u ⟨rfl, hu⟩
  rw [expand_bind]
  refine Wp.bind ((hread hstored hu).mono ?_)
  rintro _ v ⟨rfl, hv⟩
  exact hcall _ v hcopy' hv

end Pointers
