import Kucomms.Fops

/-!
# The mapping

The memory that `kucomms_fops_mmap` allocates and the user process maps is
bytes at addresses, and the two rings are two `struct MessageQueueHeader` in
it. Here the accesses of `message_queue.c` are accesses to such memory
(`QAct.execAt`), and each does to the ring that lies at an address what
`QAct.exec` does to a ring by itself (`ringAt_execAt`, `ringAt_runAt`).

The second half says which bytes an action of the kernel thread touches, and
when these lie where they should.
-/

/-! ## Rings in memory -/

namespace Bytes

/-- Memory after the store of a 64-bit word at the address `p`. -/
def store64 (mem : Bytes) (p : ℕ) (w : UInt64) : Bytes :=
  fun a => if p ≤ a ∧ a < p + 8 then wordByte w (a - p) else mem a

/-- What was stored is loaded. -/
theorem load64_store64 (mem : Bytes) (p : ℕ) (w : UInt64) :
    load64 (fun k => mem.store64 p w (p + k)) = w := by
  have hbyte : ∀ k ∈ List.range 8,
      (mem.store64 p w (p + k)).toNat = w.toNat / 256 ^ k % 256 := by
    intro k hk
    have hlt := List.mem_range.mp hk
    rw [store64, if_pos ⟨by omega, by omega⟩, Nat.add_sub_cancel_left]
    rfl
  have hdigits : Nat.ofDigits 256
      ((List.range 8).map fun k => w.toNat / 256 ^ k % 256) = w.toNat := by
    have hlt := w.toNat_lt
    simp only [List.range, List.range.loop, List.map_cons, List.map_nil,
      Nat.ofDigits_cons, Nat.ofDigits_nil]
    omega
  unfold load64
  rw [List.map_congr_left hbyte, hdigits, UInt64.ofNat_toNat]

/-- Other memory is as it was. -/
theorem store64_of_ne {mem : Bytes} {p a : ℕ} {w : UInt64}
    (h : a < p ∨ p + 8 ≤ a) : mem.store64 p w a = mem a :=
  if_neg (by omega)

theorem load64_store64_of_ne {mem : Bytes} {p q : ℕ} {w : UInt64}
    (h : q + 8 ≤ p ∨ p + 8 ≤ q) :
    load64 (fun k => mem.store64 p w (q + k))
      = load64 (fun k => mem (q + k)) :=
  mLength_congr (fun _ _ => store64_of_ne (by omega))

end Bytes

/-- Where a field lies in `struct MessageQueueHeader`. -/
def HeaderField.offset : HeaderField → ℕ
  | .magic => 0
  | .length => 8
  | .rd => 16
  | .wr => 24

/-- **The ring whose header lies at an address.** -/
def ringAt (mem : Bytes) (msgq : ℕ) : MessageQueueHeader where
  mMagic := Bytes.load64 (fun k => mem (msgq + HeaderField.magic.offset + k))
  mLength := Bytes.load64 (fun k => mem (msgq + HeaderField.length.offset + k))
  mRd := Bytes.load64 (fun k => mem (msgq + HeaderField.rd.offset + k))
  mWr := Bytes.load64 (fun k => mem (msgq + HeaderField.wr.offset + k))
  mQueue k := mem (msgq + 32 + k)

/-- **What an access does** to the memory that the ring lies in. -/
def QAct.execAt (msgq : ℕ) (a : QAct) (mem : Bytes) : a.Res × Bytes :=
  ((a.exec (ringAt mem msgq)).1,
    match a with
    | .storeField f v => mem.store64 (msgq + f.offset) v
    | .storeByte dst b => Function.update mem (msgq + 32 + dst) b
    | _ => mem)

theorem ringAt_store64 (mem : Bytes) (msgq : ℕ) (f : HeaderField)
    (v : UInt64) :
    ringAt (mem.store64 (msgq + f.offset) v) msgq
      = (ringAt mem msgq).set v f := by
  have hqueue : ∀ k, mem.store64 (msgq + f.offset) v (msgq + 32 + k)
      = mem (msgq + 32 + k) := fun k =>
    Bytes.store64_of_ne (by cases f <;> simp only [HeaderField.offset] <;> omega)
  have hfield : ∀ g : HeaderField,
      Bytes.load64 (fun k => mem.store64 (msgq + f.offset) v
        (msgq + g.offset + k))
        = if g = f then v
          else Bytes.load64 (fun k => mem (msgq + g.offset + k)) := by
    intro g
    split
    · next h => exact h ▸ Bytes.load64_store64 mem (msgq + g.offset) v
    · next h =>
      refine Bytes.load64_store64_of_ne ?_
      cases f <;> cases g <;> simp only [HeaderField.offset] <;>
        first | exact absurd rfl h | omega
  unfold ringAt
  simp only [hqueue, hfield]
  cases f <;> rfl

theorem ringAt_update (mem : Bytes) (msgq dst : ℕ) (b : UInt8) :
    ringAt (Function.update mem (msgq + 32 + dst) b) msgq
      = { ringAt mem msgq with
          mQueue := Function.update (ringAt mem msgq).mQueue dst b } := by
  have hfield : ∀ f : HeaderField, Bytes.load64 (fun k =>
      Function.update mem (msgq + 32 + dst) b (msgq + f.offset + k))
        = Bytes.load64 (fun k => mem (msgq + f.offset + k)) := fun f =>
    Bytes.mLength_congr (fun k hk => Function.update_of_ne
      (by cases f <;> simp only [HeaderField.offset] <;> omega) _ _)
  unfold ringAt
  simp only [hfield, MessageQueueHeader.mk.injEq, true_and]
  funext k
  by_cases hk : k = dst
  · rw [hk, Function.update_self, Function.update_self]
  · rw [Function.update_of_ne hk, Function.update_of_ne (by omega)]

/-- **An access to memory is an access to the ring in it.** -/
theorem ringAt_execAt (msgq : ℕ) (a : QAct) (mem : Bytes) :
    ringAt (a.execAt msgq mem).2 msgq = (a.exec (ringAt mem msgq)).2 := by
  cases a with
  | storeField f v => exact ringAt_store64 mem msgq f v
  | storeByte dst b => exact ringAt_update mem msgq dst b
  | _ => rfl

/-- **A function of `message_queue.c` run on memory** returns what it returns
on the ring in it, and leaves the ring as it leaves it there. -/
theorem ringAt_runAt {α : Type} (msgq : ℕ) (p : QProg α) (mem : Bytes) :
    (p.run (QAct.execAt msgq) mem).1 = (p.run QAct.exec (ringAt mem msgq)).1
      ∧ ringAt (p.run (QAct.execAt msgq) mem).2 msgq
        = (p.run QAct.exec (ringAt mem msgq)).2 := by
  induction p generalizing mem with
  | ret v => exact ⟨rfl, rfl⟩
  | act a k ih =>
    obtain ⟨hval, hring⟩ := ih (a.exec (ringAt mem msgq)).1
      (a.execAt msgq mem).2
    rw [ringAt_execAt] at hval hring
    exact ⟨hval, hring⟩

/-! ## The bytes an action touches -/

/-- **The memory the kernel thread works on.** -/
inductive Region where
  /-- What the user process has mapped. -/
  | mapping
  /-- The bounce buffer of `message_manager_run`. -/
  | bounce
  /-- `cbdata.message` -/
  | message
  /-- A `struct Message` on the stack. -/
  | stack

/-- The bytes from `start` on, `size` of them. In the mapping these are
addresses, elsewhere places in the region. -/
structure Span where
  region : Region
  start : ℕ
  size : ℕ

/-- The byte that a byte of a ring is copied to. -/
def CopyDst.span : CopyDst → Span
  | .message k => ⟨.stack, k, 1⟩
  | .buffer k => ⟨.bounce, k, 1⟩
  | .cbdata k => ⟨.message, k, 1⟩

/-- The bytes an access to the ring at an address touches. -/
def QAct.spans (msgq : ℕ) : QAct → List Span
  | .loadField f => [⟨.mapping, msgq + f.offset, 8⟩]
  | .storeField f _ => [⟨.mapping, msgq + f.offset, 8⟩]
  | .copyOut dst src => [⟨.mapping, msgq + 32 + src, 1⟩, dst.span]
  | .storeByte dst _ => [⟨.mapping, msgq + 32 + dst, 1⟩]
  | .loadWord src => [⟨.mapping, msgq + 32 + src, 8⟩]

/-- **The bytes an action of the kernel thread touches.** -/
def MgrAct.spans : MgrAct → List Span
  | .ring msgq a => a.spans msgq
  | .loadBuffer k n => [⟨.bounce, k, n⟩]
  | .storeCbdata k _ => [⟨.message, k, 1⟩]
  | _ => []

namespace Region

variable (pfd : KucommsFileData)

/-- Where a region begins. -/
def base : Region → ℕ
  | mapping => pfd.vaddr
  | _ => 0

/-- How many bytes a region has: what `kucomms_fops_mmap` and
`message_manager_run` allocate. -/
def size : Region → ℕ
  | mapping => pfd.vaddrLen.toNat
  | bounce => (pfd.vaddrLen / 2).toNat
  | message => (messageQueueGetQueueLength (pfd.vaddrLen / 2)).toNat
  | stack => sizeofMessage.toNat

end Region

/-- The bytes lie in their region. -/
def Span.Fits (pfd : KucommsFileData) (x : Span) : Prop :=
  x.region.base pfd ≤ x.start
    ∧ x.start + x.size ≤ x.region.base pfd + x.region.size pfd

/-- **All bytes an action touches** lie in their regions. -/
def MgrAct.InBounds (pfd : KucommsFileData) (a : MgrAct) : Prop :=
  ∀ x ∈ a.spans, x.Fits pfd

instance (pfd : KucommsFileData) (x : Span) : Decidable (x.Fits pfd) :=
  inferInstanceAs (Decidable (_ ∧ _))

instance (pfd : KucommsFileData) (a : MgrAct) : Decidable (a.InBounds pfd) :=
  inferInstanceAs (Decidable (∀ x ∈ a.spans, x.Fits pfd))
