import Kucomms.HostileMapping

/-!
# The two sides of a mapping

`MessageManager::run` of a device file maps `length` bytes and takes the
second half for its receive ring. The kernel is called with the area that was
reserved for the mapping, whole pages, and takes the second half of that for
its transmit ring. Each side computes where the rings are by itself, and the
user process has the lengths of the rings from the headers that it finds
there.

`layout_agrees_iff`: the two agree exactly when `length` is a multiple of the
page size. Otherwise the receive ring of the user process lies before the
transmit ring of the kernel, and no one has set up a header there.
-/

open Prog

/-! ## The user process -/

/-- `message_queue_get_length` -/
def messageQueueGetLength : QProg UInt64 := loadField .length

/-- What the constructor of `MessageManager` leaves. -/
structure UserManager where
  msgmgr : MessageManagerStruct
  maxqLength : UInt64
  initialised : Bool

/-- The constructor of `MessageManager`, for one pair of rings: it takes their
lengths from their headers. The addresses of the handlers are not looked
at. -/
def newMessageManager (rxMsgq txMsgq : ℕ) : RingProg UserManager := do
  let m := messageManagerInit 1 2 3 4
  let rxLen ← messageQueueGetLength.ringAt rxMsgq
  let txLen ← messageQueueGetLength.ringAt txMsgq
  let added := messageManagerAddMsgq m rxMsgq txMsgq rxLen txLen
  if added.1 = false then
    return ⟨added.2, 0, false⟩
  else
    let len ← messageQueueGetLength.ringAt rxMsgq
    if len > 0 then
      let maxqLength ← messageQueueGetLength.ringAt rxMsgq
      return ⟨added.2, maxqLength, true⟩
    else
      return ⟨added.2, 0, true⟩

/-- `MessageManager::run` of two buffers, up to its thread: the rings are set
up if `init` says so. -/
def runBuffers (rxMsgq : ℕ) (rxMsgqLen : UInt64) (txMsgq : ℕ)
    (txMsgqLen : UInt64) (init : Bool) : RingProg UserManager :=
  if init = true then do
    let _ ← (messageQueueInit rxMsgqLen).ringAt rxMsgq
    let _ ← (messageQueueInit txMsgqLen).ringAt txMsgq
    newMessageManager rxMsgq txMsgq
  else
    newMessageManager rxMsgq txMsgq

/-- `MessageManager::run` of a device, once `mmap` has returned `ptr`. -/
def runDevice (ptr : ℕ) (length : UInt64) : RingProg UserManager :=
  runBuffers (ptr + (length / 2).toNat) (length / 2) ptr (length / 2) false

/-- What an access to the ring at an address does to memory. -/
def Bytes.ringExec (a : ℕ × QAct) (mem : Bytes) : a.2.Res × Bytes :=
  a.2.execAt a.1 mem

/-- Memory of the kernel from `vaddr` on, as a process sees it from `ptr`
on. -/
def Bytes.mappedAt (mem : Bytes) (vaddr ptr : ℕ) : Bytes :=
  fun a => mem (vaddr + (a - ptr))

/-- A ring is the same on both sides. -/
theorem ringAt_mappedAt (mem : Bytes) (vaddr ptr off : ℕ) :
    ringAt (mem.mappedAt vaddr ptr) (ptr + off) = ringAt mem (vaddr + off) := by
  have hshift : ∀ k, mem.mappedAt vaddr ptr (ptr + off + k)
      = mem (vaddr + off + k) := fun k => by
    show mem (vaddr + (ptr + off + k - ptr)) = _
    rw [Nat.add_assoc ptr, Nat.add_sub_cancel_left, Nat.add_assoc vaddr]
  unfold ringAt
  simp only [Nat.add_assoc (ptr + off), hshift, Nat.add_assoc (vaddr + off)]

/-- **A manager with one pair of rings.** -/
structure HasRings (m : MessageManagerStruct) (rx tx : ℕ) (rxLen txLen : UInt64) :
    Prop where
  rx : m.rxMsgqArray 0 = rx
  tx : m.txMsgqArray 0 = tx
  rxLen : m.rxMsgqLenArray 0 = rxLen
  txLen : m.txMsgqLenArray 0 = txLen

/-- The first pair is at index 0. -/
theorem addMsgq_hasRings {m : MessageManagerStruct}
    (h : m.msgqArrayLength = 0) (rx tx : ℕ) (rxLen txLen : UInt64) :
    HasRings (messageManagerAddMsgq m rx tx rxLen txLen).2 rx tx rxLen
      txLen := by
  unfold messageManagerAddMsgq
  rw [dif_neg (by rw [h]; decide)]
  exact ⟨by simp only [h, Function.update_self],
    by simp only [h, Function.update_self],
    by simp only [h, Function.update_self],
    by simp only [h, Function.update_self]⟩

theorem getLength_run {α : Type} (msgq : ℕ) (k : UInt64 → RingProg α)
    (mem : Bytes) :
    (messageQueueGetLength.ringAt msgq >>= k).run Bytes.ringExec mem
      = (k (ringAt mem msgq).mLength).run Bytes.ringExec mem := rfl

/-- The constructor takes the lengths that it finds. -/
theorem newMessageManager_run (rxMsgq txMsgq : ℕ) (mem : Bytes) :
    HasRings ((newMessageManager rxMsgq txMsgq).run
        Bytes.ringExec mem).1.msgmgr
      rxMsgq txMsgq (ringAt mem rxMsgq).mLength
      (ringAt mem txMsgq).mLength := by
  unfold newMessageManager
  simp only [getLength_run, run_ite]
  rw [if_neg (fun hc => Bool.false_ne_true hc.symm)]
  split
  · exact ⟨rfl, rfl, rfl, rfl⟩
  · exact ⟨rfl, rfl, rfl, rfl⟩

/-- **The rings that the user process works on.** -/
theorem runDevice_run (ptr : ℕ) (length : UInt64) (mem : Bytes) :
    HasRings ((runDevice ptr length).run Bytes.ringExec mem).1.msgmgr
      (ptr + (length / 2).toNat) ptr
      (ringAt mem (ptr + (length / 2).toNat)).mLength
      (ringAt mem ptr).mLength := by
  unfold runDevice runBuffers
  rw [if_neg Bool.false_ne_true]
  exact newMessageManager_run _ _ mem

/-! ## The kernel -/

/-- **What an action does to the file and to memory**: `vmalloc_user` returns
zeroed memory, and the rings are in it. -/
def FopsAct.execMapped (env : FopsEnv) : (a : FopsAct) →
    (Registry × OpenFile) × Bytes → a.Res × ((Registry × OpenFile) × Bytes)
  | .vmallocUser len, (s, mem) =>
    (env.vaddr, (s, fun a =>
      if env.vaddr ≤ a ∧ a < env.vaddr + len.toNat then 0 else mem a))
  | .ring msgq a, (s, mem) =>
    ((a.execAt msgq mem).1, (s, (a.execAt msgq mem).2))
  | a, (s, mem) => ((a.exec env s).1, ((a.exec env s).2, mem))

/-- A ring is set up. -/
def Bytes.initRing (mem : Bytes) (msgq : ℕ) (bufferLength : UInt64) : Bytes :=
  ((messageQueueInit bufferLength).run (QAct.execAt msgq) mem).2

/-- Memory before a ring is not touched. -/
theorem initRing_below {mem : Bytes} {msgq a : ℕ} {bufferLength : UInt64}
    (ha : a < msgq) : mem.initRing msgq bufferLength a = mem a := by
  show (((mem.store64 _ _).store64 _ _).store64 _ _).store64 _ _ a = mem a
  rw [Bytes.store64_of_ne (.inl (by omega)),
    Bytes.store64_of_ne (.inl (by omega)),
    Bytes.store64_of_ne (.inl (by omega)),
    Bytes.store64_of_ne (.inl (by omega))]

/-- The ring that was set up. -/
theorem ringAt_initRing (mem : Bytes) (msgq : ℕ) (bufferLength : UInt64) :
    (ringAt (mem.initRing msgq bufferLength) msgq).mLength
      = messageQueueGetQueueLength bufferLength :=
  congrArg MessageQueueHeader.mLength
    (ringAt_runAt msgq (messageQueueInit bufferLength) mem).2

/-- A ring before it keeps its length. -/
theorem mLength_initRing {mem : Bytes} {msgq msgq' : ℕ}
    {bufferLength : UInt64} (h : msgq' + 32 ≤ msgq) :
    (ringAt (mem.initRing msgq bufferLength) msgq').mLength
      = (ringAt mem msgq').mLength :=
  Bytes.mLength_congr (fun k hk => initRing_below (by
    show msgq' + 8 + k < msgq
    omega))

/-- `*pfd` and memory after `kucomms_fops_mmap`, and what that returned. -/
def mmapMapped (env : FopsEnv) (len : UInt64) (r : Registry) (fd : OpenFile)
    (mem : Bytes) : ℤ × KucommsFileData × Bytes :=
  let x := (kucommsFopsMmap len).run (FopsAct.execMapped env) ((r, fd), mem)
  (x.1, x.2.1.2.pfd, x.2.2)

/-- **The rings that the kernel works on**, if `kucomms_fops_mmap` accepts the
area. -/
theorem mmapMapped_run {env : FopsEnv} {len : UInt64} {r : Registry}
    {fd : OpenFile} {mem : Bytes} (h : (mmapMapped env len r fd mem).1 = 0) :
    len ≤ kucommsMaxMemAllocSize
      ∧ (mmapMapped env len r fd mem).2.1.vaddr = env.vaddr
      ∧ HasRings (mmapMapped env len r fd mem).2.1.msgmgr env.vaddr
        (env.vaddr + (len / 2).toNat) (messageQueueGetQueueLength (len / 2))
        (messageQueueGetQueueLength (len / 2))
      ∧ ∃ mem₀ : Bytes, (mmapMapped env len r fd mem).2.2
        = (mem₀.initRing env.vaddr (len / 2)).initRing
          (env.vaddr + (len / 2).toNat) (len / 2) := by
  obtain ⟨x, hx⟩ : ∃ x, x = (kucommsFopsMmap len).run
    (FopsAct.execMapped env) ((r, fd), mem) := ⟨_, rfl⟩
  unfold mmapMapped at h ⊢
  rw [← hx] at h ⊢
  have hfail : ∀ y : ℤ × (Registry × OpenFile) × Bytes,
      y.1 = negEio → x ≠ y := by
    rintro y hy rfl
    exact absurd (hy.symm.trans h) (by decide)
  simp only [kucommsFopsMmap, loadFd, act_bind, ret_bind, run_act, run_ite]
    at hx
  split at hx
  · exact absurd hx (hfail _ rfl)
  split at hx
  · exact absurd hx (hfail _ rfl)
  next hle =>
  split at hx
  · exact absurd hx (hfail _ rfl)
  split at hx
  · exact absurd hx (hfail _ rfl)
  split at hx
  · exact absurd hx (hfail _ rfl)
  obtain ⟨fd', m, hrun, hvaddr, -, -, hm, hmgr⟩ := startManager_run
    (FopsAct.execMapped env) env (fun s => (s, _)) (by
      intro a s ha
      cases a <;> first | rfl | exact absurd ha Bool.false_ne_true)
    len env.vaddr env.message r
    { fd with pfd := { fd.pfd with
      rxMsgq := env.vaddr, txMsgq := env.vaddr + (len / 2).toNat } }
  have hx := hx.trans hrun
  rw [hx]
  refine ⟨UInt64.not_lt.mp hle, hvaddr, ?_, _, rfl⟩
  rw [hmgr]
  exact addMsgq_hasRings hm.length _ _ _ _

/-! ## The layout -/

/-- The size of the area that is reserved for a mapping: whole pages. -/
def pageAlign (pageSize length : ℕ) : ℕ :=
  (length + pageSize - 1) / pageSize * pageSize

/-- **The two sides agree on the layout**: what one sends on the other
receives on, at the same offset in the mapping and with the same length. The
two rings are disjoint and in the mapping. -/
structure LayoutAgrees (ptr vaddr : ℕ) (len : UInt64)
    (user kernel : MessageManagerStruct) : Prop where
  toKernel : user.txMsgqArray 0 + vaddr = kernel.rxMsgqArray 0 + ptr
  toUser : user.rxMsgqArray 0 + vaddr = kernel.txMsgqArray 0 + ptr
  toKernelLength : user.txMsgqLenArray 0 = kernel.rxMsgqLenArray 0
  toUserLength : user.rxMsgqLenArray 0 = kernel.txMsgqLenArray 0
  inside : vaddr ≤ kernel.rxMsgqArray 0
    ∧ kernel.txMsgqArray 0 + 32 + (kernel.txMsgqLenArray 0).toNat
      ≤ vaddr + len.toNat
  disjoint : kernel.rxMsgqArray 0 + 32 + (kernel.rxMsgqLenArray 0).toNat
    ≤ kernel.txMsgqArray 0

theorem pageAlign_bounds {pageSize : ℕ} (hpos : 0 < pageSize) (length : ℕ) :
    length ≤ pageAlign pageSize length
      ∧ pageAlign pageSize length < length + pageSize := by
  have hmod := Nat.div_add_mod (length + pageSize - 1) pageSize
  have hlt := Nat.mod_lt (length + pageSize - 1) hpos
  unfold pageAlign
  rw [Nat.mul_comm]
  omega

/-- The halves of a length and of the pages that it takes. -/
theorem half_pageAlign_iff {pageSize : ℕ} (length : ℕ) (heven : 2 ∣ pageSize)
    (hpos : 0 < pageSize) :
    length / 2 = pageAlign pageSize length / 2 ↔ pageSize ∣ length := by
  have hdvd : pageSize ∣ pageAlign pageSize length := Nat.dvd_mul_left ..
  have hle := pageAlign_bounds hpos length
  constructor
  · intro hhalf
    -- the pages are an even number of bytes, so no byte is missing
    obtain ⟨k, hk⟩ := heven.trans hdvd
    have heq : length = pageAlign pageSize length := by omega
    exact heq ▸ hdvd
  · intro hlength
    obtain ⟨k, hk⟩ := hlength
    obtain ⟨n, hn⟩ := hdvd
    have hkn : k = n := by
      rw [hn, hk] at hle
      have hle₁ := Nat.le_of_mul_le_mul_left hle.1 hpos
      have hlt : pageSize * n < pageSize * (k + 1) := by
        rw [Nat.mul_succ]
        exact hle.2
      have hlt₁ := Nat.lt_of_mul_lt_mul_left hlt
      omega
    rw [hn, hk, hkn]

/-- What the user process finds in the headers, if it looks at them where the
kernel has put them. -/
theorem mLength_mappedAt (mem₀ : Bytes) (vaddr ptr : ℕ) {half : UInt64}
    (h32 : 32 ≤ half.toNat) :
    (ringAt (((mem₀.initRing vaddr half).initRing (vaddr + half.toNat)
        half).mappedAt vaddr ptr) (ptr + half.toNat)).mLength
        = messageQueueGetQueueLength half
      ∧ (ringAt (((mem₀.initRing vaddr half).initRing (vaddr + half.toNat)
        half).mappedAt vaddr ptr) ptr).mLength
        = messageQueueGetQueueLength half := by
  constructor
  · rw [ringAt_mappedAt, ringAt_initRing]
  · have htx := ringAt_mappedAt ((mem₀.initRing vaddr half).initRing
      (vaddr + half.toNat) half) vaddr ptr 0
    rw [Nat.add_zero, Nat.add_zero] at htx
    rw [htx, mLength_initRing (Nat.add_le_add_left h32 vaddr),
      ringAt_initRing]

/-- **The two sides agree if they halve alike.** -/
theorem layout_of_halves {len : UInt64} {vaddr ptr : ℕ}
    {user kernel : MessageManagerStruct} (hpos : 4096 ≤ len.toNat)
    (hkernel : HasRings kernel vaddr (vaddr + (len / 2).toNat)
      (messageQueueGetQueueLength (len / 2))
      (messageQueueGetQueueLength (len / 2)))
    (huser : HasRings user (ptr + (len / 2).toNat) ptr
      (messageQueueGetQueueLength (len / 2))
      (messageQueueGetQueueLength (len / 2))) :
    LayoutAgrees ptr vaddr len user kernel := by
  have hhalf : (len / 2).toNat = len.toNat / 2 := UInt64.toNat_div ..
  have hqueue : (messageQueueGetQueueLength (len / 2)).toNat
      = (len / 2).toNat - 32 := toNat_getQueueLength (by omega)
  refine ⟨?_, ?_, ?_, ?_, ⟨?_, ?_⟩, ?_⟩
  · rw [huser.tx, hkernel.rx, Nat.add_comm]
  · rw [huser.rx, hkernel.tx]
    omega
  · rw [huser.txLen, hkernel.rxLen]
  · rw [huser.rxLen, hkernel.txLen]
  · rw [hkernel.rx]
  · rw [hkernel.tx, hkernel.txLen, hqueue]
    omega
  · rw [hkernel.rx, hkernel.tx, hkernel.rxLen, hqueue]
    omega

/-- **Exactly when the two sides agree.** -/
theorem layout_agrees_iff {pageSize : ℕ} (hpage : 4096 ∣ pageSize)
    (hpageSize : 0 < pageSize) {length len : UInt64} (hlength : 0 < length)
    (hvma : len.toNat = pageAlign pageSize length.toNat) (ptr : ℕ)
    {env : FopsEnv} {r : Registry} {fd : OpenFile} {mem : Bytes}
    (hok : (mmapMapped env len r fd mem).1 = 0) :
    LayoutAgrees ptr (mmapMapped env len r fd mem).2.1.vaddr len
        ((runDevice ptr length).run Bytes.ringExec
          ((mmapMapped env len r fd mem).2.2.mappedAt
            (mmapMapped env len r fd mem).2.1.vaddr ptr)).1.msgmgr
        (mmapMapped env len r fd mem).2.1.msgmgr
      ↔ pageSize ∣ length.toNat := by
  obtain ⟨hle, hvaddr, hkernel, mem₀, hmem⟩ := mmapMapped_run hok
  rw [hvaddr, hmem]
  generalize (mmapMapped env len r fd mem).2.1.msgmgr = kernel at hkernel ⊢
  have huser := runDevice_run ptr length
    (((mem₀.initRing env.vaddr (len / 2)).initRing
      (env.vaddr + (len / 2).toNat) (len / 2)).mappedAt env.vaddr ptr)
  generalize ((runDevice ptr length).run Bytes.ringExec _).1.msgmgr = user
    at huser ⊢
  have hhalf : (len / 2).toNat = len.toNat / 2 := UInt64.toNat_div ..
  have hhalf' : (length / 2).toNat = length.toNat / 2 := UInt64.toNat_div ..
  have hiff := half_pageAlign_iff length.toNat
    (Nat.dvd_trans (by decide) hpage) hpageSize
  rw [← hvma, ← hhalf, ← hhalf'] at hiff
  rw [← hiff]
  constructor
  · intro hagrees
    have hrx := hagrees.toUser
    rw [huser.rx, hkernel.tx] at hrx
    omega
  · intro heq
    have hpos : 4096 ≤ len.toNat := by
      have hdvd : 4096 ∣ len.toNat := by
        rw [hvma]
        exact Nat.dvd_trans hpage (Nat.dvd_mul_left ..)
      refine Nat.le_of_dvd ?_ hdvd
      rw [hvma]
      exact Nat.lt_of_lt_of_le (UInt64.lt_iff_toNat_lt.mp hlength)
        (pageAlign_bounds hpageSize _).1
    obtain ⟨hrx, htx⟩ := mLength_mappedAt mem₀ env.vaddr ptr
      (show 32 ≤ (len / 2).toNat by omega)
    rw [heq, hrx, htx] at huser
    exact layout_of_halves hpos hkernel huser

/-- `kucomms_fops_mmap` of two pages, all going well. -/
def twoPages : ℤ × KucommsFileData × Bytes :=
  mmapMapped .calm 8192 (kucommsInit .blank) ⟨.blank, true, .created, false⟩
    (fun _ => 1)

/-- Both pages are asked for. -/
theorem layout_agrees_pages :
    LayoutAgrees 65536 twoPages.2.1.vaddr 8192
      ((runDevice 65536 8192).run Bytes.ringExec
        (twoPages.2.2.mappedAt twoPages.2.1.vaddr 65536)).1.msgmgr
      twoPages.2.1.msgmgr :=
  (layout_agrees_iff (Nat.dvd_refl 4096) (by decide) (by decide) (by decide)
    65536 (by decide +kernel)).mpr (by decide)

/-- **One byte of the second page is asked for**, and the receive ring of the
user process begins in the middle of the first. -/
theorem layout_disagrees :
    pageAlign 4096 4097 = 8192 ∧ twoPages.1 = 0
      ∧ ¬ LayoutAgrees 65536 twoPages.2.1.vaddr 8192
        ((runDevice 65536 4097).run Bytes.ringExec
          (twoPages.2.2.mappedAt twoPages.2.1.vaddr 65536)).1.msgmgr
        twoPages.2.1.msgmgr := by
  refine ⟨by decide, by decide +kernel, fun hagrees => ?_⟩
  exact absurd hagrees.toUser (by decide +kernel)
