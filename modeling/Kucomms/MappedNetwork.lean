import Kucomms.Peers
import Kucomms.UserMapping

/-!
# From a mapping to a network

A network begins with rings that are set up, and with managers that know
theirs. For a device and a process this is what `kucomms_fops_mmap` and
`MessageManager::run` bring about: `mapped_network` says that the memory and
the managers they leave are those of `peerNetwork` at its start.

`kucomms_fops_mmap` wakes the kernel thread before it returns, so that the
thread is at work already when `MessageManager::run` goes on with what it has
mapped. Here the one is run after the other: `run` stores nothing in the rings
and loads only their lengths, which the thread leaves alone.

The two work on the same memory at different addresses, and the network has
those of the kernel. That both see the same bytes is not proved here but is
how the mapping is modelled: `Bytes.mappedAt` is what `remap_vmalloc_range`
is taken to bring about.
-/

open Prog

/-! ## Rings just set up -/

/-- **The header of a ring just set up** in a buffer. -/
structure MessageQueueHeader.JustSetUp (h : MessageQueueHeader)
    (bufferLength : UInt64) : Prop where
  magic : h.mMagic = 0x1122334455667788
  length : h.mLength = messageQueueGetQueueLength bufferLength
  rd : h.mRd = 0
  wr : h.mWr = 0

section Init

variable {mem : Bytes} {msgq msgq' : ℕ} {bufferLength bufferLength' : UInt64}

/-- Nothing is left to set up. -/
theorem MessageQueueHeader.JustSetUp.init {h : MessageQueueHeader}
    (hh : h.JustSetUp bufferLength) :
    (Traced.init bufferLength h).ring = h := by
  obtain ⟨magic, length, rd, wr, queue⟩ := h
  obtain ⟨rfl, rfl, rfl, rfl⟩ := hh
  rfl

theorem justSetUp_initRing :
    (ringAt (mem.initRing msgq bufferLength) msgq).JustSetUp bufferLength := by
  have hring : ringAt (mem.initRing msgq bufferLength) msgq = _ :=
    (ringAt_runAt msgq (messageQueueInit bufferLength) mem).2
  rw [hring]
  exact ⟨rfl, rfl, rfl, rfl⟩

/-- A ring behind it does not matter. -/
theorem MessageQueueHeader.JustSetUp.initRing
    (h : (ringAt mem msgq').JustSetUp bufferLength)
    (hle : msgq' + 32 ≤ msgq) :
    (ringAt (mem.initRing msgq bufferLength') msgq').JustSetUp
      bufferLength := by
  have hfield : ∀ f : HeaderField, Bytes.load64 (fun k =>
      mem.initRing msgq bufferLength' (msgq' + f.offset + k))
        = Bytes.load64 (fun k => mem (msgq' + f.offset + k)) := fun f =>
    Bytes.mLength_congr (fun k hk => initRing_below (by
      cases f <;> simp only [HeaderField.offset] <;> omega))
  exact ⟨(hfield .magic).trans h.magic, (hfield .length).trans h.length,
    (hfield .rd).trans h.rd, (hfield .wr).trans h.wr⟩

end Init

/-! ## The kernel -/

/-- Nothing is loaded from a ring. -/
def FopsAct.LoadsNoRing : FopsAct → Prop
  | .ring _ (.storeField _ _) | .ring _ (.storeByte _ _) => True
  | .ring _ _ => False
  | _ => True

theorem startManager_loadsNoRing (len : UInt64) (vaddr message : ℕ) :
    (startManager len vaddr message).All FopsAct.LoadsNoRing := by
  have hfree : (freeSession vaddr message).All FopsAct.LoadsNoRing :=
    ⟨trivial, fun _ => ⟨trivial, fun _ => trivial⟩⟩
  have hmanager : ∀ p : ManagerProg Bool,
      p.inFops.All FopsAct.LoadsNoRing := All.embed (fun _ => trivial)
  unfold startManager
  refine (hmanager _).bind (fun _ => All.ite hfree ?_)
  refine ⟨trivial, fun rx => ⟨trivial, fun tx => ?_⟩⟩
  refine (hmanager _).bind (fun _ => All.ite hfree ?_)
  exact ⟨trivial, fun _ => ⟨trivial, fun _ => ⟨trivial, fun _ =>
    ⟨trivial, fun _ => trivial⟩⟩⟩⟩

theorem startSession_loadsNoRing (len : UInt64) (vaddr message : ℕ) :
    (startSession len vaddr message).All FopsAct.LoadsNoRing := by
  have hfree : (freeSession vaddr message).All FopsAct.LoadsNoRing :=
    ⟨trivial, fun _ => ⟨trivial, fun _ => trivial⟩⟩
  have hring : ∀ msgq, (QProg.inFops (messageQueueInit (len / 2)) msgq).All
      FopsAct.LoadsNoRing := fun _ => ⟨trivial, fun _ => ⟨trivial, fun _ =>
    ⟨trivial, fun _ => ⟨trivial, fun _ => trivial⟩⟩⟩⟩
  unfold startSession
  refine ⟨trivial, fun _ => ⟨trivial, fun _ => ⟨trivial, fun rx => ?_⟩⟩⟩
  refine (hring _).bind (fun _ => All.ite hfree ⟨trivial, fun tx => ?_⟩)
  exact (hring _).bind (fun _ => All.ite hfree
    (startManager_loadsNoRing len vaddr message))

theorem fopsMmap_loadsNoRing (len : UInt64) :
    (kucommsFopsMmap len).All FopsAct.LoadsNoRing := by
  unfold kucommsFopsMmap
  refine ⟨trivial, fun pfd => All.ite trivial (All.ite trivial ?_)⟩
  refine ⟨trivial, fun vaddr => All.ite trivial ?_⟩
  have hfree : (vfree vaddr >>= fun _ => .ret negEio).All
      FopsAct.LoadsNoRing := ⟨trivial, fun _ => trivial⟩
  refine ⟨trivial, fun ret => All.ite hfree ?_⟩
  refine ⟨trivial, fun message => All.ite hfree ?_⟩
  exact startSession_loadsNoRing len vaddr message

/-- **The file is the same**, whether one looks at the memory or not. -/
theorem afterMmap_eq (env : FopsEnv) (len : UInt64) (r : Registry)
    (fd : OpenFile) (mem : Bytes) : afterMmap env len r fd
    = ((mmapMapped env len r fd mem).1, (mmapMapped env len r fd mem).2.1) := by
  have hproj : ∀ (a : FopsAct) (s : (Registry × OpenFile) × Bytes),
      a.LoadsNoRing → FopsAct.exec env a s.1
        = ((FopsAct.execMapped env a s).1,
          (FopsAct.execMapped env a s).2.1) := by
    rintro a ⟨s, mem⟩ ha
    cases a with
    | ring msgq a =>
      cases a with
      | storeField f v => rfl
      | storeByte dst b => rfl
      | _ => exact ha.elim
    | _ => rfl
  have hrun := (fopsMmap_loadsNoRing len).run_proj hproj ((r, fd), mem)
  unfold afterMmap mmapMapped
  rw [hrun]

/-- Half of a mapping has room for the header of a ring, and more. -/
theorem le_half_of_pages {len : UInt64} (hpage : 4096 ∣ len.toNat)
    (hpos : 0 < len) : 2048 ≤ (len / 2).toNat := by
  have hfour : 4096 ≤ len.toNat :=
    Nat.le_of_dvd (UInt64.lt_iff_toNat_lt.mp hpos) hpage
  have hhalf : (len / 2).toNat = len.toNat / 2 := UInt64.toNat_div ..
  omega

/-- **Both halves begin with a ring just set up.** -/
theorem mmapMapped_justSetUp {env : FopsEnv} {len : UInt64} {r : Registry}
    {fd : OpenFile} {mem : Bytes} (hhalf : 2048 ≤ (len / 2).toNat)
    (hok : (mmapMapped env len r fd mem).1 = 0) :
    (ringAt (mmapMapped env len r fd mem).2.2 env.vaddr).JustSetUp (len / 2)
      ∧ (ringAt (mmapMapped env len r fd mem).2.2
        (env.vaddr + (len / 2).toNat)).JustSetUp (len / 2) := by
  obtain ⟨-, -, -, mem₀, hmem⟩ := mmapMapped_run hok
  rw [hmem]
  exact ⟨justSetUp_initRing.initRing (by omega), justSetUp_initRing⟩

/-! ## The process -/

/-- A ring in the mapping, as the process sees it. -/
theorem ringAt_mappedAt_move {m : Bytes} {vaddr a : ℕ} (ptr : ℕ)
    (ha : vaddr ≤ a) :
    ringAt (m.mappedAt vaddr ptr) (ptr + (a - vaddr)) = ringAt m a := by
  rw [ringAt_mappedAt, Nat.add_sub_cancel' ha]

/-- **The manager that `MessageManager::run` of a device makes**, if it finds
rings just set up in both halves of what it has mapped. -/
theorem runDevice_run_of_setUp {ptr : ℕ} {length : UInt64} {mem : Bytes}
    (hpos : 0 < messageQueueGetQueueLength (length / 2))
    (hrx : (ringAt mem (ptr + (length / 2).toNat)).JustSetUp (length / 2))
    (htx : (ringAt mem ptr).JustSetUp (length / 2)) :
    ((runDevice ptr length).run Bytes.ringExec mem).1
      = ⟨addPairs (messageManagerInit 1 2 3 4) [⟨ptr + (length / 2).toNat, ptr,
          length / 2, length / 2⟩],
        messageQueueGetQueueLength (length / 2), true⟩ := by
  unfold runDevice runBuffers
  rw [if_neg Bool.false_ne_true]
  unfold newMessageManager
  simp only [getLength_run, run_ite, hrx.length, htx.length]
  rw [if_neg (fun hc => Bool.false_ne_true hc.symm), if_pos hpos]
  rfl

/-- **The same manager**, in the terms of the kernel's memory. -/
theorem runDevice_run_mappedAt {mem : Bytes} {vaddr : ℕ} {length : UInt64}
    (ptr : ℕ) (hhalf : 2048 ≤ (length / 2).toNat)
    (hrx : (ringAt mem vaddr).JustSetUp (length / 2))
    (htx : (ringAt mem (vaddr + (length / 2).toNat)).JustSetUp
      (length / 2)) :
    0 < messageQueueGetQueueLength (length / 2)
      ∧ ((runDevice ptr length).run Bytes.ringExec
          (mem.mappedAt vaddr ptr)).1
        = ⟨addPairs (messageManagerInit 1 2 3 4)
            [⟨ptr + (length / 2).toNat, ptr, length / 2, length / 2⟩],
          messageQueueGetQueueLength (length / 2), true⟩ := by
  have hL : 0 < messageQueueGetQueueLength (length / 2) := by
    rw [UInt64.lt_iff_toNat_lt, toNat_getQueueLength (by omega)]
    show 0 < (length / 2).toNat - 32
    omega
  have hlower := ringAt_mappedAt_move (m := mem) ptr (le_refl vaddr)
  rw [Nat.sub_self, Nat.add_zero] at hlower
  have hupper := ringAt_mappedAt_move (m := mem) ptr
    (Nat.le_add_right vaddr (length / 2).toNat)
  rw [Nat.add_sub_cancel_left] at hupper
  refine ⟨hL, runDevice_run_of_setUp hL ?_ ?_⟩
  · rw [hupper]
    exact htx
  · rw [hlower]
    exact hrx

/-! ## The start of a network -/

/-- The same rings at other addresses. -/
def RingPair.move (f : ℕ → ℕ) (p : RingPair) : RingPair :=
  { p with rx := f p.rx, tx := f p.tx }

/-- The process has the rings of the network, at addresses of its own. -/
theorem peerNetwork_pairs_move {P : Type} {vaddr ptr : ℕ} {len : UInt64}
    {device : Node P} {msghlr : MsghlrProg P Bool}
    {workhlr : HandlerProg P Bool}
    {timerhlr : UInt64 → HandlerProg P Unit} :
    ((peerNetwork vaddr len device msghlr workhlr timerhlr).pairs
        .process).map (RingPair.move fun a => ptr + (a - vaddr))
      = [⟨ptr + (len / 2).toNat, ptr, len / 2, len / 2⟩] := by
  show [(⟨ptr + (vaddr + (len / 2).toNat - vaddr), ptr + (vaddr - vaddr),
    len / 2, len / 2⟩ : RingPair)] = _
  rw [Nat.add_sub_cancel_left, Nat.sub_self, Nat.add_zero]

/-- **What is left is the start of a network**, when `kucomms_fops_mmap` has
mapped whole pages and `MessageManager::run` got them at `ptr`, whatever was
in the memory before: the rings of the network are those in memory, also as
the process sees them; the manager of the device is that of the network; and
so is that of the process, which has the rings at addresses of its own. -/
theorem mapped_network {P : Type} {env : FopsEnv} {len : UInt64}
    {r : Registry} {fd : OpenFile} {mem : Bytes} (ptr : ℕ)
    (hpage : 4096 ∣ len.toNat) (hpos : 0 < len)
    (hok : (mmapMapped env len r fd mem).1 = 0)
    {N : Network Peer P} {hz : UInt64} {msghlr msghlr' : MsghlrProg P Bool}
    {workhlr workhlr' : HandlerProg P Bool}
    {timerhlr timerhlr' : UInt64 → HandlerProg P Unit}
    (hN : N = peerNetwork env.vaddr len (deviceNode hz len env.vaddr
      (env.vaddr + (len / 2).toNat) msghlr workhlr timerhlr) msghlr' workhlr'
        timerhlr')
    {mapped : Bytes} (hmapped : mapped = (mmapMapped env len r fd mem).2.2)
    {user : UserManager} (huser : user = ((runDevice ptr len).run
      Bytes.ringExec (mapped.mappedAt env.vaddr ptr)).1)
    (memory : Peer → P) :
    (∀ a, a = env.vaddr ∨ a = env.vaddr + (len / 2).toNat →
        ((N.start (ringAt mapped) memory).rings a).ring = ringAt mapped a
        ∧ ringAt (mapped.mappedAt env.vaddr ptr) (ptr + (a - env.vaddr))
          = ringAt mapped a)
      ∧ HasPairs (mmapMapped env len r fd mem).2.1.msgmgr (N.pairs .device)
      ∧ (mmapMapped env len r fd mem).2.1.vaddrLen / 2
        = (N.node .device).bufferLen
      ∧ HasPairs user.msgmgr ((N.pairs .process).map
        (RingPair.move fun a => ptr + (a - env.vaddr)))
      ∧ user.maxqLength = (N.node .process).bufferLen
      ∧ user.initialised = true := by
  have hhalf := le_half_of_pages hpage hpos
  obtain ⟨hfile, hlen⟩ := mapped_of_mmap hpage hpos
    ((congrArg Prod.fst (afterMmap_eq env len r fd mem)).trans hok)
  rw [afterMmap_eq env len r fd mem] at hfile hlen
  obtain ⟨-, hvaddr, -⟩ := mmapMapped_run hok
  have hpairs := hfile.pairs
  rw [hvaddr, hlen] at hpairs
  obtain ⟨hrx, htx⟩ := mmapMapped_justSetUp hhalf hok
  rw [← hmapped] at hrx htx
  obtain ⟨hL, hrun⟩ := runDevice_run_mappedAt ptr hhalf hrx htx
  rw [← huser] at hrun
  subst hN
  refine ⟨fun a ha => ⟨?_, ringAt_mappedAt_move ptr ?_⟩, hpairs, ?_, ?_, ?_,
    ?_⟩
  · obtain rfl | rfl := ha
    · exact hrx.init
    · exact htx.init
  · omega
  · rw [hlen]
    rfl
  · rw [hrun, peerNetwork_pairs_move]
    exact addPairs_hasPairs 1 2 3 4 (Nat.succ_pos 63)
  · rw [hrun]
    show messageQueueGetQueueLength (len / 2)
      = if messageQueueGetQueueLength (len / 2) > 0 then _ else _
    rw [if_pos hL]
  · rw [hrun]

/-- A device of `kucomms_test` in two pages, and a process. -/
abbrev pagesNetwork : Network Peer Unit :=
  peerNetwork 4096 8192 (kucommsTestNode 100 8192 4096 8192) (return true)
    noWork noTimer

/-- **Two pages are mapped**, and the rings in them are those of the
network. -/
theorem mapped_network_pages :
    HasPairs twoPages.2.1.msgmgr (pagesNetwork.pairs .device)
      ∧ ((pagesNetwork.start (ringAt twoPages.2.2) fun _ => ()).rings
        8192).ring = ringAt twoPages.2.2 8192 := by
  have hok : twoPages.1 = 0 := by decide +kernel
  obtain ⟨hrings, hkernel, -⟩ := mapped_network 65536 (by decide) (by decide)
    hok (show pagesNetwork = _ from rfl) rfl rfl fun _ => ()
  exact ⟨hkernel, (hrings 8192 (.inr rfl)).1⟩
