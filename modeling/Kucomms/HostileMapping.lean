import Kucomms.DeliveryMachine
import Kucomms.Mapping

/-!
# The kernel thread and a hostile user process

The kernel thread of a file that `kucomms_fops_mmap` has set up, and the user
process, which may overwrite any byte of the mapping between any two actions
of the thread.

`kernel_in_bounds`: the thread touches no byte outside the mapping, the
bounce buffer and `cbdata.message`, provided that `m_length + 32` does not
wrap in a header that `message_queue_get_l` copies to the bounce buffer. The
other places that add 32 to an `m_length` of the user process need no such
proviso: what they then copy or skip is the wrapped size.

`message_queue_get_l` checks the wrapped size and copies `m_length` bytes
(`wrapped_length_overruns`).
-/

open Prog

/-! ## The machine -/

/-- `m_length + sizeof(struct Message)` does not wrap in the header at a
pointer. -/
def Bytes.NoWrap (p : Bytes) : Prop := p.mLength.toNat + 32 < 2 ^ 64

/-- **The state**: memory the user process may write, the bounce buffer, and
where the kernel thread is. -/
structure HostileState where
  mem : Bytes
  bounce : Bytes
  thread : ThreadState

/-- The bounce buffer after an access that was answered by `r`. -/
def QAct.bounced (bounce : Bytes) : (a : QAct) → a.Res → Bytes
  | .copyOut (.buffer k) _, r => Function.update bounce k r
  | _, _ => bounce

/-- The copy of the last byte of a header to the bounce buffer. -/
def QAct.endsHeader : QAct → Bool
  | .copyOut (.buffer 31) _ => true
  | _ => false

/-- The kernel thread is in kernel space, the process in user space. -/
inductive Space where
  | kernel
  | user
  deriving DecidableEq

/-- **The calls.** -/
inductive HostileCall where
  /-- `message_manager_run` up to its loop. -/
  | enter (buffer : Bytes)
  /-- A turn of its loop. -/
  | turn (l : RunLocals)
  /-- The user process writes a byte. -/
  | poke (address : ℕ) (b : UInt8)

namespace HostileCall

/-- What a call returns. -/
@[reducible] def Ret : HostileCall → Type
  | enter _ => RunLocals
  | turn _ => TurnEnd
  | poke _ _ => Unit

/-- The programs. -/
def prog (hz : UInt64) (pfd : KucommsFileData) :
    (c : HostileCall) → MgrProg c.Ret
  | enter buffer => messageManagerEnter buffer
  | turn l => messageManagerTurn (.kernel hz) pfd.msgmgr (pfd.vaddrLen / 2)
    (kucommsMessageHlr pfd.cbdata.callbacks) l
  | poke _ _ => .ret ()

/-- Who may call what when: the user process writes its mapping. -/
def may (pfd : KucommsFileData) (s : HostileState) :
    Space → HostileCall → Prop
  | .kernel, enter _ => s.thread = .woken
  | .kernel, turn l => s.thread = .running l
  | .user, poke address _ =>
    pfd.vaddr ≤ address ∧ address < pfd.vaddr + pfd.vaddrLen.toNat
  | _, _ => False

/-- What happens when a call begins. -/
def onCall (s : HostileState) : HostileCall → HostileState
  | enter buffer => { s with bounce := buffer }
  | turn _ => s
  | poke address b => { s with mem := Function.update s.mem address b }

/-- What is recorded when a call returns. -/
def onRet (s : HostileState) : (c : HostileCall) → c.Ret → HostileState
  | enter _, l => { s with thread := .running l }
  | turn _, .again l => { s with thread := .running l }
  | turn _, .exit _ => { s with thread := .exited }
  | poke _ _, _ => s

end HostileCall

/-- **What an action may do.** Loads and stores are of memory as it is; all
else may be answered by anything. A header may get to the bounce buffer if
it is in order, `guard`. What a handler writes to the mapping the user
process could write, and so it is among the steps of the user process. -/
inductive HostileSem (guard : Bytes → Prop) : (a : MgrAct) → HostileState →
    a.Res → HostileState → Prop where
  | ring {s : HostileState} (msgq : ℕ) (a : QAct)
      (hguard : a.endsHeader = true →
        guard (a.bounced s.bounce (a.execAt msgq s.mem).1)) :
      HostileSem guard (.ring msgq a) s (a.execAt msgq s.mem).1
        { s with
          mem := (a.execAt msgq s.mem).2
          bounce := a.bounced s.bounce (a.execAt msgq s.mem).1 }
  | other {s : HostileState} {a : MgrAct} (r : a.Res)
      (ha : ∀ msgq b, a ≠ .ring msgq b) : HostileSem guard a s r s

/-- **The kernel thread and the user process**, where the headers that
`message_queue_get_l` copies are in order. -/
def hostileMachine (guard : Bytes → Prop) (hz : UInt64)
    (pfd : KucommsFileData) :
    Machine Space MgrAct MgrAct.Res HostileState where
  Call := HostileCall
  Ret := HostileCall.Ret
  prog := HostileCall.prog hz pfd
  may i s c := c.may pfd s i
  onCall _ c s := c.onCall s
  sem _ _ := HostileSem guard
  onRet _ c v s := c.onRet s v

/-! ## What `kucomms_fops_mmap` sets up -/

/-- **A mapped file**: its two rings, each in half of the mapping, are the
pair that its manager serves. -/
structure Mapped (pfd : KucommsFileData) : Prop where
  pairs : HasPairs pfd.msgmgr [⟨pfd.vaddr, pfd.vaddr + (pfd.vaddrLen / 2).toNat,
    pfd.vaddrLen / 2, pfd.vaddrLen / 2⟩]
  le : pfd.vaddrLen ≤ kucommsMaxMemAllocSize
  page : 4096 ∣ pfd.vaddrLen.toNat
  pos : 0 < pfd.vaddrLen

/-- `*pfd` after `kucomms_fops_mmap`, and what that returned. -/
def afterMmap (env : FopsEnv) (len : UInt64) (r : Registry) (fd : OpenFile) :
    ℤ × KucommsFileData :=
  let x := (kucommsFopsMmap len).run (FopsAct.exec env) (r, fd)
  (x.1, x.2.2.pfd)

/-- What a successful `kucomms_fops_mmap` has stored. -/
theorem startSession_run (env : FopsEnv) (len : UInt64) (vaddr message : ℕ)
    (r : Registry) (fd : OpenFile) :
    ∃ fd', (startSession len vaddr message).run (FopsAct.exec env) (r, fd)
        = (0, r, fd')
      ∧ fd'.pfd.vaddr = vaddr ∧ fd'.pfd.vaddrLen = len
      ∧ HasPairs fd'.pfd.msgmgr
        [⟨vaddr, vaddr + (len / 2).toNat, len / 2, len / 2⟩] := by
  obtain ⟨fd', m, hrun, hvaddr, hlen, -, hm, hmgr⟩ := startManager_run
    (FopsAct.exec env) env id (fun _ _ _ => rfl) len vaddr message r
    { fd with pfd := { fd.pfd with
      rxMsgq := vaddr, txMsgq := vaddr + (len / 2).toNat } }
  refine ⟨fd', hrun, hvaddr, hlen, ?_⟩
  have hnone : HasPairs m [] := ⟨hm.length, fun _ _ h => nomatch h⟩
  rw [hmgr]
  exact hnone.add ⟨vaddr, vaddr + (len / 2).toNat, len / 2, len / 2⟩
    (Nat.succ_pos 63)

/-- **`kucomms_fops_mmap` returns 0 with the file mapped.** -/
theorem mapped_of_mmap {env : FopsEnv} {len : UInt64} {r : Registry}
    {fd : OpenFile} (hpage : 4096 ∣ len.toNat) (hpos : 0 < len)
    (h : (afterMmap env len r fd).1 = 0) :
    Mapped (afterMmap env len r fd).2
      ∧ (afterMmap env len r fd).2.vaddrLen = len := by
  obtain ⟨x, hx⟩ : ∃ x, x = (kucommsFopsMmap len).run (FopsAct.exec env)
    (r, fd) := ⟨_, rfl⟩
  unfold afterMmap at h ⊢
  rw [← hx] at h ⊢
  have hfail : ∀ y : ℤ × Registry × OpenFile, y.1 = negEio → x ≠ y := by
    rintro y hy rfl
    exact absurd (hy.symm.trans h) (by decide)
  simp only [kucommsFopsMmap, loadFd, act_bind, ret_bind, run_act, run_ite]
    at hx
  split at hx
  · exact absurd hx (hfail _ rfl)
  split at hx
  · exact absurd hx (hfail _ rfl)
  next hle =>
  split at hx
  · exact absurd hx (hfail _ rfl)
  split at hx
  · exact absurd hx (hfail _ rfl)
  split at hx
  · exact absurd hx (hfail _ rfl)
  obtain ⟨fd', hrun, hvaddr, hlen, hpairs⟩ :=
    startSession_run env len env.vaddr env.message r fd
  have hpfd : x.2.2.pfd = fd'.pfd := by
    rw [hx]
    exact congrArg (fun y => y.2.2.pfd) hrun
  show Mapped x.2.2.pfd ∧ x.2.2.pfd.vaddrLen = len
  rw [hpfd]
  refine ⟨⟨?_, ?_, ?_, ?_⟩, hlen⟩
  · rw [hvaddr, hlen]
    exact hpairs
  · rw [hlen]
    exact UInt64.not_lt.mp hle
  · rwa [hlen]
  · rwa [hlen]

/-! ## The lengths -/

/-- The queue length of both rings. -/
def KucommsFileData.queueLength (pfd : KucommsFileData) : UInt64 :=
  messageQueueGetQueueLength (pfd.vaddrLen / 2)

namespace Mapped

variable {pfd : KucommsFileData}

/-- Half of the mapping is a header and a queue. -/
theorem half (h : Mapped pfd) :
    (pfd.vaddrLen / 2).toNat = pfd.queueLength.toNat + 32 := by
  have hpos := UInt64.lt_iff_toNat_lt.mp h.pos
  have hpage := Nat.le_of_dvd hpos h.page
  have hhalf : (pfd.vaddrLen / 2).toNat = pfd.vaddrLen.toNat / 2 :=
    UInt64.toNat_div ..
  unfold KucommsFileData.queueLength
  rw [toNat_getQueueLength (by omega)]
  omega

theorem len (h : Mapped pfd) :
    pfd.vaddrLen.toNat = 2 * pfd.queueLength.toNat + 64 := by
  have hhalf : (pfd.vaddrLen / 2).toNat = pfd.vaddrLen.toNat / 2 :=
    UInt64.toNat_div ..
  have := h.half
  have := h.page
  omega

/-- A page has room for two headers and much more. -/
theorem le_queueLength (h : Mapped pfd) : 64 ≤ pfd.queueLength.toNat := by
  have hpage := Nat.le_of_dvd (UInt64.lt_iff_toNat_lt.mp h.pos) h.page
  have := h.len
  omega

end Mapped
