import Kucomms.HostileMapping
import Kucomms.KernelBounds

/-!
# When the kernel thread ends

`kucomms_thread` is to run until `kucomms_fops_release` has called
`kthread_stop`, which must not be called for a thread that has ended. There is
one other way out of `message_manager_run`: `message_queue_get_l` has set
`*error`.

It is called for a message that `message_queue_get_begin_l` has found in order
but going around the end of the ring, and looks at everything once more: it
loads the indices again, and the header. In between the user process may have
changed them (`kernel_thread_ends_early`). `kernel_thread_outlives`: the thread
outlives the user process in every run in which `message_queue_get_l` finds
both indices in the ring and a header of a size below the queue length.

The second look is told from the first by `peeked`: a load of an index that
follows at once on the header that `message_queue_get_begin_l` has copied is
one of `message_queue_get_l`, for the handler or the rest of the turn begin
with other actions.
-/

open Prog

/-! ## The machine -/

/-- **The state**, with what was last done: `peeked` if the last action of the
thread was to copy the last byte of a header to the stack, or a load right
after that. -/
structure ExitState extends HostileState where
  peeked : Bool
  /-- `kthread_stop` was called. -/
  shouldStop : Bool

/-- What the thread has seen, and no one else can change. -/
structure Seen where
  bounce : Bytes
  peeked : Bool

/-- Whether an access is the end of such a copy, or a load right after it. -/
def QAct.peeks (peeked : Bool) : QAct → Bool
  | .copyOut (.message 31) _ => true
  | .loadField _ => peeked
  | _ => false

/-- What an access that was answered by `r` leaves. -/
def QAct.saw (s : Seen) (a : QAct) (r : a.Res) : Seen :=
  ⟨a.bounced s.bounce r, a.peeks s.peeked⟩

/-- **What `message_queue_get_l` finds**: an index for which `index` holds, a
header for which `header` does. -/
def QAct.Finds (index : UInt64 → Prop) (header : Bytes → Prop) (s : Seen) :
    (a : QAct) → a.Res → Prop
  | .loadField _, v => s.peeked = true → index v
  | a, r => a.endsHeader = true → header (a.bounced s.bounce r)

namespace ExitState

/-- What the thread has seen. -/
def seen (s : ExitState) : Seen := ⟨s.bounce, s.peeked⟩

end ExitState

/-- **The calls**: those of the thread and the user process, and the
`kthread_stop` of a `kucomms_fops_release`. -/
inductive ExitCall where
  | hostile (c : HostileCall)
  | kthreadStop

namespace ExitCall

/-- What a call returns. -/
@[reducible] def Ret : ExitCall → Type
  | hostile c => c.Ret
  | kthreadStop => Unit

/-- The programs. -/
def prog (hz : UInt64) (pfd : KucommsFileData) :
    (c : ExitCall) → MgrProg c.Ret
  | hostile c => c.prog hz pfd
  | kthreadStop => .ret ()

/-- Who may call what when. -/
def may (pfd : KucommsFileData) (s : ExitState) : Space → ExitCall → Prop
  | i, hostile c => c.may pfd s.toHostileState i
  | .user, kthreadStop => True
  | .kernel, kthreadStop => False

/-- What happens when a call begins. -/
def onCall (s : ExitState) : ExitCall → ExitState
  | hostile c => { s with toHostileState := c.onCall s.toHostileState }
  | kthreadStop => { s with shouldStop := true }

/-- What is recorded when a call returns. -/
def onRet (s : ExitState) : (c : ExitCall) → c.Ret → ExitState
  | hostile c, v => { s with toHostileState := c.onRet s.toHostileState v }
  | kthreadStop, _ => s

end ExitCall

/-- **What an action may do.** `stopped` is a variable of `kucomms_thread`
that nothing sets; what the other actions answer is not known. -/
inductive ExitSem (index : UInt64 → Prop) (header : Bytes → Prop) :
    (a : MgrAct) → ExitState → a.Res → ExitState → Prop where
  | ring {s : ExitState} (msgq : ℕ) (a : QAct)
      (hfinds : a.Finds index header s.seen (a.execAt msgq s.mem).1) :
      ExitSem index header (.ring msgq a) s (a.execAt msgq s.mem).1
        { s with
          mem := (a.execAt msgq s.mem).2
          bounce := a.bounced s.bounce (a.execAt msgq s.mem).1
          peeked := a.peeks s.peeked }
  | loadStopped {s : ExitState} :
      ExitSem index header .loadStopped s false { s with peeked := false }
  | kthreadShouldStop {s : ExitState} :
      ExitSem index header .kthreadShouldStop s s.shouldStop
        { s with peeked := false }
  | other {s : ExitState} {a : MgrAct} (r : a.Res)
      (hring : ∀ msgq b, a ≠ .ring msgq b) (hstopped : a ≠ .loadStopped)
      (hstop : a ≠ .kthreadShouldStop) :
      ExitSem index header a s r { s with peeked := false }

/-- **The kernel thread, the user process, and the end of the file.** -/
def exitMachine (index : UInt64 → Prop) (header : Bytes → Prop) (hz : UInt64)
    (pfd : KucommsFileData) : Machine Space MgrAct MgrAct.Res ExitState where
  Call := ExitCall
  Ret := ExitCall.Ret
  prog := ExitCall.prog hz pfd
  may i s c := c.may pfd s i
  onCall _ c s := c.onCall s
  sem _ _ := ExitSem index header
  onRet _ c v s := c.onRet s v

/-- A header of a record that is shorter than the queue. -/
def Bytes.Shorter (L : UInt64) (p : Bytes) : Prop :=
  p.mLength.toNat + 32 < L.toNat

/-- An index in the queue. -/
def InQueue (L v : UInt64) : Prop := v < L

/-! ## The functions of the queue -/

/-- **Accesses that may be answered by anything**, as long as
`message_queue_get_l` finds all in order. -/
abbrev seenSpec (L : UInt64) : RGSpec QAct QAct.Res Seen where
  sem a s r s' := s' = a.saw s r ∧ a.Finds (InQueue L) (Bytes.Shorter L) s r
  safe _ _ := True
  rely s s' := s' = s
  guar _ _ := True
  rely_refl _ := rfl
  rely_trans h h' := h'.trans h

section Queue

variable {L : UInt64} {α : Type} {Q : α → Seen → Prop} {s : Seen}

theorem seen_ret {v : α} (h : Q v s) :
    (Prog.ret v : QProg α).Wp (seenSpec L) Q s :=
  Wp.ret_of (P := (· = s)) (fun _ _ ht hr => hr.trans ht) rfl
    (fun _ ht => ht ▸ h)

/-- **One access.** -/
theorem seen_act {a : QAct} {k : a.Res → QProg α}
    (h : ∀ r, a.Finds (InQueue L) (Bytes.Shorter L) s r →
      (k r).Wp (seenSpec L) Q (a.saw s r)) :
    (Prog.act a k).Wp (seenSpec L) Q s := by
  refine Wp.act_of (P := (· = s)) (fun _ _ ht hr => hr.trans ht) rfl ?_
  rintro t rfl
  refine ⟨trivial, fun r u hu => ⟨trivial, ?_⟩⟩
  obtain ⟨rfl, hfinds⟩ := hu
  exact h r hfinds

/-- Any program, if nothing is asked of it. -/
theorem seen_any (p : QProg α) :
    p.Wp (seenSpec L) (fun _ _ => True) s :=
  Wp.all (T := fun _ => True) (Prog.All.of_forall (fun _ => trivial) p)
    (fun _ _ _ _ => trivial)
    (fun _ _ _ _ => ⟨trivial, fun _ _ _ => ⟨trivial, trivial⟩⟩) trivial

/-- The header that `message_queue_get_begin_l` copies. -/
theorem copyHeader_peeked (n u0 : ℕ) (rd : UInt64) (buffer : Bytes)
    (hn : u0 + n = 32) (hs : n = 0 → s.peeked = true) :
    (copyHeader L .message n u0 rd buffer).Wp (seenSpec L)
      (fun _ s => s.peeked = true) s := by
  induction n generalizing u0 rd buffer s with
  | zero => exact seen_ret (hs rfl)
  | succ n ih =>
    refine seen_act (fun b _ => ih (u0 + 1) _ _ (by omega) (fun h0 => ?_))
    obtain rfl : u0 = 31 := by omega
    rfl

/-- **`message_queue_get_begin_l`** has just copied a header when it leaves a
message to `message_queue_get_l`. -/
theorem messageQueueGetBeginL_peeked :
    (messageQueueGetBeginL L).Wp (seenSpec L)
      (fun r s => r = some none → s.peeked = true) s := by
  unfold messageQueueGetBeginL
  refine seen_act (fun rd _ => seen_act (fun wr _ => ?_))
  have hnone : ∀ t : Seen, (Prog.ret none : QProg (Option (Option ℕ))).Wp
      (seenSpec L) (fun r s => r = some none → s.peeked = true) t :=
    fun t => seen_ret (fun h => by cases h)
  show Wp _ _ (if rd ≥ L then _ else if wr ≥ L then _
    else if rd = wr then _ else _) _
  split
  · exact hnone _
  split
  · exact hnone _
  split
  · exact hnone _
  refine Wp.bind ((copyHeader_peeked 32 0 rd stackMessage rfl
    (fun h0 => absurd h0 (by decide))).mono (fun head t ht => ?_))
  show Wp _ _ (if head.2.mLength + sizeofMessage ≥ L then _
    else if L - rd ≥ head.2.mLength + sizeofMessage then _ else _) _
  split
  · exact hnone t
  split
  · exact seen_ret (fun h => by cases h)
  · exact seen_ret (fun _ => ht)

/-- The header that `message_queue_get_l` copies. -/
theorem copyHeader_shorter (n u0 : ℕ) (rd : UInt64) (buffer : Bytes)
    (hn : u0 + n = 32) (hs : ∀ k < u0, s.bounce k = buffer k)
    (hshort : n = 0 → s.bounce.Shorter L) :
    (copyHeader L .buffer n u0 rd buffer).Wp (seenSpec L)
      (fun v _ => v.2.Shorter L) s := by
  induction n generalizing u0 rd buffer s with
  | zero =>
    refine seen_ret ?_
    have hsame : buffer.mLength = s.bounce.mLength :=
      Bytes.mLength_congr (fun k hk => (hs k (by omega)).symm)
    show buffer.mLength.toNat + 32 < L.toNat
    rw [hsame]
    exact hshort rfl
  | succ n ih =>
    refine seen_act (fun b hfinds => ih (u0 + 1) _ _ (by omega)
      (fun k hk => ?_) (fun h0 => ?_))
    · show Function.update s.bounce u0 b k = Function.update buffer u0 b k
      by_cases hku : k = u0
      · rw [hku, Function.update_self, Function.update_self]
      · rw [Function.update_of_ne hku, Function.update_of_ne hku]
        exact hs k (by omega)
    · obtain rfl : u0 = 31 := by omega
      exact hfinds rfl

/-- **`message_queue_get_l`** sets no error. -/
theorem messageQueueGetL_peeked {buffer : Bytes} {bufferLen : UInt64}
    (hbuf : L.toNat + 32 = bufferLen.toNat) (hs : s.peeked = true) :
    (messageQueueGetL L buffer bufferLen).Wp (seenSpec L)
      (fun g _ => g.error = false) s := by
  unfold messageQueueGetL
  refine seen_act (fun rd hrd => seen_act (fun wr hwr => ?_))
  have hrd : rd < L := hrd hs
  have hwr : wr < L := hwr hs
  show Wp _ _ (if rd ≥ L then _ else if wr ≥ L then _
    else if rd = wr then _ else if bufferLen < sizeofMessage then _ else _) _
  rw [if_neg (UInt64.not_le.mpr hrd), if_neg (UInt64.not_le.mpr hwr)]
  split
  · exact seen_ret rfl
  split
  · next hlt =>
    rw [UInt64.lt_iff_toNat_lt, toNat_sizeofMessage] at hlt
    omega
  refine Wp.bind ((copyHeader_shorter 32 0 rd buffer rfl
    (fun k hk => absurd hk (Nat.not_lt_zero k))
    (fun h0 => absurd h0 (by decide))).mono (fun head t hshort => ?_))
  have hlt : head.2.mLength.toNat + 32 < L.toNat := hshort
  have hL := L.toNat_lt
  have hsize : (head.2.mLength + sizeofMessage).toNat
      = head.2.mLength.toNat + 32 := toNat_add_header (by omega)
  show Wp _ _ (if head.2.mLength + sizeofMessage ≥ L then _
    else if head.2.mLength = 0 then _
    else if bufferLen < head.2.mLength + sizeofMessage then _ else _) _
  split
  · next hge =>
    rw [ge_iff_le, UInt64.le_iff_toNat_le, hsize] at hge
    omega
  split
  · exact seen_act (fun _ _ => seen_ret rfl)
  split
  · next hlt' =>
    rw [UInt64.lt_iff_toNat_lt, hsize] at hlt'
    omega
  · exact Wp.bind ((seen_any _).mono
      (fun _ _ _ => seen_act (fun _ _ => seen_ret rfl)))

end Queue

/-! ## The thread -/

/-- **The actions of the thread**, while the user process writes its mapping
and may close the file. -/
abbrev exitSpec (L : UInt64) : RGSpec MgrAct MgrAct.Res ExitState where
  sem := ExitSem (InQueue L) (Bytes.Shorter L)
  safe _ _ := True
  rely s s' := s'.seen = s.seen ∧ (s.shouldStop = true → s'.shouldStop = true)
  guar s s' := s'.thread = s.thread ∧ s'.shouldStop = s.shouldStop
  rely_refl _ := ⟨rfl, id⟩
  rely_trans h h' := ⟨h'.1.trans h.1, h'.2 ∘ h.2⟩

section Thread

variable {L : UInt64} {α β : Type} {s : ExitState}

/-- No action ends the thread, or asks it to end. -/
theorem ExitSem.keeps {index : UInt64 → Prop} {header : Bytes → Prop}
    {a : MgrAct} {r : a.Res} {s' : ExitState}
    (h : ExitSem index header a s r s') :
    s'.thread = s.thread ∧ s'.shouldStop = s.shouldStop := by
  cases h with
  | _ => exact ⟨rfl, rfl⟩

/-- **Any program**, if only what it returns is looked at. -/
theorem exit_any (p : MgrProg α) :
    p.Wp (exitSpec L) (fun _ _ => True) s :=
  Wp.all (T := fun _ => True) (Prog.All.of_forall (fun _ => trivial) p)
    (fun _ _ _ _ => trivial)
    (fun _ _ _ _ => ⟨trivial, fun _ _ hsem => ⟨hsem.keeps, trivial⟩⟩) trivial

theorem exit_ret {v : α} {P : α → Prop} (h : P v) :
    (Prog.ret v : MgrProg α).Wp (exitSpec L) (fun v _ => P v) s :=
  Wp.ret_of (P := fun _ => True) (fun _ _ _ _ => trivial) trivial
    (fun _ _ => h)

/-- An access to a ring is answered as it should be. -/
theorem ring_seen {msgq : ℕ} {p : QProg α} {Q : α → Seen → Prop}
    (h : p.Wp (seenSpec L) Q s.seen) :
    (QProg.at p msgq).Wp (exitSpec L) (fun v s => Q v s.seen) s := by
  refine (Wp.embed (G := seenSpec L) (exitSpec L) (MgrAct.ring msgq)
    (fun _ r => r) ExitState.seen (fun _ => True) (fun _ _ _ _ => trivial)
    (fun a s r s' _ _ hsem => ?_) (fun _ _ _ hr => ⟨hr.1, trivial⟩) trivial
    h).mono (fun _ _ hv => hv.1)
  refine ⟨?_, fun _ => ⟨hsem.keeps, trivial⟩⟩
  cases hsem with
  | ring msgq a hfinds => exact ⟨rfl, hfinds⟩
  | other r hring => exact absurd rfl (hring msgq a)

variable {hz : UInt64} {m : MessageManagerStruct} {bufferLen : UInt64}
  {hlr : MessageHandlerProg}

theorem afterDelivery_error (u0 : ℕ) (l : TurnLocals) :
    (afterDelivery (.kernel hz) m u0 l).Wp (exitSpec L)
      (fun l' _ => l'.error = l.error) s := by
  unfold afterDelivery
  refine Wp.bind ((exit_any _).mono (fun n t _ => ?_))
  have hrest : ∀ t : ExitState, (checkTimer (.kernel hz) m (l.counter + 1)
      l.lastTimerTime >>= fun last =>
        pure { l with avail := l.avail + n, counter := l.counter + 1,
                      lastTimerTime := last } : MgrProg TurnLocals).Wp
      (exitSpec L) (fun l' _ => l'.error = l.error) t := fun t =>
    Wp.bind ((exit_any _).mono (fun last t _ => exit_ret rfl))
  show Wp _ _ (if (l.counter + 1) % msgmgrWorkInterval = 0 then _ else _) _
  split
  · exact Wp.bind ((exit_any callWorkhlr).mono (fun ok t _ => hrest t))
  · exact hrest t

/-- **The body of the loop** sets no error. -/
theorem forBody_error (u0 : ℕ) (l : TurnLocals)
    (hbuf : (m.rxMsgqLenArray u0).toNat + 32 = bufferLen.toNat)
    (hl : l.error = false) :
    (forBody (.kernel hz) m bufferLen hlr u0 l).Wp
      (exitSpec (m.rxMsgqLenArray u0)) (fun l' _ => l'.error = false) s := by
  unfold forBody
  refine Wp.bind ((ring_seen messageQueueGetBeginL_peeked).mono ?_)
  intro r t hr
  match r, hr with
  | none, _ => exact exit_ret hl
  | some none, hr =>
    refine Wp.bind ((ring_seen (messageQueueGetL_peeked hbuf (hr rfl))).mono ?_)
    intro g u herror
    show Wp _ _ (if g.error = true then _
      else if g.ok = false then _ else _) _
    rw [if_neg (fun he => Bool.false_ne_true (herror.symm.trans he))]
    split
    · exact exit_ret herror
    · refine Wp.bind ((exit_any _).mono (fun ok v _ => ?_))
      exact (afterDelivery_error u0 _).mono (fun _ _ h => h.trans herror)
  | some (some slot), _ =>
    refine Wp.bind ((exit_any _).mono (fun ok u _ => ?_))
    refine Wp.bind ((exit_any _).mono (fun _ v _ => ?_))
    exact (afterDelivery_error u0 l).mono (fun _ _ h => h.trans hl)

/-- The thread goes on. -/
theorem exit_again (l : RunLocals) :
    (Prog.ret (.again l) : MgrProg TurnEnd).Wp (exitSpec L)
      (fun v s => ∀ ok, v = .exit ok → s.shouldStop = true) s :=
  Wp.ret_of (P := fun _ => True) (fun _ _ _ _ => trivial) trivial
    (fun _ _ ok hv => by cases hv)

theorem idleEnd_again (l : TurnLocals) :
    (idleEnd (.kernel hz) m l).Wp (exitSpec L)
      (fun v s => ∀ ok, v = .exit ok → s.shouldStop = true) s := by
  refine Wp.bind ((exit_any callWorkhlr).mono (fun ok t _ => ?_))
  refine Wp.bind ((exit_any _).mono (fun last u _ => ?_))
  show Wp _ _ (if ok = true then _ else _) _
  split
  · exact exit_again _
  · exact Wp.bind ((exit_any (callUsleep m)).mono (fun _ _ _ => exit_again _))

/-- A turn that has looked whether to go on does not end the thread. -/
theorem turnBody_again (l : RunLocals) (hone : m.msgqArrayLength = 1)
    (hbuf : (m.rxMsgqLenArray 0).toNat + 32 = bufferLen.toNat) :
    (turnBody (.kernel hz) m bufferLen hlr l).Wp
      (exitSpec (m.rxMsgqLenArray 0))
      (fun v s => ∀ ok, v = .exit ok → s.shouldStop = true) s := by
  unfold turnBody
  rw [hone, forLoop_one]
  refine Wp.bind ((forBody_error 0 _ hbuf rfl).mono (fun l' u hl' => ?_))
  rw [if_neg (fun he => Bool.false_ne_true (hl'.symm.trans he))]
  split
  · exact exit_again _
  · exact idleEnd_again l'

/-- **A turn of `message_manager_run`** on one pair ends the thread only if it
should stop. -/
theorem messageManagerTurn_exit (l : RunLocals)
    (hone : m.msgqArrayLength = 1)
    (hbuf : (m.rxMsgqLenArray 0).toNat + 32 = bufferLen.toNat) :
    (messageManagerTurn (.kernel hz) m bufferLen hlr l).Wp
      (exitSpec (m.rxMsgqLenArray 0))
      (fun v s => ∀ ok, v = .exit ok → s.shouldStop = true) s := by
  rw [messageManagerTurn_eq]
  refine Wp.act_of (P := fun _ => True) (fun _ _ _ _ => trivial) trivial
    (fun t _ => ⟨trivial, fun stopped t' hsem => ⟨hsem.keeps, ?_⟩⟩)
  cases hsem with
  | other r hring hstopped => exact absurd rfl hstopped
  | loadStopped =>
    refine Wp.act_of (P := fun _ => True) (fun _ _ _ _ => trivial) trivial
      (fun t _ => ⟨trivial, fun stop t' hsem => ⟨hsem.keeps, ?_⟩⟩)
    cases hsem with
    | other r hring hstopped hstop => exact absurd rfl hstop
    | kthreadShouldStop =>
      split
      · next hstop =>
        exact Wp.ret_of (P := fun t => t.shouldStop = true)
          (fun _ _ h hr => hr.2 h) hstop (fun _ h _ _ => h)
      · exact turnBody_again l hone hbuf

end Thread

/-! ## Any run -/

section Machine

variable {pfd : KucommsFileData} {hz : UInt64} {s : ExitState}

/-- The thread has ended only if it should. -/
def Outlives (s : ExitState) : Prop :=
  s.thread = .exited → s.shouldStop = true

/-- What holds when a call is about to return. -/
def ExitCall.Post : Space → (c : ExitCall) → c.Ret → ExitState → Prop
  | .kernel, .hostile (.turn _), v => fun s =>
    ∀ ok, v = .exit ok → s.shouldStop = true
  | .kernel, .hostile (.enter _), _ => fun _ => True
  | .user, .hostile (.poke _ _), _ => fun _ => True
  | .user, .kthreadStop, _ => fun _ => True
  | _, _, _ => fun _ => False

/-- What the user process does: it changes memory, and may ask the thread to
stop. -/
structure Hostile (s s' : ExitState) : Prop where
  seen : s'.seen = s.seen
  thread : s'.thread = s.thread
  stop : s.shouldStop = true → s'.shouldStop = true

/-- The programs of the kernel thread. -/
theorem exitCall_wp (h : Mapped pfd) {c : HostileCall}
    (hmay : c.may pfd s.toHostileState .kernel) (t : ExitState) :
    (c.prog hz pfd).Wp (exitSpec pfd.queueLength)
      (ExitCall.Post .kernel (.hostile c)) t := by
  obtain ⟨-, -, hlen, -⟩ := h.pairs.pair 0 _ rfl
  have hbuf : (pfd.msgmgr.rxMsgqLenArray 0).toNat + 32
      = (pfd.vaddrLen / 2).toNat := by
    rw [hlen, h.half]
    rfl
  cases c with
  | enter buffer => exact exit_any _
  | turn l =>
    have hturn : Wp (exitSpec (pfd.msgmgr.rxMsgqLenArray 0)) _
        (messageManagerTurn (.kernel hz) pfd.msgmgr (pfd.vaddrLen / 2)
          (kucommsMessageHlr pfd.cbdata.callbacks) l) t :=
      messageManagerTurn_exit l h.pairs.length hbuf
    rw [hlen] at hturn
    exact hturn
  | poke address b => exact hmay.elim

/-- **The outline**: what the thread has seen is its own. -/
def exitOutline (h : Mapped pfd) :
    (exitMachine (InQueue pfd.queueLength) (Bytes.Shorter pfd.queueLength) hz
      pfd).Outline where
  rely i s s' := i = .kernel → Hostile s s'
  guar i s s' := (Outlives s → Outlives s') ∧ (i = .user → Hostile s s')
  safe _ _ _ _ := True
  idle _ _ := True
  post := ExitCall.Post
  rely_refl _ _ _ := ⟨rfl, rfl, id⟩
  rely_trans _ _ _ _ h h' hi :=
    ⟨(h' hi).seen.trans (h hi).seen, (h' hi).thread.trans (h hi).thread,
      (h' hi).stop ∘ (h hi).stop⟩
  guar_rely {i j _ _} hij hguar hj := by
    cases i with
    | kernel => exact absurd hj.symm hij
    | user => exact hguar.2 rfl
  idle_stable _ _ := trivial
  call_ok {i s c} _ hmay := by
    cases i with
    | user =>
      have hret : ∀ (t : ExitState) (G : RGSpec MgrAct MgrAct.Res ExitState),
          (Prog.ret () : MgrProg Unit).Wp G (fun _ _ => True) t := fun t G =>
        Wp.ret_of (P := fun _ => True) (fun _ _ _ _ => trivial) trivial
          (fun _ _ => trivial)
      cases c with
      | kthreadStop =>
        exact ⟨⟨fun _ _ => rfl, fun _ => ⟨rfl, rfl, fun _ => rfl⟩⟩, hret _ _⟩
      | hostile c =>
        cases c with
        | poke address b =>
          exact ⟨⟨id, fun _ => ⟨rfl, rfl, id⟩⟩, hret _ _⟩
        | enter buffer => exact absurd hmay id
        | turn l => exact absurd hmay id
    | kernel =>
      cases c with
      | kthreadStop => exact absurd hmay id
      | hostile c =>
        refine ⟨⟨?_, fun hi => by cases hi⟩, ?_⟩
        · cases c with
          | _ => exact id
        · refine (Wp.view (G := exitSpec pfd.queueLength) _ id (fun _ => True)
            (fun _ _ _ _ => trivial) ?_ ?_ trivial
            (exitCall_wp h hmay _)).mono (fun _ _ hv => hv.1)
          · intro a s r s' _ _ hsem
            refine ⟨hsem, fun hkeep => ⟨⟨fun hs hex => ?_, fun hi => by cases hi⟩,
              trivial⟩⟩
            rw [show s'.shouldStop = s.shouldStop from hkeep.2]
            exact hs (hkeep.1.symm.trans hex)
          · exact fun s s' _ hr => ⟨⟨(hr rfl).seen, (hr rfl).stop⟩, trivial⟩
  ret_ok {i s c v} hpost := by
    cases i with
    | user =>
      cases c with
      | kthreadStop => exact ⟨⟨id, fun _ => ⟨rfl, rfl, id⟩⟩, trivial⟩
      | hostile c =>
        cases c with
        | poke address b => exact ⟨⟨id, fun _ => ⟨rfl, rfl, id⟩⟩, trivial⟩
        | enter buffer => exact absurd hpost id
        | turn l => exact absurd hpost id
    | kernel =>
      refine ⟨⟨fun _ => ?_, fun hi => by cases hi⟩, trivial⟩
      cases c with
      | kthreadStop => exact absurd hpost id
      | hostile c =>
        cases c with
        | poke address b => exact absurd hpost id
        | enter buffer => exact fun hex => by cases hex
        | turn l =>
          cases v with
          | again l' => exact fun hex => by cases hex
          | exit ok => exact fun _ => hpost ok rfl

/-- **The kernel thread outlives the user process.** Whatever the user process
writes to its mapping, and whenever: in every run in which
`message_queue_get_l`, each time it is called, finds both indices below the
queue length and copies the header of a record that is shorter than the queue,
`message_manager_run` has not returned unless `kthread_stop` was called. The
mapping is any that `kucomms_fops_mmap` returns 0 for; its length is a multiple
of the page size. -/
theorem kernel_thread_outlives {env : FopsEnv} {len : UInt64} {r : Registry}
    {fd : OpenFile} {mem bounce : Bytes}
    (hpage : 4096 ∣ len.toNat) (hpos : 0 < len)
    (hmmap : (afterMmap env len r fd).1 = 0)
    {x : (exitMachine (InQueue (afterMmap env len r fd).2.queueLength)
      (Bytes.Shorter (afterMmap env len r fd).2.queueLength) hz
      (afterMmap env len r fd).2).Conf}
    (hreach : Machine.Reach _
      (Machine.start _ ⟨⟨mem, bounce, .woken⟩, false, false⟩) x)
    (hexited : x.st.thread = .exited) : x.st.shouldStop = true := by
  refine (exitOutline (mapped_of_mmap hpage hpos hmmap).1).invariant
    (I := Outlives) (fun hguar => hguar.1) (fun _ => trivial) ?_ hreach hexited
  exact fun hex => by cases hex

end Machine

/-! ## Runs -/

section Schedule

variable {index : UInt64 → Prop} {header : Bytes → Prop}
  [DecidablePred index] [DecidablePred header]

instance (s : Seen) (a : QAct) (r : a.Res) :
    Decidable (a.Finds index header s r) :=
  match a, r with
  | .loadField _, v => inferInstanceAs (Decidable (s.peeked = true → index v))
  | .copyOut _ _, _ => inferInstanceAs (Decidable (_ = true → header _))
  | .loadWord _, _ => inferInstanceAs (Decidable (_ = true → header _))
  | .storeField _ _, _ => inferInstanceAs (Decidable (_ = true → header _))
  | .storeByte _ _, _ => inferInstanceAs (Decidable (_ = true → header _))

instance (L v : UInt64) : Decidable (InQueue L v) :=
  inferInstanceAs (Decidable (_ < _))

instance (L : UInt64) (p : Bytes) : Decidable (p.Shorter L) :=
  inferInstanceAs (Decidable (_ < _))

/-- What an action does, if `message_queue_get_l` finds what it should: the
clock stands, and the handlers succeed. -/
def exitExec (index : UInt64 → Prop) (header : Bytes → Prop)
    [DecidablePred index] [DecidablePred header] (a : MgrAct)
    (s : ExitState) : Option (a.Res × ExitState) :=
  match a with
  | .ring msgq b =>
    let y := b.execAt msgq s.mem
    if b.Finds index header s.seen y.1 then
      some (y.1, { s with
        mem := y.2
        bounce := b.bounced s.bounce y.1
        peeked := b.peeks s.peeked })
    else none
  | .loadStopped => some (false, { s with peeked := false })
  | .kthreadShouldStop => some (s.shouldStop, { s with peeked := false })
  | .clock => some (0, { s with peeked := false })
  | .msghlr _ _ _ _ _ => some ((), { s with peeked := false })
  | .msghlrReturn => some (true, { s with peeked := false })
  | .workhlr => some (true, { s with peeked := false })
  | .timerhlr _ => some ((), { s with peeked := false })
  | .usleep _ => some ((), { s with peeked := false })
  | .loadBuffer _ _ => some ((), { s with peeked := false })
  | .storeCbdata _ _ => some ((), { s with peeked := false })

theorem exitExec_sem (a : MgrAct) (s : ExitState) (r : a.Res) (s' : ExitState)
    (h : exitExec index header a s = some (r, s')) :
    ExitSem index header a s r s' := by
  cases a with
  | ring msgq b =>
    obtain ⟨hfinds, h⟩ := Option.ite_none_right_eq_some.mp h
    obtain ⟨rfl, rfl⟩ := Prod.mk.inj (Option.some.inj h)
    exact .ring msgq b hfinds
  | loadStopped =>
    obtain ⟨rfl, rfl⟩ := Prod.mk.inj (Option.some.inj h)
    exact .loadStopped
  | kthreadShouldStop =>
    obtain ⟨rfl, rfl⟩ := Prod.mk.inj (Option.some.inj h)
    exact .kthreadShouldStop
  | _ =>
    obtain ⟨rfl, rfl⟩ := Prod.mk.inj (Option.some.inj h)
    exact .other _ nofun nofun nofun

/-- The commands of a schedule. -/
abbrev ExitCmd (index : UInt64 → Prop) (header : Bytes → Prop) : Type :=
  (exitMachine index header 100 pageMapped.2).Cmd

namespace ExitCmd

/-- The user process writes a byte of its mapping. -/
def poke {index : UInt64 → Prop} {header : Bytes → Prop} (off : ℕ)
    (b : UInt8) : List (ExitCmd index header) :=
  [.call .user (fun _ =>
    if h : pageMapped.2.vaddr ≤ pageMapped.2.vaddr + off
        ∧ pageMapped.2.vaddr + off
          < pageMapped.2.vaddr + pageMapped.2.vaddrLen.toNat then
      some ⟨.hostile (.poke (pageMapped.2.vaddr + off) b), h⟩
    else none), .finish .user]

/-- The kernel thread makes its next call. -/
def next {index : UInt64 → Prop} {header : Bytes → Prop} :
    ExitCmd index header :=
  .call .kernel (fun s => match hthread : s.thread with
    | .woken => some ⟨.hostile (.enter (fun _ => 0)), hthread⟩
    | .running l => some ⟨.hostile (.turn l), hthread⟩
    | _ => none)

/-- The user process puts the read index 16 bytes before the end of the ring,
and the kernel thread enters its function and begins a turn. -/
def straddleAndTurn {index : UInt64 → Prop} {header : Bytes → Prop} :
    List (ExitCmd index header) :=
  poke 16 0xd0 ++ poke 17 0x07 ++ [next, .finish .kernel, next]

/-- The file is closed. -/
def stop {index : UInt64 → Prop} {header : Bytes → Prop} :
    List (ExitCmd index header) :=
  [.call .user (fun _ => some ⟨.kthreadStop, trivial⟩), .finish .user]

end ExitCmd

/-- The start, with the mapping as it is set up. -/
def exitStart (index : UInt64 → Prop) (header : Bytes → Prop) :
    (exitMachine index header 100 pageMapped.2).Conf :=
  Machine.start _ ⟨⟨initMapping pageMapped.2, fun _ => 0, .woken⟩, false, false⟩

/-- Where a schedule leads. -/
def exitRun {index : UInt64 → Prop} {header : Bytes → Prop}
    [DecidablePred index] [DecidablePred header]
    (cmds : List (ExitCmd index header)) :
    Option (exitMachine index header 100 pageMapped.2).Conf :=
  cmds.foldlM (Machine.perform _ (fun _ _ => exitExec index header))
    (exitStart index header)

/-- The thread has ended. -/
def ExitState.hasExited (s : ExitState) : Bool :=
  match s.thread with
  | .exited => true
  | _ => false

theorem ExitState.exited_of {s : ExitState} (h : s.hasExited = true) :
    s.thread = .exited := by
  unfold hasExited at h
  split at h
  · assumption
  · cases h

/-- **A run to the end**: a record of no data goes to the bounce buffer, the
file is closed, and the thread ends. -/
theorem kernel_thread_outlives_stop :
    ∃ x : (exitMachine (InQueue pageMapped.2.queueLength)
        (Bytes.Shorter pageMapped.2.queueLength) 100 pageMapped.2).Conf,
      x.st.thread = .exited ∧ x.st.shouldStop = true := by
  obtain ⟨cmds, hcmds⟩ : ∃ cmds : List (ExitCmd
      (InQueue pageMapped.2.queueLength)
      (Bytes.Shorter pageMapped.2.queueLength)), cmds =
    ExitCmd.straddleAndTurn ++ [.finish .kernel] ++ ExitCmd.stop
      ++ [ExitCmd.next, .finish .kernel] := ⟨_, rfl⟩
  have hall : (exitRun cmds).any (fun x => x.st.hasExited) = true := by
    subst hcmds
    decide +kernel
  obtain ⟨x, hx, hexited⟩ := (Option.any_eq_true _ _).mp hall
  have hexited := ExitState.exited_of hexited
  exact ⟨x, hexited, kernel_thread_outlives ⟨1, rfl⟩ (by decide)
    (by decide +kernel)
    (Machine.Reach.schedule (fun _ _ => exitExec_sem) hx) hexited⟩

/-- **The thread ends early.** `message_queue_get_begin_l` has found a record
of no data that goes around the end of the ring, and then the user process
moves the read index out of the ring. -/
theorem kernel_thread_ends_early :
    pageMapped.1 = 0 ∧ ∃ x : (exitMachine (fun _ => True) Bytes.NoWrap 100
        pageMapped.2).Conf,
      (exitMachine (fun _ => True) Bytes.NoWrap 100 pageMapped.2).Reach
        (exitStart _ _) x
      ∧ x.st.thread = .exited ∧ x.st.shouldStop = false := by
  obtain ⟨cmds, hcmds⟩ : ∃ cmds : List (ExitCmd (fun _ => True)
      Bytes.NoWrap), cmds =
    ExitCmd.straddleAndTurn
      -- the two flags, `message_queue_get_begin_l`
      ++ [.acts .kernel 36] ++ ExitCmd.poke 17 0xff ++ [.finish .kernel] :=
    ⟨_, rfl⟩
  have hall : (exitRun cmds).any
      (fun x => x.st.hasExited && !x.st.shouldStop) = true := by
    subst hcmds
    decide +kernel
  obtain ⟨x, hx, hexited⟩ := (Option.any_eq_true _ _).mp hall
  obtain ⟨hexited, hstop⟩ := Bool.and_eq_true_iff.mp hexited
  exact ⟨by decide +kernel, x,
    Machine.Reach.schedule (fun _ _ => exitExec_sem) hx,
    ExitState.exited_of hexited, Bool.not_eq_true' _ ▸ hstop⟩

end Schedule
