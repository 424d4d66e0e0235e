import Kucomms.Expansion
import Kucomms.LockedAdd
import Mathlib.Data.List.Infix

/-!
# Senders that share a ring

The threads of a kernel module send to the user process with
`message_queue_add_tx0_locked`, while the user process gets from the same
ring, and takes no lock. `addTx0Locked_lossless` is about the ring at the end,
when nobody gets anything; this is the system at work.

As long as lock attempts exclude, the senders together are one producer:
a thread that is inside adds as if it were alone with the receiver, since
another can neither come in nor touch the ring from outside
(`SenderStep.sender_rely`). So `senders_fifo`: what the receiver gets is a
prefix of what was accepted, and what was accepted is what the senders report,
each one's messages in the order in which it sent them.
-/

open Prog

variable {ι : Type}

/-- Who takes part. -/
inductive TxParty (ι : Type) where
  | sender (i : ι)
  | receiver
  deriving DecidableEq

/-- **The calls.** -/
inductive TxCall where
  /-- `message_queue_add_tx0_locked` -/
  | add (m : DataMessage)
  /-- `message_queue_get_l`, by the user process. -/
  | get (buffer : Bytes) (bufferLen : UInt64)

namespace TxCall

/-- What a call returns. -/
@[reducible] def Ret : TxCall → Type
  | add _ => Bool
  | get _ _ => GetResult

/-- The programs, on the transmit ring of a file. -/
def prog (pfd : KucommsFileData) : (c : TxCall) →
    Prog (LockAct (ℕ × QAct)) (LockAct.Res fun a => a.2.Res) c.Ret
  | add m => messageQueueAddTx0Locked pfd m.mem
  | get buffer bufferLen =>
    ((messageQueueGetL (pfd.msgmgr.txMsgqLenArray 0) buffer bufferLen).ringAt
      (pfd.msgmgr.txMsgqArray 0)).inLock

/-- The message a call publishes if it stores `m_wr`. -/
def msg : TxCall → DataMessage
  | add m => m
  | get _ _ => .empty

end TxCall

/-- **The ring, the mutex, and what the parties observe.** -/
structure TxState (ι : Type) where
  traced : Traced
  /-- Who holds the mutex. -/
  owner : Option ι
  /-- The threads at work after an interrupted attempt. -/
  barging : List ι
  /-- The messages accepted, each with who sent it. -/
  log : List (ι × DataMessage)
  /-- The messages of the additions that returned `true`. -/
  sent : List (ι × DataMessage)
  /-- The messages of the gets that returned `true`. -/
  received : List DataMessage

/-- A ring just set up, and nobody has called anything. -/
def TxState.start (ι : Type) (bufferLength : UInt64) (h : MessageQueueHeader) :
    TxState ι :=
  ⟨Traced.init bufferLength h, none, [], [], [], []⟩

/-- What an access to the ring publishes. -/
def publishedBy (m : DataMessage) : TxParty ι → QAct → List (ι × DataMessage)
  | .sender i, .storeField .wr _ => [(i, m)]
  | _, _ => []

/-- The messages of one sender. -/
def sentBy [DecidableEq ι] (i : ι) (l : List (ι × DataMessage)) :
    List DataMessage :=
  (l.filter (fun e => e.1 = i)).map Prod.snd

variable [DecidableEq ι]

/-- **What an action does.** Lock attempts exclude: one returns only while no
interrupted thread is at work, and is interrupted only while nobody holds the
mutex. -/
inductive TxSem (addr : ℕ) : TxParty ι → TxCall → (a : LockAct (ℕ × QAct)) →
    TxState ι → LockAct.Res (fun a => a.2.Res) a → TxState ι → Prop where
  | acquire {i : ι} {c : TxCall} {s : TxState ι} (hfree : s.owner = none)
      (hbarging : s.barging = []) :
      TxSem addr (.sender i) c .lock s .acquired { s with owner := some i }
  | interrupt {i : ι} {c : TxCall} {s : TxState ι} (hfree : s.owner = none)
      (hbarging : s.barging = []) :
      TxSem addr (.sender i) c .lock s .interrupted
        { s with barging := i :: s.barging }
  | unlock {i : ι} {c : TxCall} {s : TxState ι} :
      TxSem addr (.sender i) c .unlock s ()
        { s with owner := none, barging := s.barging.erase i }
  | access {x : TxParty ι} {c : TxCall} {s : TxState ι} (a : QAct) :
      TxSem addr x c (.act (addr, a)) s (s.traced.exec (fun _ => c.msg) a).1
        { s with
          traced := (s.traced.exec (fun _ => c.msg) a).2
          log := s.log ++ publishedBy c.msg x a }

/-- What is recorded when a call returns. -/
def txReturn (s : TxState ι) : TxParty ι → (c : TxCall) → c.Ret → TxState ι
  | .sender i, .add m, ok =>
    if ok = true then { s with sent := s.sent ++ [(i, m)] } else s
  | _, .get _ _, g =>
    if g.ok = true then
      { s with received := s.received ++ [DataMessage.ofMem g.buffer] }
    else s
  | _, _, _ => s

/-- **Any number of senders and a receiver.** A message is shorter than the
address space. -/
def txMachine (ι : Type) [DecidableEq ι] (pfd : KucommsFileData) :
    Machine (TxParty ι) (LockAct (ℕ × QAct)) (LockAct.Res fun a => a.2.Res)
      (TxState ι) where
  Call := TxCall
  Ret := TxCall.Ret
  prog := TxCall.prog pfd
  may
    | .sender _, _, .add m => m.size < 2 ^ 64
    | .receiver, _, .get _ _ => True
    | _, _, _ => False
  onCall _ _ s := s
  sem := TxSem (pfd.msgmgr.txMsgqArray 0)
  onRet x c v s := txReturn s x c v

/-! ## Who is inside -/

namespace TxState

/-- **Who is between the return of its lock attempt and its unlock.** -/
inductive Inside (s : TxState ι) : Option ι → Prop where
  | nobody (howner : s.owner = none) (hbarging : s.barging = []) :
      Inside s none
  | holder (i : ι) (howner : s.owner = some i) (hbarging : s.barging = []) :
      Inside s (some i)
  | barger (i : ι) (howner : s.owner = none) (hbarging : s.barging = [i]) :
      Inside s (some i)

omit [DecidableEq ι] in
/-- **There is at most one.** -/
theorem Inside.unique {s : TxState ι} {o o' : Option ι} (h : s.Inside o)
    (h' : s.Inside o') : o = o' := by
  cases h <;> cases h' <;> simp_all

omit [DecidableEq ι] in
theorem Inside.congr {s s' : TxState ι} {o : Option ι} (h : s.Inside o)
    (howner : s'.owner = s.owner) (hbarging : s'.barging = s.barging) :
    s'.Inside o := by
  cases h with
  | nobody ho hb => exact .nobody (howner.trans ho) (hbarging.trans hb)
  | holder i ho hb => exact .holder i (howner.trans ho) (hbarging.trans hb)
  | barger i ho hb => exact .barger i (howner.trans ho) (hbarging.trans hb)

/-- **The invariant.** -/
structure Inv (L : ℕ) (s : TxState ι) : Prop where
  ring : s.traced.Inv L
  /-- The mutex excludes. -/
  inside : ∃ o, s.Inside o
  log : s.log.map Prod.snd = s.traced.accepted
  /-- What a sender reports was accepted, in its order. -/
  sent : ∀ i, sentBy i s.sent <+: sentBy i s.log
  received : s.received <+: s.traced.accepted

end TxState

/-! ## What the parties do to each other -/

section Steps

variable {L : ℕ} {i j : ι} {s t u : TxState ι}

/-- **What a sender does.** -/
structure SenderStep (L : ℕ) (i : ι) (s s' : TxState ι) : Prop where
  inv : s.Inv L → s'.Inv L
  /-- It adds to the ring as a producer does. -/
  ring : WriterStep L s.traced s'.traced
  /-- From outside it touches nothing. -/
  outside : s.Inv L → ¬ s.Inside (some i) →
    s'.traced = s.traced ∧ s'.log = s.log
  /-- It neither lets others in nor puts them out. -/
  others : s.Inv L → ∀ j, j ≠ i → (s'.Inside (some j) ↔ s.Inside (some j))
  log : ∀ j, j ≠ i → sentBy j s'.log = sentBy j s.log
  sent : ∀ j, j ≠ i → sentBy j s'.sent = sentBy j s.sent
  received : s'.received = s.received

/-- **What the receiver does.** -/
structure ReceiverStep (L : ℕ) (s s' : TxState ι) : Prop where
  inv : s.Inv L → s'.Inv L
  ring : ReaderStep L s.traced s'.traced
  owner : s'.owner = s.owner
  barging : s'.barging = s.barging
  log : s'.log = s.log
  sent : s'.sent = s.sent

/-- **What a sender relies on**: while it is inside, nobody but the receiver
does anything to the ring. -/
structure SenderRely (L : ℕ) (i : ι) (s s' : TxState ι) : Prop where
  inv : s.Inv L → s'.Inv L
  inside : s.Inv L → (s'.Inside (some i) ↔ s.Inside (some i))
  ring : s.Inv L → s.Inside (some i) →
    ReaderStep L s.traced s'.traced ∧ s'.log = s.log
  log : sentBy i s'.log = sentBy i s.log
  sent : sentBy i s'.sent = sentBy i s.sent

/-- **What the receiver relies on**: all senders together are one producer. -/
structure ReceiverRely (L : ℕ) (s s' : TxState ι) : Prop where
  inv : s.Inv L → s'.Inv L
  ring : WriterStep L s.traced s'.traced
  received : s'.received = s.received

theorem SenderRely.refl (s : TxState ι) : SenderRely L i s s :=
  ⟨id, fun _ => Iff.rfl, fun _ _ => ⟨.refl _, rfl⟩, rfl, rfl⟩

theorem SenderRely.trans (h : SenderRely L i s t) (h' : SenderRely L i t u) :
    SenderRely L i s u := by
  refine ⟨h'.inv ∘ h.inv, fun hs => (h'.inside (h.inv hs)).trans (h.inside hs),
    fun hs hi => ?_, h'.log.trans h.log, h'.sent.trans h.sent⟩
  obtain ⟨hring, hlog⟩ := h.ring hs hi
  obtain ⟨hring', hlog'⟩ := h'.ring (h.inv hs) ((h.inside hs).mpr hi)
  exact ⟨hring.trans hring', hlog'.trans hlog⟩

theorem ReceiverRely.refl (s : TxState ι) : ReceiverRely L s s :=
  ⟨id, .refl _, rfl⟩

theorem ReceiverRely.trans (h : ReceiverRely L s t)
    (h' : ReceiverRely L t u) : ReceiverRely L s u :=
  ⟨h'.inv ∘ h.inv, h.ring.trans h'.ring, h'.received.trans h.received⟩

/-- **A sender is nothing to another one** that is inside. -/
theorem SenderStep.sender_rely (h : SenderStep L i s t) (hij : j ≠ i) :
    SenderRely L j s t := by
  refine ⟨h.inv, fun hs => h.others hs j hij, fun hs hj => ?_, h.log j hij,
    h.sent j hij⟩
  obtain ⟨htraced, hlog⟩ := h.outside hs (fun hi =>
    hij (Option.some.inj (hj.unique hi)))
  exact ⟨htraced ▸ .refl _, hlog⟩

theorem SenderStep.receiver_rely (h : SenderStep L i s t) :
    ReceiverRely L s t :=
  ⟨h.inv, h.ring, h.received⟩

theorem ReceiverStep.sender_rely (h : ReceiverStep L s t) :
    SenderRely L i s t :=
  ⟨h.inv, fun _ => ⟨fun hi => hi.congr h.owner.symm h.barging.symm,
      fun hi => hi.congr h.owner h.barging⟩,
    fun _ _ => ⟨h.ring, h.log⟩, congrArg _ h.log, congrArg _ h.sent⟩

/-- What the others may do to a party. -/
def TxRely (L : ℕ) : TxParty ι → TxState ι → TxState ι → Prop
  | .sender i => SenderRely L i
  | .receiver => ReceiverRely L

/-- What a party does. -/
def TxGuar (L : ℕ) : TxParty ι → TxState ι → TxState ι → Prop
  | .sender i => SenderStep L i
  | .receiver => ReceiverStep L

theorem TxRely.refl (x : TxParty ι) (s : TxState ι) : TxRely L x s s := by
  cases x with
  | sender i => exact SenderRely.refl s
  | receiver => exact ReceiverRely.refl s

theorem TxRely.trans (x : TxParty ι) (h : TxRely L x s t)
    (h' : TxRely L x t u) : TxRely L x s u := by
  cases x with
  | sender i => exact SenderRely.trans h h'
  | receiver => exact ReceiverRely.trans h h'

theorem TxGuar.rely {x y : TxParty ι} (hxy : x ≠ y) (h : TxGuar L x s t) :
    TxRely L y s t := by
  cases x with
  | sender i =>
    cases y with
    | sender j =>
      exact SenderStep.sender_rely h (fun hij => hxy (by rw [hij]))
    | receiver => exact SenderStep.receiver_rely h
  | receiver =>
    cases y with
    | sender j => exact ReceiverStep.sender_rely h
    | receiver => exact absurd rfl hxy

end Steps

/-! ## A sender's call -/

section Sender

variable {L : ℕ} {i j : ι} {s t : TxState ι} {m : DataMessage}
  {l l' : List (ι × DataMessage)}

theorem sentBy_append : sentBy i (l ++ l') = sentBy i l ++ sentBy i l' := by
  unfold sentBy
  rw [List.filter_append, List.map_append]

theorem sentBy_self : sentBy i [(i, m)] = [m] := by
  simp [sentBy]

theorem sentBy_of_ne (h : j ≠ i) : sentBy j [(i, m)] = [] := by
  simp [sentBy, h.symm]

omit [DecidableEq ι] in
/-- What is published is what is accepted. -/
theorem publishedBy_snd (i : ι) (a : QAct) (s : Traced) :
    (s.exec (fun _ => m) a).2.accepted
      = s.accepted ++ (publishedBy m (.sender i) a).map Prod.snd := by
  cases a with
  | storeField f v =>
    cases f with
    | wr => rfl
    | _ => exact (List.append_nil _).symm
  | _ => exact (List.append_nil _).symm

theorem publishedBy_self (a : QAct) :
    sentBy i (publishedBy m (.sender i) a)
      = (publishedBy m (.sender i) a).map Prod.snd := by
  cases a with
  | storeField f v =>
    cases f with
    | wr => exact sentBy_self
    | _ => rfl
  | _ => rfl

theorem publishedBy_of_ne (a : QAct) (h : j ≠ i) :
    sentBy j (publishedBy m (.sender i) a) = [] := by
  cases a with
  | storeField f v =>
    cases f with
    | wr => exact sentBy_of_ne h
    | _ => rfl
  | _ => rfl

/-- **The ring is accessed** from inside. -/
theorem access_step {a : QAct} (hi : s.Inside (some i))
    (hw : WriterStep L s.traced (s.traced.exec (fun _ => m) a).2) :
    SenderStep L i s { s with
      traced := (s.traced.exec (fun _ => m) a).2
      log := s.log ++ publishedBy m (.sender i) a } where
  inv h := by
    obtain ⟨o, ho⟩ := h.inside
    refine ⟨hw.inv h.ring, ⟨o, ho.congr rfl rfl⟩, ?_, fun k => ?_,
      h.received.trans hw.accepted⟩
    · rw [publishedBy_snd i, List.map_append, h.log]
    · rw [sentBy_append]
      exact (h.sent k).trans (List.prefix_append _ _)
  ring := hw
  outside _ hout := absurd hi hout
  others _ _ _ := ⟨fun h => h.congr rfl rfl, fun h => h.congr rfl rfl⟩
  log j hj := by rw [sentBy_append, publishedBy_of_ne a hj, List.append_nil]
  sent _ _ := rfl
  received := rfl

/-- **The mutex changes hands**, and nothing else happens. -/
theorem lock_step {o o' : Option ι} {owner : Option ι} {barging : List ι}
    (hs : s.Inv L → s.Inside o)
    (hs' : s.Inv L →
      ({ s with owner := owner, barging := barging } : TxState ι).Inside o')
    (hother : ∀ j, j ≠ i → (o' = some j ↔ o = some j)) :
    SenderStep L i s { s with owner := owner, barging := barging } where
  inv h := ⟨h.ring, ⟨o', hs' h⟩, h.log, h.sent, h.received⟩
  ring := .refl _
  outside _ _ := ⟨rfl, rfl⟩
  others h j hj := by
    refine ⟨fun hin => ?_, fun hin => ?_⟩
    · have := (hother j hj).mp ((hs' h).unique hin)
      exact this ▸ hs h
    · have := (hother j hj).mpr ((hs h).unique hin)
      exact this ▸ hs' h
  log _ _ := rfl
  sent _ _ := rfl
  received := rfl

/-- **A sender between two calls**: it is outside, and what it reports is
what was accepted from it. -/
structure Quiet (L : ℕ) (i : ι) (s : TxState ι) : Prop where
  inv : s.Inv L
  outside : ¬ s.Inside (some i)
  log : sentBy i s.log = sentBy i s.sent

/-- **A sender that is inside**, and has published the messages `ms` since it
came in. -/
structure Working (L : ℕ) (i : ι) (ms : List DataMessage) (s : TxState ι) :
    Prop where
  inv : s.Inv L
  inside : s.Inside (some i)
  log : sentBy i s.log = sentBy i s.sent ++ ms

/-- **A sender that has left**, and has not returned. -/
structure Leaving (L : ℕ) (i : ι) (ms : List DataMessage) (s : TxState ι) :
    Prop where
  inv : s.Inv L
  outside : ¬ s.Inside (some i)
  log : sentBy i s.log = sentBy i s.sent ++ ms

theorem Quiet.rely (h : Quiet L i s) (hr : SenderRely L i s t) :
    Quiet L i t :=
  ⟨hr.inv h.inv, fun hi => h.outside ((hr.inside h.inv).mp hi),
    hr.log.trans (h.log.trans hr.sent.symm)⟩

theorem Working.rely {ms : List DataMessage} (h : Working L i ms s)
    (hr : SenderRely L i s t) : Working L i ms t :=
  ⟨hr.inv h.inv, (hr.inside h.inv).mpr h.inside, by
    rw [hr.log, hr.sent]
    exact h.log⟩

theorem Leaving.rely {ms : List DataMessage} (h : Leaving L i ms s)
    (hr : SenderRely L i s t) : Leaving L i ms t :=
  ⟨hr.inv h.inv, fun hi => h.outside ((hr.inside h.inv).mp hi), by
    rw [hr.log, hr.sent]
    exact h.log⟩

/-- **A sender comes in.** -/
theorem Quiet.enter (h : Quiet L i s) {owner : Option ι} {barging : List ι}
    (hfree : s.owner = none) (hbarging : s.barging = [])
    (hin : ({ s with owner := owner, barging := barging } : TxState ι).Inside
      (some i)) :
    SenderStep L i s { s with owner := owner, barging := barging }
      ∧ Working L i [] { s with owner := owner, barging := barging } := by
  have hstep : SenderStep L i s
      { s with owner := owner, barging := barging } :=
    lock_step (fun _ => .nobody hfree hbarging) (fun _ => hin)
      (fun j hj => ⟨fun h => absurd (Option.some.inj h).symm hj,
        fun h => nomatch h⟩)
  exact ⟨hstep, hstep.inv h.inv, hin, h.log.trans (List.append_nil _).symm⟩

/-- **A sender goes out.** -/
theorem Working.leave {ms : List DataMessage} (h : Working L i ms s) :
    SenderStep L i s
        { s with owner := none, barging := s.barging.erase i }
      ∧ Leaving L i ms
        { s with owner := none, barging := s.barging.erase i } := by
  have hout : ({ s with owner := none, barging := s.barging.erase i } :
      TxState ι).Inside none := by
    refine .nobody rfl ?_
    cases h.inside with
    | holder _ _ hb => rw [hb]; rfl
    | barger _ _ hb => rw [hb]; exact List.erase_cons_head ..
  have hstep := lock_step (fun _ => h.inside) (fun _ : s.Inv L => hout)
    (fun j hj => ⟨(fun h => nomatch h),
      fun h => absurd (Option.some.inj h).symm hj⟩)
  exact ⟨hstep, hstep.inv h.inv, (fun hi => nomatch hi.unique hout), h.log⟩

/-- What a party meets inside a call. -/
def txSpec (L addr : ℕ) (x : TxParty ι) (c : TxCall) :
    RGSpec (LockAct (ℕ × QAct)) (LockAct.Res fun a => a.2.Res) (TxState ι) where
  sem := TxSem addr x c
  safe _ _ := True
  rely := TxRely L x
  guar := TxGuar L x
  rely_refl := TxRely.refl x
  rely_trans := TxRely.trans x

/-- **A sender at work on the ring**: what it has published is what was
accepted after the first `n` messages. -/
structure Adding (L : ℕ) (i : ι) (n : ℕ) (s : TxState ι) : Prop where
  working : Working L i (s.traced.accepted.drop n) s
  le : n ≤ s.traced.accepted.length

theorem Adding.rely {n : ℕ} (h : Adding L i n s) (hr : SenderRely L i s t) :
    ReaderStep L s.traced t.traced ∧ Adding L i n t := by
  obtain ⟨hring, -⟩ := hr.ring h.working.inv h.working.inside
  exact ⟨hring, hring.accepted ▸ h.working.rely hr, hring.accepted ▸ h.le⟩

theorem Adding.access {n : ℕ} {a : QAct} (h : Adding L i n s)
    (hw : WriterStep L s.traced (s.traced.exec (fun _ => m) a).2) :
    SenderStep L i s { s with
        traced := (s.traced.exec (fun _ => m) a).2
        log := s.log ++ publishedBy m (.sender i) a }
      ∧ Adding L i n { s with
        traced := (s.traced.exec (fun _ => m) a).2
        log := s.log ++ publishedBy m (.sender i) a } := by
  have hstep := access_step h.working.inside hw
  refine ⟨hstep, ⟨hstep.inv h.working.inv, h.working.inside.congr rfl rfl, ?_⟩,
    h.le.trans hw.accepted.length_le⟩
  show sentBy i (s.log ++ _) = sentBy i s.sent ++ List.drop n _
  rw [sentBy_append, publishedBy_self, publishedBy_snd i,
    List.drop_append_of_le_length h.le, h.working.log, List.append_assoc]

variable {pfd : KucommsFileData}

/-- **What a sender does under the mutex**: it publishes the message exactly
if it returns `true`. -/
theorem messageQueueAddTx0_wp {addr : ℕ}
    (hL : 0 < (pfd.msgmgr.txMsgqLenArray 0).toNat
      ∧ (pfd.msgmgr.txMsgqLenArray 0).toNat < 2 ^ 63)
    (hm : m.size < 2 ^ 64) (haddr : pfd.msgmgr.txMsgqArray 0 = addr)
    (hs : Working (pfd.msgmgr.txMsgqLenArray 0).toNat i [] s) :
    (messageQueueAddTx0 pfd m.mem).inLock.Wp
      (txSpec (pfd.msgmgr.txMsgqLenArray 0).toNat addr (.sender i) (.add m))
      (fun ok => Working (pfd.msgmgr.txMsgqLenArray 0).toNat i
        (if ok = true then [m] else [])) s := by
  unfold messageQueueAddTx0 Prog.inLock QProg.ringAt
  rw [embed_embed]
  refine (Wp.embed _ _ _ TxState.traced
    (Adding (pfd.msgmgr.txMsgqLenArray 0).toNat i s.traced.accepted.length)
    (fun _ _ _ _ => trivial) ?_ (fun t u ht hr => ht.rely hr)
    ⟨by rw [List.drop_length]; exact hs, le_rfl⟩
    (messageQueueAddL_wp hL hm (fun _ => rfl) hs.inv.ring rfl)).mono ?_
  · rintro a t r u ht - hsem
    cases hsem
    exact ⟨rfl, fun hw => ht.access hw⟩
  · rintro ok t ⟨hpost, ht⟩
    have hdrop : t.traced.accepted.drop s.traced.accepted.length
        = if ok = true then [m] else [] := by
      rw [hpost.accepted, List.drop_left]
    exact hdrop ▸ ht.working

/-- **A sender's call**, from the lock attempt to the return. -/
theorem messageQueueAddTx0Locked_wp
    (hL : 0 < (pfd.msgmgr.txMsgqLenArray 0).toNat
      ∧ (pfd.msgmgr.txMsgqLenArray 0).toNat < 2 ^ 63)
    (hm : m.size < 2 ^ 64)
    (hs : Quiet (pfd.msgmgr.txMsgqLenArray 0).toNat i s) :
    (messageQueueAddTx0Locked pfd m.mem).Wp
      (txSpec (pfd.msgmgr.txMsgqLenArray 0).toNat
        (pfd.msgmgr.txMsgqArray 0) (.sender i) (.add m))
      (fun ok => Leaving (pfd.msgmgr.txMsgqLenArray 0).toNat i
        (if ok = true then [m] else [])) s := by
  refine Wp.act_of (P := Quiet _ i) (fun _ _ h hr => h.rely hr) hs
    (fun t ht => ⟨trivial, fun r u hsem => ?_⟩)
  obtain ⟨hstep, hin⟩ : SenderStep (pfd.msgmgr.txMsgqLenArray 0).toNat i t u
      ∧ Working (pfd.msgmgr.txMsgqLenArray 0).toNat i [] u := by
    cases hsem with
    | acquire hfree hbarging =>
      exact ht.enter hfree hbarging (.holder i rfl hbarging)
    | interrupt hfree hbarging =>
      exact ht.enter hfree hbarging (.barger i hfree (by rw [hbarging]))
  refine ⟨hstep, ?_⟩
  show (unlockAfter (messageQueueAddTx0 pfd m.mem)).Wp _ _ u
  refine Wp.bind ((messageQueueAddTx0_wp hL hm rfl hin).mono
    (fun ok v hv => ?_))
  refine Wp.act_of (P := Working _ i _) (fun _ _ h hr => h.rely hr) hv
    (fun w hw => ⟨trivial, fun _ z hsem => ?_⟩)
  cases hsem
  obtain ⟨hleave, hout⟩ := hw.leave
  exact ⟨hleave, Wp.ret_of (P := Leaving _ i _) (fun _ _ h hr => h.rely hr)
    hout (fun _ h => h)⟩

end Sender

/-! ## The receiver's call -/

section Receiver

variable {L : ℕ} {s t : TxState ι} {m : DataMessage}

omit [DecidableEq ι] in
theorem publishedBy_receiver (a : QAct) :
    publishedBy (ι := ι) m .receiver a = [] := rfl

/-- **A receiver between two calls**: it has received all it consumed. -/
structure Received (L : ℕ) (s : TxState ι) : Prop where
  inv : s.Inv L
  length : s.received.length = s.traced.taken

theorem Received.rely (h : Received L s) (hr : ReceiverRely L s t) :
    Received L t :=
  ⟨hr.inv h.inv, by rw [hr.received, hr.ring.taken, h.length]⟩

/-- **The receiver accesses the ring.** -/
theorem receive_step {a : QAct}
    (hr : ReaderStep L s.traced (s.traced.exec (fun _ => m) a).2) :
    ReceiverStep L s { s with
      traced := (s.traced.exec (fun _ => m) a).2
      log := s.log ++ publishedBy m .receiver a } where
  inv h := by
    obtain ⟨o, ho⟩ := h.inside
    refine ⟨hr.inv h.ring, ⟨o, ho.congr rfl rfl⟩, ?_, fun k => ?_, ?_⟩
    · rw [publishedBy_receiver, List.append_nil, h.log]
      exact hr.accepted.symm
    · rw [publishedBy_receiver, List.append_nil]
      exact h.sent k
    · exact hr.accepted.symm ▸ h.received
  ring := hr
  owner := rfl
  barging := rfl
  log := List.append_nil _
  sent := rfl

/-- **A get is correct**, whatever the senders do. -/
theorem get_wp {pfd : KucommsFileData} {buffer : Bytes} {bufferLen : UInt64}
    (hL : (pfd.msgmgr.txMsgqLenArray 0).toNat < 2 ^ 63)
    (hs : Received (pfd.msgmgr.txMsgqLenArray 0).toNat s) :
    ((TxCall.get buffer bufferLen).prog pfd).Wp
      (txSpec (pfd.msgmgr.txMsgqLenArray 0).toNat
        (pfd.msgmgr.txMsgqArray 0) .receiver (.get buffer bufferLen))
      (fun g t => t.Inv (pfd.msgmgr.txMsgqLenArray 0).toNat
        ∧ ∃ n, GetPost (pfd.msgmgr.txMsgqLenArray 0).toNat
          t.received.length n bufferLen g t.traced) s := by
  have hget : (messageQueueGetL (pfd.msgmgr.txMsgqLenArray 0) buffer
      bufferLen).Wp (readerSpec _ fun _ => .empty) _ s.traced :=
    messageQueueGetL_wp hL hs.inv.ring hs.length.symm
  simp only [TxCall.prog, Prog.inLock, QProg.ringAt, embed_embed]
  refine (Wp.embed _ _ _ TxState.traced
    (fun t => t.Inv (pfd.msgmgr.txMsgqLenArray 0).toNat
      ∧ t.received = s.received)
    (fun _ _ _ _ => trivial) ?_ ?_ ⟨hs.inv, rfl⟩ hget).mono ?_
  · rintro a t r u ht - hsem
    cases hsem
    refine ⟨rfl, fun hr => ?_⟩
    have hstep := receive_step (m := .empty) hr
    exact ⟨hstep, hstep.inv ht.1, ht.2⟩
  · intro t u ht hr
    have hr : ReceiverRely _ t u := hr
    exact ⟨hr.ring, hr.inv ht.1, hr.received.trans ht.2⟩
  · rintro g t ⟨hpost, hinv, hrec⟩
    exact ⟨hinv, _, hrec ▸ hpost⟩

end Receiver

/-! ## The outline -/

/-- What holds while a party is idle. -/
def TxIdle (L : ℕ) : TxParty ι → TxState ι → Prop
  | .sender i => Quiet L i
  | .receiver => Received L

/-- **What holds when a call is about to return.** -/
def TxPost (L : ℕ) : TxParty ι → (c : TxCall) → c.Ret → TxState ι → Prop
  | .sender i, .add m, ok => Leaving L i (if ok = true then [m] else [])
  | .receiver, .get _ bufferLen, g => fun s => s.Inv L
    ∧ ∃ n, GetPost L s.received.length n bufferLen g s.traced
  | _, _, _ => fun _ => False

section Outline

variable {L : ℕ} {i : ι} {s : TxState ι}

/-- A sender that returns has reported what was accepted from it. -/
theorem Leaving.returns {m : DataMessage} {ok : Bool}
    (h : Leaving L i (if ok = true then [m] else []) s) :
    SenderStep L i s (txReturn s (.sender i) (.add m) ok)
      ∧ Quiet L i (txReturn s (.sender i) (.add m) ok) := by
  cases ok with
  | false =>
    exact ⟨⟨id, .refl _, fun _ _ => ⟨rfl, rfl⟩, fun _ _ _ => Iff.rfl,
        fun _ _ => rfl, fun _ _ => rfl, rfl⟩,
      ⟨h.inv, h.outside, h.log.trans (List.append_nil _)⟩⟩
  | true =>
    have hsent : ∀ j, sentBy j (s.sent ++ [(i, m)])
        = sentBy j s.sent ++ sentBy j [(i, m)] := fun j => sentBy_append
    have hself : sentBy i s.log = sentBy i (s.sent ++ [(i, m)]) := by
      rw [hsent, sentBy_self]
      exact h.log
    have hother : ∀ j, j ≠ i →
        sentBy j (s.sent ++ [(i, m)]) = sentBy j s.sent := fun j hj => by
      rw [hsent, sentBy_of_ne hj, List.append_nil]
    have hinv : TxState.Inv L { s with sent := s.sent ++ [(i, m)] } := by
      obtain ⟨o, ho⟩ := h.inv.inside
      refine ⟨h.inv.ring, ⟨o, ho.congr rfl rfl⟩, h.inv.log, fun j => ?_,
        h.inv.received⟩
      by_cases hj : j = i
      · subst hj
        exact hself ▸ List.prefix_rfl
      · exact hother j hj ▸ h.inv.sent j
    exact ⟨⟨fun _ => hinv, .refl _, fun _ _ => ⟨rfl, rfl⟩,
        fun _ _ _ => ⟨fun hin => hin.congr rfl rfl, fun hin => hin.congr rfl rfl⟩,
        fun _ _ => rfl, hother, rfl⟩,
      ⟨hinv, fun hin => h.outside (hin.congr rfl rfl), hself⟩⟩

/-- A get that returns has received what it consumed. -/
theorem receiver_returns (buffer : Bytes) {bufferLen : UInt64} {n : ℕ}
    {g : GetResult} (h : s.Inv L)
    (hpost : GetPost L s.received.length n bufferLen g s.traced) :
    ReceiverStep L s (txReturn s .receiver (.get buffer bufferLen) g)
      ∧ Received L (txReturn s .receiver (.get buffer bufferLen) g) := by
  have htaken := hpost.taken
  show ReceiverStep L s (if g.ok = true then _ else s)
    ∧ Received L (if g.ok = true then _ else s)
  split
  · next hok =>
    rw [if_pos hok] at htaken
    obtain ⟨hlt, hmsg⟩ := List.getElem?_eq_some_iff.mp (hpost.message hok).2.1
    have hrec : s.received ++ [DataMessage.ofMem g.buffer]
        <+: s.traced.accepted :=
      hmsg ▸ List.concat_get_prefix h.received hlt
    have hinv : TxState.Inv L { s with
        received := s.received ++ [DataMessage.ofMem g.buffer] } := by
      obtain ⟨o, ho⟩ := h.inside
      exact ⟨h.ring, ⟨o, ho.congr rfl rfl⟩, h.log, h.sent, hrec⟩
    exact ⟨⟨fun _ => hinv, .refl _, rfl, rfl, rfl, rfl⟩, hinv,
      List.length_append.trans htaken.symm⟩
  · next hok =>
    rw [if_neg hok] at htaken
    exact ⟨⟨id, .refl _, rfl, rfl, rfl, rfl⟩, h, htaken.symm⟩

/-- **The proof of the system.** -/
def txOutline (pfd : KucommsFileData)
    (hL : 0 < (pfd.msgmgr.txMsgqLenArray 0).toNat
      ∧ (pfd.msgmgr.txMsgqLenArray 0).toNat < 2 ^ 63) :
    (txMachine ι pfd).Outline where
  rely := TxRely (pfd.msgmgr.txMsgqLenArray 0).toNat
  guar := TxGuar (pfd.msgmgr.txMsgqLenArray 0).toNat
  safe _ _ _ _ := True
  idle := TxIdle (pfd.msgmgr.txMsgqLenArray 0).toNat
  post := TxPost (pfd.msgmgr.txMsgqLenArray 0).toNat
  rely_refl := TxRely.refl
  rely_trans x _ _ _ := TxRely.trans x
  guar_rely := TxGuar.rely
  idle_stable {x s s'} h hr := by
    cases x with
    | sender i => exact Quiet.rely h hr
    | receiver => exact Received.rely h hr
  call_ok {x s c} h hmay := by
    match x, c, hmay with
    | .sender i, .add m, hmay =>
      exact ⟨⟨id, .refl _, fun _ _ => ⟨rfl, rfl⟩, fun _ _ _ => Iff.rfl,
          fun _ _ => rfl, fun _ _ => rfl, rfl⟩,
        messageQueueAddTx0Locked_wp hL hmay h⟩
    | .receiver, .get buffer bufferLen, _ =>
      exact ⟨⟨id, .refl _, rfl, rfl, rfl, rfl⟩, get_wp hL.2 h⟩
  ret_ok {x s c v} h := by
    match x, c, v, h with
    | .sender i, .add m, ok, h => exact Leaving.returns h
    | .receiver, .get buffer bufferLen, g, h =>
      exact receiver_returns buffer h.1 h.2.choose_spec

/-- A ring just set up, as the outline starts from it. -/
theorem TxState.start_idle (hL : 0 < L) (bufferLength : UInt64)
    (h : MessageQueueHeader) (x : TxParty ι) :
    TxIdle L x (TxState.start ι bufferLength h) := by
  have hinv : (TxState.start ι bufferLength h).Inv L :=
    ⟨.init hL _ _, ⟨none, .nobody rfl rfl⟩, rfl, fun _ => List.prefix_rfl,
      List.prefix_rfl⟩
  have hout : (TxState.start ι bufferLength h).Inside none :=
    .nobody rfl rfl
  cases x with
  | sender i => exact ⟨hinv, (fun hi => nomatch hi.unique hout), rfl⟩
  | receiver => exact ⟨hinv, rfl⟩

end Outline

/-! ## The result -/

/-- The invariant is kept by every step. -/
theorem TxGuar.inv {L : ℕ} {x : TxParty ι} {s t : TxState ι}
    (h : TxGuar L x s t) (hs : s.Inv L) : t.Inv L := by
  cases x with
  | sender i => exact SenderStep.inv h hs
  | receiver => exact ReceiverStep.inv h hs

/-- **Senders that share a ring are one producer.** As long as lock attempts
exclude, and however the calls of any number of threads and of the user
process run into each other: what the receiver got is, in order, what was
accepted first; between two gets the ring holds the rest. What was accepted
from a sender is what it reports as sent, in the order of its calls, and the
message of a call that is about to return `true`. -/
theorem senders_fifo {bufferLength : UInt64}
    (h32 : 32 < bufferLength.toNat) (h63 : bufferLength.toNat < 2 ^ 63)
    {pfd : KucommsFileData}
    (hlen : pfd.msgmgr.txMsgqLenArray 0
      = messageQueueGetQueueLength bufferLength)
    {h : MessageQueueHeader} {x : (txMachine ι pfd).Conf}
    (hx : Machine.Reach _ (Machine.start _
      (TxState.start ι bufferLength h)) x) :
    x.st.received <+: x.st.log.map Prod.snd
    ∧ (x.pc .receiver = none →
        ∃ ms, x.st.log.map Prod.snd = x.st.received ++ ms
          ∧ Represents (messageQueueGetQueueLength bufferLength).toNat
            x.st.traced.ring ms)
    ∧ ∀ i, sentBy i x.st.sent <+: sentBy i x.st.log
      ∧ (x.pc (.sender i) = none →
          sentBy i x.st.log = sentBy i x.st.sent)
      ∧ ∀ m (ok : Bool), x.pc (.sender i) = some ⟨.add m, .ret ok⟩ →
          sentBy i x.st.log
            = sentBy i x.st.sent ++ if ok = true then [m] else [] := by
  have hL := queueLength_bounds h32 h63
  rw [← hlen] at hL ⊢
  let O : (txMachine ι pfd).Outline := txOutline pfd hL
  have h0 : ∀ y, O.idle y (TxState.start ι bufferLength h) :=
    fun y => TxState.start_idle hL.1 _ _ y
  have hinv : x.st.Inv (pfd.msgmgr.txMsgqLenArray 0).toNat :=
    O.invariant (fun hg hs => TxGuar.inv hg hs) h0
      (show Received _ _ from h0 .receiver).inv hx
  refine ⟨hinv.log ▸ hinv.received, fun hpc => ?_, fun i => ⟨hinv.sent i,
    fun hpc => ?_, fun m ok hpc => ?_⟩⟩
  · have hidle : Received _ x.st := O.idle_of_reach h0 hx hpc
    refine ⟨x.st.traced.pending, ?_, hinv.ring.rep⟩
    have hprefix := List.prefix_iff_eq_take.mp hinv.received
    rw [hidle.length] at hprefix
    rw [hinv.log, hprefix]
    exact (List.take_append_drop _ _).symm
  · exact (show Quiet _ i x.st from O.idle_of_reach h0 hx hpc).log
  · exact (show Leaving _ i _ x.st from O.post_of_reach h0 hx hpc).log

/-- How actions are performed in a schedule: a lock attempt is made only when
the mutex is free. -/
def txExec (addr : ℕ) (x : TxParty ι) (c : TxCall) :
    (a : LockAct (ℕ × QAct)) → TxState ι →
      Option (LockAct.Res (fun a => a.2.Res) a × TxState ι)
  | .lock, s =>
    match x with
    | .sender i =>
      if s.owner = none ∧ s.barging = [] then
        some (.acquired, { s with owner := some i })
      else none
    | .receiver => none
  | .unlock, s =>
    match x with
    | .sender i =>
      some ((), { s with owner := none, barging := s.barging.erase i })
    | .receiver => none
  | .act (msgq, a), s =>
    if msgq = addr then
      some ((s.traced.exec (fun _ => c.msg) a).1, { s with
        traced := (s.traced.exec (fun _ => c.msg) a).2
        log := s.log ++ publishedBy c.msg x a })
    else none

theorem txExec_sem {addr : ℕ} {x : TxParty ι} {c : TxCall}
    {a : LockAct (ℕ × QAct)} {s s' : TxState ι}
    {r : LockAct.Res (fun a => a.2.Res) a}
    (h : txExec addr x c a s = some (r, s')) : TxSem addr x c a s r s' := by
  cases a with
  | lock =>
    cases x with
    | sender i =>
      obtain ⟨⟨hfree, hbarging⟩, hrs⟩ := Option.ite_none_right_eq_some.mp h
      obtain ⟨rfl, rfl⟩ := Prod.mk.inj (Option.some.inj hrs)
      exact .acquire hfree hbarging
    | receiver => exact nomatch h
  | unlock =>
    cases x with
    | sender i =>
      obtain ⟨rfl, rfl⟩ := Prod.mk.inj (Option.some.inj h)
      exact .unlock
    | receiver => exact nomatch h
  | act a =>
    obtain ⟨msgq, a⟩ := a
    obtain ⟨rfl, hrs⟩ := Option.ite_none_right_eq_some.mp h
    obtain ⟨rfl, rfl⟩ := Prod.mk.inj (Option.some.inj hrs)
    exact .access a

/-- The commands of a schedule of two senders. -/
abbrev TxCmd : Type := (txMachine Bool pairFile).Cmd

/-- A sender begins to add a message. -/
def TxCmd.add (i : Bool) (data : List UInt8) : TxCmd :=
  .call (.sender i) (fun _ =>
    if h : (DataMessage.ofData data).size < 2 ^ 64 then
      some ⟨.add (.ofData data), h⟩
    else none)

/-- The receiver begins to get a message into a buffer of 64 bytes. -/
def TxCmd.get : TxCmd :=
  .call .receiver (fun _ => some ⟨.get (fun _ => 0) 64, trivial⟩)

/-- **A run of two senders**: the user process looks while the first one is at
work, and gets its message when the second one has sent as well. -/
theorem senders_fifo_two : ∃ x : (txMachine Bool pairFile).Conf,
    x.st.received.map DataMessage.bytes
        = [(DataMessage.ofData [5, 6, 7]).bytes]
      ∧ x.st.log.map (fun e => (e.1, e.2.bytes))
        = [(false, (DataMessage.ofData [5, 6, 7]).bytes),
          (true, (DataMessage.ofData [8]).bytes)]
      ∧ x.st.received <+: x.st.log.map Prod.snd := by
  obtain ⟨cmds, hcmds⟩ : ∃ cmds : List TxCmd,
      cmds = [.add false [5, 6, 7], .acts (.sender false) 3, .get,
        .finish .receiver, .finish (.sender false), .add true [8],
        .finish (.sender true), .get, .finish .receiver] := ⟨_, rfl⟩
  have hrun : ((cmds.foldlM ((txMachine Bool pairFile).perform
      (txExec (pairFile.msgmgr.txMsgqArray 0))) (Machine.start _
        (TxState.start Bool 200 .zeroed))).map fun x =>
      (x.st.received.map DataMessage.bytes,
        x.st.log.map (fun e => (e.1, e.2.bytes))))
      = some ([(DataMessage.ofData [5, 6, 7]).bytes],
        [(false, (DataMessage.ofData [5, 6, 7]).bytes),
          (true, (DataMessage.ofData [8]).bytes)]) := by
    subst hcmds
    decide +kernel
  obtain ⟨x, hx, hall⟩ := Option.map_eq_some_iff.mp hrun
  have hreach := Machine.Reach.schedule (fun _ _ _ _ _ _ => txExec_sem) hx
  obtain ⟨hgot, hlog⟩ := Prod.mk.inj hall
  exact ⟨x, hgot, hlog, (senders_fifo (by decide) (by decide) rfl hreach).1⟩
