import Kucomms.Echo

/-!
# `message_manager_test`

The test of `MessageManagerTest.cpp`: three managers in one process and four
rings between them. The second and the third send 8192 messages each, with
lengths that go up to 1023 and start again; the first sends back what it is
given; and those that come back are counted if they have the length that is
due. The test passes if both counters end at 8192.

`messageManagerTest_verdict`: whatever the interleaving, and whichever
additions fail, the test passes if and only if every message made the whole
way – was added, handled by the first manager, sent back and handled by the
sender.
-/

open Prog

/-! ## The handlers -/

/-- `BUFFER_SIZE` -/
def testBufferSize : UInt64 := 1024 * 1024

/-- `MESSAGE_COUNT_MAX` -/
def messageCountMax : UInt32 := 1024 * 8

/-- `MESSAGE_DATA_RANGE` -/
def messageDataRange : UInt32 := 1024

/-- **The counters** of the handlers of a manager. -/
structure TestCounters where
  /-- `TestMessageHandler::m_messageCount` -/
  mhlr : UInt32
  /-- `TestWorkHandler::m_messageCount` -/
  whlr : UInt32

/-- `DataMessage::DataMessage` of a length: the header is filled in, and the
data are the zeros that `resize` has put there. -/
def newDataMessage (dataLength : UInt64) : DataMessage :=
  .make dataLength 0 0 0 (fun _ => 0)

/-- `TestMessageHandler::hlr` -/
def testMessageHlr (mInstance k : ℕ) : MsghlrProg TestCounters Bool :=
  if mInstance = 1 then
    sendBack k
  else do
    let mLength ← messageField 0
    let c ← loadMemory.inMsghlr
    if mLength ≠ (c.mhlr % messageDataRange).toUInt64 then
      return true
    else
      (modifyMemory fun c => { c with mhlr := c.mhlr + 1 }).inMsghlr
      return true

/-- `TestWorkHandler::hlr` -/
def testWorkHlr (mInstance : ℕ) : HandlerProg TestCounters Bool :=
  if mInstance = 1 then
    return false
  else do
    let c ← loadMemory
    if c.whlr = messageCountMax then
      return false
    else
      let _ok ← addMessage 0
        (newDataMessage (c.whlr % messageDataRange).toUInt64)
      modifyMemory fun c => { c with whlr := c.whlr + 1 }
      return false

/-! ## The managers -/

/-- The managers of the test. -/
inductive TestManager where
  | mmgr1
  | mmgr2
  | mmgr3
  deriving DecidableEq

namespace TestManager

/-- `m_instance` of its handlers. -/
def mInstance : TestManager → ℕ
  | mmgr1 => 1
  | mmgr2 => 2
  | mmgr3 => 3

/-- Its rings, by the index of the buffer. -/
def rings : TestManager → List (ℕ × ℕ)
  | mmgr1 => [(0, 1), (2, 3)]
  | mmgr2 => [(1, 0)]
  | mmgr3 => [(3, 2)]

end TestManager

/-- **The managers and the buffers of `message_manager_test`.** -/
def testNetwork : Network TestManager TestCounters where
  node i := managerNode (fun _ => messageQueueGetQueueLength testBufferSize)
    i.rings (testMessageHlr i.mInstance) (testWorkHlr i.mInstance) noTimer
  bufferLength _ := testBufferSize
  fed _ := False
  drained _ := False

/-- What `message_manager_test` returns, when the managers have stopped. -/
def messageManagerTest (s : NetState TestManager TestCounters) : Bool :=
  if (s.node .mmgr2).memory.mhlr ≠ messageCountMax then
    false
  else if (s.node .mmgr3).memory.mhlr ≠ messageCountMax then
    false
  else
    true

/-! ## The wiring -/

namespace TestManager

/-- Who reads the ring in a buffer. -/
def reader : ℕ → TestManager
  | 1 => mmgr2
  | 3 => mmgr3
  | _ => mmgr1

/-- Who writes it. -/
def writer : ℕ → TestManager
  | 0 => mmgr2
  | 2 => mmgr3
  | _ => mmgr1

theorem reader_eq (i : TestManager) : ∀ q ∈ i.rings, reader q.1 = i := by
  cases i <;> decide

theorem writer_eq (i : TestManager) : ∀ q ∈ i.rings, writer q.2 = i := by
  cases i <;> decide

theorem writer_ne (i : TestManager) : ∀ q ∈ i.rings, writer q.1 ≠ i := by
  cases i <;> decide

end TestManager

/-- Each buffer has one manager that reads it, and another that writes it. -/
theorem testNetwork_wired : testNetwork.Wired := by
  have hbuffer : 32 < testBufferSize.toNat
      ∧ testBufferSize.toNat < 2 ^ 63 := by decide
  refine .of_ends (fun a => .node (.reader a)) (fun a => .node (.writer a))
    (fun _ => hbuffer) (fun i => ?_) (fun i => ?_) (fun i => ?_)
    (fun i q hq => le_maxqLength hq) (fun {x a} hx => ?_)
    (fun {x a} hx => ?_) (fun {x a} hx => ?_)
  · show i.rings.length ≤ _
    cases i <;> decide
  · show (i.rings.map Prod.fst).Nodup
    cases i <;> decide
  · show (i.rings.map Prod.snd).Nodup
    cases i <;> decide
  · cases x with
    | node i =>
      obtain ⟨q, hq, rfl⟩ := hx
      exact congrArg NetParty.node (i.reader_eq q hq).symm
    | producer b => exact hx.elim
    | consumer b => exact hx.2.elim
  · cases x with
    | node i =>
      obtain ⟨q, hq, rfl⟩ := hx
      exact congrArg NetParty.node (i.writer_eq q hq).symm
    | producer b => exact hx.2.elim
    | consumer b => exact hx.elim
  · cases x with
    | node i =>
      obtain ⟨q, hq, rfl⟩ := hx
      exact fun hc => i.writer_ne q hq (NetParty.node.inj hc).symm
    | producer b => exact hx.elim
    | consumer b => exact hx.2.elim

/-! ## What is sent, and what is counted -/

/-- **The first messages** that a work handler adds. -/
def testMessages (n : ℕ) : List DataMessage :=
  (List.range n).map (fun i => newDataMessage (.ofNat (i % 1024)))

/-- A message is counted if it has the length that is due. -/
def countMessage (c : ℕ) (m : DataMessage) : ℕ :=
  if m.mLength = UInt64.ofNat (c % 1024) then c + 1 else c

/-- **How many of these messages are counted.** -/
def matched (ms : List DataMessage) : ℕ := ms.foldl countMessage 0

theorem testMessages_succ (n : ℕ) : testMessages (n + 1)
    = testMessages n ++ [newDataMessage (.ofNat (n % 1024))] := by
  unfold testMessages
  rw [List.range_succ, List.map_append]
  rfl

@[simp] theorem length_testMessages (n : ℕ) : (testMessages n).length = n := by
  simp [testMessages]

theorem testMessages_mono {n n' : ℕ} (h : n ≤ n') :
    testMessages n <+: testMessages n' := by
  induction n', h using Nat.le_induction with
  | base => exact List.prefix_rfl
  | succ n' _ ih =>
    rw [testMessages_succ]
    exact ih.trans (List.prefix_append ..)

theorem matched_concat (ms : List DataMessage) (m : DataMessage) :
    matched (ms ++ [m]) = countMessage (matched ms) m := by
  unfold matched
  rw [List.foldl_append, List.foldl_cons, List.foldl_nil]

/-- None is counted twice. -/
theorem matched_le (ms : List DataMessage) : matched ms ≤ ms.length := by
  induction ms using List.reverseRecOn with
  | nil => exact Nat.zero_le _
  | append_singleton ms m ih =>
    rw [matched_concat, List.length_append, List.length_singleton,
      countMessage]
    split <;> omega

/-- Those that were sent are all counted, if all of them are there. -/
theorem matched_testMessages (n : ℕ) : matched (testMessages n) = n := by
  induction n with
  | zero => rfl
  | succ n ih =>
    rw [testMessages_succ, matched_concat, ih, countMessage, newDataMessage,
      DataMessage.mLength_make, if_pos rfl]

/-- A length that is due. -/
theorem toUInt64_mod_range (c : UInt32) :
    (c % messageDataRange).toUInt64 = .ofNat (c.toNat % 1024) := by
  rw [← UInt64.toNat_inj, UInt32.toNat_toUInt64, UInt32.toNat_mod,
    UInt64.toNat_ofNat_of_lt' (by
      have := Nat.mod_lt c.toNat (show 1024 > 0 by decide)
      exact this.trans (by decide))]
  rfl

/-! ## The proofs of the handlers -/

/-- **What the handlers of a sender keep to.** -/
structure Sender (l : Local TestCounters) : Prop where
  le : l.memory.whlr.toNat ≤ 8192
  /-- Some of the additions may have failed. -/
  sent : (l.sent 0).Sublist (testMessages l.memory.whlr.toNat)
  counted : l.memory.mhlr = UInt32.ofNat (matched (handledFrom l.handled 0))

/-- No others are ever sent. -/
def Sends (l : Local TestCounters) : Prop :=
  (l.sent 0).Sublist (testMessages 8192)

section Sender

variable {l : Local TestCounters} {m : DataMessage} {mInstance : ℕ}

theorem Sender.sends (h : Sender l) : Sends l :=
  h.sent.trans (testMessages_mono h.le).sublist

/-- The length that is due. -/
theorem Sender.due (h : Sender l) :
    (l.memory.mhlr % messageDataRange).toUInt64
      = UInt64.ofNat (matched (handledFrom l.handled 0) % 1024) := by
  rw [toUInt64_mod_range, h.counted, UInt32.toNat_ofNat',
    Nat.mod_mod_of_dvd _ (by decide)]

theorem testMessageHlr_wp (hinstance : mInstance ≠ 1) (h : Sender l) :
    (testMessageHlr mInstance 0).Wp (msghlrSpec 1 m (fun _ => True) Sends)
      (fun _ => Sender) (l.handle 0 m) := by
  have hcounted : matched (handledFrom (l.handle 0 m).handled 0)
      = countMessage (matched (handledFrom l.handled 0)) m := by
    show matched (handledFrom (l.handled ++ [(0, m)]) 0) = _
    rw [handledFrom_concat_self, matched_concat]
  have hsends : Sends (l.handle 0 m) := h.sends
  unfold testMessageHlr
  rw [if_neg hinstance]
  refine Wp.bind ((mLength_wp hsends).mono ?_)
  rintro _ _ ⟨rfl, rfl⟩
  refine Wp.bind ((Wp.inMsghlr (loadMemory_wp hsends)).mono ?_)
  rintro _ _ ⟨rfl, rfl⟩
  have hdue : ((l.handle 0 m).memory.mhlr % messageDataRange).toUInt64
      = UInt64.ofNat (matched (handledFrom l.handled 0) % 1024) := h.due
  rw [hdue]
  split
  · next hlength =>
    refine Wp.alone_ret ⟨h.le, h.sent, ?_⟩
    rw [hcounted, countMessage, if_neg hlength]
    exact h.counted
  · next hlength =>
    refine Wp.bind ((Wp.inMsghlr (modifyMemory_wp hsends
      (fun _ => hsends))).mono ?_)
    rintro _ _ ⟨-, rfl⟩
    refine Wp.alone_ret ⟨h.le, h.sent, ?_⟩
    show (l.handle 0 m).memory.mhlr + 1 = UInt32.ofNat (matched
      (handledFrom (l.handle 0 m).handled 0))
    rw [hcounted, countMessage, if_pos (not_not.mp hlength),
      UInt32.ofNat_add]
    exact congrArg (· + 1) h.counted

theorem testWorkHlr_wp (hinstance : mInstance ≠ 1) (h : Sender l) :
    (testWorkHlr mInstance).Wp (handlerSpec 1 (fun _ => True) Sends)
      (fun _ => Sender) l := by
  unfold testWorkHlr
  rw [if_neg hinstance]
  refine Wp.bind ((loadMemory_wp h.sends).mono ?_)
  rintro _ l ⟨rfl, rfl⟩
  split
  · exact Wp.alone_ret h
  next hmax =>
  have hlt : l.memory.whlr.toNat < 8192 := by
    refine lt_of_le_of_ne h.le (fun hc => hmax ?_)
    exact UInt32.toNat_inj.mp hc
  have hsucc : (l.memory.whlr + 1).toNat = l.memory.whlr.toNat + 1 := by
    rw [UInt32.toNat_add, show (1 : UInt32).toNat = 1 from rfl]
    exact Nat.mod_eq_of_lt (by omega)
  rw [toUInt64_mod_range]
  have hsent : (l.sent 0 ++ [newDataMessage (.ofNat
      (l.memory.whlr.toNat % 1024))]).Sublist
        (testMessages (l.memory.whlr.toNat + 1)) := by
    rw [testMessages_succ]
    exact h.sent.append_right _
  have hadded : Sends (l.send 0 (newDataMessage (.ofNat
      (l.memory.whlr.toNat % 1024)))) := by
    show (Function.update l.sent 0 _ 0).Sublist _
    rw [Function.update_self]
    exact hsent.trans (testMessages_mono hlt).sublist
  refine Wp.bind ((addMessage_wp Nat.one_pos ?_ h.sends hadded).mono ?_)
  · rw [newDataMessage, DataMessage.size_make, UInt64.toNat_ofNat']
    omega
  rintro ok l' rfl
  refine Wp.bind ((modifyMemory_wp ?_ ?_).mono ?_)
  · split
    · exact hadded
    · exact h.sends
  · intro _
    split
    · exact hadded
    · exact h.sends
  rintro _ l' ⟨-, rfl⟩
  refine Wp.alone_ret ?_
  cases ok with
  | true =>
    refine ⟨?_, ?_, h.counted⟩
    · show (l.memory.whlr + 1).toNat ≤ 8192
      omega
    · show (Function.update l.sent 0 _ 0).Sublist
        (testMessages (l.memory.whlr + 1).toNat)
      rw [Function.update_self, hsucc]
      exact hsent
  | false =>
    refine ⟨?_, ?_, h.counted⟩
    · show (l.memory.whlr + 1).toNat ≤ 8192
      omega
    · show (l.sent 0).Sublist (testMessages (l.memory.whlr + 1).toNat)
      rw [hsucc]
      exact h.sent.trans (testMessages_mono (Nat.le_succ _)).sublist

end Sender

theorem testNetwork_msghlr (i : TestManager) {k : ℕ}
    (hk : k < (testNetwork.node i).pairs.length) :
    (testNetwork.node i).msghlr k = testMessageHlr i.mInstance k :=
  managerNode_msghlr (testNetwork_wired.tx i) hk

/-- The proof of a manager that sends and counts. -/
def senderProof (i : TestManager) (hinstance : i.mInstance ≠ 1)
    (hrings : i.rings.length = 1) : NodeProof (testNetwork.node i) where
  within _ := True
  expects _ _ _ := True
  always := Sends
  between := Sender
  always_of := Sender.sends
  handle _ h _ := h.sends
  msghlr {l k m} hk h _ := by
    have hlength : (testNetwork.node i).pairs.length = 1 := hrings
    rw [testNetwork_msghlr i hk, hlength]
    obtain rfl : k = 0 := by omega
    exact testMessageHlr_wp hinstance h
  workhlr h := by
    have hlength : (testNetwork.node i).pairs.length = 1 := hrings
    rw [hlength]
    exact testWorkHlr_wp hinstance h
  timerhlr _ h := Wp.alone_ret h

/-- The proofs of the three managers. -/
def testProof : (i : TestManager) → NodeProof (testNetwork.node i)
  | .mmgr1 => sendsBack _ (fun _ hk => testNetwork_msghlr .mmgr1 hk) rfl rfl
  | .mmgr2 => senderProof .mmgr2 (by decide) rfl
  | .mmgr3 => senderProof .mmgr3 (by decide) rfl

/-! ## The verdict -/

/-- **The messages of a manager made the whole way**: they were added to the
ring `up`, handled by the first manager from its pair `k`, added to the ring
`down`, and handled by the manager `i`. -/
structure MadeTheWay (s : NetState TestManager TestCounters)
    (i : TestManager) (k up down : ℕ) : Prop where
  added : (s.rings up).accepted = testMessages 8192
  handled : handledFrom (s.node .mmgr1).handled k = testMessages 8192
  back : (s.rings down).accepted = testMessages 8192
  returned : handledFrom (s.node i).handled 0 = testMessages 8192

section Verdict

variable {s : NetState TestManager TestCounters}

/-- **None of them is invented on the way**, and if as many have come back as
were sent, then they are the same. -/
theorem madeTheWay_iff (hs : testNetwork.Inv testProof s) {i : TestManager}
    {k up down : ℕ} (hpair : (testNetwork.node .mmgr1).pairs[k]?
      = some (up, down))
    (hrings : (testNetwork.node i).pairs[0]? = some (down, up))
    (hsends : Sends (testNetwork.view i s))
    (hcounted : (s.node i).memory.mhlr
      = UInt32.ofNat (matched (handledFrom (s.node i).handled 0))) :
    (s.node i).memory.mhlr = messageCountMax
      ↔ MadeTheWay s i k up down := by
  have hup : (s.rings up).accepted.Sublist (testMessages 8192) := by
    have hsent := hsends
    unfold Sends at hsent
    rwa [show (testNetwork.view i s).sent 0 = _ from
      Network.sent_eq hrings] at hsent
  have hhandled : (handledFrom (s.node .mmgr1).handled k).Sublist
      (s.rings up).accepted := (hs.handled .mmgr1 k _ hpair).sublist
  have hback : (s.rings down).accepted.Sublist
      (handledFrom (s.node .mmgr1).handled k) := by
    have hsent := hs.always .mmgr1 k
    rwa [show (testNetwork.view .mmgr1 s).sent k = _ from
      Network.sent_eq hpair] at hsent
  have hreturned : (handledFrom (s.node i).handled 0).Sublist
      (s.rings down).accepted := (hs.handled i 0 _ hrings).sublist
  have hle := hup.length_le
  have hhandledLe := hhandled.length_le
  have hbackLe := hback.length_le
  have hreturnedLe := hreturned.length_le
  rw [length_testMessages] at hle
  constructor
  · intro hmax
    have hmatched := matched_le (handledFrom (s.node i).handled 0)
    have hcount : matched (handledFrom (s.node i).handled 0) % 2 ^ 32
        = 8192 := by
      rw [hcounted] at hmax
      have hnat := congrArg UInt32.toNat hmax
      rwa [UInt32.toNat_ofNat'] at hnat
    have hadded := hup.eq_of_length_le (by rw [length_testMessages]; omega)
    have hhandled := hhandled.eq_of_length_le (by omega)
    have hback := hback.eq_of_length_le (by omega)
    have hreturned := hreturned.eq_of_length_le (by omega)
    exact ⟨hadded, hhandled.trans hadded,
      (hback.trans hhandled).trans hadded,
      ((hreturned.trans hback).trans hhandled).trans hadded⟩
  · intro hway
    rw [hcounted, hway.returned, matched_testMessages]
    rfl

end Verdict

/-- **The verdict of the test is right**: when its managers are at rest, it
passes if and only if all 8192 messages of both senders made the whole
way. -/
theorem messageManagerTest_verdict {mem : ℕ → MessageQueueHeader}
    {x : testNetwork.machine.Conf}
    (hx : Machine.Reach _ (Machine.start _
      (testNetwork.start mem fun _ => ⟨0, 0⟩)) x)
    (hidle : ∀ i, x.pc (.node i) = none) :
    messageManagerTest x.st = true
      ↔ MadeTheWay x.st .mmgr2 0 0 1 ∧ MadeTheWay x.st .mmgr3 1 2 3 := by
  have hstart : ∀ i, (testProof i).between
      ⟨⟨0, 0⟩, [], fun _ => [], testNetwork.txLen i⟩ := by
    intro i
    cases i with
    | mmgr1 => exact fun _ => List.Sublist.refl _
    | mmgr2 => exact ⟨Nat.zero_le _, List.nil_sublist _, rfl⟩
    | mmgr3 => exact ⟨Nat.zero_le _, List.nil_sublist _, rfl⟩
  have hfits : testNetwork.Fits testProof := by
    intro s i k q m _ _ _
    cases i <;> trivial
  have hwithin : ∀ s, testNetwork.Within testProof s := by
    intro s i
    cases i <;> trivial
  obtain ⟨hinv, hbetween, -⟩ := Network.reach_inv testNetwork_wired
    testProof hfits hstart (hx.reachWhile fun _ => hwithin _)
  have h2 : Sender (testNetwork.view .mmgr2 x.st) :=
    hbetween .mmgr2 (hidle .mmgr2)
  have h3 : Sender (testNetwork.view .mmgr3 x.st) :=
    hbetween .mmgr3 (hidle .mmgr3)
  rw [← madeTheWay_iff hinv rfl rfl h2.sends h2.counted,
    ← madeTheWay_iff hinv rfl rfl h3.sends h3.counted]
  unfold messageManagerTest
  by_cases hc2 : (x.st.node .mmgr2).memory.mhlr = messageCountMax <;>
    by_cases hc3 : (x.st.node .mmgr3).memory.mhlr = messageCountMax <;>
    simp [hc2, hc3]

/-- **A run in which one message has come back**: that is not enough. -/
theorem messageManagerTest_verdict_one : ∃ x : testNetwork.machine.Conf,
    (x.st.node .mmgr2).memory.mhlr = 1
      ∧ (messageManagerTest x.st = true
        ↔ MadeTheWay x.st .mmgr2 0 0 1 ∧ MadeTheWay x.st .mmgr3 1 2 3) := by
  obtain ⟨cmds, hcmds⟩ : ∃ cmds, cmds = testNetwork.nextTurn .mmgr1
    ++ testNetwork.nextTurn .mmgr2 ++ testNetwork.nextTurn .mmgr2
    ++ testNetwork.nextTurn .mmgr1 ++ testNetwork.nextTurn .mmgr2 := ⟨_, rfl⟩
  obtain ⟨start, hstart⟩ : ∃ start, start = testNetwork.start
    (fun _ => .zeroed) (fun _ => ⟨0, 0⟩) := ⟨_, rfl⟩
  have hone : ((testNetwork.after cmds start).map fun x =>
      ((x.st.node .mmgr2).memory.mhlr, (x.pc (.node .mmgr1)).isNone,
        (x.pc (.node .mmgr2)).isNone, (x.pc (.node .mmgr3)).isNone))
      = some (1, true, true, true) := by
    subst hcmds hstart
    decide +kernel
  obtain ⟨x, hx, hall⟩ := Option.map_eq_some_iff.mp hone
  obtain ⟨hcount, hpc1, hpc2, hpc3⟩ : (x.st.node .mmgr2).memory.mhlr = 1
      ∧ (x.pc (.node .mmgr1)).isNone = true
      ∧ (x.pc (.node .mmgr2)).isNone = true
      ∧ (x.pc (.node .mmgr3)).isNone = true := by
    simpa only [Prod.mk.injEq] using hall
  have hreach := testNetwork.reach_of_after hx
  rw [hstart] at hreach
  refine ⟨x, hcount, messageManagerTest_verdict hreach (fun i => ?_)⟩
  cases i with
  | mmgr1 => exact Option.isNone_iff_eq_none.mp hpc1
  | mmgr2 => exact Option.isNone_iff_eq_none.mp hpc2
  | mmgr3 => exact Option.isNone_iff_eq_none.mp hpc3
