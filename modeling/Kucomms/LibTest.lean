import Kucomms.ManagerTest
import Kucomms.Peers

/-!
# The test program and the module that sends everything back

`kucomms_lib_test` and `kucomms_lib_tutorial` are the programs that go with
the modules `kucomms_test` and `kucomms_tutorial`: the work handler adds four
messages, of lengths 0 to 3, and the message handler counts those that come
back. None of the handlers looks at what `add` returns.

They need not: all that is ever added fits into a ring at once, so no
addition fails. `libTest_loses_nothing`: wherever the two threads are, a
message that was sent is in one of the rings, in the hands of a handler, or
has been counted.
-/

open Prog

namespace LibTest

/-! ## The handlers of the program -/

/-- **The counters** of its handlers, which have the same name. -/
structure Counters where
  /-- `KuCommsMessageHandler::m_messageCount` -/
  mhlr : UInt32
  /-- `KuCommsWorkHandler::m_messageCount` -/
  whlr : UInt32

/-- `KuCommsMessageHandler::hlr`: the length is printed. -/
def messageHandlerHlr : MsghlrProg Counters Bool := do
  (modifyMemory fun c => { c with mhlr := c.mhlr + 1 }).inMsghlr
  let _mLength ← messageField 0
  return true

/-- `KuCommsWorkHandler::hlr` -/
def workHandlerHlr : HandlerProg Counters Bool := do
  let c ← loadMemory
  if c.whlr = 4 then
    return false
  else
    let _ok ← addMessage 0 (newDataMessage c.whlr.toUInt64)
    modifyMemory fun c => { c with whlr := c.whlr + 1 }
    return false

/-- `KuCommsTimerHandler::hlr` -/
def timerHandlerHlr : UInt64 → HandlerProg Counters Unit := noTimer

/-- **The program and the device** it has opened. -/
def network (vaddr : ℕ) (vaddrLen : UInt64) (device : Node Counters) :
    Network Peer Counters :=
  peerNetwork vaddr vaddrLen device messageHandlerHlr workHandlerHlr
    timerHandlerHlr

/-! ## The messages -/

/-- All messages that the program sends. -/
def messages : List DataMessage :=
  (List.range 4).map (fun i => newDataMessage (.ofNat i))

/-- What they need in a ring. -/
theorem used_messages : used messages = 134 := by
  rw [used_eq_sum]
  simp [messages, List.range_succ, newDataMessage, DataMessage.size_make]

theorem messages_take_succ {n : ℕ} (h : n < 4) : messages.take (n + 1)
    = messages.take n ++ [newDataMessage (.ofNat n)] := by
  rw [List.take_add_one, messages, List.getElem?_map,
    List.getElem?_range h]
  rfl

/-- **There is room** for some of them if there is for all. -/
theorem used_le_of_prefix {ms ms' : List DataMessage} (h : ms <+: ms') :
    used ms ≤ used ms' := by
  obtain ⟨rest, rfl⟩ := h
  rw [used_append]
  exact Nat.le_add_right ..

/-- The transmit ring of a node has room for all of them. -/
structure Roomy (l : Local Counters) : Prop where
  room : used messages < l.room
  lt : l.room < 2 ^ 64

namespace Roomy

variable {l : Local Counters} {m : DataMessage}

theorem handle (h : Roomy l) (m : DataMessage) : Roomy (l.handle 0 m) :=
  ⟨h.room, h.lt⟩

theorem send (h : Roomy l) (m : DataMessage) : Roomy (l.send 0 m) :=
  ⟨h.room, h.lt⟩

theorem setMemory (h : Roomy l) (c : Counters) : Roomy (l.setMemory c) :=
  ⟨h.room, h.lt⟩

/-- **The next message fits in.** -/
theorem fits (h : Roomy l) (hm : l.added ++ [m] <+: messages) :
    used l.added + m.size < l.room := by
  have hle := used_le_of_prefix hm
  rw [used_append, used_cons] at hle
  have := h.room
  omega

end Roomy

/-! ## The device -/

/-- **What the device keeps to**: it has sent back all it was given. -/
structure DeviceInv (l : Local Counters) : Prop where
  roomy : Roomy l
  back : l.added = l.given
  messages : l.given <+: messages

section Device

variable {l : Local Counters} {m : DataMessage}

theorem sendBack_wp (h : DeviceInv l) (hm : l.given ++ [m] <+: messages) :
    (sendBack 0).Wp (msghlrSpec 1 m (fun _ => True)
      (fun l => l.added <+: l.given)) (fun _ => DeviceInv)
      (l.handle 0 m) := by
  have hsend : ((l.handle 0 m).send 0 m).added
      = ((l.handle 0 m).send 0 m).given := by
    rw [Local.added_send, Local.added_handle, Local.given_send,
      Local.given_handle, h.back]
  have hroom := (h.roomy.handle m).fits (m := m) (by
    rw [Local.added_handle, h.back]
    exact hm)
  refine Wp.bind ((forwardMessage_room_wp Nat.one_pos hroom ?_).mono ?_)
  · exact hsend ▸ List.prefix_rfl
  · rintro _ _ ⟨-, rfl⟩
    refine Wp.alone_ret ⟨(h.roomy.handle m).send m, hsend, ?_⟩
    rw [Local.given_send, Local.given_handle]
    exact hm

end Device

/-! ## The program -/

/-- **What the program keeps to.** -/
structure ProcessInv (l : Local Counters) : Prop where
  roomy : Roomy l
  le : l.memory.whlr.toNat ≤ 4
  added : l.added = messages.take l.memory.whlr.toNat
  counted : l.memory.mhlr = .ofNat l.given.length

section Process

variable {l : Local Counters} {m : DataMessage}

theorem ProcessInv.sends (h : ProcessInv l) : l.added <+: messages := by
  rw [h.added]
  exact List.take_prefix ..

theorem messageHandlerHlr_wp (h : ProcessInv l) :
    messageHandlerHlr.Wp (msghlrSpec 1 m (fun _ => True)
      (fun l => l.added <+: messages)) (fun _ => ProcessInv)
      (l.handle 0 m) := by
  refine Wp.bind ((Wp.inMsghlr (modifyMemory_wp h.sends
    (fun _ => h.sends))).mono ?_)
  rintro _ _ ⟨-, rfl⟩
  refine Wp.bind ((mLength_wp h.sends).mono ?_)
  rintro _ _ ⟨rfl, rfl⟩
  refine Wp.alone_ret ⟨(h.roomy.handle m).setMemory _, h.le, h.added, ?_⟩
  rw [Local.given_setMemory, Local.given_handle, List.length_append,
    UInt32.ofNat_add, ← h.counted]
  rfl

theorem workHandlerHlr_wp (h : ProcessInv l) :
    workHandlerHlr.Wp (handlerSpec 1 (fun _ => True)
      (fun l => l.added <+: messages)) (fun _ => ProcessInv) l := by
  refine Wp.bind ((loadMemory_wp h.sends).mono ?_)
  rintro _ l ⟨rfl, rfl⟩
  by_cases hall : l.memory.whlr = 4
  · exact Wp.if_pos hall (Wp.alone_ret h)
  have hlt : l.memory.whlr.toNat < 4 :=
    lt_of_le_of_ne h.le (fun hc => hall (UInt32.toNat_inj.mp hc))
  have hsucc : (l.memory.whlr + 1).toNat = l.memory.whlr.toNat + 1 := by
    rw [UInt32.toNat_add, show (1 : UInt32).toNat = 1 from rfl]
    exact Nat.mod_eq_of_lt (by omega)
  have hadded : l.added ++ [newDataMessage l.memory.whlr.toUInt64]
      = messages.take (l.memory.whlr + 1).toNat := by
    rw [hsucc, messages_take_succ hlt, ← h.added, UInt64.ofNat_uInt32ToNat]
  have hsend : (l.send 0 (newDataMessage l.memory.whlr.toUInt64)).added
      <+: messages := by
    rw [Local.added_send, hadded]
    exact List.take_prefix ..
  have hroom := h.roomy.fits (m := newDataMessage l.memory.whlr.toUInt64) (by
    rw [hadded]
    exact List.take_prefix ..)
  refine Wp.if_neg hall (Wp.bind
    ((addMessage_room_wp Nat.one_pos hroom h.roomy.lt hsend).mono ?_))
  rintro _ _ ⟨-, rfl⟩
  refine Wp.bind ((modifyMemory_wp hsend (fun _ => hsend)).mono ?_)
  rintro _ _ ⟨-, rfl⟩
  refine Wp.alone_ret ⟨(h.roomy.send _).setMemory _, ?_, ?_, h.counted⟩
  · show (l.memory.whlr + 1).toNat ≤ 4
    omega
  · rw [Local.added_setMemory, Local.added_send, hadded]
    rfl

end Process

/-! ## The two of them -/

section Network

variable {hz vaddrLen : UInt64} {vaddr : ℕ}

/-- The device of the program: that of the other module is the same. -/
abbrev testDevice (hz : UInt64) (vaddr : ℕ) (vaddrLen : UInt64) :
    Node Counters :=
  kucommsTestNode hz vaddrLen vaddr (vaddr + (vaddrLen / 2).toNat)

/-- The proof of the device. -/
def deviceProof (hz : UInt64) (vaddr : ℕ) (vaddrLen : UInt64) :
    NodeProof ((network vaddr vaddrLen (testDevice hz vaddr vaddrLen)).node
      .device) where
  within _ := True
  expects l _ m := l.given ++ [m] <+: messages
  always l := l.added <+: l.given
  between := DeviceInv
  always_of h := h.back ▸ List.prefix_rfl
  handle {l k m} hk h _ := by
    obtain rfl : k = 0 := Nat.lt_one_iff.mp hk
    rw [Local.added_handle, Local.given_handle, h.back]
    exact List.prefix_append ..
  msghlr {l k m} hk h hm := by
    obtain rfl : k = 0 := Nat.lt_one_iff.mp hk
    exact sendBack_wp h hm
  workhlr h := Wp.alone_ret h
  timerhlr _ h := Wp.alone_ret h

/-- The proof of the program. -/
def processProof (hz : UInt64) (vaddr : ℕ) (vaddrLen : UInt64) :
    NodeProof ((network vaddr vaddrLen (testDevice hz vaddr vaddrLen)).node
      .process) where
  within _ := True
  expects _ _ _ := True
  always l := l.added <+: messages
  between := ProcessInv
  always_of h := h.sends
  handle {l k m} hk h _ := by
    obtain rfl : k = 0 := Nat.lt_one_iff.mp hk
    exact h.sends
  msghlr {l k m} hk h _ := by
    obtain rfl : k = 0 := Nat.lt_one_iff.mp hk
    rw [show ((network vaddr vaddrLen (testDevice hz vaddr vaddrLen)).node
      .process).msghlr 0 = messageHandlerHlr from peerNetwork_msghlr]
    exact messageHandlerHlr_wp h
  workhlr h := workHandlerHlr_wp h
  timerhlr _ h := Wp.alone_ret h

/-- The proofs of both. -/
def proofs (hz : UInt64) (vaddr : ℕ) (vaddrLen : UInt64) : (i : Peer) →
    NodeProof ((network vaddr vaddrLen (testDevice hz vaddr vaddrLen)).node i)
  | .device => deviceProof hz vaddr vaddrLen
  | .process => processProof hz vaddr vaddrLen

/-- What the device is given is what the program sends. -/
theorem network_fits : (network vaddr vaddrLen
    (testDevice hz vaddr vaddrLen)).Fits (proofs hz vaddr vaddrLen) := by
  intro s i k q m hs hq hm
  cases i with
  | device =>
    obtain ⟨hk, rfl⟩ := List.getElem?_eq_some_iff.mp hq
    obtain rfl : k = 0 := Nat.lt_one_iff.mp hk
    have hsends : (s.rings vaddr).accepted <+: messages := hs.always .process
    obtain ⟨hlt, rfl⟩ := List.getElem?_eq_some_iff.mp hm
    exact (List.concat_get_prefix (hs.handled .device 0 _ rfl) hlt).trans
      hsends
  | process => trivial

/-- At the start there is room. -/
theorem roomy_start (hlen : 334 ≤ vaddrLen.toNat) (i : Peer) :
    Roomy ⟨⟨0, 0⟩, [], fun _ => [], (network vaddr vaddrLen
      (testDevice hz vaddr vaddrLen)).txLen i⟩ := by
  have hlt := vaddrLen.toNat_lt
  have hhalf : (vaddrLen / 2).toNat = vaddrLen.toNat / 2 :=
    UInt64.toNat_div ..
  have hL : (messageQueueGetQueueLength (vaddrLen / 2)).toNat
      = (vaddrLen / 2).toNat - 32 := toNat_getQueueLength (by omega)
  have hroom : (network vaddr vaddrLen (testDevice hz vaddr vaddrLen)).txLen
      i 0 = (vaddrLen / 2).toNat - 32 := by
    cases i with
    | device => exact hL
    | process => exact hL
  refine ⟨?_, ?_⟩
  · rw [used_messages]
    show 134 < Network.txLen _ _ 0
    omega
  · show Network.txLen _ _ 0 < 2 ^ 64
    omega

end Network

/-- **Nothing is lost** between the program and the module, whatever runs
when: what the program has counted has come through the ring of the device,
what is there was handled by the device, and what that handled was sent by
the program. Between the calls of its handlers the device has sent back all
that it was given; and the program has sent as many of its messages as its
work handler counts, and been given as many as its message handler
counts. -/
theorem libTest_loses_nothing {hz vaddrLen : UInt64} {vaddr : ℕ}
    (hlen : 334 ≤ vaddrLen.toNat) {device : Node Counters}
    (hdevice : device = kucommsTestNode hz vaddrLen vaddr
        (vaddr + (vaddrLen / 2).toNat)
      ∨ device = kucommsTutorialNode hz vaddrLen vaddr
        (vaddr + (vaddrLen / 2).toNat))
    {mem : ℕ → MessageQueueHeader}
    {x : (network vaddr vaddrLen device).machine.Conf}
    (hx : Machine.Reach _ (Machine.start _
      ((network vaddr vaddrLen device).start mem fun _ => ⟨0, 0⟩)) x) :
    handledFrom (x.st.node .process).handled 0
        <+: (x.st.rings (vaddr + (vaddrLen / 2).toNat)).accepted
      ∧ (x.st.rings (vaddr + (vaddrLen / 2).toNat)).accepted
        <+: handledFrom (x.st.node .device).handled 0
      ∧ handledFrom (x.st.node .device).handled 0
        <+: (x.st.rings vaddr).accepted
      ∧ (x.st.rings vaddr).accepted <+: messages
      ∧ (x.pc (.node .device) = none →
        (x.st.rings (vaddr + (vaddrLen / 2).toNat)).accepted
          = handledFrom (x.st.node .device).handled 0)
      ∧ (x.pc (.node .process) = none →
        (x.st.rings vaddr).accepted
          = messages.take (x.st.node .process).memory.whlr.toNat
        ∧ (handledFrom (x.st.node .process).handled 0).length
          = (x.st.node .process).memory.mhlr.toNat)
      ∧ ∀ i, (x.st.node i).phase ≠ .returned false := by
  obtain rfl : device = testDevice hz vaddr vaddrLen := by
    obtain rfl | rfl := hdevice <;> rfl
  have hwired : (network vaddr vaddrLen (testDevice hz vaddr vaddrLen)).Wired :=
    peerNetwork_wired (by omega) rfl rfl
  have hstart : ∀ i, (proofs hz vaddr vaddrLen i).between ⟨⟨0, 0⟩, [],
      fun _ => [], (network vaddr vaddrLen
        (testDevice hz vaddr vaddrLen)).txLen i⟩ := by
    intro i
    cases i with
    | device => exact ⟨roomy_start hlen _, rfl, List.nil_prefix⟩
    | process => exact ⟨roomy_start hlen _, Nat.zero_le _, rfl, rfl⟩
  have hwithin : ∀ s, (network vaddr vaddrLen
      (testDevice hz vaddr vaddrLen)).Within (proofs hz vaddr vaddrLen) s := by
    intro s i
    cases i <;> trivial
  obtain ⟨hinv, hbetween, -⟩ := Network.reach_inv hwired
    (proofs hz vaddr vaddrLen) network_fits hstart
    (hx.reachWhile fun _ => hwithin _)
  have hback : (x.st.rings (vaddr + (vaddrLen / 2).toNat)).accepted
      <+: handledFrom (x.st.node .device).handled 0 := hinv.always .device
  have hsends : (x.st.rings vaddr).accepted <+: messages :=
    hinv.always .process
  have hdevice := hinv.handled .device 0 _ rfl
  have hprocess := hinv.handled .process 0 _ rfl
  refine ⟨hprocess, hback, hdevice, hsends, fun hpc => ?_, fun hpc => ?_,
    hinv.noError⟩
  · have h : DeviceInv _ := hbetween .device hpc
    exact h.back
  · have h : ProcessInv _ := hbetween .process hpc
    have hfour : (handledFrom (x.st.node .process).handled 0).length ≤ 4 :=
      (((hprocess.trans hback).trans hdevice).trans hsends).length_le
    have hcounted : (x.st.node .process).memory.mhlr
        = .ofNat (handledFrom (x.st.node .process).handled 0).length :=
      h.counted
    refine ⟨h.added, ?_⟩
    rw [hcounted, UInt32.toNat_ofNat']
    exact (Nat.mod_eq_of_lt (by omega)).symm

/-- The program and a device with just enough room. -/
abbrev smallNetwork : Network Peer Counters :=
  network 0 334 (kucommsTestNode 1 334 0 167)

/-- **A run in which all four messages come back.** -/
theorem libTest_loses_nothing_four : ∃ x : smallNetwork.machine.Conf,
    (x.st.node .process).memory.mhlr = 4
      ∧ handledFrom (x.st.node .process).handled 0 = messages := by
  obtain ⟨turns, hturns⟩ : ∃ turns : Peer → ℕ → List smallNetwork.machine.Cmd,
      turns = fun i n => (List.replicate n (smallNetwork.nextTurn i)).flatten :=
    ⟨_, rfl⟩
  obtain ⟨start, hstart⟩ : ∃ start, start = smallNetwork.start
    (fun _ => .zeroed) (fun _ => ⟨0, 0⟩) := ⟨_, rfl⟩
  have hfour : ((smallNetwork.after (turns .process 5 ++ turns .device 5
      ++ turns .process 4) start).map fun x =>
        ((x.st.node .process).memory.mhlr, (x.pc (.node .process)).isNone))
      = some (4, true) := by
    subst hturns hstart
    decide +kernel
  obtain ⟨x, hx, hall⟩ := Option.map_eq_some_iff.mp hfour
  obtain ⟨hcount, hpc⟩ := Prod.mk.inj hall
  have hreach := smallNetwork.reach_of_after hx
  rw [hstart] at hreach
  obtain ⟨hcounted, hback, hdevice, hsent, -, hprocess, -⟩ :=
    libTest_loses_nothing (by decide) (.inl rfl) hreach
  have hlength := (hprocess (Option.isNone_iff_eq_none.mp hpc)).2
  rw [hcount] at hlength
  exact ⟨x, hcount, (((hcounted.trans hback).trans hdevice).trans
    hsent).eq_of_length hlength⟩

end LibTest
