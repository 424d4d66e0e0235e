import Kucomms.LibraryManagers

/-!
# The modules that send everything back

`kucomms_test` and `kucomms_tutorial` are modules whose message handler adds
the message it is given to the transmit ring, and so does the first of the
three managers of `message_manager_test`. `SendsBack` is what such a node
keeps to: what it has sent is a sublist of what it has handled, since an
addition may fail and nobody looks at its result.

`kucommsTest_session` is what a client of the module can count on that calls
`MessageQueueWriter::add` and `MessageQueueReader::get` whenever it likes,
while the thread of the device runs in the kernel: it gets back messages
that it sent, byte by byte, in order, and none twice.
-/

open Prog

variable {P : Type}

/-! ## The handler -/

/-- **Send the message received back to the sender.** -/
def sendBack (k : ℕ) : MsghlrProg P Bool := do
  let _ok ← forwardMessage k
  return true

/-- A work handler that has nothing to do. -/
def noWork : HandlerProg P Bool := return false

/-- A timer handler that has nothing to do. -/
def noTimer : UInt64 → HandlerProg P Unit := fun _time => return ()

/-- **What was sent is a sublist** of what was handled. -/
def SendsBack (l : Local P) : Prop :=
  ∀ k, (l.sent k).Sublist (handledFrom l.handled k)

section SendsBack

variable {l : Local P} {k n : ℕ} {m : DataMessage}

/-- The message that is being handled may be sent. -/
theorem SendsBack.handle (h : SendsBack l) (k : ℕ) (m : DataMessage) :
    SendsBack (l.handle k m) := by
  intro j
  show (l.sent j).Sublist (handledFrom (l.handled ++ [(k, m)]) j)
  by_cases hj : k = j
  · rw [hj, handledFrom_concat_self]
    exact (h j).trans (List.sublist_append_left ..)
  · rw [handledFrom_concat_of_ne _ hj]
    exact h j

theorem SendsBack.send (h : SendsBack l) (k : ℕ) (m : DataMessage) :
    SendsBack ((l.handle k m).send k m) := by
  intro j
  show (Function.update l.sent k (l.sent k ++ [m]) j).Sublist
    (handledFrom (l.handled ++ [(k, m)]) j)
  by_cases hj : j = k
  · rw [hj, Function.update_self, handledFrom_concat_self]
    exact (h k).append_right [m]
  · rw [Function.update_of_ne hj,
      handledFrom_concat_of_ne _ (fun hk => hj hk.symm)]
    exact h j

theorem sendBack_wp (hk : k < n) (h : SendsBack l) :
    (sendBack k).Wp (msghlrSpec n m (fun _ => True) SendsBack)
      (fun _ => SendsBack) (l.handle k m) := by
  refine Wp.bind ((forwardMessage_wp hk (h.handle k m) (h.send k m)).mono ?_)
  rintro ok l' rfl
  refine Wp.alone_ret ?_
  split
  · exact h.send k m
  · exact h.handle k m

end SendsBack

/-- **The proof of a node that sends everything back.** -/
def sendsBack (N : Node P)
    (hmsghlr : ∀ k < N.pairs.length, N.msghlr k = sendBack k)
    (hworkhlr : N.workhlr = noWork) (htimerhlr : N.timerhlr = noTimer) :
    NodeProof N where
  within _ := True
  expects _ _ _ := True
  always := SendsBack
  between := SendsBack
  always_of h := h
  handle _ h _ := h.handle _ _
  msghlr hk h _ := by
    rw [hmsghlr _ hk]
    exact sendBack_wp hk h
  workhlr h := by
    rw [hworkhlr]
    exact Wp.alone_ret h
  timerhlr now h := by
    rw [htimerhlr]
    exact Wp.alone_ret h

/-! ## The modules -/

/-- `kucomms_test_message_hlr`: `message_queue_add_tx0` adds to the first
pair, the only one a device has. -/
def kucommsTestMessageHlr : MsghlrProg P Bool := sendBack 0

/-- `kucomms_test_work_hlr` -/
def kucommsTestWorkHlr : HandlerProg P Bool := noWork

/-- `kucomms_test_timer_hlr` -/
def kucommsTestTimerHlr : UInt64 → HandlerProg P Unit := noTimer

/-- `kucomms_tutorial_message_hlr` -/
def kucommsTutorialMessageHlr : MsghlrProg P Bool := sendBack 0

/-- `kucomms_tutorial_work_hlr` -/
def kucommsTutorialWorkHlr : HandlerProg P Bool := noWork

/-- `kucomms_tutorial_timer_hlr` -/
def kucommsTutorialTimerHlr : UInt64 → HandlerProg P Unit := noTimer

/-- A device of `kucomms_test`. -/
def kucommsTestNode (hz vaddrLen : UInt64) (rx tx : ℕ) : Node P :=
  deviceNode hz vaddrLen rx tx kucommsTestMessageHlr kucommsTestWorkHlr
    kucommsTestTimerHlr

/-- A device of `kucomms_tutorial`. -/
def kucommsTutorialNode (hz vaddrLen : UInt64) (rx tx : ℕ) : Node P :=
  deviceNode hz vaddrLen rx tx kucommsTutorialMessageHlr
    kucommsTutorialWorkHlr kucommsTutorialTimerHlr

/-! ## A session -/

/-- **A device with a client.** The rings lie in the two halves of the
mapping, `vaddrLen` bytes from `vaddr` on: the client adds to the first and
gets from the second. -/
def sessionNetwork (vaddr : ℕ) (vaddrLen : UInt64) (device : Node P) :
    Network Unit P where
  node _ := device
  bufferLength _ := vaddrLen / 2
  fed a := a = vaddr
  drained a := a = vaddr + (vaddrLen / 2).toNat

/-- The rings of a device are two. -/
theorem sessionNetwork_wired {vaddrLen : UInt64} {vaddr : ℕ}
    {device : Node P} (hlen : 66 ≤ vaddrLen.toNat)
    (hbuffer : device.bufferLen = vaddrLen / 2)
    (hpairs : device.pairs = [(vaddr, vaddr + (vaddrLen / 2).toNat)]) :
    (sessionNetwork vaddr vaddrLen device).Wired := by
  have hlt := vaddrLen.toNat_lt
  have hhalf : (vaddrLen / 2).toNat = vaddrLen.toNat / 2 :=
    UInt64.toNat_div ..
  refine .single hpairs (by omega) (fun _ => ?_) ?_ (fun _ h => h)
    (fun _ h => h)
  · show 32 < (vaddrLen / 2).toNat ∧ (vaddrLen / 2).toNat < 2 ^ 63
    omega
  · show messageQueueGetQueueLength (vaddrLen / 2) ≤ device.bufferLen
    rw [hbuffer]
    exact queueLength_le (by omega) (by omega)

/-- **What a client of `kucomms_test` or `kucomms_tutorial` can count on**,
whatever it calls, and however its calls and the thread of the device run
into each other: the messages it gets are, in order, some of those the
handler was given, which are the first of those that the client has put into
the ring; and these are the ones it has added, each once, with that of a call
which is about to return true. -/
theorem device_sends_back {hz vaddrLen : UInt64} {vaddr : ℕ}
    (hlen : 66 ≤ vaddrLen.toNat) {device : Node P}
    (hdevice : device = kucommsTestNode hz vaddrLen vaddr
        (vaddr + (vaddrLen / 2).toNat)
      ∨ device = kucommsTutorialNode hz vaddrLen vaddr
        (vaddr + (vaddrLen / 2).toNat))
    {mem : ℕ → MessageQueueHeader} {memory : Unit → P}
    {x : (sessionNetwork vaddr vaddrLen device).machine.Conf}
    (hx : Machine.Reach _ (Machine.start _
      ((sessionNetwork vaddr vaddrLen device).start mem memory)) x) :
    x.st.got (vaddr + (vaddrLen / 2).toNat)
        <+: (x.st.rings (vaddr + (vaddrLen / 2).toNat)).accepted
      ∧ (x.st.rings (vaddr + (vaddrLen / 2).toNat)).accepted.Sublist
        (handledFrom (x.st.node ()).handled 0)
      ∧ handledFrom (x.st.node ()).handled 0 <+: (x.st.rings vaddr).accepted
      ∧ Network.Accounts (x.st.rings vaddr).accepted (x.st.added vaddr)
      ∧ (x.pc (.producer vaddr) = none →
        (x.st.rings vaddr).accepted = x.st.added vaddr)
      ∧ (x.st.node ()).phase ≠ .returned false := by
  obtain ⟨hnode, hpairs⟩ : device = deviceNode hz vaddrLen vaddr
        (vaddr + (vaddrLen / 2).toNat) (sendBack 0) noWork noTimer
      ∧ device.pairs = [(vaddr, vaddr + (vaddrLen / 2).toNat)] := by
    obtain rfl | rfl := hdevice <;> exact ⟨rfl, rfl⟩
  have hN : (sessionNetwork vaddr vaddrLen device).Wired :=
    sessionNetwork_wired hlen (by rw [hnode]; rfl) hpairs
  have hmsghlr : ∀ k < device.pairs.length, device.msghlr k = sendBack k := by
    intro k hk
    rw [hpairs, List.length_singleton] at hk
    obtain rfl : k = 0 := by omega
    rw [hnode]
    rfl
  have hproof := Network.reach_inv hN
    (fun _ => sendsBack device hmsghlr (by rw [hnode]; rfl) (by rw [hnode]; rfl))
    (fun _ _ _ => trivial) (fun _ k => List.Sublist.refl _)
    (hx.reachWhile fun _ _ => trivial)
  have hpair : ((sessionNetwork vaddr vaddrLen device).node ()).pairs[0]?
      = some (vaddr, vaddr + (vaddrLen / 2).toNat) := by
    show device.pairs[0]? = _
    rw [hpairs]
    rfl
  refine ⟨hproof.1.got _, ?_, hproof.1.handled () 0 _ hpair,
    hproof.1.added vaddr rfl, hproof.2.2 vaddr rfl, hproof.1.noError ()⟩
  have halways := hproof.1.always () 0
  rwa [show (Network.view _ () x.st).sent 0 = _ from Network.sent_eq hpair]
    at halways

/-- A small device of `kucomms_test` with a client. -/
abbrev smallSession : Network Unit Unit :=
  sessionNetwork 0 208 (kucommsTestNode 1 208 0 104)

/-- **A session** in which a message of three bytes comes back, while the
client adds the next one. -/
theorem device_sends_back_one : ∃ x : smallSession.machine.Conf,
    (x.st.got 104).map DataMessage.bytes
        = [(DataMessage.ofData [5, 6, 7]).bytes]
      ∧ (x.st.added 0).map DataMessage.bytes
        = [(DataMessage.ofData [5, 6, 7]).bytes]
      ∧ (x.st.got 104).Sublist (x.st.rings 0).accepted
      ∧ Network.Accounts (x.st.rings 0).accepted (x.st.added 0) := by
  obtain ⟨cmds, hcmds⟩ : ∃ cmds : List smallSession.machine.Cmd,
      cmds = [smallSession.addTo (a := 0) rfl [5, 6, 7], .finish (.producer 0),
          smallSession.addTo (a := 0) rfl [8], .acts (.producer 0) 20]
        ++ smallSession.nextTurn () ++ smallSession.nextTurn ()
        ++ [.acts (.producer 0) 10, .call (.consumer 104) (fun _ =>
          some ⟨.get 104 (fun _ => 0) 48, rfl, rfl⟩),
          .finish (.consumer 104)] := ⟨_, rfl⟩
  obtain ⟨start, hstart⟩ : ∃ start, start = smallSession.start
    (fun _ => .zeroed) (fun _ => ()) := ⟨_, rfl⟩
  have hone : ((smallSession.after cmds start).map fun x =>
      ((x.st.got 104).map DataMessage.bytes,
        (x.st.added 0).map DataMessage.bytes))
      = some ([(DataMessage.ofData [5, 6, 7]).bytes],
        [(DataMessage.ofData [5, 6, 7]).bytes]) := by
    subst hcmds hstart
    decide +kernel
  obtain ⟨x, hx, hone⟩ := Option.map_eq_some_iff.mp hone
  have hreach := smallSession.reach_of_after hx
  rw [hstart] at hreach
  obtain ⟨hgot, hsent, hhandled, hadded, -⟩ := device_sends_back (by decide)
    (.inl rfl) hreach
  exact ⟨x, (Prod.mk.inj hone).1, (Prod.mk.inj hone).2,
    (hgot.sublist.trans hsent).trans hhandled.sublist, hadded⟩
