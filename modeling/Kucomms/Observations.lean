import Kucomms.Observer
import Kucomms.Spsc

/-!
# What a side has observed

A side that asks how much there is to read, or how much is free, gets an
answer that is made of two loads, and the other side goes on meanwhile. Any
number of its operations may end before the answer is used. The answer still
holds: what the consumer has found to be there only it can take away, and
what the producer has found to be free only it can use up.

`spscLooking` is the system of `Kucomms.Spsc` in which the two sides may also
look while they hold a slot. `observations_stay_valid` says what comes of an
answer if the side that got it has not moved its index since.
-/

open Prog

/-- **One producer and one consumer on a ring**, which may make any call that
is proper. -/
def spscLooking (queueLength : UInt64) :
    Machine Side QAct QAct.Res SpscState where
  Call := SpscCall
  Ret := SpscCall.Ret
  prog := SpscCall.prog queueLength
  may i s c := c.side = i ∧ s.Proper c
  onCall _ c s := s.onCall c
  sem _ c a s r s' := s.exec c a = (r, s')
  onRet _ c v s := s.onRet c v

/-! ## What the calls have seen -/

/-- **What holds when a call is about to return**, with what the calls that
only look have seen. -/
def SpscCall.Seen (L : ℕ) : (c : SpscCall) → c.Ret → SpscState → Prop
  | .nextLength, r, s => Side.consumer.Idle L s ∧ ∀ k, r = some k →
      ∃ m, s.traced.accepted[s.traced.taken]? = some m ∧ k.toNat = m.size
  | .getAvail, a, s => Side.consumer.Idle L s
      ∧ a.toNat ≤ used s.traced.pending
  | .getFree, f, s => SpscInv L s ∧ used s.traced.pending + f.toNat < L
  | c, v, s => c.Post L v s

theorem SpscCall.Seen.post {L : ℕ} {c : SpscCall} {v : c.Ret}
    {s : SpscState} (h : c.Seen L v s) : c.Post L v s := by
  cases c with
  | nextLength => exact h.1
  | getAvail => exact h.1
  | getFree => exact h.1
  | _ => exact h

section Calls

variable {queueLength : UInt64} {s : SpscState}

/-- The calls that only look. -/
theorem nextLength_seen (hs : Side.consumer.Idle queueLength.toNat s) :
    (messageQueueNextLengthL queueLength).Wp
      (consumerSpec queueLength.toNat .nextLength)
      (SpscCall.Seen queueLength.toNat .nextLength) s := by
  refine (consumer_view hs.1 rfl (messageQueueNextLengthL_wp hs.1.traced
    rfl)).mono (fun r t ht => ⟨⟨ht.2.1, ?_⟩, fun k hk => ?_⟩)
  · rw [ht.2.2, hs.2, ht.1.taken]
  · obtain ⟨m, hm, hsize⟩ := ht.1.length k hk
    exact ⟨m, ht.1.taken.symm ▸ hm, hsize⟩

theorem getAvail_seen (hs : Side.consumer.Idle queueLength.toNat s) :
    (messageQueueGetAvailL queueLength).Wp
      (consumerSpec queueLength.toNat .getAvail)
      (SpscCall.Seen queueLength.toNat .getAvail) s := by
  refine (consumer_view hs.1 rfl (messageQueueGetAvailL_wp hs.1.traced
    rfl)).mono (fun a t ht => ⟨⟨ht.2.1, ?_⟩, ht.1.2.2.2⟩)
  rw [ht.2.2, hs.2, ht.1.2.1]

theorem getFree_seen
    (hL : 0 < queueLength.toNat ∧ queueLength.toNat < 2 ^ 63)
    (hs : SpscInv queueLength.toNat s) :
    (messageQueueGetFreeL queueLength).Wp
      (producerSpec queueLength.toNat .getFree)
      (SpscCall.Seen queueLength.toNat .getFree) s :=
  (producer_view hs (messageQueueGetFreeL_wp hL hs.traced rfl)).mono
    (fun _ _ ht => ⟨ht.2, ht.1.2.2.1⟩)

/-- **A call is correct**, and has seen what it returns. -/
theorem SpscCall.seen {c : SpscCall}
    (hL : 0 < queueLength.toNat ∧ queueLength.toNat < 2 ^ 63)
    (h : c.side.Idle queueLength.toNat s) (hmay : s.Proper c) :
    (c.side = .producer → ProducerStep queueLength.toNat s (s.onCall c)
      ∧ (c.prog queueLength).Wp (producerSpec queueLength.toNat c)
        (c.Seen queueLength.toNat) (s.onCall c))
    ∧ (c.side = .consumer → ConsumerStep queueLength.toNat s (s.onCall c)
      ∧ (c.prog queueLength).Wp (consumerSpec queueLength.toNat c)
        (c.Seen queueLength.toNat) (s.onCall c)) := by
  have hok := SpscCall.ok hL h hmay
  cases c with
  | nextLength =>
    exact ⟨nofun, fun hc => ⟨(hok.2 hc).1, nextLength_seen h⟩⟩
  | getAvail =>
    exact ⟨nofun, fun hc => ⟨(hok.2 hc).1, getAvail_seen h⟩⟩
  | getFree =>
    exact ⟨fun hc => ⟨(hok.1 hc).1, getFree_seen hL h⟩, nofun⟩
  | _ => exact hok

end Calls

/-- **The proof of the system.** -/
def lookingOutline (queueLength : UInt64)
    (hL : 0 < queueLength.toNat ∧ queueLength.toNat < 2 ^ 63) :
    (spscLooking queueLength).Outline where
  rely := Side.rely queueLength.toNat
  guar := Side.guar queueLength.toNat
  safe i _ := Side.safe queueLength.toNat i
  idle := Side.Idle queueLength.toNat
  post i c v s := c.side = i ∧ c.Seen queueLength.toNat v s
  rely_refl := Side.rely_refl queueLength
  rely_trans := Side.rely_trans queueLength
  guar_rely := Side.guar_rely queueLength
  idle_stable := Side.idle_stable queueLength
  call_ok {i s c} h hmay := by
    obtain ⟨rfl, hmay⟩ := hmay
    have hok := SpscCall.seen hL h hmay
    cases hi : c.side with
    | producer =>
      exact ⟨(hok.1 hi).1, (hok.1 hi).2.mono (fun v t ht => ⟨rfl, ht⟩)⟩
    | consumer =>
      exact ⟨(hok.2 hi).1, (hok.2 hi).2.mono (fun v t ht => ⟨rfl, ht⟩)⟩
  ret_ok {i s c v} h := by
    obtain ⟨rfl, h⟩ := h
    exact ret_ok h.post

/-! ## What stays true -/

/-- **Later in a run**: more was added, and more was consumed. -/
structure Later (s s' : SpscState) : Prop where
  accepted : s.traced.accepted <+: s'.traced.accepted
  taken : s.traced.taken ≤ s'.traced.taken

theorem Later.of_guar {L : ℕ} {i : Side} {s s' : SpscState}
    (h : i.guar L s s') : Later s s' := by
  cases i with
  | producer => exact ⟨h.writer.accepted, h.writer.taken.ge⟩
  | consumer =>
    exact ⟨h.reader.accepted.symm ▸ List.prefix_rfl, h.reader.taken⟩

namespace Later

variable {s s' t : SpscState}

theorem refl (s : SpscState) : Later s s := ⟨List.prefix_rfl, le_refl _⟩

theorem trans (h : Later s s') (h' : Later s' t) : Later s t :=
  ⟨h.accepted.trans h'.accepted, h.taken.trans h'.taken⟩

/-- What was added has its place. -/
theorem getElem? (h : Later s s') {i : ℕ} {m : DataMessage}
    (hm : s.traced.accepted[i]? = some m) :
    s'.traced.accepted[i]? = some m := by
  obtain ⟨new, hnew⟩ := h.accepted
  rw [← hnew, List.getElem?_append_left (List.getElem?_eq_some_iff.mp hm).1,
    hm]

/-- **The message at the head stays**, until it is consumed. -/
theorem head (h : Later s s') (htaken : s'.traced.taken = s.traced.taken)
    {m : DataMessage} (hm : s.traced.accepted[s.traced.taken]? = some m) :
    s'.traced.accepted[s'.traced.taken]? = some m := by
  rw [htaken]
  exact h.getElem? hm

/-- **What is free stays free**, until something is added. -/
theorem used_le (h : Later s s')
    (haccepted : s'.traced.accepted = s.traced.accepted) :
    used s'.traced.pending ≤ used s.traced.pending := by
  unfold Traced.pending
  rw [haccepted]
  exact used_drop_le h.taken

end Later

/-- What is in use begins with a message. -/
theorem exists_head {s : Traced} (h : 0 < used s.pending) :
    ∃ m, s.accepted[s.taken]? = some m := by
  by_contra hno
  have hlen : s.accepted.length ≤ s.taken := by
    by_contra hlt
    exact hno ⟨_, List.getElem?_eq_getElem (Nat.not_le.mp hlt)⟩
  have hnil : s.pending = [] := List.drop_eq_nil_of_le hlen
  rw [hnil] at h
  exact absurd h (Nat.lt_irrefl 0)

/-! ## The result -/

/-- **What was observed in `w` is still so** for a call that begins in `x` and
is about to return in `y`, if the side that observed it has not moved its
index in between. -/
structure StaysValid {queueLength : UInt64}
    (w x y : (spscLooking queueLength).Conf) : Prop where
  length : ∀ (k : UInt64) (buffer : Bytes) (bufferLen : UInt64)
    (g : GetResult), w.pc .consumer = some ⟨.nextLength, .ret (some k)⟩ →
    x.st.traced.taken = w.st.traced.taken → k ≤ bufferLen →
    (spscLooking queueLength).Makes .consumer (.get buffer bufferLen) x y g →
    g.ok = true ∧ g.error = false ∧ g.buffer.mLength.toNat + 32 = k.toNat
  free : ∀ (f : UInt64) (m : DataMessage) (ok : Bool),
    w.pc .producer = some ⟨.getFree, .ret f⟩ →
    x.st.traced.accepted = w.st.traced.accepted → m.size ≤ f.toNat →
    (spscLooking queueLength).Makes .producer (.add m) x y ok → ok = true
  avail : ∀ (a : UInt64) (r : Option (Option ℕ)),
    w.pc .consumer = some ⟨.getAvail, .ret a⟩ →
    x.st.traced.taken = w.st.traced.taken → 0 < a →
    (spscLooking queueLength).Makes .consumer .getBegin x y r → r ≠ none

section Result

variable {bufferLength : UInt64} {h : MessageQueueHeader}
  {w x y : (spscLooking (messageQueueGetQueueLength bufferLength)).Conf}
  (hL : 0 < (messageQueueGetQueueLength bufferLength).toNat
    ∧ (messageQueueGetQueueLength bufferLength).toNat < 2 ^ 63)
  (hx : (spscLooking (messageQueueGetQueueLength bufferLength)).Reach
    (Machine.start _ (spscStart bufferLength h)) x)

include hL hx

/-- What a run leads to is later. -/
theorem later_of_reach (hxy : (spscLooking _).Reach x y) : Later x.st y.st :=
  (lookingOutline _ hL).relates Later.refl Later.trans Later.of_guar
    (fun i => spscStart_idle hL.1 i) hx hxy

/-- **A message at the head is got**, if the buffer is long enough. -/
theorem get_head {buffer : Bytes} {bufferLen : UInt64} {g : GetResult}
    {m : DataMessage}
    (hm : x.st.traced.accepted[x.st.traced.taken]? = some m)
    (hfits : m.size ≤ bufferLen.toNat)
    (hcall : (spscLooking _).Makes .consumer (.get buffer bufferLen) x y g) :
    g.ok = true ∧ g.error = false ∧ DataMessage.ofMem g.buffer = m := by
  let O := lookingOutline (messageQueueGetQueueLength bufferLength) hL
  have h0 : ∀ i, O.idle i (spscStart bufferLength h) :=
    fun i => spscStart_idle hL.1 i
  have hidle : Side.Idle _ .consumer x.st := O.idle_of_reach h0 hx hcall.idle
  have hget : (SpscCall.prog _ (.get buffer bufferLen)).Wp
      (readerSpec _ (SpscCall.get buffer bufferLen).msg) _ x.st.traced :=
    messageQueueGetL_wp hL.2 hidle.1.traced rfl
  have hwp := consumer_view (c := .get buffer bufferLen) hidle.1 rfl hget
  have hpost := (O.post_of_makes h0 hx hcall hwp).1
  have hstays : y.st.traced.accepted[x.st.traced.taken]? = some m :=
    (later_of_reach hL hx hcall.reach).getElem? hm
  cases herror : g.error with
  | true =>
    obtain ⟨m', hm', hsmall⟩ := hpost.error herror
    obtain rfl := Option.some.inj (hstays.symm.trans hm')
    omega
  | false =>
    cases hok : g.ok with
    | true =>
      obtain ⟨-, hmsg, -⟩ := hpost.message hok
      exact ⟨rfl, rfl, Option.some.inj (hmsg.symm.trans hstays)⟩
    | false =>
      have hnone := hpost.empty hok herror
      have hlt := (List.getElem?_eq_some_iff.mp hm).1
      omega

/-- **A message at the head is found.** -/
theorem getBegin_head {r : Option (Option ℕ)} {m : DataMessage}
    (hm : x.st.traced.accepted[x.st.traced.taken]? = some m)
    (hcall : (spscLooking _).Makes .consumer .getBegin x y r) : r ≠ none := by
  let O := lookingOutline (messageQueueGetQueueLength bufferLength) hL
  have h0 : ∀ i, O.idle i (spscStart bufferLength h) :=
    fun i => spscStart_idle hL.1 i
  have hidle : Side.Idle _ .consumer x.st := O.idle_of_reach h0 hx hcall.idle
  have hbegin : (SpscCall.prog _ .getBegin).Wp
      (readerSpec _ SpscCall.getBegin.msg) _ x.st.traced :=
    messageQueueGetBeginL_wp hidle.1.traced rfl
  have hwp := consumer_view (c := .getBegin) hidle.1 rfl hbegin
  have hpost := (O.post_of_makes h0 hx hcall hwp).1
  intro hr
  have hnone := hpost.empty hr
  have hlt := (List.getElem?_eq_some_iff.mp hm).1
  omega

/-- **A message for which there is room is added.** -/
theorem add_free {m : DataMessage} {ok : Bool}
    (hroom : used x.st.traced.pending + m.size
      < (messageQueueGetQueueLength bufferLength).toNat)
    (hcall : (spscLooking _).Makes .producer (.add m) x y ok) :
    ok = true := by
  let O := lookingOutline (messageQueueGetQueueLength bufferLength) hL
  have h0 : ∀ i, O.idle i (spscStart bufferLength h) :=
    fun i => spscStart_idle hL.1 i
  have hidle : Side.Idle _ .producer x.st := O.idle_of_reach h0 hx hcall.idle
  have hadd : (SpscCall.prog _ (.add m)).Wp
      (writerSpec _ (SpscCall.add m).msg) _ x.st.traced :=
    messageQueueAddL_wp hL hcall.may.2 (fun _ => rfl) hidle.traced rfl
  have hwp := producer_view (c := .add m) hidle hadd
  have hpost := (O.post_of_makes h0 hx hcall hwp).1
  by_contra hno
  have hfull := hpost.full (Bool.eq_false_iff.mpr hno)
  omega

end Result

/-- **What a side has observed stays valid**, whatever the other side does
before it is used. -/
theorem observations_stay_valid {bufferLength : UInt64}
    (h32 : 32 < bufferLength.toNat) (h63 : bufferLength.toNat < 2 ^ 63)
    {h : MessageQueueHeader}
    {w x y : (spscLooking (messageQueueGetQueueLength bufferLength)).Conf}
    (hw : (spscLooking (messageQueueGetQueueLength bufferLength)).Reach
      (Machine.start _ (spscStart bufferLength h)) w)
    (hwx : (spscLooking (messageQueueGetQueueLength bufferLength)).Reach w x) :
    StaysValid w x y := by
  have hL := queueLength_bounds h32 h63
  let O := lookingOutline (messageQueueGetQueueLength bufferLength) hL
  have h0 : ∀ i, O.idle i (spscStart bufferLength h) :=
    fun i => spscStart_idle hL.1 i
  have hx := hw.trans hwx
  have hlater := later_of_reach hL hw hwx
  refine ⟨fun k buffer bufferLen g hpc htaken hfits hcall => ?_,
    fun f m ok hpc haccepted hfits hcall => ?_,
    fun a r hpc htaken hpos hcall => ?_⟩
  · obtain ⟨-, -, hseen⟩ := O.post_of_reach h0 hw hpc
    obtain ⟨m, hm, hsize⟩ := hseen k rfl
    rw [UInt64.le_iff_toNat_le, hsize] at hfits
    obtain ⟨hok, herror, hmsg⟩ := get_head hL hx (hlater.head htaken hm) hfits
      hcall
    refine ⟨hok, herror, ?_⟩
    rw [hsize, ← hmsg, DataMessage.size_ofMem]
  · obtain ⟨-, -, hseen⟩ := O.post_of_reach h0 hw hpc
    have hle := hlater.used_le haccepted
    exact add_free hL hx (by omega) hcall
  · obtain ⟨-, -, hseen⟩ := O.post_of_reach h0 hw hpc
    have hpos' := UInt64.lt_iff_toNat_lt.mp hpos
    rw [UInt64.toNat_zero] at hpos'
    obtain ⟨m, hm⟩ := exists_head (Nat.lt_of_lt_of_le hpos' hseen)
    exact getBegin_head hL hx (hlater.head htaken hm) hcall

/-- A call made while both sides are idle may be left alone until it is about
to return. -/
theorem looking_returns {queueLength : UInt64}
    {x : (spscLooking queueLength).Conf} {s : SpscState} (c : SpscCall)
    (hx : (spscLooking queueLength).Reach x ⟨s, fun _ => none⟩)
    (hmay : s.Proper c) {v : c.Ret}
    (hv : ((c.prog queueLength).run (SpscState.exec c) (s.onCall c)).1 = v) :
    ∃ w, (spscLooking queueLength).Reach x w
      ∧ w.pc c.side = some ⟨c, .ret v⟩ := by
  subst hv
  have hexec : ∀ a s, (spscLooking queueLength).sem c.side c a s
      (s.exec c a).1 (s.exec c a).2 := fun _ _ => rfl
  have hcall : (spscLooking queueLength).Step c.side ⟨s, fun _ => none⟩
      ⟨s.onCall c, Function.update (fun _ => none) c.side
        (some ⟨c, c.prog queueLength⟩)⟩ :=
    Machine.Step.call (M := spscLooking queueLength) c rfl ⟨rfl, hmay⟩
  refine ⟨_, (hx.trans (.step _ .refl hcall)).trans (Machine.Reach.run hexec),
    ?_⟩
  simp only [Function.update_self]
  rfl

/-- A message of three bytes was added, and the consumer has asked for its
length: it gets it, whatever happens before it does. -/
theorem observations_stay_valid_one :
    ∃ w, (spscLooking (messageQueueGetQueueLength 200)).Reach
        (Machine.start _ (spscStart 200 .zeroed)) w
      ∧ w.pc .consumer = some ⟨.nextLength, .ret (some 35)⟩
      ∧ ∀ x y buffer g,
        (spscLooking (messageQueueGetQueueLength 200)).Reach w x →
        x.st.traced.taken = w.st.traced.taken →
        (spscLooking (messageQueueGetQueueLength 200)).Makes .consumer
          (.get buffer 40) x y g → g.ok = true := by
  have hadd : (spscLooking (messageQueueGetQueueLength 200)).Reach
      ⟨spscStart 200 .zeroed, fun _ => none⟩ _ :=
    Machine.Reach.call (M := spscLooking _) (i := .producer)
      (.add (.ofData [5, 6, 7])) (SpscState.exec (.add (.ofData [5, 6, 7])))
      (fun _ _ => rfl) rfl
      ⟨rfl, by show DataMessage.size _ < _; decide +kernel⟩
  obtain ⟨w, hw, hseen⟩ := looking_returns .nextLength hadd trivial
    (v := some 35) (by decide +kernel)
  exact ⟨w, hw, hseen, fun x y buffer g hwx htaken hcall =>
    ((observations_stay_valid (by decide) (by decide) hw hwx).length 35 buffer
      40 g hseen htaken (by decide) hcall).1⟩
