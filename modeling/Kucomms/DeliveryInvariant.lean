import Mathlib.Data.List.Infix
import Kucomms.DeliveryMachine
import Kucomms.QueueReader
import Kucomms.QueueWriter

/-!
# What holds around the manager

`DeliveryInv` says of every pair that its receive ring is in order, that the
messages delivered from it are a prefix of those accepted, and that the
pointer the message handler was given shows the message it was given, as long
as it has not returned.

A message goes one of two ways. If it lies in one piece the handler is given
a pointer into the ring and the message is consumed after that; if not, it is
consumed first and the handler is given the bounce buffer. So the number of
messages delivered from a ring is, for a while, one more than the number
consumed, or one less; `Settled` says that it is the same.

The rules at the end are one for each kind of action of the manager: on the
receive ring it serves (`ring_wp`), the call of the message handler
(`callMsghlr_wp`), and the rest (`quiet_wp`).
-/

open Prog

/-! ## The invariant -/

section Invariant

variable {ps : List RingPair} {s s' t : DeliveryState}

/-- A delivery has the transmit ring and the lengths of its pair. -/
def Delivery.Matches (ps : List RingPair) (d : Delivery) : Prop :=
  ∃ p, ps[d.pair]? = some p ∧ d.tx = p.tx ∧ d.rxLen = p.rxLen
    ∧ d.txLen = p.txLen

/-- The pointer of a delivery shows its message: it is the bounce buffer, or
the slot at the head of the receive ring of its pair. -/
def Delivery.Shows (ps : List RingPair) (s : DeliveryState) (d : Delivery) :
    Prop :=
  match d.ptr with
  | .ring msgq slot => ∃ p t₀, ps[d.pair]? = some p ∧ msgq = p.rx
    ∧ Leased p.rxLen.toNat t₀ slot d.message (s.rings p.rx)
  | .buffer content => DataMessage.ofMem content = d.message

/-- **The invariant.** -/
structure DeliveryInv (ps : List RingPair) (s : DeliveryState) : Prop where
  rings : ∀ p ∈ ps, (s.rings p.rx).Inv p.rxLen.toNat
  delivered : ∀ i p, ps[i]? = some p →
    fromPair s.delivered i <+: (s.rings p.rx).accepted
  matching : ∀ d ∈ s.delivered, d.Matches ps
  shows : ∀ d, s.current = some d → d.Shows ps s
  noError : s.manager ≠ .returned false

/-- **What the producers do.** -/
structure Fed (ps : List RingPair) (s s' : DeliveryState) : Prop where
  writer : ∀ p ∈ ps,
    WriterStep p.rxLen.toNat (s.rings p.rx) (s'.rings p.rx)
  delivered : s'.delivered = s.delivered
  current : s'.current = s.current
  manager : s'.manager = s.manager

/-- **What the producer of a ring does.** -/
structure Feeds (p : RingPair) (s s' : DeliveryState) : Prop where
  writer : WriterStep p.rxLen.toNat (s.rings p.rx) (s'.rings p.rx)
  others : ∀ a, a ≠ p.rx → s'.rings a = s.rings a
  delivered : s'.delivered = s.delivered
  current : s'.current = s.current
  manager : s'.manager = s.manager

/-- **What the manager does.** -/
structure Drains (ps : List RingPair) (s s' : DeliveryState) : Prop where
  inv : DeliveryInv ps s → DeliveryInv ps s'
  reader : ∀ p ∈ ps,
    ReaderStep p.rxLen.toNat (s.rings p.rx) (s'.rings p.rx)

theorem Fed.refl (ps : List RingPair) (s : DeliveryState) : Fed ps s s :=
  ⟨fun _ _ => WriterStep.refl _, rfl, rfl, rfl⟩

theorem Fed.trans (h : Fed ps s s') (h' : Fed ps s' t) : Fed ps s t :=
  ⟨fun p hp => (h.writer p hp).trans (h'.writer p hp),
    h'.delivered.trans h.delivered, h'.current.trans h.current,
    h'.manager.trans h.manager⟩

/-- A message that is shown goes on to be shown. -/
theorem Delivery.Shows.stable {d : Delivery} (h : d.Shows ps s)
    (hfed : Fed ps s s') : d.Shows ps s' := by
  unfold Delivery.Shows at h ⊢
  split at h
  · obtain ⟨p, t₀, hp, hmsgq, hleased⟩ := h
    exact ⟨p, t₀, hp, hmsgq,
      hleased.stable (hfed.writer p (List.mem_of_getElem? hp))⟩
  · exact h

/-- **The producers keep the invariant.** -/
theorem Fed.inv (hfed : Fed ps s s') (h : DeliveryInv ps s) :
    DeliveryInv ps s' := by
  refine ⟨fun p hp => (hfed.writer p hp).inv (h.rings p hp), fun i p hp => ?_,
    hfed.delivered ▸ h.matching, fun d hd => ?_, hfed.manager ▸ h.noError⟩
  · rw [hfed.delivered]
    exact (h.delivered i p hp).trans
      (hfed.writer p (List.mem_of_getElem? hp)).accepted
  · rw [hfed.current] at hd
    exact (h.shows d hd).stable hfed

/-- Receive rings in different places. -/
def DistinctRx (ps : List RingPair) : Prop := (ps.map RingPair.rx).Nodup

theorem DistinctRx.eq_of_rx (h : DistinctRx ps) {i j : ℕ} {p q : RingPair}
    (hp : ps[i]? = some p) (hq : ps[j]? = some q) (hrx : p.rx = q.rx) :
    i = j := by
  have hi : i < (ps.map RingPair.rx).length := by
    rw [List.length_map]
    exact (List.getElem?_eq_some_iff.mp hp).1
  refine (List.getElem?_inj hi h).mp ?_
  rw [List.getElem?_map, List.getElem?_map, hp, hq]
  exact congrArg some hrx

/-- What one producer does is what producers do. -/
theorem Feeds.fed (hps : DistinctRx ps) {i : ℕ} {p : RingPair}
    (hp : ps[i]? = some p) (h : Feeds p s s') : Fed ps s s' := by
  refine ⟨fun q hq => ?_, h.delivered, h.current, h.manager⟩
  obtain ⟨j, hj⟩ := List.mem_iff_getElem?.mp hq
  by_cases hrx : q.rx = p.rx
  · obtain rfl := hps.eq_of_rx hj hp hrx
    obtain rfl := Option.some.inj (hj.symm.trans hp)
    exact h.writer
  · rw [h.others q.rx hrx]
    exact WriterStep.refl _

/-- **Every message delivered is consumed, and no other**, and no message is
being delivered. -/
structure Settled (ps : List RingPair) (s : DeliveryState) : Prop where
  inv : DeliveryInv ps s
  current : s.current = none
  taken : ∀ i p, ps[i]? = some p →
    (fromPair s.delivered i).length = (s.rings p.rx).taken

/-- **While a message of the pair `i` is on its way**: the deliveries are
`ds`, and as many as are consumed from the other rings. -/
structure Serving (ps : List RingPair) (i : ℕ) (ds : List Delivery)
    (c : Option Delivery) (s : DeliveryState) : Prop where
  inv : DeliveryInv ps s
  delivered : s.delivered = ds
  current : s.current = c
  taken : ∀ j q, ps[j]? = some q → j ≠ i →
    (fromPair ds j).length = (s.rings q.rx).taken

theorem Settled.stable (h : Settled ps s) (hfed : Fed ps s s') :
    Settled ps s' := by
  refine ⟨hfed.inv h.inv, hfed.current.trans h.current, fun i p hp => ?_⟩
  rw [hfed.delivered, (hfed.writer p (List.mem_of_getElem? hp)).taken]
  exact h.taken i p hp

theorem Serving.stable {i : ℕ} {ds : List Delivery} {c : Option Delivery}
    (h : Serving ps i ds c s) (hfed : Fed ps s s') :
    Serving ps i ds c s' := by
  refine ⟨hfed.inv h.inv, hfed.delivered.trans h.delivered,
    hfed.current.trans h.current, fun j q hq hj => ?_⟩
  rw [(hfed.writer q (List.mem_of_getElem? hq)).taken]
  exact h.taken j q hq hj

/-- A pair is going to be served. -/
theorem Settled.serving (h : Settled ps s) (i : ℕ) :
    Serving ps i s.delivered none s :=
  ⟨h.inv, rfl, h.current, fun j q hq _ => h.taken j q hq⟩

/-- A pair has been served. -/
theorem Serving.settled {i : ℕ} {ds : List Delivery} {p : RingPair}
    (h : Serving ps i ds none s) (hp : ps[i]? = some p)
    (htaken : (s.rings p.rx).taken = (fromPair ds i).length) :
    Settled ps s := by
  refine ⟨h.inv, h.current, fun j q hq => ?_⟩
  rw [h.delivered]
  by_cases hj : j = i
  · subst hj
    obtain rfl := Option.some.inj (hq.symm.trans hp)
    exact htaken.symm
  · exact h.taken j q hq hj

end Invariant

/-- A call that sets `*error` was given a buffer that is too small for some
message in the ring. -/
theorem GetPost.buffer_lt {L : UInt64} {t₀ n₀ : ℕ} {bufferLen : UInt64}
    {g : GetResult} {s : Traced}
    (h : GetPost L.toNat t₀ n₀ bufferLen g s) (hg : g.error = true) :
    ¬L ≤ bufferLen := by
  have hok : g.ok = false := by
    by_contra hok
    obtain ⟨herror, -⟩ := h.message (Bool.eq_true_of_not_eq_false hok)
    exact Bool.false_ne_true (herror.symm.trans hg)
  obtain ⟨m, hm, hlt⟩ := h.error hg
  have htaken := h.taken
  rw [hok] at htaken
  obtain rfl : s.taken = t₀ := htaken
  rw [UInt64.le_iff_toNat_le, not_le]
  exact hlt.trans ((Traced.head_size_le hm).trans_lt h.inv.used_lt)

/-- A slot that is returned is the one of the message at the head. -/
theorem GetBeginPost.leased {L t₀ n₀ slot : ℕ} {s : Traced} {m : DataMessage}
    (h : GetBeginPost L t₀ n₀ (some (some slot)) s)
    (hm : s.accepted[t₀]? = some m)
    (hslot : some slot = if s.ring.mRd.toNat + m.size ≤ L
      then some s.ring.mRd.toNat else none) : Leased L t₀ slot m s := by
  split at hslot
  · next hfits =>
    obtain rfl := Option.some.inj hslot
    exact ⟨⟨⟨h.inv, h.taken, rfl⟩, hm⟩, rfl, hfits⟩
  · cases hslot

/-! ## The manager's actions -/

section Manager

variable {ps : List RingPair} {msg : MessageQueueHeader → DataMessage}
  {s : DeliveryState} {i : ℕ} {p : RingPair} {ds : List Delivery} {α : Type}

/-- The specification of the manager. -/
abbrev managerSpec (ps : List RingPair)
    (msg : MessageQueueHeader → DataMessage) :
    RGSpec MgrAct MgrAct.Res DeliveryState :=
  ⟨DeliverySem ps msg, fun _ _ => True, Fed ps, Drains ps, Fed.refl ps,
    Fed.trans⟩

/-- What handlers may do to memory is less than what producers may. -/
theorem KeepsRx.fed {rings : ℕ → Traced} (h : KeepsRx ps s.rings rings) :
    Fed ps s { s with rings := rings } := by
  refine ⟨fun q hq => ?_, rfl, rfl, rfl⟩
  show WriterStep _ _ (rings q.rx)
  rw [h q hq]
  exact WriterStep.refl _

theorem KeepsRx.drains {rings : ℕ → Traced} (h : KeepsRx ps s.rings rings) :
    Drains ps s { s with rings := rings } := by
  refine ⟨h.fed.inv, fun q hq => ?_⟩
  show ReaderStep _ _ (rings q.rx)
  rw [h q hq]
  exact ReaderStep.refl _

/-- **A quiet action.** -/
theorem quiet_wp {a : MgrAct} {k : a.Res → MgrProg α}
    {Q : α → DeliveryState → Prop} (ha : a.quiet = true) (hs : Settled ps s)
    (h : ∀ r t, Settled ps t → (k r).Wp (managerSpec ps msg) Q t) :
    (Prog.act a k).Wp (managerSpec ps msg) Q s := by
  refine Wp.act_of (fun _ _ => Settled.stable) hs (fun t ht =>
    ⟨trivial, fun r u hu => ?_⟩)
  cases hu with
  | quiet _ hrx => exact ⟨hrx.drains, h r _ (ht.stable hrx.fed)⟩
  | ring msgq a => exact absurd ha Bool.false_ne_true
  | msghlr hrx => exact absurd ha Bool.false_ne_true
  | msghlrReturn hrx => exact absurd ha Bool.false_ne_true

/-- What a reader does to one ring it does to no other. -/
theorem DistinctRx.reader_update (hps : DistinctRx ps)
    (hp : ps[i]? = some p) {rings : ℕ → Traced} {u : Traced}
    (hstep : ReaderStep p.rxLen.toNat (rings p.rx) u) :
    ∀ q ∈ ps, ReaderStep q.rxLen.toNat (rings q.rx)
      (Function.update rings p.rx u q.rx) := by
  intro q hq
  obtain ⟨j, hj⟩ := List.mem_iff_getElem?.mp hq
  by_cases hrx : q.rx = p.rx
  · obtain rfl := hps.eq_of_rx hj hp hrx
    obtain rfl := Option.some.inj (hj.symm.trans hp)
    rw [Function.update_self]
    exact hstep
  · rw [Function.update_of_ne hrx]
    exact ReaderStep.refl _

/-- **A step of the reader of a ring**, while no message is being
delivered. -/
theorem Serving.drain (hps : DistinctRx ps) (hp : ps[i]? = some p)
    (hs : Serving ps i ds none s) {u : Traced}
    (hstep : ReaderStep p.rxLen.toNat (s.rings p.rx) u) :
    Drains ps s { s with rings := Function.update s.rings p.rx u }
      ∧ Serving ps i ds none
        { s with rings := Function.update s.rings p.rx u } := by
  have hother : ∀ j q, ps[j]? = some q → j ≠ i →
      Function.update s.rings p.rx u q.rx = s.rings q.rx := fun j q hq hj =>
    Function.update_of_ne (fun hrx => hj (hps.eq_of_rx hq hp hrx)) _ _
  have hreader := hps.reader_update hp hstep
  have hinv : DeliveryInv ps
      { s with rings := Function.update s.rings p.rx u } := by
    refine ⟨fun q hq => (hreader q hq).inv (hs.inv.rings q hq),
      fun j q hq => ?_, hs.inv.matching, fun d hd => ?_, hs.inv.noError⟩
    · show _ <+: (Function.update s.rings p.rx u q.rx).accepted
      rw [(hreader q (List.mem_of_getElem? hq)).accepted]
      exact hs.inv.delivered j q hq
    · exact nomatch hs.current.symm.trans hd
  refine ⟨⟨fun _ => hinv, hreader⟩, hinv, hs.delivered, hs.current,
    fun j q hq hj => ?_⟩
  show _ = (Function.update s.rings p.rx u q.rx).taken
  rw [hother j q hq hj]
  exact hs.taken j q hq hj

/-- **An operation on the receive ring of the pair that is served** is as
correct as alone with the ring. -/
theorem ring_wp {q : QProg α} {Q : α → Traced → Prop} (hps : DistinctRx ps)
    (hp : ps[i]? = some p) (hs : Serving ps i ds none s)
    (h : q.Wp (readerSpec p.rxLen.toNat msg) Q (s.rings p.rx)) :
    (QProg.at q p.rx).Wp (managerSpec ps msg)
      (fun v s => Q v (s.rings p.rx) ∧ Serving ps i ds none s) s := by
  refine Wp.embed (managerSpec ps msg) (MgrAct.ring p.rx) (fun _ r => r)
    (fun s => s.rings p.rx) (Serving ps i ds none) (fun _ _ _ _ => trivial)
    (fun a t r t' ht _ hsem => ?_) (fun t t' ht hfed => ⟨hfed.writer p
      (List.mem_of_getElem? hp), ht.stable hfed⟩) hs h
  cases hsem with
  | ring =>
    obtain ⟨u, hu⟩ : ∃ u, u = ((t.rings p.rx).exec msg a).2 := ⟨_, rfl⟩
    rw [← hu]
    show (t.rings p.rx).exec msg a = (_, Function.update t.rings p.rx u p.rx)
      ∧ (ReaderStep p.rxLen.toNat (t.rings p.rx)
        (Function.update t.rings p.rx u p.rx) → _)
    rw [Function.update_self, hu]
    exact ⟨rfl, fun hstep => ht.drain hps hp hstep⟩
  | quiet ha hrx => exact absurd ha Bool.false_ne_true

/-- The deliveries from each pair are accepted messages once the next message
of the pair `i` is delivered. -/
theorem Serving.deliveries {d : Delivery} (hp : ps[i]? = some p)
    (hs : Serving ps i ds none s) (hpair : d.pair = i)
    (hnext : (s.rings p.rx).accepted[(fromPair ds i).length]?
      = some d.message) (j : ℕ) (q : RingPair) (hq : ps[j]? = some q) :
    fromPair (s.delivered ++ [d]) j <+: (s.rings q.rx).accepted := by
  subst hpair
  have hbefore := hs.inv.delivered j q hq
  by_cases hj : j = d.pair
  · subst hj
    obtain rfl := Option.some.inj (hq.symm.trans hp)
    rw [fromPair_concat_self]
    rw [← hs.delivered] at hnext
    obtain ⟨hlt, hget⟩ := List.getElem?_eq_some_iff.mp hnext
    rw [← hget]
    exact List.concat_get_prefix hbefore hlt
  · rw [fromPair_concat_ne hj]
    exact hbefore

/-- **The next message of the pair is delivered**, with a pointer that shows
it. -/
theorem Serving.deliver {d : Delivery} {rings : ℕ → Traced}
    (hp : ps[i]? = some p) (hs : Serving ps i ds none s)
    (hrx : KeepsRx ps s.rings rings) (hpair : d.pair = i)
    (hmatch : d.Matches ps)
    (hnext : (s.rings p.rx).accepted[(fromPair ds i).length]?
      = some d.message)
    (hshows : d.Shows ps (s.deliver d rings)) :
    Serving ps i (ds ++ [d]) (some d) (s.deliver d rings) := by
  have hinv : DeliveryInv ps (s.deliver d rings) := by
    refine ⟨hrx.fed.inv hs.inv |>.rings, fun j q hq => ?_, fun d' hd' => ?_,
      fun d' hd' => ?_, hs.inv.noError⟩
    · show _ <+: (rings q.rx).accepted
      rw [hrx q (List.mem_of_getElem? hq)]
      exact hs.deliveries hp hpair hnext j q hq
    · obtain hd' | hd' := List.mem_append.mp hd'
      · exact hs.inv.matching d' hd'
      · obtain rfl := List.mem_singleton.mp hd'
        exact hmatch
    · obtain rfl := Option.some.inj hd'
      exact hshows
  refine ⟨hinv, congrArg (· ++ [d]) hs.delivered, rfl, fun j q hq hj => ?_⟩
  rw [fromPair_concat_ne (hpair ▸ hj)]
  exact (hs.taken j q hq hj).trans
    (congrArg Traced.taken (hrx q (List.mem_of_getElem? hq)).symm)

/-- **The handler returns.** -/
theorem Serving.returned {c : Option Delivery} {rings : ℕ → Traced}
    (hs : Serving ps i ds c s) (hrx : KeepsRx ps s.rings rings) :
    Serving ps i ds none { s with rings := rings, current := none } := by
  have hfed := hrx.fed.inv hs.inv
  refine ⟨⟨hfed.rings, hfed.delivered, hfed.matching, (fun _ h => nomatch h),
    hfed.noError⟩, hs.delivered, rfl, fun j q hq hj => ?_⟩
  exact (hs.taken j q hq hj).trans
    (congrArg Traced.taken (hrx q (List.mem_of_getElem? hq)).symm)

/-- **The call of the message handler**, with a pointer `ptr` that shows the
next message `m` of the pair as long as `K` holds of its ring. -/
theorem callMsghlr_wp (msg : MessageQueueHeader → DataMessage)
    (ptr : MessagePtr) {m : DataMessage}
    {K : Traced → Prop} (hp : ps[i]? = some p)
    (hK : ∀ t t', K t → WriterStep p.rxLen.toNat t t' → K t')
    (hnext : ∀ t, K t → t.accepted[(fromPair ds i).length]? = some m)
    (hshown : ∀ s : DeliveryState, K (s.rings p.rx) → s.shown ptr = m)
    (hshows : ∀ s : DeliveryState, K (s.rings p.rx) →
      (⟨i, ptr, m, p.tx, p.rxLen, p.txLen⟩ : Delivery).Shows ps s)
    (hs : Serving ps i ds none s) (hk : K (s.rings p.rx)) :
    (callMsghlr i ptr p.tx p.rxLen p.txLen).Wp (managerSpec ps msg)
      (fun _ s => Serving ps i
        (ds ++ [⟨i, ptr, m, p.tx, p.rxLen, p.txLen⟩]) none s
        ∧ K (s.rings p.rx)) s := by
  have hpmem := List.mem_of_getElem? hp
  have hstable : ∀ ds c, (managerSpec ps msg).Stable
      (fun s => Serving ps i ds c s ∧ K (s.rings p.rx)) :=
    fun ds c t t' ht hfed => ⟨ht.1.stable hfed,
      hK _ _ ht.2 (hfed.writer p hpmem)⟩
  refine Wp.act_of (hstable ds none) ⟨hs, hk⟩ (fun t ht =>
    ⟨trivial, fun r u hu => ?_⟩)
  obtain ⟨ht, hkt⟩ := ht
  cases hu with
  | quiet ha hrx => exact absurd ha Bool.false_ne_true
  | @msghlr _ _ _ _ _ _ rings hrx =>
    rw [hshown t hkt]
    have hku : K (rings p.rx) := (hrx p hpmem).symm ▸ hkt
    have hserving := ht.deliver hp hrx rfl ⟨p, hp, rfl, rfl, rfl⟩
      (hnext _ hkt) (hshows (t.deliver _ rings) hku)
    refine ⟨⟨fun _ => hserving.inv, fun q hq => hrx.drains.reader q hq⟩, ?_⟩
    refine Wp.act_of (hstable _ _) ⟨hserving, hku⟩ (fun v hv =>
      ⟨trivial, fun r w hw => ?_⟩)
    obtain ⟨hv, hkv⟩ := hv
    cases hw with
    | quiet ha hrx => exact absurd ha Bool.false_ne_true
    | @msghlrReturn _ _ rings' hrx' =>
      have hreturned := hv.returned hrx'
      have hkw : K (rings' p.rx) := (hrx' p hpmem).symm ▸ hkv
      exact ⟨⟨fun _ => hreturned.inv, fun q hq => hrx'.drains.reader q hq⟩,
        Wp.ret_of (hstable _ _) ⟨hreturned, hkw⟩ (fun _ h => h)⟩

/-- The handler is given the bounce buffer, with a message that has been
consumed. -/
theorem callMsghlr_buffer_wp {content : Bytes} (hp : ps[i]? = some p)
    (hs : Serving ps i ds none s)
    (htaken : (s.rings p.rx).taken = (fromPair ds i).length + 1)
    (hnext : (s.rings p.rx).accepted[(fromPair ds i).length]?
      = some (DataMessage.ofMem content)) :
    (callMsghlr i (.buffer content) p.tx p.rxLen p.txLen).Wp
      (managerSpec ps msg) (fun _ s => Settled ps s) s := by
  let K : Traced → Prop := fun x =>
    x.taken = (fromPair ds i).length + 1 ∧
      x.accepted[(fromPair ds i).length]? = some (DataMessage.ofMem content)
  have hK : ∀ t t', K t → WriterStep p.rxLen.toNat t t' → K t' :=
    fun _ _ ht hr => ⟨hr.taken.trans ht.1, hr.getElem? ht.2⟩
  have hcall := callMsghlr_wp msg (.buffer content)
    (m := DataMessage.ofMem content) hp hK (fun _ ht => ht.2)
    (fun _ _ => rfl) (fun _ _ => rfl) hs ⟨htaken, hnext⟩
  refine hcall.mono (fun _ t ht => ht.1.settled hp ?_)
  rw [fromPair_concat_self, List.length_append]
  exact ht.2.1

/-- The handler is given the slot of the message at the head. -/
theorem callMsghlr_slot_wp {slot : ℕ} {m : DataMessage}
    (hp : ps[i]? = some p) (hs : Serving ps i ds none s)
    (hleased : Leased p.rxLen.toNat (fromPair ds i).length slot m
      (s.rings p.rx)) :
    (callMsghlr i (.ring p.rx slot) p.tx p.rxLen p.txLen).Wp
      (managerSpec ps msg)
      (fun _ s => ∃ ds', Serving ps i ds' none s
        ∧ (fromPair ds' i).length = (fromPair ds i).length + 1
        ∧ Leased p.rxLen.toNat (fromPair ds i).length slot m
          (s.rings p.rx)) s := by
  have hcall := callMsghlr_wp msg (.ring p.rx slot) (m := m)
    (K := Leased p.rxLen.toNat (fromPair ds i).length slot m) hp
    (fun _ _ => Leased.stable) (fun _ ht => ht.at_head.head)
    (fun _ ht => ht.ofMem_slot) (fun _ ht => ⟨p, _, hp, rfl, ht⟩) hs hleased
  refine hcall.mono (fun _ t ht => ⟨_, ht.1, ?_, ht.2⟩)
  rw [fromPair_concat_self, List.length_append]
  rfl

end Manager
