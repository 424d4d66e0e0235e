import Kucomms.DeliveryInvariant

/-!
# What the manager delivers

`manager_delivers`: whatever the interleaving, the messages handed to the
message handler from a receive ring are a prefix of the messages accepted
into it, each with the transmit ring and the lengths of its pair, and
`message_manager_run` does not end with an error.

The body of the loop leaves the rings `Settled`, whichever way a message
goes; the error exit is for a message that is longer than the bounce buffer,
and there is none.
-/

open Prog

/-! ## The loop -/

section Loop

variable {ps : List RingPair} {msg : MessageQueueHeader → DataMessage}
  {s : DeliveryState} {build : Build} {m : MessageManagerStruct}
  {bufferLen : UInt64}

/-- The timer and the work handler deliver nothing. -/
theorem checkTimer_wp (counter last : UInt64) (hs : Settled ps s) :
    (checkTimer build m counter last).Wp (managerSpec ps msg)
      (fun _ s => Settled ps s) s := by
  have hret : ∀ (v : UInt64) (t : DeliveryState), Settled ps t →
      (Prog.ret v : MgrProg UInt64).Wp (managerSpec ps msg)
        (fun _ s => Settled ps s) t :=
    fun _ _ ht => Wp.ret_of (fun _ _ => Settled.stable) ht (fun _ h => h)
  unfold checkTimer
  cases build with
  | kernel hz =>
    refine quiet_wp rfl hs (fun now t ht => ?_)
    show Wp _ _ (if _ then _ else _) _
    split
    · exact quiet_wp rfl ht (fun _ u hu => hret _ u hu)
    · exact hret _ t ht
  | user =>
    show Wp _ _ (if _ then _ else _) _
    split
    · refine quiet_wp rfl hs (fun now t ht => ?_)
      show Wp _ _ (if _ then _ else _) _
      split
      · exact quiet_wp rfl ht (fun _ u hu => hret _ u hu)
      · exact hret _ t ht
    · exact hret _ s hs

/-- **What follows a delivery.** -/
theorem afterDelivery_wp {i : ℕ} {p : RingPair} {l : TurnLocals}
    (hps : DistinctRx ps) (hm : HasPairs m ps) (hp : ps[i]? = some p)
    (hs : Settled ps s) :
    (afterDelivery build m i l).Wp (managerSpec ps msg)
      (fun l' s => Settled ps s ∧ l'.error = l.error) s := by
  obtain ⟨hrx, -, hlen, -⟩ := hm.pair i p hp
  unfold afterDelivery
  rw [hrx, hlen]
  have havail : Wp (readerSpec p.rxLen.toNat msg) _ (messageQueueGetAvailL _)
      (s.rings p.rx) := messageQueueGetAvailL_wp
    (hs.inv.rings p (List.mem_of_getElem? hp)) rfl
  refine Wp.bind ((ring_wp hps hp (hs.serving i) havail).mono ?_)
  rintro n t ⟨⟨-, htaken, -⟩, ht⟩
  have hset : Settled ps t := by
    refine ht.settled hp (htaken.trans ?_)
    exact (hs.taken i p hp).symm
  -- the work handler is called now and then
  have hrest : ∀ (u : DeliveryState), Settled ps u →
      (checkTimer build m (l.counter + 1) l.lastTimerTime >>= fun last =>
        pure { l with avail := l.avail + n, counter := l.counter + 1,
                      lastTimerTime := last } : MgrProg TurnLocals).Wp
        (managerSpec ps msg) (fun l' s => Settled ps s ∧ l'.error = l.error)
        u := by
    intro u hu
    refine Wp.bind ((checkTimer_wp _ _ hu).mono (fun last v hv => ?_))
    exact Wp.ret_of (fun _ _ => Settled.stable) hv (fun _ h => ⟨h, rfl⟩)
  show Wp _ _ (if (l.counter + 1) % msgmgrWorkInterval = 0 then _ else _) _
  split
  · exact quiet_wp rfl hset (fun _ u hu => hrest u hu)
  · exact hrest t hset

/-- **The body of the loop** delivers one message of the pair, or none, and
sets no error. -/
theorem forBody_wp {i : ℕ} {p : RingPair} {l : TurnLocals}
    (hps : DistinctRx ps) (hL : p.rxLen.toNat < 2 ^ 63)
    (hbuf : p.rxLen ≤ bufferLen) (hm : HasPairs m ps)
    (hp : ps[i]? = some p) (hl : l.error = false) (hs : Settled ps s) :
    (forBody build m bufferLen callMsghlr i l).Wp (managerSpec ps msg)
      (fun l' s => Settled ps s ∧ l'.error = false) s := by
  obtain ⟨hrx, htx, hrxLen, htxLen⟩ := hm.pair i p hp
  have hpmem := List.mem_of_getElem? hp
  have htaken := (hs.taken i p hp).symm
  have hdone : ∀ (l' : TurnLocals) (t : DeliveryState), Settled ps t →
      l'.error = false → (Prog.ret l' : MgrProg TurnLocals).Wp
        (managerSpec ps msg) (fun l' s => Settled ps s ∧ l'.error = false) t :=
    fun l' t ht hl' => Wp.ret_of (fun _ _ => Settled.stable) ht
      (fun _ h => ⟨h, hl'⟩)
  unfold forBody
  simp only [hrx, htx, hrxLen, htxLen]
  have hbegin : Wp (readerSpec p.rxLen.toNat msg) _ (messageQueueGetBeginL _)
      (s.rings p.rx) := messageQueueGetBeginL_wp
    (hs.inv.rings p hpmem) rfl
  refine Wp.bind ((ring_wp hps hp (hs.serving i) hbegin).mono ?_)
  rintro r t ⟨hr, ht⟩
  match r, hr with
  | none, hr =>
    exact hdone l t (ht.settled hp (hr.taken.trans htaken)) hl
  | some none, hr =>
    -- the record straddles the end: it is copied to the bounce buffer
    have hget : Wp (readerSpec p.rxLen.toNat msg) _
        (messageQueueGetL _ l.buffer bufferLen) (t.rings p.rx) :=
      messageQueueGetL_wp hL hr.inv hr.taken
    refine Wp.bind ((ring_wp hps hp ht hget).mono ?_)
    rintro g u ⟨hg, hu⟩
    have herror : g.error = false := by
      by_contra he
      exact absurd hbuf (hg.buffer_lt (Bool.eq_true_of_not_eq_false he))
    show Wp _ _ (if g.error = true then _
      else if g.ok = false then _ else _) _
    rw [if_neg (by rw [herror]; exact Bool.false_ne_true)]
    split
    · next hok =>
      refine hdone _ u (hu.settled hp ?_) herror
      rw [hg.taken, hok]
      exact htaken
    · next hok =>
      have hok : g.ok = true := Bool.eq_true_of_not_eq_false hok
      refine Wp.bind ((callMsghlr_buffer_wp hp hu ?_ ?_).mono
        (fun _ v hv => (afterDelivery_wp hps hm hp hv).mono
          (fun l' w hw => ⟨hw.1, hw.2.trans herror⟩)))
      · rw [hg.taken, hok, htaken]
        rfl
      · rw [← htaken]
        exact (hg.message hok).2.1
  | some (some slot), hr =>
    -- the record lies in one piece: the handler is given its slot
    obtain ⟨msg', hnext, hslot⟩ := hr.slot _ rfl
    have hleased := hr.leased hnext hslot
    rw [htaken] at hleased
    refine Wp.bind ((callMsghlr_slot_wp hp ht hleased).mono ?_)
    rintro _ u ⟨ds', hu, hlen, hleased⟩
    refine Wp.bind ((ring_wp hps hp hu
      (messageQueueGetCompleteL_wp hL hleased)).mono ?_)
    rintro _ v ⟨⟨-, htake, -⟩, hv⟩
    exact (afterDelivery_wp hps hm hp
      (hv.settled hp (htake.trans hlen.symm))).mono
      (fun l' w hw => ⟨hw.1, hw.2.trans hl⟩)

/-- **The loop over the pairs.** -/
theorem forLoop_wp {l : TurnLocals} (hps : DistinctRx ps)
    (hL : ∀ p ∈ ps, p.rxLen.toNat < 2 ^ 63)
    (hbuf : ∀ p ∈ ps, p.rxLen ≤ bufferLen) (hm : HasPairs m ps) {n i : ℕ}
    (hn : i + n = ps.length) (hl : l.error = false) (hs : Settled ps s) :
    (forLoop build m bufferLen callMsghlr n i l).Wp (managerSpec ps msg)
      (fun l' s => Settled ps s ∧ l'.error = false) s := by
  induction n generalizing i l s with
  | zero =>
    exact Wp.ret_of (fun _ _ => Settled.stable) hs (fun _ h => ⟨h, hl⟩)
  | succ n ih =>
    have hp : ps[i]? = some ps[i] := List.getElem?_eq_getElem (by omega)
    have hpmem := List.mem_of_getElem? hp
    refine Wp.bind ((forBody_wp hps (hL _ hpmem) (hbuf _ hpmem) hm hp hl
      hs).mono ?_)
    rintro l' t ⟨ht, hl'⟩
    show Wp _ _ (if l'.error = true then _ else _) _
    rw [if_neg (by rw [hl']; exact Bool.false_ne_true)]
    exact ih (by omega) hl' ht

/-- The end of a turn in which no ring had more to read. -/
theorem idleEnd_wp (l : TurnLocals) (hs : Settled ps s) :
    (idleEnd build m l).Wp (managerSpec ps msg)
      (fun v s => Settled ps s ∧ v ≠ .exit false) s := by
  have hret : ∀ (l' : RunLocals) (t : DeliveryState), Settled ps t →
      (Prog.ret (.again l') : MgrProg TurnEnd).Wp (managerSpec ps msg)
        (fun v s => Settled ps s ∧ v ≠ .exit false) t :=
    fun _ _ ht => Wp.ret_of (fun _ _ => Settled.stable) ht
      (fun _ h => ⟨h, fun hv => by cases hv⟩)
  refine quiet_wp rfl hs (fun ok t ht => ?_)
  show Wp _ _ (checkTimer build m (l.counter + 1) l.lastTimerTime >>= _) _
  refine Wp.bind ((checkTimer_wp _ _ ht).mono (fun last u hu => ?_))
  show Wp _ _ (if ok = true then _ else _) _
  split
  · exact hret _ u hu
  · exact quiet_wp rfl hu (fun _ v hv => hret _ v hv)

theorem turnBody_wp (hps : DistinctRx ps)
    (hL : ∀ p ∈ ps, p.rxLen.toNat < 2 ^ 63)
    (hbuf : ∀ p ∈ ps, p.rxLen ≤ bufferLen) (hm : HasPairs m ps)
    (l : RunLocals) (hs : Settled ps s) :
    (turnBody build m bufferLen callMsghlr l).Wp (managerSpec ps msg)
      (fun v s => Settled ps s ∧ v ≠ .exit false) s := by
  refine Wp.bind ((forLoop_wp hps hL hbuf hm
    (by rw [hm.length, Nat.zero_add]) rfl hs).mono ?_)
  rintro l' u ⟨hu, hl'⟩
  rw [if_neg (by rw [hl']; exact Bool.false_ne_true)]
  split
  · exact Wp.ret_of (fun _ _ => Settled.stable) hu
      (fun _ h => ⟨h, fun hv => by cases hv⟩)
  · exact idleEnd_wp l' hu

/-- **A turn of `message_manager_run`** does not end it with an error. -/
theorem messageManagerTurn_wp (hps : DistinctRx ps)
    (hL : ∀ p ∈ ps, p.rxLen.toNat < 2 ^ 63)
    (hbuf : ∀ p ∈ ps, p.rxLen ≤ bufferLen) (hm : HasPairs m ps)
    (l : RunLocals) (hs : Settled ps s) :
    (messageManagerTurn build m bufferLen callMsghlr l).Wp
      (managerSpec ps msg) (fun v s => Settled ps s ∧ v ≠ .exit false) s := by
  have hexit : ∀ t, Settled ps t →
      (Prog.ret (.exit true) : MgrProg TurnEnd).Wp (managerSpec ps msg)
        (fun v s => Settled ps s ∧ v ≠ .exit false) t := fun t ht =>
    Wp.ret_of (fun _ _ => Settled.stable) ht
      (fun _ h => ⟨h, fun hv => by cases hv⟩)
  rw [messageManagerTurn_eq]
  refine quiet_wp rfl hs (fun stopped t ht => ?_)
  split
  · exact hexit t ht
  cases build with
  | kernel hz =>
    refine quiet_wp rfl ht (fun stop u hu => ?_)
    split
    · exact hexit u hu
    · exact turnBody_wp hps hL hbuf hm l hu
  | user => exact turnBody_wp hps hL hbuf hm l ht

end Loop

/-! ## The outline -/

section Outline

variable {ps : List RingPair} {s : DeliveryState} {build : Build}
  {m : MessageManagerStruct} {bufferLen : UInt64}

/-- What the others may do to a party. -/
def Party.rely (ps : List RingPair) :
    Party ps.length → DeliveryState → DeliveryState → Prop
  | .manager => Fed ps
  | .producer i => fun s s' => ReaderStep (ps.get i).rxLen.toNat
    (s.rings (ps.get i).rx) (s'.rings (ps.get i).rx)

/-- What a step of a party amounts to. -/
def Party.guar (ps : List RingPair) :
    Party ps.length → DeliveryState → DeliveryState → Prop
  | .manager => Drains ps
  | .producer i => Feeds (ps.get i)

/-- What holds while a party is idle. -/
def Party.Idle (ps : List RingPair) :
    Party ps.length → DeliveryState → Prop
  | .manager => Settled ps
  | .producer i => fun s => (s.rings (ps.get i).rx).Inv
    (ps.get i).rxLen.toNat

/-- **When a call is about to return.** -/
def Party.Post (ps : List RingPair) :
    Party ps.length → (c : DeliveryCall) → c.Ret → DeliveryState → Prop
  | .manager, .enter _, _ => Settled ps
  | .manager, .turn _, v => fun s => Settled ps s ∧ v ≠ .exit false
  | .producer i, .add _ _, _ => Party.Idle ps (.producer i)
  | _, _, _ => fun _ => False

theorem Party.rely_refl (i : Party ps.length) (s : DeliveryState) :
    i.rely ps s s := by
  cases i with
  | manager => exact Fed.refl ps s
  | producer i => exact ReaderStep.refl _

theorem Party.rely_trans (i : Party ps.length) {s t u : DeliveryState}
    (h : i.rely ps s t) (h' : i.rely ps t u) : i.rely ps s u := by
  cases i with
  | manager => exact Fed.trans h h'
  | producer i => exact ReaderStep.trans h h'

/-- **The parties keep to the bargain**: each ring has one producer. -/
theorem Party.guar_rely (hps : DistinctRx ps) {i j : Party ps.length}
    {s' : DeliveryState} (hij : i ≠ j) (h : i.guar ps s s') :
    j.rely ps s s' := by
  have hget : ∀ i : Fin ps.length, ps[i.1]? = some (ps.get i) :=
    fun i => List.getElem?_eq_getElem i.2
  cases i with
  | manager =>
    cases j with
    | manager => exact absurd rfl hij
    | producer j => exact h.reader _ (List.mem_of_getElem? (hget j))
  | producer i =>
    cases j with
    | manager => exact Feeds.fed hps (hget i) h
    | producer j =>
      have hrx : (ps.get j).rx ≠ (ps.get i).rx := fun hrx =>
        hij (congrArg Party.producer
          (Fin.ext (hps.eq_of_rx (hget i) (hget j) hrx.symm)))
      show ReaderStep _ _ (s'.rings (ps.get j).rx)
      rw [h.others _ hrx]
      exact ReaderStep.refl _

/-- **A producer's call** is as correct as alone with its ring. -/
theorem producer_wp {p : RingPair} {msg : DataMessage}
    (hL : 0 < p.rxLen.toNat ∧ p.rxLen.toNat < 2 ^ 63)
    (hmsg : msg.size < 2 ^ 64) (hs : (s.rings p.rx).Inv p.rxLen.toNat)
    (hrefl : ∀ s : DeliveryState,
      ReaderStep p.rxLen.toNat (s.rings p.rx) (s.rings p.rx))
    (htrans : ∀ {s t u : DeliveryState},
      ReaderStep p.rxLen.toNat (s.rings p.rx) (t.rings p.rx) →
      ReaderStep p.rxLen.toNat (t.rings p.rx) (u.rings p.rx) →
      ReaderStep p.rxLen.toNat (s.rings p.rx) (u.rings p.rx)) :
    (QProg.at (messageQueueAddL p.rxLen msg.mem) p.rx).Wp
      ⟨DeliverySem ps (fun _ => msg), fun _ _ => True,
        fun s s' => ReaderStep p.rxLen.toNat (s.rings p.rx) (s'.rings p.rx),
        Feeds p, hrefl, htrans⟩
      (fun _ s => (s.rings p.rx).Inv p.rxLen.toNat) s := by
  have hadd : Wp (writerSpec p.rxLen.toNat fun _ => msg) _
      (messageQueueAddL _ msg.mem) (s.rings p.rx) := messageQueueAddL_wp hL hmsg
    (fun _ => rfl) hs rfl
  refine (Wp.embed ⟨DeliverySem ps (fun _ => msg), fun _ _ => True,
      fun s s' => ReaderStep p.rxLen.toNat (s.rings p.rx) (s'.rings p.rx),
      Feeds p, hrefl, htrans⟩ (MgrAct.ring p.rx) (fun _ r => r)
    (fun s => s.rings p.rx) (fun _ => True) (fun _ _ _ _ => trivial)
    (fun a t r t' _ _ hsem => ?_) (fun _ _ _ hr => ⟨hr, trivial⟩) trivial
    hadd).mono (fun _ _ h => h.1.inv)
  cases hsem with
  | ring =>
    obtain ⟨u, hu⟩ : ∃ u, u = ((t.rings p.rx).exec (fun _ => msg) a).2 :=
      ⟨_, rfl⟩
    rw [← hu]
    have hself : Function.update t.rings p.rx u p.rx = u :=
      Function.update_self ..
    refine ⟨?_, fun hstep => ⟨⟨hstep, fun b hb => ?_, rfl, rfl, rfl⟩,
      trivial⟩⟩
    · show (t.rings p.rx).exec _ a = (_, Function.update t.rings p.rx u p.rx)
      rw [hself, hu]
    · exact Function.update_of_ne hb _ _
  | quiet ha hrx => exact absurd ha Bool.false_ne_true

/-- `message_manager_run` goes on, or ends well. -/
theorem Settled.setManager (hs : Settled ps s) {ph : ManagerPhase}
    (hph : ph ≠ .returned false) :
    Drains ps s { s with manager := ph }
      ∧ Settled ps { s with manager := ph } := by
  have hinv : DeliveryInv ps { s with manager := ph } :=
    ⟨hs.inv.rings, hs.inv.delivered, hs.inv.matching, hs.inv.shows, hph⟩
  exact ⟨⟨fun _ => hinv, fun _ _ => ReaderStep.refl _⟩, hinv, hs.current,
    hs.taken⟩

/-- **The proof of the system.** -/
def deliveryOutline (hps : DistinctRx ps)
    (hL : ∀ p ∈ ps, 0 < p.rxLen.toNat ∧ p.rxLen.toNat < 2 ^ 63)
    (hbuf : ∀ p ∈ ps, p.rxLen ≤ bufferLen) (hm : HasPairs m ps) :
    (deliveryMachine build m bufferLen ps).Outline where
  rely := Party.rely ps
  guar := Party.guar ps
  safe _ _ _ _ := True
  idle := Party.Idle ps
  post := Party.Post ps
  rely_refl := Party.rely_refl
  rely_trans := Party.rely_trans
  guar_rely := Party.guar_rely hps
  idle_stable {i s s'} h hr := by
    cases i with
    | manager => exact Settled.stable h hr
    | producer i => exact ReaderStep.inv hr h
  call_ok {i s c} h hmay := by
    cases i with
    | manager =>
      have hrefl : Drains ps s s := ⟨id, fun _ _ => ReaderStep.refl _⟩
      cases c with
      | add p msg => exact hmay.elim
      | enter buffer =>
        exact ⟨hrefl, quiet_wp rfl h (fun _ t ht =>
          Wp.ret_of (fun _ _ => Settled.stable) ht (fun _ h => h))⟩
      | turn l =>
        exact ⟨hrefl, messageManagerTurn_wp hps (fun p hp => (hL p hp).2)
          hbuf hm l h⟩
    | producer i =>
      have hrefl : Feeds (ps.get i) s s :=
        ⟨WriterStep.refl _, fun _ _ => rfl, rfl, rfl, rfl⟩
      cases c with
      | add p msg =>
        obtain ⟨rfl, hmsg⟩ : p = ps.get i ∧ msg.size < 2 ^ 64 := hmay
        exact ⟨hrefl, producer_wp (hL _ (List.get_mem ps i)) hmsg h _ _⟩
      | enter buffer => exact hmay.elim
      | turn l => exact hmay.elim
  ret_ok {i s c v} h := by
    cases i with
    | manager =>
      cases c with
      | add p msg => exact h.elim
      | enter buffer => exact Settled.setManager h (fun hc => by cases hc)
      | turn l =>
        obtain ⟨hs, hv⟩ := h
        cases v with
        | again l' => exact hs.setManager (fun hc => by cases hc)
        | exit ok =>
          exact hs.setManager (fun hc => hv (by cases hc; rfl))
    | producer i =>
      cases c with
      | add p msg =>
        exact ⟨⟨WriterStep.refl _, fun _ _ => rfl, rfl, rfl, rfl⟩, h⟩
      | enter buffer => exact h.elim
      | turn l => exact h.elim

end Outline

/-! ## The theorem -/

/-- **The manager delivers what was accepted.** For pairs of rings in
different places, each set up in memory of any content and added to a
manager, with a bounce buffer that no receive ring is longer than, in any
interleaving and with any handlers: the messages handed over from a receive
ring are a prefix of those accepted into it, each is handed over with the
transmit ring and the lengths of its pair, the pointer goes on to show the
message until the handler returns, and there is no error. -/
theorem manager_delivers {build : Build}
    {msghlr workhlr timerhlr userData : ℕ} {bufferLen : UInt64}
    {ps : List RingPair} {rings : ℕ → Traced}
    (h64 : ps.length ≤ msgmgrMsgqarraySize) (hps : DistinctRx ps)
    (h32 : ∀ p ∈ ps, 32 < p.rxBufferLength.toNat)
    (h63 : ∀ p ∈ ps, p.rxBufferLength.toNat < 2 ^ 63)
    (hinit : ∀ p ∈ ps, ∃ h, rings p.rx = Traced.init p.rxBufferLength h)
    (hbuf : ∀ p ∈ ps, p.rxLen ≤ bufferLen)
    {x : (deliveryMachine build
      (addPairs (messageManagerInit msghlr workhlr timerhlr userData) ps)
      bufferLen ps).Conf}
    (hx : (deliveryMachine build
      (addPairs (messageManagerInit msghlr workhlr timerhlr userData) ps)
      bufferLen ps).Reach (Machine.start _ (.start rings)) x) :
    (∀ i p, ps[i]? = some p →
      fromPair x.st.delivered i <+: (x.st.rings p.rx).accepted)
    ∧ (∀ d ∈ x.st.delivered, d.Matches ps)
    ∧ (∀ d, x.st.current = some d → x.st.shown d.ptr = d.message)
    ∧ x.st.manager ≠ .returned false := by
  have hL : ∀ p ∈ ps, 0 < p.rxLen.toNat ∧ p.rxLen.toNat < 2 ^ 63 :=
    fun p hp => queueLength_bounds (h32 p hp) (h63 p hp)
  have hrings : ∀ p ∈ ps, (rings p.rx).Inv p.rxLen.toNat := by
    intro p hp
    obtain ⟨h, hr⟩ := hinit p hp
    rw [hr]
    exact Traced.Inv.init (hL p hp).1 _ _
  have hstart : Settled ps (.start rings) := by
    refine ⟨⟨hrings, fun _ _ _ => List.nil_prefix, (fun _ h => nomatch h),
      (fun _ h => nomatch h), (fun h => nomatch h)⟩, rfl, fun i p hp => ?_⟩
    obtain ⟨h, hr⟩ := hinit p (List.mem_of_getElem? hp)
    show 0 = (rings p.rx).taken
    rw [hr]
    rfl
  have hidle : ∀ i : Party ps.length, i.Idle ps (.start rings) := by
    intro i
    cases i with
    | manager => exact hstart
    | producer i => exact hrings _ (List.getElem_mem i.2)
  have hinv : DeliveryInv ps x.st := by
    refine (deliveryOutline hps hL hbuf (addPairs_hasPairs _ _ _ _
      h64)).invariant (fun {i s s'} hg hs => ?_) hidle hstart.inv hx
    cases i with
    | manager => exact Drains.inv hg hs
    | producer i =>
      exact (Feeds.fed hps (List.getElem?_eq_getElem i.2) hg).inv hs
  refine ⟨hinv.delivered, hinv.matching, fun d hd => ?_, hinv.noError⟩
  have hshows := hinv.shows d hd
  unfold Delivery.Shows at hshows
  split at hshows
  · next msgq slot hptr =>
    obtain ⟨p, t₀, -, rfl, hleased⟩ := hshows
    rw [hptr]
    exact hleased.ofMem_slot
  · next content hptr =>
    rw [hptr]
    exact hshows

/-! ## A run -/

/-- What an action does while the handlers do nothing. -/
def deliveryExec (c : DeliveryCall) (a : MgrAct) (s : DeliveryState) :
    Option (a.Res × DeliveryState) :=
  match a with
  | .ring msgq b =>
    let y := (s.rings msgq).exec c.msg b
    some (y.1, { s with rings := Function.update s.rings msgq y.2 })
  | .msghlr u0 ptr tx rxLen txLen =>
    some ((), s.deliver ⟨u0, ptr, s.shown ptr, tx, rxLen, txLen⟩ s.rings)
  | .msghlrReturn => some (true, { s with current := none })
  | .loadStopped => some (false, s)
  | .kthreadShouldStop => some (false, s)
  | .clock => some (0, s)
  | .workhlr => some (true, s)
  | .timerhlr _ => some ((), s)
  | .usleep _ => some ((), s)
  | .loadBuffer _ _ => some ((), s)
  | .storeCbdata _ _ => some ((), s)

theorem deliveryExec_sem {ps : List RingPair} (c : DeliveryCall) (a : MgrAct)
    (s : DeliveryState) (r : a.Res) (s' : DeliveryState)
    (h : deliveryExec c a s = some (r, s')) :
    DeliverySem ps c.msg a s r s' := by
  have hrx : KeepsRx ps s.rings s.rings := fun _ _ => rfl
  cases a with
  | ring msgq b =>
    obtain ⟨rfl, rfl⟩ := Prod.mk.inj (Option.some.inj h)
    exact .ring msgq b
  | msghlr u0 ptr tx rxLen txLen =>
    obtain ⟨rfl, rfl⟩ := Prod.mk.inj (Option.some.inj h)
    exact .msghlr hrx
  | msghlrReturn =>
    obtain ⟨rfl, rfl⟩ := Prod.mk.inj (Option.some.inj h)
    exact .msghlrReturn hrx
  | _ =>
    obtain ⟨rfl, rfl⟩ := Prod.mk.inj (Option.some.inj h)
    exact .quiet rfl hrx

/-- A pair of rings with 72 bytes each. -/
def smallPair : RingPair := ⟨0, 1, 104, 104⟩

/-- The manager of that pair, with its producer. -/
abbrev smallDelivery :
    Machine (Party [smallPair].length) MgrAct MgrAct.Res DeliveryState :=
  deliveryMachine .user (addPairs (messageManagerInit 1 2 3 4) [smallPair]) 72
    [smallPair]

/-- The producer adds a message without data, and the manager makes its next
call. -/
def addAndTurn : List smallDelivery.Cmd :=
  [.call (.producer 0) (fun _ =>
      some ⟨.add smallPair .empty, rfl, by decide +kernel⟩),
    .finish (.producer 0),
    .call .manager (fun s => match h : s.manager with
      | .ready => some ⟨.enter (fun _ => 0), h⟩
      | .running l => some ⟨.turn l, h⟩
      | .returned _ => none),
    .finish .manager]

/-- A pointer into a ring. -/
def MessagePtr.inPlace : MessagePtr → Bool
  | .ring _ _ => true
  | .buffer _ => false

/-- **A run with three deliveries**, the third of a message that straddles
the end of the ring. -/
theorem manager_delivers_three :
    ∃ x : smallDelivery.Conf,
      x.st.delivered.map (fun d => d.ptr.inPlace) = [true, true, false]
      ∧ fromPair x.st.delivered 0 <+: (x.st.rings 0).accepted := by
  obtain ⟨cmds, hcmds⟩ : ∃ cmds, cmds = addAndTurn ++ addAndTurn ++ addAndTurn
    ++ addAndTurn := ⟨_, rfl⟩
  obtain ⟨start, hstart⟩ : ∃ start, start = smallDelivery.start
    (.start (fun _ => Traced.init 104 .zeroed)) := ⟨_, rfl⟩
  have hsome : (cmds.foldlM (smallDelivery.perform fun _ => deliveryExec)
      start).isSome = true := by
    subst hcmds hstart
    decide +kernel
  obtain ⟨x, hx⟩ := Option.isSome_iff_exists.mp hsome
  have hthree : ((cmds.foldlM (smallDelivery.perform fun _ => deliveryExec)
      start).all fun x => decide (x.st.delivered.map (fun d => d.ptr.inPlace)
        = [true, true, false])) = true := by
    subst hcmds hstart
    decide +kernel
  rw [hx] at hthree
  have hreach : smallDelivery.Reach start x :=
    Machine.Reach.schedule (fun _ => deliveryExec_sem) hx
  rw [hstart] at hreach
  have hpair : ∀ p ∈ [smallPair], p = smallPair := fun p hp =>
    List.mem_singleton.mp hp
  have hdistinct : DistinctRx [smallPair] := List.pairwise_singleton _ _
  refine ⟨x, of_decide_eq_true hthree, (manager_delivers (by decide)
    hdistinct (fun p hp => ?_) (fun p hp => ?_) (fun p hp => ?_)
    (fun p hp => ?_) hreach).1 0 smallPair rfl⟩
  · rw [hpair p hp]
    decide
  · rw [hpair p hp]
    decide
  · rw [hpair p hp]
    exact ⟨.zeroed, rfl⟩
  · rw [hpair p hp]
    decide +kernel
