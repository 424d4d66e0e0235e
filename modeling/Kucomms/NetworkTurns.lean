import Kucomms.Delivery
import Kucomms.NetworkNodes

/-!
# Turns in a network

A turn of a manager that is part of a network, with handlers that are programs
and producers that are other managers, comes to a turn of the manager by
itself, with handlers that are single calls (`Network.turn_wp`). The state of
the latter records the pointers that were given to the message handler; which
pointers these were no one can see, so that the two states are related
(`Network.Sees`) by what they agree on.

While the message handler runs, what it was given by `message_manager_run`
stays as it is, and this is all that it needs (`Network.marked_wp`). In the
kernel the pointer it gets is to a copy (`Network.entry_wp`).
-/

open Prog

namespace Network

variable {ι P : Type} [DecidableEq ι] {N : Network ι P}
  {φ : ∀ i, NodeProof (N.node i)} {i : ι} {s s' : NetState ι P}
  {t : DeliveryState}

/-! ## The manager by itself -/

section Sees

variable (N) (i) in
/-- **What has happened since** the state `t` of the manager: the receive
rings were fed, and nothing else. -/
structure Follows (t : DeliveryState) (s : NetState ι P) : Prop where
  fed : ∀ q ∈ (N.node i).pairs,
    WriterStep (N.len q.1).toNat (t.rings q.1) (s.rings q.1)
  handled : (s.node i).handled
    = t.delivered.map (fun d => (d.pair, d.message))
  phase : (s.node i).phase = t.manager

/-- **The network as the manager sees it**, while none of its handlers
runs. -/
structure Sees (φ : ∀ i, NodeProof (N.node i)) (i : ι) (s : NetState ι P)
    (t : DeliveryState) : Prop where
  inv : N.Inv φ s
  between : (φ i).between (N.view i s)
  rings : t.rings = s.rings
  follows : N.Follows i t s
  delivery : DeliveryInv (N.pairs i) t

omit [DecidableEq ι] in
theorem mem_pairs {p : RingPair} :
    p ∈ N.pairs i ↔ ∃ q ∈ (N.node i).pairs, N.ringPair q = p :=
  List.mem_map

omit [DecidableEq ι] in
theorem distinctRx (hN : N.Wired) (i : ι) : DistinctRx (N.pairs i) := by
  unfold DistinctRx pairs
  rw [List.map_map]
  exact hN.rx i

/-- **The others do not matter**, nor does what the node's handlers do. -/
theorem Follows.beside (hN : N.Wired) (t : DeliveryState) :
    N.Beside φ i (N.Follows i t) := by
  refine ⟨fun s s' h hr => ?_, fun {s q} u hq h => ?_, fun {s} p h => ?_⟩
  · refine ⟨fun q hq => (h.fed q hq).trans (hr.fed q.1 ⟨q, hq, rfl⟩), ?_, ?_⟩
    · rw [hr.node i rfl]
      exact h.handled
    · rw [hr.node i rfl]
      exact h.phase
  · refine ⟨fun q' hq' => ?_, h.handled, h.phase⟩
    have hne : q'.1 ≠ q.2 := fun heq =>
      hN.apart (x := .node i) ⟨q', hq', rfl⟩ ⟨q, hq, heq.symm⟩
    rw [NetState.setRing_rings_ne _ _ _ hne]
    exact h.fed q' hq'
  · have hself : (s.setMemory i p).node i = { s.node i with memory := p } :=
      Function.update_self ..
    exact ⟨h.fed, by rw [hself]; exact h.handled, by rw [hself]; exact h.phase⟩

omit [DecidableEq ι] in
/-- What has happened is what producers do. -/
theorem Follows.to_fed (h : N.Follows i t s) :
    Fed (N.pairs i) t { t with rings := s.rings } := by
  refine ⟨fun p hp => ?_, rfl, rfl, rfl⟩
  obtain ⟨q, hq, rfl⟩ := mem_pairs.mp hp
  exact h.fed q hq

omit [DecidableEq ι] in
/-- **The manager has caught up.** -/
theorem Follows.sees (h : N.Follows i t s) (hinv : N.Inv φ s)
    (hbetween : (φ i).between (N.view i s))
    (ht : DeliveryInv (N.pairs i) t) :
    N.Sees φ i s { t with rings := s.rings } :=
  ⟨hinv, hbetween, rfl, ⟨fun _ _ => .refl _, h.handled, h.phase⟩,
    h.to_fed.inv ht⟩

/-- The others take steps. -/
theorem Sees.rely (hN : N.Wired) (h : N.Sees φ i s t)
    (hr : N.Rely φ (.node i) s s') :
    ∃ t', Fed (N.pairs i) t t' ∧ N.Sees φ i s' t' := by
  have hfollows := (Follows.beside hN t).stable h.follows hr
  have hbetween := h.between
  rw [← hr.view] at hbetween
  exact ⟨_, hfollows.to_fed, hfollows.sees (hr.inv h.inv) hbetween h.delivery⟩

end Sees

/-! ## The call of the message handler -/

section Call

variable {m : DataMessage} {ptr : MessagePtr} {d : Delivery}

variable (N) (i) in
/-- **What the pointer shows** while a message is being delivered: the bounce
buffer, or a copy, or the slot at the head of the receive ring. -/
def Shown (m : DataMessage) : MessagePtr → NetState ι P → Prop
  | .ring msgq slot, s => ∃ q ∈ (N.node i).pairs, msgq = q.1
    ∧ ∃ t₀, Leased (N.len q.1).toNat t₀ slot m (s.rings q.1)
  | .buffer content, _ => ∀ k < m.size, content k = m.mem k

/-- What is shown stays, whatever the others and the handlers do. -/
theorem Shown.beside (hN : N.Wired) (m : DataMessage) (ptr : MessagePtr) :
    N.Beside φ i (N.Shown i m ptr) := by
  cases ptr with
  | buffer content => exact ⟨fun _ _ h _ => h, fun _ _ h => h, fun _ h => h⟩
  | ring msgq slot =>
    refine ⟨fun s s' h hr => ?_, fun {s q} u hq h => ?_, fun p h => h⟩
    · obtain ⟨q, hq, rfl, t₀, hleased⟩ := h
      exact ⟨q, hq, rfl, t₀, hleased.stable (hr.fed q.1 ⟨q, hq, rfl⟩)⟩
    · obtain ⟨q', hq', rfl, t₀, hleased⟩ := h
      have hne : q'.1 ≠ q.2 := fun heq =>
        hN.apart (x := .node i) ⟨q', hq', rfl⟩ ⟨q, hq, heq.symm⟩
      refine ⟨q', hq', rfl, t₀, ?_⟩
      rw [NetState.setRing_rings_ne _ _ _ hne]
      exact hleased

/-- **A load through the pointer** finds the message. -/
theorem Shown.shows {K : NetState ι P → Prop}
    (hK : ∀ s, K s → N.Shown i m ptr s) (hs : K s) : Shows i K ptr m := by
  cases ptr with
  | buffer content => exact shows_buffer K (hK s hs)
  | ring msgq slot =>
    refine ⟨trivial, fun {a r u} hfinds hu _ r' u' hsem => ?_⟩
    obtain ⟨q, -, rfl, t₀, hleased⟩ := hK u hu
    have hsame : u.setRing q.1 (u.rings q.1) = u := by
      unfold NetState.setRing
      rw [Function.update_eq_self]
    cases hfinds with
    | byte dst hk =>
      obtain ⟨rfl, rfl⟩ := Sem.of_ring hsem
      exact ⟨hleased.mem_eq hk, hsame⟩
    | @word _ _ k hk =>
      obtain ⟨rfl, rfl⟩ := Sem.of_ring hsem
      refine ⟨Bytes.mLength_congr (fun j hj => ?_), hsame⟩
      have hbyte := hleased.mem_eq (show k + j < m.size by omega)
      rwa [MessageQueueHeader.slot, ← Nat.add_assoc] at hbyte
    | storeCbdata k b =>
      cases hsem with
      | unseen ha r => exact ⟨rfl, rfl⟩

omit [DecidableEq ι] in
/-- The pointer of a delivery. -/
theorem Shown.of_delivery (h : d.Shows (N.pairs i) t)
    (hrings : t.rings = s.rings) (hd : d.ptr = ptr) :
    N.Shown i d.message ptr s := by
  subst hd
  unfold Delivery.Shows at h
  split at h
  · next msgq slot hptr =>
    obtain ⟨p, t₀, hp, rfl, hleased⟩ := h
    obtain ⟨q, hq, rfl⟩ := mem_pairs.mp (List.mem_of_getElem? hp)
    rw [hptr]
    exact ⟨q, hq, rfl, t₀, hrings ▸ hleased⟩
  · next content hptr =>
    rw [hptr]
    intro k hk
    rw [← h] at hk ⊢
    exact (DataMessage.mem_ofMem hk).symm

omit [DecidableEq ι] in
/-- The message that is shown. -/
theorem Shown.shown_eq (h : N.Shown i m ptr s) : s.shown ptr = m := by
  cases ptr with
  | ring msgq slot =>
    obtain ⟨q, -, rfl, t₀, hleased⟩ := h
    exact hleased.ofMem_slot
  | buffer content => exact m.ofMem_eq h

/-- What a node knows may be put together. -/
theorem Beside.and {K K' : NetState ι P → Prop} (h : N.Beside φ i K)
    (h' : N.Beside φ i K') : N.Beside φ i (fun s => K s ∧ K' s) :=
  ⟨fun _ _ hs hr => ⟨h.stable hs.1 hr, h'.stable hs.2 hr⟩,
    fun u hq hs => ⟨h.setRing u hq hs.1, h'.setRing u hq hs.2⟩,
    fun p hs => ⟨h.setMemory p hs.1, h'.setMemory p hs.2⟩⟩

/-- **The message handler runs**, with a pointer that shows the message. -/
theorem called_wp (hN : N.Wired) {k : ℕ}
    (hk : k < (N.node i).pairs.length) (hm : m.size < 2 ^ 64)
    (ht : DeliveryInv (N.pairs i) t) {l : Local P} (hl : (φ i).between l)
    (hexpects : (φ i).expects l k m)
    (hs : N.Runs φ i (fun s => N.Follows i t s ∧ N.Shown i m ptr s) s
      (l.handle k m)) :
    (((N.node i).msghlr k).expand
      (Node.msghlrAct (N.node i).build (N.msgmgr i) ptr)).Wp
      (nodeSpec φ (.node i))
      (fun _ s => ∃ t', Fed (N.pairs i) t t' ∧ N.Sees φ i s t') s := by
  have hbeside : N.Beside φ i (fun s => N.Follows i t s ∧ N.Shown i m ptr s) :=
    (Follows.beside hN t).and (Shown.beside hN m ptr)
  have hshows := Shown.shows (K := fun s => N.Follows i t s
    ∧ N.Shown i m ptr s) (fun _ h => h.2) hs.beside
  refine (msghlr_wp hN hbeside hm hshows ((φ i).msghlr hk hl hexpects)
    hs).mono ?_
  rintro _ u ⟨l', hu, hl'⟩
  rw [← hu.view] at hl'
  exact ⟨_, hu.beside.1.to_fed, hu.beside.1.sees hu.inv hl' ht⟩

omit [DecidableEq ι] in
/-- The messages handled, as the manager records them. -/
theorem handledFrom_delivered (ds : List Delivery) (k : ℕ) :
    handledFrom (ds.map (fun d => (d.pair, d.message))) k
      = fromPair ds k := by
  unfold handledFrom fromPair
  rw [List.filter_map, List.map_map]
  rfl

/-- **The message handler is called** with the message `m` from the pair
`u0`. -/
theorem handle_step {u0 : ℕ} (hφ : N.Fits φ) (hs : N.Sees φ i s t)
    {v : DeliveryState} (hv : DeliveryInv (N.pairs i) v)
    (hrings : v.rings = t.rings) (hmanager : v.manager = t.manager)
    (hdelivered : ∃ d : Delivery, v.delivered = t.delivered ++ [d]
      ∧ d.pair = u0 ∧ d.message = m)
    (hu0 : u0 < (N.node i).pairs.length) :
    (φ i).expects (N.view i s) u0 m
      ∧ N.Step φ (.node i) s (s.handle i u0 m)
      ∧ N.Follows i v (s.handle i u0 m)
      ∧ N.view i (s.handle i u0 m) = (N.view i s).handle u0 m := by
  obtain ⟨d, hd, rfl, rfl⟩ := hdelivered
  have hself : (s.handle i d.pair d.message).node i
      = { s.node i with
        handled := (s.node i).handled ++ [(d.pair, d.message)] } :=
    Function.update_self ..
  have hhandled : (s.node i).handled ++ [(d.pair, d.message)]
      = v.delivered.map (fun d => (d.pair, d.message)) := by
    rw [hd, List.map_append, hs.follows.handled]
    rfl
  have hview : N.view i (s.handle i d.pair d.message)
      = (N.view i s).handle d.pair d.message := by
    unfold view
    rw [hself]
    rfl
  have hexpects : (φ i).expects (N.view i s) d.pair d.message := by
    have hq := List.getElem?_eq_getElem hu0
    have hprefix := hv.delivered d.pair _ (pairs_getElem? hq)
    rw [hd, fromPair_concat_self, hrings, hs.rings] at hprefix
    refine hφ hs.inv hq ?_
    rw [hs.follows.handled, handledFrom_delivered]
    obtain ⟨rest, hrest⟩ := hprefix
    have haccepted : (s.rings (N.node i).pairs[d.pair].1).accepted
        = fromPair t.delivered d.pair ++ [d.message] ++ rest := hrest.symm
    rw [haccepted, List.append_assoc, List.getElem?_append_right le_rfl,
      Nat.sub_self]
    rfl
  refine ⟨hexpects, Step.own (fun h k q hq => ?_) (fun _ => ?_)
    (fun h => h.noError i), ⟨fun q hq => ?_, ?_, ?_⟩, hview⟩
  · show handledFrom ((s.node i).handled ++ [(d.pair, d.message)]) k <+: _
    rw [hhandled, handledFrom_delivered, ← hs.rings, ← hrings]
    exact hv.delivered k _ (pairs_getElem? hq)
  · exact (congrArg _ hview).mpr ((φ i).handle hu0 hs.between hexpects)
  · rw [hrings, hs.rings]
    exact .refl _
  · rw [hself]
    exact hhandled
  · rw [hself, hmanager]
    exact hs.follows.phase

/-- **The manager was about to call its handler**, in the state `t`, with the
pointer `message`; it shows `m`, and so does `ptr`. -/
def Calling (φ : ∀ i, NodeProof (N.node i)) (i : ι) (t : DeliveryState)
    (m : DataMessage) (message ptr : MessagePtr) (s : NetState ι P) : Prop :=
  ∃ u, Fed (N.pairs i) t u ∧ N.Sees φ i s u ∧ N.Shown i m message s
    ∧ N.Shown i m ptr s

theorem Calling.stable (hN : N.Wired) {message : MessagePtr} :
    (nodeSpec φ (.node i)).Stable (N.Calling φ i t m message ptr) := by
  rintro s s' ⟨u, hu, hsees, hmessage, hptr⟩ hr
  obtain ⟨u', hu', hsees'⟩ := hsees.rely hN hr
  exact ⟨u', hu.trans hu', hsees',
    (Shown.beside (φ := φ) hN m message).stable hmessage hr,
    (Shown.beside (φ := φ) hN m ptr).stable hptr hr⟩

/-- The manager has gone on from the state `v`. -/
theorem sees_stable (hN : N.Wired) (v : DeliveryState) :
    (nodeSpec φ (.node i)).Stable
      (fun s => ∃ u, Fed (N.pairs i) v u ∧ N.Sees φ i s u) := by
  rintro s s' ⟨u, hu, hsees⟩ hr
  obtain ⟨u', hu', hsees'⟩ := hsees.rely hN hr
  exact ⟨u', hu.trans hu', hsees'⟩

/-- **The call, from the pointer that is handed over to the return.** The
manager gives the pointer `message`; what the handler gets, `ptr`, shows the
same message. -/
theorem call_wp (hN : N.Wired) (hφ : N.Fits φ) {u0 txMsgq : ℕ} {rxLen txLen : UInt64}
    {message : MessagePtr} {msg : MessageQueueHeader → DataMessage}
    (hok : ∀ u, Fed (N.pairs i) t u → ∀ v,
      DeliverySem (N.pairs i) msg (.msghlr u0 message txMsgq rxLen txLen) u ()
        v → Drains (N.pairs i) u v)
    (hu0 : u0 < (N.node i).pairs.length) (hm : m.size < 2 ^ 64)
    (hs : N.Calling φ i t m message ptr s) :
    ((callMsghlr u0 ptr txMsgq rxLen txLen).expand
      ((N.node i).handlers (N.msgmgr i))).Wp (nodeSpec φ (.node i))
      (fun _ s => ∃ u v t', Fed (N.pairs i) t u
        ∧ DeliverySem (N.pairs i) msg (.msghlr u0 message txMsgq rxLen txLen)
          u () v ∧ Fed (N.pairs i) v t' ∧ N.Sees φ i s t') s := by
  refine Wp.act_of (Calling.stable hN) hs (fun s₁ hs₁ =>
    ⟨trivial, fun r s₂ hsem => ?_⟩)
  obtain ⟨u, hu, hsees, hmessage, hptr⟩ := hs₁
  cases hsem.1 with
  | unseen ha => exact ha.elim
  | msghlr hx =>
    cases hx
    rw [hptr.shown_eq]
    -- what the manager has done by itself
    obtain ⟨v, hv⟩ : ∃ v, v = u.deliver ⟨u0, message, u.shown message, txMsgq,
      rxLen, txLen⟩ u.rings := ⟨_, rfl⟩
    have hdeliver : DeliverySem (N.pairs i) msg (.msghlr u0 message txMsgq
        rxLen txLen) u () v := hv ▸ .msghlr (fun _ _ => rfl)
    have hvinv := (hok u hu v hdeliver).inv hsees.delivery
    have hshown : u.shown message = m := by
      rw [← hmessage.shown_eq]
      cases message with
      | ring msgq slot =>
        show DataMessage.ofMem ((u.rings msgq).ring.slot slot) = _
        rw [hsees.rings]
        rfl
      | buffer content => rfl
    obtain ⟨hexpects, hstep, hfollows, hview⟩ := handle_step hφ hsees hvinv
      (hv ▸ rfl) (hv ▸ rfl) ⟨_, congrArg DeliveryState.delivered hv, rfl, hshown⟩ hu0
    refine ⟨hstep, ?_⟩
    have hruns : N.Runs φ i (fun s => N.Follows i v s ∧ N.Shown i m ptr s)
        (s₁.handle i u0 m) ((N.view i s₁).handle u0 m) :=
      ⟨hstep.inv hsees.inv, hview, hfollows, by
        cases ptr with
        | ring msgq slot => exact hptr
        | buffer content => exact hptr⟩
    show Wp _ _ ((_ >>= _) >>= _) _
    rw [bind_assoc]
    refine Wp.bind ((called_wp hN hu0 hm hvinv hsees.between hexpects
      hruns).mono ?_)
    rintro _ s₃ hs₃
    refine Wp.act_of (sees_stable hN v) hs₃ (fun s₄ hs₄ =>
      ⟨trivial, fun r s₅ hsem => ?_⟩)
    cases hsem.1 with
    | unseen ha =>
      refine ⟨Step.refl _, Wp.ret_of (sees_stable hN v) hs₄
        (fun s₆ hs₆ => ?_)⟩
      obtain ⟨t', ht', hsees'⟩ := hs₆
      exact ⟨u, v, t', hu, hdeliver, ht', hsees'⟩

/-- What `kucomms_message_hlr` finds in the network. -/
theorem Calling.read_wp {α : Type} (hN : N.Wired) {v : α} {q : MgrProg α}
    (hq : Reading (ptr.Finds m) (Prog.ret v) q)
    (hs : N.Calling φ i t m ptr ptr s) :
    (q.expand ((N.node i).handlers (N.msgmgr i))).Wp (nodeSpec φ (.node i))
      (fun w s => w = v ∧ N.Calling φ i t m ptr ptr s) s := by
  have hshows := Shown.shows (K := N.Calling φ i t m ptr ptr)
    (fun _ h => h.choose_spec.2.2.1) hs
  let known : (a : NodeAct P) → a.Res → Prop
    | .mgr a, r => ptr.Finds m a r
    | _, _ => False
  have hknown : ∀ (a : MgrAct) (r : a.Res), ptr.Finds m a r →
      Reading known (Prog.ret r) ((N.node i).handlers (N.msgmgr i) a) := by
    intro a r ha
    cases ha with
    | byte dst hk => exact .read (.byte dst hk) (.ret _)
    | word hk => exact .read (.word hk) (.ret _)
    | loadBuffer k n => exact .read (.loadBuffer k n) (.ret _)
    | storeCbdata k b => exact .read (.storeCbdata k b) (.ret _)
  refine Wp.read_only (Reading.expand hknown hq)
    (Calling.stable hN) (fun {a r s} ha hs => ⟨trivial, fun r' s' hsem => ?_⟩)
    hs
  cases a with
  | mgr a =>
    obtain ⟨hr, rfl⟩ := hshows.finds ha hs r' s' hsem.1
    exact ⟨hr, rfl, Step.refl _⟩
  | _ => exact ha.elim

/-- **The handler that the manager calls.** -/
theorem entry_wp (hN : N.Wired) (hφ : N.Fits φ) {u0 txMsgq : ℕ} {rxLen txLen : UInt64}
    {message : MessagePtr} {msg : MessageQueueHeader → DataMessage}
    (hok : ∀ u, Fed (N.pairs i) t u → ∀ v,
      DeliverySem (N.pairs i) msg (.msghlr u0 message txMsgq rxLen txLen) u ()
        v → Drains (N.pairs i) u v)
    (hs : N.Sees φ i s t) :
    (((N.node i).build.entry u0 message txMsgq rxLen txLen).expand
      ((N.node i).handlers (N.msgmgr i))).Wp (nodeSpec φ (.node i))
      (fun _ s => ∃ u v t', Fed (N.pairs i) t u
        ∧ DeliverySem (N.pairs i) msg (.msghlr u0 message txMsgq rxLen txLen)
          u () v ∧ Fed (N.pairs i) v t' ∧ N.Sees φ i s t') s := by
  -- what the delivery that is next says of its arguments
  obtain ⟨d, hd⟩ : ∃ d : Delivery, d = ⟨u0, message, t.shown message, txMsgq,
    rxLen, txLen⟩ := ⟨_, rfl⟩
  have hdinv : DeliveryInv (N.pairs i) (t.deliver d t.rings) :=
    (hok t (Fed.refl _ t) _ (hd ▸ .msghlr (fun _ _ => rfl))).inv hs.delivery
  obtain ⟨p, hp, -, hrxLen, -⟩ := hdinv.matching d
    (List.mem_append_right _ (List.mem_singleton_self d))
  have hshown : N.Shown i d.message message s :=
    Shown.of_delivery (hdinv.shows d rfl) hs.rings (hd ▸ rfl)
  obtain ⟨q, hq, rfl⟩ := mem_pairs.mp (List.mem_of_getElem? hp)
  have hu0 : u0 < (N.node i).pairs.length := by
    have hlt := (List.getElem?_eq_some_iff.mp hp).1
    rw [hd] at hlt
    rwa [pairs, List.length_map] at hlt
  have hmem : d.message ∈ (s.rings q.1).accepted := by
    have hprefix := hdinv.delivered d.pair _ hp
    rw [← hs.rings]
    refine hprefix.subset ?_
    show d.message ∈ fromPair (t.delivered ++ [d]) d.pair
    rw [fromPair_concat_self]
    exact List.mem_append_right _ (List.mem_singleton_self _)
  have hsize := hs.inv.sizes q.1 d.message hmem
  have hlt := (N.len q.1).toNat_lt
  have hcalling : N.Calling φ i t d.message message message s :=
    ⟨t, Fed.refl _ t, hs, hshown, hshown⟩
  cases hbuild : (N.node i).build with
  | user => exact call_wp hN hφ hok hu0 (by omega) hcalling
  | kernel hz =>
    refine kucommsMessageHlr_wp (fun hq hs => Calling.read_wp hN hq hs) ?_ ?_
      (fun copy s₁ hcopy hs₁ => ?_) hcalling
    · rw [hd] at hrxLen
      rw [show rxLen = N.len q.1 from hrxLen]
      exact hsize
    · cases message with
      | ring msgq slot => trivial
      | buffer content => exact hshown
    · obtain ⟨u, hu, hsees, hmessage, -⟩ := hs₁
      exact call_wp hN hφ hok hu0 (by omega) ⟨u, hu, hsees, hmessage, hcopy⟩

end Call

/-! ## Turns -/

section Turn

variable {msg : MessageQueueHeader → DataMessage}

omit [DecidableEq ι] in
/-- What the manager does to rings it does to those it receives from. -/
theorem ring_step (hN : N.Wired) (hs : N.Sees φ i s t) {q : ℕ × ℕ}
    (hq : q ∈ (N.node i).pairs) {u : Traced}
    (hlength : u.ring.mLength = (s.rings q.1).ring.mLength)
    (h : Drains (N.pairs i) t
      { t with rings := Function.update t.rings q.1 u }) :
    N.Step φ (.node i) s (s.setRing q.1 u)
      ∧ N.Sees φ i (s.setRing q.1 u)
        { t with rings := Function.update t.rings q.1 u } := by
  have hreader := h.reader _ (mem_pairs.mpr ⟨q, hq, rfl⟩)
  simp only [ringPair, Function.update_self] at hreader
  rw [hs.rings] at hreader
  have hstep : N.Step φ (.node i) s (s.setRing q.1 u) :=
    Step.read hN (show N.Reads (.node i) q.1 from ⟨q, hq, rfl⟩) hlength
      hreader
  refine ⟨hstep, hstep.inv hs.inv, ?_, ?_, ⟨fun q' _ => ?_, hs.follows.handled,
    hs.follows.phase⟩, h.inv hs.delivery⟩
  · rw [view_setRing hreader.accepted]
    exact hs.between
  · show Function.update t.rings q.1 u = Function.update s.rings q.1 u
    rw [hs.rings]
  · show WriterStep _ (Function.update t.rings q.1 u q'.1)
      (Function.update s.rings q.1 u q'.1)
    rw [hs.rings]
    exact .refl _

/-- An action that nobody sees is performed as it is. -/
theorem unseen_wp (hN : N.Wired) {a : MgrAct} (ha : a.Unseen)
    (hquiet : a.quiet = true) (hs : N.Sees φ i s t) :
    (act (.mgr a) .ret : NodeProg P a.Res).Wp (nodeSpec φ (.node i))
      (fun r s => ∃ u v t', Fed (N.pairs i) t u
        ∧ DeliverySem (N.pairs i) msg a u r v ∧ Fed (N.pairs i) v t'
        ∧ N.Sees φ i s t') s := by
  have hstable := sees_stable (φ := φ) (i := i) hN t
  refine Wp.act_of hstable ⟨t, Fed.refl _ t, hs⟩ (fun s₁ hs₁ =>
    ⟨trivial, fun r s₂ hsem => ?_⟩)
  have hsame : s₂ = s₁ := by
    cases hsem.1 with
    | unseen => rfl
    | ring => exact ha.elim
    | msghlr => exact ha.elim
  subst hsame
  refine ⟨Step.refl _, Wp.ret_of hstable hs₁ (fun s₃ hs₃ => ?_)⟩
  obtain ⟨u, hu, hsees⟩ := hs₃
  exact ⟨u, u, u, hu, .quiet hquiet (fun _ _ => rfl), Fed.refl _ u, hsees⟩

/-- **A work or timer handler that is called by the manager.** -/
theorem aside_wp (hN : N.Wired) {a : MgrAct} (hquiet : a.quiet = true)
    {p : HandlerProg P a.Res} (hp : ∀ l, (φ i).between l →
      p.Wp (handlerSpec (N.node i).pairs.length (φ i).within (φ i).always)
        (fun _ => (φ i).between) l)
    (hs : N.Sees φ i s t) :
    (p.expand (Node.handlerAct (N.node i).build (N.msgmgr i))).Wp
      (nodeSpec φ (.node i))
      (fun r s => ∃ u v t', Fed (N.pairs i) t u
        ∧ DeliverySem (N.pairs i) msg a u r v ∧ Fed (N.pairs i) v t'
        ∧ N.Sees φ i s t') s := by
  refine (handler_wp hN (Follows.beside hN t) (hp _ hs.between)
    ⟨hs.inv, rfl, hs.follows⟩).mono ?_
  rintro r u ⟨l, hu, hl⟩
  rw [← hu.view] at hl
  exact ⟨_, _, _, hu.beside.to_fed, .quiet hquiet (fun _ _ => rfl),
    Fed.refl _ _, hu.beside.sees hu.inv hl hs.delivery⟩

/-- **An action of a turn**, with the handlers filled in, comes to what the
action is said to do. -/
theorem turnAct_wp (hN : N.Wired) (hφ : N.Fits φ) {a : MgrAct} (ha : a.InTurn (N.msgmgr i))
    (hok : ∀ u, Fed (N.pairs i) t u → ∀ r v,
      DeliverySem (N.pairs i) msg a u r v → Drains (N.pairs i) u v)
    (hs : N.Sees φ i s t) :
    (through (N.node i).build.entry ((N.node i).handlers (N.msgmgr i)) a).Wp
      (nodeSpec φ (.node i))
      (fun r s => ∃ u v t', Fed (N.pairs i) t u
        ∧ DeliverySem (N.pairs i) msg a u r v ∧ Fed (N.pairs i) v t'
        ∧ N.Sees φ i s t') s := by
  have hstable := sees_stable (φ := φ) (i := i) hN t
  cases a with
  | ring msgq b =>
    obtain ⟨hb, k, hk, rfl⟩ := ha
    rw [(hasPairs hN i).length, pairs, List.length_map] at hk
    have hq := List.getElem?_eq_getElem hk
    have hmem := List.mem_of_getElem? hq
    obtain ⟨hrx, -⟩ := (hasPairs hN i).pair k _ (pairs_getElem? hq)
    rw [hrx] at hok ⊢
    refine Wp.act_of hstable ⟨t, Fed.refl _ t, hs⟩ (fun s₁ hs₁ =>
      ⟨trivial, fun r s₂ hsem => ?_⟩)
    obtain ⟨u, hu, hsees⟩ := hs₁
    obtain ⟨rfl, rfl⟩ := Sem.of_ring hsem.1
    have hlength := (hb.silent.kept msg (s₁.rings ((N.node i).pairs[k]).1)).1
    rw [hb.silent.exec_eq _ msg]
    -- the same access by the manager by itself
    have hdeliver : DeliverySem (N.pairs i) msg
      (.ring ((N.node i).pairs[k]).1 b) u _ _ := .ring _ b
    rw [hsees.rings] at hdeliver
    obtain ⟨hstep, hsees'⟩ := ring_step hN hsees hmem hlength
      (by rw [hsees.rings]; exact hok u hu _ _ hdeliver)
    rw [hsees.rings] at hsees'
    refine ⟨hstep, Wp.ret_of (sees_stable hN _)
      ⟨_, Fed.refl _ _, hsees'⟩ (fun s₃ hs₃ => ?_)⟩
    obtain ⟨t', ht', hsees₃⟩ := hs₃
    exact ⟨u, _, t', hu, hdeliver, ht', hsees₃⟩
  | msghlr u0 message txMsgq rxLen txLen =>
    refine Wp.bind ((entry_wp hN hφ (fun u hu v hv => hok u hu () v hv) hs).mono
      ?_)
    rintro _ u ⟨u', v, t', hu, hv, ht', hsees⟩
    refine Wp.ret_of (sees_stable hN v) ⟨t', ht', hsees⟩ (fun s₃ hs₃ => ?_)
    obtain ⟨t'', ht'', hsees₃⟩ := hs₃
    exact ⟨u', v, t'', hu, hv, ht'', hsees₃⟩
  | msghlrReturn =>
    refine Wp.ret_of hstable ⟨t, Fed.refl _ t, hs⟩ (fun s₁ hs₁ => ?_)
    obtain ⟨u, hu, hsees⟩ := hs₁
    have hdeliver : DeliverySem (N.pairs i) msg .msghlrReturn u true
      { u with current := none } := .msghlrReturn (fun _ _ => rfl)
    exact ⟨u, _, _, hu, hdeliver, Fed.refl _ _, hsees.inv, hsees.between,
      hsees.rings, ⟨hsees.follows.fed, hsees.follows.handled,
        hsees.follows.phase⟩, (hok u hu _ _ hdeliver).inv hsees.delivery⟩
  | workhlr => exact aside_wp hN rfl (fun _ => (φ i).workhlr) hs
  | timerhlr now => exact aside_wp hN rfl (fun _ => (φ i).timerhlr now) hs
  | _ => exact unseen_wp hN trivial rfl hs

/-- **A turn in the network**: the manager is settled again, and there is no
error. -/
theorem turn_wp (hN : N.Wired) (hφ : N.Fits φ) (l : RunLocals) (hs : N.Sees φ i s t)
    (ht : Settled (N.pairs i) t) :
    ((N.node i).turn (N.msgmgr i) l).Wp (nodeSpec φ (.node i))
      (fun v s => ∃ t', N.Sees φ i s t' ∧ Settled (N.pairs i) t'
        ∧ v ≠ .exit false) s := by
  unfold Node.turn
  rw [messageManagerTurn_through]
  have hL : ∀ p ∈ N.pairs i, p.rxLen.toNat < 2 ^ 63 := by
    intro p hp
    obtain ⟨q, -, rfl⟩ := mem_pairs.mp hp
    exact (queueLength_bounds (hN.length q.1).1 (hN.length q.1).2).2
  have hbuf : ∀ p ∈ N.pairs i, p.rxLen ≤ (N.node i).bufferLen := by
    intro p hp
    obtain ⟨q, hq, rfl⟩ := mem_pairs.mp hp
    exact hN.buffer i q hq
  have hturn : Wp (managerSpec (N.pairs i) fun _ => .empty) _
      (messageManagerTurn (N.node i).build (N.msgmgr i) (N.node i).bufferLen
        callMsghlr l) t :=
    messageManagerTurn_wp (distinctRx hN i) hL hbuf (hasPairs hN i) l ht
  have honly := Wp.only (messageManagerTurn_all (N.node i).build (N.msgmgr i)
    (N.node i).bufferLen l) hturn
  refine Wp.expand (N.Sees φ i) (fun hs hr => hs.rely hN hr)
    (fun {a s t} hs hok => ?_) hs honly
  exact turnAct_wp hN hφ (hok t (Fed.refl _ t)).1.1
    (fun u hu r v hv => (hok u hu).2 r v hv) hs

end Turn

end Network
