import Kucomms.NetworkRules
import Kucomms.Pointers

/-!
# Handlers in a network

What a handler was proved to do by itself it does in a network
(`Network.handler_wp`, `Network.msghlr_wp`), where each of its actions is a
program: to add a message is to copy it byte by byte, between the steps of
everybody else, and possibly out of a ring that its producer is adding to
meanwhile. That it may be thought of as one action is what `Prog.Wp.expand`
says, since at one moment of the time it takes, the store of `m_wr`, it
becomes what it is said to be.
-/

open Prog

namespace Network

variable {ι P α : Type} [DecidableEq ι] {N : Network ι P}
  {φ : ∀ i, NodeProof (N.node i)} {i : ι} {s s' : NetState ι P}

/-! ## What a node knows -/

/-- **What a node knows beside what it can observe**: the others keep it, and
its own additions and stores do not matter for it. -/
structure Beside (φ : ∀ i, NodeProof (N.node i)) (i : ι)
    (K : NetState ι P → Prop) : Prop where
  stable : (mgrSpec φ (.node i)).Stable K
  setRing : ∀ {s q} (u : Traced), q ∈ (N.node i).pairs → K s →
    K (s.setRing q.2 u)
  setMemory : ∀ {s} (p : P), K s → K (s.setMemory i p)

/-- **A node inside a handler**, with `l` for what it can observe and `K` for
what else it knows. -/
structure Runs (φ : ∀ i, NodeProof (N.node i)) (i : ι)
    (K : NetState ι P → Prop) (s : NetState ι P) (l : Local P) : Prop where
  inv : N.Inv φ s
  view : N.view i s = l
  beside : K s

/-- **The pointer shows the message `m`**, as long as `K` holds. -/
structure Shows (i : ι) (K : NetState ι P → Prop) (ptr : MessagePtr)
    (m : DataMessage) : Prop where
  bears : ptr.Bears m
  finds : ∀ {a r s}, ptr.Finds m a r → K s →
    ∀ {put : ℕ → MessageQueueHeader → DataMessage} r' s',
      Sem put (.node i) (.mgr a) s r' s' → r' = r ∧ s' = s

section Runs

variable {K : NetState ι P → Prop} {l : Local P}

/-- The others leave a node inside a handler where it is. -/
theorem Runs.stable (hK : N.Beside φ i K) (h : N.Runs φ i K s l)
    (hr : N.Rely φ (.node i) s s') : N.Runs φ i K s' l :=
  ⟨hr.inv h.inv, hr.view.trans h.view, hK.stable h.beside hr⟩

/-- A message in memory of the node's own is shown. -/
theorem shows_buffer (K : NetState ι P → Prop) {content : Bytes}
    {m : DataMessage} (h : ∀ k < m.size, content k = m.mem k) :
    Shows i K (.buffer content) m := by
  refine ⟨h, fun {a r s} hfinds _ _ r' s' hsem => ?_⟩
  cases hfinds with
  | loadBuffer k n =>
    cases hsem with
    | unseen ha r => exact ⟨rfl, rfl⟩
  | storeCbdata k b =>
    cases hsem with
    | unseen ha r => exact ⟨rfl, rfl⟩

/-- **What is only read through a pointer** is the message. -/
theorem Shows.read_wp {ptr : MessagePtr} {m : DataMessage} {v : α}
    {p : MgrProg α} {F : NetState ι P → Prop}
    (hshows : Shows i K ptr m) (hF : (mgrSpec φ (.node i)).Stable F)
    (hK : ∀ s, F s → K s)
    (hp : Reading (ptr.Finds m) (Prog.ret v) p) (hs : F s) :
    p.Wp (mgrSpec φ (.node i)) (fun w s => w = v ∧ F s) s := by
  refine Wp.read_only hp hF (fun hfinds hs => ⟨trivial, fun r' s' h => ?_⟩) hs
  obtain ⟨hr, rfl⟩ := hshows.finds hfinds (hK _ hs) r' s' h.1
  exact ⟨hr, rfl, Step.refl _⟩

/-! ## Additions -/

/-- The actions of an operation on a ring are on that ring. -/
theorem at_all {p : QProg α} (a : ℕ) :
    (p.at a).All (fun b => ∃ c, b = .ring a c) := by
  unfold QProg.at
  induction p with
  | ret v => trivial
  | act c k ih => exact ⟨⟨c, rfl⟩, ih⟩

/-- **An addition by a handler**: it succeeds, and the message is one of those
that were sent, or it fails and nothing is changed. -/
theorem addPtrL_wp (hN : N.Wired) (hK : N.Beside φ i K) {k : ℕ} {q : ℕ × ℕ}
    (hq : (N.node i).pairs[k]? = some q) {m : DataMessage}
    (hm : m.size < 2 ^ 64) {ptr : MessagePtr} (hshows : Shows i K ptr m)
    (hsend : (φ i).always (l.send k m)) (hs : N.Runs φ i K s l) :
    (messageQueueAddPtrL (N.len q.2) ptr q.2).Wp (mgrSpec φ (.node i))
      (fun ok s => N.Runs φ i K s (if ok = true then l.send k m else l)
        ∧ (ok = false → l.len k ≤ used (l.sent k) + m.size)) s := by
  have hmem := List.mem_of_getElem? hq
  have hx : N.Writes (.node i) q.2 := ⟨q, hmem, rfl⟩
  have hF : ∀ l, (mgrSpec φ (.node i)).Stable
      (fun s => N.view i s = l ∧ K s) :=
    fun l t t' ht hr => ⟨hr.view.trans ht.1, hK.stable ht.2 hr⟩
  -- what is added is the message, which is in nobody's way
  have hnotFed : ¬N.fed q.2 := fun hfed =>
    nomatch hN.writer hx (show N.Writes (.producer q.2) q.2 from ⟨rfl, hfed⟩)
  have hadd := add_wp (a := q.2) hN hx hm publishes_eq (hF l)
    (hF (l.send k m))
    (fun t u ht hacc => ⟨(view_setRing hacc).trans ht.1,
      hK.setRing u hmem ht.2⟩)
    (fun t u htinv ht hacc => by
      have hview := view_send (hN.tx i) hq hacc
      rw [ht.1] at hview
      refine ⟨⟨hview, hK.setRing u hmem ht.2⟩, fun hfed => absurd hfed hnotFed,
        fun j => ?_⟩
      by_cases hj : j = i
      · rw [hj, hview]
        exact hsend
      · rw [view_setRing_of_ne (fun hw => hj (by
          cases hN.writer hw hx
          rfl))]
        exact htinv.always j)
    hs.inv ⟨hs.view, hs.beside⟩
  refine (Wp.reading (messageQueueAddPtrL_reading hshows.bears hm) hK.stable
    (at_all q.2) ?_ (fun hfinds hs => ⟨trivial, fun r' s' h => ?_⟩) hs.beside
    hadd).mono ?_
  · rintro _ t r t' ⟨c, rfl⟩ ht - hsem
    obtain ⟨-, rfl⟩ := Sem.of_ring hsem.1
    exact hK.setRing _ hmem ht
  · obtain ⟨hr, rfl⟩ := hshows.finds hfinds hs r' s' h.1
    exact ⟨hr, rfl, Step.refl _⟩
  · rintro ok t ⟨⟨htinv, ht⟩, hfull⟩
    refine ⟨?_, fun hok => ?_⟩
    · split at ht
      · next hok =>
        rw [if_pos hok]
        exact ⟨htinv, ht.1, ht.2⟩
      · next hok =>
        rw [if_neg hok]
        exact ⟨htinv, ht.1, ht.2⟩
    · rw [← hs.view, show (N.view i s).len k = _ from txLen_eq hq,
        show (N.view i s).sent k = _ from sent_eq hq]
      exact hfull hok

/-- The same, with the length of the ring from the manager or from the
header. -/
theorem addToTx_wp (hN : N.Wired) (hK : N.Beside φ i K) {build : Build}
    {k : ℕ} (hk : k < (N.node i).pairs.length) {m : DataMessage}
    (hm : m.size < 2 ^ 64) {ptr : MessagePtr} (hshows : Shows i K ptr m)
    (hsend : (φ i).always (l.send k m)) (hs : N.Runs φ i K s l) :
    (addToTx build (N.msgmgr i) k ptr).Wp (mgrSpec φ (.node i))
      (fun ok s => N.Runs φ i K s (if ok = true then l.send k m else l)
        ∧ (ok = false → l.len k ≤ used (l.sent k) + m.size)) s := by
  have hq := List.getElem?_eq_getElem hk
  obtain ⟨-, htx, -, hlen⟩ := (hasPairs hN i).pair k _ (pairs_getElem? hq)
  unfold addToTx
  cases build with
  | kernel hz =>
    dsimp only
    rw [htx, hlen]
    exact addPtrL_wp hN hK hq hm hshows hsend hs
  | user =>
    dsimp only
    rw [htx]
    exact length_wp (F := fun s => N.Runs φ i K s l)
      (fun _ _ ht hr => ht.stable hK hr) (fun _ ht => ht.inv) hs
      (fun _ ht => addPtrL_wp hN hK hq hm hshows hsend ht)

/-! ## The other actions -/

/-- **A node changes what is its own.** -/
theorem Step.own {n : NodeState P}
    (hhandled : N.Inv φ s → ∀ k q, (N.node i).pairs[k]? = some q →
      handledFrom n.handled k <+: (s.rings q.1).accepted)
    (halways : N.Inv φ s → (φ i).always (N.view i (s.setNode i n)))
    (hphase : N.Inv φ s → n.phase ≠ .returned false) :
    N.Step φ (.node i) s (s.setNode i n) := by
  have hother : ∀ j, j ≠ i → (s.setNode i n).node j = s.node j :=
    fun j hj => Function.update_of_ne hj ..
  have hself : (s.setNode i n).node i = n := Function.update_self ..
  refine ⟨fun h => ⟨h.rings, h.length, h.sizes, fun j k q hq => ?_, h.got,
    h.added, fun j => ?_, fun j => ?_⟩, fun _ _ => .refl _,
    fun _ _ => .refl _, fun _ _ _ => rfl,
    fun j hj => hother j (fun hji => hj (hji ▸ rfl)), fun _ _ => rfl,
    fun _ _ => rfl⟩
  · by_cases hj : j = i
    · subst hj
      rw [hself]
      exact hhandled h k q hq
    · rw [hother j hj]
      exact h.handled j k q hq
  · by_cases hj : j = i
    · exact hj ▸ halways h
    · rw [view_congr (hother j hj) (fun _ _ => rfl)]
      exact h.always j
  · by_cases hj : j = i
    · subst hj
      rw [hself]
      exact hphase h
    · rw [hother j hj]
      exact h.noError j

theorem view_setMemory (p : P) :
    N.view i (s.setMemory i p) = (N.view i s).setMemory p := by
  have hself : (s.setMemory i p).node i = { s.node i with memory := p } :=
    Function.update_self ..
  unfold view
  rw [hself]
  rfl

/-- **What a handler does on its own account.** -/
theorem handlerAct_wp (hN : N.Wired) (hK : N.Beside φ i K) {build : Build}
    {a : HandlerAct P} (ha : a.Allowed (N.node i).pairs.length)
    (hok : ∀ r l', HandlerSem (φ i).within a l r l' → (φ i).always l')
    (hs : N.Runs φ i K s l) :
    (Node.handlerAct build (N.msgmgr i) a).Wp (nodeSpec φ (.node i))
      (fun r s => ∃ l', HandlerSem (φ i).within a l r l'
        ∧ N.Runs φ i K s l') s := by
  have hstable : ∀ l, (nodeSpec φ (.node i)).Stable
      (fun s => N.Runs φ i K s l) := fun _ _ _ ht hr => ht.stable hK hr
  have hret : ∀ {r : a.Res} {t : NetState ι P} {l'},
      HandlerSem (φ i).within a l r l' → N.Runs φ i K t l' →
      (Prog.ret r : NodeProg P a.Res).Wp (nodeSpec φ (.node i))
        (fun r s => ∃ l', HandlerSem (φ i).within a l r l'
          ∧ N.Runs φ i K s l') t :=
    fun hsem ht => Wp.ret_of (hstable _) ht (fun _ hu => ⟨_, hsem, hu⟩)
  cases a with
  | add k m =>
    have hsend : (φ i).always (l.send k m) :=
      hok true _ (.add k m true (fun h => nomatch h))
    refine inNode_wp ((addToTx_wp hN hK ha.1 ha.2 (shows_buffer K
      fun _ _ => rfl) hsend hs).mono (fun ok t ht => ?_))
    exact ⟨_, .add k m ok ht.2, ht.1⟩
  | rand =>
    refine Wp.act_of (hstable l) hs (fun t ht => ⟨trivial, fun r u hu => ?_⟩)
    cases hu.1 with
    | rand => exact ⟨Step.refl _, hret (.rand r) ht⟩
  | load =>
    refine Wp.act_of (hstable l) hs (fun t ht => ⟨trivial, fun r u hu => ?_⟩)
    cases hu.1 with
    | load hx =>
      cases hx
      obtain rfl := ht.view
      exact ⟨Step.refl _, hret .load ht⟩
  | store p =>
    refine Wp.act_of (hstable l) hs (fun t ht => ⟨trivial, fun r u hu => ?_⟩)
    obtain ⟨hu, hwithin⟩ := hu
    cases hu with
    | store hx p =>
      cases hx
      have hp : (φ i).within p := by
        have hself : (t.setMemory i p).node i = { t.node i with memory := p } :=
          Function.update_self ..
        have hi := hwithin i
        rw [hself] at hi
        exact hi
      have hview : N.view i (t.setMemory i p) = l.setMemory p :=
        (view_setMemory p).trans (congrArg (Local.setMemory · p) ht.view)
      have hstep : N.Step φ (.node i) t (t.setMemory i p) :=
        Step.own (fun h => h.handled i)
          (fun _ => (congrArg _ hview).mpr (hok () _ (.store p hp)))
          (fun h => h.noError i)
      exact ⟨hstep, hret (.store p hp) ⟨hstep.inv ht.inv, hview,
        hK.setMemory p ht.beside⟩⟩

/-! ## Handlers -/

/-- **A work or timer handler** does what it was proved to do. -/
theorem handler_wp (hN : N.Wired) (hK : N.Beside φ i K) {build : Build}
    {p : HandlerProg P α} {Q : α → Local P → Prop}
    (h : p.Wp (handlerSpec (N.node i).pairs.length (φ i).within
      (φ i).always) Q l)
    (hs : N.Runs φ i K s l) :
    (p.expand (Node.handlerAct build (N.msgmgr i))).Wp (nodeSpec φ (.node i))
      (fun v s => ∃ l', N.Runs φ i K s l' ∧ Q v l') s := by
  refine Wp.expand (N.Runs φ i K) (fun ht hr => ⟨_, rfl, ht.stable hK hr⟩)
    (fun {a t l} ht hok => ?_) hs h
  obtain ⟨ha, hkeep⟩ := hok l rfl
  refine (handlerAct_wp hN hK ha hkeep ht).mono ?_
  rintro r u ⟨l', hsem, hu⟩
  exact ⟨l, l', l', rfl, hsem, rfl, hu⟩

/-- **The message handler** does what it was proved to do, while its pointer
shows the message. -/
theorem msghlr_wp (hN : N.Wired) (hK : N.Beside φ i K) {build : Build}
    {ptr : MessagePtr} {m : DataMessage} (hm : m.size < 2 ^ 64)
    (hshows : Shows i K ptr m)
    {p : MsghlrProg P α} {Q : α → Local P → Prop}
    (h : p.Wp (msghlrSpec (N.node i).pairs.length m (φ i).within
      (φ i).always) Q l)
    (hs : N.Runs φ i K s l) :
    (p.expand (Node.msghlrAct build (N.msgmgr i) ptr)).Wp
      (nodeSpec φ (.node i))
      (fun v s => ∃ l', N.Runs φ i K s l' ∧ Q v l') s := by
  refine Wp.expand (N.Runs φ i K) (fun ht hr => ⟨_, rfl, ht.stable hK hr⟩)
    (fun {a t l} ht hok => ?_) hs h
  obtain ⟨ha, hkeep⟩ := hok l rfl
  have hle := m.le_size
  have hstable : (mgrSpec φ (.node i)).Stable (fun s => N.Runs φ i K s l) :=
    fun _ _ ht hr => ht.stable hK hr
  cases a with
  | field k =>
    have hk : k + 8 ≤ 32 := ha
    refine inNode_wp ((hshows.read_wp hstable (fun _ ht => ht.beside)
      (loadMessageField_reading hshows.bears (by omega)) ht).mono ?_)
    rintro _ u ⟨rfl, hu⟩
    exact ⟨l, l, l, rfl, .field k, rfl, hu⟩
  | byte k =>
    have hk : k < m.size := ha
    refine inNode_wp ((hshows.read_wp hstable (fun _ ht => ht.beside)
      (loadMessageByte_reading hshows.bears hk) ht).mono ?_)
    rintro _ u ⟨rfl, hu⟩
    exact ⟨l, l, l, rfl, .byte k, rfl, hu⟩
  | forward k =>
    have hsend : (φ i).always (l.send k m) :=
      hkeep true _ (.forward k true (fun h => nomatch h))
    refine inNode_wp ((addToTx_wp hN hK ha hm hshows hsend ht).mono
      (fun ok u hu => ?_))
    exact ⟨l, _, _, rfl, .forward k ok hu.2, rfl, hu.1⟩
  | own a =>
    refine (handlerAct_wp hN hK ha (fun r l' hsem => hkeep r l' (.own hsem))
      ht).mono ?_
    rintro r u ⟨l', hsem, hu⟩
    exact ⟨l, l', l', rfl, .own hsem, rfl, hu⟩

end Runs

end Network
