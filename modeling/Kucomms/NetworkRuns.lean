import Kucomms.NetworkTurns
import Kucomms.Observer

/-!
# What a network does

`network_correct`: in a network of any number of managers, each ring wired to
one reader and one writer at most, in every interleaving of everything that
happens in it, the messages that are handled from a ring are a prefix of
those accepted into it, so are those a consumer gets, those accepted from a
free producer are the ones it has added, every handler keeps to what was
proved about it by itself, and no manager ends with an error.

So a system is verified by proofs about its handlers (`NodeProof`), each a
sequential program. What one node was proved to send and the next one to
handle fit together, since `sent` of the one and `handled` of the other are
about the same ring.
-/

open Prog

namespace Network

variable {ι P : Type} [DecidableEq ι] {N : Network ι P}
  {φ : ∀ i, NodeProof (N.node i)} {s s' : NetState ι P}

/-! ## The free ends -/

/-- What a producer has added when its call returns. -/
structure AddPost (φ : ∀ i, NodeProof (N.node i)) (a : ℕ) (m : DataMessage)
    (ok : Bool) (s : NetState ι P) : Prop where
  inv : N.Inv φ s
  accepted : (s.rings a).accepted
    = s.added a ++ if ok = true then [m] else []

/-- **A free producer's call.** The message is accepted at the moment `m_wr`
is stored; until then what was accepted is what was added. -/
theorem producer_wp (hN : N.Wired) {a : ℕ} {m : DataMessage}
    (hfed : N.fed a) (hm : m.size < 2 ^ 64) (hs : N.Inv φ s)
    (hadded : (s.rings a).accepted = s.added a) :
    (N.prog (.add a m)).Wp (callSpec (N.accepts (.add a m)) φ (.producer a))
      (N.AddPost φ a m) s := by
  have hx : N.Writes (.producer a) a := ⟨rfl, hfed⟩
  have heq : (messageQueueAdd m.mem).at a = (loadField .length).at a
      >>= fun queueLength => (messageQueueAddL queueLength m.mem).at a :=
    embed_bind ..
  have hstable : ∀ l : List DataMessage,
      (opSpec (N.accepts (.add a m)) φ (.producer a)).Stable
        (fun s => (s.rings a).accepted = s.added a ++ l) := by
    intro l t t' ht hr
    rw [(hr.drained a hx).accepted, hr.added a rfl]
    exact ht
  refine inNode_wp (heq ▸ length_wp (F := fun s => N.Inv φ s
      ∧ (s.rings a).accepted = s.added a ++ [])
    (fun t t' ht hr => ⟨hr.inv ht.1, hstable [] ht.2 hr⟩) (fun _ h => h.1)
    ⟨hs, hadded.trans (List.append_nil _).symm⟩ (fun t ht => ?_))
  refine (add_wp hN hx hm (fun _ => rfl) (hstable []) (hstable [m])
    (fun u v hu hacc => ?_) (fun u v huinv hu hacc => ⟨?_, fun _ => ?_,
      fun j => ?_⟩) ht.1 ht.2).mono (fun ok u hu => ⟨hu.1.1, ?_⟩)
  · rw [NetState.setRing_rings_self, hacc]
    exact hu
  · rw [NetState.setRing_rings_self, hacc, hu, List.append_nil]
    rfl
  · rw [hu, List.append_nil]
  · rw [view_setRing_of_ne (fun hw => nomatch hN.writer hw hx)]
    exact huinv.always j
  · cases ok with
    | true => exact hu.1.2
    | false => exact hu.1.2

/-- **What was added is recorded.** -/
theorem AddPost.returns {a : ℕ} {m : DataMessage} {ok : Bool}
    (h : N.AddPost φ a m ok s) :
    N.Step φ (.producer a) s (onRet s (.add a m) ok)
      ∧ N.Inv φ (onRet s (.add a m) ok)
      ∧ ((onRet s (.add a m) ok).rings a).accepted
        = (onRet s (.add a m) ok).added a := by
  have hacc := h.accepted
  unfold onRet
  dsimp only
  split
  · next hok =>
    rw [if_pos hok] at hacc
    have hstep : N.Step φ (.producer a) s { s with
        added := Function.update s.added a (s.added a ++ [m]) } := by
      refine ⟨fun hinv => ⟨hinv.rings, hinv.length, hinv.sizes, hinv.handled,
        hinv.got, fun b hb => ?_, hinv.always, hinv.noError⟩,
        fun _ _ => .refl _, fun _ _ => .refl _, fun _ _ _ => rfl,
        fun _ _ => rfl, fun _ _ => rfl,
        fun b hb => Function.update_of_ne (fun hba => hb (by rw [hba])) ..⟩
      show Accounts _ (Function.update s.added a _ b)
      by_cases hba : b = a
      · subst hba
        rw [Function.update_self]
        exact .inl hacc
      · rw [Function.update_of_ne hba]
        exact hinv.added b hb
    refine ⟨hstep, hstep.inv h.inv, ?_⟩
    show (s.rings a).accepted = Function.update s.added a _ a
    rw [Function.update_self]
    exact hacc
  · next hok =>
    rw [if_neg hok, List.append_nil] at hacc
    exact ⟨Step.refl s, h.inv, hacc⟩

/-- What a consumer has got when its call returns. -/
structure GotPost (φ : ∀ i, NodeProof (N.node i)) (a : ℕ) (g : GetResult)
    (s : NetState ι P) : Prop where
  inv : N.Inv φ s
  taken : (s.rings a).taken = (s.got a).length + if g.ok then 1 else 0
  message : g.ok = true → (s.rings a).accepted[(s.got a).length]?
    = some (DataMessage.ofMem g.buffer)

/-- **A free consumer's call.** -/
theorem consumer_wp (hN : N.Wired) {a : ℕ} {buffer : Bytes}
    {bufferLen : UInt64} (hdrained : N.drained a) (hs : N.Inv φ s)
    (htaken : (s.rings a).taken = (s.got a).length) :
    (N.prog (.get a buffer bufferLen)).Wp
      (callSpec (N.accepts (.get a buffer bufferLen)) φ (.consumer a))
      (N.GotPost φ a) s := by
  have hx : N.Reads (.consumer a) a := ⟨rfl, hdrained⟩
  have hL := (queueLength_bounds (hN.length a).1 (hN.length a).2).2
  have heq : (messageQueueGet buffer bufferLen).at a
      = (loadField .length).at a >>= fun queueLength =>
        (messageQueueGetL queueLength buffer bufferLen).at a :=
    embed_bind ..
  refine inNode_wp (heq ▸ length_wp (F := fun s => N.Inv φ s
      ∧ (s.rings a).taken = (s.got a).length)
    (fun t t' ht hr => ⟨hr.inv ht.1, ?_⟩) (fun _ h => h.1) ⟨hs, htaken⟩
    (fun t ht => ?_))
  · rw [(hr.fed a hx).taken, hr.got a rfl]
    exact ht.2
  obtain ⟨htinv, htaken⟩ := ht
  have hget : Wp (readerSpec (N.len a).toNat fun _ => .empty) _
      (messageQueueGetL (N.len a) buffer bufferLen) (t.rings a) :=
    messageQueueGetL_wp hL (htinv.rings a) htaken
  refine (read_wp (F := fun s => s.got a = t.got a) hN hx
    (fun _ _ h hr => (hr.got a rfl).trans h) (fun _ _ h _ => h)
    ((messageQueueGetL_takes buffer bufferLen).mono
      (fun _ => QAct.Takes.silent)) htinv rfl hget).mono ?_
  rintro g u ⟨hpost, huinv, hgot⟩
  refine ⟨huinv, ?_, fun hok => ?_⟩
  · rw [hgot]
    exact hpost.taken
  · rw [hgot]
    exact (hpost.message hok).2.1

/-- **What was got is recorded.** -/
theorem GotPost.returns {a : ℕ} {g : GetResult} (buffer : Bytes)
    (bufferLen : UInt64) (h : N.GotPost φ a g s) :
    N.Step φ (.consumer a) s (onRet s (.get a buffer bufferLen) g)
      ∧ N.Inv φ (onRet s (.get a buffer bufferLen) g)
      ∧ ((onRet s (.get a buffer bufferLen) g).rings a).taken
        = ((onRet s (.get a buffer bufferLen) g).got a).length := by
  unfold onRet
  dsimp only
  split
  · next hok =>
    have hprefix := h.inv.got a
    obtain ⟨hlt, hget⟩ := List.getElem?_eq_some_iff.mp (h.message hok)
    have hstep : N.Step φ (.consumer a) s { s with
        got := Function.update s.got a
          (s.got a ++ [DataMessage.ofMem g.buffer]) } := by
      refine ⟨fun hinv => ⟨hinv.rings, hinv.length, hinv.sizes, hinv.handled,
        fun b => ?_, hinv.added, hinv.always, hinv.noError⟩,
        fun _ _ => .refl _, fun _ _ => .refl _, fun _ _ _ => rfl,
        fun _ _ => rfl,
        fun b hb => Function.update_of_ne (fun hba => hb (by rw [hba])) ..,
        fun _ _ => rfl⟩
      show Function.update s.got a _ b <+: _
      by_cases hb : b = a
      · subst hb
        rw [Function.update_self, ← hget]
        exact List.concat_get_prefix hprefix hlt
      · rw [Function.update_of_ne hb]
        exact hinv.got b
    refine ⟨hstep, hstep.inv h.inv, ?_⟩
    show (s.rings a).taken = (Function.update s.got a _ a).length
    rw [Function.update_self, List.length_append, h.taken, hok]
    rfl
  · next hok =>
    refine ⟨Step.refl s, h.inv, ?_⟩
    rw [h.taken, if_neg hok]
    rfl

/-! ## The outline -/

/-- What holds while a party is idle. -/
def Idle (φ : ∀ i, NodeProof (N.node i)) :
    NetParty ι → NetState ι P → Prop
  | .node i, s => ∃ t, N.Sees φ i s t ∧ Settled (N.pairs i) t
  | .producer a, s => N.Inv φ s
    ∧ (N.fed a → (s.rings a).accepted = s.added a)
  | .consumer a, s => N.Inv φ s
    ∧ (N.drained a → (s.rings a).taken = (s.got a).length)

/-- What holds when a call is about to return. -/
def Post (φ : ∀ i, NodeProof (N.node i)) :
    NetParty ι → (c : NetCall ι) → c.Ret → NetState ι P → Prop
  | .node i, .enter j _, _ => fun s => i = j ∧ N.Idle φ (.node i) s
  | .node i, .turn j _, v => fun s => i = j
    ∧ ∃ t, N.Sees φ i s t ∧ Settled (N.pairs i) t ∧ v ≠ .exit false
  | .producer a, .add b m, ok => fun s => a = b ∧ N.AddPost φ a m ok s
  | .consumer a, .get b _ _, g => fun s => a = b ∧ N.GotPost φ a g s
  | _, _, _ => fun _ => False

theorem Idle.stable (hN : N.Wired) {x : NetParty ι} (h : N.Idle φ x s)
    (hr : N.Rely φ x s s') : N.Idle φ x s' := by
  cases x with
  | node i =>
    obtain ⟨t, hs, ht⟩ := h
    obtain ⟨t', hfed, hs'⟩ := hs.rely hN hr
    exact ⟨t', hs', ht.stable hfed⟩
  | producer a =>
    refine ⟨hr.inv h.1, fun hfed => ?_⟩
    rw [(hr.drained a ⟨rfl, hfed⟩).accepted, hr.added a rfl]
    exact h.2 hfed
  | consumer a =>
    refine ⟨hr.inv h.1, fun hdrained => ?_⟩
    rw [(hr.fed a ⟨rfl, hdrained⟩).taken, hr.got a rfl]
    exact h.2 hdrained

/-- **`message_manager_run` goes on**, or ends well. -/
theorem setPhase_step {i : ι} {t : DeliveryState} {ph : ManagerPhase}
    (hph : ph ≠ .returned false) (hs : N.Sees φ i s t)
    (ht : Settled (N.pairs i) t) :
    N.Step φ (.node i) s (s.setPhase i ph)
      ∧ N.Idle φ (.node i) (s.setPhase i ph) := by
  have hself : (s.setPhase i ph).node i = { s.node i with phase := ph } :=
    Function.update_self ..
  have hview : N.view i (s.setPhase i ph) = N.view i s := by
    unfold view
    rw [hself]
    rfl
  have hstep : N.Step φ (.node i) s (s.setPhase i ph) :=
    Step.own (fun h => h.handled i)
      (fun h => (congrArg _ hview).mpr (h.always i)) (fun _ => hph)
  obtain ⟨-, hsettled⟩ := ht.setManager hph
  refine ⟨hstep, { t with manager := ph }, ⟨hstep.inv hs.inv, ?_, hs.rings,
    ⟨hs.follows.fed, ?_, ?_⟩, hsettled.inv⟩, hsettled⟩
  · rw [hview]
    exact hs.between
  · rw [hself]
    exact hs.follows.handled
  · rw [hself]

/-- `message_manager_run` up to its loop. -/
theorem enter_wp (hN : N.Wired) {i : ι} {buffer : Bytes}
    (hs : N.Idle φ (.node i) s) :
    (N.prog (.enter i buffer)).Wp (nodeSpec φ (.node i))
      (fun _ => N.Idle φ (.node i)) s := by
  have hstable : (nodeSpec φ (.node i)).Stable (N.Idle φ (.node i)) :=
    fun _ _ h hr => h.stable hN hr
  refine Wp.act_of hstable hs (fun t ht => ⟨trivial, fun r u hu => ?_⟩)
  cases hu.1 with
  | unseen ha =>
    exact ⟨Step.refl _, Wp.ret_of hstable ht (fun _ h => h)⟩

/-- **The proof of the network.** -/
def outline (hN : N.Wired) (φ : ∀ i, NodeProof (N.node i))
    (hφ : N.Fits φ) : (N.machine.within (N.Within φ)).Outline where
  rely := N.Rely φ
  guar := N.Step φ
  safe _ _ _ _ := True
  idle := N.Idle φ
  post := N.Post φ
  rely_refl _ := Rely.refl
  rely_trans _ := Rely.trans
  guar_rely hxy h := h.rely hN hxy
  idle_stable h hr := h.stable hN hr
  call_ok {x s c} h hmay := by
    refine ⟨Step.refl s, ?_⟩
    cases x with
    | node i =>
      cases c with
      | enter j buffer =>
        obtain ⟨rfl, -⟩ := hmay
        exact (enter_wp hN h).mono (fun _ _ ht => ⟨rfl, ht⟩)
      | turn j l =>
        obtain ⟨rfl, -⟩ := hmay
        obtain ⟨t, hs, ht⟩ := h
        exact (turn_wp hN hφ l hs ht).mono (fun _ _ ht => ⟨rfl, ht⟩)
      | add b m => exact hmay.elim
      | get b buffer bufferLen => exact hmay.elim
    | producer a =>
      cases c with
      | add b m =>
        obtain ⟨rfl, hfed, hm⟩ := hmay
        exact (producer_wp hN hfed hm h.1 (h.2 hfed)).mono
          (fun _ _ ht => ⟨rfl, ht⟩)
      | enter j buffer => exact hmay.elim
      | turn j l => exact hmay.elim
      | get b buffer bufferLen => exact hmay.elim
    | consumer a =>
      cases c with
      | get b buffer bufferLen =>
        obtain ⟨rfl, hdrained⟩ := hmay
        exact (consumer_wp hN hdrained h.1 (h.2 hdrained)).mono
          (fun _ _ ht => ⟨rfl, ht⟩)
      | enter j buffer => exact hmay.elim
      | turn j l => exact hmay.elim
      | add b m => exact hmay.elim
  ret_ok {x s c v} h := by
    cases x with
    | node i =>
      cases c with
      | enter j buffer =>
        obtain ⟨rfl, t, hs, ht⟩ := h
        exact setPhase_step (fun hc => by cases hc) hs ht
      | turn j l =>
        obtain ⟨rfl, t, hs, ht, hv⟩ := h
        cases v with
        | again l' => exact setPhase_step (fun hc => by cases hc) hs ht
        | exit ok =>
          exact setPhase_step (fun hc => hv (by cases hc; rfl)) hs ht
      | add b m => exact h.elim
      | get b buffer bufferLen => exact h.elim
    | producer a =>
      cases c with
      | add b m =>
        obtain ⟨rfl, hpost⟩ := h
        obtain ⟨hstep, hinv, hadded⟩ := hpost.returns
        exact ⟨hstep, hinv, fun _ => hadded⟩
      | enter j buffer => exact h.elim
      | turn j l => exact h.elim
      | get b buffer bufferLen => exact h.elim
    | consumer a =>
      cases c with
      | get b buffer bufferLen =>
        obtain ⟨rfl, hpost⟩ := h
        obtain ⟨hstep, hinv, htaken⟩ := hpost.returns buffer bufferLen
        exact ⟨hstep, hinv, fun _ => htaken⟩
      | enter j buffer => exact h.elim
      | turn j l => exact h.elim
      | add b m => exact h.elim

/-! ## From the start -/

section Start

variable {mem : ℕ → MessageQueueHeader} {memory : ι → P}

omit [DecidableEq ι] in
theorem view_start (i : ι) : N.view i (N.start mem memory)
    = ⟨memory i, [], fun _ => [], N.txLen i⟩ := by
  have hsent : N.sent i (N.start mem memory) = fun _ => [] := by
    funext k
    unfold sent
    split <;> rfl
  unfold view
  rw [hsent]
  rfl

omit [DecidableEq ι] in
/-- **A network that is set up** is in order. -/
theorem start_inv (hN : N.Wired)
    (hstart : ∀ i, (φ i).between ⟨memory i, [], fun _ => [], N.txLen i⟩) :
    N.Inv φ (N.start mem memory) :=
  ⟨fun a => Traced.Inv.init (queueLength_bounds (hN.length a).1
      (hN.length a).2).1 _ _, fun _ => rfl, (fun _ _ hm => nomatch hm),
    fun _ _ _ _ => List.nil_prefix, fun _ => List.nil_prefix,
    fun _ _ => .inl rfl,
    fun i => by
      rw [view_start]
      exact (φ i).always_of (hstart i),
    (fun _ h => nomatch h)⟩

omit [DecidableEq ι] in
theorem start_idle (hN : N.Wired)
    (hstart : ∀ i, (φ i).between ⟨memory i, [], fun _ => [], N.txLen i⟩)
    (x : NetParty ι) : N.Idle φ x (N.start mem memory) := by
  have hinv : N.Inv φ (N.start mem memory) := start_inv hN hstart
  cases x with
  | node i =>
    have hdelivery : DeliveryInv (N.pairs i)
        (.start (N.start mem memory).rings) := by
      refine ⟨fun p hp => ?_, fun _ _ _ => List.nil_prefix,
        (fun _ h => nomatch h), (fun _ h => nomatch h), (fun h => nomatch h)⟩
      obtain ⟨q, -, rfl⟩ := mem_pairs.mp hp
      exact hinv.rings q.1
    refine ⟨.start (N.start mem memory).rings, ⟨hinv, ?_, rfl,
      ⟨fun _ _ => .refl _, rfl, rfl⟩, hdelivery⟩, hdelivery, rfl,
      fun _ _ _ => rfl⟩
    rw [view_start]
    exact hstart i
  | producer a => exact ⟨hinv, fun _ => rfl⟩
  | consumer a => exact ⟨hinv, fun _ => rfl⟩

/-- **The network keeps to the proofs** of its handlers. -/
theorem reach_inv (hN : N.Wired) (φ : ∀ i, NodeProof (N.node i))
    (hφ : N.Fits φ)
    (hstart : ∀ i, (φ i).between ⟨memory i, [], fun _ => [], N.txLen i⟩)
    {x : N.machine.Conf}
    (hx : N.machine.ReachWhile (fun z => N.Within φ z.st)
      (Machine.start _ (N.start mem memory)) x) :
    N.Inv φ x.st
      ∧ (∀ i, x.pc (.node i) = none → (φ i).between (N.view i x.st))
      ∧ ∀ a, N.fed a → x.pc (.producer a) = none →
        (x.st.rings a).accepted = x.st.added a := by
  have hreach : (N.machine.within (N.Within φ)).Reach
    (Machine.start _ (N.start mem memory)) (x.within _) := hx.within
  have hinv : N.Inv φ x.st := (N.outline hN φ hφ).invariant
    (fun {y s s'} hg hs => Step.inv (show N.Step φ y s s' from hg) hs)
    (start_idle hN hstart) (start_inv hN hstart) hreach
  refine ⟨hinv, fun i hpc => ?_, fun a hfed hpc => ?_⟩
  · obtain ⟨t, hs, -⟩ := (N.outline hN φ hφ).idle_of_reach
      (start_idle hN hstart) hreach hpc
    exact hs.between
  · exact ((N.outline hN φ hφ).idle_of_reach (start_idle hN hstart) hreach
      hpc).2 hfed

end Start

/-! ## Runs -/

/-- How an action is performed in a run: nobody stops a manager, and it is
always the same time. -/
def exec (put : ℕ → MessageQueueHeader → DataMessage) (x : NetParty ι) :
    (a : NodeAct P) → NetState ι P → Option (a.Res × NetState ι P)
  | .mgr (.ring msgq a), s =>
    some (((s.rings msgq).exec (put msgq) a).1,
      s.setRing msgq ((s.rings msgq).exec (put msgq) a).2)
  | .mgr (.msghlr u0 message _ _ _), s =>
    match x with
    | .node i => some ((), s.handle i u0 (s.shown message))
    | _ => none
  | .mgr .loadStopped, s | .mgr .kthreadShouldStop, s => some (false, s)
  | .mgr .clock, s => some (0, s)
  | .mgr .msghlrReturn, s | .mgr .workhlr, s => some (true, s)
  | .mgr (.timerhlr _), s | .mgr (.usleep _), s | .mgr (.loadBuffer _ _), s
  | .mgr (.storeCbdata _ _), s => some ((), s)
  | .rand, s => some ((0 : ℕ), s)
  | .load, s =>
    match x with
    | .node i => some ((s.node i).memory, s)
    | _ => none
  | .store p, s =>
    match x with
    | .node i => some ((), s.setMemory i p)
    | _ => none

theorem exec_sem {put : ℕ → MessageQueueHeader → DataMessage}
    {x : NetParty ι} {a : NodeAct P} {r : a.Res}
    (h : exec put x a s = some (r, s')) : Sem put x a s r s' := by
  cases a with
  | mgr a =>
    cases a with
    | ring msgq a =>
      obtain ⟨rfl, rfl⟩ := Prod.mk.inj (Option.some.inj h)
      exact .ring msgq a
    | msghlr u0 message tx rxLen txLen =>
      cases x with
      | node i =>
        obtain ⟨rfl, rfl⟩ := Prod.mk.inj (Option.some.inj h)
        exact .msghlr rfl ..
      | producer a => exact nomatch h
      | consumer a => exact nomatch h
    | _ =>
      obtain ⟨rfl, rfl⟩ := Prod.mk.inj (Option.some.inj h)
      refine .unseen ?_ _
      trivial
  | rand =>
    obtain ⟨rfl, rfl⟩ := Prod.mk.inj (Option.some.inj h)
    exact .rand _
  | load =>
    cases x with
    | node i =>
      obtain ⟨rfl, rfl⟩ := Prod.mk.inj (Option.some.inj h)
      exact .load rfl
    | producer a => exact nomatch h
    | consumer a => exact nomatch h
  | store p =>
    cases x with
    | node i =>
      obtain ⟨rfl, rfl⟩ := Prod.mk.inj (Option.some.inj h)
      exact .store rfl p
    | producer a => exact nomatch h
    | consumer a => exact nomatch h

variable (N)

/-- Somebody begins to add a message to a ring that is free to add to. -/
def addTo {a : ℕ} (hfed : N.fed a) (data : List UInt8) :
    N.machine.Cmd :=
  .call (.producer a) (fun _ =>
    if h : (DataMessage.ofData data).size < 2 ^ 64 then
      some ⟨.add a (.ofData data), rfl, hfed, h⟩
    else none)

/-- What a node calls next. -/
def nextCall (i : ι) (s : NetState ι P) :
    Option { c : NetCall ι // N.machine.may (.node i) s c } :=
  match h : (s.node i).phase with
  | .ready => some ⟨.enter i (fun _ => 0), rfl, h ▸ trivial⟩
  | .running l => some ⟨.turn i l, rfl, h⟩
  | .returned _ => none

/-- It does so. -/
def nextTurn (i : ι) : List N.machine.Cmd :=
  [.call (.node i) (N.nextCall i), .finish (.node i)]

/-- **What a run leads to.** -/
def after (cmds : List N.machine.Cmd) (s : NetState ι P) :
    Option N.machine.Conf :=
  cmds.foldlM (N.machine.perform fun x c => exec (N.accepts c) x)
    (Machine.start _ s)

theorem reach_of_after {cmds : List N.machine.Cmd} {x : N.machine.Conf}
    (h : N.after cmds s = some x) :
    N.machine.Reach (Machine.start _ s) x :=
  Machine.Reach.schedule (fun _ _ _ _ _ _ => exec_sem) h

/-- **Steps of nodes**, one node after the other, if all the states pass a
check. -/
def steps (check : NetState ι P → Bool) (turns : List (ι × ℕ))
    (x : N.machine.Conf) : Option N.machine.Conf :=
  turns.foldlM (fun (x : N.machine.Conf) (p : ι × ℕ) =>
    N.machine.advances (fun z => check z.st)
      (fun c => exec (N.accepts c) (.node p.1)) (.node p.1) (N.nextCall p.1) p.2 x) x

theorem reachWhile_of_steps {check : NetState ι P → Bool}
    {turns : List (ι × ℕ)} {x y : N.machine.Conf} (hx : check x.st = true)
    (h : N.steps check turns x = some y) :
    N.machine.ReachWhile (fun z => check z.st = true) x y := by
  induction turns generalizing x with
  | nil =>
    obtain rfl := Option.some.inj h
    exact .refl hx
  | cons p turns ih =>
    obtain ⟨z, hz, hrest⟩ := Option.bind_eq_some_iff.mp h
    have hreach : N.machine.ReachWhile (fun z => check z.st = true) x z :=
      .advances (fun _ _ _ _ _ => exec_sem) hz
    exact hreach.trans (ih hreach.last hrest)

end Network

/-! ## The theorem -/

open Network

variable {ι P : Type} [DecidableEq ι]

/-- **What is proved about handlers holds in the network.** Whatever runs
meanwhile, while the memories are as it is assumed: what is accepted into the
ring of a free producer is what it has added, in order, each once, and the
message of a call that is about to return true; each manager hands the
messages that are accepted into its receive rings to its message handler, in
order, each once; each consumer gets those that are accepted into its ring;
what was proved about the handlers of a node holds of it all the time; and no
manager ends with an error. -/
theorem network_correct {N : Network ι P} (hN : N.Wired)
    (φ : ∀ i, NodeProof (N.node i)) (hφ : N.Fits φ)
    {mem : ℕ → MessageQueueHeader} {memory : ι → P}
    (hstart : ∀ i, (φ i).between ⟨memory i, [], fun _ => [], N.txLen i⟩)
    {x : N.machine.Conf}
    (hx : N.machine.ReachWhile (fun z => N.Within φ z.st)
      (Machine.start _ (N.start mem memory)) x) :
    (∀ i k q, (N.node i).pairs[k]? = some q →
        handledFrom (x.st.node i).handled k <+: (x.st.rings q.1).accepted)
      ∧ (∀ a, x.st.got a <+: (x.st.rings a).accepted)
      ∧ (∀ a, N.fed a →
        Accounts (x.st.rings a).accepted (x.st.added a)
          ∧ (x.pc (.producer a) = none →
            (x.st.rings a).accepted = x.st.added a))
      ∧ (∀ i, (φ i).always (N.view i x.st))
      ∧ (∀ i, x.pc (.node i) = none → (φ i).between (N.view i x.st))
      ∧ ∀ i, (x.st.node i).phase ≠ .returned false := by
  obtain ⟨hinv, hbetween, hadded⟩ := reach_inv hN φ hφ hstart hx
  exact ⟨hinv.handled, hinv.got,
    fun a hfed => ⟨hinv.added a hfed, hadded a hfed⟩, hinv.always, hbetween,
    hinv.noError⟩

/-- A manager whose handlers do nothing, with somebody who adds to its receive
ring. -/
def smallNetwork : Network Unit Unit where
  node _ := ⟨.user, 72, [(0, 1)], fun _ => return true, return false,
    fun _ => return ()⟩
  bufferLength _ := 104
  fed a := a = 0
  drained _ := False

theorem smallNetwork_wired : smallNetwork.Wired := by
  have hbuffer : 32 < (104 : UInt64).toNat
      ∧ (104 : UInt64).toNat < 2 ^ 63 := by decide
  exact .single rfl (by decide) (fun _ => hbuffer) (by decide)
    (fun _ h => h) (fun _ h => h.elim)

/-- Nothing is claimed of handlers that do nothing. -/
def smallProof : NodeProof (smallNetwork.node ()) where
  within _ := True
  expects _ _ _ := True
  always _ := True
  between _ := True
  always_of _ := trivial
  handle _ _ _ := trivial
  msghlr _ _ _ := Prog.Wp.alone_ret trivial
  workhlr _ := Prog.Wp.alone_ret trivial
  timerhlr _ _ := Prog.Wp.alone_ret trivial

/-- **A run in which two messages are handled.** The first one is delivered
while the second is being copied into the ring. -/
theorem network_correct_two : ∃ x : smallNetwork.machine.Conf,
    (handledFrom (x.st.node ()).handled 0).map DataMessage.bytes
        = [(DataMessage.ofData [5, 6, 7]).bytes, (DataMessage.ofData [8]).bytes]
      ∧ handledFrom (x.st.node ()).handled 0 <+: (x.st.rings 0).accepted
      ∧ Accounts (x.st.rings 0).accepted (x.st.added 0) := by
  obtain ⟨cmds, hcmds⟩ : ∃ cmds, cmds =
    [smallNetwork.addTo (a := 0) rfl [5, 6, 7], .finish (.producer 0),
      smallNetwork.addTo (a := 0) rfl [8], .acts (.producer 0) 20]
    ++ smallNetwork.nextTurn () ++ smallNetwork.nextTurn ()
    ++ [.finish (.producer 0)] ++ smallNetwork.nextTurn () := ⟨_, rfl⟩
  obtain ⟨start, hstart⟩ : ∃ start, start = smallNetwork.start
    (fun _ => .zeroed) (fun _ => ()) := ⟨_, rfl⟩
  have htwo : ((smallNetwork.after cmds start).map fun x =>
      (handledFrom (x.st.node ()).handled 0).map DataMessage.bytes)
      = some [(DataMessage.ofData [5, 6, 7]).bytes,
        (DataMessage.ofData [8]).bytes] := by
    subst hcmds hstart
    decide +kernel
  obtain ⟨x, hx, htwo⟩ := Option.map_eq_some_iff.mp htwo
  have hreach := smallNetwork.reach_of_after hx
  rw [hstart] at hreach
  obtain ⟨hhandled, -, hadded, -⟩ := network_correct smallNetwork_wired
    (fun _ => smallProof) (fun _ _ _ => trivial) (fun _ => trivial)
    (hreach.reachWhile fun _ _ => trivial)
  exact ⟨x, htwo, hhandled () 0 (0, 1) rfl, (hadded 0 rfl).1⟩
