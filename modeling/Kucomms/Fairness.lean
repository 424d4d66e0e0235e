import Kucomms.Delivery
import Kucomms.Sweep

/-!
# The manager is fair

`manager_fair`: one pass of the `for` loop delivers at most one message from
each ring, in the order of the pairs; and from one delivery from a ring to the
next from the same ring, any other ring that is not empty all the time has a
message delivered from it. It holds of runs of any length, in any
interleaving, with any handlers and a bounce buffer of any length: a message
that does not fit is the end of the run, after which nothing is delivered.

What has to be seen is that a visit finds what is there. If a ring is not
empty when the pass comes to it, `message_queue_get_begin_l` does not find it
empty, and `message_queue_get_l` after it ends with a message or with an
error.
-/

open Prog

/-! ## What delivers nothing -/

section Quiet

variable {build : Build} {m : MessageManagerStruct}

theorem checkTimer_leavesRx (counter last : UInt64) :
    (checkTimer build m counter last).All MgrAct.LeavesRx := by
  unfold checkTimer
  cases build with
  | kernel hz =>
    refine ⟨.inl rfl, fun now => ?_⟩
    exact Prog.All.ite ⟨.inl rfl, fun _ => trivial⟩ trivial
  | user =>
    refine Prog.All.ite ⟨.inl rfl, fun now => ?_⟩ trivial
    exact Prog.All.ite ⟨.inl rfl, fun _ => trivial⟩ trivial

theorem afterDelivery_leavesRx (u : ℕ) (l : TurnLocals) :
    (afterDelivery build m u l).All MgrAct.LeavesRx := by
  have hload : ∀ f, MgrAct.LeavesRx (.ring (m.rxMsgqArray u) (.loadField f)) :=
    fun f => .inr (.inr ⟨_, f, rfl⟩)
  have hrest : ∀ n, (checkTimer build m (l.counter + 1) l.lastTimerTime >>=
      fun last => pure { l with avail := l.avail + n, counter := l.counter + 1,
                                lastTimerTime := last } :
      MgrProg TurnLocals).All MgrAct.LeavesRx :=
    fun n => (checkTimer_leavesRx _ _).bind (fun _ => trivial)
  refine ⟨hload .rd, fun rd => ⟨hload .wr, fun wr => ?_⟩⟩
  exact Prog.All.ite ⟨.inl rfl, fun _ => hrest _⟩ (hrest _)

theorem idleEnd_leavesRx (l : TurnLocals) :
    (idleEnd build m l).All MgrAct.LeavesRx := by
  refine ⟨.inl rfl, fun ok => (checkTimer_leavesRx _ _).bind (fun last => ?_)⟩
  exact Prog.All.ite trivial ⟨.inl rfl, fun _ => trivial⟩

end Quiet

/-! ## The pass -/

section Pass

variable {ps : List RingPair} {msg : MessageQueueHeader → DataMessage}
  {i j u : ℕ} {pj : RingPair} {t : Watched} {build : Build}
  {m : MessageManagerStruct} {bufferLen : UInt64}

/-- A ring whose messages have all been consumed is empty. -/
theorem Traced.Inv.rd_eq_wr {L : ℕ} {s : Traced} (h : s.Inv L)
    (hle : s.accepted.length ≤ s.taken) : s.ring.mRd = s.ring.mWr := by
  have hpending : s.pending = [] := List.drop_eq_nil_of_le hle
  have hused := h.used_eq
  rw [hpending, Cyclic.dist_eq h.rd_lt h.wr_lt] at hused
  have hrd := h.rd_lt
  refine UInt64.toNat_inj.mp ?_
  have hzero : used [] = 0 := rfl
  rw [hzero] at hused
  split at hused
  · omega
  · omega

/-- Nothing is owed from a ring that is empty. -/
theorem Ready.not_owed_of_empty {p : RingPair}
    (ht : Ready ps i j pj.rx u t) (hp : ps[u]? = some p)
    (hj : i < ps.length → ps[j]? = some pj)
    (hle : (t.1.rings p.rx).accepted.length ≤ (t.1.rings p.rx).taken) :
    u = j → t.2.owed = false := by
  intro hu
  refine Bool.eq_false_iff.mpr (fun ho => ?_)
  obtain rfl : p = pj := by
    rw [hu] at hp
    exact Option.some.inj (hp.symm.trans (hj (ht.owed ho).2.1))
  exact bne_iff_ne.mp (ht.owed ho).1
    ((ht.rings p (List.mem_of_getElem? hp)).rd_eq_wr hle)

/-- **The body of the loop** takes the pass on to the next pair, unless it
sets the error. -/
theorem forBody_ready_wp {p : RingPair} {l : TurnLocals} (hps : DistinctRx ps)
    (hL : p.rxLen.toNat < 2 ^ 63) (hm : HasPairs m ps) (hij : i ≠ j)
    (hj : i < ps.length → ps[j]? = some pj) (hp : ps[u]? = some p)
    (ht : Ready ps i j pj.rx u t) :
    (forBody build m bufferLen callMsghlr u l).Wp (sweepSpec ps i j pj.rx msg)
      (fun l' t => l'.error = false → Ready ps i j pj.rx (u + 1) t) t := by
  obtain ⟨hrx, htx, hrxLen, htxLen⟩ := hm.pair u p hp
  have hpmem := List.mem_of_getElem? hp
  -- until something is delivered, no more is owed than at first
  let J : Watched → Prop := fun t' =>
    Ready ps i j pj.rx u t' ∧ (t'.2.owed = true → t.2.owed = true)
  have hJ : ∀ t t', J t → Keeps ps pj.rx t t' → J t' := fun _ _ h hk =>
    ⟨h.1.keep hk, fun ho => h.2 (hk.owed ho)⟩
  have hstable : (sweepSpec ps i j pj.rx msg).Stable J :=
    fun _ _ h ha => hJ _ _ h ha.keeps
  have hskip : ∀ t', J t' →
      (t.1.rings p.rx).accepted.length ≤ (t.1.rings p.rx).taken →
      Ready ps i j pj.rx (u + 1) t' := fun t' h hle =>
    h.1.skip (fun hu => Bool.eq_false_iff.mpr (fun ho =>
      Bool.false_ne_true ((ht.not_owed_of_empty hp hj hle hu).symm.trans
        (h.2 ho))))
  have hafter : ∀ (l' : TurnLocals) (t' : Watched),
      Ready ps i j pj.rx (u + 1) t' →
      (afterDelivery build m u l').Wp (sweepSpec ps i j pj.rx msg)
        (fun l' t => l'.error = false → Ready ps i j pj.rx (u + 1) t) t' :=
    fun l' t' h => (leavesRx_wp (afterDelivery_leavesRx u l') h).mono
      (fun _ _ h _ => h)
  unfold forBody
  simp only [hrx, htx, hrxLen, htxLen]
  have hbegin : Wp (readerSpec p.rxLen.toNat msg) _ (messageQueueGetBeginL _)
      (t.1.rings p.rx) := messageQueueGetBeginL_wp (ht.rings p hpmem) rfl
  refine Wp.bind ((ring_ready_wp hps hp hJ ⟨ht, id⟩ hbegin).mono ?_)
  rintro r t₁ ⟨hr, ht₁⟩
  match r, hr with
  | none, hr =>
    exact Wp.ret_of hstable ht₁ (fun t' h _ => hskip t' h (hr.empty rfl))
  | some none, hr =>
    have hget : Wp (readerSpec p.rxLen.toNat msg) _
        (messageQueueGetL _ l.buffer bufferLen) (t₁.1.rings p.rx) :=
      messageQueueGetL_wp hL hr.inv hr.taken
    refine Wp.bind ((ring_ready_wp hps hp hJ ht₁ hget).mono ?_)
    rintro g t₂ ⟨hg, ht₂⟩
    show Wp _ _ (if g.error = true then _
      else if g.ok = false then _ else _) _
    split
    · next herror =>
      refine Wp.ret_of (fun _ _ _ _ => trivial) (P := fun _ => True) trivial
        (fun _ _ he => ?_)
      exact absurd (he.symm.trans herror) Bool.false_ne_true
    split
    · next herror hok =>
      -- the call before this one has found a message
      obtain ⟨msg', hhead, -⟩ := hr.slot none rfl
      have hlt := (List.getElem?_eq_some_iff.mp hhead).1
      have hempty := hg.empty hok (Bool.eq_false_of_not_eq_true herror)
      omega
    · exact Wp.bind ((callMsghlr_ready_wp (.buffer g.buffer) hij hp
        (K := fun _ => True) (fun _ _ _ _ => trivial) ht₂.1 trivial).mono
        (fun _ t' h => hafter _ t' h.1))
  | some (some slot), hr =>
    obtain ⟨msg', hnext, hslot⟩ := hr.slot _ rfl
    have hleased := hr.leased hnext hslot
    refine Wp.bind ((callMsghlr_ready_wp (.ring p.rx slot) hij hp
      (K := Leased p.rxLen.toNat _ slot msg') (fun _ _ => Leased.stable)
      ht₁.1 hleased).mono ?_)
    rintro _ t₂ ⟨ht₂, hleased⟩
    refine Wp.bind ((ring_ready_wp hps hp (fun _ _ h hk => h.keep hk) ht₂
      (messageQueueGetCompleteL_wp hL hleased)).mono ?_)
    rintro _ t₃ ⟨-, ht₃⟩
    exact hafter l t₃ ht₃

/-- **A pass of the loop.** -/
theorem forLoop_ready_wp {l : TurnLocals} (hps : DistinctRx ps)
    (hL : ∀ p ∈ ps, p.rxLen.toNat < 2 ^ 63) (hm : HasPairs m ps) (hij : i ≠ j)
    (hj : i < ps.length → ps[j]? = some pj) {n : ℕ} (hn : u + n = ps.length)
    (ht : Ready ps i j pj.rx u t) :
    (forLoop build m bufferLen callMsghlr n u l).Wp
      (sweepSpec ps i j pj.rx msg)
      (fun l' t => l'.error = false → Ready ps i j pj.rx ps.length t) t := by
  induction n generalizing u l t with
  | zero =>
    obtain rfl : u = ps.length := hn
    exact Wp.ret_of (fun _ _ => Ready.stable) ht (fun _ h _ => h)
  | succ n ih =>
    have hp : ps[u]? = some ps[u] := List.getElem?_eq_getElem (by omega)
    refine Wp.bind ((forBody_ready_wp hps (hL _ (List.mem_of_getElem? hp)) hm
      hij hj hp ht).mono ?_)
    rintro l' t' ht'
    show Wp _ _ (if l'.error = true then _ else _) _
    split
    · next herror =>
      refine Wp.ret_of (fun _ _ _ _ => trivial) (P := fun _ => True) trivial
        (fun _ _ he => ?_)
      exact absurd (he.symm.trans herror) Bool.false_ne_true
    · next herror =>
      exact ih (by omega) (ht' (Bool.eq_false_of_not_eq_true herror))

theorem turnBody_ready_wp {l : RunLocals} (hps : DistinctRx ps)
    (hL : ∀ p ∈ ps, p.rxLen.toNat < 2 ^ 63) (hm : HasPairs m ps) (hij : i ≠ j)
    (hj : i < ps.length → ps[j]? = some pj) (ht : Ready ps i j pj.rx 0 t) :
    (turnBody build m bufferLen callMsghlr l).Wp
      (sweepSpec ps i j pj.rx msg)
      (fun v t => ∀ l', v = .again l' → Ready ps i j pj.rx ps.length t) t := by
  refine Wp.bind ((forLoop_ready_wp hps hL hm hij hj
    (by rw [hm.length, Nat.zero_add]) ht).mono ?_)
  rintro l' u hu
  split
  · exact Wp.ret_of (P := fun _ => True) (fun _ _ _ _ => trivial) trivial
      (fun _ _ l' hv => by cases hv)
  next herror =>
  have hu := hu (Bool.eq_false_of_not_eq_true herror)
  split
  · exact Wp.ret_of (fun _ _ => Ready.stable) hu (fun _ h _ _ => h)
  · exact (leavesRx_wp (idleEnd_leavesRx l') hu).mono (fun _ _ h _ _ => h)

/-- **A turn**, from a pass that begins to one that has come by all pairs. -/
theorem messageManagerTurn_ready_wp {l : RunLocals} (hps : DistinctRx ps)
    (hL : ∀ p ∈ ps, p.rxLen.toNat < 2 ^ 63) (hm : HasPairs m ps) (hij : i ≠ j)
    (hj : i < ps.length → ps[j]? = some pj) (ht : Ready ps i j pj.rx 0 t) :
    (messageManagerTurn build m bufferLen callMsghlr l).Wp
      (sweepSpec ps i j pj.rx msg)
      (fun v t => ∀ l', v = .again l' → Ready ps i j pj.rx ps.length t) t := by
  have hexit : ∀ t : Watched,
      (Prog.ret (.exit true) : MgrProg TurnEnd).Wp (sweepSpec ps i j pj.rx msg)
        (fun v t => ∀ l', v = .again l' → Ready ps i j pj.rx ps.length t) t :=
    fun t => Wp.ret_of (P := fun _ => True) (fun _ _ _ _ => trivial) trivial
      (fun _ _ l' hv => by cases hv)
  have hquiet : ∀ {a : MgrAct} {k : a.Res → MgrProg TurnEnd}
      {Q : TurnEnd → Watched → Prop} {t : Watched}, a.quiet = true →
      Ready ps i j pj.rx 0 t →
      (∀ r t, Ready ps i j pj.rx 0 t →
        (k r).Wp (sweepSpec ps i j pj.rx msg) Q t) →
      (Prog.act a k).Wp (sweepSpec ps i j pj.rx msg) Q t := by
    intro a k Q t ha ht h
    refine Wp.act_of (fun _ _ => Ready.stable) ht (fun t ht =>
      ⟨trivial, fun r t' hsem => ?_⟩)
    have hleaves : a.LeavesRx := .inl ha
    obtain ⟨hkeep, hsweep⟩ := hleaves.step hsem
    exact ⟨hsweep, h r t' (ht.keep hkeep)⟩
  rw [messageManagerTurn_eq]
  refine hquiet rfl ht (fun stopped t ht => ?_)
  split
  · exact hexit t
  cases build with
  | kernel hz =>
    refine hquiet rfl ht (fun stop u hu => ?_)
    split
    · exact hexit u
    · exact turnBody_ready_wp hps hL hm hij hj hu
  | user => exact turnBody_ready_wp hps hL hm hij hj ht

end Pass

/-! ## The outline -/

section Outline

variable {ps : List RingPair} {i j : ℕ} {pj : RingPair} {t t' : Watched}
  {build : Build} {m : MessageManagerStruct} {bufferLen : UInt64}

/-- **What is noted of the manager.** -/
def watcher (build : Build) (m : MessageManagerStruct) (bufferLen : UInt64)
    (ps : List RingPair) (i j rx : ℕ) :
    (deliveryMachine build m bufferLen ps).Observer Watch where
  onCall _ c s w := w.call c s
  onAct a s w := w.act i j rx a s

/-- **What a producer does** delivers nothing. -/
theorem Feeds.keeps {p : RingPair} {rx : ℕ} {a : MgrAct} {r : a.Res}
    {msg : MessageQueueHeader → DataMessage} (hps : DistinctRx ps)
    (hp : p ∈ ps) (h : Feeds p t.1 t'.1)
    (hsem : (sweepSpec ps i j rx msg).sem a t r t') : Keeps ps rx t t' := by
  obtain ⟨k, hk⟩ := List.mem_iff_getElem?.mp hp
  obtain ⟨hsem, hw⟩ := hsem
  obtain ⟨s', w'⟩ := t'
  obtain rfl : w' = t.2.act i j rx a s' := hw
  refine keeps_of_act (fun q hq => ((h.fed hps hk).writer q hq).inv)
    h.delivered (fun u0 ptr tx rxLen txLen ha => ?_)
  subst ha
  cases hsem with
  | quiet hq hrx => exact Bool.false_ne_true hq
  | msghlr hrx =>
    exact ne_concat _ _ h.delivered.symm

/-- The same of the state with the notes. -/
structure Feeding (ps : List RingPair) (rx : ℕ) (p : RingPair)
    (t t' : Watched) : Prop where
  feeds : Feeds p t.1 t'.1
  keeps : Keeps ps rx t t'

/-- **A producer's call**, with the notes. -/
theorem producer_keeps_wp {rx : ℕ} {k : Fin ps.length} {msg : DataMessage}
    (hps : DistinctRx ps)
    (hL : 0 < (ps.get k).rxLen.toNat ∧ (ps.get k).rxLen.toNat < 2 ^ 63)
    (hmsg : msg.size < 2 ^ 64)
    (ht : (Party.producer k).Idle ps t.1) (G : RGSpec MgrAct MgrAct.Res Watched)
    (hsem : G.sem = (sweepSpec ps i j rx (fun _ => msg)).sem)
    (hsafe : ∀ a t, G.safe a t)
    (hrely : ∀ t t', G.rely t t' → (Party.producer k).rely ps t.1 t'.1)
    (hguar : ∀ t t', Feeding ps rx (ps.get k) t t' → G.guar t t') :
    (QProg.at (messageQueueAddL (ps.get k).rxLen msg.mem) (ps.get k).rx).Wp G
      (fun _ t => (Party.producer k).Idle ps t.1) t := by
  have halone := @producer_wp ps _ _ _ hL hmsg ht (Party.rely_refl (.producer k))
    (fun h h' => Party.rely_trans (.producer k) h h')
  refine (Wp.view G Prod.fst (fun _ => True) (fun a t _ _ => hsafe a t)
    (fun a t r t' _ _ h => ?_) (fun t t' _ h => ⟨hrely t t' h, trivial⟩) trivial
    halone).mono (fun _ _ h => h.1)
  rw [hsem] at h
  exact ⟨h.1, fun hfeeds => ⟨hguar t t' ⟨hfeeds,
    hfeeds.keeps hps (List.get_mem ps k) h⟩, trivial⟩⟩

/-- Only the phase of the manager changes. -/
theorem keeps_setManager (ph : ManagerPhase) (rx : ℕ) :
    Keeps ps rx t ({ t.1 with manager := ph }, t.2) :=
  ⟨fun _ _ => id, rfl, rfl, id, id⟩

/-- What the others may do to a party. -/
def Party.around (ps : List RingPair) (rx : ℕ) :
    Party ps.length → Watched → Watched → Prop
  | .manager => Around ps rx
  | .producer k => fun t t' => (Party.producer k).rely ps t.1 t'.1

/-- What a step of a party amounts to. -/
def Party.does (ps : List RingPair) (i rx : ℕ) :
    Party ps.length → Watched → Watched → Prop
  | .manager => Sweeps ps i
  | .producer k => Feeding ps rx (ps.get k)

/-- What holds while a party is idle. -/
def Party.Rests (ps : List RingPair) (i j rx : ℕ) :
    Party ps.length → Watched → Prop
  | .manager => fun t =>
    (∃ ok, t.1.manager = .returned ok) ∨ Ready ps i j rx ps.length t
  | .producer k => fun t => (Party.producer k).Idle ps t.1

/-- **When a call is about to return.** -/
def Party.Ends (ps : List RingPair) (i j rx : ℕ) :
    Party ps.length → (c : DeliveryCall) → c.Ret → Watched → Prop
  | .manager, .enter _, _ => Ready ps i j rx ps.length
  | .manager, .turn _, v => fun t =>
    ∀ l, v = .again l → Ready ps i j rx ps.length t
  | .producer k, .add _ _, _ => Party.Rests ps i j rx (.producer k)
  | _, _, _ => fun _ => False

/-- **The proof of fairness.** -/
def fairOutline (hps : DistinctRx ps)
    (hL : ∀ p ∈ ps, 0 < p.rxLen.toNat ∧ p.rxLen.toNat < 2 ^ 63)
    (hm : HasPairs m ps) (hij : i ≠ j) (hj : i < ps.length → ps[j]? = some pj) :
    ((deliveryMachine build m bufferLen ps).observed
      (watcher build m bufferLen ps i j pj.rx)).Outline where
  rely := Party.around ps pj.rx
  guar := Party.does ps i pj.rx
  safe _ _ _ _ := True
  idle := Party.Rests ps i j pj.rx
  post := Party.Ends ps i j pj.rx
  rely_refl q t := by
    cases q with
    | manager => exact ⟨Fed.refl ps t.1, Keeps.refl ps pj.rx t⟩
    | producer k => exact Party.rely_refl (.producer k) t.1
  rely_trans q _ _ _ h h' := by
    cases q with
    | manager => exact ⟨h.fed.trans h'.fed, h.keeps.trans h'.keeps⟩
    | producer k => exact Party.rely_trans (.producer k) h h'
  guar_rely {q q' t t'} hne h := by
    cases q with
    | manager =>
      cases q' with
      | manager => exact absurd rfl hne
      | producer k => exact h.reader _ (List.get_mem ps k)
    | producer k =>
      cases q' with
      | manager =>
        exact ⟨h.feeds.fed hps (List.getElem?_eq_getElem k.2), h.keeps⟩
      | producer k' =>
        exact Party.guar_rely hps (i := .producer k) (j := .producer k') hne
          h.feeds
  idle_stable {q t t'} h hr := by
    cases q with
    | manager =>
      obtain ⟨ok, hok⟩ | h := h
      · exact .inl ⟨ok, hr.fed.manager.trans hok⟩
      · exact .inr (h.stable hr)
    | producer k => exact ReaderStep.inv hr h
  call_ok {q t c} h hmay := by
    cases q with
    | manager =>
      have hready : (∀ ok, t.1.manager ≠ .returned ok) →
          Ready ps i j pj.rx ps.length t := fun hne =>
        h.resolve_left (fun ⟨ok, hok⟩ => hne ok hok)
      cases c with
      | add p msg => exact hmay.elim
      | enter buffer =>
        have hready := hready (fun ok hok => by cases hmay.symm.trans hok)
        refine ⟨(Keeps.refl ps pj.rx t).sweeps (fun _ _ => ReaderStep.refl _),
          ?_⟩
        have hclock : MgrAct.LeavesRx .clock := .inl rfl
        exact leavesRx_wp (q := messageManagerEnter buffer)
          ⟨hclock, fun _ => trivial⟩ hready
      | turn l =>
        have hready := (hready (fun ok hok => by
          cases hmay.symm.trans hok)).restart
            (fun hi => (List.getElem?_eq_some_iff.mp (hj hi)).1)
        exact ⟨⟨fun _ _ => ReaderStep.refl _, fun _ => hready.ascending,
          fun d hd => absurd hd (ne_concat _ d)⟩,
          messageManagerTurn_ready_wp hps (fun p hp => (hL p hp).2) hm hij hj
            hready⟩
    | producer k =>
      cases c with
      | add p msg =>
        obtain ⟨rfl, hmsg⟩ : p = ps.get k ∧ msg.size < 2 ^ 64 := hmay
        refine ⟨⟨⟨WriterStep.refl _, fun _ _ => rfl, rfl, rfl, rfl⟩,
          Keeps.refl ps pj.rx t⟩, producer_keeps_wp hps
            (hL _ (List.get_mem ps k)) hmsg h _ rfl (fun _ _ => trivial)
            (fun _ _ => id) (fun _ _ => id)⟩
      | enter buffer => exact hmay.elim
      | turn l => exact hmay.elim
  ret_ok {q t c v} h := by
    cases q with
    | manager =>
      have hsweeps : ∀ ph, Sweeps ps i t ({ t.1 with manager := ph }, t.2) :=
        fun ph => (keeps_setManager ph pj.rx).sweeps
          (fun _ _ => ReaderStep.refl _)
      cases c with
      | add p msg => exact h.elim
      | enter buffer => exact ⟨hsweeps _, .inr (h.keep (keeps_setManager _ _))⟩
      | turn l =>
        cases v with
        | again l' =>
          exact ⟨hsweeps _, .inr ((h l' rfl).keep (keeps_setManager _ _))⟩
        | exit ok => exact ⟨hsweeps _, .inl ⟨ok, rfl⟩⟩
    | producer k =>
      cases c with
      | add p msg =>
        exact ⟨⟨⟨WriterStep.refl _, fun _ _ => rfl, rfl, rfl, rfl⟩,
          Keeps.refl ps pj.rx t⟩, h⟩
      | enter buffer => exact h.elim
      | turn l => exact h.elim

end Outline

/-! ## The theorem -/

section Notes

variable {ps : List RingPair} {i j rx : ℕ} {build : Build}
  {m : MessageManagerStruct} {bufferLen : UInt64} {q : Party ps.length}
  {x y : (deliveryMachine build m bufferLen ps).Conf} {g g' : Watch}

/-- A return delivers nothing. -/
theorem onRet_delivered (s : DeliveryState) (c : DeliveryCall) (v : c.Ret) :
    (c.onRet s v).delivered = s.delivered := by
  cases c with
  | add p msg => rfl
  | enter buffer => rfl
  | turn l =>
    cases v with
    | again l' => rfl
    | exit ok => rfl

/-- **What is noted of a step**: something is owed as long as the ring is not
empty and there is no delivery from it. -/
theorem watcher_notes (h : Machine.Notes
      (watcher build m bufferLen ps i j rx) q x y g g') :
    y.st.delivered = x.st.delivered
        ∧ (y.st.nonEmpty rx = true → g.owed = true → g'.owed = true)
      ∨ ∃ d, y.st.delivered = x.st.delivered ++ [d]
        ∧ (y.st.nonEmpty rx = true → d.pair = i ∨ g.owed = true ∧ d.pair ≠ j →
          g'.owed = true) := by
  cases h with
  | call c hpc hmay =>
    refine .inl ⟨rfl, fun _ ho => ?_⟩
    cases c with
    | _ => exact ho
  | ret v => exact .inl ⟨onRet_delivered _ _ v, fun _ ho => ho⟩
  | @act s s' _ _ _ c a r hsem =>
    have hother : s'.delivered = s.delivered →
        (g.act i j rx a s').owed = (s'.nonEmpty rx && g.owed) →
        s'.delivered = s.delivered ∧ (s'.nonEmpty rx = true → g.owed = true →
          (g.act i j rx a s').owed = true) := fun hd hw =>
      ⟨hd, fun hn ho => hw.trans (by rw [hn, ho]; rfl)⟩
    cases hsem with
    | ring msgq b => exact .inl (hother rfl rfl)
    | msghlrReturn hrx => exact .inl (hother rfl rfl)
    | quiet ha hrx =>
      refine .inl (hother rfl ?_)
      cases a with
      | msghlr u0 ptr tx rxLen txLen => exact absurd ha Bool.false_ne_true
      | _ => rfl
    | @msghlr _ u0 ptr tx rxLen txLen rings hrx =>
      refine .inr ⟨_, rfl, fun hn hor => ?_⟩
      show (_ && (u0 == i || (g.owed && u0 != j))) = true
      rw [hn, Bool.true_and, Bool.or_eq_true, Bool.and_eq_true]
      exact hor.imp beq_iff_eq.mpr (fun ⟨ho, hne⟩ => ⟨ho, bne_iff_ne.mpr hne⟩)

/-- The deliveries before a turn are counted when it begins, and not again
before it ends. -/
theorem watcher_first (h : Machine.Notes
      (watcher build m bufferLen ps i j rx) q x y g g')
    (hpc : x.pc .manager ≠ none) : g'.first = g.first := by
  cases h with
  | call c hq hmay =>
    cases q with
    | manager => exact absurd hq hpc
    | producer k =>
      cases c with
      | add p msg => rfl
      | enter buffer => exact hmay.elim
      | turn l => exact hmay.elim
  | ret v => rfl
  | act hsem => rfl

/-- A turn begins with nothing delivered in it. -/
theorem watcher_turn
    (hs : (deliveryMachine build m bufferLen ps).Step .manager x y)
    (hidle : x.pc .manager = none) {l : RunLocals}
    (hrun : x.st.manager = .running l) (g : Watch) :
    ∃ g', ((deliveryMachine build m bufferLen ps).observed
        (watcher build m bufferLen ps i j rx)).Step .manager
        (x.noting _ g) (y.noting _ g')
      ∧ y.st.delivered = x.st.delivered
      ∧ g'.first = x.st.delivered.length := by
  cases hs with
  | act hpc hsem => cases hpc.symm.trans hidle
  | ret hpc => cases hpc.symm.trans hidle
  | @call s pc c hpc hmay =>
    have hstep := Machine.Step.call (M := (deliveryMachine build m bufferLen
      ps).observed (watcher build m bufferLen ps i j rx)) (s := (s, g)) c hpc
      hmay
    cases c with
    | add p msg => exact hmay.elim
    | enter buffer =>
      have hready : s.manager = .ready := hmay
      cases hready.symm.trans hrun
    | turn l' => exact ⟨_, hstep, rfl, rfl⟩

end Notes

section Theorem

variable {ps : List RingPair} {rings : ℕ → Traced} {build : Build}
  {m : MessageManagerStruct} {bufferLen : UInt64}

/-- At the start nothing is noted. -/
theorem Ready.start {i j rx : ℕ}
    (hwf : ∀ p ∈ ps, (rings p.rx).Inv p.rxLen.toNat) :
    Ready ps i j rx ps.length (.start rings, ⟨0, false⟩) :=
  ⟨hwf, le_rfl, .nil, fun _ hd => absurd hd List.not_mem_nil,
    fun ho => absurd ho Bool.false_ne_true⟩

theorem rests_start {i j rx : ℕ}
    (hwf : ∀ p ∈ ps, (rings p.rx).Inv p.rxLen.toNat) (q : Party ps.length) :
    q.Rests ps i j rx (.start rings, ⟨0, false⟩) := by
  cases q with
  | manager => exact .inr (.start hwf)
  | producer k => exact hwf _ (List.get_mem ps k)

/-- **The deliveries of a pass** are in the order of the pairs. -/
theorem pass_ascending (hps : DistinctRx ps)
    (hL : ∀ p ∈ ps, 0 < p.rxLen.toNat ∧ p.rxLen.toNat < 2 ^ 63)
    (hm : HasPairs m ps) (hwf : ∀ p ∈ ps, (rings p.rx).Inv p.rxLen.toNat)
    {x y z : (deliveryMachine build m bufferLen ps).Conf}
    (hx : (deliveryMachine build m bufferLen ps).Reach
      (Machine.start _ (.start rings)) x)
    (hxy : (deliveryMachine build m bufferLen ps).Step .manager x y)
    (hidle : x.pc .manager = none) {l : RunLocals}
    (hrun : x.st.manager = .running l)
    (hyz : (deliveryMachine build m bufferLen ps).ReachWhile
      (fun c => c.pc .manager ≠ none) y z) :
    ∃ ds, z.st.delivered = x.st.delivered ++ ds
      ∧ (ds.map Delivery.pair).Pairwise (· < ·) := by
  -- of two pairs that there are not, nothing is noted
  let p : RingPair := ⟨0, 0, 0, 0⟩
  let o := watcher build m bufferLen ps ps.length (ps.length + 1) p.rx
  let O : ((deliveryMachine build m bufferLen ps).observed o).Outline :=
    fairOutline hps hL hm (Nat.succ_ne_self _).symm
      (fun hlt => absurd hlt (Nat.lt_irrefl _))
  obtain ⟨g, hg⟩ := hx.observed o ⟨0, false⟩
  obtain ⟨g₁, hobs, hd, hfirst⟩ := watcher_turn hxy hidle hrun g
  have hstep : ∀ {q c c' g g'},
      (deliveryMachine build m bufferLen ps).Step q c c' →
      c.pc .manager ≠ none → c'.pc .manager ≠ none →
      Machine.Notes o q c c' g g' →
      x.st.delivered <+: c.st.delivered ∧ g.first = x.st.delivered.length →
      x.st.delivered <+: c'.st.delivered
        ∧ g'.first = x.st.delivered.length := by
    intro q c c' g g' _ hpc _ hn ⟨hpre, hg⟩
    refine ⟨?_, (watcher_first hn hpc).trans hg⟩
    obtain ⟨hd, -⟩ | ⟨d, hd, -⟩ := watcher_notes hn
    · rw [hd]
      exact hpre
    · rw [hd]
      exact hpre.trans (List.prefix_append _ _)
  obtain ⟨g₂, hz, ⟨ds, hds⟩, hg₂⟩ := hyz.observed o (.step .manager hg hobs)
    ⟨hd ▸ List.prefix_rfl, hfirst⟩ hstep
  have hasc : Ascending (z.st, g₂) := by
    have hstart : Ascending (.start rings, ⟨0, false⟩) := .nil
    refine O.invariant (I := Ascending) (fun {q s s'} hs ha => ?_)
      (rests_start hwf) hstart hz
    cases q with
    | manager => exact hs.ascending ha
    | producer k => exact hs.keeps.ascending ha
  refine ⟨ds, hds.symm, ?_⟩
  unfold Ascending at hasc
  rw [show (z.st, g₂).2.first = _ from hg₂,
    show (z.st, g₂).1.delivered = _ from hds.symm, List.drop_left] at hasc
  exact hasc

/-- **Between two deliveries from a ring** there is one from any other that
is not empty all the time. -/
theorem served_between (hps : DistinctRx ps)
    (hL : ∀ p ∈ ps, 0 < p.rxLen.toNat ∧ p.rxLen.toNat < 2 ^ 63)
    (hm : HasPairs m ps) (hwf : ∀ p ∈ ps, (rings p.rx).Inv p.rxLen.toNat)
    {x y z w : (deliveryMachine build m bufferLen ps).Conf}
    (hx : (deliveryMachine build m bufferLen ps).Reach
      (Machine.start _ (.start rings)) x)
    {q q' : Party ps.length} {d d' : Delivery} {j : ℕ} {p : RingPair}
    (hxy : (deliveryMachine build m bufferLen ps).Step q x y)
    (hd : y.st.delivered = x.st.delivered ++ [d])
    (hp : ps[j]? = some p) (hj : d.pair ≠ j)
    (hyz : (deliveryMachine build m bufferLen ps).ReachWhile
      (fun c => c.st.nonEmpty p.rx = true) y z)
    (hzw : (deliveryMachine build m bufferLen ps).Step q' z w)
    (hd' : w.st.delivered = z.st.delivered ++ [d'])
    (hpair : d'.pair = d.pair) :
    ∃ ds, z.st.delivered = y.st.delivered ++ ds ∧ ∃ e ∈ ds, e.pair = j := by
  let o := watcher build m bufferLen ps d.pair j p.rx
  let O : ((deliveryMachine build m bufferLen ps).observed o).Outline :=
    fairOutline hps hL hm hj (fun _ => hp)
  obtain ⟨g, hg⟩ := hx.observed o ⟨0, false⟩
  obtain ⟨g₁, hobs, hnotes⟩ := hxy.observed o g
  -- the first delivery leaves one owed
  have howed : g₁.owed = true := by
    obtain ⟨hsame, -⟩ | ⟨e, he, howed⟩ := watcher_notes hnotes
    · exact absurd (hsame.symm.trans hd) (ne_concat _ d)
    · obtain rfl := List.singleton_inj.mp
        (List.append_cancel_left (he.symm.trans hd))
      exact howed hyz.first (.inl rfl)
  have hstep : ∀ {q c c' g g'},
      (deliveryMachine build m bufferLen ps).Step q c c' →
      c.st.nonEmpty p.rx = true → c'.st.nonEmpty p.rx = true →
      Machine.Notes o q c c' g g' →
      (∃ ds, c.st.delivered = y.st.delivered ++ ds
        ∧ (g.owed = true ∨ ∃ e ∈ ds, e.pair = j)) →
      ∃ ds, c'.st.delivered = y.st.delivered ++ ds
        ∧ (g'.owed = true ∨ ∃ e ∈ ds, e.pair = j) := by
    rintro q c c' g g' _ _ hn hnotes ⟨ds, hds, hor⟩
    obtain ⟨hsame, howed⟩ | ⟨e, he, howed⟩ := watcher_notes hnotes
    · exact ⟨ds, hsame.trans hds, hor.imp_left (howed hn)⟩
    · refine ⟨ds ++ [e], by rw [he, hds, List.append_assoc], ?_⟩
      by_cases hej : e.pair = j
      · exact .inr ⟨e, by simp, hej⟩
      · exact hor.imp (fun ho => howed hn (.inr ⟨ho, hej⟩))
          (fun ⟨e', he', hj'⟩ => ⟨e', List.mem_append_left _ he', hj'⟩)
  obtain ⟨g₂, hz, ds, hds, hor⟩ := hyz.observed o (.step q hg hobs)
    ⟨[], (List.append_nil _).symm, .inl howed⟩ hstep
  refine ⟨ds, hds, hor.resolve_left (fun ho => ?_)⟩
  obtain ⟨g₃, hobs', -⟩ := hzw.observed o g₂
  have hguar := O.guar_of_reach (rests_start hwf) hz hobs'
  cases q' with
  | manager =>
    have hno := hguar.turn d' hd' hpair
    exact Bool.false_ne_true (hno.symm.trans ho)
  | producer k => exact ne_concat _ d' (hguar.keeps.delivered.symm.trans hd')

end Theorem

/-- **The manager is fair.** For pairs of rings in different places with
contents in order, in buffers of less than `2 ^ 63` bytes as any memory is, in
any interleaving and with any handlers: a turn that begins at `x` delivers
messages from one pair after the other, at most one from each; and when a
message of a pair has been delivered at `y` and another one of the same pair is
delivered from `z` on, there is a delivery in between from any other pair whose
receive ring is not empty all the time from `y` to `z`. -/
theorem manager_fair {build : Build}
    {msghlr workhlr timerhlr userData : ℕ} {bufferLen : UInt64}
    {ps : List RingPair} {rings : ℕ → Traced}
    (h64 : ps.length ≤ msgmgrMsgqarraySize) (hps : DistinctRx ps)
    (h32 : ∀ p ∈ ps, 32 < p.rxBufferLength.toNat)
    (h63 : ∀ p ∈ ps, p.rxBufferLength.toNat < 2 ^ 63)
    (hwf : ∀ p ∈ ps, (rings p.rx).Inv p.rxLen.toNat)
    {x y : (deliveryMachine build
      (addPairs (messageManagerInit msghlr workhlr timerhlr userData) ps)
      bufferLen ps).Conf}
    (hx : (deliveryMachine build
      (addPairs (messageManagerInit msghlr workhlr timerhlr userData) ps)
      bufferLen ps).Reach (Machine.start _ (.start rings)) x)
    {q : Party ps.length} (hxy : Machine.Step _ q x y) :
    (∀ l z, q = .manager → x.pc .manager = none → x.st.manager = .running l →
      Machine.ReachWhile _ (fun c => c.pc .manager ≠ none) y z →
      ∃ ds, z.st.delivered = x.st.delivered ++ ds
        ∧ (ds.map Delivery.pair).Pairwise (· < ·))
    ∧ ∀ d j p z q' w d', y.st.delivered = x.st.delivered ++ [d] →
      ps[j]? = some p → d.pair ≠ j →
      Machine.ReachWhile _ (fun c => c.st.nonEmpty p.rx = true) y z →
      Machine.Step _ q' z w → w.st.delivered = z.st.delivered ++ [d'] →
      d'.pair = d.pair →
      ∃ ds, z.st.delivered = y.st.delivered ++ ds ∧ ∃ e ∈ ds, e.pair = j := by
  have hL : ∀ p ∈ ps, 0 < p.rxLen.toNat ∧ p.rxLen.toNat < 2 ^ 63 :=
    fun p hp => queueLength_bounds (h32 p hp) (h63 p hp)
  have hm : HasPairs (addPairs (messageManagerInit msghlr workhlr timerhlr
    userData) ps) ps := addPairs_hasPairs _ _ _ _ h64
  refine ⟨fun l z hq hidle hrun hyz => ?_,
    fun d j p z q' w d' hd hp hj hyz hzw hd' hpair => ?_⟩
  · subst hq
    exact pass_ascending hps hL hm hwf hx hxy hidle hrun hyz
  · exact served_between hps hL hm hwf hx hxy hd hp hj hyz hzw hd' hpair

/-! ## A run -/

/-- Another pair of rings with 72 bytes each. -/
def otherPair : RingPair := ⟨2, 3, 104, 104⟩

/-- The manager of the two pairs, with their producers. -/
abbrev twoDelivery :
    Machine (Party [smallPair, otherPair].length) MgrAct MgrAct.Res
      DeliveryState :=
  deliveryMachine .user
    (addPairs (messageManagerInit 1 2 3 4) [smallPair, otherPair]) 72
    [smallPair, otherPair]

/-- What the manager calls next. -/
def managerCall (s : DeliveryState) :
    Option { c : DeliveryCall // c.may [smallPair, otherPair] s .manager } :=
  match h : s.manager with
  | .ready => some ⟨.enter (fun _ => 0), h⟩
  | .running l => some ⟨.turn l, h⟩
  | .returned _ => none

theorem empty_size_lt : DataMessage.empty.size < 2 ^ 64 := by decide +kernel

/-- Both producers add two messages without data, and the manager starts. -/
def addTwiceAndEnter : List twoDelivery.Cmd :=
  [.call (.producer ⟨0, Nat.zero_lt_two⟩) (fun _ =>
      some ⟨.add smallPair .empty, rfl, empty_size_lt⟩),
    .finish (.producer ⟨0, Nat.zero_lt_two⟩),
    .call (.producer ⟨0, Nat.zero_lt_two⟩) (fun _ =>
      some ⟨.add smallPair .empty, rfl, empty_size_lt⟩),
    .finish (.producer ⟨0, Nat.zero_lt_two⟩),
    .call (.producer ⟨1, Nat.one_lt_two⟩) (fun _ =>
      some ⟨.add otherPair .empty, rfl, empty_size_lt⟩),
    .finish (.producer ⟨1, Nat.one_lt_two⟩),
    .call (.producer ⟨1, Nat.one_lt_two⟩) (fun _ =>
      some ⟨.add otherPair .empty, rfl, empty_size_lt⟩),
    .finish (.producer ⟨1, Nat.one_lt_two⟩),
    .call .manager managerCall, .finish .manager]

/-- A run before and after a step of the manager, and before and after another
one, the ring at `rx` not being empty in between. -/
def twoSteps (cmds : List twoDelivery.Cmd) (n k rx : ℕ)
    (start : twoDelivery.Conf) :
    Option ((twoDelivery.Conf × twoDelivery.Conf)
      × (twoDelivery.Conf × twoDelivery.Conf)) := do
  let x₀ ← cmds.foldlM (twoDelivery.perform fun _ => deliveryExec) start
  let x ← twoDelivery.advances (fun _ => true) deliveryExec .manager
    managerCall n x₀
  let y ← twoDelivery.advance deliveryExec .manager managerCall x
  let z ← twoDelivery.advances (fun c => c.st.nonEmpty rx) deliveryExec
    .manager managerCall k y
  let w ← twoDelivery.advance deliveryExec .manager managerCall z
  return ((x, y), z, w)

theorem twoSteps_reach {cmds : List twoDelivery.Cmd} {n k rx : ℕ}
    {start x y z w : twoDelivery.Conf}
    (h : twoSteps cmds n k rx start = some ((x, y), z, w)) :
    twoDelivery.Reach start x ∧ twoDelivery.Step .manager x y
      ∧ twoDelivery.ReachWhile (fun c => c.st.nonEmpty rx = true) y z
      ∧ twoDelivery.Step .manager z w := by
  unfold twoSteps at h
  obtain ⟨x₀, hx₀, h⟩ := Option.bind_eq_some_iff.mp h
  obtain ⟨x', hx, h⟩ := Option.bind_eq_some_iff.mp h
  obtain ⟨y', hy, h⟩ := Option.bind_eq_some_iff.mp h
  obtain ⟨z', hz, h⟩ := Option.bind_eq_some_iff.mp h
  obtain ⟨w', hw, h⟩ := Option.bind_eq_some_iff.mp h
  obtain ⟨hxy, hzw⟩ := Prod.mk.inj (Option.some.inj h)
  obtain ⟨rfl, rfl⟩ := Prod.mk.inj hxy
  obtain ⟨rfl, rfl⟩ := Prod.mk.inj hzw
  exact ⟨.trans (Machine.Reach.schedule (fun _ => deliveryExec_sem) hx₀)
      (Machine.ReachWhile.advances deliveryExec_sem hx).reach,
    .advance deliveryExec_sem hy, .advances deliveryExec_sem hz,
    .advance deliveryExec_sem hw⟩

/-- The pairs of the deliveries so far. -/
def servedPairs (x : twoDelivery.Conf) : List ℕ :=
  x.st.delivered.map Delivery.pair

/-- A step after which one more pair has been served. -/
theorem delivery_of_step {x y : twoDelivery.Conf} {is : List ℕ} {i : ℕ}
    (hs : twoDelivery.Step .manager x y) (hx : servedPairs x = is)
    (hy : servedPairs y = is ++ [i]) :
    ∃ d, y.st.delivered = x.st.delivered ++ [d] ∧ d.pair = i := by
  obtain ⟨g, -, hnotes⟩ := hs.observed (watcher _ _ _ _ 0 1 0) ⟨0, false⟩
  unfold servedPairs at hx hy
  obtain ⟨hsame, -⟩ | ⟨d, hd, -⟩ := watcher_notes hnotes
  · rw [hsame, hx] at hy
    exact absurd (List.self_eq_append_right.mp hy) (List.cons_ne_nil i [])
  · rw [hd, List.map_append, hx] at hy
    exact ⟨d, hd, List.singleton_inj.mp (List.append_cancel_left hy)⟩

/-- **A run with three deliveries**, two of them from the first pair. -/
theorem manager_fair_three :
    ∃ x y z w : twoDelivery.Conf, servedPairs x = [] ∧ servedPairs y = [0]
      ∧ servedPairs z = [0, 1] ∧ servedPairs w = [0, 1, 0]
      ∧ ∃ ds, z.st.delivered = y.st.delivered ++ ds ∧ ∃ e ∈ ds, e.pair = 1 := by
  obtain ⟨start, hstart⟩ : ∃ start, start = twoDelivery.start
    (.start (fun _ => Traced.init 104 .zeroed)) := ⟨_, rfl⟩
  have hall : ((twoSteps addTwiceAndEnter 36 84 2 start).any fun r =>
      decide (servedPairs r.1.1 = [] ∧ servedPairs r.1.2 = [0]
        ∧ servedPairs r.2.1 = [0, 1] ∧ servedPairs r.2.2 = [0, 1, 0]))
      = true := by
    subst hstart
    decide +kernel
  obtain ⟨⟨⟨x, y⟩, z, w⟩, hrun, hpairs⟩ :=
    (Option.any_eq_true _ _).mp hall
  obtain ⟨hx, hy, hz, hw⟩ := of_decide_eq_true hpairs
  obtain ⟨hreach, hxy, hyz, hzw⟩ := twoSteps_reach hrun
  rw [hstart] at hreach
  obtain ⟨d, hd, hd0⟩ := delivery_of_step hxy hx hy
  obtain ⟨d', hd', hd0'⟩ := delivery_of_step hzw hz hw
  have hpair : ∀ p ∈ [smallPair, otherPair], p.rxBufferLength = 104 := by
    intro p hp
    obtain rfl | hp := List.mem_cons.mp hp
    · rfl
    · obtain rfl := List.mem_singleton.mp hp
      rfl
  have hwf : ∀ p ∈ [smallPair, otherPair],
      (Traced.init 104 .zeroed).Inv p.rxLen.toNat := by
    intro p hp
    rw [RingPair.rxLen, hpair p hp]
    exact Traced.Inv.init (by decide) _ _
  have hdistinct : DistinctRx [smallPair, otherPair] := by
    unfold DistinctRx
    decide
  refine ⟨x, y, z, w, hx, hy, hz, hw, (manager_fair (by decide) hdistinct
    (fun p hp => by rw [hpair p hp]; decide)
    (fun p hp => by rw [hpair p hp]; decide) hwf hreach hxy).2 d 1 otherPair z
    .manager w d' hd rfl (by rw [hd0]; decide) hyz hzw hd'
    (hd0'.trans hd0.symm)⟩
