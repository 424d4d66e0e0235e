import Kucomms.NetworkInvariant

/-!
# Programs in a network

What is proved about an operation on a ring alone with the party at its other
end holds of it in a network, between the steps of all the others
(`Network.read_wp`, `Network.write_wp`); what its caller knows beside is an
assertion that the ring does not matter for. The addition of a message is the
case in which it does (`Network.add_wp`): the message is one of those that
were sent, from the moment on that `m_wr` is stored.
-/

open Prog

namespace Network

variable {ι P α : Type} [DecidableEq ι] {N : Network ι P}

section Rules

variable (put : ℕ → MessageQueueHeader → DataMessage)
  (φ : ∀ i, NodeProof (N.node i)) (x : NetParty ι)

/-- **The specification of a party** in a call that puts the messages `put`
into the rings. -/
abbrev callSpec : RGSpec (NodeAct P) NodeAct.Res (NetState ι P) :=
  ⟨fun a s r s' => Sem put x a s r s' ∧ N.Within φ s', fun _ _ => True,
    N.Rely φ x, N.Step φ x, Rely.refl, Rely.trans⟩

/-- The same for what handlers have no part in. -/
abbrev opSpec : RGSpec MgrAct MgrAct.Res (NetState ι P) :=
  ⟨fun a s r s' => Sem put x (.mgr a) s r s' ∧ N.Within φ s',
    fun _ _ => True, N.Rely φ x, N.Step φ x, Rely.refl, Rely.trans⟩

/-- Of a node, which puts into a ring what it has written there. -/
abbrev nodeSpec : RGSpec (NodeAct P) NodeAct.Res (NetState ι P) :=
  callSpec (fun a => publishes (N.len a).toNat) φ x

abbrev mgrSpec : RGSpec MgrAct MgrAct.Res (NetState ι P) :=
  opSpec (fun a => publishes (N.len a).toNat) φ x

end Rules

variable {φ : ∀ i, NodeProof (N.node i)} {x : NetParty ι} {a : ℕ}
  {s s' : NetState ι P} {put : ℕ → MessageQueueHeader → DataMessage}

/-- A function that handlers have no part in. -/
theorem inNode_wp {p : MgrProg α} {Q : α → NetState ι P → Prop}
    (h : p.Wp (opSpec put φ x) Q s) : p.inNode.Wp (callSpec put φ x) Q s :=
  (Wp.embed (callSpec put φ x) NodeAct.mgr (fun _ r => r) id (fun _ => True)
    (fun _ _ _ _ => trivial) (fun _ _ _ _ _ _ hsem => ⟨hsem, fun h =>
      ⟨h, trivial⟩⟩) (fun _ _ _ hr => ⟨hr, trivial⟩) trivial h).mono
    (fun _ _ h => h.1)

/-- What an access to a ring does. -/
theorem Sem.of_ring {b : QAct} {r : b.Res}
    (h : Sem put x (.mgr (.ring a b)) s r s') :
    r = ((s.rings a).exec (put a) b).1
      ∧ s' = s.setRing a ((s.rings a).exec (put a) b).2 := by
  cases h with
  | ring => exact ⟨rfl, rfl⟩
  | unseen ha => exact ha.elim

/-- **The load of `m_length`** finds the length of the ring. -/
theorem length_wp {F : NetState ι P → Prop} {k : UInt64 → MgrProg α}
    {Q : α → NetState ι P → Prop} (hF : (opSpec put φ x).Stable F)
    (hinv : ∀ t, F t → N.Inv φ t) (hs : F s)
    (h : ∀ t, F t → (k (N.len a)).Wp (opSpec put φ x) Q t) :
    ((loadField .length).at a >>= k).Wp (opSpec put φ x) Q s := by
  show (act (.ring a (.loadField .length)) k).Wp (opSpec put φ x) Q s
  refine Wp.act_of hF hs (fun t ht => ⟨trivial, fun r t' hsem => ?_⟩)
  obtain ⟨rfl, rfl⟩ := Sem.of_ring hsem.1
  have hsame : t.setRing a (t.rings a) = t := by
    unfold NetState.setRing
    rw [Function.update_eq_self]
  show N.Step φ x t (t.setRing a (t.rings a))
    ∧ (k (t.rings a).ring.mLength).Wp (opSpec put φ x) Q
      (t.setRing a (t.rings a))
  rw [hsame, (hinv t ht).length a]
  exact ⟨Step.refl t, h t ht⟩

/-- **An operation on a ring that publishes nothing**, proved with the
specification `G` of one side of the ring. -/
theorem at_wp {G : RGSpec QAct QAct.Res Traced}
    {msg : MessageQueueHeader → DataMessage}
    (hsem : ∀ b t r t', t.exec msg b = (r, t') → G.sem b t r t')
    (hrely : ∀ s s', N.Rely φ x s s' → G.rely (s.rings a) (s'.rings a))
    (hguar : ∀ (s : NetState ι P) (u : Traced),
      u.ring.mLength = (s.rings a).ring.mLength →
      u.accepted = (s.rings a).accepted →
      G.guar (s.rings a) u → N.Step φ x s (s.setRing a u))
    {F : NetState ι P → Prop} (hF : (opSpec put φ x).Stable F)
    (hkeep : ∀ (s : NetState ι P) (u : Traced), F s →
      u.accepted = (s.rings a).accepted → G.guar (s.rings a) u →
      F (s.setRing a u))
    {p : QProg α} {Q : α → Traced → Prop} (hp : p.All QAct.Silent)
    (hinv : N.Inv φ s) (hs : F s) (h : p.Wp G Q (s.rings a)) :
    (p.at a).Wp (opSpec put φ x)
      (fun v s => Q v (s.rings a) ∧ N.Inv φ s ∧ F s) s := by
  refine Wp.embed (G := G.only QAct.Silent) (opSpec put φ x) (MgrAct.ring a)
    (fun _ r => r) (fun s => s.rings a) (fun s => N.Inv φ s ∧ F s) (fun _ _ _ _ => trivial)
    (fun b t r t' ht hsafe hstep => ?_)
    (fun t t' ht hr => ⟨hrely t t' hr, hr.inv ht.1, hF ht.2 hr⟩) ⟨hinv, hs⟩
    (Wp.only hp h)
  obtain ⟨rfl, rfl⟩ := Sem.of_ring hstep.1
  have hb : b.Silent := hsafe.1
  obtain ⟨hlength, hacc⟩ := hb.kept (put a) (t.rings a)
  rw [hb.exec_eq _ msg] at hlength hacc ⊢
  simp only [NetState.setRing_rings_self]
  refine ⟨hsem b _ _ _ rfl, fun hg => ?_⟩
  have hstep := hguar t _ hlength hacc hg
  exact ⟨hstep, hstep.inv ht.1, hkeep t _ ht.2 hacc hg⟩

/-- **An operation of a reader.** -/
theorem read_wp (hN : N.Wired) (hx : N.Reads x a)
    {msg : MessageQueueHeader → DataMessage} {F : NetState ι P → Prop}
    (hF : (opSpec put φ x).Stable F)
    (hkeep : ∀ (s : NetState ι P) (u : Traced), F s →
      u.accepted = (s.rings a).accepted → F (s.setRing a u))
    {p : QProg α} {Q : α → Traced → Prop} (hp : p.All QAct.Silent)
    (hinv : N.Inv φ s) (hs : F s)
    (h : p.Wp (readerSpec (N.len a).toNat msg) Q (s.rings a)) :
    (p.at a).Wp (opSpec put φ x)
      (fun v s => Q v (s.rings a) ∧ N.Inv φ s ∧ F s) s :=
  at_wp (fun _ _ _ _ h => h) (fun _ _ hr => hr.fed a hx)
    (fun _ _ hlength _ hu => Step.read hN hx hlength hu) hF
    (fun s u hs hacc _ => hkeep s u hs hacc) hp hinv hs h

/-- **An operation of a writer** that publishes nothing. -/
theorem write_wp (hN : N.Wired) (hx : N.Writes x a)
    {msg : MessageQueueHeader → DataMessage} {F : NetState ι P → Prop}
    (hF : (opSpec put φ x).Stable F)
    (hkeep : ∀ (s : NetState ι P) (u : Traced), F s →
      u.accepted = (s.rings a).accepted → F (s.setRing a u))
    {p : QProg α} {Q : α → Traced → Prop} (hp : p.All QAct.Silent)
    (hinv : N.Inv φ s) (hs : F s)
    (h : p.Wp (writerSpec (N.len a).toNat msg) Q (s.rings a)) :
    (p.at a).Wp (opSpec put φ x)
      (fun v s => Q v (s.rings a) ∧ N.Inv φ s ∧ F s) s :=
  at_wp (fun _ _ _ _ h => h) (fun _ _ hr => hr.drained a hx)
    (fun _ _ hlength hacc hu => Step.write hN hx hlength hu
      (fun _ hm hno => absurd (hacc ▸ hm) hno)
      (fun hinv hfed => hacc ▸ hinv.added a hfed)
      (fun hinv i => view_setRing hacc ▸ hinv.always i)) hF
    (fun s u hs hacc _ => hkeep s u hs hacc) hp hinv hs h

/-! ## Adding a message -/

/-- What is published at the end of a copy is the message. -/
theorem publishes_eq {L w : ℕ} {acc : List DataMessage} {m : DataMessage}
    {t : Traced} (h : Writing L acc w m.size m.mem m.size t) :
    publishes L t.ring = m :=
  m.ofMem_eq (fun k hk => h.wr ▸ h.written k hk)

/-- **A message is added**, in the knowledge `F` that becomes `F'` when it is
published. What is put into the ring is the message, once it is copied. -/
theorem add_wp (hN : N.Wired) (hx : N.Writes x a) {m : DataMessage}
    (hm : m.size < 2 ^ 64)
    (hput : ∀ {acc w t}, Writing (N.len a).toNat acc w m.size m.mem m.size t →
      put a t.ring = m)
    {F F' : NetState ι P → Prop}
    (hF : (opSpec put φ x).Stable F) (hF' : (opSpec put φ x).Stable F')
    (hkeep : ∀ (s : NetState ι P) (u : Traced), F s →
      u.accepted = (s.rings a).accepted → F (s.setRing a u))
    (hpub : ∀ (s : NetState ι P) (u : Traced), N.Inv φ s → F s →
      u.accepted = (s.rings a).accepted ++ [m] → F' (s.setRing a u)
        ∧ (N.fed a → (s.rings a).accepted = s.added a)
        ∧ ∀ i, (φ i).always (N.view i (s.setRing a u)))
    (hinv : N.Inv φ s) (hs : F s) :
    ((messageQueueAddL (N.len a) m.mem).at a).Wp (opSpec put φ x)
      (fun ok t => (N.Inv φ t ∧ if ok = true then F' t else F t)
        ∧ (ok = false →
          (N.len a).toNat ≤ used (s.rings a).accepted + m.size)) s := by
  have hL : 0 < (N.len a).toNat ∧ (N.len a).toNat < 2 ^ 63 :=
    queueLength_bounds (hN.length a).1 (hN.length a).2
  have hcopy : (copyMessageL (N.len a) m.mem).Wp
      (writerSpec (N.len a).toNat fun _ => m) _ (s.rings a) :=
    copyMessageL_wp hL.1 hm (hinv.rings a) rfl
  have hcopies : (copyMessageL (N.len a) m.mem).All QAct.Copies :=
    copyMessageL_copies m.mem
  have hsilent := hcopies.mono (fun _ => QAct.Copies.silent)
  have heq : (messageQueueAddL (N.len a) m.mem).at a
      = (copyMessageL (N.len a) m.mem).at a
        >>= fun r => (publishCopy r).at a := by
    rw [messageQueueAddL_eq]
    exact embed_bind ..
  rw [heq]
  refine Wp.bind ((write_wp hN hx hF hkeep hsilent hinv hs hcopy).mono ?_)
  rintro r t ⟨hpost, htinv, ht⟩
  cases r with
  | none =>
    have hpending : used (s.rings a).pending ≤ used (s.rings a).accepted :=
      used_drop_le (Nat.zero_le _)
    have hfull := hpost.full rfl
    refine Wp.ret_of (P := fun t => N.Inv φ t ∧ F t)
      (fun _ _ ht hr => ⟨hr.inv ht.1, hF ht.2 hr⟩) ⟨htinv, ht⟩ ?_
    exact fun _ ht => ⟨⟨ht.1, ht.2⟩, fun _ => by omega⟩
  | some v =>
    obtain ⟨w, hw, hv⟩ := hpost.copied v rfl
    have hwlt := hw.inv.wr_lt
    rw [hw.wr] at hwlt
    have hroom := hw.room
    have hv := hv (by omega)
    show (act (.ring a (.storeField .wr v)) fun _ => ret true : MgrProg
      Bool).Wp (opSpec put φ x) _ t
    refine Wp.act_of (P := fun t => N.Inv φ t ∧ F t
        ∧ Writing (N.len a).toNat (s.rings a).accepted w m.size m.mem m.size
          (t.rings a))
      (fun _ _ ht hr => ⟨hr.inv ht.1, hF ht.2.1 hr,
        ht.2.2.stable (hr.drained a hx)⟩) ⟨htinv, ht, hw⟩
      (fun u hu => ⟨trivial, fun r u' hsem => ?_⟩)
    obtain ⟨huinv, hu, hw⟩ := hu
    obtain ⟨rfl, rfl⟩ := Sem.of_ring hsem.1
    -- the store publishes what was copied
    have hm := hput hw
    obtain ⟨hwriter, -, -⟩ := hw.publish (fun _ _ => rfl) hm hv
    rw [hm] at hwriter
    rw [Traced.exec_storeWr, hm]
    obtain ⟨hF'u, hadded, halways⟩ := hpub u { (u.rings a) with
      ring := { (u.rings a).ring with mWr := v }
      accepted := (u.rings a).accepted ++ [m] } huinv hu rfl
    have hstep : N.Step φ x u _ := Step.write hN hx (by rfl) hwriter
      (fun m' hm' hno => ?_)
      (fun _ hfed => .inr ⟨m, congrArg (· ++ [m]) (hadded hfed)⟩)
      (fun _ => halways)
    · exact ⟨hstep, Wp.ret_of (P := fun t => N.Inv φ t ∧ F' t)
        (fun _ _ ht hr => ⟨hr.inv ht.1, hF' ht.2 hr⟩)
        ⟨hstep.inv huinv, hF'u⟩
        (fun _ ht => ⟨⟨ht.1, ht.2⟩, (fun h => nomatch h)⟩)⟩
    · obtain hm' | hm' := List.mem_append.mp hm'
      · exact absurd hm' hno
      · obtain rfl := List.mem_singleton.mp hm'
        omega

end Network
