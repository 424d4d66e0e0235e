import Kucomms.DeliveryInvariant
import Kucomms.Observer

/-!
# The manager's way round the rings

Two things are noted of the manager. `Watch.first` is how many messages had
been delivered when the turn began, so the rest are those of this pass of the
`for` loop. `Watch.owed` is about two pairs `i` and `j`, the receive ring of
`j` being at `rx`: since the last message from `i` was delivered, that ring
has not been empty and none of its messages was delivered.

`Ready` says where the pass is. When it is about to come to the pair `u`, only
pairs before `u` have been served in it, in order; and `j` is owed a delivery
only if the pass has come by `i` and not yet by `j`. So when it comes by `i`
again, nothing is owed: the visit of `j` in between has found its ring with a
message, and delivered it.
-/

open Prog

/-- A ring is not empty. -/
def DeliveryState.nonEmpty (s : DeliveryState) (msgq : ℕ) : Bool :=
  (s.rings msgq).ring.mRd != (s.rings msgq).ring.mWr

/-- **What is noted** of the pairs `i` and `j`. -/
structure Watch where
  first : ℕ
  owed : Bool

namespace Watch

/-- When a call begins. -/
def call (w : Watch) (c : DeliveryCall) (s : DeliveryState) : Watch :=
  match c with
  | .turn _ => { w with first := s.delivered.length }
  | _ => w

/-- When an action has been performed. -/
def act (i j rx : ℕ) (w : Watch) (a : MgrAct) (s : DeliveryState) : Watch :=
  { w with owed := s.nonEmpty rx && match a with
      | .msghlr u0 _ _ _ _ => u0 == i || (w.owed && u0 != j)
      | _ => w.owed }

end Watch

/-- The manager and its producers, with the notes. -/
abbrev Watched : Type := DeliveryState × Watch

section Sweep

variable {ps : List RingPair} {i j rx u : ℕ} {t t' : Watched}

/-- **The deliveries of this pass** are from one pair after the other. -/
def Ascending (t : Watched) : Prop :=
  ((t.1.delivered.drop t.2.first).map Delivery.pair).Pairwise (· < ·)

/-- **The pass is about to come to the pair `u`.** -/
structure Ready (ps : List RingPair) (i j rx u : ℕ) (t : Watched) : Prop where
  rings : ∀ p ∈ ps, (t.1.rings p.rx).Inv p.rxLen.toNat
  first_le : t.2.first ≤ t.1.delivered.length
  ascending : Ascending t
  below : ∀ d ∈ t.1.delivered.drop t.2.first, d.pair < u
  owed : t.2.owed = true → t.1.nonEmpty rx = true ∧ i < ps.length
    ∧ (i < j → i < u ∧ u ≤ j) ∧ (j < i → i < u ∨ u ≤ j)

/-- **What delivers nothing.** -/
structure Keeps (ps : List RingPair) (rx : ℕ) (t t' : Watched) : Prop where
  rings : ∀ p ∈ ps, (t.1.rings p.rx).Inv p.rxLen.toNat →
    (t'.1.rings p.rx).Inv p.rxLen.toNat
  delivered : t'.1.delivered = t.1.delivered
  first : t'.2.first = t.2.first
  owed : t'.2.owed = true → t.2.owed = true
  nonEmpty : (t.2.owed = true → t.1.nonEmpty rx = true) →
    t'.2.owed = true → t'.1.nonEmpty rx = true

theorem Keeps.refl (ps : List RingPair) (rx : ℕ) (t : Watched) :
    Keeps ps rx t t :=
  ⟨fun _ _ => id, rfl, rfl, id, id⟩

theorem Keeps.trans {t'' : Watched} (h : Keeps ps rx t t')
    (h' : Keeps ps rx t' t'') : Keeps ps rx t t'' :=
  ⟨fun p hp hi => h'.rings p hp (h.rings p hp hi),
    h'.delivered.trans h.delivered, h'.first.trans h.first,
    fun ho => h.owed (h'.owed ho),
    fun hn => h'.nonEmpty (h.nonEmpty hn)⟩

theorem Keeps.ascending (h : Keeps ps rx t t') (ht : Ascending t) :
    Ascending t' := by
  unfold Ascending
  rw [h.delivered, h.first]
  exact ht

theorem Ready.keep (h : Ready ps i j rx u t) (hk : Keeps ps rx t t') :
    Ready ps i j rx u t' := by
  refine ⟨fun p hp => hk.rings p hp (h.rings p hp), ?_, hk.ascending h.ascending,
    ?_, fun ho => ⟨hk.nonEmpty (fun ho => (h.owed ho).1) ho,
      (h.owed (hk.owed ho)).2⟩⟩
  · rw [hk.delivered, hk.first]
    exact h.first_le
  · rw [hk.delivered, hk.first]
    exact h.below

/-- **The pass goes on** without a delivery from the pair `u`, of which it
owes none. -/
theorem Ready.skip (h : Ready ps i j rx u t)
    (hj : u = j → t.2.owed = false) : Ready ps i j rx (u + 1) t := by
  refine ⟨h.rings, h.first_le, h.ascending,
    fun d hd => (h.below d hd).trans (Nat.lt_succ_self u), fun ho => ?_⟩
  obtain ⟨hn, hi, hij, hji⟩ := h.owed ho
  have hne : u ≠ j := fun hu => Bool.false_ne_true ((hj hu).symm.trans ho)
  exact ⟨hn, hi, fun hlt => by have := hij hlt; omega,
    fun hlt => by have := hji hlt; omega⟩

/-- **A new pass.** The last one has come by all pairs, `j` being one. -/
theorem Ready.restart (h : Ready ps i j rx ps.length t)
    (hj : i < ps.length → j < ps.length) :
    Ready ps i j rx 0 (t.1, ⟨t.1.delivered.length, t.2.owed⟩) := by
  refine ⟨h.rings, le_rfl, ?_, ?_, fun ho => ?_⟩
  · show ((t.1.delivered.drop t.1.delivered.length).map _).Pairwise _
    rw [List.drop_length]
    exact .nil
  · show ∀ d ∈ t.1.delivered.drop t.1.delivered.length, _
    rw [List.drop_length]
    exact fun d hd => absurd hd List.not_mem_nil
  · obtain ⟨hn, hi, hij, -⟩ := h.owed ho
    have hj := hj hi
    exact ⟨hn, hi, fun hlt => by have := hij hlt; omega,
      fun _ => .inr (Nat.zero_le j)⟩

/-- **A delivery from the pair `u`**, when the pass is there. -/
theorem Ready.deliver (h : Ready ps i j rx u t) (hu : u < ps.length)
    {d : Delivery} (hd : d.pair = u) {rings : ℕ → Traced}
    (hrx : KeepsRx ps t.1.rings rings) {ptr : MessagePtr} {tx : ℕ}
    {rxLen txLen : UInt64} :
    Ready ps i j rx (u + 1) (t.1.deliver d rings, t.2.act i j rx
      (.msghlr u ptr tx rxLen txLen) (t.1.deliver d rings)) := by
  have hdrop : (t.1.delivered ++ [d]).drop t.2.first
      = t.1.delivered.drop t.2.first ++ [d] :=
    List.drop_append_of_le_length h.first_le
  refine ⟨fun p hp => ?_, ?_, ?_, ?_, fun ho => ?_⟩
  · show (rings p.rx).Inv _
    rw [hrx p hp]
    exact h.rings p hp
  · show t.2.first ≤ (t.1.delivered ++ [d]).length
    rw [List.length_append]
    exact h.first_le.trans (Nat.le_add_right _ _)
  · show (((t.1.delivered ++ [d]).drop t.2.first).map _).Pairwise _
    rw [hdrop, List.map_append, List.pairwise_append]
    refine ⟨h.ascending, List.pairwise_singleton _ _, fun a ha b hb => ?_⟩
    obtain ⟨d', hd', rfl⟩ := List.mem_map.mp ha
    obtain rfl := List.mem_singleton.mp hb
    rw [hd]
    exact h.below d' hd'
  · show ∀ d' ∈ (t.1.delivered ++ [d]).drop t.2.first, _
    rw [hdrop]
    intro d' hd'
    obtain hd' | hd' := List.mem_append.mp hd'
    · exact (h.below d' hd').trans (Nat.lt_succ_self u)
    · obtain rfl := List.mem_singleton.mp hd'
      rw [hd]
      exact Nat.lt_succ_self u
  · obtain ⟨hn, hor⟩ := Bool.and_eq_true_iff.mp ho
    refine ⟨hn, ?_⟩
    obtain hi | ho := (Bool.or_eq_true _ _).mp hor
    · obtain rfl := beq_iff_eq.mp hi
      exact ⟨hu, fun hlt => ⟨Nat.lt_succ_self u, hlt⟩,
        fun _ => .inl (Nat.lt_succ_self u)⟩
    · obtain ⟨ho, hne⟩ := Bool.and_eq_true_iff.mp ho
      have hne : u ≠ j := bne_iff_ne.mp hne
      obtain ⟨-, hi, hij, hji⟩ := h.owed ho
      exact ⟨hi, fun hlt => by have := hij hlt; omega,
        fun hlt => by have := hji hlt; omega⟩

/-- When the pass is at `i`, nothing is owed. -/
theorem Ready.not_owed (h : Ready ps i j rx i t) (hij : i ≠ j) :
    t.2.owed = false := by
  refine Bool.eq_false_iff.mpr (fun ho => ?_)
  obtain ⟨-, -, hlt, hgt⟩ := h.owed ho
  obtain hlt' | hgt' := Nat.lt_or_gt_of_ne hij
  · exact absurd (hlt hlt').1 (Nat.lt_irrefl i)
  · have := hgt hgt'
    omega

end Sweep

/-! ## The manager's actions -/

section Rules

variable {ps : List RingPair} {msg : MessageQueueHeader → DataMessage}
  {i j rx u : ℕ} {p : RingPair} {t t' : Watched} {α : Type}

/-- What the others do. -/
structure Around (ps : List RingPair) (rx : ℕ) (t t' : Watched) : Prop where
  fed : Fed ps t.1 t'.1
  keeps : Keeps ps rx t t'

/-- **What the manager does**: it goes round the pairs in order, and is not at
`i` while `j` is owed a delivery. -/
structure Sweeps (ps : List RingPair) (i : ℕ) (t t' : Watched) : Prop where
  reader : ∀ p ∈ ps,
    ReaderStep p.rxLen.toNat (t.1.rings p.rx) (t'.1.rings p.rx)
  ascending : Ascending t → Ascending t'
  turn : ∀ d, t'.1.delivered = t.1.delivered ++ [d] → d.pair = i →
    t.2.owed = false

/-- The specification of the manager, with the notes. -/
abbrev sweepSpec (ps : List RingPair) (i j rx : ℕ)
    (msg : MessageQueueHeader → DataMessage) :
    RGSpec MgrAct MgrAct.Res Watched where
  sem a t r t' :=
    DeliverySem ps msg a t.1 r t'.1 ∧ t'.2 = t.2.act i j rx a t'.1
  safe _ _ := True
  rely := Around ps rx
  guar := Sweeps ps i
  rely_refl t := ⟨Fed.refl ps t.1, Keeps.refl ps rx t⟩
  rely_trans h h' := ⟨h.fed.trans h'.fed, h.keeps.trans h'.keeps⟩

theorem Ready.stable (h : Ready ps i j rx u t) (ha : Around ps rx t t') :
    Ready ps i j rx u t' :=
  h.keep ha.keeps

/-- One more is not the same. -/
theorem ne_concat (ds : List Delivery) (d : Delivery) : ds ≠ ds ++ [d] :=
  fun h => absurd (List.self_eq_append_right.mp h) (List.cons_ne_nil d [])

/-- What delivers nothing has no turn. -/
theorem Keeps.sweeps (h : Keeps ps rx t t')
    (hr : ∀ p ∈ ps,
      ReaderStep p.rxLen.toNat (t.1.rings p.rx) (t'.1.rings p.rx)) :
    Sweeps ps i t t' := by
  exact ⟨hr, h.ascending, fun d hd =>
    absurd (h.delivered.symm.trans hd) (ne_concat _ d)⟩

/-- **An action after which nothing more is delivered.** -/
theorem keeps_of_act {a : MgrAct} {s' : DeliveryState}
    (hrings : ∀ p ∈ ps, (t.1.rings p.rx).Inv p.rxLen.toNat →
      (s'.rings p.rx).Inv p.rxLen.toNat)
    (hd : s'.delivered = t.1.delivered)
    (ha : ∀ u0 ptr tx rxLen txLen, a ≠ .msghlr u0 ptr tx rxLen txLen) :
    Keeps ps rx t (s', t.2.act i j rx a s') := by
  have howed : (t.2.act i j rx a s').owed = (s'.nonEmpty rx && t.2.owed) := by
    unfold Watch.act
    cases a with
    | msghlr u0 ptr tx rxLen txLen => exact absurd rfl (ha u0 ptr tx rxLen txLen)
    | _ => rfl
  refine ⟨hrings, hd, rfl, fun ho => ?_, fun _ ho => ?_⟩
  · exact (Bool.and_eq_true_iff.mp (howed.symm.trans ho)).2
  · exact (Bool.and_eq_true_iff.mp (howed.symm.trans ho)).1

/-- The actions that leave the receive rings as they are, the call of the
message handler apart. -/
def MgrAct.LeavesRx (a : MgrAct) : Prop :=
  a.quiet = true ∨ a = .msghlrReturn
    ∨ ∃ msgq f, a = .ring msgq (.loadField f)

/-- **Actions that leave the receive rings as they are.** -/
theorem MgrAct.LeavesRx.step {a : MgrAct} (ha : a.LeavesRx) {r : a.Res}
    (hsem : (sweepSpec ps i j rx msg).sem a t r t') :
    Keeps ps rx t t' ∧ Sweeps ps i t t' := by
  obtain ⟨hsem, hw⟩ := hsem
  obtain ⟨s', w'⟩ := t'
  obtain rfl : w' = t.2.act i j rx a s' := hw
  have hkeep : (∀ q ∈ ps, s'.rings q.rx = t.1.rings q.rx) →
      s'.delivered = t.1.delivered →
      (∀ u0 ptr tx rxLen txLen, a ≠ .msghlr u0 ptr tx rxLen txLen) →
      Keeps ps rx t (s', t.2.act i j rx a s')
        ∧ Sweeps ps i t (s', t.2.act i j rx a s') := by
    intro hrx hd hne
    have hk : Keeps ps rx t (s', t.2.act i j rx a s') := keeps_of_act
      (fun q hq hi => (hrx q hq).symm ▸ hi) hd hne
    exact ⟨hk, hk.sweeps (fun q hq => (hrx q hq).symm ▸ ReaderStep.refl _)⟩
  cases hsem with
  | quiet hq hrx =>
    refine hkeep hrx rfl (fun u0 ptr tx rxLen txLen he => ?_)
    rw [he] at hq
    exact Bool.false_ne_true hq
  | ring msgq b =>
    obtain hq | he | ⟨msgq', f, he⟩ := ha
    · exact absurd hq Bool.false_ne_true
    · cases he
    · obtain ⟨rfl, rfl⟩ := MgrAct.ring.inj he
      refine hkeep (fun q _ => ?_) rfl nofun
      show Function.update t.1.rings msgq (t.1.rings msgq) q.rx = _
      rw [Function.update_eq_self]
  | msghlr hrx =>
    obtain hq | he | ⟨msgq', f, he⟩ := ha
    · exact absurd hq Bool.false_ne_true
    · cases he
    · cases he
  | msghlrReturn hrx => exact hkeep hrx rfl nofun

/-- **A program of such actions.** -/
theorem leavesRx_wp {q : MgrProg α} (hq : q.All MgrAct.LeavesRx)
    (ht : Ready ps i j rx u t) :
    q.Wp (sweepSpec ps i j rx msg) (fun _ t => Ready ps i j rx u t) t := by
  refine Wp.all hq (fun _ _ => Ready.stable) (fun a t ha ht =>
    ⟨trivial, fun r t' hsem => ?_⟩) ht
  obtain ⟨hk, hs⟩ := ha.step hsem
  exact ⟨hs, ht.keep hk⟩

/-- **A step of the reader of a ring.** -/
theorem reader_keeps (hps : DistinctRx ps) (hp : ps[u]? = some p) {v : Traced}
    (hstep : ReaderStep p.rxLen.toNat (t.1.rings p.rx) v) (a : QAct) :
    let s' := { t.1 with rings := Function.update t.1.rings p.rx v }
    Keeps ps rx t (s', t.2.act i j rx (.ring p.rx a) s')
      ∧ Sweeps ps i t (s', t.2.act i j rx (.ring p.rx a) s') := by
  have hreader := hps.reader_update hp hstep
  intro s'
  have hk : Keeps ps rx t (s', t.2.act i j rx (.ring p.rx a) s') :=
    keeps_of_act (fun q hq => (hreader q hq).inv) rfl nofun
  exact ⟨hk, hk.sweeps hreader⟩

/-- **An operation on the receive ring of the pair that is served.** -/
theorem ring_ready_wp {q : QProg α} {Q : α → Traced → Prop} {J : Watched → Prop}
    (hps : DistinctRx ps) (hp : ps[u]? = some p)
    (hJ : ∀ t t', J t → Keeps ps rx t t' → J t') (ht : J t)
    (h : q.Wp (readerSpec p.rxLen.toNat msg) Q (t.1.rings p.rx)) :
    (QProg.at q p.rx).Wp (sweepSpec ps i j rx msg)
      (fun v t => Q v (t.1.rings p.rx) ∧ J t) t := by
  refine Wp.embed (sweepSpec ps i j rx msg) (MgrAct.ring p.rx) (fun _ r => r)
    (fun t => t.1.rings p.rx) J (fun _ _ _ _ => trivial)
    (fun a t r t' ht _ hsem => ?_) (fun t t' ht ha => ⟨ha.fed.writer p
      (List.mem_of_getElem? hp), hJ t t' ht ha.keeps⟩) ht h
  obtain ⟨hsem, hw⟩ := hsem
  obtain ⟨s', w'⟩ := t'
  obtain rfl : w' = t.2.act i j rx (.ring p.rx a) s' := hw
  cases hsem with
  | ring =>
    obtain ⟨v, hv⟩ : ∃ v, v = ((t.1.rings p.rx).exec msg a).2 := ⟨_, rfl⟩
    rw [← hv]
    show (t.1.rings p.rx).exec msg a
        = (_, Function.update t.1.rings p.rx v p.rx)
      ∧ (ReaderStep p.rxLen.toNat (t.1.rings p.rx)
        (Function.update t.1.rings p.rx v p.rx) → _)
    rw [Function.update_self, hv]
    refine ⟨rfl, fun hstep => ?_⟩
    obtain ⟨hk, hs⟩ := reader_keeps hps hp hstep a
    exact ⟨hs, hJ _ _ ht hk⟩
  | quiet ha hrx => exact absurd ha Bool.false_ne_true

/-- **The call of the message handler** for the pair `u`, while `K` holds of
its receive ring. -/
theorem callMsghlr_ready_wp (ptr : MessagePtr) {K : Traced → Prop} (hij : i ≠ j)
    (hp : ps[u]? = some p)
    (hK : ∀ v v', K v → WriterStep p.rxLen.toNat v v' → K v')
    (ht : Ready ps i j rx u t) (hk : K (t.1.rings p.rx)) :
    (callMsghlr u ptr p.tx p.rxLen p.txLen).Wp (sweepSpec ps i j rx msg)
      (fun _ t => Ready ps i j rx (u + 1) t ∧ K (t.1.rings p.rx)) t := by
  have hpmem := List.mem_of_getElem? hp
  have hstable : ∀ n, (sweepSpec ps i j rx msg).Stable
      (fun t => Ready ps i j rx n t ∧ K (t.1.rings p.rx)) :=
    fun n t t' h ha => ⟨h.1.stable ha, hK _ _ h.2 (ha.fed.writer p hpmem)⟩
  refine Wp.act_of (hstable u) ⟨ht, hk⟩ (fun t h =>
    ⟨trivial, fun r t' hsem => ?_⟩)
  obtain ⟨ht, hk⟩ := h
  obtain ⟨hsem, hw⟩ := hsem
  obtain ⟨s', w'⟩ := t'
  obtain rfl : w' = t.2.act i j rx _ s' := hw
  cases hsem with
  | quiet ha hrx => exact absurd ha Bool.false_ne_true
  | @msghlr _ _ _ _ _ _ rings hrx =>
    have hready : Ready ps i j rx (u + 1) (t.1.deliver _ rings,
        t.2.act i j rx (.msghlr u ptr p.tx p.rxLen p.txLen)
          (t.1.deliver ⟨u, ptr, t.1.shown ptr, p.tx, p.rxLen, p.txLen⟩ rings)) :=
      ht.deliver (List.getElem?_eq_some_iff.mp hp).1 rfl hrx
    refine ⟨⟨hrx.drains.reader, fun _ => hready.ascending, fun d hd hi => ?_⟩,
      ?_⟩
    · obtain rfl := List.singleton_inj.mp (List.append_cancel_left hd)
      obtain rfl : u = i := hi
      exact ht.not_owed hij
    have hk' : K (rings p.rx) := (hrx p hpmem).symm ▸ hk
    refine Wp.act_of (hstable (u + 1)) ⟨hready, hk'⟩ (fun v h =>
      ⟨trivial, fun r v' hsem => ?_⟩)
    obtain ⟨hv, hkv⟩ := h
    have hleaves : MgrAct.LeavesRx .msghlrReturn := .inr (.inl rfl)
    obtain ⟨hkeep, hsweep⟩ := hleaves.step hsem
    have hrx' : v'.1.rings p.rx = v.1.rings p.rx := by
      obtain ⟨s', w'⟩ := v'
      cases hsem.1 with
      | quiet ha hrx' => exact absurd ha Bool.false_ne_true
      | msghlrReturn hrx' => exact hrx' p hpmem
    exact ⟨hsweep, Wp.ret_of (hstable (u + 1)) ⟨hv.keep hkeep, hrx'.symm ▸ hkv⟩
      (fun _ h => h)⟩

end Rules
