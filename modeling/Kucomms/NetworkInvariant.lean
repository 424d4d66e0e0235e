import Kucomms.Handlers
import Kucomms.Network
import Kucomms.QueueReader
import Kucomms.QueueWriter
import Kucomms.Turns

/-!
# What holds in a network

`Network.Inv` says of a network at work that all rings are in order, that
what was handled from a ring, or got from it, is a prefix of what was
accepted into it, that this is what its free producer has added, and that
every node's handlers keep to what was proved about them (`NodeProof`), the
node being seen as it can observe itself (`Network.view`).

A party does to the rings it reads what a reader does, to those it writes
what a writer does, and to the rest nothing (`Network.Step`); and that is
what the others may count on (`Network.Rely`), since the rings are wired so
that no two parties are at the same side of one (`Network.Step.rely`).
-/

open Prog

/-! ## Accesses that publish nothing -/

/-- **An access that publishes nothing**, and leaves `m_length` alone. -/
def QAct.Silent : QAct → Prop
  | .storeField f _ => f = .rd
  | _ => True

section Silent

variable {a : QAct}

theorem QAct.Takes.silent (ha : a.Takes) : a.Silent := by
  cases a with
  | storeField f v => exact ha
  | _ => trivial

theorem QAct.Copies.silent (ha : a.Copies) : a.Silent := by
  cases a with
  | storeField f v => exact ha.elim
  | _ => trivial

/-- What a call publishes does not matter to it. -/
theorem QAct.Silent.exec_eq (ha : a.Silent)
    (msg msg' : MessageQueueHeader → DataMessage) (s : Traced) :
    s.exec msg a = s.exec msg' a := by
  cases a with
  | storeField f v =>
    obtain rfl : f = .rd := ha
    rfl
  | _ => rfl

theorem QAct.Silent.kept (ha : a.Silent)
    (msg : MessageQueueHeader → DataMessage) (s : Traced) :
    (s.exec msg a).2.ring.mLength = s.ring.mLength
      ∧ (s.exec msg a).2.accepted = s.accepted := by
  cases a with
  | storeField f v =>
    obtain rfl : f = .rd := ha
    exact ⟨rfl, rfl⟩
  | _ => exact ⟨rfl, rfl⟩

end Silent

variable {ι P : Type}

/-! ## Rings that change -/

namespace NetState

variable (s : NetState ι P) (a : ℕ) (t : Traced)

@[simp] theorem setRing_rings_self : (s.setRing a t).rings a = t :=
  Function.update_self ..

theorem setRing_rings_ne {b : ℕ} (h : b ≠ a) :
    (s.setRing a t).rings b = s.rings b :=
  Function.update_of_ne h ..

@[simp] theorem setRing_node : (s.setRing a t).node = s.node := rfl

/-- What holds of all rings goes on to hold of them. -/
theorem setRing_all {C : ℕ → Traced → Prop} (h : ∀ b, C b (s.rings b))
    (ht : C a t) (b : ℕ) : C b ((s.setRing a t).rings b) := by
  by_cases hb : b = a
  · subst hb
    rw [setRing_rings_self]
    exact ht
  · rw [setRing_rings_ne _ _ _ hb]
    exact h b

end NetState

namespace Network

variable {N : Network ι P}

/-! ## The pairs of a node -/

section Pairs

variable {i : ι}

/-- The manager has the pairs of its node. -/
theorem hasPairs (hN : N.Wired) (i : ι) :
    HasPairs (N.msgmgr i) (N.pairs i) :=
  addPairs_hasPairs 1 2 3 4 (by
    unfold pairs
    rw [List.length_map]
    exact hN.few i)

theorem pairs_getElem? {k : ℕ} {q : ℕ × ℕ}
    (hq : (N.node i).pairs[k]? = some q) :
    (N.pairs i)[k]? = some (N.ringPair q) := by
  unfold pairs
  rw [List.getElem?_map, hq]
  rfl

end Pairs

/-! ## What a node can observe -/

section View

variable (N) (i : ι) (s : NetState ι P)

/-- The messages added to the transmit ring of a pair. -/
def sent (k : ℕ) : List DataMessage :=
  match (N.node i).pairs[k]? with
  | some q => (s.rings q.2).accepted
  | none => []

/-- The length of the transmit ring of a pair. -/
def txLen (k : ℕ) : ℕ :=
  match (N.node i).pairs[k]? with
  | some q => (N.len q.2).toNat
  | none => 0

/-- **What a node can observe of itself.** -/
def view : Local P :=
  ⟨(s.node i).memory, (s.node i).handled, N.sent i s, N.txLen i⟩

end View

section View

variable {i : ι} {s s' : NetState ι P}

theorem sent_eq {k : ℕ} {q : ℕ × ℕ} (hq : (N.node i).pairs[k]? = some q) :
    N.sent i s k = (s.rings q.2).accepted := by
  unfold sent
  rw [hq]

theorem txLen_eq {k : ℕ} {q : ℕ × ℕ} (hq : (N.node i).pairs[k]? = some q) :
    N.txLen i k = (N.len q.2).toNat := by
  unfold txLen
  rw [hq]

/-- A node sees its own state, and what was accepted into the rings that it
writes. -/
theorem view_congr (hnode : s'.node i = s.node i)
    (hacc : ∀ q ∈ (N.node i).pairs,
      (s'.rings q.2).accepted = (s.rings q.2).accepted) :
    N.view i s' = N.view i s := by
  have hsent : N.sent i s' = N.sent i s := by
    funext k
    unfold sent
    split
    · next q hq => exact hacc q (List.mem_of_getElem? hq)
    · rfl
  unfold view
  rw [hnode, hsent]

/-- A ring into which nothing is accepted. -/
theorem view_setRing {a : ℕ} {t : Traced}
    (h : t.accepted = (s.rings a).accepted) :
    N.view i (s.setRing a t) = N.view i s := by
  refine view_congr rfl (fun q _ => ?_)
  by_cases hq : q.2 = a
  · rw [hq, NetState.setRing_rings_self, h]
  · rw [NetState.setRing_rings_ne _ _ _ hq]

/-- A ring of others. -/
theorem view_setRing_of_ne {a : ℕ} {t : Traced}
    (h : ¬N.Writes (.node i) a) :
    N.view i (s.setRing a t) = N.view i s := by
  refine view_congr rfl (fun q hq => ?_)
  rw [NetState.setRing_rings_ne _ _ _ (fun hqa => h ⟨q, hq, hqa⟩)]

/-- **A message accepted into a transmit ring** is one that was sent. -/
theorem view_send {k : ℕ} {q : ℕ × ℕ} {t : Traced} {m : DataMessage}
    (htx : ((N.node i).pairs.map Prod.snd).Nodup)
    (hq : (N.node i).pairs[k]? = some q)
    (h : t.accepted = (s.rings q.2).accepted ++ [m]) :
    N.view i (s.setRing q.2 t) = (N.view i s).send k m := by
  have hsent : N.sent i (s.setRing q.2 t)
      = Function.update (N.sent i s) k (N.sent i s k ++ [m]) := by
    funext j
    by_cases hj : j = k
    · rw [hj, Function.update_self, sent_eq hq, sent_eq hq,
        NetState.setRing_rings_self, h]
    rw [Function.update_of_ne hj]
    unfold sent
    split
    · next q' hq' =>
      have hne : q'.2 ≠ q.2 := by
        intro hqq
        have hlt := (List.getElem?_eq_some_iff.mp hq').1
        refine hj ((List.getElem?_inj (by rwa [List.length_map]) htx).mp ?_)
        rw [List.getElem?_map, List.getElem?_map, hq, hq']
        exact congrArg some hqq
      rw [NetState.setRing_rings_ne _ _ _ hne]
    · rfl
  unfold view
  rw [hsent]
  rfl

end View

/-! ## The invariant -/

/-- **What was accepted from a free producer** is what it has added, and then
what its call under way has published, if it has. -/
def Accounts (acc added : List DataMessage) : Prop :=
  acc = added ∨ ∃ m, acc = added ++ [m]

/-- **The invariant.** -/
structure Inv (φ : ∀ i, NodeProof (N.node i)) (s : NetState ι P) : Prop where
  rings : ∀ a, (s.rings a).Inv (N.len a).toNat
  length : ∀ a, (s.rings a).ring.mLength = N.len a
  /-- No message is longer than the ring it was accepted into. -/
  sizes : ∀ a, ∀ m ∈ (s.rings a).accepted, m.size < (N.len a).toNat
  handled : ∀ i k q, (N.node i).pairs[k]? = some q →
    handledFrom (s.node i).handled k <+: (s.rings q.1).accepted
  got : ∀ a, s.got a <+: (s.rings a).accepted
  added : ∀ a, N.fed a → Accounts (s.rings a).accepted (s.added a)
  always : ∀ i, (φ i).always (N.view i s)
  noError : ∀ i, (s.node i).phase ≠ .returned false

/-- **What is assumed of the memories.** -/
def Within (φ : ∀ i, NodeProof (N.node i)) (s : NetState ι P) : Prop :=
  ∀ i, (φ i).within (s.node i).memory

/-- **The proofs fit together**: the message that a node is going to handle
next is as it expects. All that was proved about the others may be used. -/
def Fits (φ : ∀ i, NodeProof (N.node i)) : Prop :=
  ∀ {s i k q m}, N.Inv φ s → (N.node i).pairs[k]? = some q →
    (s.rings q.1).accepted[(handledFrom (s.node i).handled k).length]?
      = some m → (φ i).expects (N.view i s) k m

/-- **What a party does.** -/
structure Step (φ : ∀ i, NodeProof (N.node i)) (x : NetParty ι)
    (s s' : NetState ι P) : Prop where
  inv : N.Inv φ s → N.Inv φ s'
  reader : ∀ a, N.Reads x a →
    ReaderStep (N.len a).toNat (s.rings a) (s'.rings a)
  writer : ∀ a, N.Writes x a →
    WriterStep (N.len a).toNat (s.rings a) (s'.rings a)
  others : ∀ a, ¬N.Reads x a → ¬N.Writes x a → s'.rings a = s.rings a
  node : ∀ i, x ≠ .node i → s'.node i = s.node i
  got : ∀ a, x ≠ .consumer a → s'.got a = s.got a
  added : ∀ a, x ≠ .producer a → s'.added a = s.added a

/-- **What the others may do to it.** -/
structure Rely (φ : ∀ i, NodeProof (N.node i)) (x : NetParty ι)
    (s s' : NetState ι P) : Prop where
  inv : N.Inv φ s → N.Inv φ s'
  fed : ∀ a, N.Reads x a →
    WriterStep (N.len a).toNat (s.rings a) (s'.rings a)
  drained : ∀ a, N.Writes x a →
    ReaderStep (N.len a).toNat (s.rings a) (s'.rings a)
  node : ∀ i, x = .node i → s'.node i = s.node i
  got : ∀ a, x = .consumer a → s'.got a = s.got a
  added : ∀ a, x = .producer a → s'.added a = s.added a

section Parties

variable {φ : ∀ i, NodeProof (N.node i)} {x y : NetParty ι}
  {s s' t : NetState ι P}

theorem Step.refl (s : NetState ι P) : N.Step φ x s s :=
  ⟨id, fun _ _ => .refl _, fun _ _ => .refl _, fun _ _ _ => rfl,
    fun _ _ => rfl, fun _ _ => rfl, fun _ _ => rfl⟩

theorem Rely.refl (s : NetState ι P) : N.Rely φ x s s :=
  ⟨id, fun _ _ => .refl _, fun _ _ => .refl _, fun _ _ => rfl,
    fun _ _ => rfl, fun _ _ => rfl⟩

theorem Rely.trans (h : N.Rely φ x s s') (h' : N.Rely φ x s' t) :
    N.Rely φ x s t :=
  ⟨h'.inv ∘ h.inv, fun a ha => (h.fed a ha).trans (h'.fed a ha),
    fun a ha => (h.drained a ha).trans (h'.drained a ha),
    fun i hi => (h'.node i hi).trans (h.node i hi),
    fun a ha => (h'.got a ha).trans (h.got a ha),
    fun a ha => (h'.added a ha).trans (h.added a ha)⟩

/-- **The parties keep to the bargain**: no two of them read one ring, or
write one. -/
theorem Step.rely (hN : N.Wired) (hxy : x ≠ y) (h : N.Step φ x s s') :
    N.Rely φ y s s' := by
  refine ⟨h.inv, fun a ha => ?_, fun a ha => ?_,
    fun i hi => h.node i (hi ▸ hxy), fun a ha => h.got a (ha ▸ hxy),
    fun a ha => h.added a (ha ▸ hxy)⟩
  · have hreads : ¬N.Reads x a := fun hx => hxy (hN.reader hx ha)
    by_cases hwrites : N.Writes x a
    · exact h.writer a hwrites
    · rw [h.others a hreads hwrites]
      exact .refl _
  · have hwrites : ¬N.Writes x a := fun hx => hxy (hN.writer hx ha)
    by_cases hreads : N.Reads x a
    · exact h.reader a hreads
    · rw [h.others a hreads hwrites]
      exact .refl _

/-- What a node sees of itself the others leave as it is. -/
theorem Rely.view {i : ι} (h : N.Rely φ (.node i) s s') :
    N.view i s' = N.view i s :=
  view_congr (h.node i rfl)
    (fun q hq => (h.drained q.2 ⟨q, hq, rfl⟩).accepted)

/-- **A ring changes**, and the invariant is kept. -/
theorem Inv.setRing (h : N.Inv φ s) {a : ℕ} {u : Traced}
    (hinv : u.Inv (N.len a).toNat)
    (hlength : u.ring.mLength = (s.rings a).ring.mLength)
    (hacc : (s.rings a).accepted <+: u.accepted)
    (hsizes : ∀ m ∈ u.accepted, m.size < (N.len a).toNat)
    (hadded : N.fed a → Accounts u.accepted (s.added a))
    (halways : ∀ i, (φ i).always (N.view i (s.setRing a u))) :
    N.Inv φ (s.setRing a u) := by
  refine ⟨s.setRing_all a u h.rings hinv,
    s.setRing_all a u (C := fun b v => v.ring.mLength = N.len b) h.length
      (hlength.trans (h.length a)),
    s.setRing_all a u (C := fun b v => ∀ m ∈ v.accepted,
      m.size < (N.len b).toNat) h.sizes hsizes, fun i k q hq => ?_,
    fun b => ?_,
    s.setRing_all a u (C := fun b v => N.fed b →
      Accounts v.accepted (s.added b)) h.added hadded,
    halways, h.noError⟩
  · refine (h.handled i k q hq).trans ?_
    exact s.setRing_all a u (C := fun b v => (s.rings b).accepted
      <+: v.accepted) (fun _ => List.prefix_rfl) hacc q.1
  · refine (h.got b).trans ?_
    exact s.setRing_all a u (C := fun b v => (s.rings b).accepted
      <+: v.accepted) (fun _ => List.prefix_rfl) hacc b

/-- **A reader's access.** -/
theorem Step.read (hN : N.Wired) {a : ℕ} (hx : N.Reads x a) {u : Traced}
    (hlength : u.ring.mLength = (s.rings a).ring.mLength)
    (hu : ReaderStep (N.len a).toNat (s.rings a) u) :
    N.Step φ x s (s.setRing a u) := by
  refine ⟨fun h => ?_, fun b _ => ?_, fun b hb => ?_, fun b hb _ => ?_,
    fun _ _ => rfl, fun _ _ => rfl, fun _ _ => rfl⟩
  · refine h.setRing (hu.inv (h.rings a)) hlength ?_ ?_ ?_ (fun i => ?_)
    · rw [hu.accepted]
    · rw [hu.accepted]
      exact h.sizes a
    · rw [hu.accepted]
      exact h.added a
    · rw [view_setRing hu.accepted]
      exact h.always i
  · exact s.setRing_all a u (C := fun b v =>
      ReaderStep (N.len b).toNat (s.rings b) v) (fun _ => .refl _) hu b
  · rw [NetState.setRing_rings_ne _ _ _
      (by rintro rfl; exact hN.apart hx hb)]
    exact .refl _
  · exact NetState.setRing_rings_ne _ _ _ (fun hba => hb (hba ▸ hx))

/-- **A writer's access.** -/
theorem Step.write (hN : N.Wired) {a : ℕ} (hx : N.Writes x a) {u : Traced}
    (hlength : u.ring.mLength = (s.rings a).ring.mLength)
    (hu : WriterStep (N.len a).toNat (s.rings a) u)
    (hsizes : ∀ m ∈ u.accepted, m ∉ (s.rings a).accepted →
      m.size < (N.len a).toNat)
    (hadded : N.Inv φ s → N.fed a → Accounts u.accepted (s.added a))
    (halways : N.Inv φ s → ∀ i, (φ i).always (N.view i (s.setRing a u))) :
    N.Step φ x s (s.setRing a u) := by
  refine ⟨fun h => ?_, fun b hb => ?_, fun b _ => ?_, fun b _ hb => ?_,
    fun _ _ => rfl, fun _ _ => rfl, fun _ _ => rfl⟩
  · refine h.setRing (hu.inv (h.rings a)) hlength hu.accepted
      (fun m hm => ?_) (hadded h) (halways h)
    by_cases hold : m ∈ (s.rings a).accepted
    · exact h.sizes a m hold
    · exact hsizes m hm hold
  · rw [NetState.setRing_rings_ne _ _ _
      (by rintro rfl; exact hN.apart hb hx)]
    exact .refl _
  · exact s.setRing_all a u (C := fun b v =>
      WriterStep (N.len b).toNat (s.rings b) v) (fun _ => .refl _) hu b
  · exact NetState.setRing_rings_ne _ _ _ (fun hba => hb (hba ▸ hx))

end Parties

end Network
