import Kucomms.Nodes

/-!
# Proofs about handlers

A handler runs in the thread of its manager, and what it can observe is that
thread's own: its memory, the messages its message handler has been given,
and the messages it has added to its transmit rings (`Local`). Nobody else
changes any of this. So a handler is reasoned about like a sequential
program, in which adding a message succeeds or does not.

`NodeProof` is such a proof for the three handlers of a node: what holds
`between` the calls of handlers, what holds `always`, inside them as well, and
that each handler keeps to it. It may assume something of the messages that
are handled, and be about the runs in which the memory stays as it is assumed
to be. What such proofs are good for when the node is part of a network is the
matter of `Kucomms.NetworkRuns`.
-/

open Prog

variable {P α : Type}

/-- **What a node can observe of itself.** -/
structure Local (P : Type) where
  /-- The memory of its handlers. -/
  memory : P
  /-- The calls of its message handler: the pair, and the message. -/
  handled : List (ℕ × DataMessage)
  /-- The messages added to the transmit ring of each pair. -/
  sent : ℕ → List DataMessage
  /-- The lengths of these rings. -/
  len : ℕ → ℕ

/-- The messages of the calls for a pair. -/
def handledFrom (calls : List (ℕ × DataMessage)) (k : ℕ) : List DataMessage :=
  (calls.filter (fun c => c.1 = k)).map Prod.snd

namespace Local

variable (l : Local P)

/-- The message handler is called. -/
def handle (k : ℕ) (m : DataMessage) : Local P :=
  { l with handled := l.handled ++ [(k, m)] }

/-- A message has been added. -/
def send (k : ℕ) (m : DataMessage) : Local P :=
  { l with sent := Function.update l.sent k (l.sent k ++ [m]) }

/-- The handlers' memory is stored. -/
def setMemory (p : P) : Local P := { l with memory := p }

end Local

/-! ## What their actions do -/

/-- **What an action of a handler may do**: an addition may fail, but not as
long as there was room for the message and for all that was ever added. The
runs that matter may be those in which the memory stays in `C`. -/
inductive HandlerSem (C : P → Prop) :
    (a : HandlerAct P) → Local P → a.Res → Local P → Prop where
  | add {l : Local P} (k : ℕ) (m : DataMessage) (ok : Bool)
      (hfull : ok = false → l.len k ≤ used (l.sent k) + m.size) :
      HandlerSem C (.add k m) l ok (if ok = true then l.send k m else l)
  | rand {l : Local P} (n : ℕ) : HandlerSem C .rand l n l
  | load {l : Local P} : HandlerSem C .load l l.memory l
  | store {l : Local P} (p : P) (hp : C p) :
      HandlerSem C (.store p) l () (l.setMemory p)

/-- **What an action of a message handler may do**, when it was given the
message `m`. -/
inductive MsghlrSem (C : P → Prop) (m : DataMessage) :
    (a : MsghlrAct P) → Local P → a.Res → Local P → Prop where
  | field {l : Local P} (k : ℕ) : MsghlrSem C m (.field k) l (m.word k) l
  | byte {l : Local P} (k : ℕ) : MsghlrSem C m (.byte k) l (m.mem k) l
  | forward {l : Local P} (k : ℕ) (ok : Bool)
      (hfull : ok = false → l.len k ≤ used (l.sent k) + m.size) :
      MsghlrSem C m (.forward k) l ok (if ok = true then l.send k m else l)
  | own {l l' : Local P} {a : HandlerAct P} {r : a.Res}
      (h : HandlerSem C a l r l') : MsghlrSem C m (.own a) l r l'

/-- What a handler has to keep to, in a node with `n` pairs. -/
def HandlerAct.Allowed (n : ℕ) : HandlerAct P → Prop
  | .add k m => k < n ∧ m.size < 2 ^ 64
  | _ => True

/-- What a message handler has to keep to: it looks at the fields of the
header, and at the bytes that are there. -/
def MsghlrAct.Allowed (n : ℕ) (m : DataMessage) : MsghlrAct P → Prop
  | .field k => k + 8 ≤ 32
  | .byte k => k < m.size
  | .forward k => k < n
  | .own a => a.Allowed n

/-- The specification of a handler that keeps `I`. -/
abbrev handlerSpec (n : ℕ) (C : P → Prop) (I : Local P → Prop) :
    RGSpec (HandlerAct P) HandlerAct.Res (Local P) :=
  .alone (HandlerSem C) (fun a _ => a.Allowed n) I

/-- The specification of a message handler that keeps `I`. -/
abbrev msghlrSpec (n : ℕ) (m : DataMessage) (C : P → Prop)
    (I : Local P → Prop) :
    RGSpec (MsghlrAct P) MsghlrAct.Res (Local P) :=
  .alone (MsghlrSem C m) (fun a _ => a.Allowed n m) I

/-- **A proof about the handlers of a node.** -/
structure NodeProof (N : Node P) where
  /-- What is assumed of the memory: the proof is about the runs in which it
  stays so. -/
  within : P → Prop
  /-- What is assumed of a message that is handled: what the others send is
  theirs to prove. -/
  expects : Local P → ℕ → DataMessage → Prop
  /-- What holds all the time. -/
  always : Local P → Prop
  /-- What holds while no handler runs. -/
  between : Local P → Prop
  always_of : ∀ {l}, between l → always l
  /-- The message handler is called with a message. -/
  handle : ∀ {l k m}, k < N.pairs.length → between l → expects l k m →
    always (l.handle k m)
  msghlr : ∀ {l k m}, k < N.pairs.length → between l → expects l k m →
    (N.msghlr k).Wp (msghlrSpec N.pairs.length m within always)
      (fun _ => between) (l.handle k m)
  workhlr : ∀ {l}, between l →
    N.workhlr.Wp (handlerSpec N.pairs.length within always)
      (fun _ => between) l
  timerhlr : ∀ {l} (now : UInt64), between l →
    (N.timerhlr now).Wp (handlerSpec N.pairs.length within always)
      (fun _ => between) l

/-! ## Rules -/

section Rules

variable {n : ℕ} {C : P → Prop} {I : Local P → Prop} {m : DataMessage}
  {l : Local P}

theorem Wp.if_pos {A S : Type} {R : A → Type} {G : RGSpec A R S}
    {Q : α → S → Prop} {s : S} {c : Prop} [Decidable c] {p q : Prog A R α}
    (hc : c) (h : p.Wp G Q s) : (if c then p else q).Wp G Q s := by
  rwa [ite_cond_eq_true _ _ (eq_true hc)]

theorem Wp.if_neg {A S : Type} {R : A → Type} {G : RGSpec A R S}
    {Q : α → S → Prop} {s : S} {c : Prop} [Decidable c] {p q : Prog A R α}
    (hc : ¬c) (h : q.Wp G Q s) : (if c then p else q).Wp G Q s := by
  rwa [ite_cond_eq_false _ _ (eq_false hc)]

theorem addMessage_wp {k : ℕ} (hk : k < n) (hm : m.size < 2 ^ 64) (hI : I l)
    (hsend : I (l.send k m)) :
    (addMessage k m).Wp (handlerSpec n C I)
      (fun ok l' => l' = if ok = true then l.send k m else l) l := by
  refine Wp.alone_act ⟨hk, hm⟩ (fun r l' h => ?_)
  cases h with
  | add k m ok hfull =>
    refine ⟨?_, Wp.alone_ret rfl⟩
    split
    · exact hsend
    · exact hI

/-- The same where there is room. -/
theorem addMessage_room_wp {k : ℕ} (hk : k < n)
    (hroom : used (l.sent k) + m.size < l.len k) (hlen : l.len k < 2 ^ 64)
    (hsend : I (l.send k m)) :
    (addMessage k m).Wp (handlerSpec n C I)
      (fun ok l' => ok = true ∧ l' = l.send k m) l := by
  refine Wp.alone_act ⟨hk, by omega⟩ (fun r l' h => ?_)
  cases h with
  | add k m ok hfull =>
    obtain rfl : r = true := eq_true_of_ne_false fun hr =>
      absurd (hfull hr) (by omega)
    exact ⟨hsend, Wp.alone_ret ⟨rfl, rfl⟩⟩

theorem randInt_wp (hI : I l) :
    (randInt : HandlerProg P ℕ).Wp (handlerSpec n C I)
      (fun _ l' => l' = l) l := by
  refine Wp.alone_act trivial (fun r l' h => ?_)
  cases h with
  | rand n => exact ⟨hI, Wp.alone_ret rfl⟩

theorem loadMemory_wp (hI : I l) :
    (loadMemory : HandlerProg P P).Wp (handlerSpec n C I)
      (fun p l' => p = l.memory ∧ l' = l) l := by
  refine Wp.alone_act trivial (fun r l' h => ?_)
  cases h with
  | load => exact ⟨hI, Wp.alone_ret ⟨rfl, rfl⟩⟩

theorem modifyMemory_wp {f : P → P} (hI : I l)
    (h : C (f l.memory) → I (l.setMemory (f l.memory))) :
    (modifyMemory f).Wp (handlerSpec n C I)
      (fun _ l' => C (f l.memory) ∧ l' = l.setMemory (f l.memory)) l := by
  refine Wp.bind ((loadMemory_wp hI).mono ?_)
  rintro _ _ ⟨rfl, rfl⟩
  refine Wp.alone_act trivial (fun r l' hstore => ?_)
  cases hstore with
  | store p hp => exact ⟨h hp, Wp.alone_ret ⟨hp, rfl⟩⟩

/-- What a message handler does on its own account. -/
theorem Wp.inMsghlr {p : HandlerProg P α} {Q : α → Local P → Prop}
    (h : p.Wp (handlerSpec n C I) Q l) :
    (HandlerProg.inMsghlr p).Wp (msghlrSpec n m C I) Q l := by
  refine (Wp.embed (msghlrSpec n m C I) MsghlrAct.own (fun _ r => r) id
    (fun _ => True) (fun _ _ _ hsafe => hsafe) (fun a s r s' _ _ hsem => ?_)
    (fun _ _ _ hr => ⟨hr, trivial⟩) trivial h).mono (fun _ _ hq => hq.1)
  cases hsem with
  | own hsem => exact ⟨hsem, fun hg => ⟨hg, trivial⟩⟩

theorem messageField_wp {k : ℕ} (hk : k + 8 ≤ 32) (hI : I l) :
    (messageField k : MsghlrProg P UInt64).Wp (msghlrSpec n m C I)
      (fun r l' => r = m.word k ∧ l' = l) l := by
  refine Wp.alone_act hk (fun r l' h => ?_)
  cases h with
  | field k => exact ⟨hI, Wp.alone_ret ⟨rfl, rfl⟩⟩

theorem mLength_wp (hI : I l) :
    (messageField 0 : MsghlrProg P UInt64).Wp (msghlrSpec n m C I)
      (fun r l' => r = m.mLength ∧ l' = l) l := by
  have hword : m.word 0 = m.mLength := by
    unfold DataMessage.word
    simp only [Nat.zero_add]
    rfl
  exact hword ▸ messageField_wp (by decide) hI

theorem mType_wp (hI : I l) :
    (messageField DataMessage.offType : MsghlrProg P UInt64).Wp
      (msghlrSpec n m C I) (fun r l' => r = m.mType ∧ l' = l) l :=
  messageField_wp (by decide) hI

theorem mId_wp (hI : I l) :
    (messageField DataMessage.offId : MsghlrProg P UInt64).Wp
      (msghlrSpec n m C I) (fun r l' => r = m.mId ∧ l' = l) l :=
  messageField_wp (by decide) hI

theorem messageByte_wp {k : ℕ} (hk : k < m.size) (hI : I l) :
    (messageByte k : MsghlrProg P UInt8).Wp (msghlrSpec n m C I)
      (fun r l' => r = m.mem k ∧ l' = l) l := by
  refine Wp.alone_act hk (fun r l' h => ?_)
  cases h with
  | byte k => exact ⟨hI, Wp.alone_ret ⟨rfl, rfl⟩⟩

theorem forwardMessage_wp {k : ℕ} (hk : k < n) (hI : I l)
    (hsend : I (l.send k m)) :
    (forwardMessage k : MsghlrProg P Bool).Wp (msghlrSpec n m C I)
      (fun ok l' => l' = if ok = true then l.send k m else l) l := by
  refine Wp.alone_act hk (fun r l' h => ?_)
  cases h with
  | forward k ok hfull =>
    refine ⟨?_, Wp.alone_ret rfl⟩
    split
    · exact hsend
    · exact hI

/-- The same where there is room. -/
theorem forwardMessage_room_wp {k : ℕ} (hk : k < n)
    (hroom : used (l.sent k) + m.size < l.len k) (hsend : I (l.send k m)) :
    (forwardMessage k : MsghlrProg P Bool).Wp (msghlrSpec n m C I)
      (fun ok l' => ok = true ∧ l' = l.send k m) l := by
  refine Wp.alone_act hk (fun r l' h => ?_)
  cases h with
  | forward k ok hfull =>
    obtain rfl : r = true := eq_true_of_ne_false fun hr =>
      absurd (hfull hr) (by omega)
    exact ⟨hsend, Wp.alone_ret ⟨rfl, rfl⟩⟩

end Rules

/-! ## What was handled -/

theorem handledFrom_concat_self (calls : List (ℕ × DataMessage)) (k : ℕ)
    (m : DataMessage) :
    handledFrom (calls ++ [(k, m)]) k = handledFrom calls k ++ [m] := by
  unfold handledFrom
  rw [List.filter_append, List.map_append,
    List.filter_cons_of_pos (by simp)]
  rfl

theorem handledFrom_concat_of_ne (calls : List (ℕ × DataMessage)) {j k : ℕ}
    (h : k ≠ j) (m : DataMessage) :
    handledFrom (calls ++ [(k, m)]) j = handledFrom calls j := by
  unfold handledFrom
  rw [List.filter_append, List.filter_cons_of_neg (by simpa using h),
    List.filter_nil, List.append_nil]
