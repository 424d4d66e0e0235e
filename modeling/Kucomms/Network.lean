import Kucomms.Machine
import Kucomms.Nodes
import Kucomms.RingBounds

/-!
# Managers connected by rings

The systems the library is used for: managers in different threads – one in
the kernel and one in a user process, or several in one process – each with
its handlers, connected by rings that one of them writes and another reads;
and threads without a manager, that call `MessageQueueWriter::add` and
`MessageQueueReader::get` on a ring at its open end.

A `Network` says who is there and which rings they use. `Network.machine` is
every interleaving of what they do, access by access: the turns of the
managers with their handlers inside them (`Node.turn`), and the calls of the
free producers and consumers.
-/

variable {ι P : Type}

/-- **Managers and the rings between them.** Each ring has an address, and
lies in a buffer of its own. -/
structure Network (ι P : Type) where
  node : ι → Node P
  /-- The length of the buffer that a ring was set up in. -/
  bufferLength : ℕ → UInt64
  /-- The rings that a free producer adds to. -/
  fed : ℕ → Prop
  /-- The rings that a free consumer gets from. -/
  drained : ℕ → Prop

/-- Who takes part. -/
inductive NetParty (ι : Type) where
  | node (i : ι)
  /-- The free producer of a ring. -/
  | producer (a : ℕ)
  /-- The free consumer of a ring. -/
  | consumer (a : ℕ)
  deriving DecidableEq

namespace Network

variable (N : Network ι P)

/-- The length of a ring. -/
def len (a : ℕ) : UInt64 := messageQueueGetQueueLength (N.bufferLength a)

/-- A pair of rings. -/
def ringPair (q : ℕ × ℕ) : RingPair :=
  ⟨q.1, q.2, N.bufferLength q.1, N.bufferLength q.2⟩

/-- The pairs of a node. -/
def pairs (i : ι) : List RingPair := (N.node i).pairs.map N.ringPair

/-- The manager of a node, after all its pairs have been added. -/
def msgmgr (i : ι) : MessageManagerStruct :=
  addPairs (messageManagerInit 1 2 3 4) (N.pairs i)

/-- **Who reads a ring.** -/
def Reads : NetParty ι → ℕ → Prop
  | .node i, a => ∃ q ∈ (N.node i).pairs, q.1 = a
  | .producer _, _ => False
  | .consumer b, a => b = a ∧ N.drained a

/-- **Who writes a ring.** -/
def Writes : NetParty ι → ℕ → Prop
  | .node i, a => ∃ q ∈ (N.node i).pairs, q.2 = a
  | .producer b, a => b = a ∧ N.fed a
  | .consumer _, _ => False

/-- **The rings connect the parties**: each has at most one reader and at most
one writer, who are different parties. The buffers have room for a ring, no
manager has more pairs than it has places for, and the bounce buffer of each
is as long as its longest receive ring. -/
structure Wired : Prop where
  length : ∀ a, 32 < (N.bufferLength a).toNat
    ∧ (N.bufferLength a).toNat < 2 ^ 63
  few : ∀ i, (N.node i).pairs.length ≤ msgmgrMsgqarraySize
  rx : ∀ i, ((N.node i).pairs.map Prod.fst).Nodup
  tx : ∀ i, ((N.node i).pairs.map Prod.snd).Nodup
  buffer : ∀ i, ∀ q ∈ (N.node i).pairs, N.len q.1 ≤ (N.node i).bufferLen
  reader : ∀ {x y a}, N.Reads x a → N.Reads y a → x = y
  writer : ∀ {x y a}, N.Writes x a → N.Writes y a → x = y
  apart : ∀ {x a}, N.Reads x a → ¬N.Writes x a

variable {N}

/-- **Who reads, and who writes**, named for each ring. -/
theorem Wired.of_ends (reader writer : ℕ → NetParty ι)
    (hlength : ∀ a, 32 < (N.bufferLength a).toNat
      ∧ (N.bufferLength a).toNat < 2 ^ 63)
    (hfew : ∀ i, (N.node i).pairs.length ≤ msgmgrMsgqarraySize)
    (hrx : ∀ i, ((N.node i).pairs.map Prod.fst).Nodup)
    (htx : ∀ i, ((N.node i).pairs.map Prod.snd).Nodup)
    (hbuffer : ∀ i, ∀ q ∈ (N.node i).pairs, N.len q.1 ≤ (N.node i).bufferLen)
    (hreader : ∀ {x a}, N.Reads x a → x = reader a)
    (hwriter : ∀ {x a}, N.Writes x a → x = writer a)
    (hapart : ∀ {x a}, N.Reads x a → x ≠ writer a) : N.Wired :=
  ⟨hlength, hfew, hrx, htx, hbuffer,
    fun hx hy => (hreader hx).trans (hreader hy).symm,
    fun hx hy => (hwriter hx).trans (hwriter hy).symm,
    fun hx hy => hapart hx (hwriter hy)⟩

/-- **One manager with one pair of rings**, that has free ends. -/
theorem Wired.single {N : Network Unit P} {rx tx : ℕ}
    (hpairs : (N.node ()).pairs = [(rx, tx)]) (hne : rx ≠ tx)
    (hlength : ∀ a, 32 < (N.bufferLength a).toNat
      ∧ (N.bufferLength a).toNat < 2 ^ 63)
    (hbuffer : N.len rx ≤ (N.node ()).bufferLen)
    (hfed : ∀ a, N.fed a → a = rx) (hdrained : ∀ a, N.drained a → a = tx) :
    N.Wired := by
  have hpair : ∀ i, ∀ q ∈ (N.node i).pairs, q = (rx, tx) := fun i q hq =>
    List.mem_singleton.mp (hpairs ▸ hq)
  have hreads : ∀ {x a}, N.Reads x a →
      x = .node () ∧ a = rx ∨ x = .consumer a ∧ a = tx := by
    intro x a hx
    cases x with
    | node i =>
      obtain ⟨q, hq, rfl⟩ := hx
      exact .inl ⟨rfl, by rw [hpair i q hq]⟩
    | producer b => exact hx.elim
    | consumer b =>
      obtain ⟨rfl, hb⟩ := hx
      exact .inr ⟨rfl, hdrained _ hb⟩
  refine .of_ends (fun a => if a = rx then .node () else .consumer a)
    (fun a => if a = tx then .node () else .producer a) hlength
    (fun _ => ?_) (fun _ => ?_) (fun _ => ?_) (fun i q hq => ?_)
    (fun {x a} hx => ?_) (fun {x a} hx => ?_) (fun {x a} hx => ?_)
  · rw [hpairs, List.length_singleton]
    decide
  · rw [hpairs]
    simp
  · rw [hpairs]
    simp
  · rw [hpair i q hq]
    exact hbuffer
  · obtain ⟨rfl, rfl⟩ | ⟨rfl, rfl⟩ := hreads hx
    · rw [if_pos rfl]
    · rw [if_neg hne.symm]
  · cases x with
    | node i =>
      obtain ⟨q, hq, rfl⟩ := hx
      rw [hpair i q hq, if_pos rfl]
    | producer b =>
      obtain ⟨rfl, hb⟩ := hx
      rw [hfed _ hb, if_neg hne]
    | consumer b => exact hx.elim
  · obtain ⟨rfl, rfl⟩ | ⟨rfl, rfl⟩ := hreads hx
    · rw [if_neg hne]
      exact fun hc => by cases hc
    · rw [if_pos rfl]
      exact fun hc => by cases hc

end Network

/-! ## The state -/

/-- No `message_manager_run` of the manager is under way. -/
def ManagerPhase.Stopped : ManagerPhase → Prop
  | .running _ => False
  | _ => True

/-- **What a node has of its own.** -/
structure NodeState (P : Type) where
  /-- The memory of its handlers. -/
  memory : P
  /-- The calls of its message handler: the pair, and the message. -/
  handled : List (ℕ × DataMessage)
  phase : ManagerPhase

/-- **The state of a network.** -/
structure NetState (ι P : Type) where
  /-- The rings, with their histories. -/
  rings : ℕ → Traced
  node : ι → NodeState P
  /-- The messages that free consumers have got. -/
  got : ℕ → List DataMessage
  /-- The messages that free producers have added: those that they gave to an
  `add` that has returned true. -/
  added : ℕ → List DataMessage

/-- The message at the write index, around the end of the ring: what a store
of `m_wr` publishes. -/
def publishes (L : ℕ) (h : MessageQueueHeader) : DataMessage :=
  DataMessage.ofMem (fun k => h.mQueue ((h.mWr.toNat + k) % L))

namespace NetState

/-- The message a pointer shows. -/
def shown (s : NetState ι P) : MessagePtr → DataMessage
  | .ring msgq slot => DataMessage.ofMem ((s.rings msgq).ring.slot slot)
  | .buffer content => DataMessage.ofMem content

/-- A ring changes. -/
def setRing (s : NetState ι P) (a : ℕ) (t : Traced) : NetState ι P :=
  { s with rings := Function.update s.rings a t }

variable [DecidableEq ι]

/-- A node changes. -/
def setNode (s : NetState ι P) (i : ι) (n : NodeState P) : NetState ι P :=
  { s with node := Function.update s.node i n }

/-- Its handlers' memory. -/
def setMemory (s : NetState ι P) (i : ι) (p : P) : NetState ι P :=
  s.setNode i { s.node i with memory := p }

/-- Its message handler is called. -/
def handle (s : NetState ι P) (i : ι) (k : ℕ) (m : DataMessage) :
    NetState ι P :=
  s.setNode i { s.node i with handled := (s.node i).handled ++ [(k, m)] }

/-- Where its `message_manager_run` is. -/
def setPhase (s : NetState ι P) (i : ι) (ph : ManagerPhase) : NetState ι P :=
  s.setNode i { s.node i with phase := ph }

end NetState

/-! ## The machine -/

/-- **The calls.** -/
inductive NetCall (ι : Type) where
  /-- `message_manager_run` of a node, up to its loop. -/
  | enter (i : ι) (buffer : Bytes)
  /-- A turn of its loop. -/
  | turn (i : ι) (l : RunLocals)
  /-- `MessageQueueWriter::add` of a message to a ring. -/
  | add (a : ℕ) (m : DataMessage)
  /-- `MessageQueueReader::get` on a ring. -/
  | get (a : ℕ) (buffer : Bytes) (bufferLen : UInt64)

/-- What a call returns. -/
@[reducible] def NetCall.Ret : NetCall ι → Type
  | .enter _ _ => RunLocals
  | .turn _ _ => TurnEnd
  | .add _ _ => Bool
  | .get _ _ _ => GetResult

/-- The actions of a node's thread that no one else can see, and that look at
nothing the model has. -/
def MgrAct.Unseen : MgrAct → Prop
  | .ring _ _ | .msghlr _ _ _ _ _ => False
  | _ => True

namespace Network

variable (N : Network ι P)

/-- The programs. -/
def prog : (c : NetCall ι) → NodeProg P c.Ret
  | .enter i buffer => (N.node i).enter (N.msgmgr i) buffer
  | .turn i l => (N.node i).turn (N.msgmgr i) l
  | .add a m => ((messageQueueAdd m.mem).at a).inNode
  | .get a buffer bufferLen => ((messageQueueGet buffer bufferLen).at a).inNode

/-- Who may call what when: a manager that has stopped may be started again,
as `MessageManager::start` does after `stop`. A message is memory with
`m_length` data bytes, which is shorter than the address space. -/
def May (s : NetState ι P) : NetParty ι → NetCall ι → Prop
  | .node i, .enter j _ => i = j ∧ (s.node i).phase.Stopped
  | .node i, .turn j l => i = j ∧ (s.node i).phase = .running l
  | .producer a, .add b m => a = b ∧ N.fed a ∧ m.size < 2 ^ 64
  | .consumer a, .get b _ _ => a = b ∧ N.drained a
  | _, _ => False

/-- **What is accepted into a ring when a call stores `m_wr`**: the message that
an `add` was given, whatever it has copied; in a turn of a manager, whose
handlers add what they like, what lies in the ring. -/
def accepts : NetCall ι → ℕ → MessageQueueHeader → DataMessage
  | .add _ m => fun _ _ => m
  | _ => fun a => publishes (N.len a).toNat

variable [DecidableEq ι]

/-- **What an action may do**, when a store of `m_wr` puts the message
`put msgq` into the ring `msgq`. -/
inductive Sem (put : ℕ → MessageQueueHeader → DataMessage) (x : NetParty ι) :
    (a : NodeAct P) → NetState ι P → a.Res → NetState ι P → Prop where
  | ring {s : NetState ι P} (msgq : ℕ) (a : QAct) :
      Sem put x (.mgr (.ring msgq a)) s ((s.rings msgq).exec (put msgq) a).1
        (s.setRing msgq ((s.rings msgq).exec (put msgq) a).2)
  | msghlr {s : NetState ι P} {i : ι} (hx : x = .node i) (u0 : ℕ)
      (message : MessagePtr) (txMsgq : ℕ) (rxLen txLen : UInt64) :
      Sem put x (.mgr (.msghlr u0 message txMsgq rxLen txLen)) s ()
        (s.handle i u0 (s.shown message))
  | unseen {s : NetState ι P} {a : MgrAct} (ha : a.Unseen) (r : a.Res) :
      Sem put x (.mgr a) s r s
  | rand {s : NetState ι P} (n : ℕ) : Sem put x .rand s n s
  | load {s : NetState ι P} {i : ι} (hx : x = .node i) :
      Sem put x .load s (s.node i).memory s
  | store {s : NetState ι P} {i : ι} (hx : x = .node i) (p : P) :
      Sem put x (.store p) s () (s.setMemory i p)

/-- What is recorded when a call returns. -/
def onRet (s : NetState ι P) : (c : NetCall ι) → c.Ret → NetState ι P
  | .enter i _, l => s.setPhase i (.running l)
  | .turn i _, .again l => s.setPhase i (.running l)
  | .turn i _, .exit ok => s.setPhase i (.returned ok)
  | .add a m, ok =>
    if ok = true then
      { s with added := Function.update s.added a (s.added a ++ [m]) }
    else s
  | .get a _ _, g =>
    if g.ok = true then
      { s with
        got := Function.update s.got a
          (s.got a ++ [DataMessage.ofMem g.buffer]) }
    else s

/-- **The network at work.** -/
def machine : Machine (NetParty ι) (NodeAct P) NodeAct.Res (NetState ι P) where
  Call := NetCall ι
  Ret := NetCall.Ret
  prog := N.prog
  may x s c := N.May s x c
  onCall _ _ s := s
  sem x c := Sem (N.accepts c) x
  onRet _ c v s := onRet s c v

end Network

/-- A ring just set up in memory with arbitrary content, for each address,
before any manager runs. -/
def Network.start (N : Network ι P) (mem : ℕ → MessageQueueHeader)
    (memory : ι → P) : NetState ι P where
  rings a := Traced.init (N.bufferLength a) (mem a)
  node i := ⟨memory i, [], .ready⟩
  got _ := []
  added _ := []
