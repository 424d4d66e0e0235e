import Kucomms.Messages
import Kucomms.ReaderWriter

/-!
# `message_queue_test`

The test of `MessageQueueTest.cpp`: a reader and a writer on one ring. It
draws 128 messages with random lengths and data, adds them with
`add_callback`, gets them and compares, adds them with `add`, and gets and
compares them again; and all that 16384 times, with messages that get longer
and shorter, so that they end anywhere in the ring.

`messageQueueTest_passes`: the test returns `true`, whatever `rand` returns.
The memory for the buffers and the messages is granted: the test does not
catch the exception that `resize` throws when it is not.

One round of adding and getting is proved for any messages that fit in the
ring together (`addAllCallback_run`, `addAll_run` and `getAll_run`), by the
refinement of `Kucomms.ReaderWriter`; the rest is that those of the test do.
-/

open Prog

namespace QueueTest

/-! ## The constants -/

/-- `BUFFER_SIZE` -/
def bufferSize : UInt64 := 1024 * 1024

/-- `MSGLIST_SIZE` -/
def msglistSize : ℕ := 128

/-- `LENGTH_MIN` -/
def lengthMin : ℕ := 1024

/-- `LENGTH_RANGE` -/
def lengthRange : ℕ := 1024

/-- `NUM_LOOPS` -/
def numLoops : ℕ := 1024 * 16

/-! ## What the test does -/

/-- The actions of the test. -/
inductive TestAct where
  /-- An access to the ring. -/
  | ring (a : QAct)
  /-- `rand()` -/
  | rand

/-- The answer to an action. -/
@[reducible] def TestAct.Res : TestAct → Type
  | .ring a => a.Res
  | .rand => ℕ

/-- **The memory of the test**: the ring, and what `rand` is going to
return. -/
structure TestMemory where
  ring : MessageQueueHeader
  rand : ℕ → ℕ

/-- What an action does. -/
def TestAct.exec : (a : TestAct) → TestMemory → a.Res × TestMemory
  | .ring a, s => ((a.exec s.ring).1, { s with ring := (a.exec s.ring).2 })
  | .rand, s => (s.rand 0, { s with rand := fun n => s.rand (n + 1) })

/-- A part of the test. -/
abbrev TestProg : Type → Type := Prog TestAct TestAct.Res

/-- What a class does to the ring. -/
def onRing {α : Type} (p : QProg α) : TestProg α :=
  p.embed TestAct.ring (fun _ r => r)

/-- `rand()` -/
def randInt : TestProg ℕ := .act .rand .ret

/-! ## The messages -/

/-- `DataMessage::init` of a length, in the buffer of a message: `resize` keeps
the bytes that are there, and the header is filled in. -/
def init (m : DataMessage) (dataLength : UInt64) : DataMessage :=
  .make dataLength 0 0 0 m.mData

/-- A store to a byte of `get_data()`. -/
def setData (m : DataMessage) (k : ℕ) (b : UInt8) : DataMessage :=
  .make m.mLength m.mType m.mId m.mUserValue (Function.update m.mData k b)

/-- The loop that stores random data: `n` bytes from the `u2`-th on. -/
def fillData : ℕ → ℕ → DataMessage → TestProg DataMessage
  | 0, _, m => return m
  | n + 1, u2, m => do
    let r ← randInt
    fillData n (u2 + 1) (setData m u2 (UInt8.ofNat (r % 256)))

/-- A message of the list drawn anew. -/
def drawMessage (m : DataMessage) : TestProg DataMessage := do
  let r ← randInt
  let dataLength := lengthMin + r % lengthRange
  fillData dataLength 0 (init m (UInt64.ofNat dataLength))

/-- The loop that draws the messages of the list. -/
def drawMessages : List DataMessage → TestProg (List DataMessage)
  | [] => return []
  | m :: ms => do
    let m ← drawMessage m
    let ms ← drawMessages ms
    return m :: ms

/-! ## Adding and getting -/

/-- The loop that adds the messages `ms` of the list with `add_callback`, by a
`TestInitMessage` whose `m_index` is `mIndex`. The handler advances the index
when it has written a message; when none is added the test ends. -/
def addAllCallback (msglist : List DataMessage) :
    List DataMessage → ℕ → MessageQueueWriter →
    QProg (Bool × ℕ × MessageQueueWriter)
  | [], mIndex, mqwr => return (true, mIndex, mqwr)
  | m :: ms, mIndex, mqwr => do
    let msg := msglist.getD mIndex .empty
    match ← mqwr.addCallback (testInitMessage msg.mem) m.mem.mLength true with
    | none => return (false, mIndex, mqwr)
    | some x =>
      if x.1 = false then
        return (false, mIndex, x.2)
      else
        addAllCallback msglist ms ((mIndex + 1) % msglist.length) x.2

/-- The loop that adds the messages `ms` with `add`. -/
def addAll : List DataMessage → QProg Bool
  | [] => return true
  | m :: ms => do
    let ok ← messageQueueAdd m.mem
    if ok = false then
      return false
    else
      addAll ms

/-- `memcmp(…) == 0` -/
def memcmpEq (p q : Bytes) (n : ℕ) : Bool := decide (∀ k < n, p k = q k)

/-- The loop that gets messages and compares them with `ms`. -/
def getAll : List DataMessage → MessageQueueReader →
    QProg (Bool × MessageQueueReader)
  | [], mqrd => return (true, mqrd)
  | m :: ms, mqrd => do
    match ← mqrd.get true with
    | none => return (false, mqrd)
    | some (none, mqrd) => return (false, mqrd)
    | some (some message, mqrd) =>
      if memcmpEq message m.mem m.size = false then
        return (false, mqrd)
      else
        getAll ms mqrd

/-! ## The test -/

/-- What the test keeps from one round to the next. -/
structure Locals where
  msglist : List DataMessage
  mIndex : ℕ
  mqrd : MessageQueueReader
  mqwr : MessageQueueWriter

/-- The main loop: `n` rounds. -/
def rounds : ℕ → Locals → TestProg Bool
  | 0, _ => return true
  | n + 1, l => do
    let msglist ← drawMessages l.msglist
    let x ← onRing (addAllCallback msglist msglist l.mIndex l.mqwr)
    if x.1 = false then
      return false
    else
      let y ← onRing (getAll msglist l.mqrd)
      if y.1 = false then
        return false
      else
        let ok ← onRing (addAll msglist)
        if ok = false then
          return false
        else
          let z ← onRing (getAll msglist y.2)
          if z.1 = false then
            return false
          else
            rounds n ⟨msglist, x.2.1, z.2, x.2.2⟩

/-- **`message_queue_test`** -/
def messageQueueTest : TestProg Bool := do
  let _ok ← onRing (messageQueueInit bufferSize)
  rounds numLoops
    ⟨List.replicate msglistSize .empty, 0, ⟨.empty⟩, ⟨.empty⟩⟩

/-! ## The messages that are drawn -/

/-- A part of the test that only accesses the ring. -/
theorem onRing_run {α : Type} (p : QProg α) (s : TestMemory) :
    (onRing p).run TestAct.exec s
      = ((p.run QAct.exec s.ring).1,
        { s with ring := (p.run QAct.exec s.ring).2 }) := by
  induction p generalizing s with
  | ret v => rfl
  | act a k ih => exact ih _ _

/-- A message of the test. -/
def Drawn (m : DataMessage) : Prop :=
  m.size < lengthMin + lengthRange + 32

theorem fillData_run (n u2 : ℕ) (m : DataMessage) (s : TestMemory) :
    ((fillData n u2 m).run TestAct.exec s).1.size = m.size
      ∧ ((fillData n u2 m).run TestAct.exec s).2.ring = s.ring := by
  induction n generalizing u2 m s with
  | zero => exact ⟨rfl, rfl⟩
  | succ n ih =>
    obtain ⟨hsize, hring⟩ := ih (u2 + 1)
      (setData m u2 (UInt8.ofNat (s.rand 0 % 256)))
      { s with rand := fun n => s.rand (n + 1) }
    refine ⟨hsize.trans ?_, hring⟩
    rw [setData, DataMessage.size_make, m.size_eq]
    rfl

/-- A message drawn is not too long. -/
theorem drawMessage_run (m : DataMessage) (s : TestMemory) :
    ∃ m' s', (drawMessage m).run TestAct.exec s = (m', s') ∧ Drawn m'
      ∧ s'.ring = s.ring := by
  have hlt : lengthMin + s.rand 0 % lengthRange < lengthMin + lengthRange :=
    Nat.add_lt_add_left (Nat.mod_lt _ (by decide)) _
  obtain ⟨hsize, hring⟩ := fillData_run (lengthMin + s.rand 0 % lengthRange) 0
    (init m (UInt64.ofNat (lengthMin + s.rand 0 % lengthRange)))
    { s with rand := fun n => s.rand (n + 1) }
  refine ⟨_, _, rfl, ?_, hring⟩
  rw [init, DataMessage.size_make,
    UInt64.toNat_ofNat_of_lt' (hlt.trans (by decide))] at hsize
  exact hsize.trans_lt (Nat.add_lt_add_right hlt 32)

/-- **The messages drawn** are as many as the list has, none of them is too
long, and the ring is as it was. -/
theorem drawMessages_run (ms : List DataMessage) (s : TestMemory) :
    ∃ ms' s', (drawMessages ms).run TestAct.exec s = (ms', s')
      ∧ ms'.length = ms.length ∧ (∀ m ∈ ms', Drawn m) ∧ s'.ring = s.ring := by
  induction ms generalizing s with
  | nil => exact ⟨[], s, rfl, rfl, List.forall_mem_nil _, rfl⟩
  | cons m ms ih =>
    obtain ⟨m', t, hrun, hm, hring⟩ := drawMessage_run m s
    obtain ⟨ms', s', hrun', hlen, hms, hring'⟩ := ih t
    refine ⟨m' :: ms', s', ?_, congrArg (· + 1) hlen,
      List.forall_mem_cons.mpr ⟨hm, hms⟩, hring'.trans hring⟩
    unfold drawMessages
    rw [run_bind, hrun, run_bind, hrun']
    rfl

/-- So all of them fit in the ring together. -/
theorem used_le_of_drawn {ms : List DataMessage} (hdrawn : ∀ m ∈ ms, Drawn m) :
    used ms ≤ ms.length * (lengthMin + lengthRange + 31) := by
  induction ms with
  | nil => exact Nat.zero_le _
  | cons m ms ih =>
    obtain ⟨hm, hms⟩ := List.forall_mem_cons.mp hdrawn
    have := ih hms
    rw [used_cons, List.length_cons, Nat.succ_mul]
    unfold Drawn at hm
    omega

/-! ## A round -/

section Round

variable {queueLength : UInt64} {h : MessageQueueHeader}
  {mqrd : MessageQueueReader} {mqwr : MessageQueueWriter} {f : Fifo DataMessage}
  {ms rest : List DataMessage} {m : DataMessage}

theorem used_push : used (f.push m).records = used f.records + m.size := by
  rw [Fifo.push, used_append, used_cons]
  exact congrArg (used f.records + ·) (Nat.add_zero _)

section

variable (hL : 0 < queueLength.toNat ∧ queueLength.toNat < 2 ^ 63)
  (hs : QueueEnds.Holds queueLength ⟨h, mqrd, mqwr⟩ f)

include hL hs

/-- The FIFO has room: a message that a handler writes is added. -/
theorem addCallback_room
    (hroom : used f.records + m.size < queueLength.toNat) :
    ∃ mqwr' h', (mqwr.addCallback (testInitMessage m.mem) m.mem.mLength
        true).run QAct.exec h = (some (true, mqwr'), h')
      ∧ QueueEnds.Holds queueLength ⟨h', mqrd, mqwr'⟩ (f.push m) := by
  have hfifo : Fifo.step DataMessage.size queueLength.toNat (.add m) f
      = (.added true, f.push m) :=
    if_pos (by rw [Abstracts.inUse_eq]; omega)
  have hrefines : (EndCall.addCallback (testInitMessage m.mem) m true).Refines
      queueLength ⟨h, mqrd, mqwr⟩ f :=
    EndCall.addCallback_refines hL (by omega) (testInitMessage_writes m.mem) hs
  obtain ⟨hans, hleft⟩ := hrefines.answers ⟨by omega, rfl⟩
  simp only [EndCall.fifoOp, hfifo, EndCall.step, EndCall.prog, run_bind,
    pure_eq_ret, run_ret] at hans hleft
  generalize (mqwr.addCallback (testInitMessage m.mem) m.mem.mLength true).run
    QAct.exec h = x at hans hleft
  obtain ⟨x, h'⟩ := x
  cases x with
  | none => exact absurd hans.symm (Option.some_ne_none _)
  | some x =>
    obtain ⟨ok, mqwr'⟩ := x
    obtain rfl : ok = true := by injection Option.some.inj hans
    exact ⟨mqwr', h', rfl, hleft⟩

/-- So is one that is copied. -/
theorem add_room (hroom : used f.records + m.size < queueLength.toNat) :
    ∃ h', (messageQueueAdd m.mem).run QAct.exec h = (true, h')
      ∧ QueueEnds.Holds queueLength ⟨h', mqrd, mqwr⟩ (f.push m) := by
  have hfifo : Fifo.step DataMessage.size queueLength.toNat (.add m) f
      = (.added true, f.push m) :=
    if_pos (by rw [Abstracts.inUse_eq]; omega)
  have hrefines : (EndCall.add m).Refines queueLength ⟨h, mqrd, mqwr⟩ f :=
    EndCall.refines hL (.add m) _ f (show m.size < 2 ^ 64 by omega) hs
  obtain ⟨hans, hleft⟩ := hrefines.answers trivial
  simp only [EndCall.fifoOp, hfifo, EndCall.step, EndCall.prog, run_bind,
    pure_eq_ret, run_ret] at hans hleft
  generalize (messageQueueAdd m.mem).run QAct.exec h = x at hans hleft
  obtain ⟨ok, h'⟩ := x
  obtain rfl : ok = true := by injection Option.some.inj hans
  exact ⟨h', rfl, hleft⟩

/-- The FIFO has a record: it is what the pointer shows. -/
theorem get_head (hf : f.records = m :: rest) :
    ∃ message mqrd' h', (mqrd.get true).run QAct.exec h
        = (some (some message, mqrd'), h')
      ∧ memcmpEq message m.mem m.size = true
      ∧ QueueEnds.Holds queueLength ⟨h', mqrd', mqwr⟩
        (f.pop DataMessage.size queueLength.toNat m rest) := by
  have hfifo := hs.ring.get_all (le_refl queueLength.toNat)
  have hrefines : (EndCall.get true).Refines queueLength ⟨h, mqrd, mqwr⟩ f :=
    EndCall.get_refines hL hs
  obtain ⟨hans, hleft⟩ := hrefines.answers rfl
  simp only [EndCall.fifoOp] at hans hleft
  rw [hfifo] at hans hleft
  simp only [EndCall.step, EndCall.prog, run_bind, pure_eq_ret, run_ret, hf,
    List.head?_cons] at hans hleft
  generalize (mqrd.get true).run QAct.exec h = x at hans hleft
  obtain ⟨x, h'⟩ := x
  cases x with
  | none => exact absurd hans.symm (Option.some_ne_none _)
  | some x =>
    obtain ⟨shown, mqrd'⟩ := x
    injection Option.some.inj hans with hm
    obtain ⟨message, rfl, rfl⟩ := Option.map_eq_some_iff.mp hm
    refine ⟨message, mqrd', h', rfl, ?_, hleft⟩
    exact decide_eq_true (fun k hk => (DataMessage.mem_ofMem hk).symm)

/-- **Adding all messages of the list** with a handler, which ends where it
started. -/
theorem addAllCallback_run {msglist pre : List DataMessage}
    (hlist : msglist = pre ++ ms)
    (hroom : used f.records + used ms < queueLength.toNat) :
    ∃ mqwr' h', (addAllCallback msglist ms (pre.length % msglist.length)
        mqwr).run QAct.exec h = ((true, 0, mqwr'), h')
      ∧ QueueEnds.Holds queueLength ⟨h', mqrd, mqwr'⟩
        { f with records := f.records ++ ms } := by
  induction ms generalizing h mqwr f pre with
  | nil =>
    rw [List.append_nil] at hlist ⊢
    subst hlist
    exact ⟨mqwr, h, by rw [Nat.mod_self]; rfl, hs⟩
  | cons m ms ih =>
    rw [used_cons] at hroom
    -- the index of the handler is the one of the loop
    have hlt : pre.length < msglist.length := by
      rw [hlist, List.length_append, List.length_cons]
      omega
    have hmsg : msglist.getD (pre.length % msglist.length) .empty = m := by
      rw [Nat.mod_eq_of_lt hlt, hlist, List.getD_eq_getElem?_getD,
        List.getElem?_append_right le_rfl, Nat.sub_self]
      rfl
    obtain ⟨mqwr₁, h₁, hrun₁, hs₁⟩ := addCallback_room (m := m) hL hs
      (by omega)
    obtain ⟨mqwr₂, h₂, hrun₂, hs₂⟩ := ih hs₁
      (show msglist = (pre ++ [m]) ++ ms by rw [hlist, List.append_assoc]; rfl)
      (by rw [used_push]; omega)
    rw [List.length_append, List.length_singleton] at hrun₂
    rw [Fifo.push, List.append_assoc] at hs₂
    refine ⟨mqwr₂, h₂, ?_, hs₂⟩
    unfold addAllCallback
    rw [hmsg, run_bind, hrun₁]
    show (addAllCallback msglist ms ((pre.length % msglist.length + 1)
      % msglist.length) mqwr₁).run QAct.exec h₁ = _
    rw [Nat.mod_add_mod]
    exact hrun₂

/-- **Adding all messages of the list.** -/
theorem addAll_run (hroom : used f.records + used ms < queueLength.toNat) :
    ∃ h', (addAll ms).run QAct.exec h = (true, h')
      ∧ QueueEnds.Holds queueLength ⟨h', mqrd, mqwr⟩
        { f with records := f.records ++ ms } := by
  induction ms generalizing h f with
  | nil => exact ⟨h, rfl, by rw [List.append_nil]; exact hs⟩
  | cons m ms ih =>
    rw [used_cons] at hroom
    obtain ⟨h₁, hrun₁, hs₁⟩ := add_room (m := m) hL hs (by omega)
    obtain ⟨h₂, hrun₂, hs₂⟩ := ih hs₁ (by rw [used_push]; omega)
    rw [Fifo.push, List.append_assoc] at hs₂
    refine ⟨h₂, ?_, hs₂⟩
    unfold addAll
    rw [run_bind, hrun₁]
    exact hrun₂

/-- **Getting as many messages as are compared.** -/
theorem getAll_run (hf : f.records = ms ++ rest) :
    ∃ mqrd' h' rd, (getAll ms mqrd).run QAct.exec h = ((true, mqrd'), h')
      ∧ QueueEnds.Holds queueLength ⟨h', mqrd', mqwr⟩ ⟨rd, rest⟩ := by
  induction ms generalizing h mqrd f with
  | nil =>
    rw [List.nil_append] at hf
    subst hf
    exact ⟨mqrd, h, f.rd, rfl, hs⟩
  | cons m ms ih =>
    obtain ⟨message, mqrd₁, h₁, hrun₁, hcmp, hs₁⟩ := get_head hL hs hf
    obtain ⟨mqrd₂, h₂, rd, hrun₂, hs₂⟩ := ih hs₁ rfl
    refine ⟨mqrd₂, h₂, rd, ?_, hs₂⟩
    unfold getAll
    rw [run_bind, hrun₁]
    show (if memcmpEq message m.mem m.size = false then _ else _ :
      QProg (Bool × MessageQueueReader)).run QAct.exec h₁ = _
    rw [hcmp, run_ite, if_neg (by decide)]
    exact hrun₂

end

end Round

/-! ## All rounds -/

/-- **Between two rounds**: nothing is in the ring, and the handler is going
to start with the first message. -/
structure Idle (l : Locals) (s : TestMemory) : Prop where
  ends : ∃ rd, QueueEnds.Holds (messageQueueGetQueueLength bufferSize)
    ⟨s.ring, l.mqrd, l.mqwr⟩ ⟨rd, []⟩
  length : l.msglist.length = msglistSize
  index : l.mIndex = 0

theorem queueLength_eq :
    (messageQueueGetQueueLength bufferSize).toNat = 1024 * 1024 - 32 := by
  decide

/-- **Any number of rounds.** -/
theorem rounds_run (n : ℕ) {l : Locals} {s : TestMemory} (h : Idle l s) :
    ((rounds n l).run TestAct.exec s).1 = true := by
  have hL : 0 < (messageQueueGetQueueLength bufferSize).toNat
      ∧ (messageQueueGetQueueLength bufferSize).toNat < 2 ^ 63 := by
    rw [queueLength_eq]
    decide
  induction n generalizing l s with
  | zero => rfl
  | succ n ih =>
    obtain ⟨⟨rd, hends⟩, hlength, hindex⟩ := h
    obtain ⟨msglist, t, hdraw, hlen, hdrawn, hring⟩ :=
      drawMessages_run l.msglist s
    rw [hlength] at hlen
    rw [← hring] at hends
    have hroom : used [] + used msglist
        < (messageQueueGetQueueLength bufferSize).toNat := by
      have hused := used_le_of_drawn hdrawn
      rw [hlen] at hused
      rw [queueLength_eq]
      exact (Nat.zero_add _).trans_lt (hused.trans_lt (by decide))
    -- the four loops of the round
    obtain ⟨mqwr, h₁, hrun₁, hs₁⟩ := addAllCallback_run hL hends
      (show msglist = [] ++ msglist from rfl) hroom
    obtain ⟨mqrd, h₂, rd₂, hrun₂, hs₂⟩ := getAll_run hL hs₁
      (show _ = msglist ++ [] from (List.append_nil _).symm)
    obtain ⟨h₃, hrun₃, hs₃⟩ := addAll_run hL hs₂ hroom
    obtain ⟨mqrd', h₄, rd₄, hrun₄, hs₄⟩ := getAll_run hL hs₃
      (show _ = msglist ++ [] from (List.append_nil _).symm)
    rw [List.length_nil, Nat.zero_mod] at hrun₁
    unfold rounds
    simp only [run_bind, hdraw, onRing_run, hindex, hrun₁, hrun₂, hrun₃, hrun₄,
      Bool.true_eq_false, if_false]
    exact ih (s := ⟨h₄, t.rand⟩) ⟨⟨rd₄, hs₄⟩, hlen, rfl⟩

/-- **`message_queue_test` returns `true`**, whatever `rand` returns and
whatever was in the memory of the ring. -/
theorem messageQueueTest_passes (s : TestMemory) :
    (messageQueueTest.run TestAct.exec s).1 = true := by
  unfold messageQueueTest
  rw [run_bind, onRing_run]
  refine rounds_run numLoops ⟨⟨0, ?_⟩, List.length_replicate, rfl⟩
  exact QueueEnds.Holds.init (by decide) (by decide)
    ⟨s.ring, ⟨.empty⟩, ⟨.empty⟩⟩

end QueueTest
