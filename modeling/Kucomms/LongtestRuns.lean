import Kucomms.Longtest

/-!
# The long test finds no errors

`Longtest.longtest_compares`: while no addition has failed, and the sequence
numbers of the program have not started again, neither the module nor the
program has ever counted a comparison error – however their handlers run
into each other, and wherever the messages straddle the ends of the rings.
A comparison error that the long test does report is thus the consequence of
a message that was lost, or the library is not what is in the repository.

The proof is one for each side (`deviceProof`, `processProof`), of a
sequential program. What a side assumes of the message that comes next
(`Due`) is what the other side was proved to send: a message comes back to
where it came from, since `echo` of the one is about the messages that `due`
of the other is about.
-/

open Prog

namespace Longtest

/-! ## Types of messages -/

/-- The messages of a type. -/
def ofType (t : UInt64) (ms : List DataMessage) : List DataMessage :=
  ms.filter (fun m => m.mType = t)

section OfType

variable {t : UInt64} {m : DataMessage} {ms ms' : List DataMessage}

theorem ofType_concat_self (h : m.mType = t) :
    ofType t (ms ++ [m]) = ofType t ms ++ [m] := by
  unfold ofType
  rw [List.filter_append, List.filter_cons_of_pos (by simpa using h),
    List.filter_nil]

theorem ofType_concat_of_ne (h : m.mType ≠ t) :
    ofType t (ms ++ [m]) = ofType t ms := by
  unfold ofType
  rw [List.filter_append, List.filter_cons_of_neg (by simpa using h),
    List.filter_nil, List.append_nil]

theorem ofType_mono (h : ms <+: ms') : ofType t ms <+: ofType t ms' :=
  h.filter _

end OfType

/-- The message that extends a prefix. -/
theorem getElem?_of_concat_prefix {M : Type} {xs ys : List M} {m : M}
    (h : xs ++ [m] <+: ys) : ys[xs.length]? = some m := by
  obtain ⟨rest, rfl⟩ := h
  rw [List.append_assoc, List.getElem?_append_right le_rfl, Nat.sub_self]
  rfl

/-! ## What both sides keep to -/

/-- **Variables that are not counted up** on the way: all but the counters
that are printed and never looked at. -/
structure Globals.Same (g g' : Globals) : Prop where
  wr : g'.sequenceWr = g.sequenceWr
  rd : g'.sequenceRd = g.sequenceRd
  kept : g'.idToMessage = g.idToMessage
  compared : g'.messageCompareErrorCount = g.messageCompareErrorCount
  added : g'.messageAddErrorCount = g.messageAddErrorCount

theorem Globals.Same.trans {g g' g'' : Globals} (h : g.Same g')
    (h' : g'.Same g'') : g.Same g'' :=
  ⟨h'.wr.trans h.wr, h'.rd.trans h.rd, h'.kept.trans h.kept,
    h'.compared.trans h.compared, h'.added.trans h.added⟩

/-- **What always holds** of the side that sends back the messages of type
`t`. -/
structure Always (t : UInt64) (l : Local Globals) : Prop where
  compared : l.memory.messageCompareErrorCount = 0
  types : ∀ m ∈ l.added, m.mType = 0 ∨ m.mType = 1
  echo : ofType t l.added <+: ofType t l.given

/-- **What a side expects** of the next message: if it is one of its own, of
the type `t`, then all before it have come back. -/
structure Due (t : UInt64) (l : Local Globals) (m : DataMessage) : Prop where
  size : m.size < 2 ^ 64
  type : m.mType = 0 ∨ m.mType = 1
  due : m.mType = t → ofType t l.given ++ [m] <+: ofType t l.added

namespace Always

variable {t : UInt64} {l : Local Globals} {m : DataMessage}

theorem handle (h : Always t l) (m : DataMessage) :
    Always t (l.handle 0 m) := by
  refine ⟨h.compared, h.types, h.echo.trans (ofType_mono ?_)⟩
  rw [Local.given_handle]
  exact List.prefix_append ..

theorem setMemory (h : Always t l) {g : Globals}
    (hg : g.messageCompareErrorCount = 0) : Always t (l.setMemory g) :=
  ⟨hg, h.types, h.echo⟩

theorem types_send (h : Always t l) (hm : m.mType = 0 ∨ m.mType = 1) :
    ∀ m' ∈ (l.send 0 m).added, m'.mType = 0 ∨ m'.mType = 1 := by
  intro m' hm'
  rw [Local.added_send, List.mem_append, List.mem_singleton] at hm'
  obtain hm' | rfl := hm'
  · exact h.types m' hm'
  · exact hm

/-- **A message of its own** is sent. -/
theorem send_own (h : Always t l) (hm : m.mType = 0 ∨ m.mType = 1)
    (hne : m.mType ≠ t) : Always t (l.send 0 m) := by
  refine ⟨h.compared, h.types_send hm, ?_⟩
  rw [Local.added_send, ofType_concat_of_ne hne]
  exact h.echo

end Always

section Rules

variable {t : UInt64} {n : ℕ} {C : Globals → Prop} {l : Local Globals}
  {m : DataMessage}

/-- Variables are changed, but no comparison error is counted. -/
theorem modify_wp {f : Globals → Globals} (h : Always t l)
    (hf : (f l.memory).messageCompareErrorCount
      = l.memory.messageCompareErrorCount) :
    (modifyMemory f).Wp (handlerSpec n C (Always t))
      (fun _ l' => C (f l.memory) ∧ Always t l'
        ∧ l' = l.setMemory (f l.memory)) l := by
  have hset : Always t (l.setMemory (f l.memory)) :=
    h.setMemory (hf.trans h.compared)
  refine (modifyMemory_wp h (fun _ => hset)).mono ?_
  rintro _ l' ⟨hC, rfl⟩
  exact ⟨hC, hset, rfl⟩

/-- **A counter is increased.** -/
theorem count_wp {f : Globals → Globals} (h : Always t l)
    (hf : ∀ g : Globals, g.Same (f g)) :
    (modifyMemory f).Wp (handlerSpec n C (Always t))
      (fun _ l' => ∃ g, l.memory.Same g ∧ l' = l.setMemory g
        ∧ Always t (l.setMemory g)) l := by
  refine (modify_wp h (hf _).compared).mono ?_
  rintro _ l' ⟨-, hl', rfl⟩
  exact ⟨_, hf _, rfl, hl'⟩

theorem timerHlr_wp {Q : Local Globals → Prop} (now : UInt64)
    (h : Always t l) (hQ : ∀ {g}, l.memory.Same g → Q (l.setMemory g)) :
    (timerHlr now).Wp (handlerSpec n C (Always t)) (fun _ => Q) l := by
  refine (count_wp h (fun _ => by constructor <;> rfl)).mono ?_
  rintro _ _ ⟨g, hg, rfl, -⟩
  exact hQ hg

/-- **No addition has failed**, in the runs that are looked at. -/
theorem countAddError_wp {ok : Bool}
    (hC : ∀ {g}, C g → g.messageAddErrorCount = 0) (h : Always t l)
    (hadded : l.memory.messageAddErrorCount = 0) :
    (countAddError ok).Wp (handlerSpec n C (Always t))
      (fun _ l' => ok = true ∧ l' = l) l := by
  unfold countAddError
  split
  · next hok => exact Wp.alone_ret ⟨hok, rfl⟩
  · refine (modify_wp h rfl).mono ?_
    rintro _ l' ⟨hg, -⟩
    have hone : l.memory.messageAddErrorCount + 1 = 0 := hC hg
    rw [hadded] at hone
    exact nomatch hone

/-- **A message of its own** is added, and it is noted whether that failed. -/
theorem addOwn_wp {α : Type} {k : HandlerProg Globals α}
    {Q : α → Local Globals → Prop} (hn : 0 < n) (hm : m.size < 2 ^ 64)
    (hC : ∀ {g}, C g → g.messageAddErrorCount = 0) (h : Always t l)
    (hadded : l.memory.messageAddErrorCount = 0)
    (htype : m.mType = 0 ∨ m.mType = 1) (hne : m.mType ≠ t)
    (hk : Always t (l.send 0 m) →
      k.Wp (handlerSpec n C (Always t)) Q (l.send 0 m)) :
    (addMessage 0 m >>= fun ok => countAddError ok >>= fun _ => k).Wp
      (handlerSpec n C (Always t)) Q l := by
  have hsend := h.send_own htype hne
  refine Wp.bind ((addMessage_wp hn hm h hsend).mono ?_)
  rintro ok _ rfl
  have hok : Always t (if ok = true then l.send 0 m else l) := by
    split
    · exact hsend
    · exact h
  refine Wp.bind ((countAddError_wp hC hok ?_).mono ?_)
  · split
    · exact hadded
    · exact hadded
  rintro _ _ ⟨rfl, rfl⟩
  exact hk hsend

/-- **A message is sent back.** -/
theorem echoMessage_wp {received sent : Globals → Globals} (hn : 0 < n)
    (hreceived : ∀ g : Globals, g.Same (received g))
    (hsent : ∀ g : Globals, g.Same (sent g))
    (hC : ∀ {g}, C g → g.messageAddErrorCount = 0) (h : Always t l)
    (hadded : l.memory.messageAddErrorCount = 0)
    (htype : m.mType = 0 ∨ m.mType = 1)
    (hecho : ofType t (l.added ++ [m]) <+: ofType t l.given) :
    (echoMessage received sent).Wp (msghlrSpec n m C (Always t))
      (fun _ l' => ∃ g, l.memory.Same g ∧ l' = (l.send 0 m).setMemory g
        ∧ Always t ((l.send 0 m).setMemory g)) l := by
  refine Wp.bind ((Wp.inMsghlr (count_wp h hreceived)).mono ?_)
  rintro _ _ ⟨g, hg, rfl, hl⟩
  have hforward : Always t ((l.setMemory g).send 0 m) := by
    refine ⟨hl.compared, hl.types_send htype, ?_⟩
    rw [Local.added_send]
    exact hecho
  refine Wp.bind ((forwardMessage_wp hn hl hforward).mono ?_)
  rintro ok _ rfl
  have hok : Always t (if ok = true
      then (l.setMemory g).send 0 m else l.setMemory g) := by
    split
    · exact hforward
    · exact hl
  refine Wp.bind ((Wp.inMsghlr (countAddError_wp hC hok ?_)).mono ?_)
  · split
    · exact hg.added.trans hadded
    · exact hg.added.trans hadded
  rintro _ _ ⟨rfl, rfl⟩
  refine Wp.bind ((Wp.inMsghlr (count_wp hforward hsent)).mono ?_)
  rintro _ _ ⟨g', hg', rfl, hl'⟩
  exact Wp.alone_ret ⟨g', hg.trans hg', rfl, hl'⟩

end Rules

/-! ## The module -/

/-- The messages of the module, from the first on. -/
def moduleMessages (n : ℕ) : List DataMessage :=
  (List.range n).map (fun i => moduleMessage (.ofNat i))

/-- **What the module keeps to.** -/
structure DeviceInv (l : Local Globals) : Prop where
  always : Always 0 l
  added : l.memory.messageAddErrorCount = 0
  /-- All messages of the program have been sent back. -/
  echo : ofType 0 l.added = ofType 0 l.given
  own : ofType 1 l.added = moduleMessages (ofType 1 l.added).length
  wr : l.memory.sequenceWr = .ofNat (ofType 1 l.added).length
  returned : ofType 1 l.given <+: ofType 1 l.added
  rd : l.memory.sequenceRd = .ofNat (ofType 1 l.given).length

/-- No addition of the module fails. -/
def DeviceWithin (g : Globals) : Prop := g.messageAddErrorCount = 0

theorem moduleMessages_succ (n : ℕ) : moduleMessages (n + 1)
    = moduleMessages n ++ [moduleMessage (.ofNat n)] := by
  unfold moduleMessages
  rw [List.range_succ, List.map_append]
  rfl

theorem moduleMessages_getElem? {n i : ℕ} {m : DataMessage}
    (h : (moduleMessages n)[i]? = some m) : m = moduleMessage (.ofNat i) := by
  obtain ⟨hi, rfl⟩ := List.getElem?_eq_some_iff.mp h
  simp [moduleMessages]

/-- A byte, and what it is stored from. -/
theorem toUInt64_lowByte (v : UInt64) :
    (v % 256).toUInt8.toUInt64 = v % 256 := by
  have hlt : (v % 256).toNat < 256 := by
    rw [UInt64.toNat_mod]
    exact Nat.mod_lt _ (by decide)
  rw [← UInt64.toNat_inj, UInt8.toNat_toUInt64, UInt64.toNat_toUInt8,
    Nat.mod_eq_of_lt hlt]

/-- **The data are compared** with what they are. -/
theorem compareData_wp {C : Globals → Prop} {I : Local Globals → Prop}
    {l : Local Globals} {m : DataMessage} {value : UInt64} {k u0 n : ℕ}
    (hn : 32 + u0 + n ≤ m.size)
    (hdata : ∀ j, u0 ≤ j → j < u0 + n → (m.mData j).toUInt64 = value)
    (hI : I l) :
    (compareData value u0 n).Wp (msghlrSpec k m C I)
      (fun same l' => same = true ∧ l' = l) l := by
  induction n generalizing u0 with
  | zero => exact Wp.alone_ret ⟨rfl, rfl⟩
  | succ n ih =>
    refine Wp.bind ((messageByte_wp (by omega) hI).mono ?_)
    rintro _ l ⟨rfl, rfl⟩
    refine Wp.if_neg (not_not.mpr (hdata u0 le_rfl (by omega))) ?_
    exact ih (by omega) (fun j hj hjn => hdata j (by omega) (by omega))

section Device

variable {l : Local Globals} {m : DataMessage}

theorem DeviceInv.setMemory (h : DeviceInv l) {g : Globals}
    (hg : l.memory.Same g) : DeviceInv (l.setMemory g) :=
  ⟨h.always.setMemory (hg.compared.trans h.always.compared),
    hg.added.trans h.added, h.echo, h.own, hg.wr.trans h.wr, h.returned,
    hg.rd.trans h.rd⟩

/-- **A message of the program** has been sent back. -/
theorem DeviceInv.sendBack (h : DeviceInv l) (hm : m.mType = 0)
    (halways : Always 0 ((l.handle 0 m).send 0 m)) :
    DeviceInv ((l.handle 0 m).send 0 m) := by
  have hne : m.mType ≠ 1 := by
    rw [hm]
    decide
  refine ⟨halways, h.added, ?_, ?_, ?_, ?_, ?_⟩ <;>
    simp only [Local.added_send, Local.added_handle, Local.given_send,
      Local.given_handle, Local.memory_send, Local.memory_handle,
      ofType_concat_self hm, ofType_concat_of_ne hne]
  · rw [h.echo]
  · exact h.own
  · exact h.wr
  · exact h.returned
  · exact h.rd

/-- The message of the module that is due. -/
theorem DeviceInv.due (h : DeviceInv l) (hm : Due 1 l m)
    (htype : m.mType = 1) : m = moduleMessage l.memory.sequenceRd := by
  have hget := getElem?_of_concat_prefix (hm.due htype)
  rw [h.own] at hget
  rw [h.rd]
  exact moduleMessages_getElem? hget

/-- **It has come back.** -/
theorem DeviceInv.comeBack (h : DeviceInv l) (hm : Due 1 l m)
    (htype : m.mType = 1) :
    DeviceInv ((l.handle 0 m).setMemory
      { l.memory with sequenceRd := l.memory.sequenceRd + 1 }) := by
  have hne : m.mType ≠ 0 := by
    rw [htype]
    decide
  refine ⟨(h.always.handle m).setMemory h.always.compared, h.added, ?_,
    h.own, h.wr, ?_, ?_⟩
  · rw [Local.given_setMemory, Local.given_handle, ofType_concat_of_ne hne]
    exact h.echo
  · rw [Local.given_setMemory, Local.given_handle, ofType_concat_self htype]
    exact hm.due htype
  · rw [Local.given_setMemory, Local.given_handle, ofType_concat_self htype,
      List.length_append, UInt64.ofNat_add, ← h.rd]
    rfl

/-- The message handler of the module. -/
theorem kucommsMessageHlr_wp (h : DeviceInv l) (hm : Due 1 l m) :
    kucommsMessageHlr.Wp (msghlrSpec 1 m DeviceWithin (Always 0))
      (fun _ => DeviceInv) (l.handle 0 m) := by
  refine Wp.bind ((Wp.inMsghlr (count_wp (h.always.handle m)
    (fun _ => by constructor <;> rfl))).mono ?_)
  rintro _ _ ⟨g, hg, rfl, hl⟩
  refine Wp.bind ((mType_wp hl).mono ?_)
  rintro _ _ ⟨rfl, rfl⟩
  by_cases htype : m.mType = 0
  · refine Wp.if_pos htype ((echoMessage_wp Nat.one_pos
      (fun _ => by constructor <;> rfl) (fun _ => by constructor <;> rfl)
      ?_ hl (hg.added.trans h.added) hm.type ?_).mono ?_)
    · exact fun hg => hg
    · rw [Local.given_setMemory, Local.given_handle,
        ofType_concat_self htype, ofType_concat_self htype, ← h.echo]
      exact List.prefix_rfl
    rintro _ _ ⟨g', hg', rfl, hl'⟩
    have hback := hl'.setMemory (g := l.memory) h.always.compared
    exact (h.sendBack htype hback).setMemory (hg.trans hg')
  have htype1 : m.mType = 1 := hm.type.resolve_left htype
  have hdue := h.due hm htype1
  refine Wp.if_neg htype (Wp.bind ((Wp.inMsghlr (count_wp hl
    (fun _ => by constructor <;> rfl))).mono ?_))
  rintro _ _ ⟨g', hg', rfl, hl'⟩
  refine Wp.bind ((mId_wp hl').mono ?_)
  rintro _ _ ⟨rfl, rfl⟩
  refine Wp.bind ((Wp.inMsghlr (loadMemory_wp hl')).mono ?_)
  rintro g' _ ⟨rfl, rfl⟩
  have hrd : g'.sequenceRd = l.memory.sequenceRd := (hg.trans hg').rd
  have hid : m.mId = g'.sequenceRd := by
    rw [hdue, hrd]
    exact DataMessage.mId_make ..
  have hlength : m.mLength = g'.sequenceRd % 2048 := by
    rw [hdue, hrd]
    exact DataMessage.mLength_make ..
  refine Wp.if_neg (not_not.mpr hid) (Wp.bind ((mLength_wp hl').mono ?_))
  rintro _ _ ⟨rfl, rfl⟩
  refine Wp.if_neg (not_not.mpr hlength) (Wp.bind
    ((compareData_wp ?_ (fun j _ hj => ?_) hl').mono ?_))
  · rw [m.size_eq, ← hlength]
    show 32 + 0 + m.mLength.toNat ≤ m.mLength.toNat + 32
    omega
  · rw [← hrd] at hdue
    rw [hdue, moduleMessage, DataMessage.mData_make _ _ _ _ _ (by omega)]
    exact toUInt64_lowByte _
  rintro _ _ ⟨rfl, rfl⟩
  refine Wp.if_neg (fun hc => Bool.false_ne_true hc.symm) (Wp.bind
    ((Wp.inMsghlr (modify_wp hl' (by rfl))).mono ?_))
  rintro _ _ ⟨-, -, rfl⟩
  have hback := (h.comeBack hm htype1).setMemory
    (g := { g' with sequenceRd := g'.sequenceRd + 1 })
    ⟨(hg.trans hg').wr, congrArg (· + 1) hrd, (hg.trans hg').kept,
      (hg.trans hg').compared, (hg.trans hg').added⟩
  exact Wp.alone_ret hback

/-- **The next message of the module** has been sent. -/
theorem DeviceInv.sendNext (h : DeviceInv l)
    (halways : Always 0 (l.send 0 (moduleMessage l.memory.sequenceWr))) :
    DeviceInv ((l.send 0 (moduleMessage l.memory.sequenceWr)).setMemory
      { l.memory with sequenceWr := l.memory.sequenceWr + 1 }) := by
  have htype : (moduleMessage l.memory.sequenceWr).mType = 1 :=
    DataMessage.mType_make ..
  have hne : (moduleMessage l.memory.sequenceWr).mType ≠ 0 := by
    rw [htype]
    decide
  refine ⟨halways.setMemory h.always.compared, h.added, ?_, ?_, ?_, ?_,
    h.rd⟩ <;> simp only [Local.added_setMemory, Local.added_send,
      Local.given_setMemory, Local.given_send, Local.memory_setMemory,
      ofType_concat_self htype, ofType_concat_of_ne hne, List.length_append,
      List.length_singleton]
  · exact h.echo
  · rw [moduleMessages_succ, ← h.own, ← h.wr]
  · rw [UInt64.ofNat_add, ← h.wr]
    rfl
  · exact h.returned.trans (List.prefix_append ..)

/-- The work handler of the module. -/
theorem kucommsWorkHlr_wp (h : DeviceInv l) :
    kucommsWorkHlr.Wp (handlerSpec 1 DeviceWithin (Always 0))
      (fun _ => DeviceInv) l := by
  refine Wp.bind ((loadMemory_wp h.always).mono ?_)
  rintro _ l ⟨rfl, rfl⟩
  by_cases hfirst : l.memory.firstMessageReceived = false
  · exact Wp.if_pos hfirst (Wp.alone_ret h)
  have htype : (moduleMessage l.memory.sequenceWr).mType = 1 :=
    DataMessage.mType_make ..
  refine Wp.if_neg hfirst (addOwn_wp Nat.one_pos ?_ (fun hg => hg) h.always
    h.added (.inr htype) ?_ (fun hsend => ?_))
  · rw [moduleMessage, DataMessage.size_make, UInt64.toNat_mod]
    have := Nat.mod_lt l.memory.sequenceWr.toNat
      (show (2048 : UInt64).toNat > 0 by decide)
    have : (2048 : UInt64).toNat = 2048 := rfl
    omega
  · rw [htype]
    decide
  refine Wp.bind ((count_wp hsend (fun _ => by constructor <;> rfl)).mono ?_)
  rintro _ _ ⟨g, hg, rfl, hl⟩
  refine Wp.bind ((modify_wp hl (by rfl)).mono ?_)
  rintro _ _ ⟨-, -, rfl⟩
  have hwr : g.sequenceWr = l.memory.sequenceWr := hg.wr
  have hnext := (h.sendNext hsend).setMemory
    (g := { g with sequenceWr := g.sequenceWr + 1 })
    ⟨congrArg (· + 1) hwr, hg.rd, hg.kept, hg.compared, hg.added⟩
  exact Wp.alone_ret hnext

end Device

/-! ## The program -/

/-- **What the program keeps to.** -/
structure ProcessInv (l : Local Globals) : Prop where
  always : Always 1 l
  added : l.memory.messageAddErrorCount = 0
  room : l.memory.sequenceWr ≠ 0xffffffffffffffff
  /-- All messages of the module have been sent back. -/
  echo : ofType 1 l.added = ofType 1 l.given
  ids : ∀ (i : ℕ) (m : DataMessage), (ofType 0 l.added)[i]? = some m →
    m.mId = UInt64.ofNat i
  wr : l.memory.sequenceWr.toNat = (ofType 0 l.added).length
  returned : ofType 0 l.given <+: ofType 0 l.added
  rd : l.memory.sequenceRd = .ofNat (ofType 0 l.given).length
  /-- What is under way is in the map. -/
  kept : ∀ (i : ℕ) (m : DataMessage), (ofType 0 l.given).length ≤ i →
    (ofType 0 l.added)[i]? = some m →
    l.memory.idToMessage (.ofNat i) = m.bytes

/-- No addition of the program fails, and its sequence numbers do not start
again. -/
def ProcessWithin (g : Globals) : Prop :=
  g.messageAddErrorCount = 0 ∧ g.sequenceWr ≠ 0xffffffffffffffff

/-- **The bytes are compared** with what they are. -/
theorem memcmpMessage_wp {C : Globals → Prop} {I : Local Globals → Prop}
    {l : Local Globals} {m : DataMessage} {buf : List UInt8} {n k : ℕ}
    (hk : k + buf.length ≤ m.size)
    (hbuf : ∀ j < buf.length, buf[j]? = some (m.mem (k + j))) (hI : I l) :
    (memcmpMessage buf k).Wp (msghlrSpec n m C I)
      (fun same l' => same = true ∧ l' = l) l := by
  induction buf generalizing k with
  | nil => exact Wp.alone_ret ⟨rfl, rfl⟩
  | cons b buf ih =>
    rw [List.length_cons] at hk hbuf
    refine Wp.bind ((messageByte_wp (by omega) hI).mono ?_)
    rintro _ l ⟨rfl, rfl⟩
    have hbyte : b = m.mem k := Option.some.inj (hbuf 0 (Nat.succ_pos _))
    refine Wp.if_neg (not_not.mpr hbyte) (ih (by omega) (fun j hj => ?_))
    rw [Nat.add_assoc, Nat.add_comm 1, ← List.getElem?_cons_succ]
    exact hbuf (j + 1) (by omega)

/-- The data are whatever they are. -/
theorem randomData_wp {n : ℕ} {C : Globals → Prop} {I : Local Globals → Prop}
    {l : Local Globals} (hI : I l) (k u0 : ℕ) (data : Bytes) :
    (randomData u0 k data).Wp (handlerSpec n C I)
      (fun _ l' => l' = l) l := by
  induction k generalizing u0 data with
  | zero => exact Wp.alone_ret rfl
  | succ k ih =>
    refine Wp.bind ((randInt_wp hI).mono ?_)
    rintro r l rfl
    exact ih _ _

section Process

variable {l : Local Globals} {m : DataMessage}

theorem ProcessInv.setMemory (h : ProcessInv l) {g : Globals}
    (hg : l.memory.Same g) : ProcessInv (l.setMemory g) := by
  refine ⟨h.always.setMemory (hg.compared.trans h.always.compared),
    hg.added.trans h.added, ?_, h.echo, h.ids, ?_, h.returned,
    hg.rd.trans h.rd, fun i m hi hm => ?_⟩
  · rw [Local.memory_setMemory, hg.wr]
    exact h.room
  · rw [Local.memory_setMemory, hg.wr]
    exact h.wr
  · rw [Local.memory_setMemory, hg.kept]
    exact h.kept i m hi hm

/-- **A message of the module** has been sent back. -/
theorem ProcessInv.sendBack (h : ProcessInv l) (hm : m.mType = 1)
    (halways : Always 1 ((l.handle 0 m).send 0 m)) :
    ProcessInv ((l.handle 0 m).send 0 m) := by
  have hne : m.mType ≠ 0 := by
    rw [hm]
    decide
  refine ⟨halways, h.added, h.room, ?_, ?_, ?_, ?_, ?_, ?_⟩ <;>
    simp only [Local.added_send, Local.added_handle, Local.given_send,
      Local.given_handle, Local.memory_send, Local.memory_handle,
      ofType_concat_self hm, ofType_concat_of_ne hne]
  · rw [h.echo]
  · exact h.ids
  · exact h.wr
  · exact h.returned
  · exact h.rd
  · exact h.kept

/-- The message of the program that is due. -/
theorem ProcessInv.due (h : ProcessInv l) (hm : Due 0 l m)
    (htype : m.mType = 0) : m.mId = l.memory.sequenceRd
      ∧ l.memory.idToMessage l.memory.sequenceRd = m.bytes := by
  have hget := getElem?_of_concat_prefix (hm.due htype)
  rw [h.rd]
  exact ⟨h.ids _ m hget, h.kept _ m le_rfl hget⟩

/-- Sequence numbers that are in use are different. -/
theorem ProcessInv.ofNat_ne (h : ProcessInv l) {i j : ℕ} (hij : i ≠ j)
    (hi : i ≤ (ofType 0 l.added).length)
    (hj : j ≤ (ofType 0 l.added).length) : UInt64.ofNat i ≠ .ofNat j := by
  intro hc
  have hlt := l.memory.sequenceWr.toNat_lt
  rw [h.wr] at hlt
  have heq := congrArg UInt64.toNat hc
  rw [UInt64.toNat_ofNat_of_lt' (lt_of_le_of_lt hi hlt),
    UInt64.toNat_ofNat_of_lt' (lt_of_le_of_lt hj hlt)] at heq
  exact hij heq

/-- **It has come back.** -/
theorem ProcessInv.comeBack (h : ProcessInv l) (hm : Due 0 l m)
    (htype : m.mType = 0) :
    ProcessInv ((l.handle 0 m).setMemory { l.memory with
      idToMessage := Function.update l.memory.idToMessage
        l.memory.sequenceRd []
      sequenceRd := l.memory.sequenceRd + 1 }) := by
  have hne : m.mType ≠ 1 := by
    rw [htype]
    decide
  have hgiven : ofType 0 (l.handle 0 m).given = ofType 0 l.given ++ [m] := by
    rw [Local.given_handle, ofType_concat_self htype]
  refine ⟨(h.always.handle m).setMemory h.always.compared, h.added, h.room,
    ?_, h.ids, h.wr, ?_, ?_, fun i m' hi hm' => ?_⟩
  · rw [Local.given_setMemory, Local.given_handle, ofType_concat_of_ne hne]
    exact h.echo
  · rw [Local.given_setMemory, hgiven]
    exact hm.due htype
  · rw [Local.given_setMemory, hgiven, List.length_append,
      UInt64.ofNat_add, ← h.rd]
    rfl
  · rw [Local.given_setMemory, hgiven, List.length_append,
      List.length_singleton] at hi
    have hlt := (List.getElem?_eq_some_iff.mp hm').1
    have hle := h.returned.length_le
    show Function.update l.memory.idToMessage l.memory.sequenceRd [] _ = _
    rw [Function.update_of_ne (h.rd ▸ h.ofNat_ne (by omega) (le_of_lt hlt) hle)]
    exact h.kept i m' (by omega) hm'

/-- The message handler of the program. -/
theorem messageHandlerHlr_wp (h : ProcessInv l) (hm : Due 0 l m) :
    messageHandlerHlr.Wp (msghlrSpec 1 m ProcessWithin (Always 1))
      (fun _ => ProcessInv) (l.handle 0 m) := by
  have hl := h.always.handle m
  refine Wp.bind ((mType_wp hl).mono ?_)
  rintro _ _ ⟨rfl, rfl⟩
  by_cases htype : m.mType = 1
  · refine Wp.if_pos htype ((echoMessage_wp Nat.one_pos
      (fun _ => by constructor <;> rfl) (fun _ => by constructor <;> rfl)
      ?_ hl h.added hm.type ?_).mono ?_)
    · exact fun hg => hg.1
    · rw [Local.given_handle, ofType_concat_self htype,
        ofType_concat_self htype, ← h.echo]
      exact List.prefix_rfl
    rintro _ _ ⟨g, hg, rfl, hl'⟩
    have hback := hl'.setMemory (g := l.memory) h.always.compared
    exact (h.sendBack htype hback).setMemory hg
  have htype0 : m.mType = 0 := hm.type.resolve_right htype
  obtain ⟨hid, hkept⟩ := h.due hm htype0
  refine Wp.if_neg htype (Wp.bind ((Wp.inMsghlr (count_wp hl
    (fun _ => by constructor <;> rfl))).mono ?_))
  rintro _ _ ⟨g, hg, rfl, hl⟩
  refine Wp.bind ((mId_wp hl).mono ?_)
  rintro _ _ ⟨rfl, rfl⟩
  refine Wp.bind ((Wp.inMsghlr (loadMemory_wp hl)).mono ?_)
  rintro g _ ⟨rfl, rfl⟩
  have hrd : g.sequenceRd = l.memory.sequenceRd := hg.rd
  have hbuf : g.idToMessage g.sequenceRd = m.bytes := by
    rw [hrd, hg.kept]
    exact hkept
  refine Wp.if_neg (not_not.mpr (hid.trans hrd.symm))
    (Wp.bind ((mLength_wp hl).mono ?_))
  rintro _ _ ⟨rfl, rfl⟩
  have hlength : (g.idToMessage g.sequenceRd).length
      = (m.mLength + sizeofMessage).toNat := by
    rw [hbuf]
    exact (m.toNat_messageSize hm.size).symm
  refine Wp.if_neg (not_not.mpr hlength)
    (Wp.bind ((memcmpMessage_wp ?_ (fun j hj => ?_) hl).mono ?_))
  · rw [hbuf, Nat.zero_add]
    exact le_rfl
  · rw [hbuf] at hj ⊢
    rw [List.getElem?_eq_getElem hj, Nat.zero_add, m.mem_eq hj]
  rintro _ _ ⟨rfl, rfl⟩
  refine Wp.if_neg (fun hc => Bool.false_ne_true hc.symm) (Wp.bind
    ((Wp.inMsghlr (modify_wp hl (by rfl))).mono ?_))
  rintro _ _ ⟨-, hl, rfl⟩
  refine Wp.bind ((Wp.inMsghlr (modify_wp hl (by rfl))).mono ?_)
  rintro _ _ ⟨-, -, rfl⟩
  have hback := (h.comeBack hm htype0).setMemory (g := { g with
      idToMessage := Function.update g.idToMessage g.sequenceRd []
      sequenceRd := g.sequenceRd + 1 })
    ⟨hg.wr, congrArg (· + 1) hrd, by
      rw [hrd, hg.kept]
      rfl, hg.compared, hg.added⟩
  exact Wp.alone_ret hback

/-- **A message of the program** has been kept and sent. -/
theorem ProcessInv.sendNext (h : ProcessInv l) (htype : m.mType = 0)
    (hid : m.mId = l.memory.sequenceWr)
    (hroom : l.memory.sequenceWr + 1 ≠ 0xffffffffffffffff)
    (halways : Always 1 (l.send 0 m)) :
    ProcessInv ((l.send 0 m).setMemory { l.memory with
      idToMessage := Function.update l.memory.idToMessage
        l.memory.sequenceWr m.bytes
      sequenceWr := l.memory.sequenceWr + 1 }) := by
  have hne : m.mType ≠ 1 := by
    rw [htype]
    decide
  have hwr : l.memory.sequenceWr = .ofNat (ofType 0 l.added).length := by
    rw [← h.wr, UInt64.ofNat_toNat]
  have hadded : ofType 0 (l.send 0 m).added = ofType 0 l.added ++ [m] := by
    rw [Local.added_send, ofType_concat_self htype]
  have hnew : ∀ {i : ℕ} {m' : DataMessage},
      (ofType 0 l.added ++ [m])[i]? = some m' →
        (ofType 0 l.added)[i]? = some m' ∨ i = (ofType 0 l.added).length
          ∧ m' = m := by
    intro i m' hi
    obtain hlt | hge := Nat.lt_or_ge i (ofType 0 l.added).length
    · rw [List.getElem?_append_left hlt] at hi
      exact .inl hi
    · rw [List.getElem?_append_right hge, List.getElem?_singleton] at hi
      obtain ⟨hzero, hm'⟩ := Option.ite_none_right_eq_some.mp hi
      exact .inr ⟨by omega, (Option.some.inj hm').symm⟩
  have hsucc : (l.memory.sequenceWr + 1).toNat
      = l.memory.sequenceWr.toNat + 1 := by
    have hlt := l.memory.sequenceWr.toNat_lt
    have hlast : l.memory.sequenceWr.toNat ≠ 2 ^ 64 - 1 :=
      fun hc => h.room (UInt64.toNat_inj.mp hc)
    rw [UInt64.toNat_add, show (1 : UInt64).toNat = 1 from rfl,
      Nat.mod_eq_of_lt (by omega)]
  refine ⟨halways.setMemory h.always.compared, h.added, hroom, ?_,
    fun i m' hi => ?_, ?_, ?_, h.rd, fun i m' hi hm' => ?_⟩
  · rw [Local.added_setMemory, Local.added_send, ofType_concat_of_ne hne]
    exact h.echo
  · rw [Local.added_setMemory, hadded] at hi
    obtain hi | ⟨rfl, rfl⟩ := hnew hi
    · exact h.ids i m' hi
    · rw [hid, hwr]
  · rw [Local.added_setMemory, hadded, List.length_append, ← h.wr]
    exact hsucc
  · rw [Local.added_setMemory, hadded]
    exact h.returned.trans (List.prefix_append ..)
  · rw [Local.added_setMemory, hadded] at hm'
    show Function.update l.memory.idToMessage _ m.bytes _ = _
    obtain hm' | ⟨rfl, rfl⟩ := hnew hm'
    · have hlt := (List.getElem?_eq_some_iff.mp hm').1
      rw [Function.update_of_ne (hwr ▸ h.ofNat_ne (by omega) (by omega) le_rfl)]
      exact h.kept i m' hi hm'
    · rw [hwr, Function.update_self]

/-- A message of the program is of type 0, and has the id it is given. -/
theorem formatMessage_wp {n : ℕ} {C : Globals → Prop}
    {I : Local Globals → Prop} (hI : I l) (dataLength id : UInt64) :
    (formatMessage dataLength id).Wp (handlerSpec n C I)
      (fun msg l' => l' = l
        ∧ ∃ data, msg = .make dataLength 0 id 0 data) l := by
  refine Wp.bind ((randomData_wp hI _ _ _).mono ?_)
  rintro data l rfl
  exact Wp.alone_ret ⟨rfl, data, rfl⟩

theorem sendRandom_wp (h : ProcessInv l) :
    sendRandom.Wp (handlerSpec 1 ProcessWithin (Always 1))
      (fun _ => ProcessInv) l := by
  refine Wp.bind ((randInt_wp h.always).mono ?_)
  rintro r l rfl
  refine Wp.bind ((loadMemory_wp h.always).mono ?_)
  rintro _ l ⟨rfl, rfl⟩
  refine Wp.bind ((formatMessage_wp h.always _ _).mono ?_)
  rintro msg l ⟨rfl, data, hmsg⟩
  have htype : msg.mType = 0 := hmsg ▸ DataMessage.mType_make ..
  have hid : msg.mId = l.memory.sequenceWr := hmsg ▸ DataMessage.mId_make ..
  have hsize : msg.size < 2 ^ 64 := by
    rw [hmsg, DataMessage.size_make, UInt64.toNat_ofNat']
    omega
  refine Wp.bind ((modify_wp h.always (by rfl)).mono ?_)
  rintro _ _ ⟨-, hl, rfl⟩
  refine addOwn_wp Nat.one_pos hsize (fun hg => hg.1) hl h.added
    (.inl htype) (by rw [htype]; decide) (fun hsend => ?_)
  refine Wp.bind ((count_wp hsend (fun _ => by constructor <;> rfl)).mono ?_)
  rintro _ _ ⟨g, hg, rfl, hl'⟩
  refine (modify_wp hl' (by rfl)).mono ?_
  rintro _ _ ⟨hwithin, -, rfl⟩
  have hwr : g.sequenceWr = l.memory.sequenceWr := hg.wr
  have hroom : l.memory.sequenceWr + 1 ≠ 0xffffffffffffffff :=
    hwr ▸ hwithin.2
  have halways := hsend.setMemory (g := l.memory) h.always.compared
  exact (h.sendNext htype hid hroom halways).setMemory
    (g := { g with sequenceWr := g.sequenceWr + 1 })
    ⟨congrArg (· + 1) hwr, hg.rd, hg.kept, hg.compared, hg.added⟩

theorem sendRandoms_wp (n : ℕ) (h : ProcessInv l) :
    (sendRandoms n).Wp (handlerSpec 1 ProcessWithin (Always 1))
      (fun _ => ProcessInv) l := by
  induction n generalizing l with
  | zero => exact Wp.alone_ret h
  | succ n ih => exact Wp.bind ((sendRandom_wp h).mono (fun _ _ h => ih h))

/-- The work handler of the program. -/
theorem workHandlerHlr_wp (h : ProcessInv l) :
    workHandlerHlr.Wp (handlerSpec 1 ProcessWithin (Always 1))
      (fun _ => ProcessInv) l :=
  Wp.bind ((sendRandoms_wp 4 h).mono (fun _ _ h => Wp.alone_ret h))

end Process

/-! ## The two of them -/

section Network

variable {hz vaddrLen : UInt64} {vaddr : ℕ}

/-- The proof of the module. -/
def deviceProof (hz : UInt64) (vaddr : ℕ) (vaddrLen : UInt64) :
    NodeProof ((network hz vaddr vaddrLen).node .device) where
  within := DeviceWithin
  expects l _ := Due 1 l
  always := Always 0
  between := DeviceInv
  always_of h := h.always
  handle {l k m} hk h _ := by
    obtain rfl : k = 0 := Nat.lt_one_iff.mp hk
    exact h.always.handle m
  msghlr {l k m} hk h hm := by
    obtain rfl : k = 0 := Nat.lt_one_iff.mp hk
    exact kucommsMessageHlr_wp h hm
  workhlr h := kucommsWorkHlr_wp h
  timerhlr now h := timerHlr_wp now h.always h.setMemory

/-- The proof of the program. -/
def processProof (hz : UInt64) (vaddr : ℕ) (vaddrLen : UInt64) :
    NodeProof ((network hz vaddr vaddrLen).node .process) where
  within := ProcessWithin
  expects l _ := Due 0 l
  always := Always 1
  between := ProcessInv
  always_of h := h.always
  handle {l k m} hk h _ := by
    obtain rfl : k = 0 := Nat.lt_one_iff.mp hk
    exact h.always.handle m
  msghlr {l k m} hk h hm := by
    obtain rfl : k = 0 := Nat.lt_one_iff.mp hk
    rw [show ((network hz vaddr vaddrLen).node .process).msghlr 0
      = messageHandlerHlr from peerNetwork_msghlr]
    exact messageHandlerHlr_wp h hm
  workhlr h := workHandlerHlr_wp h
  timerhlr now h := timerHlr_wp now h.always h.setMemory

/-- The proofs of both. -/
def proofs (hz : UInt64) (vaddr : ℕ) (vaddrLen : UInt64) :
    (i : Peer) → NodeProof ((network hz vaddr vaddrLen).node i)
  | .device => deviceProof hz vaddr vaddrLen
  | .process => processProof hz vaddr vaddrLen

/-- Each ring has one of them at each end. -/
theorem network_wired (hlen : 66 ≤ vaddrLen.toNat) :
    (network hz vaddr vaddrLen).Wired :=
  peerNetwork_wired hlen rfl rfl

/-- **What comes next is due**: of the type that the other side sends back,
it sends only what it was given by this one. -/
theorem Due.of_always {t : UInt64} {l l' : Local Globals} {m : DataMessage}
    (h' : Always t l') (hl : l.given <+: l'.added) (hl' : l'.given <+: l.added)
    (hm : l'.added[l.given.length]? = some m)
    (hsizes : ∀ m ∈ l'.added, m.size < 2 ^ 64) :
    Due t l m := by
  obtain ⟨hlt, rfl⟩ := List.getElem?_eq_some_iff.mp hm
  have hmem : l'.added[l.given.length] ∈ l'.added := List.getElem_mem hlt
  refine ⟨hsizes _ hmem, h'.types _ hmem, fun htype => ?_⟩
  rw [← ofType_concat_self htype]
  exact ((ofType_mono (List.concat_get_prefix hl hlt)).trans h'.echo).trans
    (ofType_mono hl')

/-- The pair of a side, and that of the other. -/
theorem network_fits : (network hz vaddr vaddrLen).Fits
    (proofs hz vaddr vaddrLen) := by
  intro s i k q m hs hq hm
  have hsizes : ∀ a, ∀ m ∈ (s.rings a).accepted, m.size < 2 ^ 64 :=
    fun a m hm => (hs.sizes a m hm).trans (UInt64.toNat_lt _)
  cases i with
  | device =>
    obtain ⟨rfl, rfl⟩ : k = 0 ∧ q = (vaddr, vaddr + (vaddrLen / 2).toNat) := by
      obtain ⟨hk, rfl⟩ := List.getElem?_eq_some_iff.mp hq
      obtain rfl : k = 0 := Nat.lt_one_iff.mp hk
      exact ⟨rfl, rfl⟩
    have hother : Always 1 ((network hz vaddr vaddrLen).view .process s) :=
      hs.always .process
    exact .of_always hother (hs.handled .device 0 _ rfl)
      (hs.handled .process 0 _ rfl) hm (hsizes _)
  | process =>
    obtain ⟨rfl, rfl⟩ : k = 0 ∧ q = (vaddr + (vaddrLen / 2).toNat, vaddr) := by
      obtain ⟨hk, rfl⟩ := List.getElem?_eq_some_iff.mp hq
      obtain rfl : k = 0 := Nat.lt_one_iff.mp hk
      exact ⟨rfl, rfl⟩
    have hother : Always 0 ((network hz vaddr vaddrLen).view .device s) :=
      hs.always .device
    exact .of_always hother (hs.handled .process 0 _ rfl)
      (hs.handled .device 0 _ rfl) hm (hsizes _)

theorem within_iff {s : NetState Peer Globals} :
    (network hz vaddr vaddrLen).Within (proofs hz vaddr vaddrLen) s
      ↔ NothingLost s :=
  ⟨fun h => ⟨h .device, h .process⟩, fun h i => by
    cases i with
    | device => exact h.1
    | process => exact h.2⟩

end Network

/-- **The long test finds no errors** that are not those of lost messages:
whatever runs when, as long as nothing was lost, neither side has counted a
comparison error; and between the calls of its handlers each has compared as
many messages as its sequence number says, the first of those that it
sent. -/
theorem longtest_compares {hz vaddrLen : UInt64} {vaddr : ℕ}
    (hlen : 66 ≤ vaddrLen.toNat) {mem : ℕ → MessageQueueHeader}
    {x : (network hz vaddr vaddrLen).machine.Conf}
    (hx : Machine.ReachWhile _ (fun z => NothingLost z.st)
      (Machine.start _ ((network hz vaddr vaddrLen).start mem fun _ => .init))
      x) :
    (∀ i, (x.st.node i).memory.messageCompareErrorCount = 0)
      ∧ (x.pc (.node .device) = none →
        (x.st.node .device).memory.sequenceRd
          = .ofNat (ofType 1 (handledFrom (x.st.node .device).handled 0)).length
        ∧ ofType 1 (handledFrom (x.st.node .device).handled 0) <+: ofType 1
          (x.st.rings (vaddr + (vaddrLen / 2).toNat)).accepted)
      ∧ (x.pc (.node .process) = none →
        (x.st.node .process).memory.sequenceRd
          = .ofNat (ofType 0 (handledFrom (x.st.node .process).handled 0)).length
        ∧ ofType 0 (handledFrom (x.st.node .process).handled 0) <+: ofType 0
          (x.st.rings vaddr).accepted) := by
  have hstart : ∀ i, (proofs hz vaddr vaddrLen i).between
      ⟨.init, [], fun _ => [], (network hz vaddr vaddrLen).txLen i⟩ := by
    intro i
    have hnone : ∀ m ∈ ([] : List DataMessage), m.mType = 0 ∨ m.mType = 1 :=
      fun _ hm => nomatch hm
    cases i with
    | device =>
      exact ⟨⟨rfl, hnone, List.prefix_rfl⟩, rfl, rfl, rfl, rfl,
        List.prefix_rfl, rfl⟩
    | process =>
      exact ⟨⟨rfl, hnone, List.prefix_rfl⟩, rfl,
        show Globals.init.sequenceWr ≠ _ by decide, rfl,
        (fun _ _ hm => nomatch hm), rfl, List.prefix_rfl, rfl,
        (fun _ _ _ hm => nomatch hm)⟩
  have hwhile : Machine.ReachWhile _ (fun z =>
      (network hz vaddr vaddrLen).Within (proofs hz vaddr vaddrLen) z.st)
      (Machine.start _ ((network hz vaddr vaddrLen).start mem fun _ => .init))
      x := by
    simpa only [within_iff] using hx
  obtain ⟨hinv, hbetween, -⟩ := Network.reach_inv (network_wired hlen)
    (proofs hz vaddr vaddrLen) network_fits hstart hwhile
  refine ⟨fun i => ?_, fun hpc => ?_, fun hpc => ?_⟩
  · have halways := hinv.always i
    cases i with
    | device => exact halways.compared
    | process => exact halways.compared
  · have h : DeviceInv _ := hbetween .device hpc
    exact ⟨h.rd, h.returned⟩
  · have h : ProcessInv _ := hbetween .process hpc
    exact ⟨h.rd, h.returned⟩

/-- The module and the program, with room for a few messages. -/
abbrev smallNetwork : Network Peer Globals := network 1 0 704

/-- Whether nothing was lost. -/
def nothingLost (s : NetState Peer Globals) : Bool :=
  (s.node .device).memory.messageAddErrorCount = 0
    && (s.node .process).memory.messageAddErrorCount = 0
    && (s.node .process).memory.sequenceWr != 0xffffffffffffffff

/-- **A run in which a message has come back**, and was compared. -/
theorem longtest_compares_one : ∃ x : smallNetwork.machine.Conf,
    (x.st.node .process).memory.sequenceRd = 1
      ∧ ∀ i, (x.st.node i).memory.messageCompareErrorCount = 0 := by
  obtain ⟨start, hstart⟩ : ∃ start, start = Machine.start smallNetwork.machine
    (smallNetwork.start (fun _ => .zeroed) fun _ => .init) := ⟨_, rfl⟩
  have hone : ((smallNetwork.steps nothingLost [(.process, 185),
      (.device, 131), (.process, 170)] start).map fun x =>
      (x.st.node .process).memory.sequenceRd) = some 1 := by
    subst hstart
    decide +kernel
  obtain ⟨x, hx, hrd⟩ := Option.map_eq_some_iff.mp hone
  have hcheck : nothingLost start.st = true := by
    subst hstart
    rfl
  have hwhile := smallNetwork.reachWhile_of_steps hcheck hx
  have hlost : ∀ {s}, nothingLost s = true → NothingLost s := by
    intro s h
    simpa [nothingLost, NothingLost, and_assoc] using h
  subst hstart
  exact ⟨x, hrd, (longtest_compares (by decide) (hwhile.mono hlost)).1⟩

end Longtest
