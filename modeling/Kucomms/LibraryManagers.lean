import Kucomms.NetworkRuns

/-!
# Managers as the library makes them

The two ways in which a manager comes about. In the kernel a device that is
opened and mapped has one pair of rings, each in one half of the mapping,
and its thread a bounce buffer as long as a half (`deviceNode`). In user
space `MessageManager` is given a list of readers and one of writers
(`managerNode`); its bounce buffer is as long as the longest of the readers'
rings, and the message handler of the user gets the writer that belongs to
the ring the message came from, which `MessageManager_MessageHandler` looks
for.
-/

open Prog

variable {P : Type}

/-! ## In the kernel -/

/-- **The thread of a device** with the rings at `rx` and `tx`, in a mapping
of `vaddrLen` bytes, and the handlers that are registered. -/
def deviceNode (hz vaddrLen : UInt64) (rx tx : ℕ)
    (msghlr : MsghlrProg P Bool) (workhlr : HandlerProg P Bool)
    (timerhlr : UInt64 → HandlerProg P Unit) : Node P where
  build := .kernel hz
  bufferLen := vaddrLen / 2
  pairs := [(rx, tx)]
  msghlr _ := msghlr
  workhlr := workhlr
  timerhlr := timerhlr

/-- A ring is shorter than the half it lies in. -/
theorem queueLength_le {bufferLength : UInt64}
    (h : 32 < bufferLength.toNat) (h' : bufferLength.toNat < 2 ^ 63) :
    messageQueueGetQueueLength bufferLength ≤ bufferLength := by
  rw [UInt64.le_iff_toNat_le, toNat_getQueueLength (by omega)]
  omega

/-! ## In user space -/

/-- `MessageManager_MessageHandler`: the handler gets the first writer of the
ring at `txMsgq`. -/
def messageManagerMessageHandler (mqlist : List ℕ)
    (hlr : ℕ → MsghlrProg P Bool) (txMsgq : ℕ) : MsghlrProg P Bool :=
  match mqlist.findIdx? (· = txMsgq) with
  | some u0 => hlr u0
  | none => return false

/-- `m_maxqLength`, when the constructor has added the pairs. -/
def maxqLength (len : ℕ → UInt64) (pairs : List (ℕ × ℕ)) : UInt64 :=
  pairs.foldl (fun maxq q => if len q.1 > maxq then len q.1 else maxq) 0

/-- **A `MessageManager`** with the rings at `pairs`, which have the lengths
`len`. -/
def managerNode (len : ℕ → UInt64) (pairs : List (ℕ × ℕ))
    (msghlr : ℕ → MsghlrProg P Bool) (workhlr : HandlerProg P Bool)
    (timerhlr : UInt64 → HandlerProg P Unit) : Node P where
  build := .user
  bufferLen := maxqLength len pairs
  pairs := pairs
  msghlr u0 := messageManagerMessageHandler (pairs.map Prod.snd) msghlr
    ((pairs.map Prod.snd).getD u0 0)
  workhlr := workhlr
  timerhlr := timerhlr

section Manager

variable {len : ℕ → UInt64} {pairs : List (ℕ × ℕ)}

theorem le_foldl_maxq (pairs : List (ℕ × ℕ)) (maxq : UInt64) :
    maxq ≤ pairs.foldl
        (fun maxq q => if len q.1 > maxq then len q.1 else maxq) maxq
      ∧ ∀ q ∈ pairs, len q.1 ≤ pairs.foldl
        (fun maxq q => if len q.1 > maxq then len q.1 else maxq) maxq := by
  induction pairs generalizing maxq with
  | nil => exact ⟨UInt64.le_refl _, (fun _ h => nomatch h)⟩
  | cons p pairs ih =>
    rw [List.foldl_cons]
    obtain ⟨hle, hmem⟩ := ih (if len p.1 > maxq then len p.1 else maxq)
    have hmax : maxq ≤ (if len p.1 > maxq then len p.1 else maxq)
        ∧ len p.1 ≤ (if len p.1 > maxq then len p.1 else maxq) := by
      split
      · next h => exact ⟨UInt64.le_of_lt h, UInt64.le_refl _⟩
      · next h => exact ⟨UInt64.le_refl _, UInt64.not_lt.mp h⟩
    refine ⟨UInt64.le_trans hmax.1 hle, fun q hq => ?_⟩
    obtain rfl | hq := List.mem_cons.mp hq
    · exact UInt64.le_trans hmax.2 hle
    · exact hmem q hq

/-- **No receive ring is longer** than the bounce buffer. -/
theorem le_maxqLength {q : ℕ × ℕ} (hq : q ∈ pairs) :
    len q.1 ≤ maxqLength len pairs :=
  (le_foldl_maxq pairs 0).2 q hq

/-- **The writer that is found** is that of the pair the message came from. -/
theorem managerNode_msghlr {msghlr : ℕ → MsghlrProg P Bool}
    {workhlr : HandlerProg P Bool} {timerhlr : UInt64 → HandlerProg P Unit}
    (htx : (pairs.map Prod.snd).Nodup) {k : ℕ} (hk : k < pairs.length) :
    (managerNode len pairs msghlr workhlr timerhlr).msghlr k = msghlr k := by
  have hlt : k < (pairs.map Prod.snd).length := by rwa [List.length_map]
  have hget : (pairs.map Prod.snd).getD k 0 = (pairs.map Prod.snd)[k] := by
    rw [List.getD_eq_getElem?_getD, List.getElem?_eq_getElem hlt]
    rfl
  have hfind : (pairs.map Prod.snd).findIdx?
      (· = (pairs.map Prod.snd).getD k 0) = some k := by
    rw [List.findIdx?_eq_some_iff_getElem]
    refine ⟨hlt, decide_eq_true hget.symm, fun j hj hc => ?_⟩
    have heq := (of_decide_eq_true hc).trans hget
    have hinj : j = k := (List.getElem?_inj (by omega) htx).mp (by
      rw [List.getElem?_eq_getElem (hj.trans hlt),
        List.getElem?_eq_getElem hlt, heq])
    omega
  show messageManagerMessageHandler _ _ _ = _
  unfold messageManagerMessageHandler
  rw [hfind]

end Manager
