import Kucomms.Echo

/-!
# A module and a program

The usual system: a device in the kernel, and a process with a
`MessageManager` that has opened it and mapped its memory, with a ring in
each half. Both have message handlers and work handlers of their own, and
nobody else uses the rings.
-/

variable {P : Type}

/-! ## One pair of rings -/

namespace Local

variable (l : Local P) (m : DataMessage)

/-- What was handled, in a node with one pair. -/
def given : List DataMessage := handledFrom l.handled 0

/-- What was sent. -/
def added : List DataMessage := l.sent 0

/-- How long the transmit ring is. -/
def room : ℕ := l.len 0

@[simp] theorem given_handle : (l.handle 0 m).given = l.given ++ [m] :=
  handledFrom_concat_self ..

@[simp] theorem added_handle : (l.handle 0 m).added = l.added := rfl

@[simp] theorem memory_handle : (l.handle 0 m).memory = l.memory := rfl

@[simp] theorem given_send : (l.send 0 m).given = l.given := rfl

@[simp] theorem added_send : (l.send 0 m).added = l.added ++ [m] := by
  show Function.update l.sent 0 (l.sent 0 ++ [m]) 0 = _
  exact Function.update_self ..

@[simp] theorem memory_send : (l.send 0 m).memory = l.memory := rfl

@[simp] theorem given_setMemory (p : P) : (l.setMemory p).given = l.given :=
  rfl

@[simp] theorem added_setMemory (p : P) : (l.setMemory p).added = l.added :=
  rfl

@[simp] theorem memory_setMemory (p : P) : (l.setMemory p).memory = p := rfl

end Local

/-! ## The two of them -/

/-- Who takes part. -/
inductive Peer where
  /-- The thread of the device, in the kernel. -/
  | device
  /-- The thread of the `MessageManager` in the process. -/
  | process
  deriving DecidableEq

/-- **A device and a process**, whose handlers are given, with the rings in
the two halves of a mapping. -/
def peerNetwork (vaddr : ℕ) (vaddrLen : UInt64) (device : Node P)
    (msghlr : MsghlrProg P Bool) (workhlr : HandlerProg P Bool)
    (timerhlr : UInt64 → HandlerProg P Unit) : Network Peer P where
  node
  | .device => device
  | .process => managerNode
      (fun _ => messageQueueGetQueueLength (vaddrLen / 2))
      [(vaddr + (vaddrLen / 2).toNat, vaddr)] (fun _ => msghlr)
      workhlr timerhlr
  bufferLength _ := vaddrLen / 2
  fed _ := False
  drained _ := False

section Network

variable {vaddr : ℕ} {vaddrLen : UInt64} {device : Node P}
  {msghlr : MsghlrProg P Bool} {workhlr : HandlerProg P Bool}
  {timerhlr : UInt64 → HandlerProg P Unit}

/-- Each ring has one of them at each end. -/
theorem peerNetwork_wired (hlen : 66 ≤ vaddrLen.toNat)
    (hbuffer : device.bufferLen = vaddrLen / 2)
    (hpairs : device.pairs = [(vaddr, vaddr + (vaddrLen / 2).toNat)]) :
    (peerNetwork vaddr vaddrLen device msghlr workhlr timerhlr).Wired := by
  have hlt := vaddrLen.toNat_lt
  have hhalf : (vaddrLen / 2).toNat = vaddrLen.toNat / 2 :=
    UInt64.toNat_div ..
  have hne : vaddr ≠ vaddr + (vaddrLen / 2).toNat := by omega
  have hlength : 32 < (vaddrLen / 2).toNat
      ∧ (vaddrLen / 2).toNat < 2 ^ 63 := by omega
  have hpair : ∀ q ∈ device.pairs, q = (vaddr, vaddr + (vaddrLen / 2).toNat) :=
    fun q hq => List.mem_singleton.mp (hpairs ▸ hq)
  refine .of_ends
    (fun a => .node (if a = vaddr then .device else .process))
    (fun a => .node (if a = vaddr then .process else .device))
    (fun _ => hlength) (fun i => ?_) (fun i => ?_) (fun i => ?_)
    (fun i q hq => ?_) (fun {x a} hx => ?_) (fun {x a} hx => ?_)
    (fun {x a} hx => ?_)
  · cases i with
    | device =>
      show device.pairs.length ≤ _
      rw [hpairs]
      exact (by decide : 1 ≤ msgmgrMsgqarraySize)
    | process => exact (by decide : 1 ≤ msgmgrMsgqarraySize)
  · cases i with
    | device =>
      show (device.pairs.map Prod.fst).Nodup
      rw [hpairs]
      exact List.pairwise_singleton ..
    | process => exact List.pairwise_singleton ..
  · cases i with
    | device =>
      show (device.pairs.map Prod.snd).Nodup
      rw [hpairs]
      exact List.pairwise_singleton ..
    | process => exact List.pairwise_singleton ..
  · cases i with
    | device =>
      show messageQueueGetQueueLength (vaddrLen / 2) ≤ device.bufferLen
      rw [hbuffer]
      exact queueLength_le hlength.1 hlength.2
    | process => exact le_maxqLength hq
  · cases x with
    | node i =>
      obtain ⟨q, hq, rfl⟩ := hx
      cases i with
      | device => rw [hpair q hq, if_pos rfl]
      | process =>
        obtain rfl := List.mem_singleton.mp hq
        rw [if_neg hne.symm]
    | producer b => exact hx.elim
    | consumer b => exact hx.2.elim
  · cases x with
    | node i =>
      obtain ⟨q, hq, rfl⟩ := hx
      cases i with
      | device => rw [hpair q hq, if_neg hne.symm]
      | process =>
        obtain rfl := List.mem_singleton.mp hq
        rw [if_pos rfl]
    | producer b => exact hx.2.elim
    | consumer b => exact hx.elim
  · cases x with
    | node i =>
      obtain ⟨q, hq, rfl⟩ := hx
      cases i with
      | device =>
        rw [hpair q hq, if_pos rfl]
        exact fun hc => by cases hc
      | process =>
        obtain rfl := List.mem_singleton.mp hq
        rw [if_neg hne.symm]
        exact fun hc => by cases hc
    | producer b => exact hx.elim
    | consumer b => exact hx.2.elim

/-- The handler of the process is called with the one writer it has. -/
theorem peerNetwork_msghlr :
    ((peerNetwork vaddr vaddrLen device msghlr workhlr timerhlr).node
      .process).msghlr 0 = msghlr :=
  managerNode_msghlr (by simp) Nat.one_pos

end Network
