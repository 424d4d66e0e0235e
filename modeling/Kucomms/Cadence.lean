import Kucomms.DeliveryMachine
import Kucomms.Gaps

/-!
# How often the work and the timer are looked after

In user space `message_manager_run` keeps one counter, of deliveries and of
idle sweeps. The work handler is called when it is a multiple of
`MSGMGR_WORK_INTERVAL` after a delivery, and in every idle sweep; the clock is
read when it is a multiple of `timer_mod`, after either.

`OnTime` is what carries the bounds: the deliveries since the last call of the
work handler are no more than the counter modulo 8, and the counted events
since the last look at the clock no more than the counter modulo `timer_mod`.
When the counter wraps around it is 0, which is a multiple of both, so that a
stretch that is cut short by it ends there.

Nothing is assumed of the rings, the handlers, the clock or `*stopped`: every
action may be answered by anything.
-/

open Prog

/-! ## What is logged -/

/-- **What is counted, and what the counts are for.** -/
inductive RunEvent where
  /-- A message is handed to the message handler. -/
  | delivery
  /-- A sweep has left nothing to read. -/
  | idle
  /-- The work handler is called. -/
  | work
  /-- The clock is read. -/
  | sample
  /-- The timer handler is called. -/
  | timer (now : UInt64)
deriving DecidableEq

namespace RunEvent

def isDelivery : RunEvent → Bool
  | delivery => true
  | _ => false

def isWork : RunEvent → Bool
  | work => true
  | _ => false

/-- The events for which the counter is advanced. -/
def isCounted : RunEvent → Bool
  | delivery | idle => true
  | _ => false

def isSample : RunEvent → Bool
  | sample => true
  | _ => false

/-- The value passed to the timer handler. -/
def time? : RunEvent → Option UInt64
  | timer now => some now
  | _ => none

end RunEvent

/-- The values passed to the timer handler, in order. -/
def timesOf (log : List RunEvent) : List UInt64 :=
  log.filterMap RunEvent.time?

/-- What an action leaves in the log. -/
def MgrAct.events : MgrAct → List RunEvent
  | .msghlr _ _ _ _ _ => [.delivery]
  | .workhlr => [.work]
  | .clock => [.sample]
  | .timerhlr now => [.timer now]
  | _ => []

/-- **The cadence**: in no stretch without a call of the work handler are more
than `MSGMGR_WORK_INTERVAL` messages delivered, in no stretch without a look
at the clock are more than `timer_mod` events counted, and the times passed to
the timer handler increase, as values of type `time_t`. -/
structure Cadence (m : MessageManagerStruct) (log : List RunEvent) :
    Prop where
  work : Gaps.Within RunEvent.isWork RunEvent.isDelivery
    msgmgrWorkInterval.toNat log
  sample : Gaps.Within RunEvent.isSample RunEvent.isCounted
    (timerMod m).toNat log
  times : (timesOf log).Pairwise (fun a b => a.toInt64 < b.toInt64)

/-! ## A turn in two parts -/

/-- How a sweep over the rings ends. -/
inductive SweepEnd where
  /-- The loop goes on. -/
  | again (l : RunLocals)
  /-- The loop is left, and `message_manager_run` returns `ok`. -/
  | exit (ok : Bool)
  /-- Nothing is left to read. -/
  | idle (s : TurnLocals)

section Parts

variable (m : MessageManagerStruct) (bufferLen : UInt64)
  (hlr : MessageHandlerProg)

/-- A turn until it is known to be idle. -/
def sweepRings (l : RunLocals) : MgrProg SweepEnd := do
  let stopped ← (.act .loadStopped .ret : MgrProg Bool)
  if stopped = true then
    return .exit true
  else
    let s ← forLoop .user m bufferLen hlr m.msgqArrayLength 0
      { l with avail := 0, error := false }
    if s.error = true then
      return .exit false
    else if s.avail ≠ 0 then
      return .again s.toRunLocals
    else
      return .idle s

/-- The rest of a turn. -/
def afterSweep : SweepEnd → MgrProg TurnEnd
  | .again l => return .again l
  | .exit ok => return .exit ok
  | .idle s => idleEnd .user m s

/-- **A turn is a sweep and what follows it.** -/
theorem messageManagerTurn_eq_sweep (l : RunLocals) :
    messageManagerTurn .user m bufferLen hlr l
      = sweepRings m bufferLen hlr l >>= afterSweep m := by
  rw [messageManagerTurn_eq]
  refine congrArg (act MgrAct.loadStopped) (funext (fun stopped => ?_))
  show _ = (if stopped = true then _ else _) >>= afterSweep m
  split
  · rfl
  · unfold turnBody
    show _ = (_ >>= _) >>= afterSweep m
    rw [bind_assoc]
    refine congrArg (_ >>= ·) (funext (fun s => ?_))
    split
    · rfl
    split
    · rfl
    · rfl

end Parts

/-! ## The bounds, and what is left of them -/

/-- **Times that increase**, and are no later than `last`. -/
structure TimesTo (last : UInt64) (log : List RunEvent) : Prop where
  increase : (timesOf log).Pairwise (fun a b => a.toInt64 < b.toInt64)
  le_last : ∀ t ∈ timesOf log, t.toInt64 ≤ last.toInt64

namespace TimesTo

variable {last now : UInt64} {log : List RunEvent}

/-- Other events leave the times alone. -/
theorem skip {e : RunEvent} (h : TimesTo last log) (he : e.time? = none) :
    TimesTo last (log ++ [e]) := by
  have htimes : timesOf (log ++ [e]) = timesOf log := by
    rw [timesOf, List.filterMap_append, List.filterMap_cons_none he,
      List.filterMap_nil, List.append_nil]
    rfl
  exact ⟨htimes ▸ h.increase, htimes ▸ h.le_last⟩

/-- **A call of the timer handler**, with a time after the last. -/
theorem timer (h : TimesTo last log) (hnow : last.toInt64 < now.toInt64) :
    TimesTo now (log ++ [.timer now]) := by
  have htimes : timesOf (log ++ [.timer now]) = timesOf log ++ [now] := by
    rw [timesOf, List.filterMap_append]
    rfl
  have hlt : ∀ t ∈ timesOf log, t.toInt64 < now.toInt64 := fun t ht =>
    Int64.lt_of_le_of_lt (h.le_last t ht) hnow
  refine ⟨?_, fun t ht => ?_⟩
  · rw [htimes, List.pairwise_append]
    refine ⟨h.increase, List.pairwise_singleton _ _, fun a ha b hb => ?_⟩
    obtain rfl := List.mem_singleton.mp hb
    exact hlt a ha
  · rw [htimes, List.mem_append, List.mem_singleton] at ht
    rcases ht with ht | rfl
    · exact Int64.le_of_lt (hlt t ht)
    · exact Int64.le_refl _

end TimesTo

/-- **A log on time**: `d` messages may have been delivered since the last call
of the work handler, `k` events counted since the last look at the clock, and
the timer handler was last called with no later a time than `last`. -/
structure OnTime (m : MessageManagerStruct) (d k : ℕ) (last : UInt64)
    (log : List RunEvent) : Prop where
  work : Gaps.Paced RunEvent.isWork RunEvent.isDelivery
    msgmgrWorkInterval.toNat d log
  sample : Gaps.Paced RunEvent.isSample RunEvent.isCounted
    (timerMod m).toNat k log
  times : TimesTo last log

namespace OnTime

variable {m : MessageManagerStruct} {d k : ℕ} {last now : UInt64}
  {log : List RunEvent}

theorem cadence (h : OnTime m d k last log) : Cadence m log :=
  ⟨h.work.within, h.sample.within, h.times.increase⟩

theorem start : OnTime m d k last [] :=
  ⟨.start, .start, List.Pairwise.nil, fun _ ht => nomatch ht⟩

/-- **A delivery**, of which both counts allow one more. -/
theorem delivery (h : OnTime m d k last log)
    (hd : d < msgmgrWorkInterval.toNat) (hk : k < (timerMod m).toNat) :
    OnTime m (d + 1) (k + 1) last (log ++ [.delivery]) :=
  ⟨h.work.counting rfl rfl hd, h.sample.counting rfl rfl hk,
    h.times.skip rfl⟩

theorem idle (h : OnTime m d k last log) (hk : k < (timerMod m).toNat) :
    OnTime m d (k + 1) last (log ++ [.idle]) :=
  ⟨h.work.skipping rfl rfl, h.sample.counting rfl rfl hk, h.times.skip rfl⟩

theorem workhlr (h : OnTime m d k last log) :
    OnTime m 0 k last (log ++ [.work]) :=
  ⟨h.work.stopping rfl, h.sample.skipping rfl rfl, h.times.skip rfl⟩

theorem clock (h : OnTime m d k last log) :
    OnTime m d 0 last (log ++ [.sample]) :=
  ⟨h.work.skipping rfl rfl, h.sample.stopping rfl, h.times.skip rfl⟩

theorem timer (h : OnTime m d k last log)
    (hnow : last.toInt64 < now.toInt64) :
    OnTime m d k now (log ++ [.timer now]) :=
  ⟨h.work.skipping rfl rfl, h.sample.skipping rfl rfl, h.times.timer hnow⟩

theorem mono {d' k' : ℕ} (h : OnTime m d k last log) (hd : d ≤ d')
    (hk : k ≤ k') : OnTime m d' k' last log :=
  ⟨h.work.mono hd, h.sample.mono hk, h.times⟩

end OnTime

theorem Cadence.nil (m : MessageManagerStruct) : Cadence m [] :=
  (OnTime.start : OnTime m 0 0 0 []).cadence

/-- **Between two counted events** the counter says what may be open. -/
def RunLocals.InStep (m : MessageManagerStruct) (l : RunLocals)
    (log : List RunEvent) : Prop :=
  OnTime m (l.counter % msgmgrWorkInterval).toNat
    (l.counter % (timerMod m).toUInt64).toNat l.lastTimerTime log

/-- The counter advances modulo `n`, unless it comes to 0, as it does when it
wraps around. -/
theorem toNat_mod_succ {c n : UInt64} (hn : 0 < n.toNat)
    (h : (c + 1) % n ≠ 0) : ((c + 1) % n).toNat = (c % n).toNat + 1 := by
  have hne : (c.toNat + 1) % 2 ^ 64 % n.toNat ≠ 0 := fun hzero =>
    h (UInt64.toNat_inj.mp hzero)
  have hc := c.toNat_lt
  have hwrap : c.toNat + 1 ≠ 2 ^ 64 := fun hc => by
    rw [hc, Nat.mod_self, Nat.zero_mod] at hne
    exact hne rfl
  have hmod : (c.toNat + 1) % 2 ^ 64 = c.toNat + 1 :=
    Nat.mod_eq_of_lt (by omega)
  rw [hmod, ← Nat.mod_add_mod] at hne
  show (c.toNat + 1) % 2 ^ 64 % n.toNat = c.toNat % n.toNat + 1
  rw [hmod, ← Nat.mod_add_mod]
  have hlt := Nat.mod_lt c.toNat hn
  refine Nat.mod_eq_of_lt (lt_of_le_of_ne hlt (fun heq => ?_))
  rw [show c.toNat % n.toNat + 1 = n.toNat from heq, Nat.mod_self] at hne
  exact hne rfl

/-! ## Under any answers -/

/-- **Where `message_manager_run` is.** -/
inductive RunPhase where
  | before
  | sweeping (l : RunLocals)
  | idling (s : TurnLocals)
  | returned (ok : Bool)

/-- The phase when a sweep has ended. -/
def SweepEnd.phase : SweepEnd → RunPhase
  | again l => .sweeping l
  | exit ok => .returned ok
  | idle s => .idling s

/-- The phase when a turn has ended. -/
def TurnEnd.phase : TurnEnd → RunPhase
  | again l => .sweeping l
  | exit ok => .returned ok

/-- **A log that is in step** with the variables of the phase. -/
def RunPhase.InStep (m : MessageManagerStruct) (log : List RunEvent) :
    RunPhase → Prop
  | before => log = []
  | sweeping l => l.InStep m log
  | idling s => s.toRunLocals.InStep m log
  | returned _ => Cadence m log

theorem RunPhase.InStep.cadence {m : MessageManagerStruct}
    {log : List RunEvent} {p : RunPhase} (h : p.InStep m log) :
    Cadence m log := by
  cases p with
  | before =>
    obtain rfl : log = [] := h
    exact Cadence.nil m
  | sweeping l => exact OnTime.cadence h
  | idling s => exact OnTime.cadence h
  | returned ok => exact h

/-- **The state**: where the function is, and the log. -/
structure RunState where
  phase : RunPhase
  log : List RunEvent

/-- What is logged when an action is performed. -/
def RunState.logged (s : RunState) (a : MgrAct) : RunState :=
  { s with log := s.log ++ a.events }

/-- **Actions that may be answered by anything**; whatever has been logged
keeps to the cadence. -/
abbrev cadenceSpec (m : MessageManagerStruct) :
    RGSpec MgrAct MgrAct.Res RunState where
  sem a s _ s' := s' = s.logged a
  safe _ _ := True
  rely s s' := s' = s
  guar _ s' := Cadence m s'.log
  rely_refl _ := rfl
  rely_trans h h' := h'.trans h

section Spec

variable {m : MessageManagerStruct} {α : Type} {Q : α → RunState → Prop}
  {s : RunState} {d k : ℕ} {last : UInt64}

theorem cadence_ret {v : α} (h : Q v s) :
    (Prog.ret v : MgrProg α).Wp (cadenceSpec m) Q s :=
  Wp.ret_of (P := (· = s)) (fun _ _ ht hr => hr.trans ht) rfl
    (fun _ ht => ht ▸ h)

/-- **One action.** -/
theorem cadence_act {a : MgrAct} {k : a.Res → MgrProg α}
    (hlog : Cadence m (s.log ++ a.events))
    (h : ∀ r, (k r).Wp (cadenceSpec m) Q (s.logged a)) :
    (Prog.act a k).Wp (cadenceSpec m) Q s := by
  refine Wp.act_of (P := (· = s)) (fun _ _ ht hr => hr.trans ht) rfl ?_
  rintro t rfl
  refine ⟨trivial, fun r u hu => ?_⟩
  obtain rfl := hu
  exact ⟨hlog, h r⟩

theorem RunState.logged_quiet {a : MgrAct} (ha : a.events = []) :
    s.logged a = s := by
  rw [RunState.logged, ha, List.append_nil]

/-- An action that is not logged. -/
theorem cadence_quiet {a : MgrAct} {k : a.Res → MgrProg α}
    (ha : a.events = []) (hs : Cadence m s.log)
    (h : ∀ r, (k r).Wp (cadenceSpec m) Q s) :
    (Prog.act a k).Wp (cadenceSpec m) Q s := by
  refine cadence_act ?_ (fun r => ?_)
  · rwa [ha, List.append_nil]
  · rw [RunState.logged_quiet ha]
    exact h r

/-- **An operation on a ring** leaves nothing in the log. -/
theorem ring_cadence {msgq : ℕ} {p : QProg α} (h : Cadence m s.log) :
    (QProg.at p msgq).Wp (cadenceSpec m) (fun _ t => t = s) s := by
  have hquiet : Prog.All (fun a : MgrAct => a.events = [])
      (QProg.at p msgq) :=
    Prog.All.embed
      (fun a => show (MgrAct.ring msgq a).events = [] from rfl) p
  refine Wp.all (P := (· = s)) hquiet (fun t u ht hr => hr.trans ht)
    (fun a t ha ht => ⟨trivial, fun r u hu => ?_⟩) rfl
  obtain rfl : u = t := hu.trans (RunState.logged_quiet ha)
  exact ⟨ht ▸ h, ht⟩

end Spec

/-! ## The functions -/

section Functions

variable {m : MessageManagerStruct} {bufferLen : UInt64} {d : ℕ}
  {s : RunState} (hT : 0 < (timerMod m).toNat)

include hT

theorem toUInt64_timerMod_pos : 0 < (timerMod m).toUInt64.toNat := by
  rwa [UInt32.toNat_toUInt64]

/-- **The timer** is due when the counter is a multiple of `timer_mod`; then
the clock is read, and nothing is left open. -/
theorem checkTimer_cadence {c last : UInt64}
    (h : OnTime m d ((c % (timerMod m).toUInt64).toNat + 1) last s.log) :
    (checkTimer .user m (c + 1) last).Wp (cadenceSpec m)
      (fun last t => OnTime m d
        ((c + 1) % (timerMod m).toUInt64).toNat last t.log) s := by
  show Wp _ _ (if (c + 1) % (timerMod m).toUInt64 = 0 then _ else _) _
  split
  · refine cadence_act h.clock.cadence (fun now => ?_)
    show Wp _ _ (if now.toInt64 > last.toInt64 then _ else _) _
    split
    · next hnow =>
      have htimer := h.clock.timer hnow
      exact cadence_act htimer.cadence
        (fun _ => cadence_ret (htimer.mono le_rfl (Nat.zero_le _)))
    · exact cadence_ret (h.clock.mono le_rfl (Nat.zero_le _))
  · next hmod =>
    refine cadence_ret ?_
    rw [toNat_mod_succ (toUInt64_timerMod_pos hT) hmod]
    exact h

/-- **A message is handed over.** The counter is not advanced yet. -/
theorem callMsghlr_cadence {l : RunLocals} (h : l.InStep m s.log) (u0 : ℕ)
    (message : MessagePtr) (txMsgq : ℕ) (rxLen txLen : UInt64) :
    (callMsghlr u0 message txMsgq rxLen txLen).Wp (cadenceSpec m)
      (fun _ t => OnTime m ((l.counter % msgmgrWorkInterval).toNat + 1)
        ((l.counter % (timerMod m).toUInt64).toNat + 1) l.lastTimerTime
        t.log) s := by
  have hd : (l.counter % msgmgrWorkInterval).toNat
      < msgmgrWorkInterval.toNat := Nat.mod_lt _ (by decide)
  have hk : (l.counter % (timerMod m).toUInt64).toNat
      < (timerMod m).toUInt64.toNat :=
    Nat.mod_lt _ (toUInt64_timerMod_pos hT)
  rw [UInt32.toNat_toUInt64] at hk
  have hdelivery := h.delivery hd hk
  exact cadence_act hdelivery.cadence (fun _ =>
    cadence_quiet rfl hdelivery.cadence (fun ok => cadence_ret hdelivery))

/-- **After a delivery** the counter is in step again. -/
theorem afterDelivery_cadence (u0 : ℕ) {l : TurnLocals}
    (h : OnTime m ((l.counter % msgmgrWorkInterval).toNat + 1)
      ((l.counter % (timerMod m).toUInt64).toNat + 1) l.lastTimerTime s.log) :
    (afterDelivery .user m u0 l).Wp (cadenceSpec m)
      (fun l' t => l'.toRunLocals.InStep m t.log) s := by
  unfold afterDelivery
  refine Wp.bind ((ring_cadence h.cadence).mono ?_)
  rintro n t rfl
  have hrest : ∀ t : RunState, OnTime m
      ((l.counter + 1) % msgmgrWorkInterval).toNat
      ((l.counter % (timerMod m).toUInt64).toNat + 1) l.lastTimerTime t.log →
      (checkTimer .user m (l.counter + 1) l.lastTimerTime >>= fun last =>
        pure { l with avail := l.avail + n, counter := l.counter + 1,
                      lastTimerTime := last } : MgrProg TurnLocals).Wp
      (cadenceSpec m) (fun l' t => l'.toRunLocals.InStep m t.log) t :=
    fun t ht => Wp.bind ((checkTimer_cadence hT ht).mono
      (fun last u hu => cadence_ret hu))
  show Wp _ _ (if (l.counter + 1) % msgmgrWorkInterval = 0 then _ else _) _
  split
  · exact cadence_act h.workhlr.cadence
      (fun ok => hrest _ (h.workhlr.mono (Nat.zero_le _) le_rfl))
  · next hmod =>
    refine hrest t ?_
    rw [toNat_mod_succ (by decide) hmod]
    exact h

/-- **The body of the loop.** -/
theorem forBody_cadence (u0 : ℕ) {l : TurnLocals}
    (h : l.toRunLocals.InStep m s.log) :
    (forBody .user m bufferLen callMsghlr u0 l).Wp (cadenceSpec m)
      (fun l' t => l'.toRunLocals.InStep m t.log) s := by
  unfold forBody
  refine Wp.bind ((ring_cadence h.cadence).mono ?_)
  rintro r t rfl
  match r with
  | none => exact cadence_ret h
  | some none =>
    refine Wp.bind ((ring_cadence h.cadence).mono ?_)
    rintro g u rfl
    show Wp _ _ (if g.error = true then _
      else if g.ok = false then _ else _) _
    split
    · exact cadence_ret h
    split
    · exact cadence_ret h
    · exact Wp.bind ((callMsghlr_cadence hT h _ _ _ _ _).mono
        (fun ok v hv => afterDelivery_cadence hT u0 hv))
  | some (some slot) =>
    refine Wp.bind ((callMsghlr_cadence hT h _ _ _ _ _).mono
      (fun ok u hu => ?_))
    refine Wp.bind ((ring_cadence hu.cadence).mono ?_)
    rintro _ v rfl
    exact afterDelivery_cadence hT u0 hu

/-- **The loop**, whichever of its passes end early. -/
theorem forLoop_cadence (n u0 : ℕ) {l : TurnLocals}
    (h : l.toRunLocals.InStep m s.log) :
    (forLoop .user m bufferLen callMsghlr n u0 l).Wp (cadenceSpec m)
      (fun l' t => l'.toRunLocals.InStep m t.log) s := by
  induction n generalizing u0 l s with
  | zero => exact cadence_ret h
  | succ n ih =>
    refine Wp.bind ((forBody_cadence hT u0 h).mono (fun l' t ht => ?_))
    split
    · exact cadence_ret ht
    · exact ih (u0 + 1) ht

/-- **A sweep** hands over to an idle end only in step. -/
theorem sweepRings_cadence {l : RunLocals} (h : l.InStep m s.log) :
    (sweepRings m bufferLen callMsghlr l).Wp (cadenceSpec m)
      (fun e t => e.phase.InStep m t.log) s := by
  refine cadence_quiet rfl h.cadence (fun stopped => ?_)
  show Wp _ _ (if stopped = true then _ else _) _
  split
  · exact cadence_ret h.cadence
  · refine Wp.bind ((forLoop_cadence hT _ 0 h).mono (fun l' t ht => ?_))
    split
    · exact cadence_ret ht.cadence
    split
    · exact cadence_ret ht
    · exact cadence_ret ht

/-- **The end of an idle turn**, which has been counted. -/
theorem idleEnd_cadence {l : TurnLocals}
    (h : OnTime m d ((l.counter % (timerMod m).toUInt64).toNat + 1)
      l.lastTimerTime s.log) :
    (idleEnd .user m l).Wp (cadenceSpec m)
      (fun e t => e.phase.InStep m t.log) s := by
  refine Wp.bind (cadence_act h.workhlr.cadence (fun ok => cadence_ret ?_))
  refine Wp.bind ((checkTimer_cadence hT h.workhlr).mono (fun last t ht => ?_))
  have hstep : RunLocals.InStep m { l.toRunLocals with
      counter := l.counter + 1, lastTimerTime := last } t.log :=
    ht.mono (Nat.zero_le _) le_rfl
  show Wp _ _ (if ok = true then _ else _) _
  split
  · exact cadence_ret hstep
  · exact cadence_quiet rfl hstep.cadence (fun _ => cadence_ret hstep)

omit hT in
/-- Before the loop the clock is read for the first time. -/
theorem messageManagerEnter_cadence (buffer : Bytes) (h : s.log = []) :
    (messageManagerEnter buffer).Wp (cadenceSpec m)
      (fun l t => l.InStep m t.log) s := by
  have hstart : ∀ last, OnTime m 0 0 last (s.log ++ [.sample]) := fun last =>
    (h ▸ OnTime.start (d := 0) (k := 0)).clock
  exact cadence_act (hstart 0).cadence
    (fun last => cadence_ret ((hstart last).mono (Nat.zero_le _)
      (Nat.zero_le _)))

end Functions

/-! ## Any run -/

/-- **The calls** a run of `message_manager_run` is made of. -/
inductive RunCall where
  | enter (buffer : Bytes)
  | sweep (l : RunLocals)
  | idle (s : TurnLocals)

namespace RunCall

/-- What a call returns. -/
@[reducible] def Ret : RunCall → Type
  | enter _ => RunLocals
  | sweep _ => SweepEnd
  | idle _ => TurnEnd

/-- The programs. -/
def prog (m : MessageManagerStruct) (bufferLen : UInt64) :
    (c : RunCall) → MgrProg c.Ret
  | enter buffer => messageManagerEnter buffer
  | sweep l => sweepRings m bufferLen callMsghlr l
  | idle s => idleEnd .user m s

/-- What is called when. -/
def may (s : RunState) : RunCall → Prop
  | enter _ => s.phase = .before
  | sweep l => s.phase = .sweeping l
  | idle l => s.phase = .idling l

/-- The idle sweep is logged when it is known to be one. -/
def onCall (s : RunState) : RunCall → RunState
  | idle _ => { s with log := s.log ++ [.idle] }
  | _ => s

/-- Where the function is when a call has returned. -/
def next : (c : RunCall) → c.Ret → RunPhase
  | enter _, l => .sweeping l
  | sweep _, e => e.phase
  | idle _, e => e.phase

end RunCall

/-- **The user build of `message_manager_run`**, with any answers. -/
def runMachine (m : MessageManagerStruct) (bufferLen : UInt64) :
    Machine Unit MgrAct MgrAct.Res RunState where
  Call := RunCall
  Ret := RunCall.Ret
  prog := RunCall.prog m bufferLen
  may _ s c := c.may s
  onCall _ c s := c.onCall s
  sem _ _ a s _ s' := s' = s.logged a
  onRet _ c v s := { s with phase := c.next v }

section Machine

variable {m : MessageManagerStruct} {bufferLen : UInt64} {s : RunState}

/-- **Every call** keeps the bounds, and leaves the counter in step. -/
theorem RunCall.cadence (hT : 0 < (timerMod m).toNat) {c : RunCall}
    (h : s.phase.InStep m s.log) (hmay : c.may s) :
    Cadence m (c.onCall s).log ∧ (c.prog m bufferLen).Wp (cadenceSpec m)
      (fun v t => (c.next v).InStep m t.log) (c.onCall s) := by
  cases c with
  | enter buffer =>
    rw [show s.phase = .before from hmay] at h
    exact ⟨RunPhase.InStep.cadence (p := .before) h,
      messageManagerEnter_cadence buffer h⟩
  | sweep l =>
    rw [show s.phase = .sweeping l from hmay] at h
    exact ⟨RunPhase.InStep.cadence (p := .sweeping l) h,
      sweepRings_cadence hT h⟩
  | idle l =>
    rw [show s.phase = .idling l from hmay] at h
    have hk : (l.counter % (timerMod m).toUInt64).toNat
        < (timerMod m).toUInt64.toNat :=
      Nat.mod_lt _ (toUInt64_timerMod_pos hT)
    rw [UInt32.toNat_toUInt64] at hk
    have hidle := OnTime.idle h hk
    exact ⟨hidle.cadence, idleEnd_cadence hT hidle⟩

/-- **The outline.** There is one thread. -/
def cadenceOutline (bufferLen : UInt64) (hT : 0 < (timerMod m).toNat) :
    (runMachine m bufferLen).Outline where
  rely _ s s' := s' = s
  guar _ _ s' := Cadence m s'.log
  safe _ _ _ _ := True
  idle _ s := s.phase.InStep m s.log
  post _ c v s := (c.next v).InStep m s.log
  rely_refl _ _ := rfl
  rely_trans _ _ _ _ h h' := h'.trans h
  guar_rely hij := absurd rfl hij
  idle_stable {i s s'} h hr := by
    rw [show s' = s from hr]
    exact h
  call_ok h hmay := RunCall.cadence hT h hmay
  ret_ok h := ⟨h.cadence, h⟩

/-- **The cadence under load.** In every run of the user build, whatever the
rings hold, the handlers return and the clock shows: at most
`MSGMGR_WORK_INTERVAL` messages are delivered between calls of the work
handler, at most `timer_mod` events are counted between looks at the clock, and
the timer handler is called with increasing times. -/
theorem cadence_under_load (hT : 0 < (timerMod m).toNat)
    {x : (runMachine m bufferLen).Conf}
    (hreach : (runMachine m bufferLen).Reach
      (Machine.start _ ⟨.before, []⟩) x) : Cadence m x.st.log :=
  (cadenceOutline bufferLen hT).invariant (I := fun s => Cadence m s.log)
    (s := ⟨.before, []⟩) (fun hguar _ => hguar) (fun _ => rfl) (Cadence.nil m)
    hreach

end Machine

/-! ## A run -/

/-- A ring with one record of no data, which is gone once it is delivered. -/
def answerRing (log : List RunEvent) : MessageQueueHeader :=
  { MessageQueueHeader.zeroed with
    mWr := if .delivery ∈ log then 0 else 32 }

/-- Answers for a run: the handlers succeed, and the clock stands. -/
def answer (log : List RunEvent) : (a : MgrAct) → a.Res
  | .ring _ a => (a.exec (answerRing log)).1
  | .loadStopped | .kthreadShouldStop => false
  | .clock => 0
  | .msghlrReturn | .workhlr => true
  | .msghlr _ _ _ _ _ | .timerhlr _ | .usleep _ | .loadBuffer _ _
  | .storeCbdata _ _ => ()

/-- A manager of one pair, as `message_manager_init` sets it up. -/
def onePairManager : MessageManagerStruct :=
  addPairs (messageManagerInit 1 1 1 0) [⟨0, 1, 4096, 4096⟩]

/-- The next call is made, and returns. -/
def nextCall : List (runMachine onePairManager 4096).Cmd :=
  [.call () (fun s => match hphase : s.phase with
    | .before => some ⟨.enter (fun _ => 0), hphase⟩
    | .sweeping l => some ⟨.sweep l, hphase⟩
    | .idling l => some ⟨.idle l, hphase⟩
    | .returned _ => none), .finish ()]

/-- **A sweep with a delivery that leaves nothing to read.** -/
theorem cadence_under_load_idle :
    ∃ x : (runMachine onePairManager 4096).Conf,
      x.st.log = [.sample, .delivery, .idle, .work]
      ∧ Cadence onePairManager x.st.log := by
  obtain ⟨cmds, hcmds⟩ : ∃ cmds, cmds = nextCall ++ nextCall ++ nextCall :=
    ⟨_, rfl⟩
  have hrun : ((cmds.foldlM
      (Machine.perform _ (fun _ _ a s => some (answer s.log a, s.logged a)))
      (Machine.start (runMachine onePairManager 4096) ⟨.before, []⟩)).any
      (fun x => x.st.log = [.sample, .delivery, .idle, .work])) = true := by
    subst hcmds
    decide +kernel
  obtain ⟨x, hx, hlog⟩ := (Option.any_eq_true _ _).mp hrun
  refine ⟨x, of_decide_eq_true hlog, cadence_under_load (by decide)
    (Machine.Reach.schedule (fun _ _ a s r s' hr => ?_) hx)⟩
  exact (Prod.mk.inj (Option.some.inj hr)).2.symm
