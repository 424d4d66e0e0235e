import Kucomms.DeliveryMachine

/-!
# Starting and stopping a `MessageManager`

`MessageManager::start` creates a thread that runs `message_manager_run`, and
`stop`, as the destructor, has it leave its loop and waits for it. Whoever
owns the object calls them in any order, while the thread runs.

`start_stop`: there is never more than one such thread, though there may be
many one after the other; it runs until it is stopped, unless
`message_manager_run` fails; and once `stop` has returned there is none, so
that the rings may be unmapped and the handlers destroyed. This is why in a
network (`Kucomms.Network`) a manager may be started again when it has
stopped, and not before.
-/

open Prog

/-! ## The owner -/

/-- **What the owner's thread does** with the members of the object. -/
inductive OwnerAct where
  /-- The read of `m_initialised`. -/
  | loadInitialised
  /-- The read of `m_thread`: which thread it is, if there is one. -/
  | loadThread
  /-- The store of `m_stopped`. -/
  | storeStopped (b : Bool)
  /-- `new std::thread(&MessageManager::threadFunction,this)` -/
  | createThread
  /-- `m_thread.reset(...)` -/
  | storeThread (t : Option ℕ)
  /-- `m_thread->join()` -/
  | join

/-- The answer to an action. -/
@[reducible] def OwnerAct.Res : OwnerAct → Type
  | .loadInitialised => Bool
  | .loadThread => Option ℕ
  | .createThread => ℕ
  | .storeStopped _ | .storeThread _ | .join => Unit

/-- A function of the class. -/
abbrev OwnerProg : Type → Type := Prog OwnerAct OwnerAct.Res

/-- `MessageManager::start` -/
def messageManagerStart : OwnerProg Bool := do
  let initialised ← (.act .loadInitialised .ret : OwnerProg Bool)
  if initialised = false then
    return false
  else
    let thread ← (.act .loadThread .ret : OwnerProg (Option ℕ))
    if thread.isSome = true then
      return false
    else
      (.act (.storeStopped false) .ret : OwnerProg Unit)
      let n ← (.act .createThread .ret : OwnerProg ℕ)
      (.act (.storeThread (some n)) .ret : OwnerProg Unit)
      return true

/-- `MessageManager::stop` -/
def messageManagerStop : OwnerProg Bool := do
  let thread ← (.act .loadThread .ret : OwnerProg (Option ℕ))
  if thread.isNone = true then
    return true
  else
    (.act (.storeStopped true) .ret : OwnerProg Unit)
    (.act .join .ret : OwnerProg Unit)
    (.act (.storeThread none) .ret : OwnerProg Unit)
    return true

/-- `MessageManager::~MessageManager` -/
def messageManagerDestroy : OwnerProg Unit := do
  let _ok ← messageManagerStop
  return ()

/-! ## The machine -/

/-- Who takes part. -/
inductive LifeParty where
  | owner
  /-- The `n`-th thread that `start` has created. -/
  | thread (n : ℕ)
  deriving DecidableEq

/-- What they do. -/
inductive LifeAct where
  | owner (a : OwnerAct)
  | mgr (a : MgrAct)

/-- The answer to an action. -/
@[reducible] def LifeAct.Res : LifeAct → Type
  | .owner a => a.Res
  | .mgr a => a.Res

/-- **The members of a `MessageManager`**, and its threads. -/
structure LifeState where
  /-- `m_initialised` -/
  initialised : Bool
  /-- `m_thread` -/
  thread : Option ℕ
  /-- `m_stopped` -/
  stopped : Bool
  /-- Where `message_manager_run` is in the threads created so far. -/
  threads : List ManagerPhase
  /-- The destructor has returned. -/
  gone : Bool

/-- An object that its constructor has made. -/
def LifeState.constructed (initialised : Bool) : LifeState :=
  ⟨initialised, none, false, [], false⟩

/-- **The calls.** -/
inductive LifeCall where
  | start
  | stop
  | destroy
  /-- `message_manager_run` up to its loop. -/
  | enter (buffer : Bytes)
  /-- A turn of its loop. -/
  | turn (l : RunLocals)

namespace LifeCall

/-- What a call returns. -/
@[reducible] def Ret : LifeCall → Type
  | start | stop => Bool
  | destroy => Unit
  | enter _ => RunLocals
  | turn _ => TurnEnd

/-- The programs, of a manager with any handlers. -/
def prog (m : MessageManagerStruct) (maxqLength : UInt64) :
    (c : LifeCall) → Prog LifeAct LifeAct.Res c.Ret
  | start => messageManagerStart.embed .owner (fun _ r => r)
  | stop => messageManagerStop.embed .owner (fun _ r => r)
  | destroy => messageManagerDestroy.embed .owner (fun _ r => r)
  | enter buffer => (messageManagerEnter buffer).embed .mgr (fun _ r => r)
  | turn l => (messageManagerTurn .user m maxqLength callMsghlr l).embed .mgr
      (fun _ r => r)

/-- Who may call what when: a thread that has been created runs
`message_manager_run`. -/
def May (s : LifeState) : LifeParty → LifeCall → Prop
  | .owner, start | .owner, stop | .owner, destroy => s.gone = false
  | .thread n, enter _ => s.threads[n]? = some .ready
  | .thread n, turn l => s.threads[n]? = some (.running l)
  | _, _ => False

end LifeCall

namespace LifeState

/-- Where the thread `n` gets to. -/
def setThread (s : LifeState) (n : ℕ) (ph : ManagerPhase) : LifeState :=
  { s with threads := s.threads.set n ph }

/-- What is recorded when a call returns. -/
def onRet (s : LifeState) : LifeParty → (c : LifeCall) → c.Ret → LifeState
  | .owner, .destroy, _ => { s with gone := true }
  | .thread n, .enter _, l => s.setThread n (.running l)
  | .thread n, .turn _, .again l => s.setThread n (.running l)
  | .thread n, .turn _, .exit ok => s.setThread n (.returned ok)
  | _, _, _ => s

end LifeState

/-- **What an action does.** `join` waits until the thread has returned. All
that the thread does besides the read of `m_stopped` may be answered by
anything. -/
inductive LifeSem : (a : LifeAct) → LifeState → a.Res → LifeState → Prop where
  | loadInitialised {s : LifeState} :
      LifeSem (.owner .loadInitialised) s s.initialised s
  | loadThread {s : LifeState} : LifeSem (.owner .loadThread) s s.thread s
  | storeStopped {s : LifeState} (b : Bool) :
      LifeSem (.owner (.storeStopped b)) s () { s with stopped := b }
  | createThread {s : LifeState} :
      LifeSem (.owner .createThread) s s.threads.length
        { s with threads := s.threads ++ [.ready] }
  | storeThread {s : LifeState} (t : Option ℕ) :
      LifeSem (.owner (.storeThread t)) s () { s with thread := t }
  | join {s : LifeState} {n : ℕ} {ok : Bool} (hthread : s.thread = some n)
      (hreturned : s.threads[n]? = some (.returned ok)) :
      LifeSem (.owner .join) s () s
  | loadStopped {s : LifeState} : LifeSem (.mgr .loadStopped) s s.stopped s
  | other {s : LifeState} {a : MgrAct} (ha : a ≠ .loadStopped) (r : a.Res) :
      LifeSem (.mgr a) s r s

/-- **An owner and the threads of its manager.** -/
def lifeMachine (m : MessageManagerStruct) (maxqLength : UInt64) :
    Machine LifeParty LifeAct LifeAct.Res LifeState where
  Call := LifeCall
  Ret := LifeCall.Ret
  prog := LifeCall.prog m maxqLength
  may x s c := c.May s x
  onCall _ _ s := s
  sem _ _ := LifeSem
  onRet x c v s := s.onRet x c v

/-! ## Threads at work -/

/-- `message_manager_run` has returned. -/
def ManagerPhase.Over : ManagerPhase → Prop
  | .returned _ => True
  | _ => False

namespace LifeState

variable {s s' s'' : LifeState} {n k : ℕ} {ph : ManagerPhase}

/-- The thread `n` has been created, and has not returned. -/
def Live (s : LifeState) (n : ℕ) : Prop :=
  ∃ ph, s.threads[n]? = some ph ∧ ¬ph.Over

/-- **At most one thread is live**, and none when the object is gone. -/
structure Inv (s : LifeState) : Prop where
  one : ∀ n k, s.Live n → s.Live k → n = k
  gone : s.gone = true → ∀ n, ¬s.Live n

/-- **The thread `n` is the last that was created**, and nobody has stopped
it. -/
structure Started (s : LifeState) (n : ℕ) : Prop where
  created : n + 1 = s.threads.length
  last : ∀ k, s.Live k → k = n
  stopped : s.stopped = false
  goesOn : s.threads[n]? ≠ some (.returned true)

/-- **What holds while the owner calls nothing.** -/
structure Idle (s : LifeState) : Prop where
  none : s.thread = none → ∀ n, ¬s.Live n
  some : ∀ n, s.thread = some n → s.Started n
  gone : s.gone = true → s.thread = Option.none

theorem live_congr (h : s'.threads[n]? = s.threads[n]?) :
    s'.Live n ↔ s.Live n := by
  unfold Live
  rw [h]

/-- **What a thread may do** in the meantime: it gets on, and returns `true`
only if it was stopped. -/
structure OwnerRely (s s' : LifeState) : Prop where
  initialised : s'.initialised = s.initialised
  thread : s'.thread = s.thread
  stopped : s'.stopped = s.stopped
  gone : s'.gone = s.gone
  length : s'.threads.length = s.threads.length
  phase : ∀ n, s'.threads[n]? = s.threads[n]? ∨ s.Live n
    ∧ (s'.threads[n]? = some (.returned true) → s.stopped = true)

/-- **What may happen to a live thread**: nothing, but that it is stopped. -/
def ThreadRely (n : ℕ) (s s' : LifeState) : Prop :=
  s.Live n → s'.threads[n]? = s.threads[n]?
    ∧ (s.stopped = true → s'.stopped = true)

namespace OwnerRely

theorem refl (s : LifeState) : OwnerRely s s :=
  ⟨rfl, rfl, rfl, rfl, rfl, fun _ => .inl rfl⟩

/-- A thread that is live was live. -/
theorem live (h : OwnerRely s s') (hn : s'.Live n) : s.Live n := by
  obtain hsame | ⟨hlive, -⟩ := h.phase n
  · exact (live_congr hsame).mp hn
  · exact hlive

theorem trans (h : OwnerRely s s') (h' : OwnerRely s' s'') :
    OwnerRely s s'' := by
  refine ⟨h'.initialised.trans h.initialised, h'.thread.trans h.thread,
    h'.stopped.trans h.stopped, h'.gone.trans h.gone,
    h'.length.trans h.length, fun n => ?_⟩
  obtain hsame' | ⟨hlive', hstopped'⟩ := h'.phase n
  · rw [hsame']
    exact h.phase n
  · exact .inr ⟨h.live hlive', fun hph => h.stopped ▸ hstopped' hph⟩

theorem none (h : OwnerRely s s') (hnone : ∀ n, ¬s.Live n) (n : ℕ) :
    ¬s'.Live n := fun hn => hnone n (h.live hn)

theorem inv (h : OwnerRely s s') (hs : s.Inv) : s'.Inv :=
  ⟨fun n k hn hk => hs.one n k (h.live hn) (h.live hk),
    fun hgone => h.none (hs.gone (h.gone.symm.trans hgone))⟩

/-- **A thread that was started goes on.** -/
theorem started (h : OwnerRely s s') (hn : s.Started n) : s'.Started n := by
  refine ⟨hn.created.trans h.length.symm, fun k hk => hn.last k (h.live hk),
    h.stopped.trans hn.stopped, fun hover => ?_⟩
  obtain hsame | ⟨-, hstopped⟩ := h.phase n
  · exact hn.goesOn (hsame.symm.trans hover)
  · have := hstopped hover
    rw [hn.stopped] at this
    exact Bool.false_ne_true this

theorem idle (h : OwnerRely s s') (hs : s.Idle) : s'.Idle := by
  refine ⟨fun hnone => h.none (hs.none (h.thread.symm.trans hnone)),
    fun n hn => h.started (hs.some n (h.thread.symm.trans hn)),
    fun hgone => ?_⟩
  rw [h.thread]
  exact hs.gone (h.gone.symm.trans hgone)

end OwnerRely

namespace ThreadRely

theorem refl (n : ℕ) (s : LifeState) : ThreadRely n s s :=
  fun _ => ⟨rfl, id⟩

theorem trans (h : ThreadRely n s s') (h' : ThreadRely n s' s'') :
    ThreadRely n s s'' := by
  intro hn
  obtain ⟨hsame, hstopped⟩ := h hn
  obtain ⟨hsame', hstopped'⟩ := h' ((live_congr hsame).mpr hn)
  exact ⟨hsame'.trans hsame, hstopped' ∘ hstopped⟩

theorem live (h : ThreadRely n s s') (hn : s.Live n) : s'.Live n :=
  (live_congr (h hn).1).mpr hn

end ThreadRely

/-- What the others may do. -/
def Rely : LifeParty → LifeState → LifeState → Prop
  | .owner => OwnerRely
  | .thread n => ThreadRely n

/-- **What a step amounts to.** -/
def Guar : LifeParty → LifeState → LifeState → Prop
  | .owner, s, s' => (s.Inv → s'.Inv) ∧ ∀ n, ThreadRely n s s'
  | .thread n, s, s' => OwnerRely s s' ∧ ∀ k, k ≠ n → ThreadRely k s s'

theorem Rely.refl (x : LifeParty) (s : LifeState) : Rely x s s := by
  cases x with
  | owner => exact OwnerRely.refl s
  | thread n => exact ThreadRely.refl n s

theorem Rely.trans (x : LifeParty) (h : Rely x s s') (h' : Rely x s' s'') :
    Rely x s s'' := by
  cases x with
  | owner => exact OwnerRely.trans h h'
  | thread n => exact ThreadRely.trans h h'

theorem Guar.rely {x y : LifeParty} (hxy : x ≠ y) (h : Guar x s s') :
    Rely y s s' := by
  cases x with
  | owner =>
    cases y with
    | owner => exact absurd rfl hxy
    | thread n => exact h.2 n
  | thread n =>
    cases y with
    | owner => exact h.1
    | thread k => exact h.2 k (fun hk => hxy (hk ▸ rfl))

theorem Guar.refl (x : LifeParty) (s : LifeState) : Guar x s s := by
  cases x with
  | owner => exact ⟨id, fun n => ThreadRely.refl n s⟩
  | thread n => exact ⟨OwnerRely.refl s, fun k _ => ThreadRely.refl k s⟩

theorem Guar.inv {x : LifeParty} (h : Guar x s s') (hs : s.Inv) : s'.Inv := by
  cases x with
  | owner => exact h.1 hs
  | thread n => exact h.1.inv hs

/-- The owner leaves the threads as they are, and does not take back what a
live one was told. -/
theorem Guar.owner (hthreads : s'.threads = s.threads)
    (hgone : s'.gone = s.gone)
    (hstopped : ∀ n, s.Live n → s.stopped = true → s'.stopped = true) :
    Guar .owner s s' := by
  have hlive : ∀ n, s'.Live n ↔ s.Live n := fun n =>
    live_congr (by rw [hthreads])
  refine ⟨fun hs => ⟨fun n k hn hk => ?_, fun h n hn => ?_⟩,
    fun n hn => ⟨by rw [hthreads], hstopped n hn⟩⟩
  · exact hs.one n k ((hlive n).mp hn) ((hlive k).mp hk)
  · exact hs.gone (hgone.symm.trans h) n ((hlive n).mp hn)

/-- **A thread is created** where none is live. -/
theorem Guar.createThread (hnone : ∀ n, ¬s.Live n) (hgone : s.gone = false)
    (hstopped : s.stopped = false) :
    Guar .owner s { s with threads := s.threads ++ [.ready] }
      ∧ Started { s with threads := s.threads ++ [.ready] }
        s.threads.length := by
  have hlast : ∀ k, Live { s with threads := s.threads ++ [.ready] } k →
      k = s.threads.length := by
    rintro k ⟨ph, hget, hlive⟩
    obtain hlt | hge := Nat.lt_or_ge k s.threads.length
    · rw [List.getElem?_append_left hlt] at hget
      exact absurd ⟨ph, hget, hlive⟩ (hnone k)
    · have hlt := (List.getElem?_eq_some_iff.mp hget).1
      rw [List.length_append, List.length_singleton] at hlt
      omega
  refine ⟨⟨fun _ => ⟨fun n k hn hk => (hlast n hn).trans (hlast k hk).symm,
    fun h => absurd (hgone.symm.trans h) Bool.false_ne_true⟩,
    fun n hn => absurd hn (hnone n)⟩, ?_, hlast, hstopped, fun h => ?_⟩
  · show s.threads.length + 1 = (s.threads ++ [ManagerPhase.ready]).length
    rw [List.length_append, List.length_singleton]
  · have hready : (s.threads ++ [ManagerPhase.ready])[s.threads.length]?
        = some .ready := List.getElem?_concat_length
    exact nomatch hready.symm.trans h

/-- **A thread gets on.** -/
theorem Guar.setThread (hn : s.Live n)
    (hph : ph = .returned true → s.stopped = true) :
    Guar (.thread n) s (s.setThread n ph) := by
  obtain ⟨ph', hget, -⟩ := id hn
  have hlt : n < s.threads.length := (List.getElem?_eq_some_iff.mp hget).1
  have hself : (s.setThread n ph).threads[n]? = some ph :=
    List.getElem?_set_self hlt
  have hne : ∀ k, k ≠ n → (s.setThread n ph).threads[k]? = s.threads[k]? :=
    fun k hk => List.getElem?_set_ne (fun h => hk h.symm)
  refine ⟨⟨rfl, rfl, rfl, rfl, List.length_set, fun k => ?_⟩,
    fun k hk _ => ⟨hne k hk, id⟩⟩
  by_cases hk : k = n
  · subst hk
    exact .inr ⟨hn, fun h => hph (Option.some.inj (hself.symm.trans h))⟩
  · exact .inl (hne k hk)

end LifeState

/-! ## The functions -/

open LifeState

/-- A thread accesses rings, and calls handlers, while it is live. -/
def LifeState.Safe : LifeParty → LifeState → Prop
  | .owner, _ => True
  | .thread n, s => s.Live n

/-- The specification of what a party does. -/
def lifeSpec {A : Type} (f : A → LifeAct) (x : LifeParty) :
    RGSpec A (fun a => (f a).Res) LifeState where
  sem a := LifeSem (f a)
  safe _ := Safe x
  rely := Rely x
  guar := Guar x
  rely_refl := Rely.refl x
  rely_trans := Rely.trans x

section Programs

variable {α : Type} {s : LifeState} {n : ℕ}

theorem inLife_wp {A : Type} {f : A → LifeAct} {x : LifeParty}
    {p : Prog A (fun a => (f a).Res) α} {Q : α → LifeState → Prop}
    (h : p.Wp (lifeSpec f x) Q s) :
    (p.embed f fun _ r => r).Wp (lifeSpec id x) Q s :=
  (Wp.embed (lifeSpec id x) f (fun _ r => r) id (fun _ => True)
    (fun _ _ _ h => h) (fun _ _ _ _ _ _ h => ⟨h, fun hg => ⟨hg, trivial⟩⟩)
    (fun _ _ _ hr => ⟨hr, trivial⟩) trivial h).mono (fun _ _ h => h.1)

/-- What the owner asserts, and keeps. -/
theorem ownerAct_wp {a : OwnerAct} {P : LifeState → Prop}
    {Q : a.Res → LifeState → Prop}
    (hP : ∀ {s s'}, OwnerRely s s' → P s → P s')
    (hQ : ∀ {r s s'}, OwnerRely s s' → Q r s → Q r s') (hs : P s)
    (h : ∀ {s r s'}, P s → LifeSem (.owner a) s r s' →
      Guar .owner s s' ∧ Q r s') :
    (.act a .ret : OwnerProg a.Res).Wp (lifeSpec .owner .owner) Q s :=
  Wp.act_of (fun _ _ ht hr => hP hr ht) hs (fun _ ht =>
    ⟨trivial, fun _ _ hu => ⟨(h ht hu).1, Wp.ret_of
      (fun _ _ hv hr => hQ hr hv) (h ht hu).2 (fun _ hv => hv)⟩⟩)

/-- What holds when the owner looks at `m_thread`. -/
structure ThreadSeen (t : Option ℕ) (s : LifeState) : Prop where
  idle : s.Idle
  kept : s.gone = false
  thread : s.thread = t

theorem ThreadSeen.rely {t : Option ℕ} {s' : LifeState} (h : ThreadSeen t s)
    (hr : OwnerRely s s') : ThreadSeen t s' :=
  ⟨hr.idle h.idle, hr.gone.trans h.kept, hr.thread.trans h.thread⟩

theorem loadThread_wp (h : s.Idle) (hkept : s.gone = false) :
    (.act .loadThread .ret : OwnerProg (Option ℕ)).Wp
      (lifeSpec .owner .owner) ThreadSeen s := by
  refine ownerAct_wp (a := .loadThread) (P := ThreadSeen s.thread)
    (Q := ThreadSeen) (fun hr h => h.rely hr) (fun hr h => h.rely hr) ⟨h, hkept, rfl⟩ ?_
  rintro u r u' hu ⟨⟩
  exact ⟨Guar.refl _ _, hu.idle, hu.kept, rfl⟩

/-- What `start` leaves: it refuses only an object that is not initialised, or
has been started. -/
structure StartPost (ok : Bool) (s : LifeState) : Prop where
  idle : s.Idle
  kept : s.gone = false
  running : ok = true → s.thread.isSome = true
  refused : ok = false → s.initialised = false ∨ s.thread.isSome = true

theorem StartPost.rely {ok : Bool} {s' : LifeState} (h : StartPost ok s)
    (hr : OwnerRely s s') : StartPost ok s' :=
  ⟨hr.idle h.idle, hr.gone.trans h.kept, hr.thread ▸ h.running,
    hr.thread ▸ hr.initialised ▸ h.refused⟩

theorem owner_ret {v : α} {Q : α → LifeState → Prop}
    (hQ : ∀ {s s'}, OwnerRely s s' → Q v s → Q v s') (h : Q v s) :
    (.ret v : OwnerProg α).Wp (lifeSpec .owner .owner) Q s :=
  Wp.ret_of (fun _ _ ht hr => hQ hr ht) h (fun _ h => h)

/-- There is room for a thread: none is live, and none is set. -/
structure Vacant (stopped : Bool → Prop) (s : LifeState) : Prop where
  none : ∀ n, ¬s.Live n
  kept : s.gone = false
  thread : s.thread = Option.none
  stopped : stopped s.stopped

theorem Vacant.rely {C : Bool → Prop} {s' : LifeState} (h : Vacant C s)
    (hr : OwnerRely s s') : Vacant C s' :=
  ⟨hr.none h.none, hr.gone.trans h.kept, hr.thread.trans h.thread,
    hr.stopped ▸ h.stopped⟩

/-- **`start`** -/
theorem messageManagerStart_wp (h : s.Idle) (hkept : s.gone = false) :
    messageManagerStart.Wp (lifeSpec .owner .owner) StartPost s := by
  refine Wp.bind ((ownerAct_wp (a := .loadInitialised)
    (P := ThreadSeen s.thread) (Q := fun v s => (s.Idle ∧ s.gone = false)
      ∧ s.initialised = v) (fun hr h => h.rely hr)
    (fun hr h => ⟨⟨hr.idle h.1.1, hr.gone.trans h.1.2⟩,
      hr.initialised.trans h.2⟩) ⟨h, hkept, rfl⟩ ?_).mono ?_)
  · rintro u r u' hu ⟨⟩
    exact ⟨Guar.refl _ _, ⟨hu.idle, hu.kept⟩, rfl⟩
  rintro initialised t ⟨⟨ht, hkept⟩, hinitialised⟩
  split
  · next hfalse =>
    exact owner_ret (fun hr h => h.rely hr) ⟨ht, hkept, (fun h => nomatch h),
      fun _ => .inl (hinitialised.trans hfalse)⟩
  refine Wp.bind ((loadThread_wp ht hkept).mono ?_)
  rintro thread u hu
  split
  · next hsome =>
    exact owner_ret (fun hr h => h.rely hr) ⟨hu.idle, hu.kept,
      (fun h => nomatch h), fun _ => .inr (hu.thread ▸ hsome)⟩
  next hnone =>
  have hthread : u.thread = none := by
    rw [hu.thread]
    exact Option.not_isSome_iff_eq_none.mp hnone
  refine Wp.bind ((ownerAct_wp (a := .storeStopped false)
    (P := Vacant fun _ => True) (Q := fun _ => Vacant fun b => b = false)
    (fun hr h => h.rely hr) (fun hr h => h.rely hr)
    ⟨hu.idle.none hthread, hu.kept, hthread, trivial⟩ ?_).mono ?_)
  · rintro v r v' hv ⟨⟩
    exact ⟨.owner rfl rfl fun k hk => absurd hk (hv.none k),
      hv.none, hv.kept, hv.thread, rfl⟩
  rintro _ v hv
  refine Wp.bind ((ownerAct_wp (a := .createThread)
    (P := Vacant fun b => b = false)
    (Q := fun n s => s.Started n ∧ s.gone = false)
    (fun hr h => h.rely hr)
    (fun hr h => ⟨hr.started h.1, hr.gone.trans h.2⟩) hv ?_).mono ?_)
  · rintro w r w' hw ⟨⟩
    obtain ⟨hguar, hstarted⟩ :=
      Guar.createThread hw.none hw.kept hw.stopped
    exact ⟨hguar, hstarted, hw.kept⟩
  rintro n w ⟨hstarted, hkept⟩
  refine Wp.bind ((ownerAct_wp (a := .storeThread (some n))
    (P := fun s => s.Started n ∧ s.gone = false)
    (Q := fun _ s => (s.Started n ∧ s.gone = false) ∧ s.thread = some n)
    (fun hr h => ⟨hr.started h.1, hr.gone.trans h.2⟩)
    (fun hr h => ⟨⟨hr.started h.1.1, hr.gone.trans h.1.2⟩,
      hr.thread.trans h.2⟩) ⟨hstarted, hkept⟩ ?_).mono ?_)
  · rintro y r y' ⟨hstarted, hkept⟩ ⟨⟩
    exact ⟨.owner rfl rfl (fun _ _ h => h), ⟨⟨hstarted.created,
      hstarted.last, hstarted.stopped, hstarted.goesOn⟩, hkept⟩, rfl⟩
  rintro _ y ⟨⟨hstarted, hkept⟩, hthread⟩
  refine owner_ret (fun hr h => h.rely hr) ⟨⟨fun hnone => ?_, fun k hk => ?_,
    fun hgone => ?_⟩, hkept, fun _ => hthread ▸ rfl, (fun h => nomatch h)⟩
  · exact nomatch hthread.symm.trans hnone
  · obtain rfl := Option.some.inj (hthread.symm.trans hk)
    exact hstarted
  · exact absurd (hkept.symm.trans hgone) Bool.false_ne_true

/-- **`stop`** -/
theorem messageManagerStop_wp (h : s.Idle) (hkept : s.gone = false) :
    messageManagerStop.Wp (lifeSpec .owner .owner)
      (fun ok s => ok = true ∧ Vacant (fun _ => True) s) s := by
  have hrely : ∀ {ok : Bool} {s s' : LifeState}, OwnerRely s s' →
      ok = true ∧ Vacant (fun _ => True) s →
        ok = true ∧ Vacant (fun _ => True) s' :=
    fun hr h => ⟨h.1, h.2.rely hr⟩
  refine Wp.bind ((loadThread_wp h hkept).mono ?_)
  rintro thread t ht
  split
  · next hnone =>
    have hthread : t.thread = none := by
      rw [ht.thread]
      exact Option.isNone_iff_eq_none.mp hnone
    exact owner_ret hrely
      ⟨rfl, ht.idle.none hthread, ht.kept, hthread, trivial⟩
  next hsome =>
  obtain ⟨n, rfl⟩ : ∃ n, thread = some n := by
    cases thread with
    | none => exact absurd rfl hsome
    | some n => exact ⟨n, rfl⟩
  let Stopping (s : LifeState) : Prop :=
    (s.thread = some n ∧ s.gone = false) ∧ ∀ k, s.Live k → k = n
  have hstopping : ∀ {s s'}, OwnerRely s s' → Stopping s → Stopping s' :=
    fun hr h => ⟨⟨hr.thread.trans h.1.1, hr.gone.trans h.1.2⟩,
      fun k hk => h.2 k (hr.live hk)⟩
  refine Wp.bind ((ownerAct_wp (a := .storeStopped true) (P := Stopping)
    (Q := fun _ => Stopping) hstopping hstopping
    ⟨⟨ht.thread, ht.kept⟩, (ht.idle.some n ht.thread).last⟩ ?_).mono ?_)
  · rintro u r u' hu ⟨⟩
    exact ⟨.owner rfl rfl (fun _ _ _ => rfl), hu⟩
  rintro _ u hu
  -- the thread has returned when `join` has
  refine Wp.bind ((ownerAct_wp (a := .join) (P := Stopping)
    (Q := fun _ s => (s.thread = some n ∧ s.gone = false)
      ∧ ∀ k, ¬s.Live k) hstopping
    (fun hr h => ⟨⟨hr.thread.trans h.1.1, hr.gone.trans h.1.2⟩,
      hr.none h.2⟩) hu ?_).mono ?_)
  · rintro v r v' hv (hjoin : LifeSem _ _ _ _)
    cases hjoin with
    | join hthread hreturned =>
      obtain rfl := Option.some.inj (hv.1.1.symm.trans hthread)
      refine ⟨Guar.refl _ _, hv.1, fun k hk => ?_⟩
      obtain rfl := hv.2 k hk
      obtain ⟨ph, hget, hlive⟩ := hk
      obtain rfl := Option.some.inj (hget.symm.trans hreturned)
      exact hlive trivial
  rintro _ v hv
  refine Wp.bind ((ownerAct_wp (a := .storeThread none)
    (P := fun s => s.gone = false ∧ ∀ k, ¬s.Live k)
    (Q := fun _ => Vacant fun _ => True)
    (fun hr h => ⟨hr.gone.trans h.1, hr.none h.2⟩)
    (fun hr h => h.rely hr) ⟨hv.1.2, hv.2⟩ ?_).mono ?_)
  · rintro w r w' hw ⟨⟩
    exact ⟨.owner rfl rfl (fun _ _ h => h), hw.2, hw.1, rfl, trivial⟩
  rintro _ w hw
  exact owner_ret hrely ⟨rfl, hw⟩

/-- **`~MessageManager`** -/
theorem messageManagerDestroy_wp (h : s.Idle) (hkept : s.gone = false) :
    messageManagerDestroy.Wp (lifeSpec .owner .owner)
      (fun _ => Vacant fun _ => True) s := by
  refine Wp.bind ((messageManagerStop_wp h hkept).mono ?_)
  rintro ok t ⟨-, ht⟩
  exact owner_ret (fun hr h => h.rely hr) ht

/-! ## The threads -/

/-- What ends a turn that goes on until it is stopped. -/
theorem turnBody_returns (m : MessageManagerStruct) (maxqLength : UInt64)
    (hlr : MessageHandlerProg) (l : RunLocals) :
    (turnBody .user m maxqLength hlr l).Returns (· ≠ .exit true) := by
  have hagain : ∀ l, (.ret (.again l) : MgrProg TurnEnd).Returns
      (· ≠ .exit true) := fun _ h => nomatch h
  have herror : (.ret (.exit false) : MgrProg TurnEnd).Returns
      (· ≠ .exit true) := fun h => nomatch h
  refine Returns.bind (fun l' => Returns.ite herror
    (Returns.ite (hagain _) ?_)) _
  refine Returns.bind (fun ok => Returns.bind (fun last => ?_) _) _
  exact Returns.ite (hagain _) (Returns.bind (fun _ => hagain _) _)

/-- Whatever the thread does, it is live while it does it. -/
theorem live_wp (p : MgrProg α) (h : s.Live n) :
    p.Wp (lifeSpec .mgr (.thread n)) (fun _ s => s.Live n) s := by
  refine Wp.all (All.of_forall (fun _ => trivial) p)
    (T := fun _ => True) (fun _ _ ht hr => ThreadRely.live hr ht)
    (fun a t _ ht => ⟨ht, fun r u hu => ?_⟩) h
  cases hu with
  | loadStopped => exact ⟨Guar.refl (.thread n) _, ht⟩
  | other ha r => exact ⟨Guar.refl (.thread n) _, ht⟩

/-- **A turn of a live thread.** -/
theorem messageManagerTurn_stopped (m : MessageManagerStruct)
    (maxqLength : UInt64) (hlr : MessageHandlerProg) (l : RunLocals)
    (h : s.Live n) :
    (messageManagerTurn .user m maxqLength hlr l).Wp
      (lifeSpec .mgr (.thread n))
      (fun v s => s.Live n ∧ (v = .exit true → s.stopped = true)) s := by
  rw [messageManagerTurn_eq]
  refine Wp.act_of (P := fun s : LifeState => s.Live n)
    (fun _ _ ht hr => ThreadRely.live hr ht) h
    (fun t ht => ⟨ht, fun r u hu => ?_⟩)
  cases hu with
  | other ha r => exact absurd rfl ha
  | loadStopped =>
    refine ⟨Guar.refl (.thread n) _, ?_⟩
    split
    · next hstopped =>
      exact Wp.ret_of (P := fun s : LifeState => s.Live n ∧ s.stopped = true)
        (fun _ _ ht hr => ⟨ThreadRely.live hr ht.1, (hr ht.1).2 ht.2⟩)
        ⟨ht, hstopped⟩ (fun _ ht => ⟨ht.1, fun _ => ht.2⟩)
    · exact ((live_wp _ ht).returns (turnBody_returns m maxqLength hlr l)).mono
        (fun v s hv => ⟨hv.2, fun hexit => absurd hexit hv.1⟩)

end Programs

/-! ## The two of them -/

section Machine

variable {m : MessageManagerStruct} {maxqLength : UInt64} {s : LifeState}
  {initialised : Bool}

/-- What holds while a party calls nothing. -/
def LifeState.AtRest : LifeParty → LifeState → Prop
  | .owner, s => s.Idle
  | .thread _, _ => True

/-- What holds when a call is about to return. -/
def LifeCall.Post : LifeParty → (c : LifeCall) → c.Ret → LifeState → Prop
  | .owner, .start, ok => StartPost ok
  | .owner, .stop, ok => fun s => ok = true ∧ Vacant (fun _ => True) s
  | .owner, .destroy, _ => Vacant fun _ => True
  | .thread n, .enter _, _ => fun s => s.Live n
  | .thread n, .turn _, v => fun s =>
    s.Live n ∧ (v = .exit true → s.stopped = true)
  | _, _, _ => fun _ => False

theorem Vacant.idle {C : Bool → Prop} (h : Vacant C s) : s.Idle :=
  ⟨fun _ => h.none, (fun _ hn => nomatch h.thread.symm.trans hn),
    fun _ => h.thread⟩

/-- **The destructor returns.** -/
theorem Vacant.destroyed {C : Bool → Prop} (h : Vacant C s) :
    Guar .owner s { s with gone := true } ∧ Idle { s with gone := true } :=
  ⟨⟨fun hs => ⟨hs.one, fun _ => h.none⟩, fun _ hn => absurd hn (h.none _)⟩,
    fun _ => h.none, (fun _ hn => nomatch h.thread.symm.trans hn),
    fun _ => h.thread⟩

/-- **The proof of the class.** -/
def lifeOutline (m : MessageManagerStruct) (maxqLength : UInt64) :
    (lifeMachine m maxqLength).Outline where
  rely := Rely
  guar := Guar
  safe x _ _ := Safe x
  idle := AtRest
  post := LifeCall.Post
  rely_refl := Rely.refl
  rely_trans x := Rely.trans x
  guar_rely hxy h := h.rely hxy
  idle_stable {x s s'} h hr := by
    cases x with
    | owner => exact OwnerRely.idle hr h
    | thread n => trivial
  call_ok {x s c} h hmay := by
    refine ⟨Guar.refl x s, ?_⟩
    cases x with
    | owner =>
      cases c with
      | start => exact inLife_wp (messageManagerStart_wp h hmay)
      | stop => exact inLife_wp (messageManagerStop_wp h hmay)
      | destroy => exact inLife_wp (messageManagerDestroy_wp h hmay)
      | enter buffer => exact hmay.elim
      | turn l => exact hmay.elim
    | thread n =>
      cases c with
      | enter buffer => exact inLife_wp (live_wp _ ⟨_, hmay, id⟩)
      | turn l =>
        exact inLife_wp (messageManagerTurn_stopped m maxqLength _ l
          ⟨_, hmay, id⟩)
      | start => exact hmay.elim
      | stop => exact hmay.elim
      | destroy => exact hmay.elim
  ret_ok {x s c v} h := by
    cases x with
    | owner =>
      cases c with
      | start => exact ⟨Guar.refl .owner s, h.idle⟩
      | stop => exact ⟨Guar.refl .owner s, h.2.idle⟩
      | destroy => exact h.destroyed
      | enter buffer => exact h.elim
      | turn l => exact h.elim
    | thread n =>
      cases c with
      | enter buffer => exact ⟨.setThread h (fun hc => nomatch hc), trivial⟩
      | turn l =>
        cases v with
        | again l' =>
          exact ⟨.setThread h.1 (fun hc => nomatch hc), trivial⟩
        | exit ok =>
          refine ⟨.setThread h.1 (fun hc => h.2 ?_), trivial⟩
          rw [ManagerPhase.returned.inj hc]
      | start => exact h.elim
      | stop => exact h.elim
      | destroy => exact h.elim

/-- What is asserted of an object that has been constructed. -/
theorem LifeState.AtRest.constructed (initialised : Bool) (x : LifeParty) :
    (LifeState.constructed initialised).AtRest x := by
  have hnone : ∀ n, ¬(LifeState.constructed initialised).Live n :=
    fun n ⟨_, hget, _⟩ => nomatch hget
  cases x with
  | owner => exact ⟨fun _ => hnone, (fun _ hn => nomatch hn), fun _ => rfl⟩
  | thread n => trivial

/-- A thread is inside a call only while it is live. -/
theorem live_of_pc {x : (lifeMachine m maxqLength).Conf} {n : ℕ}
    (hx : Machine.Reach _
      (Machine.start _ (LifeState.constructed initialised)) x)
    (hpc : x.pc (.thread n) ≠ none) : x.st.Live n := by
  have hrest := LifeState.AtRest.constructed initialised
  obtain ⟨⟨c, p⟩, hp⟩ := Option.ne_none_iff_exists'.mp hpc
  cases p with
  | act a k => exact (lifeOutline m maxqLength).safe_of_reach hrest hx hp
  | ret v =>
    have hpost := (lifeOutline m maxqLength).post_of_reach hrest hx hp
    cases c with
    | enter buffer => exact hpost
    | turn l => exact hpost.1
    | start => exact hpost.elim
    | stop => exact hpost.elim
    | destroy => exact hpost.elim

end Machine

/-- **A `MessageManager` is started and stopped** by its owner, in any order
and as often as it likes, while its threads run. There is never more than one
thread that has not returned, and only that one accesses rings and calls
handlers. While the owner calls nothing, either there is no thread, or there
is the one that was started last, which goes on unless `message_manager_run`
has failed, and no other one is live then either. `start` refuses only what is
not initialised or has been started. When `stop` is about to return there is
no thread, nor is there one ever again when the destructor has returned. -/
theorem start_stop {m : MessageManagerStruct} {maxqLength : UInt64}
    {initialised : Bool} {x : (lifeMachine m maxqLength).Conf}
    (hx : Machine.Reach _
      (Machine.start _ (LifeState.constructed initialised)) x) :
    (∀ n k, x.st.Live n → x.st.Live k → n = k)
      ∧ (∀ n, x.pc (.thread n) ≠ none → x.st.Live n)
      ∧ (x.pc .owner = none →
        (x.st.thread = none → ∀ n, ¬x.st.Live n)
        ∧ ∀ n, x.st.thread = some n → n + 1 = x.st.threads.length
          ∧ (∀ k, x.st.Live k → k = n)
          ∧ (x.st.Live n ∨ x.st.threads[n]? = some (.returned false)))
      ∧ (∀ ok : Bool, x.pc .owner = some ⟨.start, .ret ok⟩ →
        if ok = true then x.st.thread.isSome = true
        else x.st.initialised = false ∨ x.st.thread.isSome = true)
      ∧ (∀ ok : Bool, x.pc .owner = some ⟨.stop, .ret ok⟩ →
        ok = true ∧ ∀ n, ¬x.st.Live n)
      ∧ (x.st.gone = true → ∀ n, ¬x.st.Live n) := by
  have hrest := LifeState.AtRest.constructed initialised
  have hinv : x.st.Inv :=
    (lifeOutline m maxqLength).invariant (fun hg hs => Guar.inv hg hs) hrest
      ⟨(fun n k ⟨_, hget, _⟩ => nomatch hget), (fun h => nomatch h)⟩ hx
  refine ⟨hinv.one, fun n hpc => live_of_pc hx hpc, fun hpc => ?_,
    fun ok hpc => ?_, fun ok hpc => ?_, hinv.gone⟩
  · have hidle : x.st.Idle :=
      (lifeOutline m maxqLength).idle_of_reach hrest hx hpc
    refine ⟨hidle.none, fun n hn => ?_⟩
    have hstarted := hidle.some n hn
    refine ⟨hstarted.created, hstarted.last, ?_⟩
    obtain ⟨ph, hget⟩ : ∃ ph, x.st.threads[n]? = some ph :=
      ⟨_, List.getElem?_eq_getElem (Nat.lt_of_succ_le hstarted.created.le)⟩
    cases ph with
    | returned ok =>
      cases ok with
      | true => exact absurd hget hstarted.goesOn
      | false => exact .inr hget
    | ready => exact .inl ⟨_, hget, id⟩
    | running l => exact .inl ⟨_, hget, id⟩
  · have hpost : StartPost ok x.st :=
      (lifeOutline m maxqLength).post_of_reach hrest hx hpc
    cases ok with
    | true => exact hpost.running rfl
    | false => exact hpost.refused rfl
  · have hpost : ok = true ∧ Vacant (fun _ => True) x.st :=
      (lifeOutline m maxqLength).post_of_reach hrest hx hpc
    exact ⟨hpost.1, hpost.2.none⟩

/-! ## A run -/

/-- What an action does, in a manager with no rings. -/
def lifeExec (a : LifeAct) (s : LifeState) : Option (a.Res × LifeState) :=
  match a with
  | .owner .loadInitialised => some (s.initialised, s)
  | .owner .loadThread => some (s.thread, s)
  | .owner (.storeStopped b) => some ((), { s with stopped := b })
  | .owner .createThread =>
    some (s.threads.length, { s with threads := s.threads ++ [.ready] })
  | .owner (.storeThread t) => some ((), { s with thread := t })
  | .owner .join =>
    match s.thread with
    | none => none
    | some n =>
      match s.threads[n]? with
      | some (.returned _) => some ((), s)
      | _ => none
  | .mgr .loadStopped => some (s.stopped, s)
  | .mgr .clock => some (0, s)
  | .mgr .workhlr => some (true, s)
  | .mgr (.timerhlr _) | .mgr (.usleep _) => some ((), s)
  | .mgr _ => none

theorem lifeExec_sem {a : LifeAct} {s s' : LifeState} {r : a.Res}
    (h : lifeExec a s = some (r, s')) : LifeSem a s r s' := by
  cases a with
  | owner a =>
    cases a with
    | join =>
      simp only [lifeExec] at h
      split at h
      · exact nomatch h
      · next n hthread =>
        split at h
        · next ok hreturned =>
          obtain ⟨rfl, rfl⟩ := Prod.mk.inj (Option.some.inj h)
          exact .join hthread hreturned
        · exact nomatch h
    | _ =>
      obtain ⟨rfl, rfl⟩ := Prod.mk.inj (Option.some.inj h)
      constructor
  | mgr a =>
    cases a with
    | loadStopped =>
      obtain ⟨rfl, rfl⟩ := Prod.mk.inj (Option.some.inj h)
      exact .loadStopped
    | clock =>
      obtain ⟨rfl, rfl⟩ := Prod.mk.inj (Option.some.inj h)
      exact .other (a := .clock) (fun hc => nomatch hc) _
    | workhlr =>
      obtain ⟨rfl, rfl⟩ := Prod.mk.inj (Option.some.inj h)
      exact .other (a := .workhlr) (fun hc => nomatch hc) _
    | timerhlr now =>
      obtain ⟨rfl, rfl⟩ := Prod.mk.inj (Option.some.inj h)
      exact .other (a := .timerhlr now) (fun hc => nomatch hc) _
    | usleep t =>
      obtain ⟨rfl, rfl⟩ := Prod.mk.inj (Option.some.inj h)
      exact .other (a := .usleep t) (fun hc => nomatch hc) _
    | _ => exact nomatch h

/-- A manager with no rings, and its owner. -/
abbrev smallLife : Machine LifeParty LifeAct LifeAct.Res LifeState :=
  lifeMachine (messageManagerInit 1 2 3 4) 0

/-- The owner begins a call. -/
def ownerCalls (c : LifeCall)
    (hc : ∀ s : LifeState, s.gone = false → c.May s .owner) :
    smallLife.Cmd :=
  .call .owner (fun s => if h : s.gone = false then some ⟨c, hc s h⟩ else none)

/-- The first thread makes its next call, and returns from it. -/
def threadGoesOn : List smallLife.Cmd :=
  [.call (.thread 0) (fun s : LifeState =>
    match h : s.threads[0]? with
    | some ManagerPhase.ready => some ⟨LifeCall.enter (fun _ => 0), h⟩
    | some (ManagerPhase.running l) => some ⟨LifeCall.turn l, h⟩
    | _ => none), .finish (.thread 0)]

/-- **A thread is stopped** while it is at work. -/
theorem start_stop_once : ∃ x : smallLife.Conf,
    x.st.threads.length = 1 ∧ ∀ n, ¬x.st.Live n := by
  obtain ⟨cmds, hcmds⟩ : ∃ cmds : List smallLife.Cmd,
      cmds = [ownerCalls .start (fun _ h => h), .finish .owner]
        ++ threadGoesOn ++ [ownerCalls .stop (fun _ h => h), .acts .owner 1]
        ++ threadGoesOn ++ [.acts .owner 1] ++ threadGoesOn
        ++ [.finish .owner] := ⟨_, rfl⟩
  have hrun : ((cmds.foldlM (smallLife.perform fun _ _ => lifeExec)
      (Machine.start _ (LifeState.constructed true))).map fun x =>
        (x.st.threads.length, x.st.thread, (x.pc .owner).isNone))
      = some (1, none, true) := by
    subst hcmds
    decide +kernel
  obtain ⟨x, hx, hall⟩ := Option.map_eq_some_iff.mp hrun
  obtain ⟨hlength, hrest⟩ := Prod.mk.inj hall
  obtain ⟨hthread, hpc⟩ := Prod.mk.inj hrest
  have hreach : smallLife.Reach _ x :=
    Machine.Reach.schedule (M := smallLife)
      (fun _ _ _ _ _ _ h => lifeExec_sem h) hx
  obtain ⟨-, -, hidle, -⟩ := start_stop hreach
  exact ⟨x, hlength, (hidle (Option.isNone_iff_eq_none.mp hpc)).1 hthread⟩
