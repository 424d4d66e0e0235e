import Kucomms.DeviceFunctions
import Kucomms.ExclusiveOpen

/-!
# No handler after unregistration

Once `kucomms_unregister` has returned `true`, the module that registered
the handlers may be gone. `unregister_safe` says that no kernel thread calls
one then, provided that whenever `kucomms_unregister` found the open flag
clear, no release was between clearing it and the end of its `kthread_stop`
with a thread that might still run.

The functions do not see to that: `kucomms_fops_release` clears the flag
first and stops the thread afterwards, and in between
`kucomms_unregister` finds the flag clear (`unregister_races_release`).
-/

open Prog

open DeviceState

section Proof

variable {ι F : Type} [DecidableEq ι] [DecidableEq F]
  {stopped : DeviceState ι F → Prop} {name : Name} {hz : UInt64}

/-- **When a call is about to return.** -/
def devicePost (name : Name) :
    Agent ι F → (c : DeviceCall F) → c.Ret → DeviceState ι F → Prop
  | .caller i, .fopsOpen f, v, s =>
    s.Inv name ∧ s.phase f = if v = 0 then .holding i else .opening i
  | .caller i, .fopsMmap f _, _, s => s.Inv name ∧ s.mapping i = some f
  | .caller i, .fopsRelease f, _, s =>
    s.Inv name ∧ s.phase f = .closing i ∧ ¬s.Active f
  | .caller _, .unregister, ok, s =>
    s.Inv name ∧ (ok = true → s.entry name = none)
  | .kthread g, .threadEnter f _, _, s =>
    g = f ∧ s.Inv name ∧ s.Running f
  | .kthread g, .threadTurn f _ _, _, s =>
    g = f ∧ s.Inv name ∧ s.Running f
  | _, _, _, _ => False

theorem device_call_ok (hstopped : ∀ s : DeviceState ι F, stopped s →
      ∀ f, (s.phase f).Closing → ¬s.Active f)
    {a : Agent ι F} {s : DeviceState ι F} {c : DeviceCall F}
    (hs : s.Inv name) (hmay : c.may s a) :
    Moves name a s (c.onCall a s)
      ∧ (c.prog name hz).Wp (deviceSpec stopped name a c)
        (devicePost name a c) (c.onCall a s) := by
  cases a with
  | caller i =>
    cases c with
    | fopsOpen f =>
      have hfresh : s.phase f = .fresh := hmay
      have hmoves : Moves name (.caller i) s (s.setPhase f (.opening i)) := by
        refine Moves.setPhase False.elim (fun hf => ?_) (fun j hj => ?_)
          (fun j hj => ?_)
        · exact (hfresh ▸ hs.served f hf : FilePhase.fresh.Served)
        · exact nomatch hfresh.symm.trans (hs.mapped j f hj)
        · rw [hfresh] at hj
          exact hj.elim
      exact ⟨hmoves, fopsOpen_wp ⟨(hmoves hs).1, setPhase_self s f _⟩⟩
    | fopsMmap f len =>
      have hlive : s.phase f = .live := hmay
      have hmoves : Moves name (.caller i) s (s.setMapping i (some f)) := by
        refine Moves.setMapping (fun g hg => ?_)
        obtain rfl := Option.some.inj hg
        exact hlive
      exact ⟨hmoves, fopsMmap_wp ⟨(hmoves hs).1, setMapping_self s i _⟩⟩
    | fopsRelease f =>
      obtain ⟨hlive, hunmapped⟩ :
        s.phase f = .live ∧ ∀ j, s.mapping j ≠ some f := hmay
      have hmoves : Moves name (.caller i) s
          (s.setPhase f (.releasing i)) := by
        refine Moves.setPhase (fun _ => hlive ▸ trivial) (fun _ => trivial)
          (fun j hj => absurd hj (hunmapped j)) (fun j hj => ?_)
        rw [hlive] at hj
        exact hj.elim
      exact ⟨hmoves, fopsRelease_wp ⟨(hmoves hs).1, setPhase_self s f _⟩⟩
    | unregister =>
      exact ⟨fun h => ⟨h, fun b _ => Frame.refl b s⟩,
        unregister_wp hstopped hs⟩
    | threadEnter f buffer => exact hmay.elim
    | threadTurn f pfd l => exact hmay.elim
  | kthread g =>
    cases c with
    | threadEnter f buffer =>
      obtain ⟨rfl, hwoken, -⟩ : f = g ∧ (s.files f).thread = .woken
        ∧ (s.files f).shouldStop = false := hmay
      have hmoves : Moves name (.kthread f) s
          (s.setThread f (.running ⟨0, 0, buffer⟩)) := by
        refine Moves.setFile (fun _ => ?_) (fun h => absurd rfl h)
        unfold Active
        rw [hwoken]
        trivial
      refine ⟨hmoves, (thread_wp _ rfl ⟨(hmoves hs).1, ?_⟩).mono
        (fun _ _ h => ⟨rfl, h⟩)⟩
      show ThreadState.Running _
      rw [setThread, setFile_self]
      trivial
    | threadTurn f pfd l =>
      obtain ⟨rfl, hrunning, -⟩ : f = g ∧ (s.files f).thread = .running l
        ∧ pfd = (s.files f).pfd := hmay
      refine ⟨fun h => ⟨h, fun b _ => Frame.refl b s⟩,
        (thread_wp _ rfl ⟨hs, ?_⟩).mono (fun _ _ h => ⟨rfl, h⟩)⟩
      show ThreadState.Running _
      rw [hrunning]
      trivial
    | fopsOpen f => exact hmay.elim
    | fopsMmap f len => exact hmay.elim
    | fopsRelease f => exact hmay.elim
    | unregister => exact hmay.elim

theorem device_ret_ok {a : Agent ι F} {s : DeviceState ι F} {c : DeviceCall F}
    {v : c.Ret} (h : devicePost name a c v s) :
    Moves name a s (c.onRet a v s) ∧ (c.onRet a v s).Inv name := by
  -- the invariant is part of what a move keeps
  have hkeep : ∀ {s'}, s.Inv name → Moves name a s s' →
      Moves name a s s' ∧ s'.Inv name := fun hs hm => ⟨hm, (hm hs).1⟩
  cases a with
  | caller i =>
    cases c with
    | fopsOpen f =>
      obtain ⟨hs, hphase⟩ := h
      refine hkeep hs ?_
      by_cases hv : v = 0
      · subst hv
        have hphase : s.phase f = .holding i := hphase
        refine Moves.setPhase (fun _ => hphase ▸ trivial) (fun _ => trivial)
          (fun _ _ => rfl) (fun j hj => ?_)
        rw [hphase] at hj
        exact congrArg Agent.caller hj
      · rw [if_neg hv] at hphase
        have hclosed : (DeviceCall.fopsOpen f).onRet (.caller i) v s
            = s.setPhase f .closed := by
          show s.setPhase f (if v = 0 then _ else _) = _
          rw [if_neg hv]
        rw [hclosed]
        refine Moves.setPhase False.elim (fun hf => ?_) (fun j hj => ?_)
          (fun j hj => ?_)
        · exact (hphase ▸ hs.served f hf : (FilePhase.opening i).Served).elim
        · exact nomatch hphase.symm.trans (hs.mapped j f hj)
        · rw [hphase] at hj
          exact congrArg Agent.caller hj
    | fopsMmap f len =>
      exact hkeep h.1 (Moves.setMapping (fun _ hf => nomatch hf))
    | fopsRelease f =>
      obtain ⟨hs, hphase, hinactive⟩ := h
      refine hkeep hs (Moves.setPhase False.elim
        (fun hf => absurd hf hinactive) (fun j hj => ?_) (fun j hj => ?_))
      · exact nomatch hphase.symm.trans (hs.mapped j f hj)
      · rw [hphase] at hj
        exact congrArg Agent.caller hj
    | unregister => exact hkeep h.1 (Moves.unregister h.2)
    | threadEnter f buffer => exact h.elim
    | threadTurn f pfd l => exact h.elim
  | kthread g =>
    cases c with
    | threadEnter f buffer =>
      obtain ⟨rfl, hs, hrunning⟩ := h
      exact hkeep hs (Moves.setFile (fun _ => hrunning.active)
        (fun h => absurd rfl h))
    | threadTurn f pfd l =>
      obtain ⟨rfl, hs, hrunning⟩ := h
      cases v with
      | again l' =>
        exact hkeep hs (Moves.setFile (fun _ => hrunning.active)
          (fun h => absurd rfl h))
      | exit ok =>
        exact hkeep hs (Moves.setFile False.elim (fun h => absurd rfl h))
    | fopsOpen f => exact h.elim
    | fopsMmap f len => exact h.elim
    | fopsRelease f => exact h.elim
    | unregister => exact h.elim

/-- **The proof outline** of the threads around a device. -/
def deviceOutline (hstopped : ∀ s : DeviceState ι F, stopped s →
      ∀ f, (s.phase f).Closing → ¬s.Active f) :
    (deviceMachine stopped name hz).Outline where
  rely := Rely name
  guar := Moves name
  safe _ c := c.Safe
  idle _ s := s.Inv name
  post a c := devicePost name a c
  rely_refl := Rely.refl name
  rely_trans _ := Rely.trans
  guar_rely hab h := h.rely hab
  idle_stable hs h := (h hs).1
  call_ok hs hmay := device_call_ok hstopped hs hmay
  ret_ok h := device_ret_ok h

end Proof

/-! ## The theorem -/

/-- **No release is in between**: a file whose mark `kucomms_fops_release`
has cleared has no thread that may still run. -/
def DeviceState.Stopped {ι F : Type} (s : DeviceState ι F) : Prop :=
  ∀ f, (s.phase f).Closing → ¬s.Active f

/-- **No handler runs after unregistration** if `kucomms_unregister` finds
the mark clear only when no release is in between: from tables that any
operations have led to, in any interleaving, whoever is about to call a
handler does it before `kucomms_unregister` has returned `true`. -/
theorem unregister_safe {ι F : Type} [DecidableEq ι] [DecidableEq F]
    {name : Name} {hz : UInt64} {r : Registry} {ops : List RegistryOp}
    {pfd : F → KucommsFileData}
    {x : (deviceMachine (ι := ι) (F := F) Stopped name hz).Conf}
    (hx : (deviceMachine Stopped name hz).Reach (Machine.start _
      (.init ι F (Object.run RegistryOp.step ops (kucommsInit r)).2 pfd)) x)
    {a : Agent ι F} {c : DeviceCall F} {b : MgrAct}
    {k : b.Res → FopsProg c.Ret} {f : F}
    (hpc : x.pc a = some ⟨c, .act (.thread b) k⟩) (hf : c.file = some f)
    (hhandler : b.handler (x.st.files f).pfd.cbdata.callbacks ≠ none) :
    x.st.unregistered = false := by
  obtain ⟨-, hstores⟩ := registry_refines r ops
  have hinit : (DeviceState.init ι F
      (Object.run RegistryOp.step ops (kucommsInit r)).2 pfd).Inv name :=
    ⟨hstores.distinct .cblist, fun _ h => h.elim,
      fun _ _ => ⟨id, id⟩, fun _ _ h => h.elim, fun _ _ h => h.elim,
      (fun _ _ h => nomatch h), (fun h => nomatch h)⟩
  have hsafe : c.Safe (.thread b) x.st :=
    (deviceOutline (fun _ h => h)).safe_of_reach (fun _ => hinit) hx hpc
  exact hsafe f b hf rfl hhandler

/-! ## A schedule -/

instance {ι : Type} (p : FilePhase ι) : Decidable p.Closing :=
  match p with
  | .closing _ => .isTrue trivial
  | .fresh | .opening _ | .holding _ | .live | .releasing _ | .closed =>
    .isFalse id

instance (t : ThreadState) : Decidable t.Active :=
  match t with
  | .woken | .running _ => .isTrue trivial
  | .none | .created | .exited => .isFalse id

instance (t : ThreadState) : Decidable t.Running :=
  match t with
  | .running _ => .isTrue trivial
  | .none | .created | .woken | .exited => .isFalse id

instance : DecidablePred (DeviceState.Stopped (ι := Bool) (F := Unit)) :=
  fun s => inferInstanceAs (Decidable
    (∀ f, (s.phase f).Closing → ¬(s.files f).thread.Active))

section Schedule

variable {stopped : DeviceState Bool Unit → Prop} [DecidablePred stopped]

/-- What an action does in the environment `FopsEnv.calm`, if it is
possible. -/
def deviceExec (stopped : DeviceState Bool Unit → Prop)
    [DecidablePred stopped] (a : Agent Bool Unit) (c : DeviceCall Unit)
    (x : FopsAct) (s : DeviceState Bool Unit) :
    Option (x.Res × DeviceState Bool Unit) :=
  match x with
  | .registry .lock =>
    if s.owner = none then some (.acquired, { s with owner := some a })
    else none
  | .registry .unlock => some ((), { s with owner := none })
  | .registry (.act b) =>
    if findsClear s.registry c b = true ∧ ¬stopped s then none
    else some ((b.exec .unused s.registry).1,
      { c.onTable a b s with registry := (b.exec .unused s.registry).2 })
  | .kthreadStopWait =>
    if (s.files ()).thread.Running then none
    else c.file.map (fun f => s.fileStep .calm f .kthreadStopWait)
  | x => c.file.map (fun f => s.fileStep .calm f x)

theorem deviceExec_sem (a : Agent Bool Unit) (c : DeviceCall Unit)
    (x : FopsAct) (s : DeviceState Bool Unit) (r : x.Res)
    (s' : DeviceState Bool Unit)
    (h : deviceExec stopped a c x s = some (r, s')) :
    DeviceSem stopped a c x s r s' := by
  cases x with
  | registry b =>
    cases b with
    | lock =>
      obtain ⟨hfree, h⟩ := Option.ite_none_right_eq_some.mp h
      obtain ⟨rfl, rfl⟩ := Prod.mk.inj (Option.some.inj h)
      exact .lock hfree
    | unlock =>
      obtain ⟨rfl, rfl⟩ := Prod.mk.inj (Option.some.inj h)
      exact .unlock
    | act b =>
      obtain ⟨hlooks, h⟩ := Option.ite_none_left_eq_some.mp h
      obtain ⟨rfl, rfl⟩ := Prod.mk.inj (Option.some.inj h)
      exact .table b (fun hclear => of_not_not (not_and.mp hlooks hclear))
  | kthreadStopWait =>
    obtain ⟨hrunning, h⟩ := Option.ite_none_left_eq_some.mp h
    obtain ⟨f, hf, h⟩ := Option.map_eq_some_iff.mp h
    obtain ⟨rfl, rfl⟩ := Prod.mk.inj h
    exact .file .calm _ hf rfl hrunning
  | _ =>
    obtain ⟨f, hf, h⟩ := Option.map_eq_some_iff.mp h
    obtain ⟨rfl, rfl⟩ := Prod.mk.inj h
    exact .file .calm _ hf rfl trivial

end Schedule

/-- The commands of a schedule of two callers and one file. -/
abbrev DeviceCmd (stopped : DeviceState Bool Unit → Prop) : Type :=
  (deviceMachine stopped deviceA 100).Cmd

/-- A caller begins a call it may make. -/
def DeviceCmd.begin {stopped : DeviceState Bool Unit → Prop} (i : Bool)
    (c : DeviceCall Unit) [∀ s, Decidable (c.may s (.caller i))] :
    DeviceCmd stopped :=
  .call (.caller i) (fun s =>
    if h : c.may s (.caller i) then some ⟨c, h⟩ else none)

/-- The kernel thread gets to its function. -/
def DeviceCmd.enter {stopped : DeviceState Bool Unit → Prop} :
    DeviceCmd stopped :=
  .call (.kthread ()) (fun s =>
    match hthread : (s.files ()).thread, hstop : (s.files ()).shouldStop with
    | .woken, false =>
      some ⟨.threadEnter () (fun _ => 0), rfl, hthread, hstop⟩
    | _, _ => none)

/-- The kernel thread begins a turn of its loop. -/
def DeviceCmd.turn {stopped : DeviceState Bool Unit → Prop} :
    DeviceCmd stopped :=
  .call (.kthread ()) (fun s =>
    match hthread : (s.files ()).thread with
    | .running l =>
      some ⟨.threadTurn () (s.files ()).pfd l, rfl, hthread, rfl⟩
    | _ => none)

instance (s : DeviceState Bool Unit) (i : Bool) (f : Unit) :
    Decidable ((DeviceCall.fopsOpen f).may s (.caller i)) :=
  inferInstanceAs (Decidable (s.phase f = .fresh))

instance (s : DeviceState Bool Unit) (i : Bool) (f : Unit) (len : UInt64) :
    Decidable ((DeviceCall.fopsMmap f len).may s (.caller i)) :=
  inferInstanceAs (Decidable (s.phase f = .live))

instance (s : DeviceState Bool Unit) (i : Bool) (f : Unit) :
    Decidable ((DeviceCall.fopsRelease f).may s (.caller i)) :=
  inferInstanceAs (Decidable (s.phase f = .live ∧ ∀ j, s.mapping j ≠ some f))

instance (s : DeviceState Bool Unit) (i : Bool) :
    Decidable ((DeviceCall.unregister : DeviceCall Unit).may s (.caller i)) :=
  inferInstanceAs (Decidable True)

/-- **A caller opens the device and maps it, and its kernel thread gets to
the call of the work handler.** -/
def serveToWork (stopped : DeviceState Bool Unit → Prop) :
    List (DeviceCmd stopped) :=
  [.begin false (.fopsOpen ()), .finish (.caller false),
    .begin false (.fopsMmap () 8192), .finish (.caller false),
    .enter, .finish (.kthread ()),
    -- the two flags, and the two indices of the ring
    .turn, .acts (.kthread ()) 4]

/-- One device and its callbacks. -/
def deviceOps : List RegistryOp :=
  [.create deviceA chrdevOk, .register deviceA ⟨1, 2, 3, 4⟩]

/-- The device with its callbacks, and one file that is not open. -/
def deviceStart (stopped : DeviceState Bool Unit → Prop) :
    (deviceMachine stopped deviceA 100).Conf :=
  Machine.start _ (.init Bool Unit
    (Object.run RegistryOp.step deviceOps (kucommsInit .blank)).2
    (fun _ => .blank))

/-- Whether a thread is about to call the work handler. -/
def atWork {stopped : DeviceState Bool Unit → Prop} :
    (deviceMachine stopped deviceA 100).Pc → Bool
  | some ⟨.threadTurn _ _ _, .act (.thread .workhlr) _⟩ => true
  | _ => false

theorem atWork_iff {stopped : DeviceState Bool Unit → Prop}
    {pc : (deviceMachine stopped deviceA 100).Pc} (h : atWork pc = true) :
    ∃ (c : DeviceCall Unit) (k : Bool → FopsProg c.Ret),
      pc = some ⟨c, .act (.thread .workhlr) k⟩ ∧ c.file = some () := by
  unfold atWork at h
  split at h
  · exact ⟨_, _, rfl, rfl⟩
  · exact nomatch h

/-- The work handler is about to be called, one call of `kucomms_unregister`
has found the mark set and returned `false`, `kucomms_fops_release` has
cleared the mark, and the next `kucomms_unregister` has begun. -/
def releaseAtWork (stopped : DeviceState Bool Unit → Prop) :
    List (DeviceCmd stopped) :=
  serveToWork stopped
    ++ [.begin true .unregister, .finish (.caller true),
      -- the mutex, the lookup, the store to the mark, and the mutex again
      .begin false (.fopsRelease ()), .acts (.caller false) 13,
      .begin true .unregister]

/-- The thread is told to stop, ends its turn and its loop, and both calls
return. -/
def releaseEnds (stopped : DeviceState Bool Unit → Prop) :
    List (DeviceCmd stopped) :=
  -- what `private_data` points to, and `kthread_stop`
  [.acts (.caller false) 2, .finish (.kthread ()), .turn, .finish (.kthread ()),
    .finish (.caller false), .finish (.caller true)]

/-- **A run in which the work handler is called** while the file is released
and the callbacks are unregistered: the registration is gone only when the
thread has ended. -/
theorem unregister_safe_at_work :
    ∃ x y : (deviceMachine (ι := Bool) (F := Unit) Stopped deviceA 100).Conf,
      (∃ (c : DeviceCall Unit) (k : Bool → FopsProg c.Ret),
        x.pc (.kthread ()) = some ⟨c, .act (.thread .workhlr) k⟩)
      ∧ x.st.phase () = .closing false
      ∧ x.st.unregistered = false
      ∧ (deviceMachine Stopped deviceA 100).Reach x y
      ∧ y.st.unregistered = true := by
  have hsome : ((releaseAtWork Stopped).foldlM
      (Machine.perform _ (deviceExec Stopped)) (deviceStart Stopped)).isSome
      = true := by decide +kernel
  obtain ⟨x, hx⟩ := Option.isSome_iff_exists.mp hsome
  have hwork : (((releaseAtWork Stopped).foldlM
      (Machine.perform _ (deviceExec Stopped)) (deviceStart Stopped)).all
        fun x => atWork (x.pc (.kthread ())) && decide (x.st.phase ()
          = .closing false) && (MgrAct.workhlr.handler
          (x.st.files ()).pfd.cbdata.callbacks).isSome) = true := by
    decide +kernel
  have hends : (((releaseAtWork Stopped).foldlM
      (Machine.perform _ (deviceExec Stopped)) (deviceStart Stopped)).bind
        ((releaseEnds Stopped).foldlM
          (Machine.perform _ (deviceExec Stopped)))).map
        (fun y => y.st.unregistered) = some true := by decide +kernel
  rw [hx] at hwork hends
  obtain ⟨hwork, hhandler⟩ := Bool.and_eq_true_iff.mp hwork
  obtain ⟨hat, hphase⟩ := Bool.and_eq_true_iff.mp hwork
  obtain ⟨c, k, hpc, hf⟩ := atWork_iff hat
  obtain ⟨y, hy, hgone⟩ := Option.map_eq_some_iff.mp hends
  exact ⟨x, y, ⟨c, k, hpc⟩, of_decide_eq_true hphase, unregister_safe
    (Machine.Reach.schedule deviceExec_sem hx) hpc hf
    (Option.isSome_iff_ne_none.mp hhandler),
    Machine.Reach.schedule deviceExec_sem hy, hgone⟩

/-! ## The race -/

/-- The mark is cleared, and `kucomms_unregister` returns, while the work
handler is about to be called. -/
def releaseRace : List (DeviceCmd fun _ => True) :=
  serveToWork (fun _ => True)
    -- the mutex, the lookup, the store to the mark, and the mutex again
    ++ [.begin false (.fopsRelease ()), .acts (.caller false) 13,
      .begin true .unregister, .finish (.caller true)]

/-- **A handler runs after unregistration.** While the kernel thread is about
to call the work handler, `kucomms_fops_release` clears the mark, and before
it gets to `kthread_stop` another caller calls `kucomms_unregister`, which
finds the mark clear and returns `true`. -/
theorem unregister_races_release :
    ∃ x : (deviceMachine (ι := Bool) (F := Unit) (fun _ => True) deviceA
        100).Conf,
      (deviceMachine (fun _ => True) deviceA 100).Reach
        (deviceStart (fun _ => True)) x
      ∧ x.st.unregistered = true
      ∧ (∃ (c : DeviceCall Unit) (k : Bool → FopsProg c.Ret),
        x.pc (.kthread ()) = some ⟨c, .act (.thread .workhlr) k⟩
          ∧ c.file = some ())
      ∧ MgrAct.workhlr.handler (x.st.files ()).pfd.cbdata.callbacks
        = some 2 := by
  have hsome : (releaseRace.foldlM (Machine.perform _ (deviceExec fun _ => True))
      (deviceStart (fun _ => True))).isSome = true := by decide +kernel
  obtain ⟨x, hx⟩ := Option.isSome_iff_exists.mp hsome
  have hrace : ((releaseRace.foldlM
      (Machine.perform _ (deviceExec fun _ => True))
      (deviceStart (fun _ => True))).all fun x => x.st.unregistered
        && atWork (x.pc (.kthread ())) && decide (MgrAct.workhlr.handler
          (x.st.files ()).pfd.cbdata.callbacks = some 2)) = true := by
    decide +kernel
  rw [hx] at hrace
  obtain ⟨hrace, hhandler⟩ := Bool.and_eq_true_iff.mp hrace
  obtain ⟨hun, hat⟩ := Bool.and_eq_true_iff.mp hrace
  exact ⟨x, Machine.Reach.schedule deviceExec_sem hx,
    hun, atWork_iff hat, of_decide_eq_true hhandler⟩
