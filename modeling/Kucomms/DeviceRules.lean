import Kucomms.DeviceInvariant

/-!
# Rules for the threads around a device

A function of the file operations is mostly actions that do not matter to the
invariant; `skips` says which, and `skip_wp` passes over them. What is left
are the accesses to the tables under the mutex, and a few actions on threads,
each with its rule. `Kept` is an assertion that the steps of others leave.
-/

open Prog

section Proof

variable {ι F : Type} {stopped : DeviceState ι F → Prop} {name : Name}
  {a : Agent ι F} {c : DeviceCall F} {s : DeviceState ι F} {i : ι} {f : F}

open DeviceState

/-! ## What the steps of others leave -/

/-- **An assertion that the steps of others leave**, beside the invariant. -/
def Kept (name : Name) (a : Agent ι F) (L : DeviceState ι F → Prop) : Prop :=
  ∀ ⦃s s'⦄, s.Inv name → s'.Inv name → s.Frame a s' → L s → L s'

theorem Kept.and {L L' : DeviceState ι F → Prop} (h : Kept name a L)
    (h' : Kept name a L') : Kept name a (fun s => L s ∧ L' s) :=
  fun _ _ hs hs' hframe hL =>
    ⟨h hs hs' hframe hL.1, h' hs hs' hframe hL.2⟩

/-- The phase of the file a caller is at work on. -/
theorem Kept.phase {p : FilePhase ι} (hp : p.Busy i) :
    Kept name (.caller i) (fun s => s.phase f = p) := by
  intro s s' _ _ hframe hs
  exact (hframe.busy i f rfl (hs ▸ hp)).1.trans hs

/-- That file's thread being inactive. -/
theorem Kept.inactive {p : FilePhase ι} (hp : p.Busy i) :
    Kept name (.caller i) (fun s => s.phase f = p ∧ ¬s.Active f) := by
  intro s s' _ _ hframe hs
  obtain ⟨hphase, hactive⟩ := hframe.busy i f rfl (hs.1 ▸ hp)
  exact ⟨hphase.trans hs.1, fun h => hs.2 (hactive h)⟩

/-- The file a caller is mapping. -/
theorem Kept.mapping :
    Kept name (.caller i) (fun s => s.mapping i = some f) := by
  intro s s' _ _ hframe hs
  exact (hframe.mapping i rfl).trans hs

/-- A kernel thread being in its function. -/
theorem Kept.running :
    Kept name (.kthread f) (fun s : DeviceState ι F => s.Running f) :=
  fun _ _ _ _ hframe hs => hframe.running f rfl hs

/-- The entry being gone. -/
theorem Kept.gone : Kept name a (fun s => s.entry name = none) :=
  fun _ _ _ _ hframe hs => entry_none_of_names hframe.names hs

/-- The mutex. -/
theorem Kept.owner : Kept name a (fun s => s.owner = some a) :=
  fun _ _ _ _ hframe hs => (hframe.lock hs).1

/-- The tables under the mutex. -/
theorem Kept.tables {r : Registry} :
    Kept name a (fun s => s.owner = some a ∧ s.registry = r) := by
  intro s s' _ _ hframe hs
  obtain ⟨ho, hreg, -⟩ := hframe.lock hs.1
  exact ⟨ho, hreg.trans hs.2⟩

/-- The same while no file answers for the mark and no thread is active. -/
theorem Kept.idle {r : Registry} :
    Kept name a (fun s => (s.owner = some a ∧ s.registry = r)
      ∧ ∀ f, ¬(s.phase f).Holds ∧ ¬s.Active f) := by
  intro s s' _ _ hframe hs
  obtain ⟨ho, hreg, hholds, hactive⟩ := hframe.lock hs.1.1
  refine ⟨⟨ho, hreg.trans hs.1.2⟩, fun f =>
    ⟨fun hf => (hs.2 f).1 (hholds f hf), fun hf => ?_⟩⟩
  obtain hf | hf := hactive f hf
  · exact (hs.2 f).2 hf
  · exact (hs.2 f).1 hf

/-! ## The specification of a thread -/

/-- **What is asked of an action**: no handler is called after
`kucomms_unregister` has returned `true`. -/
def DeviceCall.Safe (c : DeviceCall F) (x : FopsAct) (s : DeviceState ι F) :
    Prop :=
  ∀ f b, c.file = some f → x = .thread b →
    b.handler (s.files f).pfd.cbdata.callbacks ≠ none →
    s.unregistered = false

/-- The tables and the mutex are no handlers. -/
theorem safe_registry (x : LockAct RegAct) : c.Safe (.registry x) s :=
  fun _ _ _ hb => nomatch hb

variable [DecidableEq F]

/-- The thread `a` in the call `c`. -/
abbrev deviceSpec (stopped : DeviceState ι F → Prop) (name : Name)
    (a : Agent ι F) (c : DeviceCall F) :
    RGSpec FopsAct FopsAct.Res (DeviceState ι F) :=
  ⟨DeviceSem stopped a c, c.Safe, Rely name a, Moves name a,
    Rely.refl name a, Rely.trans⟩

omit [DecidableEq F] in
theorem rely_kept {L : DeviceState ι F → Prop} (h : Kept name a L)
    {s s' : DeviceState ι F} (hs : s.Inv name ∧ L s)
    (hrely : Rely name a s s') : s'.Inv name ∧ L s' := by
  obtain ⟨hinv, hframe⟩ := hrely hs.1
  exact ⟨hinv, h hs.1 hinv hframe hs.2⟩

theorem Kept.stable {L : DeviceState ι F → Prop} (h : Kept name a L) :
    (deviceSpec stopped name a c).Stable (fun s => s.Inv name ∧ L s) :=
  fun _ _ hs hrely => rely_kept h hs hrely

/-! ## Rules for kinds of actions -/

variable {α : Type} {P : DeviceState ι F → Prop}
  {Q : α → DeviceState ι F → Prop}

/-- **The actions on the file that do not matter**: they leave the thread. -/
def FopsAct.skips : FopsAct → Bool
  | .registry _ | .kthreadCreate | .wakeUpProcess | .kthreadStopWait => false
  | .thread _ => false
  | _ => true

theorem FopsAct.skips_thread {x : FopsAct} (hx : x.skips = true)
    (env : FopsEnv) (y : Registry × OpenFile) :
    (x.exec env y).2.2.thread = y.2.thread := by
  cases x <;> first | rfl | exact absurd hx Bool.false_ne_true

/-- What an action that leaves the thread leaves. -/
theorem unmoved_fileStep {x : FopsAct}
    (hx : ∀ env y, (x.exec env y).2.2.thread = y.2.thread) (env : FopsEnv) :
    s.Unmoved (s.fileStep env f x).2 := by
  refine ⟨rfl, rfl, rfl, rfl, fun g => ?_⟩
  by_cases hgf : g = f
  · subst hgf
    exact (congrArg OpenFile.thread (setFile_self s g _)).trans (hx env _)
  · exact congrArg OpenFile.thread (setFile_ne s hgf _)

/-- A skipped action keeps every stable assertion. -/
theorem skip_step {x : FopsAct} (hx : x.skips = true)
    (hP : (deviceSpec stopped name a c).Stable P) (hs : P s) :
    c.Safe x s ∧ ∀ r s', DeviceSem stopped a c x s r s' →
      Moves name a s s' ∧ P s' := by
  refine ⟨fun _ b _ hb => ?_, fun r s' hsem => ?_⟩
  · subst hb
    exact absurd hx Bool.false_ne_true
  cases hsem with
  | @file _ env f x hf ha henabled =>
    have hun : s.Unmoved (s.fileStep env f x).2 :=
      unmoved_fileStep (FopsAct.skips_thread hx) env
    exact ⟨hun.moves (fun _ _ => id), hP hs (hun.rely id)⟩
  | lock hfree => exact absurd hx Bool.false_ne_true
  | unlock => exact absurd hx Bool.false_ne_true
  | table b hstopped => exact absurd hx Bool.false_ne_true

theorem skip_wp {x : FopsAct} {k : x.Res → FopsProg α} (hx : x.skips = true)
    (hP : (deviceSpec stopped name a c).Stable P) (hs : P s)
    (h : ∀ r s, P s → (k r).Wp (deviceSpec stopped name a c) Q s) :
    (Prog.act x k).Wp (deviceSpec stopped name a c) Q s := by
  refine Wp.act_of hP hs (fun t ht => ?_)
  obtain ⟨hsafe, hstep⟩ := skip_step hx hP ht
  refine ⟨hsafe, fun r u hu => ?_⟩
  obtain ⟨hmoves, hPu⟩ := hstep r u hu
  exact ⟨hmoves, h r u hPu⟩

/-- **An action on the file**, by what it does. -/
theorem file_wp {x : FopsAct} {k : x.Res → FopsProg α}
    (hc : c.file = some f) (hreg : x.isRegistry = false)
    (hthread : ∀ b, x ≠ .thread b)
    (hP : (deviceSpec stopped name a c).Stable P) (hs : P s)
    (h : ∀ s env, P s → s.Enabled f x →
      Moves name a s (s.fileStep env f x).2
        ∧ (k (s.fileStep env f x).1).Wp (deviceSpec stopped name a c) Q
          (s.fileStep env f x).2) :
    (Prog.act x k).Wp (deviceSpec stopped name a c) Q s := by
  refine Wp.act_of hP hs (fun t ht => ⟨fun _ b _ hb => absurd hb (hthread b),
    fun r u hu => ?_⟩)
  cases hu with
  | file env x hf ha henabled =>
    obtain rfl := Option.some.inj (hc.symm.trans hf)
    exact h t env ht henabled
  | lock hfree => exact nomatch hreg
  | unlock => exact nomatch hreg
  | table b hstopped => exact nomatch hreg

/-- The mutex is taken. -/
theorem lock_wp {k : LockResult → FopsProg α}
    (hP : (deviceSpec stopped name a c).Stable P) (hs : P s)
    (h : ∀ s, P s → s.owner = some a →
      (k .acquired).Wp (deviceSpec stopped name a c) Q s) :
    (Prog.act (.registry .lock) k).Wp (deviceSpec stopped name a c) Q s := by
  refine Wp.act_of hP hs (fun t ht => ⟨safe_registry _, fun r u hu => ?_⟩)
  cases hu with
  | lock hfree =>
    have hun : t.Unmoved { t with owner := some a } :=
      ⟨rfl, rfl, rfl, rfl, fun _ => rfl⟩
    refine ⟨hun.moves (fun b _ hb => nomatch hfree.symm.trans hb),
      h _ (hP ht (hun.rely (fun _ => rfl))) rfl⟩
  | file env x hf ha henabled => exact nomatch ha

/-- The mutex is released, and the thread returns. -/
theorem unlock_wp {L : DeviceState ι F → Prop} {v : α} (hL : Kept name a L)
    (hs : s.Inv name ∧ L s) (ho : s.owner = some a)
    (howner : ∀ s, L s → L { s with owner := none })
    (hQ : ∀ s, s.Inv name → L s → Q v s) :
    (Prog.act (.registry .unlock) fun _ => .ret v).Wp
      (deviceSpec stopped name a c) Q s := by
  refine Wp.act_of (hL.and Kept.owner).stable ⟨hs.1, hs.2, ho⟩ (fun t ht =>
    ⟨safe_registry _, fun r u hu => ?_⟩)
  cases hu with
  | unlock =>
    have hun : t.Unmoved { t with owner := none } :=
      ⟨rfl, rfl, rfl, rfl, fun _ => rfl⟩
    refine ⟨hun.moves (fun b hb hc => ?_), Wp.ret_of hL.stable
      ⟨hun.inv ht.1, howner t ht.2.1⟩ (fun s hs => hQ s hs.1 hs.2)⟩
    exact absurd (Option.some.inj (hc.symm.trans ht.2.2)) hb
  | file env x hf ha henabled => exact nomatch ha

/-- **An action on the tables**, by what it does. -/
theorem table_wp {b : RegAct} {k : b.Res → FopsProg α}
    (hP : (deviceSpec stopped name a c).Stable P) (hs : P s)
    (h : ∀ s, P s → (findsClear s.registry c b = true → stopped s) →
      Moves name a s { c.onTable a b s with
          registry := (b.exec .unused s.registry).2 }
        ∧ (k (b.exec .unused s.registry).1).Wp (deviceSpec stopped name a c)
          Q { c.onTable a b s with
            registry := (b.exec .unused s.registry).2 }) :
    (Prog.act (.registry (.act b)) k).Wp (deviceSpec stopped name a c) Q
      s := by
  refine Wp.act_of hP hs (fun t ht => ⟨safe_registry _, fun r u hu => ?_⟩)
  cases hu with
  | table b hstopped => exact h t ht hstopped
  | file env x hf ha henabled => exact nomatch ha

end Proof

/-! ## The functions of the registry -/

/-- The accesses that only look. -/
def RegAct.looks : RegAct → Bool
  | .loadLen _ _ | .loadByte _ _ _ | .loadOpen _ | .loadCb _ => true
  | _ => false

theorem RegAct.exec_looks {b : RegAct} (hb : b.looks = true)
    (env : ChrdevAnswer) (r : Registry) : (b.exec env r).2 = r := by
  cases b <;> first | rfl | exact absurd hb Bool.false_ne_true

/-- A program that only looks. -/
abbrev RegProg.Looks {α : Type} (p : RegProg α) : Prop :=
  p.All (fun b => b.looks = true)

theorem nameMatches_looks (t : RegTable) (u : Fin kucommsListSize)
    (p : Bytes) (n u1 : ℕ) : RegProg.Looks (nameMatches t u p n u1) := by
  induction n generalizing u1 with
  | zero => trivial
  | succ n ih =>
    refine ⟨rfl, fun b => ?_⟩
    show Prog.All _ (if b ≠ p u1 then _ else _)
    exact All.ite trivial (ih (u1 + 1))

theorem searchSlots_looks (t : RegTable) (p : Bytes) (len : UInt32)
    (us : List (Fin kucommsListSize)) :
    RegProg.Looks (searchSlots t p len us) := by
  induction us with
  | nil => trivial
  | cons u us ih =>
    refine ⟨rfl, fun n => ?_⟩
    show Prog.All _ (if n = 0 then _ else if n ≠ len then _ else _)
    refine All.ite ih (All.ite ih ?_)
    exact (nameMatches_looks t u p len.toNat 0).bind (fun found =>
      All.ite trivial ih)

theorem findSlot_looks (t : RegTable) (name : Name) :
    RegProg.Looks (findSlot t name) := by
  unfold findSlot
  split
  · trivial
  · split
    · trivial
    · exact searchSlots_looks t _ _ _

/-- What a function of the registry does under the mutex, in a file
operation. -/
def RegProg.inTable {α : Type} (p : RegProg α) : FopsProg α :=
  p.embed (fun b => FopsAct.registry (.act b)) (fun _ r => r)

theorem inTable_bind {α β : Type} (p : RegProg α) (q : α → RegProg β) :
    RegProg.inTable (p >>= q) = p.inTable >>= fun v => (q v).inTable :=
  embed_bind _ _ p q

theorem inFops_locked {α : Type} (p : RegProg α) :
    LockedRegProg.inFops (locked p)
      = .act (.registry .lock) (fun _ => p.inTable >>= fun v =>
        .act (.registry .unlock) fun _ => .ret v) := by
  refine congrArg (Prog.act (FopsAct.registry .lock)) (funext fun _ => ?_)
  unfold RegProg.inTable
  induction p with
  | ret v => rfl
  | act b k ih =>
    exact congrArg (Prog.act (FopsAct.registry (.act b)))
      (funext fun r => ih r)

section Proof

variable {ι F : Type} {stopped : DeviceState ι F → Prop} {name : Name}
  {a : Agent ι F} {c : DeviceCall F} {s : DeviceState ι F} {i : ι} {f : F}
  [DecidableEq F]

open DeviceState

/-- Only stores of the mark are recorded. -/
theorem onTable_eq {b : RegAct} (hb : b.looks = true) :
    c.onTable a b s = s := by
  unfold DeviceCall.onTable
  split
  · exact absurd hb Bool.false_ne_true
  · exact absurd hb Bool.false_ne_true
  · exact absurd hb Bool.false_ne_true
  · rfl

/-- What an access that only looks leaves. -/
theorem look_eq {b : RegAct} (hb : b.looks = true) :
    ({ c.onTable a b s with
      registry := (b.exec .unused s.registry).2 } : DeviceState ι F) = s := by
  rw [onTable_eq hb, RegAct.exec_looks hb]

/-- **An access to the tables that only looks.** -/
theorem look_wp {α : Type} {P : DeviceState ι F → Prop}
    {Q : α → DeviceState ι F → Prop} {b : RegAct} {k : b.Res → FopsProg α}
    (hb : b.looks = true) (hP : (deviceSpec stopped name a c).Stable P)
    (hs : P s)
    (h : ∀ s, P s → (findsClear s.registry c b = true → stopped s) →
      (k (b.exec .unused s.registry).1).Wp (deviceSpec stopped name a c) Q
        s) :
    (Prog.act (.registry (.act b)) k).Wp (deviceSpec stopped name a c) Q
      s := by
  refine table_wp hP hs (fun t ht hstopped => ?_)
  rw [look_eq hb]
  exact ⟨fun hinv => ⟨hinv, fun b _ => Frame.refl b t⟩, h t ht hstopped⟩

/-- **The lookup of the name**, under the mutex. -/
theorem findSlot_wp {r : Registry} {L : DeviceState ι F → Prop}
    (hL : Kept name a L) (hs : s.Inv name ∧ L s
      ∧ s.owner = some a ∧ s.registry = r) :
    (RegProg.inTable (findSlot .cblist name)).Wp (deviceSpec stopped name a c)
      (fun v s => v = r.find .cblist name ∧ s.Inv name ∧ L s
        ∧ s.owner = some a ∧ s.registry = r) s := by
  have hread := Wp.reads (deviceSpec stopped name a c) (RegAct.exec .unused) r
    (T := fun b => b.looks = true) (f := fun b => FopsAct.registry (.act b))
    (g := fun _ x => x) (fun b hb => ?_) (hL.and Kept.tables).stable ?_
    (findSlot_looks .cblist name) hs
  · rw [findSlot_run] at hread
    exact hread
  · exact RegAct.exec_looks hb .unused r
  · rintro b t hb ⟨hinv, hLt, ho, rfl⟩
    refine ⟨safe_registry _, fun x t' hsem => ?_⟩
    cases hsem with
    | table b hstopped =>
      rw [look_eq hb]
      exact ⟨rfl, fun h => ⟨h, fun b _ => Frame.refl b t⟩, hinv, hLt, ho, rfl⟩
    | file env x hf ha henabled => exact nomatch ha

end Proof
