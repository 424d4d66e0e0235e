import Kucomms.DeviceRules
import Kucomms.RegistryRefinement

/-!
# What the functions around a device do

For each function that the threads of `deviceMachine` call, what holds when
it returns, whatever the others do in the meantime: whether the file answers
for the mark, whether its thread may still run, whether the entry is gone.

The functions of the registry take the mutex; what is under it is a lookup
and a few accesses to the entry. Of the file operations only those actions
matter that call these functions, or touch the thread.
-/

open Prog

open DeviceState

section Proof

variable {ι F : Type} [DecidableEq F] {stopped : DeviceState ι F → Prop}
  {name : Name} {a : Agent ι F} {c : DeviceCall F} {s : DeviceState ι F}
  {i : ι} {f : F}

/-! ## The functions of the registry -/

/-- The phase of a file after `kucomms_find_and_open` has returned. -/
def openedPhase (i : ι) : Option (Fin kucommsListSize) × Bool → FilePhase ι
  | (some _, false) => .holding i
  | _ => .opening i

theorem findAndOpen_wp (hs : s.Inv name ∧ s.phase f = .opening i) :
    (LockedRegProg.inFops (kucommsFindAndOpen name)).Wp
      (deviceSpec stopped name (.caller i) (.fopsOpen f))
      (fun v s => s.Inv name ∧ s.phase f = openedPhase i v) s := by
  have hkept : Kept name (.caller i) (fun s : DeviceState ι F =>
      s.phase f = .opening i) := Kept.phase rfl
  rw [kucommsFindAndOpen, inFops_locked]
  refine lock_wp hkept.stable hs (fun t ht ho => ?_)
  rw [findAndOpen, kucommsFindCallbackData, inTable_bind, bind_assoc]
  refine Wp.bind ((findSlot_wp hkept ⟨ht.1, ht.2, ho, rfl⟩).mono ?_)
  rintro v u ⟨hv, hu⟩
  cases v with
  | none =>
    exact unlock_wp hkept ⟨hu.1, hu.2.1⟩ hu.2.2.1 (fun _ h => h)
      (fun _ hinv h => ⟨hinv, h⟩)
  | some w =>
    refine look_wp rfl (hkept.and Kept.tables).stable hu (fun u₁ hu₁ _ => ?_)
    refine table_wp (hkept.and Kept.tables).stable hu₁ (fun u₂ hu₂ _ => ?_)
    obtain ⟨hinv₁, -, -, hreg₁⟩ := hu₁
    obtain ⟨hinv, hphase, howner, hreg⟩ := hu₂
    have hentry : u₂.entry name = some w := by
      rw [entry, hreg]
      exact hv.symm
    -- the entry is as it was when the flag was looked at
    have hans : (RegAct.exec .unused (.loadOpen w) u₁.registry).1
        = (u₂.registry.cblist w).isOpen := by
      rw [hreg₁, hreg]
      rfl
    rw [hans]
    cases hopen : (u₂.registry.cblist w).isOpen with
    | true =>
      have hrec : (DeviceCall.fopsOpen f).onTable (.caller i)
          (.storeOpen w true) u₂ = u₂ := if_pos hopen
      rw [hrec]
      have hmoves : Moves name (.caller i) u₂
          { u₂ with registry := u₂.registry.setOpen w true } :=
        Moves.markAgain howner
      exact ⟨hmoves, unlock_wp hkept ⟨(hmoves hinv).1, hphase⟩ howner
        (fun _ h => h) (fun _ hinv h => ⟨hinv, h⟩)⟩
    | false =>
      have hrec : (DeviceCall.fopsOpen f).onTable (.caller i)
          (.storeOpen w true) u₂ = u₂.setPhase f (.holding i) :=
        if_neg (by rw [hopen]; exact Bool.false_ne_true)
      rw [hrec]
      have hmoves : Moves name (.caller i) u₂
          { u₂.setPhase f (.holding i) with
            registry := u₂.registry.setOpen w true } :=
        Moves.mark howner hentry hopen hphase
      exact ⟨hmoves, unlock_wp (L := fun s => s.phase f = .holding i)
        (Kept.phase rfl) ⟨(hmoves hinv).1, setPhase_self u₂ f _⟩ howner
        (fun _ h => h) (fun _ hinv h => ⟨hinv, h⟩)⟩

/-- **`kucomms_find_and_close`**, called by the file that answers for the
mark, which goes from the phase `p` into `p'`. -/
theorem findAndClose_wp {p p' : FilePhase ι} (hbusy : p.Busy i)
    (hbusy' : p'.Busy i) (hholds : p.Holds) (hholds' : ¬p'.Holds)
    (hserved : p.Served → p'.Served)
    (hrec : ∀ (s : DeviceState ι F) w, c.onTable (.caller i)
      (.storeOpen w false) s = s.setPhase f p')
    (hs : s.Inv name ∧ s.phase f = p) :
    (LockedRegProg.inFops (kucommsFindAndClose name)).Wp
      (deviceSpec stopped name (.caller i) c)
      (fun _ s => s.Inv name ∧ s.phase f = p') s := by
  have hkept : Kept name (.caller i) (fun s : DeviceState ι F =>
      s.phase f = p) := Kept.phase hbusy
  rw [kucommsFindAndClose, inFops_locked]
  refine lock_wp hkept.stable hs (fun t ht ho => ?_)
  rw [findAndClose, kucommsFindCallbackData, inTable_bind, bind_assoc]
  refine Wp.bind ((findSlot_wp hkept ⟨ht.1, ht.2, ho, rfl⟩).mono ?_)
  rintro v u ⟨hv, hu⟩
  cases v with
  | none =>
    obtain ⟨hinv, hphase, -, hreg⟩ := hu
    have hnone : u.entry name = none := by
      rw [entry, hreg]
      exact hv.symm
    exact absurd (hphase ▸ hholds) (hinv.gone hnone f).1
  | some w =>
    refine table_wp (hkept.and Kept.tables).stable hu (fun u₁ hu₁ _ => ?_)
    obtain ⟨hinv, hphase, howner, -⟩ := hu₁
    rw [hrec]
    have hmoves : Moves name (.caller i) u₁
        { u₁.setPhase f p' with registry := u₁.registry.setOpen w false } :=
      Moves.clear howner (hphase ▸ hholds) (hphase ▸ hbusy) hholds'
        (fun h => hserved (hphase ▸ h))
    exact ⟨hmoves, unlock_wp (L := fun s => s.phase f = p')
      (Kept.phase hbusy') ⟨(hmoves hinv).1, setPhase_self u₁ f _⟩ howner
      (fun _ h => h) (fun _ hinv h => ⟨hinv, h⟩)⟩

/-- Nobody has a stake in the entry: the tables are `r`, under the mutex, no
file answers for the mark, and no thread is active. -/
def Forlorn (name : Name) (a : Agent ι F) (r : Registry)
    (s : DeviceState ι F) : Prop :=
  s.Inv name ∧ (s.owner = some a ∧ s.registry = r)
    ∧ ∀ f, ¬(s.phase f).Holds ∧ ¬s.Active f

/-- A store that takes the entry apart. -/
theorem forget_wp {α : Type} {Q : α → DeviceState ι F → Prop} {b : RegAct}
    {k : b.Res → FopsProg α} {r : Registry} (r' : Registry)
    (hr : (b.exec .unused r).2 = r') (hs : Forlorn name a r s)
    (hdistinct : SlotTable.Distinct (r'.slotKeys .cblist))
    (hnames : SlotTable.keys (r'.slotKeys .cblist)
      ⊆ SlotTable.keys (r.slotKeys .cblist))
    (h : ∀ x s, Forlorn name a r' s →
      (k x).Wp (deviceSpec stopped name a .unregister) Q s) :
    (Prog.act (.registry (.act b)) k).Wp
      (deviceSpec stopped name a .unregister) Q s := by
  refine table_wp Kept.idle.stable hs (fun t ht _ => ?_)
  have hrec : (DeviceCall.unregister : DeviceCall F).onTable a b t = t := by
    cases a with
    | caller i => rfl
    | kthread f => rfl
  obtain ⟨hinv, ⟨howner, rfl⟩, hidle⟩ := ht
  rw [hrec, hr]
  have hmoves : Moves name a t { t with registry := r' } :=
    Moves.forget howner hidle hdistinct hnames
  exact ⟨hmoves, h _ _ ⟨(hmoves hinv).1, ⟨howner, rfl⟩, hidle⟩⟩

/-- **The entry taken apart**: the pointers, then the length, then the
mark. -/
theorem takeApart_wp {r : Registry} {w : Fin kucommsListSize}
    (hw : r.find .cblist name = some w) (hs : Forlorn name a r s) :
    (RegProg.inTable (do
        (.act (.storeCallbacks w .null) .ret : RegProg Unit)
        (.act (.storeLen .cblist w 0) .ret : RegProg Unit)
        (.act (.storeOpen w false) .ret : RegProg Unit)
        return true) >>= fun v => .act (.registry .unlock) fun _ => .ret v).Wp
      (deviceSpec stopped name a .unregister)
      (fun _ s => s.Inv name ∧ s.entry name = none) s := by
  have hdistinct : SlotTable.Distinct (r.slotKeys .cblist) :=
    hs.2.1.2 ▸ hs.1.distinct
  obtain ⟨r₁, hr₁⟩ : ∃ r₁, r₁ = r.modifyCb w fun d =>
    { d with callbacks := .null } := ⟨_, rfl⟩
  obtain ⟨r₂, hr₂⟩ : ∃ r₂, r₂ = r₁.setLen w 0 .cblist := ⟨_, rfl⟩
  -- only the store of the length changes the names
  have hkeys₁ : r₁.slotKeys .cblist = r.slotKeys .cblist := by
    rw [hr₁, Registry.slotKeys_modifyCb]
    exact Function.update_eq_self w (r.slotKeys .cblist)
  have hkeys₂ : r₂.slotKeys .cblist
      = Function.update (r.slotKeys .cblist) w none := by
    rw [hr₂, Registry.setLen, Registry.slotKeys_modifyCb, hkeys₁]
    rfl
  have hkeys₃ : (r₂.setOpen w false).slotKeys .cblist
      = Function.update (r.slotKeys .cblist) w none :=
    (Registry.slotKeys_setOpen false .cblist).trans hkeys₂
  have hnone : (r₂.setOpen w false).find .cblist name = none := by
    obtain ⟨k, hk, hfind⟩ := Option.bind_eq_some_iff.mp hw
    rw [Registry.find, hkeys₃, hk]
    refine SlotTable.find_eq_none.mpr ?_
    rw [SlotTable.keys_erase hdistinct (SlotTable.find_some hfind)]
    exact Finset.notMem_erase k _
  refine forget_wp r₁ hr₁.symm hs (hkeys₁ ▸ hdistinct)
    (hkeys₁ ▸ Finset.Subset.refl _) (fun _ s₁ hs₁ => ?_)
  refine forget_wp r₂ hr₂.symm hs₁ (hkeys₂ ▸ hdistinct.erase) ?_
    (fun _ s₂ hs₂ => ?_)
  · obtain ⟨k, -, hfind⟩ := Option.bind_eq_some_iff.mp hw
    rw [hkeys₁, hkeys₂,
      SlotTable.keys_erase hdistinct (SlotTable.find_some hfind)]
    exact Finset.erase_subset _ _
  refine forget_wp (r₂.setOpen w false) rfl hs₂ (hkeys₃ ▸ hdistinct.erase)
    (by rw [hkeys₂, hkeys₃]) (fun _ s₃ hs₃ => ?_)
  refine unlock_wp Kept.gone ⟨hs₃.1, ?_⟩ hs₃.2.1.1 (fun _ h => h)
    (fun _ hinv h => ⟨hinv, h⟩)
  rw [entry, hs₃.2.1.2]
  exact hnone

/-- **`kucomms_unregister`**, which finds the mark clear only when `stopped`
is so. -/
theorem unregister_wp (hstopped : ∀ s : DeviceState ι F, stopped s →
      ∀ f, (s.phase f).Closing → ¬s.Active f) (hs : s.Inv name) :
    (LockedRegProg.inFops (kucommsUnregister name)).Wp
      (deviceSpec stopped name a .unregister)
      (fun ok s => s.Inv name ∧ (ok = true → s.entry name = none)) s := by
  have htrue : Kept name a (fun _ : DeviceState ι F => True) :=
    fun _ _ _ _ _ _ => trivial
  rw [kucommsUnregister, inFops_locked]
  refine lock_wp htrue.stable ⟨hs, trivial⟩ (fun t ht ho => ?_)
  rw [unregister, kucommsFindCallbackData, inTable_bind, bind_assoc]
  refine Wp.bind ((findSlot_wp htrue ⟨ht.1, trivial, ho, rfl⟩).mono ?_)
  rintro v u ⟨hv, hu⟩
  cases v with
  | none =>
    refine unlock_wp Kept.gone ⟨hu.1, ?_⟩ hu.2.2.1 (fun _ h => h)
      (fun _ hinv h => ⟨hinv, fun _ => h⟩)
    rw [entry, hu.2.2.2]
    exact hv.symm
  | some w =>
    refine look_wp rfl (htrue.and Kept.tables).stable hu (fun u₁ hu₁ hlook => ?_)
    obtain ⟨hinv, -, howner, hreg⟩ := hu₁
    have hentry : u₁.entry name = some w := by
      rw [entry, hreg]
      exact hv.symm
    show Wp _ _ (RegProg.inTable
      (if (u₁.registry.cblist w).isOpen = true then _ else _) >>= _) _
    split
    · exact unlock_wp htrue ⟨hinv, trivial⟩ howner (fun _ h => h)
        (fun _ hinv _ => ⟨hinv, fun h => absurd h Bool.false_ne_true⟩)
    · next hopen =>
      -- the mark is clear, so no file answers for it; and a thread that is
      -- active would be that of a file that is closing
      have hclear : findsClear (F := F) u₁.registry .unregister (.loadOpen w)
          = true := congrArg (!·) (Bool.eq_false_iff.mpr hopen)
      have hholds : ∀ f, ¬(u₁.phase f).Holds :=
        fun f hf => hopen (hinv.marked f w hf hentry)
      have hidle : ∀ f, ¬(u₁.phase f).Holds ∧ ¬u₁.Active f := by
        refine fun f => ⟨hholds f, fun hf => ?_⟩
        obtain hf' | hf' := (hinv.served f hf).holds_or_closing
        · exact hholds f hf'
        · exact hstopped u₁ (hlook hclear) f hf' hf
      exact (takeApart_wp hv.symm ⟨hinv, ⟨howner, hreg⟩, hidle⟩).mono
        (fun _ _ h => ⟨h.1, fun _ => h.2⟩)

/-! ## The file operations -/

/-- What fills in `*pfd` does not matter. -/
theorem fillFileData_wp {L : DeviceState ι F → Prop} (hL : Kept name a L)
    (hs : s.Inv name ∧ L s) (u : Fin kucommsListSize) (thread : ℕ) :
    (fillFileData u thread).Wp (deviceSpec stopped name a c)
      (fun _ s => s.Inv name ∧ L s) s := by
  unfold fillFileData storeFd
  simp only [act_bind, ret_bind]
  refine skip_wp rfl hL.stable hs (fun _ s hs => ?_)
  refine skip_wp rfl hL.stable hs (fun _ s hs => ?_)
  refine skip_wp rfl hL.stable hs (fun _ s hs => ?_)
  refine skip_wp rfl hL.stable hs (fun _ s hs => ?_)
  refine skip_wp rfl hL.stable hs (fun _ s hs => ?_)
  refine look_wp rfl hL.stable hs
    (fun s hs _ => ?_)
  refine skip_wp rfl hL.stable hs (fun _ s hs => ?_)
  refine skip_wp rfl hL.stable hs (fun _ s hs => ?_)
  refine skip_wp rfl hL.stable hs (fun _ s hs => ?_)
  exact skip_wp rfl hL.stable hs
    (fun _ s hs => Wp.ret_of hL.stable hs (fun _ h => h))

/-- The mark is taken back by an open that fails. -/
theorem takeBack_wp (hs : s.Inv name ∧ s.phase f = .holding i) :
    (LockedRegProg.inFops (kucommsFindAndClose name)).Wp
      (deviceSpec stopped name (.caller i) (.fopsOpen f))
      (fun _ s => s.Inv name ∧ s.phase f = .opening i) s :=
  findAndClose_wp (p := .holding i) rfl rfl trivial id id (fun _ _ => rfl) hs

theorem createFileData_wp (u : Fin kucommsListSize)
    (hs : s.Inv name ∧ s.phase f = .holding i) :
    (createFileData name u).Wp
      (deviceSpec stopped name (.caller i) (.fopsOpen f))
      (fun v s => s.Inv name
        ∧ s.phase f = if v = 0 then .holding i else .opening i) s := by
  have hopening : Kept name (.caller i) (fun s : DeviceState ι F =>
      s.phase f = .opening i) := Kept.phase rfl
  have hholding : Kept name (.caller i) (fun s : DeviceState ι F =>
      s.phase f = .holding i) := Kept.phase rfl
  have hret : ∀ v : ℤ, v ≠ 0 → ∀ s : DeviceState ι F,
      s.Inv name ∧ s.phase f = .opening i →
      (Prog.ret v : FopsProg ℤ).Wp
        (deviceSpec stopped name (.caller i) (.fopsOpen f))
        (fun v s => s.Inv name
          ∧ s.phase f = if v = 0 then .holding i else .opening i) s := by
    intro v hv s hs
    refine Wp.ret_of hopening.stable hs (fun s hs => ?_)
    rw [if_neg hv]
    exact hs
  simp only [createFileData, act_bind, ret_bind]
  refine skip_wp rfl hholding.stable hs (fun got s hs => ?_)
  by_cases hgot : got = false
  · rw [if_pos hgot]
    exact Wp.bind ((takeBack_wp hs).mono
      (fun _ s hs => hret (-1) (by decide) s hs))
  rw [if_neg hgot]
  refine file_wp (f := f) rfl rfl (fun _ h => nomatch h) hholding.stable hs
    (fun s env hs _ => ?_)
  -- a file that is being opened has no thread that runs
  have hidle : ¬s.Active f := by
    intro hactive
    have hserved := hs.1.served f hactive
    rw [hs.2] at hserved
    exact hserved
  have hmoves : Moves name (.caller i) s
      (s.fileStep env f .kthreadCreate).2 := by
    refine Moves.setFile (fun hactive => ?_)
      (fun _ hrun => absurd hrun.active hidle)
    cases hthread : env.kthread with
    | none =>
      simp only [FopsAct.exec, hthread] at hactive
      exact hactive
    | some thread =>
      simp only [FopsAct.exec, hthread] at hactive
      exact False.elim hactive
  refine ⟨hmoves, ?_⟩
  have hnext : (s.fileStep env f .kthreadCreate).2.Inv name
      ∧ (s.fileStep env f .kthreadCreate).2.phase f = .holding i :=
    ⟨(hmoves hs.1).1, hs.2⟩
  cases (s.fileStep env f .kthreadCreate).1 with
  | none =>
    refine Wp.bind ((takeBack_wp hnext).mono (fun _ s hs => ?_))
    exact skip_wp rfl hopening.stable hs (fun _ s hs => hret (-1) (by decide) s hs)
  | some thread =>
    refine skip_wp rfl hholding.stable hnext (fun _ s hs => ?_)
    refine Wp.bind ((fillFileData_wp hholding hs u thread).mono
      (fun _ s hs => Wp.ret_of hholding.stable hs (fun s hs => ?_)))
    rw [if_pos rfl]
    exact hs

/-- **`kucomms_fops_open`**: if it succeeds, the file answers for the mark. -/
theorem fopsOpen_wp (hs : s.Inv name ∧ s.phase f = .opening i) :
    (kucommsFopsOpen name).Wp
      (deviceSpec stopped name (.caller i) (.fopsOpen f))
      (fun v s => s.Inv name
        ∧ s.phase f = if v = 0 then .holding i else .opening i) s := by
  have hopening : Kept name (.caller i) (fun s : DeviceState ι F =>
      s.phase f = .opening i) := Kept.phase rfl
  have hret : ∀ s : DeviceState ι F, s.Inv name ∧ s.phase f = .opening i →
      (Prog.ret (-1) : FopsProg ℤ).Wp
        (deviceSpec stopped name (.caller i) (.fopsOpen f))
        (fun v s => s.Inv name
          ∧ s.phase f = if v = 0 then .holding i else .opening i) s :=
    fun s hs => Wp.ret_of hopening.stable hs (fun s hs => hs)
  refine Wp.bind ((findAndOpen_wp hs).mono ?_)
  rintro ⟨o, isOpen⟩ s hs
  cases o with
  | none => exact hret s hs
  | some u =>
    cases isOpen with
    | true => exact hret s hs
    | false => exact createFileData_wp u hs

/-- What `kucomms_fops_mmap` does: it passes over most, and wakes the
thread. -/
def FopsAct.SkipsOrWakes (x : FopsAct) : Prop :=
  x.skips = true ∨ x = .wakeUpProcess

omit [DecidableEq F] in
theorem loadFd_kind : loadFd.All FopsAct.SkipsOrWakes :=
  ⟨.inl rfl, fun _ => trivial⟩

omit [DecidableEq F] in
theorem storeFd_kind (st : FdStore) :
    (storeFd st).All FopsAct.SkipsOrWakes :=
  ⟨.inl rfl, fun _ => trivial⟩

omit [DecidableEq F] in
theorem freeSession_kind (vaddr message : ℕ) :
    (freeSession vaddr message).All FopsAct.SkipsOrWakes :=
  ⟨.inl rfl, fun _ => ⟨.inl rfl, fun _ => trivial⟩⟩

omit [DecidableEq F] in
theorem startManager_kind (len : UInt64) (vaddr message : ℕ) :
    (startManager len vaddr message).All FopsAct.SkipsOrWakes := by
  have hmanager : ∀ p : ManagerProg Bool,
      p.inFops.All FopsAct.SkipsOrWakes := All.embed (fun _ => .inl rfl)
  unfold startManager
  refine (hmanager _).bind (fun _ => All.ite (freeSession_kind _ _) ?_)
  refine loadFd_kind.bind (fun rx => loadFd_kind.bind (fun tx =>
    (hmanager _).bind (fun _ => All.ite (freeSession_kind _ _) ?_)))
  exact (storeFd_kind _).bind (fun _ => (storeFd_kind _).bind (fun _ =>
    (storeFd_kind _).bind (fun _ => ⟨.inr rfl, fun _ => trivial⟩)))

omit [DecidableEq F] in
theorem startSession_kind (len : UInt64) (vaddr message : ℕ) :
    (startSession len vaddr message).All FopsAct.SkipsOrWakes := by
  have hring : ∀ (p : QProg Bool) msgq,
      (QProg.inFops p msgq).All FopsAct.SkipsOrWakes := fun p msgq =>
    All.embed (fun _ => .inl rfl) p
  unfold startSession
  refine (storeFd_kind _).bind (fun _ => (storeFd_kind _).bind (fun _ =>
    loadFd_kind.bind (fun rx => ?_)))
  refine (hring _ _).bind (fun _ => All.ite (freeSession_kind _ _) ?_)
  refine loadFd_kind.bind (fun tx => ?_)
  exact (hring _ _).bind (fun _ => All.ite (freeSession_kind _ _)
    (startManager_kind len vaddr message))

omit [DecidableEq F] in
theorem fopsMmap_kind (len : UInt64) :
    (kucommsFopsMmap len).All FopsAct.SkipsOrWakes := by
  unfold kucommsFopsMmap
  refine ⟨.inl rfl, fun pfd => All.ite trivial (All.ite trivial ?_)⟩
  refine ⟨.inl rfl, fun vaddr => All.ite trivial ?_⟩
  have hfree : (vfree vaddr >>= fun _ => .ret negEio).All
      FopsAct.SkipsOrWakes := ⟨.inl rfl, fun _ => trivial⟩
  refine ⟨.inl rfl, fun ret => All.ite hfree ?_⟩
  refine ⟨.inl rfl, fun message => All.ite hfree ?_⟩
  exact startSession_kind len vaddr message

theorem ThreadState.Running.wake {t : ThreadState} (h : t.Running) :
    t.wake.Running := by
  cases t with
  | running l => exact h
  | none => exact h
  | created => exact False.elim h
  | woken => exact h
  | exited => exact h

/-- **`kucomms_fops_mmap`** wakes the thread of a file that is open. -/
theorem fopsMmap_wp {len : UInt64}
    (hs : s.Inv name ∧ s.mapping i = some f) :
    (kucommsFopsMmap len).Wp
      (deviceSpec stopped name (.caller i) (.fopsMmap f len))
      (fun _ s => s.Inv name ∧ s.mapping i = some f) s := by
  refine Wp.all (fopsMmap_kind len) Kept.mapping.stable
    (fun x s hx hs => ?_) hs
  obtain hx | rfl := hx
  · exact skip_step hx Kept.mapping.stable hs
  · refine ⟨fun _ _ _ h => (nomatch h), fun r s' hsem => ?_⟩
    cases hsem with
    | file env x hf ha henabled =>
      obtain rfl := Option.some.inj hf
      have hmoves : Moves name (.caller i) s
          (s.fileStep env f .wakeUpProcess).2 :=
        Moves.wake hs.2 ThreadState.Running.wake
      exact ⟨hmoves, (hmoves hs.1).1, hs.2⟩

/-- **`kucomms_fops_release`**: the mark is cleared, and when it returns the
thread has ended. -/
theorem fopsRelease_wp (hs : s.Inv name ∧ s.phase f = .releasing i) :
    (kucommsFopsRelease name).Wp
      (deviceSpec stopped name (.caller i) (.fopsRelease f))
      (fun _ s => s.Inv name ∧ s.phase f = .closing i ∧ ¬s.Active f) s := by
  have hclosing : Kept name (.caller i) (fun s : DeviceState ι F =>
      s.phase f = .closing i) := Kept.phase rfl
  have hended : Kept name (.caller i) (fun s : DeviceState ι F =>
      s.phase f = .closing i ∧ ¬s.Active f) := Kept.inactive rfl
  unfold kucommsFopsRelease
  refine Wp.bind ((findAndClose_wp (p := .releasing i) rfl
    (show (FilePhase.closing i).Busy i from rfl) trivial id
    (fun _ => trivial) (fun _ _ => rfl) hs).mono
      (fun _ s hs => ?_))
  refine skip_wp rfl hclosing.stable hs (fun pfd s hs => ?_)
  refine skip_wp rfl hclosing.stable hs (fun _ s hs => ?_)
  refine file_wp (f := f) rfl rfl (fun _ h => nomatch h) hclosing.stable hs
    (fun s env hs henabled => ?_)
  have hmoves : Moves name (.caller i) s
      (s.fileStep env f .kthreadStopWait).2 :=
    Moves.setFile (fun h => False.elim h) (fun _ h => absurd h henabled)
  have hinactive : ¬(s.fileStep env f .kthreadStopWait).2.Active f := by
    unfold Active
    rw [DeviceState.fileStep, setFile_self]
    exact id
  refine ⟨hmoves, ?_⟩
  refine Wp.all (T := fun x => x.skips = true) ?_ hended.stable
    (fun x s hx hs => skip_step hx hended.stable hs)
    ⟨(hmoves hs.1).1, hs.2, hinactive⟩
  have hfree : ∀ p, (vfree p).All (fun x => x.skips = true) := fun p =>
    ⟨rfl, fun _ => trivial⟩
  have hend : (Prog.act .vfreeFileData fun _ => .act .modulePut fun _ =>
      .ret 0 : FopsProg ℤ).All (fun x => x.skips = true) :=
    ⟨rfl, fun _ => ⟨rfl, fun _ => trivial⟩⟩
  have hrest : (if pfd.vaddr ≠ 0 then vfree pfd.vaddr >>= fun _ =>
        .act .vfreeFileData fun _ => .act .modulePut fun _ => .ret 0
      else .act .vfreeFileData fun _ => .act .modulePut fun _ => .ret 0
      : FopsProg ℤ).All (fun x => x.skips = true) :=
    All.ite ((hfree _).bind (fun _ => hend)) hend
  exact All.ite ((hfree _).bind (fun _ => hrest)) hrest

/-! ## The kernel thread -/

/-- **The kernel thread of a file** runs only while the callbacks are
registered. -/
theorem thread_wp {α : Type} (p : MgrProg α) (hc : c.file = some f)
    (hs : s.Inv name ∧ s.Running f) :
    (MgrProg.inFops p).Wp (deviceSpec stopped name (.kthread f) c)
      (fun _ s => s.Inv name ∧ s.Running f) s := by
  have hthread : (MgrProg.inFops p).All (fun x => ∃ b, x = .thread b) :=
    All.embed (fun b => ⟨b, rfl⟩) p
  refine Wp.all hthread Kept.running.stable ?_ hs
  rintro x t ⟨b, rfl⟩ ⟨hinv, hrunning⟩
  refine ⟨fun g b' hg _ _ => ?_, fun r t' hsem => ?_⟩
  · obtain rfl := Option.some.inj (hc.symm.trans hg)
    by_contra hun
    exact (hinv.gone (hinv.unregistered (by simpa using hun)) _).2
      hrunning.active
  · cases hsem with
    | @file _ env g x hf ha henabled =>
      have hun : t.Unmoved (t.fileStep env g (.thread b)).2 :=
        unmoved_fileStep (fun _ _ => rfl) env
      exact ⟨hun.moves (fun _ _ => id),
        rely_kept Kept.running ⟨hinv, hrunning⟩ (hun.rely id)⟩

end Proof
