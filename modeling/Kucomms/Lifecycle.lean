import Kucomms.Fops
import Kucomms.RegistryRefinement

/-!
# The life cycle of devices, callbacks and open files

A device is created, callbacks are registered for it, a file of that name is
opened; then the file is closed, the callbacks unregistered, the device
removed. `lifecycle_invariant` says that no order of calls breaks the chain:
an open file has its callbacks registered, registered callbacks have a
device, and an open flag is set exactly while there is an open file.

Each call is made with nothing in between. A file operation is a few calls of
the registry one after the other, so what happens to the tables is what
happens to the directory they store (`Kucomms.RegistryRefinement`), and the
chain is a property of that directory (`Live`).
-/

open Prog

/-! ## The calls -/

/-- A file that is open: its name, by which it was opened and will be closed,
and what belongs to it. -/
structure Handle where
  name : Name
  file : OpenFile

/-- **The state**: the tables, and the files `F` that are open. -/
structure Sessions (F : Type) where
  registry : Registry
  files : F → Option Handle

/-- **The calls.** A file that is opened gets memory of any content for its
`struct kucomms_file_data`, if it gets any. -/
inductive LifecycleOp (F : Type) where
  | create (name : Name) (env : ChrdevAnswer)
  | remove (name : Name)
  | register (name : Name) (c : Callbacks)
  | unregister (name : Name)
  | fopsOpen (f : F) (name : Name) (env : FopsEnv) (memory : KucommsFileData)
  | fopsRelease (f : F) (env : FopsEnv)

/-- The answers. -/
inductive LifecycleAnswer where
  | registry (a : Directory.Answer Callbacks)
  | fops (ret : ℤ)
  /-- The call is not made: a file is opened once, and closed once if that
  succeeded. -/
  | notCalled

namespace Sessions

variable {F : Type} [DecidableEq F]

/-- A call of the registry. -/
def registryStep (op : RegistryOp) (s : Sessions F) :
    LifecycleAnswer × Sessions F :=
  let x := op.step s.registry
  (.registry x.1, { s with registry := x.2 })

/-- **A call.** -/
def step : Object (LifecycleOp F) LifecycleAnswer (Sessions F)
  | .create name env, s => s.registryStep (.create name env)
  | .remove name, s => s.registryStep (.remove name)
  | .register name c, s => s.registryStep (.register name c)
  | .unregister name, s => s.registryStep (.unregister name)
  | .fopsOpen f name env memory, s =>
    match s.files f with
    | some _ => (.notCalled, s)
    | none =>
      let x := (kucommsFopsOpen name).run (FopsAct.exec env)
        (s.registry, ⟨memory, false, .none, false⟩)
      (.fops x.1,
        { registry := x.2.1
          files := if x.1 = 0
            then Function.update s.files f (some ⟨name, x.2.2⟩)
            else s.files })
  | .fopsRelease f env, s =>
    match s.files f with
    | none => (.notCalled, s)
    | some h =>
      let x := (kucommsFopsRelease h.name).run (FopsAct.exec env)
        (s.registry, h.file)
      (.fops x.1,
        { registry := x.2.1, files := Function.update s.files f none })

/-- The state at the start: the tables set up, no file open. -/
def init (r : Registry) : Sessions F := ⟨kucommsInit r, fun _ => none⟩

end Sessions

/-! ## What the file operations do to the tables -/

section Operations

variable {env : FopsEnv} {r : Registry} {fd : OpenFile} {name : Name}

/-- A function of the registry inside a file operation. -/
theorem inFops_run {α : Type} (p : LockedRegProg α) :
    (LockedRegProg.inFops p).run (FopsAct.exec env) (r, fd)
      = ((p.atomic .unused r).1, ((p.atomic .unused r).2, fd)) := by
  unfold LockedRegProg.atomic LockedRegProg.inFops
  induction p generalizing r with
  | ret v => rfl
  | act a k ih => exact ih _

theorem findAndClose_inFops_run :
    (LockedRegProg.inFops (kucommsFindAndClose name)).run (FopsAct.exec env)
        (r, fd)
      = ((), (((RegistryOp.findAndClose name).step r).2, fd)) :=
  inFops_run (kucommsFindAndClose name)

/-- What `kucomms_fops_open` fills in. -/
theorem fillFileData_run (env : FopsEnv) (r : Registry) (fd : OpenFile)
    (u : Fin kucommsListSize) (thread : ℕ) :
    ∃ fd', (fillFileData u thread).run (FopsAct.exec env) (r, fd)
        = ((), (r, fd'))
      ∧ fd'.pfd.cbdata = r.cblist u :=
  ⟨_, rfl, rfl⟩

/-- How `kucomms_fops_open` ends: it opens nothing, it takes back the flag it
has set, or it opens the file, with a copy of the callbacks. -/
inductive OpenEnds (name : Name) (r : Registry) :
    ℤ × (Registry × OpenFile) → Prop where
  | refused (fd : OpenFile)
      (hans : ((RegistryOp.findAndOpen name).step r).1 = .entry none false
        ∨ ∃ v, ((RegistryOp.findAndOpen name).step r).1
          = .entry (some v) true) :
      OpenEnds name r (-1, (((RegistryOp.findAndOpen name).step r).2, fd))
  | failed (fd : OpenFile) (v : Callbacks)
      (hans : ((RegistryOp.findAndOpen name).step r).1
        = .entry (some v) false) :
      OpenEnds name r (-1, (((RegistryOp.findAndClose name).step
        ((RegistryOp.findAndOpen name).step r).2).2, fd))
  | opened (fd : OpenFile)
      (hans : ((RegistryOp.findAndOpen name).step r).1
        = .entry (some fd.pfd.cbdata.callbacks) false) :
      OpenEnds name r (0, (((RegistryOp.findAndOpen name).step r).2, fd))

/-- `kucomms_find_and_open` as a call. -/
theorem findAndOpen_step (name : Name) (r : Registry) :
    (RegistryOp.findAndOpen name).step r
      = match r.find .cblist name with
        | none => (.entry none false, r)
        | some u =>
          (.entry (some (r.cblist u).callbacks) (r.cblist u).isOpen,
            r.setOpen u true) := by
  simp only [RegistryOp.step, kucommsFindAndOpen, atomic_locked,
    findAndOpen_run]
  cases r.find .cblist name with
  | none => rfl
  | some u =>
    simp only [Option.map_some, Registry.setOpen, Registry.modifyCb_cblist,
      Function.update_self]

@[simp] theorem run_vmallocFileData {α : Type} (k : Bool → FopsProg α)
    (s : Registry × OpenFile) :
    (Prog.act .vmallocFileData k).run (FopsAct.exec env) s
      = (k env.fileData).run (FopsAct.exec env) s := rfl

/-- The file after `kthread_create`. -/
def afterCreate (env : FopsEnv) (fd : OpenFile) : OpenFile :=
  if env.kthread.isSome then { fd with thread := .created } else fd

@[simp] theorem run_kthreadCreate {α : Type} (k : Option ℕ → FopsProg α)
    (fd : OpenFile) :
    (Prog.act .kthreadCreate k).run (FopsAct.exec env) (r, fd)
      = (k env.kthread).run (FopsAct.exec env) (r, afterCreate env fd) := rfl

/-- What follows the checks of `kucomms_fops_open`: the file is opened, with
a copy of the entry, or the mark is taken back. -/
theorem createFileData_run (env : FopsEnv) (name : Name) (r : Registry)
    (fd : OpenFile) (u : Fin kucommsListSize) :
    (∃ fd', (createFileData name u).run (FopsAct.exec env) (r, fd)
        = (0, (r, fd')) ∧ fd'.pfd.cbdata = r.cblist u)
      ∨ ∃ fd', (createFileData name u).run (FopsAct.exec env) (r, fd)
        = (-1, (((RegistryOp.findAndClose name).step r).2, fd')) := by
  simp only [createFileData, act_bind, ret_bind, run_vmallocFileData]
  by_cases hmem : env.fileData = false
  · refine .inr ⟨fd, ?_⟩
    rw [if_pos hmem, run_bind, findAndClose_inFops_run]
    rfl
  · rw [if_neg hmem, run_kthreadCreate]
    cases env.kthread with
    | none =>
      refine .inr ⟨afterCreate env fd, ?_⟩
      simp only [run_bind, findAndClose_inFops_run]
      rfl
    | some thread =>
      obtain ⟨fd', hfill, hcopy⟩ :=
        fillFileData_run env r (afterCreate env fd) u thread
      refine .inl ⟨fd', ?_, hcopy⟩
      show ((fillFileData u thread >>= fun _ => pure 0 : FopsProg ℤ)).run
        (FopsAct.exec env) (r, afterCreate env fd) = _
      rw [run_bind, hfill]
      rfl

/-- **`kucomms_fops_open`** as calls of the registry. -/
theorem fopsOpen_run :
    OpenEnds name r
      ((kucommsFopsOpen name).run (FopsAct.exec env) (r, fd)) := by
  have hstep := findAndOpen_step name r
  unfold kucommsFopsOpen
  rw [run_bind, inFops_run, kucommsFindAndOpen, atomic_locked,
    findAndOpen_run]
  cases hf : r.find .cblist name with
  | none =>
    simp only [hf] at hstep
    have hend := OpenEnds.refused fd (.inl (congrArg Prod.fst hstep))
    rwa [hstep] at hend
  | some u =>
    simp only [hf] at hstep
    cases hopen : (r.cblist u).isOpen with
    | true =>
      rw [hopen] at hstep
      have hend := OpenEnds.refused fd
        (.inr ⟨_, congrArg Prod.fst hstep⟩)
      rw [hstep] at hend
      simp only [hopen, if_true]
      exact hend
    | false =>
      rw [hopen] at hstep
      simp only [hopen, Bool.false_eq_true, if_false]
      obtain ⟨fd', hrun, hcopy⟩ | ⟨fd', hrun⟩ :=
        createFileData_run env name (r.setOpen u true) fd u
      · have hcb : fd'.pfd.cbdata.callbacks = (r.cblist u).callbacks := by
          rw [hcopy, Registry.setOpen, Registry.modifyCb_cblist,
            Function.update_self]
        have hend := OpenEnds.opened fd'
          (by rw [hstep, hcb])
        rw [hstep] at hend
        rw [hrun]
        exact hend
      · have hend := OpenEnds.failed fd' _ (congrArg Prod.fst hstep)
        rw [hstep] at hend
        rw [hrun]
        exact hend

end Operations

/-- **`kucomms_fops_release`** as a call of the registry. -/
theorem fopsRelease_run {env : FopsEnv} {r : Registry} {fd : OpenFile}
    {name : Name} :
    ((kucommsFopsRelease name).run (FopsAct.exec env) (r, fd)).2.1
      = ((RegistryOp.findAndClose name).step r).2 := by
  unfold kucommsFopsRelease
  rw [run_bind, findAndClose_inFops_run]
  simp only [loadFd, act_bind, ret_bind, run_act]
  split <;> split <;> rfl

/-! ## Open files and the directory -/

/-- The names of a directory have from 1 to 63 characters. -/
def NamesBounded (d : Directory (List UInt8) Callbacks) : Prop :=
  ∀ k ∈ d.devices, 1 ≤ k.length ∧ k.length ≤ 63

/-- **The files that are open are the entries marked open**: each file has
the entry of its name, with the callbacks it copied, and each entry marked
open has one file. -/
structure Live {F : Type} (d : Directory (List UInt8) Callbacks)
    (files : F → Option Handle) : Prop where
  entry : ∀ f h, files f = some h → ∃ k, h.name.key = some k
    ∧ d.entries k = some ⟨h.file.pfd.cbdata.callbacks, true⟩
  unique : ∀ f f' h h', files f = some h → files f' = some h' →
    h.name.key = h'.name.key → f = f'
  opened : ∀ k e, d.entries k = some e → e.isOpen = true →
    ∃ f h, files f = some h ∧ h.name.key = some k

namespace Live

variable {F : Type} {d : Directory (List UInt8) Callbacks}
  {files : F → Option Handle} {k : List UInt8} {e : Entry Callbacks}

/-- Only the entries matter. -/
theorem of_entries {d' : Directory (List UInt8) Callbacks}
    (h : Live d files) (heq : d'.entries = d.entries) : Live d' files :=
  ⟨heq ▸ h.entry, h.unique, heq ▸ h.opened⟩

/-- An entry that is not marked open changes, and is not marked open. -/
theorem setEntry_closed (h : Live d files) {o : Option (Entry Callbacks)}
    (hk : ∀ e, d.entries k = some e → e.isOpen = false)
    (ho : ∀ e, o = some e → e.isOpen = false) :
    Live (d.setEntry k o) files := by
  refine ⟨fun f hd hf => ?_, h.unique, fun k' e he hopen => ?_⟩
  · obtain ⟨k', hk', he⟩ := h.entry f hd hf
    refine ⟨k', hk', (d.setEntry_ne ?_ _).trans he⟩
    rintro rfl
    exact Bool.false_ne_true (hk _ he).symm
  · by_cases hkk : k' = k
    · subst hkk
      have he' : o = some e := (d.setEntry_self k' o).symm.trans he
      exact absurd ((ho e he').symm.trans hopen) Bool.false_ne_true
    · exact h.opened k' e ((d.setEntry_ne hkk _).symm.trans he)
        hopen

variable [DecidableEq F] {f : F}

/-- A file is opened. -/
theorem openFile (h : Live d files) (hf : files f = none) (hd : Handle)
    (hk : hd.name.key = some k) {c : Callbacks}
    (he : d.entries k = some ⟨c, false⟩)
    (hc : hd.file.pfd.cbdata.callbacks = c) :
    Live (d.setEntry k (some ⟨c, true⟩))
      (Function.update files f (some hd)) := by
  -- no other file has the name, since the entry was not marked open
  have hnew : ∀ f' h', files f' = some h' → h'.name.key ≠ some k := by
    intro f' h' hf' hk'
    obtain ⟨k', hkey, he'⟩ := h.entry f' h' hf'
    obtain rfl := Option.some.inj (hkey.symm.trans hk')
    exact Bool.false_ne_true
      (congrArg Entry.isOpen (Option.some.inj (he.symm.trans he')))
  refine ⟨fun f' h' hf' => ?_, fun f₁ f₂ h₁ h₂ hf₁ hf₂ hkey => ?_,
    fun k' e' he' hopen => ?_⟩
  · by_cases hff : f' = f
    · subst hff
      rw [Function.update_self] at hf'
      obtain rfl := Option.some.inj hf'
      exact ⟨k, hk, (d.setEntry_self k _).trans (by rw [hc])⟩
    · rw [Function.update_of_ne hff] at hf'
      obtain ⟨k', hkey, he'⟩ := h.entry f' h' hf'
      refine ⟨k', hkey, (d.setEntry_ne ?_ _).trans he'⟩
      rintro rfl
      exact hnew f' h' hf' hkey
  · by_cases hff₁ : f₁ = f <;> by_cases hff₂ : f₂ = f
    · rw [hff₁, hff₂]
    · subst hff₁
      rw [Function.update_self] at hf₁
      rw [Function.update_of_ne hff₂] at hf₂
      obtain rfl := Option.some.inj hf₁
      exact absurd (hkey.symm.trans hk) (hnew f₂ h₂ hf₂)
    · subst hff₂
      rw [Function.update_self] at hf₂
      rw [Function.update_of_ne hff₁] at hf₁
      obtain rfl := Option.some.inj hf₂
      exact absurd (hkey.trans hk) (hnew f₁ h₁ hf₁)
    · rw [Function.update_of_ne hff₁] at hf₁
      rw [Function.update_of_ne hff₂] at hf₂
      exact h.unique f₁ f₂ h₁ h₂ hf₁ hf₂ hkey
  · by_cases hkk : k' = k
    · subst hkk
      exact ⟨f, hd, Function.update_self .., hk⟩
    · obtain ⟨f', h', hf', hkey⟩ := h.opened k' e'
        ((d.setEntry_ne hkk _).symm.trans he') hopen
      refine ⟨f', h', (Function.update_of_ne ?_ _ _).trans hf', hkey⟩
      rintro rfl
      rw [hf] at hf'
      exact nomatch hf'

/-- A file is closed. -/
theorem closeFile (h : Live d files) {hd : Handle} (hf : files f = some hd)
    (hk : hd.name.key = some k) {c : Callbacks} :
    Live (d.setEntry k (some ⟨c, false⟩))
      (Function.update files f none) := by
  refine ⟨fun f' h' hf' => ?_, fun f₁ f₂ h₁ h₂ hf₁ hf₂ hkey => ?_,
    fun k' e' he' hopen => ?_⟩
  · by_cases hff : f' = f
    · subst hff
      rw [Function.update_self] at hf'
      exact nomatch hf'
    · rw [Function.update_of_ne hff] at hf'
      obtain ⟨k', hkey, he'⟩ := h.entry f' h' hf'
      refine ⟨k', hkey, (d.setEntry_ne ?_ _).trans he'⟩
      rintro rfl
      exact hff (h.unique f' f h' hd hf' hf (hkey.trans hk.symm))
  · have hold : ∀ f' h', Function.update files f none f' = some h' →
        files f' = some h' := by
      intro f' h' hf'
      by_cases hff : f' = f
      · subst hff
        rw [Function.update_self] at hf'
        exact nomatch hf'
      · rwa [Function.update_of_ne hff] at hf'
    exact h.unique f₁ f₂ h₁ h₂ (hold f₁ h₁ hf₁) (hold f₂ h₂ hf₂) hkey
  · by_cases hkk : k' = k
    · subst hkk
      obtain rfl := Option.some.inj ((d.setEntry_self k' _).symm.trans he')
      exact absurd hopen Bool.false_ne_true
    · obtain ⟨f', h', hf', hkey⟩ := h.opened k' e'
        ((d.setEntry_ne hkk _).symm.trans he') hopen
      refine ⟨f', h', (Function.update_of_ne ?_ _ _).trans hf', hkey⟩
      rintro rfl
      obtain rfl := Option.some.inj (hf.symm.trans hf')
      exact hkk (Option.some.inj (hkey.symm.trans hk))

end Live

/-! ## The calls and the directory -/

section DirectorySteps

variable {F : Type} {n : ℕ} {d : Directory (List UInt8) Callbacks}
  {files : F → Option Handle} {k : Option (List UInt8)}

theorem Live.create (h : Live d files) (available : Bool) :
    Live (Directory.step n (.create k available) d).2 files := by
  cases k with
  | none => exact h
  | some k =>
    simp only [Directory.step]
    split
    · exact h.of_entries rfl
    · exact h

theorem Live.remove (h : Live d files) :
    Live (Directory.step n (.remove k) d).2 files := by
  cases k with
  | none => exact h
  | some k =>
    simp only [Directory.step]
    split
    · exact h.of_entries rfl
    · exact h

theorem Live.register (h : Live d files) (v : Option Callbacks) :
    Live (Directory.step n (.register k v) d).2 files := by
  cases k with
  | none => exact h
  | some k =>
    cases v with
    | none => exact h
    | some v =>
      simp only [Directory.step]
      split
      · next hc =>
        refine h.setEntry_closed (fun e he => ?_) (fun e he => ?_)
        · rw [he] at hc
          exact absurd hc.2 Bool.false_ne_true
        · obtain rfl := Option.some.inj he
          rfl
      · exact h

theorem Live.unregister (h : Live d files) :
    Live (Directory.step n (.unregister k) d).2 files := by
  cases k with
  | none => exact h
  | some k =>
    simp only [Directory.step]
    split
    · exact h
    · next e he =>
      split
      · exact h
      · next hopen =>
        refine h.setEntry_closed (fun e' he' => ?_) (fun e' he' => ?_)
        · obtain rfl := Option.some.inj (he.symm.trans he')
          exact Bool.eq_false_iff.mpr hopen
        · cases he'

/-- Only `create` brings in a name. -/
theorem namesBounded_step {op : Directory.Op (List UInt8) Callbacks}
    (hop : ∀ k available, op = .create (some k) available →
      1 ≤ k.length ∧ k.length ≤ 63)
    (hd : NamesBounded d) : NamesBounded (Directory.step n op d).2 := by
  cases op with
  | create k available =>
    cases k with
    | none => exact hd
    | some k =>
      simp only [Directory.step]
      split
      · intro k' hk'
        obtain rfl | hk' := Finset.mem_insert.mp hk'
        · exact hop _ available rfl
        · exact hd k' hk'
      · exact hd
  | remove k =>
    cases k with
    | none => exact hd
    | some k =>
      simp only [Directory.step]
      split
      · exact fun k' hk' => hd k' (Finset.mem_of_mem_erase hk')
      · exact hd
  | register k v =>
    cases k with
    | none => exact hd
    | some k =>
      cases v with
      | none => exact hd
      | some v =>
        simp only [Directory.step]
        split
        · exact hd
        · exact hd
  | unregister k =>
    cases k with
    | none => exact hd
    | some k =>
      simp only [Directory.step]
      split
      · exact hd
      · split
        · exact hd
        · exact hd
  | findAndOpen k =>
    cases k with
    | none => exact hd
    | some k =>
      simp only [Directory.step]
      split
      · exact hd
      · exact hd
  | findAndClose k =>
    cases k with
    | none => exact hd
    | some k =>
      simp only [Directory.step]
      split
      · exact hd
      · exact hd

end DirectorySteps

/-- A name that passes the checks is bounded. -/
theorem checkedKey_length {name : Name} {k : List UInt8}
    (h : checkedKey name = some k) : 1 ≤ k.length ∧ k.length ≤ 63 := by
  unfold checkedKey at h
  obtain ⟨⟨p, len⟩, hn, rfl⟩ := Option.map_eq_some_iff.mp h
  have hlen := checkName_len hn
  rw [length_nameBytes]
  exact ⟨le_trans (by decide) hlen.1, hlen.2⟩

/-- Calls of the registry leave the names bounded. -/
theorem namesBounded_registry {n : ℕ}
    {d : Directory (List UInt8) Callbacks} (hd : NamesBounded d)
    (op : RegistryOp) : NamesBounded (Directory.step n op.dirOp d).2 := by
  refine namesBounded_step (fun k available hk => ?_) hd
  cases op with
  | create name env =>
    exact checkedKey_length (Directory.Op.create.inj hk).1
  | remove name => exact nomatch hk
  | register name c => exact nomatch hk
  | unregister name => exact nomatch hk
  | findAndOpen name => exact nomatch hk
  | findAndClose name => exact nomatch hk

/-! ## The invariant -/

namespace Sessions

variable {F : Type} {s : Sessions F}

/-- **The invariant**: the tables store a directory with bounded names, whose
open entries are the open files. -/
def Inv (s : Sessions F) : Prop :=
  ∃ d, Stores s.registry d ∧ NamesBounded d ∧ Live d s.files

theorem Inv.init (r : Registry) : (init r : Sessions F).Inv :=
  ⟨.empty, Stores.init r, fun _ h => (Finset.notMem_empty _ h).elim,
    (fun _ _ h => nomatch h), (fun _ _ _ _ h => nomatch h),
    (fun _ _ h => nomatch h)⟩

/-- A call of the registry that leaves the open files what they are. -/
theorem Inv.registryStep (hs : s.Inv) (op : RegistryOp)
    (hlive : ∀ d, Live d s.files →
      Live (Directory.step kucommsListSize op.dirOp d).2 s.files) :
    (s.registryStep op).2.Inv := by
  obtain ⟨d, hstores, hnames, hd⟩ := hs
  exact ⟨_, (op.step_refines hstores).2, namesBounded_registry hnames op,
    hlive d hd⟩

/-- What `kucomms_find_and_open` answers, in the directory. -/
theorem findAndOpen_entry {r : Registry} {name : Name}
    {d : Directory (List UInt8) Callbacks} (hstores : Stores r d)
    {v : Callbacks} {b : Bool}
    (hans : ((RegistryOp.findAndOpen name).step r).1 = .entry (some v) b) :
    ∃ k, name.key = some k ∧ d.entries k = some ⟨v, b⟩ := by
  have h := ((RegistryOp.findAndOpen name).step_refines hstores).1
  rw [hans] at h
  simp only [RegistryOp.dirOp] at h
  cases hk : name.key with
  | none =>
    rw [hk] at h
    cases h
  | some k =>
    simp only [hk, Directory.step] at h
    split at h
    · cases h
    · next e he =>
      obtain ⟨hv, rfl⟩ := Directory.Answer.entry.inj h
      obtain rfl := Option.some.inj hv
      exact ⟨k, rfl, he⟩

/-- A name that is refused leaves the directory as it is. -/
theorem findAndOpen_refused {r : Registry} {name : Name}
    {d : Directory (List UInt8) Callbacks} (hstores : Stores r d)
    (hans : ((RegistryOp.findAndOpen name).step r).1 = .entry none false
      ∨ ∃ v, ((RegistryOp.findAndOpen name).step r).1 = .entry (some v) true) :
    (Directory.step kucommsListSize (RegistryOp.findAndOpen name).dirOp d).2
      = d := by
  obtain hans | ⟨v, hans⟩ := hans
  · have h := ((RegistryOp.findAndOpen name).step_refines hstores).1
    rw [hans] at h
    simp only [RegistryOp.dirOp] at h ⊢
    cases hk : name.key with
    | none => rfl
    | some k =>
      simp only [hk, Directory.step] at h ⊢
      split at h
      · rfl
      · cases h
  · obtain ⟨k, hk, he⟩ := findAndOpen_entry hstores hans
    simp only [RegistryOp.dirOp, hk, Directory.step, he]
    exact Directory.setEntry_eq_self he

/-- Marking an entry open and closing it again. -/
theorem findAndClose_findAndOpen {d : Directory (List UInt8) Callbacks}
    {name : Name} {k : List UInt8} {v : Callbacks} (hk : name.key = some k)
    (he : d.entries k = some ⟨v, false⟩) :
    (Directory.step kucommsListSize (RegistryOp.findAndClose name).dirOp
      (Directory.step kucommsListSize
        (RegistryOp.findAndOpen name).dirOp d).2).2 = d := by
  simp only [RegistryOp.dirOp, hk, Directory.step, he,
    Directory.setEntry_self, Directory.setEntry_setEntry]
  exact Directory.setEntry_eq_self he

section FileOperations

variable [DecidableEq F] {f : F}

/-- `kucomms_fops_open` keeps the invariant, however it ends. -/
theorem Inv.fopsOpen (hs : s.Inv) {name : Name} (hf : s.files f = none)
    {x : ℤ × (Registry × OpenFile)} (hx : OpenEnds name s.registry x) :
    (⟨x.2.1, if x.1 = 0 then Function.update s.files f (some ⟨name, x.2.2⟩)
      else s.files⟩ : Sessions F).Inv := by
  have hne : (-1 : ℤ) ≠ 0 := by decide
  obtain ⟨d, hstores, hnames, hd⟩ := hs
  have hopen := ((RegistryOp.findAndOpen name).step_refines hstores).2
  cases hx with
  | refused fd hans =>
    rw [findAndOpen_refused hstores hans] at hopen
    rw [if_neg hne]
    exact ⟨d, hopen, hnames, hd⟩
  | failed fd v hans =>
    obtain ⟨k, hk, he⟩ := findAndOpen_entry hstores hans
    have hclose := ((RegistryOp.findAndClose name).step_refines hopen).2
    rw [findAndClose_findAndOpen hk he] at hclose
    rw [if_neg hne]
    exact ⟨d, hclose, hnames, hd⟩
  | opened fd hans =>
    obtain ⟨k, hk, he⟩ := findAndOpen_entry hstores hans
    refine ⟨_, hopen, namesBounded_registry hnames (.findAndOpen name), ?_⟩
    rw [if_pos rfl]
    simp only [RegistryOp.dirOp, hk, Directory.step, he]
    exact hd.openFile hf ⟨name, _⟩ hk he rfl

/-- `kucomms_fops_release` keeps the invariant. -/
theorem Inv.fopsRelease (hs : s.Inv) {h : Handle} (hf : s.files f = some h) :
    (⟨((RegistryOp.findAndClose h.name).step s.registry).2,
      Function.update s.files f none⟩ : Sessions F).Inv := by
  obtain ⟨d, hstores, hnames, hd⟩ := hs
  obtain ⟨k, hk, he⟩ := hd.entry f h hf
  refine ⟨_, ((RegistryOp.findAndClose h.name).step_refines hstores).2,
    namesBounded_registry hnames (.findAndClose h.name), ?_⟩
  simp only [RegistryOp.dirOp, hk, Directory.step, he]
  exact hd.closeFile hf hk

/-- **Every call keeps the invariant.** -/
theorem Inv.step (op : LifecycleOp F) (hs : s.Inv) :
    (Sessions.step op s).2.Inv := by
  cases op with
  | create name env => exact hs.registryStep _ (fun _ h => h.create _)
  | remove name => exact hs.registryStep _ (fun _ h => h.remove)
  | register name c => exact hs.registryStep _ (fun _ h => h.register _)
  | unregister name => exact hs.registryStep _ (fun _ h => h.unregister)
  | fopsOpen f name env memory =>
    simp only [Sessions.step]
    cases hf : s.files f with
    | some h => exact hs
    | none => exact hs.fopsOpen hf fopsOpen_run
  | fopsRelease f env =>
    simp only [Sessions.step]
    cases hf : s.files f with
    | none => exact hs
    | some h =>
      dsimp only
      rw [fopsRelease_run]
      exact hs.fopsRelease hf

end FileOperations

/-! ## What it means for the tables -/

/-- **The chain of device, callbacks and open file**, in the tables. -/
structure Chained (s : Sessions F) : Prop where
  /-- No name is in two slots of a table. -/
  distinct : ∀ t u v k, s.registry.slotKeys t u = some k →
    s.registry.slotKeys t v = some k → u = v
  /-- A slot in use has a name of 1 to 63 characters. -/
  length : ∀ t u, s.registry.len u t ≠ 0 →
    1 ≤ (s.registry.len u t).toNat ∧ (s.registry.len u t).toNat ≤ 63
  /-- Registered callbacks have a device. -/
  has_device : ∀ u k, s.registry.slotKeys .cblist u = some k →
    ∃ v, s.registry.slotKeys .devlist v = some k
  /-- The open flag says whether there is an open file. -/
  open_iff : ∀ u k, s.registry.slotKeys .cblist u = some k →
    ((s.registry.cblist u).isOpen = true
      ↔ ∃ f h, s.files f = some h ∧ h.name.key = some k)
  /-- There is one open file of a name at most. -/
  one_file : ∀ f f' h h', s.files f = some h → s.files f' = some h' →
    h.name.key = h'.name.key → f = f'
  free_closed : ∀ u, s.registry.slotKeys .cblist u = none →
    (s.registry.cblist u).isOpen = false
  /-- An open file has its callbacks registered, and they are what it
  copied. -/
  registered : ∀ f h, s.files f = some h → ∃ u k, h.name.key = some k
    ∧ s.registry.slotKeys .cblist u = some k
    ∧ (s.registry.cblist u).callbacks = h.file.pfd.cbdata.callbacks
  /-- They cannot be unregistered. -/
  unregister_fails : ∀ f h name, s.files f = some h →
    name.key = h.name.key → (RegistryOp.unregister name).step s.registry
      = (.done false, s.registry)
  /-- The device cannot be removed. -/
  remove_fails : ∀ f h name, s.files f = some h →
    checkedKey name = h.name.key → (RegistryOp.remove name).step s.registry
      = (.done false, s.registry)

/-- A slot in use has a bounded name. -/
theorem length_of_stores {r : Registry} {d : Directory (List UInt8) Callbacks}
    (hstores : Stores r d) (hnames : NamesBounded d) {t : RegTable}
    {u : Fin kucommsListSize} (hu : r.len u t ≠ 0) :
    1 ≤ (r.len u t).toNat ∧ (r.len u t).toNat ≤ 63 := by
  have hkey : r.slotKeys t u
      = some (nameBytes (r.filename u t) (r.len u t)) := if_neg hu
  have hmem := SlotTable.mem_keys.mpr ⟨u, hkey⟩
  have hdev : nameBytes (r.filename u t) (r.len u t) ∈ d.devices := by
    rw [← hstores.devices]
    cases t with
    | cblist => exact hstores.registered_sub hmem
    | devlist => exact hmem
  have hlen := hnames _ hdev
  rwa [length_nameBytes] at hlen

/-- The slot of an open file is marked open, with the callbacks it copied. -/
theorem slot_of_file {r : Registry} {d : Directory (List UInt8) Callbacks}
    {files : F → Option Handle} (hstores : Stores r d) (hd : Live d files)
    {f : F} {h : Handle} (hf : files f = some h) :
    ∃ u k, h.name.key = some k ∧ r.slotKeys .cblist u = some k
      ∧ (r.cblist u).callbacks = h.file.pfd.cbdata.callbacks
      ∧ (r.cblist u).isOpen = true := by
  obtain ⟨k, hk, he⟩ := hd.entry f h hf
  obtain ⟨u, hu, hentry⟩ := hstores.slot_of_entry he
  exact ⟨u, k, hk, hu, congrArg Entry.callbacks hentry,
    congrArg Entry.isOpen hentry⟩

theorem Inv.chained (hs : s.Inv) : s.Chained := by
  obtain ⟨d, hstores, hnames, hd⟩ := hs
  refine ⟨fun t u v k hu hv => hstores.distinct t hu hv,
    fun t u => length_of_stores hstores hnames, fun u k hu => ?_,
    fun u k hu => ⟨fun hopen => ?_, ?_⟩, hd.unique, hstores.free_closed,
    fun f h hf => ?_, fun f h name hf hname => ?_,
    fun f h name hf hname => ?_⟩
  · exact SlotTable.mem_keys.mp
      (hstores.registered_sub (SlotTable.mem_keys.mpr ⟨u, hu⟩))
  · exact hd.opened k _ (hstores.entries.present u k hu) hopen
  · rintro ⟨f, h, hf, hk⟩
    obtain ⟨v, k', hk', hv, -, hopen⟩ := slot_of_file hstores hd hf
    obtain rfl := Option.some.inj (hk'.symm.trans hk)
    rwa [hstores.distinct .cblist hu hv]
  · obtain ⟨u, k, hk, hu, hc, -⟩ := slot_of_file hstores hd hf
    exact ⟨u, k, hk, hu, hc⟩
  · obtain ⟨u, k, hk, hu, -, hopen⟩ := slot_of_file hstores hd hf
    have hfind := (hstores.find_eq .cblist (hname.trans hk)).mpr hu
    simp only [RegistryOp.step, kucommsUnregister, atomic_locked,
      unregister_run, hfind, if_pos hopen]
  · obtain ⟨u, k, hk, hu, -, -⟩ := slot_of_file hstores hd hf
    obtain ⟨⟨p, len⟩, hcheck, hkey⟩ :=
      Option.map_eq_some_iff.mp (hname.trans hk)
    have hfind := (hstores.find_eq .cblist
      ((key_of_checkName hcheck).2.trans (congrArg some hkey))).mpr hu
    simp only [RegistryOp.step, kucommsCharDeviceRemove, hcheck,
      atomic_locked, charDeviceRemove_run, hfind]
    rfl

/-- **The life cycle invariant.** After any calls, in any order, from the
tables that are set up at the start, the chain holds. -/
theorem lifecycle_invariant [DecidableEq F] (r : Registry)
    (ops : List (LifecycleOp F)) :
    Chained (Object.run step ops (init r)).2 :=
  (Object.invariant (fun op _ hs => hs.step op) ops (Inv.init r)).chained

end Sessions
