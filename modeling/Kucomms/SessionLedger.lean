import Kucomms.Ledger
import Kucomms.Lifecycle

/-!
# What the files of a device hold

`kucomms_fops_open` allocates a `struct kucomms_file_data`, and
`kucomms_fops_mmap` the mapping and a buffer for a message; each can fail at
any point, and cleans up after itself. `kucomms_fops_release` frees what is
left.

Here the file operations keep a ledger of what is allocated, beside the
tables and the file. Calls are made one at a time, for any number of files,
with any calls of the registry between them. The bounce buffer is not in the
ledger: the kernel thread allocates it and frees it itself.

`session_ledger`: after any calls, what is allocated is what the open files
hold, each block once; nothing was freed twice, and nothing that a file held
before its thread had stopped.
-/

open Prog

/-! ## Blocks -/

/-- **What is allocated**, with the file in a call of which it was, and its
address. -/
inductive Block (F : Type) where
  /-- `vmalloc(sizeof(struct kucomms_file_data))` -/
  | fileData (f : F)
  /-- `vmalloc_user(len)` -/
  | mapping (f : F) (p : ℕ)
  /-- `vmalloc(message_queue_get_queue_length(len/2))` -/
  | message (f : F) (p : ℕ)
  deriving DecidableEq

namespace Block

variable {F : Type}

/-- The file in a call of which it was allocated. -/
def owner : Block F → F
  | fileData f | mapping f _ | message f _ => f

/-- The address, where the model has one. -/
def address : Block F → Option ℕ
  | fileData _ => none
  | mapping _ p | message _ p => some p

end Block

/-- There is no thread, or it has been stopped. -/
def ThreadState.stopped : ThreadState → Bool
  | .none | .exited => true
  | _ => false

/-- Whether `p` may be freed: it is not what the file holds, or the thread of
the file has been stopped. -/
def OpenFile.mayFree (fd : OpenFile) (p : ℕ) : Bool :=
  fd.thread.stopped || (p != fd.pfd.vaddr && p != fd.pfd.cbdata.message)

/-! ## The calls -/

section Exec

variable {F : Type} [DecidableEq F]

/-- **What an action does** to the tables, to a file and to the ledger. An
allocation fails if `env` says so, and gives out no address in use. -/
def FopsAct.execLedger (env : FopsEnv) (f : F) : (a : FopsAct) →
    (Registry × OpenFile) × Ledger (Block F) →
    a.Res × ((Registry × OpenFile) × Ledger (Block F))
  | .vmallocFileData, (s, g) =>
    (env.fileData, (s, if env.fileData = true then g.alloc (.fileData f) else g))
  | .vfreeFileData, (s, g) =>
    ((), (s, g.free (.fileData f) s.2.thread.stopped))
  | .vmallocUser _, (s, g) =>
    let p := g.grant Block.address env.vaddr
    (p, (s, if p = 0 then g else g.alloc (.mapping f p)))
  | .vmalloc _, (s, g) =>
    let p := g.grant Block.address env.message
    (p, (s, if p = 0 then g else g.alloc (.message f p)))
  | .vfree p, (s, g) => ((), (s, g.freeAt Block.address p (s.2.mayFree p)))
  | a, (s, g) => ((a.exec env s).1, ((a.exec env s).2, g))

end Exec

/-- A file that is open: its name, what belongs to it, and whether a call of
`kucomms_fops_mmap` has succeeded. -/
structure LedgerHandle where
  name : Name
  file : OpenFile
  mapped : Bool

/-- **The state**: the tables, the files `F` that are open, and what is
allocated. -/
structure LedgerState (F : Type) where
  registry : Registry
  files : F → Option LedgerHandle
  ledger : Ledger (Block F)

/-- **The calls.** A file that is opened gets memory of any content for its
`struct kucomms_file_data`, if it gets any. -/
inductive LedgerOp (F : Type) where
  | registry (op : RegistryOp)
  | fopsOpen (f : F) (name : Name) (env : FopsEnv) (memory : KucommsFileData)
  | fopsMmap (f : F) (len : UInt64) (env : FopsEnv)
  | fopsRelease (f : F) (env : FopsEnv)

namespace LedgerState

variable {F : Type} [DecidableEq F]

/-- **A call.** -/
def step : Object (LedgerOp F) LifecycleAnswer (LedgerState F)
  | .registry op, s =>
    let x := op.step s.registry
    (.registry x.1, { s with registry := x.2 })
  | .fopsOpen f name env memory, s =>
    match s.files f with
    | some _ => (.notCalled, s)
    | none =>
      let x := (kucommsFopsOpen name).run (FopsAct.execLedger env f)
        ((s.registry, ⟨memory, false, .none, false⟩), s.ledger)
      (.fops x.1,
        { registry := x.2.1.1
          files := if x.1 = 0
            then Function.update s.files f (some ⟨name, x.2.1.2, false⟩)
            else s.files
          ledger := x.2.2 })
  | .fopsMmap f len env, s =>
    match s.files f with
    | none => (.notCalled, s)
    | some h =>
      let x := (kucommsFopsMmap len).run (FopsAct.execLedger env f)
        ((s.registry, h.file), s.ledger)
      (.fops x.1,
        { registry := x.2.1.1
          files := Function.update s.files f
            (some ⟨h.name, x.2.1.2, h.mapped || x.1 == 0⟩)
          ledger := x.2.2 })
  | .fopsRelease f env, s =>
    match s.files f with
    | none => (.notCalled, s)
    | some h =>
      let x := (kucommsFopsRelease h.name).run (FopsAct.execLedger env f)
        ((s.registry, h.file), s.ledger)
      (.fops x.1,
        { registry := x.2.1.1
          files := Function.update s.files f none
          ledger := x.2.2 })

/-- The state at the start: the tables are static memory that was set up, no
file is open. -/
def init : LedgerState F := ⟨kucommsInit .blank, fun _ => none, .empty⟩

/-- **What a file holds.** -/
def Holds (f : F) (h : LedgerHandle) (b : Block F) : Prop :=
  b = .fileData f ∨ h.mapped = true ∧ (b = .mapping f h.file.pfd.vaddr
    ∨ b = .message f h.file.pfd.cbdata.message)

/-- What the open files hold. -/
def Held (s : LedgerState F) (b : Block F) : Prop :=
  ∃ f h, s.files f = some h ∧ Holds f h b

end LedgerState

/-! ## The operations of a file -/

section Operations

variable {F : Type} [DecidableEq F] {env : FopsEnv} {f : F} {r : Registry}
  {fd : OpenFile} {g : Ledger (Block F)} {name : Name}

/-- A function of the registry leaves the ledger alone. -/
theorem inFops_ledger_run {α : Type} (p : LockedRegProg α) :
    (LockedRegProg.inFops p).run (FopsAct.execLedger env f) ((r, fd), g)
      = ((p.atomic .unused r).1, (((p.atomic .unused r).2, fd), g)) := by
  unfold LockedRegProg.atomic LockedRegProg.inFops
  induction p generalizing r with
  | ret v => rfl
  | act a k ih => exact ih _

/-- **No entry of the table has a message.** -/
def NoMessages (r : Registry) : Prop := ∀ u, (r.cblist u).message = 0

/-- An entry that is changed keeps its message if the change does. -/
theorem modifyCb_message (r : Registry) (u v : Fin kucommsListSize)
    {m : KucommsCallbackData → KucommsCallbackData}
    (hm : ∀ d, (m d).message = d.message) :
    ((r.modifyCb u m).cblist v).message = (r.cblist v).message := by
  show (Function.update r.cblist u (m (r.cblist u)) v).message = _
  by_cases hv : v = u
  · rw [hv, Function.update_self, hm]
  · rw [Function.update_of_ne hv]

/-- No function of the registry stores to it. -/
theorem exec_message (env : ChrdevAnswer) (a : RegAct) (r : Registry)
    (v : Fin kucommsListSize) :
    ((a.exec env r).2.cblist v).message = (r.cblist v).message := by
  cases a with
  | storeLen t u n =>
    cases t with
    | cblist =>
      exact modifyCb_message r u v (m := fun d => { d with filenameLen := n })
        (fun _ => rfl)
    | devlist => rfl
  | storeByte t u k b =>
    cases t with
    | cblist =>
      exact modifyCb_message r u v
        (m := fun d => { d with filename := Function.update d.filename k b })
        (fun _ => rfl)
    | devlist => rfl
  | storeOpen u b =>
    exact modifyCb_message r u v (m := fun d => { d with isOpen := b })
      (fun _ => rfl)
  | storeCallbacks u c =>
    exact modifyCb_message r u v (m := fun d => { d with callbacks := c })
      (fun _ => rfl)
  | _ => rfl

theorem NoMessages.atomic {α : Type} (h : NoMessages r) (p : LockedRegProg α)
    (env : ChrdevAnswer) : NoMessages (p.atomic env r).2 := by
  unfold LockedRegProg.atomic
  induction p generalizing r with
  | ret v => exact h
  | act a k ih =>
    refine ih _ ?_
    cases a with
    | lock => exact h
    | unlock => exact h
    | act a => exact fun u => (exec_message env a r u).trans (h u)

theorem NoMessages.step (h : NoMessages r) (op : RegistryOp) :
    NoMessages (op.step r).2 := by
  cases op with
  | findAndOpen name =>
    show NoMessages ((kucommsFindAndOpen name).atomic .unused r).2
    exact h.atomic _ _
  | _ => exact h.atomic _ _

/-- **What `kucomms_fops_open` leaves**: an error and no allocation, or a file
that holds its `struct kucomms_file_data` and nothing else yet. -/
def OpenLedger (f : F) (g : Ledger (Block F))
    (x : ℤ × ((Registry × OpenFile) × Ledger (Block F))) : Prop :=
  NoMessages x.2.1.1
    ∧ (x.1 ≠ 0 ∧ x.2.2 = g
      ∨ x.1 = 0 ∧ x.2.2 = g.alloc (.fileData f)
        ∧ x.2.1.2.pfd.vaddr = 0 ∧ x.2.1.2.pfd.cbdata.message = 0)

/-- What `*pfd` is filled with. -/
theorem fillFileData_ledger (env : FopsEnv) (f : F) (r : Registry)
    (fd : OpenFile) (g : Ledger (Block F)) (u : Fin kucommsListSize)
    (thread : ℕ) :
    ∃ fd', (fillFileData u thread).run (FopsAct.execLedger env f) ((r, fd), g)
        = ((), ((r, fd'), g))
      ∧ fd'.pfd.vaddr = 0
      ∧ fd'.pfd.cbdata.message = (r.cblist u).message :=
  ⟨_, rfl, rfl, rfl⟩

theorem createFileData_ledger (hr : NoMessages r) (hfd : fd.thread = .none)
    (u : Fin kucommsListSize) :
    OpenLedger f g ((createFileData name u).run (FopsAct.execLedger env f)
      ((r, fd), g)) := by
  have hclose := hr.atomic (kucommsFindAndClose name) .unused
  obtain ⟨mem, hmem⟩ : ∃ mem, env.fileData = mem := ⟨_, rfl⟩
  obtain ⟨thread, hthread⟩ : ∃ thread, env.kthread = thread := ⟨_, rfl⟩
  unfold createFileData
  simp only [act_bind, ret_bind, run_act, run_ite, run_bind,
    FopsAct.execLedger, FopsAct.exec, hmem, hthread, inFops_ledger_run]
  have hne : (-1 : ℤ) ≠ 0 := by decide
  cases mem with
  | false => exact ⟨hclose, .inl ⟨hne, rfl⟩⟩
  | true =>
    rw [if_neg (fun hc => Bool.false_ne_true hc.symm), if_pos rfl]
    cases thread with
    | none =>
      simp only [run_bind, inFops_ledger_run, run_act, FopsAct.execLedger]
      refine ⟨hclose, .inl ⟨hne, ?_⟩⟩
      show (g.alloc (.fileData f)).free (.fileData f) fd.thread.stopped = g
      rw [hfd]
      exact Ledger.free_alloc g _
    | some thread =>
      obtain ⟨fd', hfill, hvaddr, hmessage⟩ := fillFileData_ledger env f r
        { fd with thread := .created } (g.alloc (.fileData f)) u thread
      show OpenLedger f g ((fillFileData u thread >>= fun _ => pure 0 :
        FopsProg ℤ).run (FopsAct.execLedger env f)
          ((r, { fd with thread := .created }), g.alloc (.fileData f)))
      rw [run_bind, hfill]
      exact ⟨hr, .inr ⟨rfl, rfl, hvaddr, hmessage.trans (hr u)⟩⟩

theorem fopsOpen_ledger (hr : NoMessages r) (hfd : fd.thread = .none) :
    OpenLedger f g ((kucommsFopsOpen name).run (FopsAct.execLedger env f)
      ((r, fd), g)) := by
  have hopen := hr.atomic (kucommsFindAndOpen name) .unused
  have hne : (-1 : ℤ) ≠ 0 := by decide
  unfold kucommsFopsOpen
  rw [run_bind, inFops_ledger_run]
  obtain ⟨x, hx⟩ : ∃ x, (kucommsFindAndOpen name).atomic .unused r = x :=
    ⟨_, rfl⟩
  rw [hx] at hopen ⊢
  obtain ⟨⟨pcbdata, isOpen⟩, r'⟩ := x
  cases pcbdata with
  | none => exact ⟨hopen, .inl ⟨hne, rfl⟩⟩
  | some u =>
    cases isOpen with
    | true => exact ⟨hopen, .inl ⟨hne, rfl⟩⟩
    | false => exact createFileData_ledger hopen hfd u

/-- **What `kucomms_fops_mmap` leaves**: an error and no change, or a file
that also holds a mapping and a buffer. -/
def MmapLedger (f : F) (r : Registry) (fd : OpenFile) (g : Ledger (Block F))
    (x : ℤ × ((Registry × OpenFile) × Ledger (Block F))) : Prop :=
  x = (negEio, ((r, fd), g))
    ∨ x.1 = 0 ∧ x.2.1.1 = r ∧ fd.pfd.vaddr = 0 ∧ ∃ vaddr message,
      vaddr ≠ 0 ∧ message ≠ 0 ∧ x.2.1.2.pfd.vaddr = vaddr
        ∧ x.2.1.2.pfd.cbdata.message = message
        ∧ g.grant Block.address vaddr = vaddr
        ∧ (g.alloc (.mapping f vaddr)).grant Block.address message = message
        ∧ x.2.2 = (g.alloc (.mapping f vaddr)).alloc (.message f message)

theorem startSession_ledger (env : FopsEnv) (f : F) (r : Registry)
    (fd : OpenFile) (g : Ledger (Block F)) (len : UInt64)
    (vaddr message : ℕ) :
    ∃ fd', (startSession len vaddr message).run (FopsAct.execLedger env f)
        ((r, fd), g) = (0, ((r, fd'), g))
      ∧ fd'.pfd.vaddr = vaddr ∧ fd'.pfd.cbdata.message = message := by
  have hexec : ∀ a s, a.onFile = true → FopsAct.execLedger env f a (s, g)
      = ((a.exec env s).1, ((a.exec env s).2, g)) := by
    intro a s ha
    cases a <;> first | rfl | exact absurd ha Bool.false_ne_true
  obtain ⟨fd', -, hrun, hvaddr, -, hmessage, -⟩ := startManager_run
    (FopsAct.execLedger env f) env (fun s => (s, g)) hexec len vaddr message r
    { fd with pfd := { fd.pfd with
      rxMsgq := vaddr, txMsgq := vaddr + (len / 2).toNat } }
  exact ⟨fd', hrun, hvaddr, hmessage⟩

/-- What a failed call frees again is not what the file holds. -/
theorem mayFree_other {p : ℕ} (hp : p ≠ 0) (hvaddr : fd.pfd.vaddr = 0)
    (hmessage : fd.pfd.cbdata.message = 0) : fd.mayFree p = true := by
  unfold OpenFile.mayFree
  rw [hvaddr, hmessage, bne_iff_ne.mpr hp]
  exact Bool.or_true _

theorem loadFd_ledger {α : Type} (k : KucommsFileData → FopsProg α) :
    (Prog.act .loadFd k).run (FopsAct.execLedger env f) ((r, fd), g)
      = (k fd.pfd).run (FopsAct.execLedger env f) ((r, fd), g) := rfl

theorem vmallocUser_ledger {α : Type} (len : UInt64) (k : ℕ → FopsProg α) :
    (Prog.act (.vmallocUser len) k).run (FopsAct.execLedger env f) ((r, fd), g)
      = (k (g.grant Block.address env.vaddr)).run (FopsAct.execLedger env f)
        ((r, fd), if g.grant Block.address env.vaddr = 0 then g
          else g.alloc (.mapping f (g.grant Block.address env.vaddr))) := rfl

theorem remap_ledger {α : Type} (p : ℕ) (k : ℤ → FopsProg α) :
    (Prog.act (.remapVmallocRange p) k).run (FopsAct.execLedger env f)
        ((r, fd), g)
      = (k env.remap).run (FopsAct.execLedger env f) ((r, fd), g) := rfl

theorem vmalloc_ledger {α : Type} (len : UInt64) (k : ℕ → FopsProg α) :
    (Prog.act (.vmalloc len) k).run (FopsAct.execLedger env f) ((r, fd), g)
      = (k (g.grant Block.address env.message)).run (FopsAct.execLedger env f)
        ((r, fd), if g.grant Block.address env.message = 0 then g
          else g.alloc (.message f (g.grant Block.address env.message))) := rfl

theorem fopsMmap_ledger (len : UInt64)
    (hblank : fd.pfd.vaddr = 0 → fd.pfd.cbdata.message = 0) :
    MmapLedger f r fd g ((kucommsFopsMmap len).run (FopsAct.execLedger env f)
      ((r, fd), g)) := by
  simp only [kucommsFopsMmap, loadFd, act_bind, ret_bind, loadFd_ledger, run_ite,
    vmallocUser_ledger, remap_ledger, vmalloc_ledger]
  by_cases hvaddr : fd.pfd.vaddr ≠ 0
  · rw [if_pos hvaddr]
    exact .inl rfl
  have hvaddr0 := not_not.mp hvaddr
  rw [if_neg hvaddr]
  by_cases hlen : len > kucommsMaxMemAllocSize
  · rw [if_pos hlen]
    exact .inl rfl
  rw [if_neg hlen]
  obtain ⟨p, hp⟩ : ∃ p, g.grant Block.address env.vaddr = p := ⟨_, rfl⟩
  rw [hp]
  by_cases hp0 : p = 0
  · rw [if_pos hp0, if_pos hp0]
    exact .inl rfl
  rw [if_neg hp0, if_neg hp0]
  have hgrant : g.grant Block.address p = p := hp ▸ Ledger.grant_grant
  -- the exits after this one free the mapping
  have hfree : (g.alloc (.mapping f p)).freeAt Block.address p (fd.mayFree p)
      = g := by
    rw [mayFree_other hp0 hvaddr0 (hblank hvaddr0)]
    exact Ledger.freeAt_alloc rfl
  by_cases hremap : env.remap ≠ 0
  · rw [if_pos hremap]
    exact .inl (congrArg (fun g => (negEio, ((r, fd), g))) hfree)
  rw [if_neg hremap]
  obtain ⟨q, hq⟩ : ∃ q, (g.alloc (.mapping f p)).grant Block.address
    env.message = q := ⟨_, rfl⟩
  rw [hq]
  by_cases hq0 : q = 0
  · rw [if_pos hq0, if_pos hq0]
    exact .inl (congrArg (fun g => (negEio, ((r, fd), g))) hfree)
  rw [if_neg hq0, if_neg hq0]
  have hgrant' : (g.alloc (.mapping f p)).grant Block.address q = q :=
    hq ▸ Ledger.grant_grant
  obtain ⟨fd', hrun, hvaddr', hmessage'⟩ := startSession_ledger env f r fd
    ((g.alloc (.mapping f p)).alloc (.message f q)) len p q
  rw [hrun]
  exact .inr ⟨rfl, rfl, hvaddr0, p, q, hp0, hq0, hvaddr', hmessage', hgrant,
    hgrant', rfl⟩

/-- A file that has a mapping gets no other. -/
theorem fopsMmap_rejects (env : FopsEnv) (f : F) (r : Registry)
    (g : Ledger (Block F)) (len : UInt64) (hvaddr : fd.pfd.vaddr ≠ 0) :
    (kucommsFopsMmap len).run (FopsAct.execLedger env f) ((r, fd), g)
      = (negEio, ((r, fd), g)) := by
  simp only [kucommsFopsMmap, loadFd, act_bind, ret_bind, loadFd_ledger, run_ite]
  rw [if_pos hvaddr]
  rfl

/-- A file that has none gets one if there is memory. -/
theorem fopsMmap_accepts {len : UInt64} (hvaddr : fd.pfd.vaddr = 0)
    (hlen : ¬ len > kucommsMaxMemAllocSize)
    (hp : g.grant Block.address env.vaddr ≠ 0) (hremap : env.remap = 0)
    (hq : (g.alloc (.mapping f (g.grant Block.address env.vaddr))).grant
      Block.address env.message ≠ 0) :
    ((kucommsFopsMmap len).run (FopsAct.execLedger env f) ((r, fd), g)).1
      = 0 := by
  simp only [kucommsFopsMmap, loadFd, act_bind, ret_bind, loadFd_ledger, run_ite,
    vmallocUser_ledger, remap_ledger, vmalloc_ledger]
  rw [if_neg (not_not.mpr hvaddr), if_neg hlen, if_neg hp, if_neg hp,
    if_neg (not_not.mpr hremap), if_neg hq, if_neg hq]
  obtain ⟨fd', hrun, -⟩ := startSession_ledger env f r fd
    ((g.alloc _).alloc _) len (g.grant Block.address env.vaddr) _
  exact congrArg Prod.fst hrun

theorem kthreadStop_ledger {α : Type} (k : Unit → FopsProg α) :
    (Prog.act .kthreadStop fun _ => .act .kthreadStopWait k).run
        (FopsAct.execLedger env f) ((r, fd), g)
      = (k ()).run (FopsAct.execLedger env f)
        ((r, { fd with thread := .exited, shouldStop := true }), g) := rfl

/-- **What `kucomms_fops_release` frees**, the thread having stopped. -/
theorem fopsRelease_ledger :
    (kucommsFopsRelease name).run (FopsAct.execLedger env f) ((r, fd), g)
      = (0, ((((kucommsFindAndClose name).atomic .unused r).2,
          { fd with thread := .exited, shouldStop := true }),
        let g₁ := if fd.pfd.cbdata.message ≠ 0 then
          g.freeAt Block.address fd.pfd.cbdata.message true else g
        let g₂ := if fd.pfd.vaddr ≠ 0 then
          g₁.freeAt Block.address fd.pfd.vaddr true else g₁
        g₂.free (.fileData f) true)) := by
  unfold kucommsFopsRelease
  rw [run_bind, inFops_ledger_run]
  simp only [loadFd, act_bind, ret_bind, loadFd_ledger, kthreadStop_ledger]
  by_cases hmessage : fd.pfd.cbdata.message ≠ 0
  · rw [if_pos hmessage, if_pos hmessage]
    by_cases hvaddr : fd.pfd.vaddr ≠ 0
    · rw [if_pos hvaddr, if_pos hvaddr]
      rfl
    · rw [if_neg hvaddr, if_neg hvaddr]
      rfl
  · rw [if_neg hmessage, if_neg hmessage]
    by_cases hvaddr : fd.pfd.vaddr ≠ 0
    · rw [if_pos hvaddr, if_pos hvaddr]
      rfl
    · rw [if_neg hvaddr, if_neg hvaddr]
      rfl

end Operations

/-! ## The invariant -/

namespace LedgerState

variable {F : Type} {s : LedgerState F}

/-- **The invariant**: what is allocated is what the open files hold, at
addresses of their own. -/
structure Inv (s : LedgerState F) : Prop where
  exact : s.ledger.Exact s.Held
  address : ∀ b c p, s.Held b → s.Held c → b.address = some p →
    c.address = some p → b = c
  /-- A file that is not mapped has no addresses. -/
  blank : ∀ f h, s.files f = some h → h.mapped = false →
    h.file.pfd.vaddr = 0 ∧ h.file.pfd.cbdata.message = 0
  mapped : ∀ f h, s.files f = some h → h.mapped = true →
    h.file.pfd.vaddr ≠ 0 ∧ h.file.pfd.cbdata.message ≠ 0
  noMessages : NoMessages s.registry

theorem Inv.init : (init : LedgerState F).Inv := by
  have hheld : ∀ b : Block F, ¬ (LedgerState.init : LedgerState F).Held b := by
    rintro b ⟨f, h, hf, -⟩
    cases hf
  refine ⟨.empty hheld, fun b c p hb => absurd hb (hheld b),
    fun f h hf => ?_, fun f h hf => ?_, fun u => rfl⟩
  · cases hf
  · cases hf

/-- A file holds blocks of its own. -/
theorem Holds.owner {f : F} {h : LedgerHandle} {b : Block F}
    (hb : Holds f h b) : b.owner = f := by
  rcases hb with rfl | ⟨-, rfl | rfl⟩
  · rfl
  · rfl
  · rfl

variable [DecidableEq F]

/-- The files after one was opened, changed or closed. -/
theorem update_some {files : F → Option LedgerHandle} {f f' : F}
    {x : Option LedgerHandle} {hd : LedgerHandle}
    (h : Function.update files f x f' = some hd) :
    f' = f ∧ x = some hd ∨ f' ≠ f ∧ files f' = some hd := by
  by_cases hne : f' = f
  · rw [hne, Function.update_self] at h
    exact .inl ⟨hne, h⟩
  · rw [Function.update_of_ne hne] at h
    exact .inr ⟨hne, h⟩

/-- **What is held** once a file is open, or closed. -/
theorem held_update {s : LedgerState F} {f : F} {h : Option LedgerHandle}
    {r : Registry} {g : Ledger (Block F)} {b : Block F} :
    Held ⟨r, Function.update s.files f h, g⟩ b
      ↔ (∃ hd, h = some hd ∧ Holds f hd b)
        ∨ ∃ f' hd, f' ≠ f ∧ s.files f' = some hd ∧ Holds f' hd b := by
  constructor
  · rintro ⟨f', hd, hf', hb⟩
    rcases update_some hf' with ⟨rfl, hh⟩ | ⟨hne, hf'⟩
    · exact .inl ⟨hd, hh, hb⟩
    · exact .inr ⟨f', hd, hne, hf', hb⟩
  · rintro (⟨hd, rfl, hb⟩ | ⟨f', hd, hne, hf', hb⟩)
    · exact ⟨f, hd, Function.update_self .., hb⟩
    · exact ⟨f', hd, (Function.update_of_ne hne ..).trans hf', hb⟩

/-- The same before. -/
theorem held_split {s : LedgerState F} {f : F} {b : Block F} :
    s.Held b ↔ (∃ hd, s.files f = some hd ∧ Holds f hd b)
      ∨ ∃ f' hd, f' ≠ f ∧ s.files f' = some hd ∧ Holds f' hd b := by
  have h := held_update (s := s) (f := f) (h := s.files f) (r := s.registry)
    (g := s.ledger) (b := b)
  rwa [Function.update_eq_self] at h

section Calls

variable {f : F}

/-- A file is opened. -/
theorem Inv.opened (hs : s.Inv) (hf : s.files f = none) {r : Registry}
    (hr : NoMessages r) {name : Name} {fd : OpenFile}
    (hvaddr : fd.pfd.vaddr = 0) (hmessage : fd.pfd.cbdata.message = 0) :
    Inv ⟨r, Function.update s.files f (some ⟨name, fd, false⟩),
      s.ledger.alloc (.fileData f)⟩ := by
  have hheld : ∀ b, Held ⟨r, Function.update s.files f
      (some ⟨name, fd, false⟩), s.ledger.alloc (.fileData f)⟩ b
      ↔ b = .fileData f ∨ s.Held b := by
    intro b
    rw [held_update, held_split (s := s) (f := f)]
    constructor
    · rintro (⟨hd, hhd, rfl | ⟨hm, -⟩⟩ | hother)
      · exact .inl rfl
      · cases hhd
        cases hm
      · exact .inr (.inr hother)
    · rintro (rfl | ⟨hd, hhd, -⟩ | hother)
      · exact .inl ⟨_, rfl, .inl rfl⟩
      · rw [hf] at hhd
        cases hhd
      · exact .inr hother
  have hfresh : ¬ s.Held (.fileData f) := by
    rintro ⟨f', h', hf', hb⟩
    obtain rfl : f = f' := hb.owner
    rw [hf] at hf'
    cases hf'
  refine ⟨hs.exact.alloc hfresh hheld,
    Ledger.address_insert hs.address (fun c p _ hp => by cases hp) hheld,
    fun f' h' hf' hm => ?_, fun f' h' hf' hm => ?_, hr⟩
  · rcases update_some hf' with ⟨-, hh⟩ | ⟨-, hf'⟩
    · obtain rfl := Option.some.inj hh
      exact ⟨hvaddr, hmessage⟩
    · exact hs.blank f' h' hf' hm
  · rcases update_some hf' with ⟨-, hh⟩ | ⟨-, hf'⟩
    · obtain rfl := Option.some.inj hh
      cases hm
    · exact hs.mapped f' h' hf' hm

/-- A file is mapped. -/
theorem Inv.mmapped (hs : s.Inv) {h : LedgerHandle} (hf : s.files f = some h)
    (hmap : h.mapped = false) {r : Registry} (hr : NoMessages r) {p q : ℕ}
    (hp : p ≠ 0) (hq : q ≠ 0) (hgrant : s.ledger.grant Block.address p = p)
    (hgrant' : (s.ledger.alloc (.mapping f p)).grant Block.address q = q)
    {fd : OpenFile} (hvaddr : fd.pfd.vaddr = p)
    (hmessage : fd.pfd.cbdata.message = q) :
    Inv ⟨r, Function.update s.files f (some ⟨h.name, fd, true⟩),
      (s.ledger.alloc (.mapping f p)).alloc (.message f q)⟩ := by
  have hheld : ∀ b, Held ⟨r, Function.update s.files f
      (some ⟨h.name, fd, true⟩),
      (s.ledger.alloc (.mapping f p)).alloc (.message f q)⟩ b
      ↔ b = .message f q ∨ b = .mapping f p ∨ s.Held b := by
    intro b
    rw [held_update, held_split (s := s) (f := f)]
    constructor
    · rintro (⟨hd, hhd, hb⟩ | hother)
      · obtain rfl := Option.some.inj hhd
        rcases hb with rfl | ⟨-, rfl | rfl⟩
        · exact .inr (.inr (.inl ⟨h, hf, .inl rfl⟩))
        · exact .inr (.inl (congrArg _ hvaddr))
        · exact .inl (congrArg _ hmessage)
      · exact .inr (.inr (.inr hother))
    · rintro (rfl | rfl | ⟨hd, hhd, rfl | ⟨hm, -⟩⟩ | hother)
      · exact .inl ⟨_, rfl, .inr ⟨rfl, .inr (congrArg _ hmessage.symm)⟩⟩
      · exact .inl ⟨_, rfl, .inr ⟨rfl, .inl (congrArg _ hvaddr.symm)⟩⟩
      · exact .inl ⟨_, rfl, .inl rfl⟩
      · obtain rfl := Option.some.inj (hf.symm.trans hhd)
        rw [hmap] at hm
        cases hm
      · exact .inr hother
  -- neither address is in use
  have hfresh : ∀ c, s.Held c → c.address ≠ some p := fun c hc =>
    hs.exact.grant_fresh hp hgrant hc
  have hexact : (s.ledger.alloc (.mapping f p)).Exact
      (fun c => c = .mapping f p ∨ s.Held c) :=
    hs.exact.alloc (fun hb => hfresh _ hb rfl) (fun c => Iff.rfl)
  have hfresh' : ∀ c, c = .mapping f p ∨ s.Held c → c.address ≠ some q :=
    fun c hc => hexact.grant_fresh hq hgrant' hc
  have haddress : ∀ b c p', b = .mapping f p ∨ s.Held b →
      c = .mapping f p ∨ s.Held c → b.address = some p' →
      c.address = some p' → b = c :=
    Ledger.address_insert (b := .mapping f p) hs.address
      (fun c p' hc (hp' : some p = some p') => hp' ▸ hfresh c hc)
      (fun _ => Iff.rfl)
  refine ⟨hexact.alloc (fun hb => hfresh' _ hb rfl) hheld,
    Ledger.address_insert (b := .message f q) haddress
      (fun c p' hc (hp' : some q = some p') => hp' ▸ hfresh' c hc) hheld,
    fun f' h' hf' hm => ?_, fun f' h' hf' hm => ?_, hr⟩
  · rcases update_some hf' with ⟨-, hh⟩ | ⟨-, hf'⟩
    · obtain rfl := Option.some.inj hh
      cases hm
    · exact hs.blank f' h' hf' hm
  · rcases update_some hf' with ⟨-, hh⟩ | ⟨-, hf'⟩
    · obtain rfl := Option.some.inj hh
      exact ⟨hvaddr ▸ hp, hmessage ▸ hq⟩
    · exact hs.mapped f' h' hf' hm

omit [DecidableEq F] in
/-- What a file holds is what is held and its own. -/
theorem owner_iff {h : LedgerHandle} (hf : s.files f = some h) {b : Block F}
    (hb : s.Held b) : b.owner = f ↔ Holds f h b := by
  obtain ⟨f', h', hf', hb⟩ := hb
  constructor
  · intro ho
    obtain rfl : f' = f := hb.owner.symm.trans ho
    obtain rfl := Option.some.inj (hf.symm.trans hf')
    exact hb
  · exact fun hb' => hb'.owner

/-- A file that was never mapped has one block to free. -/
theorem Inv.freed_unmapped (hs : s.Inv) {h : LedgerHandle}
    (hf : s.files f = some h) (hmap : h.mapped = false) :
    (s.ledger.free (.fileData f) true).Exact
      (fun b => s.Held b ∧ b.owner ≠ f) := by
  have hfileData : s.Held (.fileData f) := ⟨f, h, hf, .inl rfl⟩
  refine hs.exact.free hfileData rfl (fun b => ?_)
  rw [and_comm]
  refine and_congr_left (fun hb => ?_)
  rw [Ne, owner_iff hf hb]
  refine not_congr ⟨fun hh => ?_, fun he => .inl he⟩
  rcases hh with he | ⟨hm, -⟩
  · exact he
  · rw [hmap] at hm
    cases hm

/-- A file that is mapped has three. -/
theorem Inv.freed_mapped (hs : s.Inv) {h : LedgerHandle}
    (hf : s.files f = some h) (hmap : h.mapped = true) :
    (((s.ledger.freeAt Block.address h.file.pfd.cbdata.message true).freeAt
        Block.address h.file.pfd.vaddr true).free (.fileData f) true).Exact
      (fun b => s.Held b ∧ b.owner ≠ f) := by
  have hheldData : s.Held (.fileData f) := ⟨f, h, hf, .inl rfl⟩
  have hheldMap : s.Held (.mapping f h.file.pfd.vaddr) :=
    ⟨f, h, hf, .inr ⟨hmap, .inl rfl⟩⟩
  have hheldMsg : s.Held (.message f h.file.pfd.cbdata.message) :=
    ⟨f, h, hf, .inr ⟨hmap, .inr rfl⟩⟩
  have hmessage := hs.exact.freeAt hheldMsg rfl
    (fun c hc hcp => hs.address c _ _ hc hheldMsg hcp rfl) rfl
    (fun c => Iff.rfl)
  have hmapping := hmessage.freeAt
    (b := .mapping f h.file.pfd.vaddr) ⟨nofun, hheldMap⟩ rfl
    (fun c hc hcp => hs.address c _ _ hc.2 hheldMap hcp rfl) rfl
    (fun c => Iff.rfl)
  refine hmapping.free (b := .fileData f) ⟨nofun, nofun, hheldData⟩ rfl
    (fun b => ?_)
  have hiff : s.Held b → (b.owner = f ↔ b = .fileData f
      ∨ b = .mapping f h.file.pfd.vaddr
      ∨ b = .message f h.file.pfd.cbdata.message) := by
    intro hb
    rw [owner_iff hf hb]
    show _ ∨ (h.mapped = true ∧ _) ↔ _
    simp only [hmap, true_and]
  constructor
  · rintro ⟨hb, hne⟩
    rw [Ne, hiff hb] at hne
    simp only [not_or] at hne
    exact ⟨hne.1, hne.2.1, hne.2.2, hb⟩
  · rintro ⟨hd, hm, hq, hb⟩
    rw [Ne, hiff hb]
    exact ⟨hb, fun hh => hh.elim hd (fun hh => hh.elim hm hq)⟩

/-- **What is freed when a file is closed**: what it holds. -/
theorem Inv.freed (hs : s.Inv) {h : LedgerHandle} (hf : s.files f = some h) :
    (((if h.file.pfd.vaddr ≠ 0 then
        (if h.file.pfd.cbdata.message ≠ 0 then
          s.ledger.freeAt Block.address h.file.pfd.cbdata.message true
          else s.ledger).freeAt Block.address h.file.pfd.vaddr true
      else if h.file.pfd.cbdata.message ≠ 0 then
        s.ledger.freeAt Block.address h.file.pfd.cbdata.message true
        else s.ledger) : Ledger (Block F)).free (.fileData f) true).Exact
      (fun b => s.Held b ∧ b.owner ≠ f) := by
  cases hmap : h.mapped with
  | false =>
    obtain ⟨hvaddr, hmessage⟩ := hs.blank f h hf hmap
    rw [if_neg (not_not.mpr hvaddr), if_neg (not_not.mpr hmessage)]
    exact hs.freed_unmapped hf hmap
  | true =>
    obtain ⟨hvaddr, hmessage⟩ := hs.mapped f h hf hmap
    rw [if_pos hvaddr, if_pos hmessage]
    exact hs.freed_mapped hf hmap

/-- A file is closed. -/
theorem Inv.released (hs : s.Inv) {r : Registry} (hr : NoMessages r)
    {g : Ledger (Block F)}
    (hg : g.Exact (fun b => s.Held b ∧ b.owner ≠ f)) :
    Inv ⟨r, Function.update s.files f none, g⟩ := by
  have hheld : ∀ b, Held ⟨r, Function.update s.files f none, g⟩ b
      ↔ s.Held b ∧ b.owner ≠ f := by
    intro b
    rw [held_update]
    constructor
    · rintro (⟨hd, hhd, -⟩ | ⟨f', hd, hne, hf', hb⟩)
      · cases hhd
      · exact ⟨⟨f', hd, hf', hb⟩, fun ho => hne (hb.owner.symm.trans ho)⟩
    · rintro ⟨⟨f', hd, hf', hb⟩, ho⟩
      exact .inr ⟨f', hd, fun he => ho (hb.owner.trans he), hf', hb⟩
  refine ⟨hg.congr hheld, fun b c p hb hc => ?_, fun f' h' hf' hm => ?_,
    fun f' h' hf' hm => ?_, hr⟩
  · exact hs.address b c p ((hheld b).mp hb).1 ((hheld c).mp hc).1
  · rcases update_some hf' with ⟨-, hh⟩ | ⟨-, hf'⟩
    · cases hh
    · exact hs.blank f' h' hf' hm
  · rcases update_some hf' with ⟨-, hh⟩ | ⟨-, hf'⟩
    · cases hh
    · exact hs.mapped f' h' hf' hm

end Calls

omit [DecidableEq F] in
/-- Only the tables change. -/
theorem Inv.withRegistry (hs : s.Inv) {r : Registry} (hr : NoMessages r) :
    Inv { s with registry := r } :=
  ⟨hs.exact, hs.address, hs.blank, hs.mapped, hr⟩

theorem Inv.fopsOpen (hs : s.Inv) (f : F) (name : Name) (env : FopsEnv)
    (memory : KucommsFileData) :
    Inv (step (.fopsOpen f name env memory) s).2 := by
  cases hf : s.files f with
  | some h =>
    simp only [step, hf]
    exact hs
  | none =>
    have hopen : OpenLedger f s.ledger ((kucommsFopsOpen name).run
        (FopsAct.execLedger env f)
        ((s.registry, ⟨memory, false, .none, false⟩), s.ledger)) :=
      fopsOpen_ledger hs.noMessages rfl
    simp only [step, hf]
    obtain ⟨hr, ⟨hne, hg⟩ | ⟨h0, hg, hvaddr, hmessage⟩⟩ := hopen
    · rw [if_neg hne, hg]
      exact hs.withRegistry hr
    · rw [if_pos h0, hg]
      exact hs.opened hf hr hvaddr hmessage

/-- **A refused call of `kucomms_fops_mmap`** changes nothing. -/
theorem step_mmap_refused {f : F} {h : LedgerHandle} {len : UInt64}
    {env : FopsEnv} (hf : s.files f = some h)
    (hrun : (kucommsFopsMmap len).run (FopsAct.execLedger env f)
      ((s.registry, h.file), s.ledger)
      = (negEio, ((s.registry, h.file), s.ledger))) :
    step (.fopsMmap f len env) s = (.fops negEio, s) := by
  have hno : (negEio == 0) = false := by decide
  simp only [step, hf, hrun, hno, Bool.or_false]
  rw [← hf, Function.update_eq_self]

theorem Inv.fopsMmap (hs : s.Inv) (f : F) (len : UInt64) (env : FopsEnv) :
    Inv (step (.fopsMmap f len env) s).2 := by
  cases hf : s.files f with
  | none =>
    simp only [step, hf]
    exact hs
  | some h =>
    have hunmapped : h.file.pfd.vaddr = 0 → h.mapped = false := fun h0 =>
      Bool.eq_false_iff.mpr fun hm => (hs.mapped f h hf hm).1 h0
    have hmmap : MmapLedger f s.registry h.file s.ledger
        ((kucommsFopsMmap len).run (FopsAct.execLedger env f)
          ((s.registry, h.file), s.ledger)) :=
      fopsMmap_ledger len (fun h0 => (hs.blank f h hf (hunmapped h0)).2)
    rcases hmmap with hrun | ⟨h0, hr, hvaddr, p, q, hp, hq, hp', hq', hgrant,
      hgrant', hg⟩
    · rw [step_mmap_refused hf hrun]
      exact hs
    · have hok : ∀ x : ℤ, x = 0 → (x == 0) = true := fun x hx =>
        beq_iff_eq.mpr hx
      simp only [step, hf, hok _ h0, Bool.or_true, hg]
      refine hs.mmapped hf (hunmapped hvaddr) ?_ hp hq hgrant hgrant' hp' hq'
      rw [hr]
      exact hs.noMessages

theorem Inv.fopsRelease (hs : s.Inv) (f : F) (env : FopsEnv) :
    Inv (step (.fopsRelease f env) s).2 := by
  cases hf : s.files f with
  | none =>
    simp only [step, hf]
    exact hs
  | some h =>
    simp only [step, hf]
    rw [fopsRelease_ledger]
    exact hs.released (hs.noMessages.atomic _ _) (hs.freed hf)

/-- **Every call keeps the invariant.** -/
theorem Inv.step (hs : s.Inv) (op : LedgerOp F) :
    Inv (LedgerState.step op s).2 := by
  cases op with
  | registry op => exact hs.withRegistry (hs.noMessages.step op)
  | fopsOpen f name env memory => exact hs.fopsOpen f name env memory
  | fopsMmap f len env => exact hs.fopsMmap f len env
  | fopsRelease f env => exact hs.fopsRelease f env

/-! ## The account -/

/-- **The account of what was allocated and freed.** -/
structure Accounted (s : LedgerState F) : Prop where
  nodup : s.ledger.live.Nodup
  /-- What is allocated is what the open files hold. -/
  live : ∀ b, b ∈ s.ledger.live ↔ ∃ f h, s.files f = some h ∧
    (b = .fileData f ∨ h.mapped = true ∧ (b = .mapping f h.file.pfd.vaddr
      ∨ b = .message f h.file.pfd.cbdata.message))
  /-- Nothing was freed that was not allocated. -/
  noBadFree : s.ledger.badFree = false
  /-- Nothing that a file held was freed before its thread had stopped. -/
  noEarly : s.ledger.early = false
  /-- A file that is not mapped can be. -/
  accepts : ∀ f h len env, s.files f = some h → h.mapped = false →
    ¬ len > kucommsMaxMemAllocSize →
    s.ledger.grant Block.address env.vaddr ≠ 0 → env.remap = 0 →
    (s.ledger.alloc (.mapping f (s.ledger.grant Block.address env.vaddr))).grant
      Block.address env.message ≠ 0 →
    (LedgerState.step (.fopsMmap f len env) s).1 = .fops 0
  /-- A file that is mapped cannot be mapped again. -/
  rejects : ∀ f h len env, s.files f = some h → h.mapped = true →
    LedgerState.step (.fopsMmap f len env) s = (.fops negEio, s)

theorem Inv.accounted (hs : s.Inv) : s.Accounted where
  nodup := hs.exact.nodup
  live := hs.exact.mem_iff
  noBadFree := hs.exact.badFree
  noEarly := hs.exact.early
  accepts := by
    intro f h len env hf hm hlen hp hremap hq
    simp only [LedgerState.step, hf]
    rw [fopsMmap_accepts (hs.blank f h hf hm).1 hlen hp hremap hq]
  rejects := by
    intro f h len env hf hm
    exact step_mmap_refused hf
      (fopsMmap_rejects env f s.registry s.ledger len (hs.mapped f h hf hm).1)

/-- **Nothing is leaked or freed twice.** After any calls, on any files, with
any of the allocations failing, what is allocated is what the open files
hold, each block once. -/
theorem session_ledger (ops : List (LedgerOp F)) :
    Accounted (Object.run LedgerState.step ops init).2 :=
  (Object.invariant (fun op _ hs => hs.step op) ops Inv.init).accounted

end LedgerState
