import Kucomms.Fops
import Kucomms.Machine

/-!
# A file is mapped once

`kucomms_fops_mmap` refuses a file that is mapped: it tests `pfd->vaddr` at its
beginning, and stores it at its end. What is in between works on `*pfd` too: it
stores the two rings, and sets up the manager with them.

The calls on one file may overlap, for a file that processes share after `fork`
is mapped by each of them under the lock of its own address space. As long as
no call finds `pfd->vaddr` to be 0 while another one is on its way from there
to its return, one call returns 0, and then nothing of `*pfd` changes any more
(`mapped_once`). But no lock sees to that: two calls can both find 0, and both
return 0 (`mapped_twice`).

The kernel thread only looks at `*pfd`. `kucomms_fops_release` comes after the
last call, so it is not part of a run.
-/

open Prog

/-! ## The calls on a file -/

/-- **The calls on an open file.** -/
inductive MmapCall where
  | fopsMmap (len : UInt64)
  /-- A turn of the loop of the kernel thread. -/
  | threadTurn (hz : UInt64) (pfd : KucommsFileData) (l : RunLocals)

namespace MmapCall

/-- What a call returns. -/
@[reducible] def Ret : MmapCall → Type
  | fopsMmap _ => ℤ
  | threadTurn _ _ _ => TurnEnd

/-- The programs. -/
def prog : (c : MmapCall) → FopsProg c.Ret
  | fopsMmap len => kucommsFopsMmap len
  | threadTurn hz pfd l => kucommsThreadTurn hz pfd l

end MmapCall

/-- How far a thread is in `kucomms_fops_mmap`. -/
inductive MmapStage where
  /-- It is not in it, or has failed. -/
  | idle
  /-- It has not tested `pfd->vaddr` yet. -/
  | called
  /-- It has found `pfd->vaddr` to be 0, and has not failed since. -/
  | mapping
deriving DecidableEq

/-- The stage after an action, by its answer: the test of `pfd->vaddr`, and the
three answers that make the function fail. -/
def MmapStage.after : (a : FopsAct) → a.Res → MmapStage → MmapStage
  | .loadFd, pfd, .called => if pfd.vaddr = 0 then .mapping else .idle
  | .vmallocUser _, vaddr, .mapping => if vaddr = 0 then .idle else .mapping
  | .remapVmallocRange _, r, .mapping => if r ≠ 0 then .idle else .mapping
  | .vmalloc _, message, .mapping => if message = 0 then .idle else .mapping
  | _, _, stage => stage

/-- **An open file and the calls on it.** `mapped` lists what `*pfd` was each
time that `kucomms_fops_mmap` returned 0. -/
structure MmapState (ι : Type) where
  file : Registry × OpenFile
  stage : ι → MmapStage
  mapped : List KucommsFileData

/-- Two states of `*pfd` with the same mapping, and the same rings in it. -/
structure SameSession (pfd pfd' : KucommsFileData) : Prop where
  vaddr : pfd.vaddr = pfd'.vaddr
  message : pfd.cbdata.message = pfd'.cbdata.message
  length : pfd.msgmgr.msgqArrayLength = pfd'.msgmgr.msgqArrayLength
  rx : pfd.msgmgr.rxMsgqArray = pfd'.msgmgr.rxMsgqArray
  tx : pfd.msgmgr.txMsgqArray = pfd'.msgmgr.txMsgqArray
  rxLen : pfd.msgmgr.rxMsgqLenArray = pfd'.msgmgr.rxMsgqLenArray
  txLen : pfd.msgmgr.txMsgqLenArray = pfd'.msgmgr.txMsgqLenArray

namespace MmapState

variable {ι : Type}

/-- `*pfd` -/
def pfd (s : MmapState ι) : KucommsFileData := s.file.2.pfd

/-- A file that no one has called anything on. -/
def opened (r : Registry) (fd : OpenFile) : MmapState ι :=
  ⟨(r, fd), fun _ => .idle, []⟩

/-- **The file is mapped at most once**: one call has returned 0 at most, and
the session is what it was then. -/
structure MappedOnce (s : MmapState ι) : Prop where
  once : s.mapped.length ≤ 1
  kept : ∀ pfd ∈ s.mapped, SameSession pfd s.pfd

/-- No call of another thread is mapping the file. -/
def Alone (i : ι) (s : MmapState ι) : Prop :=
  ∀ j, j ≠ i → s.stage j ≠ .mapping

variable [DecidableEq ι]

/-- A thread gets to a stage. -/
def setStage (s : MmapState ι) (i : ι) (stage : MmapStage) : MmapState ι :=
  { s with stage := Function.update s.stage i stage }

/-- What an action does. -/
def exec (env : FopsEnv) (i : ι) (a : FopsAct) (s : MmapState ι) :
    a.Res × MmapState ι :=
  ((a.exec env s.file).1,
    { s with file := (a.exec env s.file).2 }.setStage i
      ((s.stage i).after a (a.exec env s.file).1))

/-- The action is the test, and finds 0. -/
def FindsZero (i : ι) (a : FopsAct) (r : a.Res) (s : MmapState ι) : Prop :=
  s.stage i ≠ .mapping ∧ (s.stage i).after a r = .mapping

instance (i : ι) (a : FopsAct) (r : a.Res) (s : MmapState ι) :
    Decidable (s.FindsZero i a r) :=
  inferInstanceAs (Decidable (_ ∧ _))

/-- A call begins. -/
def called (i : ι) (s : MmapState ι) : MmapCall → MmapState ι
  | .fopsMmap _ => s.setStage i .called
  | .threadTurn _ _ _ => s

/-- `kucomms_fops_mmap` is about to return `v`. -/
def note (s : MmapState ι) (v : ℤ) : MmapState ι :=
  { s with mapped := if v = 0 then s.mapped ++ [s.pfd] else s.mapped }

/-- A call returns. -/
def returned (i : ι) (s : MmapState ι) : (c : MmapCall) → c.Ret → MmapState ι
  | .fopsMmap _, v => (s.note v).setStage i .idle
  | .threadTurn _ _ _, _ => s

end MmapState

/-- **Any number of threads on an open file**, each with any answers from
outside, in every run in which a test finds 0 only where the machine `admits`
it. -/
def mmapMachine {ι : Type} [DecidableEq ι]
    (admits : ι → MmapState ι → Prop) :
    Machine ι FopsAct FopsAct.Res (MmapState ι) where
  Call := MmapCall
  Ret := MmapCall.Ret
  prog := MmapCall.prog
  may _ _ _ := True
  onCall i c s := s.called i c
  sem i _ a s r s' := (s.FindsZero i a r → admits i s)
    ∧ ∃ env, s.exec env i a = (r, s')
  onRet i c v s := s.returned i c v

/-! ## One call at a time -/

namespace MmapState

variable {ι : Type} {i j : ι} {s s' t : MmapState ι}

/-- **The invariant**: one call at most is mapping the file, and once it is
mapped there is none. -/
structure Inv (s : MmapState ι) : Prop where
  one : ∀ i j, s.stage i = .mapping → s.stage j = .mapping → i = j
  kept : s.mapped = []
    ∨ s.mapped = [s.pfd] ∧ s.pfd.vaddr ≠ 0 ∧ ∀ i, s.stage i ≠ .mapping

theorem Inv.opened {r : Registry} {fd : OpenFile} :
    (opened r fd : MmapState ι).Inv :=
  ⟨fun _ _ hi => (nomatch hi), .inl rfl⟩

theorem Inv.mappedOnce (h : s.Inv) : s.MappedOnce := by
  obtain hnil | ⟨hone, -, -⟩ := h.kept
  · refine ⟨by rw [hnil]; exact Nat.zero_le 1, fun pfd hpfd => ?_⟩
    rw [hnil] at hpfd
    exact nomatch hpfd
  · refine ⟨by rw [hone]; exact le_refl 1, fun pfd hpfd => ?_⟩
    rw [hone] at hpfd
    obtain rfl := List.mem_singleton.mp hpfd
    exact ⟨rfl, rfl, rfl, rfl, rfl, rfl, rfl⟩

/-- The thread is where it was, and if it is mapping the file then `*pfd` is
what it was. -/
structure Frame (j : ι) (s s' : MmapState ι) : Prop where
  stage : s'.stage j = s.stage j
  pfd : s.stage j = .mapping → s'.pfd = s.pfd

/-- What the other threads do. -/
def Rely (i : ι) (s s' : MmapState ι) : Prop := s.Inv → s'.Inv ∧ Frame i s s'

/-- What a step of a thread does. -/
def Guar (i : ι) (s s' : MmapState ι) : Prop :=
  s.Inv → s'.Inv ∧ ∀ j, j ≠ i → Frame j s s'

theorem Rely.refl (i : ι) (s : MmapState ι) : Rely i s s :=
  fun hs => ⟨hs, rfl, fun _ => rfl⟩

theorem Rely.trans (i : ι) {s t u : MmapState ι} (h : Rely i s t)
    (h' : Rely i t u) : Rely i s u := by
  intro hs
  obtain ⟨ht, hst⟩ := h hs
  obtain ⟨hu, htu⟩ := h' ht
  exact ⟨hu, htu.stage.trans hst.stage, fun hi =>
    (htu.pfd (hst.stage.trans hi)).trans (hst.pfd hi)⟩

theorem Guar.refl (i : ι) (s : MmapState ι) : Guar i s s :=
  fun hs => ⟨hs, fun _ _ => ⟨rfl, fun _ => rfl⟩⟩

theorem Guar.rely (hij : i ≠ j) (h : Guar i s s') : Rely j s s' :=
  fun hs => ⟨(h hs).1, (h hs).2 j hij.symm⟩

/-- The thread is at a stage. -/
def At (i : ι) (stage : MmapStage) (s : MmapState ι) : Prop :=
  s.Inv ∧ s.stage i = stage

theorem At.rely {stage : MmapStage} (h : s.At i stage) (hr : Rely i s s') :
    s'.At i stage :=
  ⟨(hr h.1).1, (hr h.1).2.stage.trans h.2⟩

/-- While a call is mapping the file, it is not mapped. -/
theorem At.mapped_eq (h : s.At i .mapping) : s.mapped = [] :=
  h.1.kept.resolve_right (fun hk => hk.2.2 i h.2)

/-- What `kucomms_fops_mmap` has done when it returns. -/
def Finished (i : ι) (v : ℤ) (s : MmapState ι) : Prop :=
  s.Inv ∧ (v = 0 → s.stage i = .mapping ∧ s.pfd.vaddr ≠ 0)

variable [DecidableEq ι]

@[simp] theorem setStage_self (s : MmapState ι) (i : ι) (stage : MmapStage) :
    (s.setStage i stage).stage i = stage :=
  Function.update_self ..

theorem setStage_ne (s : MmapState ι) (hij : j ≠ i) (stage : MmapStage) :
    (s.setStage i stage).stage j = s.stage j :=
  Function.update_of_ne hij _ _

theorem setStage_eq_self {stage : MmapStage} (h : stage = s.stage i) :
    s.setStage i stage = s := by
  unfold setStage
  rw [h, Function.update_eq_self]

/-- Who is mapping the file was so before. -/
theorem mapping_setStage {stage : MmapStage} (hstage : stage ≠ .mapping)
    (h : (s.setStage i stage).stage j = .mapping) :
    j ≠ i ∧ s.stage j = .mapping := by
  have hij : j ≠ i := by
    rintro rfl
    exact hstage ((s.setStage_self j stage).symm.trans h)
  exact ⟨hij, (s.setStage_ne hij stage).symm.trans h⟩

/-- **A thread that gets to another stage** than that. -/
theorem Guar.setStage {stage : MmapStage} (hstage : stage ≠ .mapping) :
    Guar i s (s.setStage i stage) := by
  intro hs
  refine ⟨⟨fun j k hj hk => ?_, hs.kept.imp_right fun h => ?_⟩,
    fun j hij => ⟨s.setStage_ne hij stage, fun _ => rfl⟩⟩
  · exact hs.one j k (mapping_setStage hstage hj).2
      (mapping_setStage hstage hk).2
  · exact ⟨h.1, h.2.1, fun j hj =>
      h.2.2 j (mapping_setStage hstage hj).2⟩

/-- **The test finds 0** while no other call is mapping the file: it is not
mapped. -/
theorem Guar.findsZero (hz : s.pfd.vaddr = 0) (ha : s.Alone i) :
    Guar i s (s.setStage i .mapping) := by
  intro hs
  have hone : ∀ j, (s.setStage i .mapping).stage j = .mapping → j = i := by
    intro j hj
    by_contra hij
    exact ha j hij ((s.setStage_ne hij _).symm.trans hj)
  exact ⟨⟨fun j k hj hk => (hone j hj).trans (hone k hk).symm,
    .inl (hs.kept.resolve_right (fun h => h.2.1 hz))⟩,
    fun j hij => ⟨s.setStage_ne hij _, fun _ => rfl⟩⟩

/-- **A call that is mapping the file** may do what it likes with `*pfd`. -/
theorem At.exec {env : FopsEnv} {a : FopsAct} {r : a.Res}
    (h : s.At i .mapping) (hexec : s.exec env i a = (r, s')) :
    Guar i s s' ∧ s'.At i (MmapStage.mapping.after a r) := by
  obtain ⟨rfl, rfl⟩ := Prod.mk.inj hexec
  have hne : ∀ j, j ≠ i → (s.exec env i a).2.stage j = s.stage j :=
    fun j hij => setStage_ne _ hij _
  have honly : ∀ j, (s.exec env i a).2.stage j = .mapping → j = i := by
    intro j hj
    by_contra hij
    exact hij (h.1.one j i ((hne j hij).symm.trans hj) h.2)
  have hinv : (s.exec env i a).2.Inv :=
    ⟨fun j k hj hk => (honly j hj).trans (honly k hk).symm,
      .inl h.mapped_eq⟩
  refine ⟨fun _ => ⟨hinv, fun j hij => ⟨hne j hij, fun hj =>
    absurd (h.1.one j i hj h.2) hij⟩⟩, hinv, ?_⟩
  rw [← h.2]
  exact setStage_self _ i _

/-- **The return** of `kucomms_fops_mmap`. -/
theorem Finished.returned {v : ℤ} (h : Finished i v s) :
    Guar i s ((s.note v).setStage i .idle)
      ∧ ((s.note v).setStage i .idle).At i .idle := by
  have hidle : MmapStage.idle ≠ .mapping := MmapStage.noConfusion
  by_cases hv : v = 0
  · obtain ⟨hstage, hvaddr⟩ := h.2 hv
    have hat : s.At i .mapping := ⟨h.1, hstage⟩
    have hnote : (s.note v).mapped = [s.pfd] := by
      show (if v = 0 then s.mapped ++ [s.pfd] else s.mapped) = _
      rw [if_pos hv, hat.mapped_eq, List.nil_append]
    -- it was the only call that was mapping the file
    have hnone : ∀ j, ((s.note v).setStage i .idle).stage j ≠ .mapping := by
      intro j hj
      obtain ⟨hij, hj⟩ := mapping_setStage hidle hj
      exact hij (h.1.one j i hj hstage)
    have hinv : ((s.note v).setStage i .idle).Inv :=
      ⟨fun j k hj => absurd hj (hnone j), .inr ⟨hnote, hvaddr, hnone⟩⟩
    exact ⟨fun _ => ⟨hinv, fun j hij =>
      ⟨setStage_ne _ hij _, fun _ => rfl⟩⟩, hinv, setStage_self _ i _⟩
  · have hnote : s.note v = s := by
      unfold note
      rw [if_neg hv]
    rw [hnote]
    exact ⟨.setStage hidle, (Guar.setStage hidle h.1).1, setStage_self s i _⟩

end MmapState

/-! ## The programs -/

section Programs

open MmapState

variable {ι : Type} [DecidableEq ι] {i : ι} {s : MmapState ι}

/-- The specification of a thread inside a call. -/
def mmapSpec (i : ι) (c : MmapCall) :
    RGSpec FopsAct FopsAct.Res (MmapState ι) :=
  ⟨(mmapMachine Alone).sem i c, fun _ _ => True, Rely i, Guar i, Rely.refl i,
    Rely.trans i⟩

theorem at_stable (i : ι) (c : MmapCall) (stage : MmapStage) :
    (mmapSpec i c).Stable (At i stage) :=
  fun _ _ h hr => h.rely hr

section Mmap

variable {len : UInt64} {α β : Type}

/-- An action that does not make the function fail. -/
def FopsAct.Goes (a : FopsAct) : Prop :=
  ∀ r, MmapStage.mapping.after a r = .mapping

/-- **A part of a call that is mapping the file**: whatever it does, it is
alone in that. -/
theorem part_wp {p : FopsProg α} {f : α → FopsProg β}
    {Q : β → MmapState ι → Prop} (hp : p.All FopsAct.Goes)
    (hs : s.At i .mapping) (hf : ∀ v s, s.At i .mapping →
      (f v).Wp (mmapSpec i (.fopsMmap len)) Q s) :
    (p >>= f).Wp (mmapSpec i (.fopsMmap len)) Q s := by
  refine Wp.bind ((Wp.all hp (at_stable i _ .mapping) (fun a s ha hs =>
    ⟨trivial, fun r s' hstep => ?_⟩) hs).mono hf)
  obtain ⟨-, env, hexec⟩ := hstep
  rw [← ha r]
  exact hs.exec hexec

/-- An action that may make the function fail. -/
theorem ask_wp {a : FopsAct} {f : a.Res → FopsProg β}
    {Q : β → MmapState ι → Prop} (hs : s.At i .mapping)
    (hf : ∀ r s, s.At i (MmapStage.mapping.after a r) →
      (f r).Wp (mmapSpec i (.fopsMmap len)) Q s) :
    (.act a .ret >>= f : FopsProg β).Wp (mmapSpec i (.fopsMmap len)) Q s := by
  refine Wp.act_of (at_stable i _ .mapping) hs (fun s hs =>
    ⟨trivial, fun r s' hstep => ?_⟩)
  obtain ⟨-, env, hexec⟩ := hstep
  obtain ⟨hguar, hs'⟩ := hs.exec hexec
  exact ⟨hguar, hf r s' hs'⟩

theorem ring_goes (p : QProg α) (msgq : ℕ) : (p.inFops msgq).All FopsAct.Goes :=
  All.embed (fun _ _ => rfl) p

theorem manager_goes (p : ManagerProg α) : p.inFops.All FopsAct.Goes :=
  All.embed (fun _ _ => rfl) p

theorem loadFd_goes : loadFd.All FopsAct.Goes :=
  ⟨fun _ => rfl, fun _ => trivial⟩

theorem storeFd_goes (st : FdStore) : (storeFd st).All FopsAct.Goes :=
  ⟨fun _ => rfl, fun _ => trivial⟩

theorem vfree_goes (p : ℕ) : (vfree p).All FopsAct.Goes :=
  ⟨fun _ => rfl, fun _ => trivial⟩

/-- A call that returns an error. -/
theorem error_wp {stage : MmapStage} (hs : s.At i stage) :
    (.ret negEio : FopsProg ℤ).Wp (mmapSpec i (.fopsMmap len)) (Finished i) s :=
  Wp.ret_of (at_stable i _ stage) hs (fun _ h => ⟨h.1, fun hv => by
    exact absurd hv (by decide)⟩)

theorem freeSession_wp {vaddr message : ℕ} (hs : s.At i .mapping) :
    (freeSession vaddr message).Wp (mmapSpec i (.fopsMmap len)) (Finished i)
      s :=
  part_wp (vfree_goes message) hs (fun _ _ hs =>
    part_wp (vfree_goes vaddr) hs (fun _ _ hs => error_wp hs))

/-- The area is given back by a call that has failed. -/
theorem freeArea_wp {vaddr : ℕ} (hs : s.At i .idle) :
    (do
      vfree vaddr
      return negEio : FopsProg ℤ).Wp (mmapSpec i (.fopsMmap len)) (Finished i)
      s := by
  refine Wp.act_of (at_stable i _ .idle) hs (fun s hs =>
    ⟨trivial, fun r s' hstep => ?_⟩)
  obtain ⟨-, env, hexec⟩ := hstep
  obtain rfl : s.setStage i (s.stage i) = s' := congrArg Prod.snd hexec
  rw [setStage_eq_self rfl]
  exact ⟨.refl i s, error_wp hs⟩

/-- A call that has stored `pfd->vaddr`. -/
def HasVaddr (i : ι) (vaddr : ℕ) (s : MmapState ι) : Prop :=
  s.At i .mapping ∧ s.pfd.vaddr = vaddr

theorem hasVaddr_stable (vaddr : ℕ) :
    (mmapSpec i (.fopsMmap len)).Stable (HasVaddr i vaddr) := by
  intro s s' h hr
  have hpfd : s'.pfd = s.pfd := (hr h.1.1).2.pfd h.1.2
  exact ⟨h.1.rely hr, by rw [hpfd, h.2]⟩

/-- An action that goes on, and leaves `pfd->vaddr` as it is. -/
def FopsAct.KeepsVaddr (a : FopsAct) : Prop :=
  a.Goes ∧ ∀ env s, (a.exec env s).2.2.pfd.vaddr = s.2.pfd.vaddr

/-- **The last steps**, once `pfd->vaddr` is set. -/
theorem finish_wp {vaddr message : ℕ} (hvaddr : vaddr ≠ 0)
    (hs : HasVaddr i vaddr s) :
    (do
      storeFd (.vaddrLen len)
      storeFd (.message message)
      (.act .wakeUpProcess .ret : FopsProg Unit)
      return 0 : FopsProg ℤ).Wp (mmapSpec i (.fopsMmap len)) (Finished i) s := by
  have hall : (do
      storeFd (.vaddrLen len)
      storeFd (.message message)
      (.act .wakeUpProcess .ret : FopsProg Unit)
      return 0 : FopsProg ℤ).All FopsAct.KeepsVaddr :=
    ⟨⟨fun _ => rfl, fun _ _ => rfl⟩, fun _ => ⟨⟨fun _ => rfl, fun _ _ => rfl⟩,
      fun _ => ⟨⟨fun _ => rfl, fun _ _ => rfl⟩, fun _ => trivial⟩⟩⟩
  refine (Wp.all hall (hasVaddr_stable vaddr) (fun a s ha hs =>
    ⟨trivial, fun r s' hstep => ?_⟩) hs).mono (fun _ s hs =>
      ⟨hs.1.1, fun _ => ⟨hs.1.2, ?_⟩⟩)
  · obtain ⟨-, env, hexec⟩ := hstep
    obtain ⟨hguar, hs'⟩ := hs.1.exec hexec
    rw [ha.1 r] at hs'
    obtain rfl : (s.exec env i a).2 = s' := congrArg Prod.snd hexec
    exact ⟨hguar, hs', (ha.2 env s.file).trans hs.2⟩
  · rw [hs.2]
    exact hvaddr

theorem startManager_wp {vaddr message : ℕ} (hvaddr : vaddr ≠ 0)
    (hs : s.At i .mapping) :
    (startManager len vaddr message).Wp (mmapSpec i (.fopsMmap len)) (Finished i)
      s := by
  unfold startManager
  refine part_wp (manager_goes _) hs (fun ok s hs => ?_)
  split
  · exact freeSession_wp hs
  refine part_wp loadFd_goes hs (fun rx s hs =>
    part_wp loadFd_goes hs (fun tx s hs =>
    part_wp (manager_goes _) hs (fun ok s hs => ?_)))
  split
  · exact freeSession_wp hs
  -- the store of `pfd->vaddr`
  refine Wp.act_of (at_stable i _ _) hs (fun s hs =>
    ⟨trivial, fun r s' hstep => ?_⟩)
  obtain ⟨-, env, hexec⟩ := hstep
  obtain ⟨hguar, hs'⟩ := hs.exec hexec
  obtain rfl : (s.exec env i _).2 = s' := congrArg Prod.snd hexec
  exact ⟨hguar, finish_wp hvaddr ⟨hs', rfl⟩⟩

theorem startSession_wp {vaddr message : ℕ} (hvaddr : vaddr ≠ 0)
    (hs : s.At i .mapping) :
    (startSession len vaddr message).Wp (mmapSpec i (.fopsMmap len)) (Finished i)
      s := by
  unfold startSession
  refine part_wp (storeFd_goes _) hs (fun _ s hs =>
    part_wp (storeFd_goes _) hs (fun _ s hs =>
    part_wp loadFd_goes hs (fun rx s hs =>
    part_wp (ring_goes _ _) hs (fun ok s hs => ?_))))
  split
  · exact freeSession_wp hs
  refine part_wp loadFd_goes hs (fun tx s hs =>
    part_wp (ring_goes _ _) hs (fun ok s hs => ?_))
  split
  · exact freeSession_wp hs
  exact startManager_wp hvaddr hs

/-- **`kucomms_fops_mmap`** returns 0 only if it has found 0, and then
`pfd->vaddr` is what it has stored. -/
theorem fopsMmap_mapped_wp (hs : s.At i .called) :
    (kucommsFopsMmap len).Wp (mmapSpec i (.fopsMmap len)) (Finished i) s := by
  refine Wp.act_of (at_stable i _ _) hs (fun s hs =>
    ⟨trivial, fun r s' hstep => ?_⟩)
  obtain ⟨hfinds, env, hexec⟩ := hstep
  obtain ⟨hr, hs'⟩ := Prod.mk.inj hexec
  obtain rfl : s.pfd = r := hr
  have hafter : (s.stage i).after .loadFd s.pfd
      = if s.pfd.vaddr = 0 then .mapping else .idle := by
    rw [hs.2]
    rfl
  obtain rfl : s.setStage i ((s.stage i).after .loadFd s.pfd) = s' := hs'
  rw [hafter]
  show _ ∧ (if s.pfd.vaddr ≠ 0 then .ret negEio else _ : FopsProg ℤ).Wp _ _ _
  by_cases hz : s.pfd.vaddr = 0
  · have hguar : Guar i s (s.setStage i .mapping) :=
      .findsZero hz (hfinds ⟨by rw [hs.2]; exact MmapStage.noConfusion,
        hafter.trans (if_pos hz)⟩)
    have hs : (s.setStage i .mapping).At i .mapping :=
      ⟨(hguar hs.1).1, setStage_self s i _⟩
    rw [if_pos hz, if_neg (not_not_intro hz)]
    refine ⟨hguar, ?_⟩
    split
    · exact error_wp hs
    refine ask_wp hs (fun vaddr s
      (hs : s.At i (if vaddr = 0 then .idle else .mapping)) => ?_)
    by_cases hvaddr : vaddr = 0
    · rw [if_pos hvaddr]
      exact error_wp hs
    rw [if_neg hvaddr] at hs ⊢
    refine ask_wp hs (fun r s
      (hs : s.At i (if r ≠ 0 then .idle else .mapping)) => ?_)
    by_cases hr : r ≠ 0
    · rw [if_pos hr] at hs ⊢
      exact freeArea_wp hs
    rw [if_neg hr] at hs ⊢
    refine ask_wp hs (fun message s
      (hs : s.At i (if message = 0 then .idle else .mapping)) => ?_)
    by_cases hmessage : message = 0
    · rw [if_pos hmessage] at hs ⊢
      exact freeArea_wp hs
    rw [if_neg hmessage] at hs ⊢
    exact startSession_wp hvaddr hs
  · have hguar : Guar i s (s.setStage i .idle) :=
      .setStage MmapStage.noConfusion
    rw [if_neg hz, if_pos hz]
    exact ⟨hguar, error_wp ⟨(hguar hs.1).1, setStage_self s i _⟩⟩

end Mmap

/-- **A turn of the kernel thread** leaves `*pfd` as it is. -/
theorem threadTurn_wp {hz : UInt64} {pfd : KucommsFileData} {l : RunLocals}
    (hs : s.At i .idle) :
    (kucommsThreadTurn hz pfd l).Wp (mmapSpec i (.threadTurn hz pfd l))
      (fun _ s => s.At i .idle) s := by
  have hall : (kucommsThreadTurn hz pfd l).All (fun a => ∃ b, a = .thread b) :=
    All.embed (fun b => ⟨b, rfl⟩) _
  refine Wp.all hall (at_stable i _ _) (fun a s ha hs =>
    ⟨trivial, fun r s' hstep => ?_⟩) hs
  obtain ⟨b, rfl⟩ := ha
  obtain ⟨-, env, hexec⟩ := hstep
  obtain rfl : s.setStage i (s.stage i) = s' := congrArg Prod.snd hexec
  rw [setStage_eq_self rfl]
  exact ⟨.refl i s, hs⟩

end Programs

/-! ## Any number of calls -/

section MappedOnce

open MmapState

variable {ι : Type} [DecidableEq ι] {i : ι} {s : MmapState ι}

/-- What a call has done when it returns. -/
def MmapCall.Done (i : ι) : (c : MmapCall) → c.Ret → MmapState ι → Prop
  | .fopsMmap _, v, s => Finished i v s
  | .threadTurn _ _ _, _, s => s.At i .idle

theorem MmapCall.ok {c : MmapCall} (hs : s.At i .idle) :
    Guar i s (s.called i c)
      ∧ c.prog.Wp (mmapSpec i c) (c.Done i) (s.called i c) := by
  cases c with
  | fopsMmap len =>
    have hguar : Guar i s (s.setStage i .called) :=
      .setStage MmapStage.noConfusion
    exact ⟨hguar, fopsMmap_mapped_wp ⟨(hguar hs.1).1, setStage_self s i _⟩⟩
  | threadTurn hz pfd l =>
    exact ⟨.refl i s, threadTurn_wp hs⟩

theorem MmapCall.Done.returned {c : MmapCall} {v : c.Ret} (h : c.Done i v s) :
    Guar i s (s.returned i c v) ∧ (s.returned i c v).At i .idle := by
  cases c with
  | fopsMmap len => exact Finished.returned h
  | threadTurn hz pfd l =>
    exact ⟨.refl i s, h⟩

/-- **The calls, one mapping at a time.** -/
def mmapOutline : (mmapMachine (ι := ι) Alone).Outline where
  rely := Rely
  guar := Guar
  safe _ _ _ _ := True
  idle i s := s.At i .idle
  post i c := c.Done i
  rely_refl := Rely.refl
  rely_trans := Rely.trans
  guar_rely hij h := h.rely hij
  idle_stable h hr := h.rely hr
  call_ok hs _ := MmapCall.ok hs
  ret_ok h := h.returned

/-- **A file is mapped at most once**, and the session stays as it is from then
on, in every run in which a call finds 0 only while no other one is mapping the
file. -/
theorem mapped_once {r : Registry} {fd : OpenFile}
    {x : (mmapMachine (ι := ι) Alone).Conf}
    (hx : (mmapMachine Alone).Reach (Machine.start _ (opened r fd)) x) :
    x.st.MappedOnce := by
  have hidle : ∀ i : ι, (opened r fd).At i .idle := fun _ => ⟨.opened, rfl⟩
  have hinv : x.st.Inv :=
    mmapOutline.invariant (I := Inv) (fun hg hs => (hg hs).1) hidle .opened hx
  exact hinv.mappedOnce

end MappedOnce

/-! ## Two calls -/

section Schedule

open MmapState

/-- All goes well, and each thread is given memory of its own. -/
def mmapEnv (i : Bool) : FopsEnv :=
  { FopsEnv.calm with vaddr := if i then 0x20000 else 0x10000 }

/-- What an action does, if it is possible. -/
def mmapExec (admits : Bool → MmapState Bool → Prop)
    [∀ i s, Decidable (admits i s)] (i : Bool) (a : FopsAct)
    (s : MmapState Bool) : Option (a.Res × MmapState Bool) :=
  if s.FindsZero i a (s.exec (mmapEnv i) i a).1 → admits i s then
    some (s.exec (mmapEnv i) i a)
  else none

theorem mmapExec_sem {admits : Bool → MmapState Bool → Prop}
    [∀ i s, Decidable (admits i s)] {i : Bool} {c : MmapCall} {a : FopsAct}
    {s : MmapState Bool} {r : a.Res} {s' : MmapState Bool}
    (h : mmapExec admits i a s = some (r, s')) :
    (mmapMachine admits).sem i c a s r s' := by
  obtain ⟨hadmits, h⟩ := Option.ite_none_right_eq_some.mp h
  obtain ⟨rfl, rfl⟩ := Prod.mk.inj (Option.some.inj h)
  exact ⟨hadmits, _, rfl⟩

instance (i : Bool) (s : MmapState Bool) : Decidable (s.Alone i) :=
  inferInstanceAs (Decidable (∀ j : Bool, j ≠ i → s.stage j ≠ .mapping))

/-- A thread calls `kucomms_fops_mmap`. -/
def beginMmap {admits : Bool → MmapState Bool → Prop} (i : Bool) :
    (mmapMachine admits).Cmd :=
  .call i (fun _ => some ⟨.fopsMmap 8192, trivial⟩)

/-- A file that was opened. -/
def mmapStart (admits : Bool → MmapState Bool → Prop) :
    (mmapMachine admits).Conf :=
  Machine.start _ (opened .blank ⟨.blank, true, .created, false⟩)

/-- Where a schedule leads. -/
def mmapRun (admits : Bool → MmapState Bool → Prop)
    [∀ i s, Decidable (admits i s)] (cmds : List (mmapMachine admits).Cmd) :
    Option (mmapMachine admits).Conf :=
  cmds.foldlM (Machine.perform _ (fun i _ => mmapExec admits i))
    (mmapStart admits)

/-- **A run with two calls**, of which the second finds that the file is
mapped. -/
theorem mapped_once_refused :
    ∃ x : (mmapMachine (ι := Bool) Alone).Conf,
      x.st.mapped.length = 1 ∧ x.st.MappedOnce := by
  have hall : (mmapRun Alone [beginMmap false, .finish false,
      beginMmap true, .finish true]).any
      (fun x => x.st.mapped.length = 1) = true := by
    decide +kernel
  obtain ⟨x, hx, hlen⟩ := (Option.any_eq_true _ _).mp hall
  exact ⟨x, of_decide_eq_true hlen,
    mapped_once (Machine.Reach.schedule (fun _ _ _ _ _ _ => mmapExec_sem) hx)⟩

/-- **A file is mapped twice.** One call finds 0; before it goes on another one
runs to its end and returns 0; and then the first one puts its own session in
the place of that, and returns 0 too. -/
theorem mapped_twice :
    ∃ x : (mmapMachine (ι := Bool) (fun _ _ => True)).Conf,
      (mmapMachine (fun _ _ => True)).Reach (mmapStart _) x
      ∧ ¬x.st.mapped.length ≤ 1
      ∧ ¬∀ pfd ∈ x.st.mapped, SameSession pfd x.st.pfd := by
  have hall : (mmapRun (fun _ _ => True)
      [beginMmap false, .acts false 1, beginMmap true, .finish true,
        .finish false]).any
      (fun x => x.st.mapped.map KucommsFileData.vaddr = [0x20000, 0x10000]
        ∧ x.st.pfd.vaddr = 0x10000) = true := by
    decide +kernel
  obtain ⟨x, hx, hvaddr⟩ := (Option.any_eq_true _ _).mp hall
  obtain ⟨hmapped, hnow⟩ := of_decide_eq_true hvaddr
  refine ⟨x, Machine.Reach.schedule (fun _ _ _ _ _ _ => mmapExec_sem) hx,
    fun hle => ?_, fun hsame => ?_⟩
  · have hlen : x.st.mapped.length = 2 := by
      rw [← List.length_map (f := KucommsFileData.vaddr), hmapped]
      rfl
    omega
  · obtain ⟨pfd, hpfd, hfirst⟩ := List.mem_map.mp
      (hmapped ▸ List.mem_cons_self : 0x20000 ∈ x.st.mapped.map _)
    have hsame := (hsame pfd hpfd).vaddr
    omega

end Schedule
