import Kucomms.Fops
import Kucomms.Machine
import Kucomms.RegistryTables

/-!
# The threads around a device

Any number of callers that open, map and close the files of one device, or
unregister its callbacks, and the kernel threads of the files, each step of
one of them between any steps of the others. The mutex of the tables
excludes: an attempt to take it returns when it is free.

What is asked of the callers is what the kernel's file system promises: a
file is opened once, it is mapped only while it is open, and closed once,
when no call on it is under way. What the user process may do to the rings
is that every read of a ring may be answered by anything.

`DeviceState.Inv` is what holds whatever happens, except for the one thing
that goes wrong here: `kucomms_fops_release` clears the open flag before it
has stopped the thread. So the condition `stopped` is not part of the
machine, but an argument of it: what is asked of the state when
`kucomms_unregister` finds the flag clear.
-/

/-! ## The state -/

/-- **The threads**: callers `ι`, and the kernel threads of the files `F`. -/
inductive Agent (ι F : Type) where
  | caller (i : ι)
  | kthread (f : F)
  deriving DecidableEq

/-- **Where a file is**, and who is at work on it. -/
inductive FilePhase (ι : Type) where
  | fresh
  /-- In `kucomms_fops_open`, not having marked the entry open. -/
  | opening (i : ι)
  /-- In `kucomms_fops_open`, having marked the entry open. -/
  | holding (i : ι)
  | live
  /-- In `kucomms_fops_release`, the entry marked open. -/
  | releasing (i : ι)
  /-- In `kucomms_fops_release`, the mark cleared. -/
  | closing (i : ι)
  | closed
  deriving DecidableEq

namespace FilePhase

variable {ι : Type}

/-- The file answers for the mark of the entry. -/
def Holds : FilePhase ι → Prop
  | holding _ | live | releasing _ => True
  | _ => False

/-- The mark is cleared, and `kucomms_fops_release` has not returned. -/
def Closing : FilePhase ι → Prop
  | closing _ => True
  | _ => False

/-- The caller is at work on the file. -/
def Busy (i : ι) : FilePhase ι → Prop
  | opening j | holding j | releasing j | closing j => j = i
  | _ => False

end FilePhase

/-- **The state.** -/
structure DeviceState (ι F : Type) where
  registry : Registry
  /-- Who holds `cblist_mutex`. -/
  owner : Option (Agent ι F)
  files : F → OpenFile
  phase : F → FilePhase ι
  /-- Who is in `kucomms_fops_mmap`, on which file. -/
  mapping : ι → Option F
  /-- `kucomms_unregister` has returned `true`. -/
  unregistered : Bool

/-- The state before any file is opened. -/
def DeviceState.init (ι F : Type) (r : Registry) (pfd : F → KucommsFileData) :
    DeviceState ι F :=
  ⟨r, none, fun f => ⟨pfd f, false, .none, false⟩, fun _ => .fresh,
    fun _ => none, false⟩

/-- The kernel thread of a file may be in its function, or get there. -/
def DeviceState.Active {ι F : Type} (s : DeviceState ι F) (f : F) : Prop :=
  (s.files f).thread.Active

/-! ## The calls -/

/-- **The calls**, of callers and of kernel threads. -/
inductive DeviceCall (F : Type) where
  | fopsOpen (f : F)
  | fopsMmap (f : F) (len : UInt64)
  | fopsRelease (f : F)
  | unregister
  /-- The kernel thread up to its loop; the bounce buffer has any content. -/
  | threadEnter (f : F) (buffer : Bytes)
  /-- A turn of the loop, with what `*pfd` holds then. -/
  | threadTurn (f : F) (pfd : KucommsFileData) (l : RunLocals)

/-- What a call returns. -/
@[reducible] def DeviceCall.Ret {F : Type} : DeviceCall F → Type
  | .fopsOpen _ | .fopsMmap _ _ | .fopsRelease _ => ℤ
  | .unregister => Bool
  | .threadEnter _ _ => RunLocals
  | .threadTurn _ _ _ => TurnEnd

/-- The file a call is about. -/
def DeviceCall.file {F : Type} : DeviceCall F → Option F
  | .fopsOpen f | .fopsMmap f _ | .fopsRelease f => some f
  | .unregister => none
  | .threadEnter f _ | .threadTurn f _ _ => some f

section Machine

variable {ι F : Type} [DecidableEq ι] [DecidableEq F]

/-- The programs. -/
def DeviceCall.prog (name : Name) (hz : UInt64) :
    (c : DeviceCall F) → FopsProg c.Ret
  | .fopsOpen _ => kucommsFopsOpen name
  | .fopsMmap _ len => kucommsFopsMmap len
  | .fopsRelease _ => kucommsFopsRelease name
  | .unregister => LockedRegProg.inFops (kucommsUnregister name)
  | .threadEnter _ buffer => kucommsThreadEnter buffer
  | .threadTurn _ pfd l => kucommsThreadTurn hz pfd l

/-- **Who may call what when.** A kernel thread that was told to stop before
it got to its function does not enter it. -/
def DeviceCall.may (s : DeviceState ι F) :
    Agent ι F → DeviceCall F → Prop
  | .caller _, .fopsOpen f => s.phase f = .fresh
  | .caller _, .fopsMmap f _ => s.phase f = .live
  | .caller _, .fopsRelease f =>
    s.phase f = .live ∧ ∀ j, s.mapping j ≠ some f
  | .caller _, .unregister => True
  | .kthread g, .threadEnter f _ =>
    f = g ∧ (s.files f).thread = .woken ∧ (s.files f).shouldStop = false
  | .kthread g, .threadTurn f pfd l =>
    f = g ∧ (s.files f).thread = .running l ∧ pfd = (s.files f).pfd
  | _, _ => False

namespace DeviceState

/-- Set where a file is. -/
def setPhase (s : DeviceState ι F) (f : F) (p : FilePhase ι) :
    DeviceState ι F :=
  { s with phase := Function.update s.phase f p }

/-- Set who is in `kucomms_fops_mmap`. -/
def setMapping (s : DeviceState ι F) (i : ι) (o : Option F) :
    DeviceState ι F :=
  { s with mapping := Function.update s.mapping i o }

/-- Set what a file is. -/
def setFile (s : DeviceState ι F) (f : F) (fd : OpenFile) :
    DeviceState ι F :=
  { s with files := Function.update s.files f fd }

/-- Set where a kernel thread is. -/
def setThread (s : DeviceState ι F) (f : F) (t : ThreadState) :
    DeviceState ι F :=
  s.setFile f { s.files f with thread := t }

end DeviceState

/-- What is recorded when a call begins. -/
def DeviceCall.onCall : Agent ι F → DeviceCall F → DeviceState ι F →
    DeviceState ι F
  | .caller i, .fopsOpen f, s => s.setPhase f (.opening i)
  | .caller i, .fopsMmap f _, s => s.setMapping i (some f)
  | .caller i, .fopsRelease f, s => s.setPhase f (.releasing i)
  | .kthread _, .threadEnter f buffer, s =>
    s.setThread f (.running ⟨0, 0, buffer⟩)
  | _, _, s => s

/-- What is recorded when a call returns. -/
def DeviceCall.onRet : Agent ι F → (c : DeviceCall F) → c.Ret →
    DeviceState ι F → DeviceState ι F
  | .caller _, .fopsOpen f, v, s =>
    s.setPhase f (if v = 0 then .live else .closed)
  | .caller i, .fopsMmap _ _, _, s => s.setMapping i none
  | .caller _, .fopsRelease f, _, s => s.setPhase f .closed
  | .caller _, .unregister, ok, s =>
    { s with unregistered := s.unregistered || ok }
  | .kthread _, .threadEnter f _, l, s => s.setThread f (.running l)
  | .kthread _, .threadTurn f _ _, .again l, s => s.setThread f (.running l)
  | .kthread _, .threadTurn f _ _, .exit _, s => s.setThread f .exited
  | _, _, _, s => s

/-- What is recorded when the mark of an entry is stored: whether the open
that stores it found it clear, and that a release has cleared it. -/
def DeviceCall.onTable (c : DeviceCall F) (i : Agent ι F) (b : RegAct)
    (s : DeviceState ι F) : DeviceState ι F :=
  match i, c, b with
  | .caller i, .fopsOpen f, .storeOpen u true =>
    if (s.registry.cblist u).isOpen then s else s.setPhase f (.holding i)
  | .caller i, .fopsOpen f, .storeOpen _ false => s.setPhase f (.opening i)
  | .caller i, .fopsRelease f, .storeOpen _ false => s.setPhase f (.closing i)
  | _, _, _ => s

/-- An action on the tables. -/
def FopsAct.isRegistry : FopsAct → Bool
  | .registry _ => true
  | _ => false

/-- The action by which `kucomms_unregister` finds the mark clear. -/
def findsClear (r : Registry) : DeviceCall F → RegAct → Bool
  | .unregister, .loadOpen u => !(r.cblist u).isOpen
  | _, _ => false

/-- What an action on a file does. -/
def DeviceState.fileStep (s : DeviceState ι F) (env : FopsEnv) (f : F)
    (a : FopsAct) : a.Res × DeviceState ι F :=
  let x := a.exec env (s.registry, s.files f)
  (x.1, s.setFile f x.2.2)

/-- An action is possible: `kthread_stop` waits for the thread. -/
def DeviceState.Enabled (s : DeviceState ι F) (f : F) : FopsAct → Prop
  | .kthreadStopWait => ¬(s.files f).thread.Running
  | _ => True

/-- **What an action of the thread `i` in the call `c` may do.** -/
inductive DeviceSem (stopped : DeviceState ι F → Prop) (i : Agent ι F)
    (c : DeviceCall F) : (a : FopsAct) → DeviceState ι F → a.Res →
    DeviceState ι F → Prop where
  | lock {s : DeviceState ι F} (hfree : s.owner = none) :
      DeviceSem stopped i c (.registry .lock) s .acquired
        { s with owner := some i }
  | unlock {s : DeviceState ι F} :
      DeviceSem stopped i c (.registry .unlock) s () { s with owner := none }
  | table {s : DeviceState ι F} (b : RegAct)
      (hstopped : findsClear s.registry c b = true → stopped s) :
      DeviceSem stopped i c (.registry (.act b)) s
        (b.exec .unused s.registry).1
        { c.onTable i b s with registry := (b.exec .unused s.registry).2 }
  | file {s : DeviceState ι F} (env : FopsEnv) {f : F} (a : FopsAct)
      (hf : c.file = some f) (ha : a.isRegistry = false)
      (henabled : s.Enabled f a) :
      DeviceSem stopped i c a s (s.fileStep env f a).1 (s.fileStep env f a).2

/-- **The threads around the device `name`.** -/
def deviceMachine (stopped : DeviceState ι F → Prop) (name : Name)
    (hz : UInt64) :
    Machine (Agent ι F) FopsAct FopsAct.Res (DeviceState ι F) where
  Call := DeviceCall F
  Ret := DeviceCall.Ret
  prog := DeviceCall.prog name hz
  may i s c := c.may s i
  onCall := fun i c s => c.onCall i s
  sem := DeviceSem stopped
  onRet := fun i c v s => c.onRet i v s

end Machine
