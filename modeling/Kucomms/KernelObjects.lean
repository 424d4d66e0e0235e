import Mathlib.Logic.Function.Basic
import Kucomms.Ledger
import Kucomms.Register

/-!
# What the kernel gives out

A character device is three things in the kernel: a range of device numbers,
a class, and a device of that class with the first of these numbers. They are
made in this order, and released in the opposite one. `Triples` says that some
holders have such a triple each, and that the `Ledger` of what the kernel has
given out is exact about it: nothing else is live, and nothing was released
that was not there, or while a device was still on it.

The functions of Linux that make these things are not modelled: what they
answer is a parameter (`KernelAnswers`), of which no more is assumed than that
what is given out is not in use (`KernelAnswers.Documented`). A ledger is the
account that is kept of the calls and of these answers. Since the module does
not look at what `class_create` and `device_create` return, an account goes
wrong also where an error pointer, which is 0 here, is passed on.

A triple that is made for a new holder keeps the account (`Triples.give`), and
so does releasing that of an old one (`Triples.take`).
-/

/-! ## The objects -/

/-- The attribute files of the module's device. -/
inductive DeviceFile where
  | createDevice | removeDevice
  deriving DecidableEq

/-- **What the kernel gives out.** -/
inductive KernelObject where
  /-- A range of device numbers. -/
  | chrdev (major : ℤ)
  | cls (p : ℕ)
  | device (cls : ℕ) (major : ℤ)
  | file (f : DeviceFile)
  deriving DecidableEq

/-- What the kernel has given out. -/
abbrev KernelObjects : Type := Ledger KernelObject

/-- **What Linux answers** while one function of the module runs, which calls
each of these at most once, and `device_create_file` once for each file. -/
structure KernelAnswers where
  /-- Of `register_chrdev`. -/
  major : ℤ
  /-- Of `class_create`. -/
  cls : ℕ
  /-- Of `device_create`. -/
  device : ℕ
  /-- Of `device_create_file`. -/
  file : DeviceFile → ℤ

namespace KernelAnswers

/-- The numbers and the class of what is made. -/
def chrdev (env : KernelAnswers) : ChrdevAnswer := ⟨env.major, env.cls⟩

/-- **What is documented of Linux**: `register_chrdev`, when it is to choose a
major number, chooses one that is not in use, and `class_create` makes a new
class. -/
structure Documented (env : KernelAnswers) (g : KernelObjects) : Prop where
  registerChrdev : ¬env.major < 0 → .chrdev env.major ∉ g.live
  classCreate : env.cls ≠ 0 → .cls env.cls ∉ g.live

end KernelAnswers

namespace KernelObjects

/-- `b` is passed to a function, and should be there. -/
def uses (b : KernelObject) (g : KernelObjects) : KernelObjects :=
  { g with badFree := g.badFree || !decide (b ∈ g.live) }

/-- A device is passed to a function by its pointer. -/
def usesDevice (dev : ℕ) (g : KernelObjects) : KernelObjects :=
  { g with badFree := g.badFree || decide (dev = 0) }

/-- The account of `register_chrdev`, which has answered `major`. -/
def registerChrdev (major : ℤ) (g : KernelObjects) : KernelObjects :=
  if major < 0 then g else g.alloc (.chrdev major)

/-- Of `class_create`. -/
def classCreate (p : ℕ) (g : KernelObjects) : KernelObjects :=
  if p = 0 then g else g.alloc (.cls p)

/-- Of `device_create`. -/
def deviceCreate (p cls : ℕ) (major : ℤ) (g : KernelObjects) :
    KernelObjects :=
  let g := g.uses (.cls cls)
  if p = 0 then g else g.alloc (.device cls major)

/-- Of `device_destroy`: there is nothing to release where `device_create` had
made no device. -/
def deviceDestroy (cls : ℕ) (major : ℤ) (g : KernelObjects) : KernelObjects :=
  let g := g.uses (.cls cls)
  if .device cls major ∈ g.live then g.free (.device cls major) true else g

/-- Of `class_destroy`: no device of the class should be left. -/
def classDestroy (cls : ℕ) (g : KernelObjects) : KernelObjects :=
  g.free (.cls cls) (g.live.all fun
    | .device p _ => p ≠ cls
    | _ => true)

/-- Of `unregister_chrdev`: no device with the number should be left. -/
def unregisterChrdev (major : ℤ) (g : KernelObjects) : KernelObjects :=
  g.free (.chrdev major) (g.live.all fun
    | .device _ n => n ≠ major
    | _ => true)

/-- Of `device_create_file`, which has answered `ret`. -/
def deviceCreateFile (dev : ℕ) (f : DeviceFile) (ret : ℤ)
    (g : KernelObjects) : KernelObjects :=
  let g := g.usesDevice dev
  if ret ≠ 0 then g else g.alloc (.file f)

/-- Of `device_remove_file`. -/
def deviceRemoveFile (dev : ℕ) (f : DeviceFile) (g : KernelObjects) :
    KernelObjects :=
  (g.usesDevice dev).free (.file f) true

/-- **The three parts are made.** -/
def create (env : KernelAnswers) (g : KernelObjects) : KernelObjects :=
  ((g.registerChrdev env.major).classCreate env.cls).deviceCreate env.device
    env.cls env.major

/-- **The three parts are released.** -/
def destroy (a : ChrdevAnswer) (g : KernelObjects) : KernelObjects :=
  unregisterChrdev a.major (classDestroy a.cls (deviceDestroy a.cls a.major g))

end KernelObjects

/-! ## Who holds them -/

section Triples

variable {H : Type}

/-- What is live: the parts of the triples, of which there may be no device,
and the files. -/
def Parts (held : H → Option ChrdevAnswer) (devices : ℕ → ℤ → Prop)
    (files : DeviceFile → Prop) : KernelObject → Prop
  | .chrdev major => ∃ x a, held x = some a ∧ a.major = major
  | .cls p => ∃ x a, held x = some a ∧ a.cls = p
  | .device p major => devices p major
  | .file f => files f

/-- **The triples are kept**: the ledger is exact, and no two holders have the
same numbers or the same class. -/
structure Triples (held : H → Option ChrdevAnswer) (files : DeviceFile → Prop)
    (g : KernelObjects) : Prop where
  exact : ∃ devices, g.Exact (Parts held devices files)
    ∧ ∀ p major, devices p major → ∃ x, held x = some ⟨major, p⟩
  major_inj : ∀ {x y a b}, held x = some a → held y = some b →
    a.major = b.major → x = y
  cls_inj : ∀ {x y a b}, held x = some a → held y = some b →
    a.cls = b.cls → x = y

namespace KernelObjects

variable {g : KernelObjects} {owned : KernelObject → Prop}

/-- What is there may be used. -/
theorem uses_eq (hg : g.Exact owned) {b : KernelObject} (hb : owned b) :
    g.uses b = g := by
  unfold uses
  rw [decide_eq_true ((hg.mem_iff b).mpr hb), Bool.not_true, Bool.or_false]

theorem usesDevice_eq {dev : ℕ} (hdev : dev ≠ 0) : g.usesDevice dev = g := by
  unfold usesDevice
  rw [decide_eq_false hdev, Bool.or_false]

/-- A device is made of a class that is there, or not. -/
theorem deviceCreate_exact (hg : g.Exact owned) (p : ℕ) {cls : ℕ} {major : ℤ}
    (hcls : owned (.cls cls)) (hnew : ¬owned (.device cls major)) :
    (deviceCreate p cls major g).Exact
      (fun b => b = .device cls major ∧ p ≠ 0 ∨ owned b) := by
  unfold deviceCreate
  rw [uses_eq hg hcls]
  dsimp only
  split
  · next h => exact hg.congr (fun b => by simp [h])
  · next h => exact hg.alloc hnew (fun b => by simp [h])

theorem deviceDestroy_exact (hg : g.Exact owned) {cls : ℕ} (major : ℤ)
    (hcls : owned (.cls cls)) :
    (deviceDestroy cls major g).Exact
      (fun b => b ≠ .device cls major ∧ owned b) := by
  unfold deviceDestroy
  rw [uses_eq hg hcls]
  dsimp only
  split
  · next hlive =>
    exact hg.free ((hg.mem_iff _).mp hlive) rfl (fun b => Iff.rfl)
  · next hlive =>
    rw [hg.mem_iff] at hlive
    exact hg.congr fun b => ⟨fun h => h.2,
      fun h => ⟨fun hb => hlive (hb ▸ h), h⟩⟩

theorem classDestroy_exact (hg : g.Exact owned) {cls : ℕ}
    (hcls : owned (.cls cls)) (hdevice : ∀ n, ¬owned (.device cls n)) :
    (classDestroy cls g).Exact (fun b => b ≠ .cls cls ∧ owned b) := by
  refine hg.free hcls (List.all_eq_true.mpr fun b hb => ?_)
    (fun b => Iff.rfl)
  cases b with
  | device p n =>
    refine decide_eq_true (fun hp => hdevice n ?_)
    exact (hg.mem_iff _).mp (hp ▸ hb)
  | _ => rfl

theorem unregisterChrdev_exact (hg : g.Exact owned) (major : ℤ)
    (hmajor : owned (.chrdev major))
    (hdevice : ∀ p, ¬owned (.device p major)) :
    (unregisterChrdev major g).Exact
      (fun b => b ≠ .chrdev major ∧ owned b) := by
  refine hg.free hmajor (List.all_eq_true.mpr fun b hb => ?_)
    (fun b => Iff.rfl)
  cases b with
  | device p n =>
    refine decide_eq_true (fun hn => hdevice p ?_)
    exact (hg.mem_iff _).mp (hn ▸ hb)
  | _ => rfl

end KernelObjects

/-! ## Making and releasing a triple -/

open KernelObjects

variable [DecidableEq H] {held : H → Option ChrdevAnswer}
  {files : DeviceFile → Prop} {g : KernelObjects} {x : H} {a : ChrdevAnswer}
  {C : ChrdevAnswer → Prop}

theorem exists_give (hx : held x = none) :
    (∃ y b, Function.update held x (some a) y = some b ∧ C b)
      ↔ C a ∨ ∃ y b, held y = some b ∧ C b := by
  constructor
  · rintro ⟨y, b, hy, hb⟩
    by_cases hyx : y = x
    · rw [hyx, Function.update_self] at hy
      exact .inl (Option.some.inj hy ▸ hb)
    · rw [Function.update_of_ne hyx] at hy
      exact .inr ⟨y, b, hy, hb⟩
  · rintro (ha | ⟨y, b, hy, hb⟩)
    · exact ⟨x, a, Function.update_self .., ha⟩
    · have hyx : y ≠ x := fun h => nomatch (h ▸ hy).symm.trans hx
      exact ⟨y, b, (Function.update_of_ne hyx ..).trans hy, hb⟩

theorem exists_take :
    (∃ y b, Function.update held x none y = some b ∧ C b)
      ↔ ∃ y b, y ≠ x ∧ held y = some b ∧ C b := by
  refine exists_congr fun y => exists_congr fun b => ?_
  by_cases hyx : y = x
  · subst hyx
    simp
  · simp [hyx]

theorem of_take {y : H} {b : ChrdevAnswer}
    (h : Function.update held x none y = some b) : held y = some b := by
  by_cases hyx : y = x
  · rw [hyx, Function.update_self] at h
    exact nomatch h
  · rwa [Function.update_of_ne hyx] at h

/-- **Two holders stay apart** when a new one gets what nobody has. -/
theorem apart_give {R : ChrdevAnswer → ChrdevAnswer → Prop}
    (hR : ∀ b c, R b c → R c b)
    (h : ∀ {y z b c}, held y = some b → held z = some c → R b c → y = z)
    (hnew : ∀ y b, held y = some b → ¬R a b) {y z : H} {b c : ChrdevAnswer}
    (hy : Function.update held x (some a) y = some b)
    (hz : Function.update held x (some a) z = some c) (hbc : R b c) :
    y = z := by
  by_cases hyx : y = x
  · by_cases hzx : z = x
    · rw [hyx, hzx]
    · rw [hyx, Function.update_self] at hy
      rw [Function.update_of_ne hzx] at hz
      obtain rfl := Option.some.inj hy
      exact absurd hbc (hnew z c hz)
  · rw [Function.update_of_ne hyx] at hy
    by_cases hzx : z = x
    · rw [hzx, Function.update_self] at hz
      obtain rfl := Option.some.inj hz
      exact absurd (hR b a hbc) (hnew y b hy)
    · rw [Function.update_of_ne hzx] at hz
      exact h hy hz hbc

/-- **A triple is made for a new holder.** -/
theorem Triples.give (h : Triples held files g) (hx : held x = none)
    {env : KernelAnswers} (hmajor : ¬env.major < 0) (hcls : env.cls ≠ 0)
    (henv : env.Documented g) :
    Triples (Function.update held x (some env.chrdev)) files
      (create env g) := by
  obtain ⟨⟨devices, hg, hdevices⟩, hmajors, hclasses⟩ := h
  have hnew := henv.registerChrdev hmajor
  have hfresh := henv.classCreate hcls
  rw [hg.mem_iff] at hnew hfresh
  have hnumbers := hg.alloc hnew (fun _ => Iff.rfl)
  have hclass := hnumbers.alloc (b := .cls env.cls)
    (fun hc => hc.elim (fun h => nomatch h) hfresh) (fun _ => Iff.rfl)
  -- a device of the class would be held with it
  have hdevice : ¬devices env.cls env.major := fun hd =>
    let ⟨y, hy⟩ := hdevices _ _ hd
    hfresh ⟨y, _, hy, rfl⟩
  have hmade := deviceCreate_exact hclass env.device (.inl rfl)
    (fun hc => hc.elim (fun h => nomatch h)
      (fun hc => hc.elim (fun h => nomatch h) hdevice))
  unfold create registerChrdev classCreate
  rw [if_neg hmajor, if_neg hcls]
  refine ⟨⟨fun p n => p = env.cls ∧ n = env.major ∧ env.device ≠ 0
    ∨ devices p n, hmade.congr fun b => ?_, ?_⟩, ?_, ?_⟩
  · cases b with
    | chrdev n =>
      refine (exists_give hx).trans ?_
      simp [Parts, KernelAnswers.chrdev, eq_comm]
    | cls p =>
      refine (exists_give hx).trans ?_
      simp [Parts, KernelAnswers.chrdev, eq_comm]
    | device p n => simp [Parts, and_assoc]
    | file f => simp [Parts]
  · rintro p n (⟨rfl, rfl, h⟩ | h)
    · exact ⟨x, Function.update_self ..⟩
    · obtain ⟨y, hy⟩ := hdevices p n h
      have hyx : y ≠ x := fun h => nomatch (h ▸ hy).symm.trans hx
      exact ⟨y, (Function.update_of_ne hyx ..).trans hy⟩
  · exact apart_give (R := fun b c => b.major = c.major)
      (fun _ _ => Eq.symm) hmajors (fun y b hy hb => hnew ⟨y, b, hy, hb.symm⟩)
  · exact apart_give (R := fun b c => b.cls = c.cls)
      (fun _ _ => Eq.symm) hclasses
      (fun y b hy hb => hfresh ⟨y, b, hy, hb.symm⟩)

/-- **The triple of a holder is released.** -/
theorem Triples.take (h : Triples held files g) (hx : held x = some a) :
    Triples (Function.update held x none) files (destroy a g) := by
  obtain ⟨⟨devices, hg, hdevices⟩, hmajors, hclasses⟩ := h
  have hcls : Parts held devices files (.cls a.cls) := ⟨x, a, hx, rfl⟩
  have hdevice := deviceDestroy_exact hg a.major hcls
  have hclass := classDestroy_exact hdevice
    ⟨(fun h => nomatch h), hcls⟩ (fun n hn => ?_)
  · have hnumbers := unregisterChrdev_exact hclass a.major
      ⟨(fun h => nomatch h), (fun h => nomatch h), x, a, hx, rfl⟩
      (fun p hp => ?_)
    · refine ⟨⟨fun p n => (p ≠ a.cls ∨ n ≠ a.major) ∧ devices p n,
        hnumbers.congr fun b => ?_, ?_⟩, ?_, ?_⟩
      · cases b with
        | chrdev n =>
          refine exists_take.trans ⟨?_, ?_⟩
          · rintro ⟨y, b, hyx, hy, rfl⟩
            exact ⟨fun hn => hyx (hmajors hy hx (KernelObject.chrdev.inj hn)),
              (fun h => nomatch h), (fun h => nomatch h), y, b, hy, rfl⟩
          · rintro ⟨hn, -, -, y, b, hy, rfl⟩
            refine ⟨y, b, fun hyx => ?_, hy, rfl⟩
            obtain rfl := Option.some.inj ((hyx ▸ hy).symm.trans hx)
            exact hn rfl
        | cls p =>
          refine exists_take.trans ⟨?_, ?_⟩
          · rintro ⟨y, b, hyx, hy, rfl⟩
            exact ⟨(fun h => nomatch h),
              fun hp => hyx (hclasses hy hx (KernelObject.cls.inj hp)),
              (fun h => nomatch h), y, b, hy, rfl⟩
          · rintro ⟨-, hp, -, y, b, hy, rfl⟩
            refine ⟨y, b, fun hyx => ?_, hy, rfl⟩
            obtain rfl := Option.some.inj ((hyx ▸ hy).symm.trans hx)
            exact hp rfl
        | device p n => simp [Parts, imp_iff_not_or]
        | file f => simp [Parts]
      · rintro p n ⟨hother, hp⟩
        obtain ⟨y, hy⟩ := hdevices p n hp
        have hyx : y ≠ x := by
          rintro rfl
          obtain rfl := Option.some.inj (hy.symm.trans hx)
          exact hother.elim (fun h => h rfl) (fun h => h rfl)
        exact ⟨y, (Function.update_of_ne hyx ..).trans hy⟩
      · intro y z b b' hy hz
        exact hmajors (of_take hy) (of_take hz)
      · intro y z b b' hy hz
        exact hclasses (of_take hy) (of_take hz)
    · -- the device with the number is the one just destroyed
      obtain ⟨-, hne, hp⟩ := hp
      obtain ⟨y, hy⟩ := hdevices p _ hp
      obtain rfl := hmajors hy hx rfl
      obtain hcls : p = a.cls := congrArg ChrdevAnswer.cls
        (Option.some.inj (hy.symm.trans hx))
      exact hne (hcls ▸ rfl)
  · obtain ⟨hother, hn⟩ := hn
    obtain ⟨y, hy⟩ := hdevices _ n hn
    obtain rfl := hclasses hy hx rfl
    obtain hmajor : n = a.major := congrArg ChrdevAnswer.major
      (Option.some.inj (hy.symm.trans hx))
    exact hother (hmajor ▸ rfl)

omit [DecidableEq H] in
/-- **A file is made**, if the kernel makes it. -/
theorem Triples.createFile (h : Triples held files g) {dev : ℕ}
    (hdev : dev ≠ 0) {f : DeviceFile} (hf : ¬files f) (ret : ℤ) :
    Triples held (fun f' => f' = f ∧ ret = 0 ∨ files f')
      (g.deviceCreateFile dev f ret) := by
  obtain ⟨⟨devices, hg, hdevices⟩, hmajors, hclasses⟩ := h
  refine ⟨⟨devices, ?_, hdevices⟩, hmajors, hclasses⟩
  unfold deviceCreateFile
  rw [usesDevice_eq hdev]
  dsimp only
  split
  · next hne => exact hg.congr fun b => by cases b <;> simp [Parts, hne]
  · next heq =>
    have hnew : ¬Parts held devices files (.file f) := hf
    exact hg.alloc hnew fun b => by
      cases b <;> simp [Parts, not_not.mp heq]

omit [DecidableEq H] in
/-- **A file is removed.** -/
theorem Triples.removeFile (h : Triples held files g) {dev : ℕ}
    (hdev : dev ≠ 0) {f : DeviceFile} (hf : files f) :
    Triples held (fun f' => f' ≠ f ∧ files f')
      (g.deviceRemoveFile dev f) := by
  obtain ⟨⟨devices, hg, hdevices⟩, hmajors, hclasses⟩ := h
  refine ⟨⟨devices, ?_, hdevices⟩, hmajors, hclasses⟩
  have hown : Parts held devices files (.file f) := hf
  unfold deviceRemoveFile
  rw [usesDevice_eq hdev]
  exact hg.free hown rfl fun b => by cases b <;> simp [Parts]

omit [DecidableEq H] in
theorem Triples.congr {held' : H → Option ChrdevAnswer}
    {files' : DeviceFile → Prop} (h : Triples held files g)
    (hheld : ∀ x, held' x = held x) (hfiles : ∀ f, files' f ↔ files f) :
    Triples held' files' g := by
  obtain rfl : held' = held := funext hheld
  obtain rfl : files' = files := funext fun f => propext (hfiles f)
  exact h

end Triples
