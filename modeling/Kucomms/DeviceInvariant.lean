import Kucomms.DeviceMachine

/-!
# What holds around a device

`DeviceState.Inv` ties the mark of the entry to the files: a file that
answers for the mark finds it set, there is one such file at most, and once
the entry is gone there is none, nor a kernel thread that may still run.

`Frame` is what the steps of the others leave a thread: what it holds the
mutex for, names that are gone, the file it is at work on, its mapping, its own
thread. `Moves` is what every step of a thread amounts to, and the lemmas below
are the moves: one for each kind of step that matters here, and `Unmoved` for
all that do not.
-/

namespace FilePhase

variable {ι : Type}

/-- The file has been opened, and `kucomms_fops_release` has not returned. -/
def Served : FilePhase ι → Prop
  | live | releasing _ | closing _ => True
  | _ => False

theorem Served.holds_or_closing {p : FilePhase ι} (h : p.Served) :
    p.Holds ∨ p.Closing := by
  cases p with
  | live => exact .inl trivial
  | releasing i => exact .inl trivial
  | closing i => exact .inr trivial
  | fresh => exact h.elim
  | opening i => exact h.elim
  | holding i => exact h.elim
  | closed => exact h.elim

end FilePhase

theorem ThreadState.Running.active {t : ThreadState} (h : t.Running) :
    t.Active := by
  cases t with
  | running l => trivial
  | none => exact h
  | created => exact h
  | woken => trivial
  | exited => exact h

namespace DeviceState

variable {ι F : Type}

/-- The kernel thread of a file is in its function. -/
def Running (s : DeviceState ι F) (f : F) : Prop :=
  (s.files f).thread.Running

/-- The entry of the device. -/
def entry (s : DeviceState ι F) (name : Name) : Option (Fin kucommsListSize) :=
  s.registry.find .cblist name

/-- The names with callbacks. -/
def names (s : DeviceState ι F) : Finset (List UInt8) :=
  SlotTable.keys (s.registry.slotKeys .cblist)

/-- Where no name comes in, an entry that is gone stays gone. -/
theorem entry_none_of_names {name : Name} {s s' : DeviceState ι F}
    (h : s'.names ⊆ s.names) (hnone : s.entry name = none) :
    s'.entry name = none := by
  unfold entry Registry.find at hnone ⊢
  cases hk : name.key with
  | none => rfl
  | some k =>
    rw [hk] at hnone
    exact SlotTable.find_eq_none.mpr
      (fun hmem => SlotTable.find_eq_none.mp hnone (h hmem))

/-- **The invariant.** -/
structure Inv (name : Name) (s : DeviceState ι F) : Prop where
  distinct : SlotTable.Distinct (s.registry.slotKeys .cblist)
  /-- Only a file that was opened has a thread that may run. -/
  served : ∀ f, s.Active f → (s.phase f).Served
  /-- Without the entry no file answers for it, and no thread may run. -/
  gone : s.entry name = none → ∀ f, ¬(s.phase f).Holds ∧ ¬s.Active f
  /-- A file that answers for the mark finds it set. -/
  marked : ∀ f u, (s.phase f).Holds → s.entry name = some u →
    (s.registry.cblist u).isOpen = true
  /-- One file answers for the mark at most. -/
  one : ∀ f g, (s.phase f).Holds → (s.phase g).Holds → f = g
  /-- Only a file that is open is mapped. -/
  mapped : ∀ i f, s.mapping i = some f → s.phase f = .live
  /-- What `kucomms_unregister` has said is so. -/
  unregistered : s.unregistered = true → s.entry name = none

/-- **What the steps of others leave** to the thread `a`. -/
structure Frame (a : Agent ι F) (s s' : DeviceState ι F) : Prop where
  lock : s.owner = some a → s'.owner = some a
    ∧ s'.registry = s.registry
    ∧ (∀ f, (s'.phase f).Holds → (s.phase f).Holds)
    ∧ ∀ f, s'.Active f → s.Active f ∨ (s.phase f).Holds
  names : s'.names ⊆ s.names
  mapping : ∀ i, a = .caller i → s'.mapping i = s.mapping i
  busy : ∀ i f, a = .caller i → (s.phase f).Busy i →
    s'.phase f = s.phase f ∧ (s'.Active f → s.Active f)
  running : ∀ f, a = .kthread f → s.Running f → s'.Running f

/-- **What others may do.** -/
def Rely (name : Name) (a : Agent ι F) (s s' : DeviceState ι F) : Prop :=
  s.Inv name → s'.Inv name ∧ s.Frame a s'

/-- **What a step of the thread `a` amounts to.** -/
def Moves (name : Name) (a : Agent ι F) (s s' : DeviceState ι F) : Prop :=
  s.Inv name → s'.Inv name ∧ ∀ b, b ≠ a → s.Frame b s'

theorem Frame.refl (a : Agent ι F) (s : DeviceState ι F) : s.Frame a s :=
  ⟨fun h => ⟨h, rfl, fun _ => id, fun _ => .inl⟩, Finset.Subset.refl _,
    fun _ _ => rfl, fun _ _ _ _ => ⟨rfl, id⟩, fun _ _ => id⟩

theorem Frame.trans {a : Agent ι F} {s t u : DeviceState ι F}
    (h : s.Frame a t) (h' : t.Frame a u) : s.Frame a u := by
  refine ⟨fun ho => ?_, h'.names.trans h.names,
    fun i ha => (h'.mapping i ha).trans (h.mapping i ha), fun i f ha hb => ?_,
    fun f ha hr => h'.running f ha (h.running f ha hr)⟩
  · obtain ⟨ho, hreg, hholds, hactive⟩ := h.lock ho
    obtain ⟨ho', hreg', hholds', hactive'⟩ := h'.lock ho
    refine ⟨ho', hreg'.trans hreg, fun f hf => hholds f (hholds' f hf),
      fun f hf => ?_⟩
    obtain hf | hf := hactive' f hf
    · exact hactive f hf
    · exact .inr (hholds f hf)
  · obtain ⟨hphase, hactive⟩ := h.busy i f ha hb
    obtain ⟨hphase', hactive'⟩ := h'.busy i f ha (hphase ▸ hb)
    exact ⟨hphase'.trans hphase, fun hf => hactive (hactive' hf)⟩

theorem Rely.refl (name : Name) (a : Agent ι F) (s : DeviceState ι F) :
    Rely name a s s := fun h => ⟨h, Frame.refl a s⟩

theorem Rely.trans {name : Name} {a : Agent ι F} {s t u : DeviceState ι F}
    (h : Rely name a s t) (h' : Rely name a t u) : Rely name a s u := by
  intro hs
  obtain ⟨ht, hframe⟩ := h hs
  obtain ⟨hu, hframe'⟩ := h' ht
  exact ⟨hu, hframe.trans hframe'⟩

theorem Moves.rely {name : Name} {a b : Agent ι F} {s s' : DeviceState ι F}
    (h : Moves name a s s') (hab : a ≠ b) : Rely name b s s' := by
  intro hs
  obtain ⟨hs', hframe⟩ := h hs
  exact ⟨hs', hframe b (fun hc => hab hc.symm)⟩

/-! ## The moves -/

section Moves

variable {name : Name} {a : Agent ι F} {s s' : DeviceState ι F} {i : ι}
  {f : F}

/-- **A step that does not matter**: the tables, the phases and the threads
stay as they are. -/
structure Unmoved (s s' : DeviceState ι F) : Prop where
  registry : s'.registry = s.registry
  phase : s'.phase = s.phase
  mapping : s'.mapping = s.mapping
  unregistered : s'.unregistered = s.unregistered
  thread : ∀ f, (s'.files f).thread = (s.files f).thread

theorem Unmoved.active (hu : s.Unmoved s') (f : F) :
    s'.Active f ↔ s.Active f := by
  unfold Active
  rw [hu.thread f]

theorem Unmoved.inv (hu : s.Unmoved s') (h : s.Inv name) : s'.Inv name := by
  have hentry : s'.entry name = s.entry name := by
    unfold entry
    rw [hu.registry]
  refine ⟨hu.registry ▸ h.distinct, fun f hf => ?_, fun hnone f => ?_,
    fun f u hf hv => ?_, fun f g hf hg => ?_, fun j f hf => ?_,
    fun hun => ?_⟩
  · rw [hu.phase]
    exact h.served f ((hu.active f).mp hf)
  · rw [hu.phase, hu.active]
    exact h.gone (hentry.symm.trans hnone) f
  · rw [hu.phase] at hf
    rw [hu.registry]
    exact h.marked f u hf (hentry.symm.trans hv)
  · rw [hu.phase] at hf hg
    exact h.one f g hf hg
  · rw [hu.mapping] at hf
    rw [hu.phase]
    exact h.mapped j f hf
  · rw [hu.unregistered] at hun
    exact hentry.trans (h.unregistered hun)

theorem Unmoved.frame (hu : s.Unmoved s')
    (howner : s.owner = some a → s'.owner = some a) : s.Frame a s' := by
  refine ⟨fun ho => ⟨howner ho, hu.registry, fun f hf => ?_,
    fun f hf => .inl ((hu.active f).mp hf)⟩, ?_,
    fun j _ => by rw [hu.mapping],
    fun j f _ _ => ⟨by rw [hu.phase], (hu.active f).mp⟩, fun f _ hf => ?_⟩
  · rwa [hu.phase] at hf
  · unfold DeviceState.names
    rw [hu.registry]
  · unfold Running
    rw [hu.thread f]
    exact hf

/-- To the thread itself it is like a step of others. -/
theorem Unmoved.rely (hu : s.Unmoved s')
    (howner : s.owner = some a → s'.owner = some a) : Rely name a s s' :=
  fun h => ⟨hu.inv h, hu.frame howner⟩

theorem Unmoved.moves (hu : s.Unmoved s')
    (howner : ∀ b, b ≠ a → s.owner = some b → s'.owner = some b) :
    Moves name a s s' :=
  fun h => ⟨hu.inv h, fun b hb => hu.frame (howner b hb)⟩

variable [DecidableEq F]

theorem setFile_self (s : DeviceState ι F) (f : F) (fd : OpenFile) :
    (s.setFile f fd).files f = fd := Function.update_self ..

theorem setFile_ne (s : DeviceState ι F) {f g : F} (h : g ≠ f)
    (fd : OpenFile) : (s.setFile f fd).files g = s.files g :=
  Function.update_of_ne h _ _

theorem setPhase_self (s : DeviceState ι F) (f : F) (p : FilePhase ι) :
    (s.setPhase f p).phase f = p := Function.update_self ..

omit [DecidableEq F] in
theorem setMapping_self [DecidableEq ι] (s : DeviceState ι F) (i : ι)
    (o : Option F) : (s.setMapping i o).mapping i = o :=
  Function.update_self ..

theorem setPhase_ne (s : DeviceState ι F) {f g : F} (h : g ≠ f)
    (p : FilePhase ι) : (s.setPhase f p).phase g = s.phase g :=
  Function.update_of_ne h _ _

/-- **A file changes**: its thread does not become active, and if it runs it
goes on to run, unless the step is its own. -/
theorem Moves.setFile {fd : OpenFile}
    (hactive : fd.thread.Active → s.Active f)
    (hrunning : a ≠ .kthread f → s.Running f → fd.thread.Running) :
    Moves name a s (s.setFile f fd) := by
  have hact : ∀ g, (s.setFile f fd).Active g → s.Active g := by
    intro g hg
    by_cases hgf : g = f
    · subst hgf
      unfold Active at hg
      rw [setFile_self] at hg
      exact hactive hg
    · unfold Active at hg
      rwa [setFile_ne s hgf] at hg
  intro h
  refine ⟨⟨h.distinct, fun g hg => h.served g (hact g hg),
    fun hnone g => ⟨(h.gone hnone g).1,
      fun hg => (h.gone hnone g).2 (hact g hg)⟩, h.marked, h.one, h.mapped,
    h.unregistered⟩, fun b hb => ⟨fun ho => ⟨ho, rfl, fun _ => id,
      fun g hg => .inl (hact g hg)⟩, Finset.Subset.refl _, fun _ _ => rfl,
      fun _ g _ _ => ⟨rfl, hact g⟩, fun g hg hr => ?_⟩⟩
  unfold Running
  by_cases hgf : g = f
  · subst hgf
    rw [setFile_self]
    exact hrunning (fun hc => hb (hg.trans hc.symm)) hr
  · rw [setFile_ne s hgf]
    exact hr

/-- **A file goes into another phase.** -/
theorem Moves.setPhase {p : FilePhase ι}
    (hholds : p.Holds → (s.phase f).Holds) (hserved : s.Active f → p.Served)
    (hmapped : ∀ j, s.mapping j = some f → p = .live)
    (hbusy : ∀ j, (s.phase f).Busy j → a = .caller j) :
    Moves name a s (s.setPhase f p) := by
  have hhold : ∀ g, ((s.setPhase f p).phase g).Holds → (s.phase g).Holds := by
    intro g hg
    by_cases hgf : g = f
    · subst hgf
      rw [setPhase_self] at hg
      exact hholds hg
    · rwa [setPhase_ne s hgf] at hg
  intro h
  refine ⟨⟨h.distinct, fun g hg => ?_, fun hnone g =>
    ⟨fun hg => (h.gone hnone g).1 (hhold g hg), (h.gone hnone g).2⟩,
    fun g u hg => h.marked g u (hhold g hg),
    fun g g' hg hg' => h.one g g' (hhold g hg) (hhold g' hg'),
    fun j g hg => ?_, h.unregistered⟩,
    fun b hb => ⟨fun ho => ⟨ho, rfl, hhold, fun _ => .inl⟩,
      Finset.Subset.refl _, fun _ _ => rfl,
      fun j g hj hg => ⟨?_, id⟩, fun _ _ => id⟩⟩
  · by_cases hgf : g = f
    · subst hgf
      rw [setPhase_self]
      exact hserved hg
    · rw [setPhase_ne s hgf]
      exact h.served g hg
  · by_cases hgf : g = f
    · subst hgf
      rw [setPhase_self]
      exact hmapped j hg
    · rw [setPhase_ne s hgf]
      exact h.mapped j g hg
  · refine setPhase_ne s ?_ p
    rintro rfl
    exact hb (hj.trans (hbusy j hg).symm)

/-- **The thread of a mapped file is woken.** -/
theorem Moves.wake {fd : OpenFile} (hmapping : s.mapping i = some f)
    (hrunning : s.Running f → fd.thread.Running) :
    Moves name a s (s.setFile f fd) := by
  intro h
  have hlive := h.mapped i f hmapping
  have hact : ∀ g, (s.setFile f fd).Active g → s.Active g ∨ g = f := by
    intro g hg
    by_cases hgf : g = f
    · exact .inr hgf
    · unfold Active at hg
      rw [setFile_ne s hgf] at hg
      exact .inl hg
  have hholds : (s.phase f).Holds := hlive ▸ trivial
  refine ⟨⟨h.distinct, fun g hg => ?_, fun hnone =>
    absurd hholds (h.gone hnone f).1, h.marked, h.one, h.mapped,
    h.unregistered⟩, fun b hb => ⟨fun ho => ⟨ho, rfl, fun _ => id,
      fun g hg => ?_⟩, Finset.Subset.refl _, fun _ _ => rfl,
      fun j g _ hg => ⟨rfl, fun hg' => ?_⟩, fun g _ hr => ?_⟩⟩
  · obtain hg | rfl := hact g hg
    · exact h.served g hg
    · show (s.phase g).Served
      rw [hlive]
      trivial
  · obtain hg | rfl := hact g hg
    · exact .inl hg
    · exact .inr hholds
  · obtain hg' | rfl := hact g hg'
    · exact hg'
    · rw [hlive] at hg
      exact hg.elim
  · unfold Running
    by_cases hgf : g = f
    · subst hgf
      rw [setFile_self]
      exact hrunning hr
    · rw [setFile_ne s hgf]
      exact hr

omit [DecidableEq F] in
/-- **A caller comes to `kucomms_fops_mmap`, or leaves it.** -/
theorem Moves.setMapping [DecidableEq ι] {o : Option F}
    (ho : ∀ f, o = some f → s.phase f = .live) :
    Moves name (.caller i) s (s.setMapping i o) := by
  intro h
  refine ⟨⟨h.distinct, h.served, h.gone, h.marked, h.one, fun j g hg => ?_,
    h.unregistered⟩, fun b hb => ⟨fun ho => ⟨ho, rfl, fun _ => id,
      fun _ => .inl⟩, Finset.Subset.refl _, fun j hj => ?_,
      fun _ _ _ _ => ⟨rfl, id⟩, fun _ _ => id⟩⟩
  · have hg : Function.update s.mapping i o j = some g := hg
    by_cases hji : j = i
    · subst hji
      rw [Function.update_self] at hg
      exact ho g hg
    · rw [Function.update_of_ne hji] at hg
      exact h.mapped j g hg
  · refine Function.update_of_ne ?_ _ _
    rintro rfl
    exact hb hj

omit [DecidableEq F] in
/-- **`kucomms_unregister` returns.** -/
theorem Moves.unregister {ok : Bool}
    (hok : ok = true → s.entry name = none) :
    Moves name a s { s with unregistered := s.unregistered || ok } := by
  intro h
  refine ⟨⟨h.distinct, h.served, h.gone, h.marked, h.one, h.mapped,
    fun hun => ?_⟩, fun b _ => ⟨fun ho => ⟨ho, rfl, fun _ => id,
      fun _ => .inl⟩, Finset.Subset.refl _, fun _ _ => rfl,
      fun _ _ _ _ => ⟨rfl, id⟩, fun _ _ => id⟩⟩
  obtain hun | hun := Bool.or_eq_true_iff.mp hun
  · exact h.unregistered hun
  · exact hok hun

/-! ### Under the mutex -/

omit [DecidableEq F] in
/-- The mark has nothing to do with the names. -/
theorem names_setOpen (s : DeviceState ι F) {u : Fin kucommsListSize}
    (b : Bool) :
    SlotTable.keys ((s.registry.setOpen u b).slotKeys .cblist) ⊆ s.names := by
  rw [Registry.slotKeys_setOpen]
  exact Finset.Subset.refl _

omit [DecidableEq F] in
/-- The entry is marked open by an open that found it marked. -/
theorem Moves.markAgain {u : Fin kucommsListSize} (ho : s.owner = some a) :
    Moves name a s { s with registry := s.registry.setOpen u true } := by
  intro h
  have hentry : ∀ r : Registry,
      (r.setOpen u true).find .cblist name = r.find .cblist name :=
    fun r => Registry.find_setOpen true .cblist name
  refine ⟨⟨?_, h.served, fun hnone => h.gone ((hentry _).symm.trans hnone),
    fun f v hf hv => ?_, h.one, h.mapped, fun hun =>
      (hentry _).trans (h.unregistered hun)⟩,
    fun b hb => ⟨fun hc => ?_, names_setOpen s true, fun _ _ => rfl,
      fun _ _ _ _ => ⟨rfl, id⟩, fun _ _ => id⟩⟩
  · show SlotTable.Distinct ((s.registry.setOpen u true).slotKeys .cblist)
    rw [Registry.slotKeys_setOpen]
    exact h.distinct
  · show (Function.update s.registry.cblist u _ v).isOpen = true
    by_cases hvu : v = u
    · subst hvu
      rw [Function.update_self]
    · rw [Function.update_of_ne hvu]
      exact h.marked f v hf ((hentry _).symm.trans hv)
  · exact absurd (Option.some.inj (hc.symm.trans ho)) hb

/-- **The entry is marked open** by an open that found it clear. -/
theorem Moves.mark {u : Fin kucommsListSize} (ho : s.owner = some (.caller i))
    (hu : s.entry name = some u) (hflag : (s.registry.cblist u).isOpen = false)
    (hf : s.phase f = .opening i) :
    Moves name (.caller i) s { s.setPhase f (.holding i) with
      registry := s.registry.setOpen u true } := by
  intro h
  have hentry : (s.registry.setOpen u true).find .cblist name = some u :=
    (Registry.find_setOpen true .cblist name).trans hu
  have hnobody : ∀ g, ¬(s.phase g).Holds := by
    intro g hg
    exact Bool.false_ne_true (hflag.symm.trans (h.marked g u hg hu))
  have hself : ∀ g, ((s.setPhase f (.holding i)).phase g).Holds → g = f := by
    intro g hg
    by_contra hgf
    rw [setPhase_ne s hgf] at hg
    exact hnobody g hg
  refine ⟨⟨?_, fun g hg => ?_, (fun hnone => nomatch hnone.symm.trans hentry),
    fun g v hg hv => ?_, fun g g' hg hg' => (hself g hg).trans
      (hself g' hg').symm, fun j g hg => ?_, (fun hun =>
      nomatch (h.unregistered hun).symm.trans hu)⟩,
    fun b hb => ⟨fun hc => ?_, names_setOpen s true, fun _ _ => rfl,
      fun j g hj hg => ⟨?_, id⟩, fun _ _ => id⟩⟩
  · show SlotTable.Distinct ((s.registry.setOpen u true).slotKeys .cblist)
    rw [Registry.slotKeys_setOpen]
    exact h.distinct
  · have hserved := h.served g hg
    show ((s.setPhase f (.holding i)).phase g).Served
    rw [setPhase_ne s]
    · exact hserved
    · rintro rfl
      rw [hf] at hserved
      exact hserved
  · obtain rfl := Option.some.inj (hentry.symm.trans hv)
    show (Function.update s.registry.cblist u _ u).isOpen = true
    rw [Function.update_self]
  · have hlive := h.mapped j g hg
    refine (setPhase_ne s ?_ _).trans hlive
    rintro rfl
    rw [hf] at hlive
    exact nomatch hlive
  · exact absurd (Option.some.inj (hc.symm.trans ho)) hb
  · refine setPhase_ne s ?_ _
    rintro rfl
    rw [hf] at hg
    obtain rfl : i = j := hg
    exact hb hj

/-- **The mark is cleared** by the file that answers for it. -/
theorem Moves.clear {u : Fin kucommsListSize} {p : FilePhase ι}
    (ho : s.owner = some (.caller i)) (hholds : (s.phase f).Holds)
    (hbusy : (s.phase f).Busy i) (hp : ¬p.Holds)
    (hserved : (s.phase f).Served → p.Served) :
    Moves name (.caller i) s { s.setPhase f p with
      registry := s.registry.setOpen u false } := by
  intro h
  have hentry : ∀ r : Registry,
      (r.setOpen u false).find .cblist name = r.find .cblist name :=
    fun r => Registry.find_setOpen false .cblist name
  have hnobody : ∀ g, ¬((s.setPhase f p).phase g).Holds := by
    intro g hg
    by_cases hgf : g = f
    · subst hgf
      rw [setPhase_self] at hg
      exact hp hg
    · rw [setPhase_ne s hgf] at hg
      exact hgf (h.one g f hg hholds)
  have hphase : ∀ j g, s.mapping j = some g → g ≠ f := by
    rintro j g hg rfl
    rw [h.mapped j g hg] at hbusy
    exact hbusy
  refine ⟨⟨?_, fun g hg => ?_, fun hnone g => ⟨hnobody g,
      (h.gone ((hentry _).symm.trans hnone) g).2⟩,
    fun g v hg => absurd hg (hnobody g), fun g _ hg => absurd hg (hnobody g),
    fun j g hg => (setPhase_ne s (hphase j g hg) p).trans (h.mapped j g hg),
    fun hun => (hentry _).trans (h.unregistered hun)⟩,
    fun b hb => ⟨fun hc => ?_, names_setOpen s false, fun _ _ => rfl,
      fun j g hj hg => ⟨?_, id⟩, fun _ _ => id⟩⟩
  · show SlotTable.Distinct ((s.registry.setOpen u false).slotKeys .cblist)
    rw [Registry.slotKeys_setOpen]
    exact h.distinct
  · have hs := h.served g hg
    show ((s.setPhase f p).phase g).Served
    by_cases hgf : g = f
    · subst hgf
      rw [setPhase_self]
      exact hserved hs
    · rwa [setPhase_ne s hgf]
  · exact absurd (Option.some.inj (hc.symm.trans ho)) hb
  · refine setPhase_ne s ?_ _
    rintro rfl
    have hij : i = j := by
      cases hph : s.phase g <;> rw [hph] at hbusy hg <;>
        first | exact hbusy.symm.trans hg | exact hbusy.elim
    exact hb (hij ▸ hj)

omit [DecidableEq F] in
/-- **The entry is given up**, while no file answers for it and no thread may
run. -/
theorem Moves.forget {r : Registry} (ho : s.owner = some a)
    (hidle : ∀ f, ¬(s.phase f).Holds ∧ ¬s.Active f)
    (hdistinct : SlotTable.Distinct (r.slotKeys .cblist))
    (hnames : SlotTable.keys (r.slotKeys .cblist) ⊆ s.names) :
    Moves name a s { s with registry := r } := by
  intro h
  have hgone : s.entry name = none →
      ({ s with registry := r } : DeviceState ι F).entry name = none :=
    entry_none_of_names hnames
  exact ⟨⟨hdistinct, h.served, fun _ => hidle,
    fun f _ hf => absurd hf (hidle f).1, h.one, h.mapped,
    fun hun => hgone (h.unregistered hun)⟩,
    fun b hb => ⟨fun hc => absurd (Option.some.inj (hc.symm.trans ho)) hb,
      hnames, fun _ _ => rfl, fun _ _ _ _ => ⟨rfl, id⟩, fun _ _ => id⟩⟩

end Moves

end DeviceState
