import Kucomms.Machine

/-!
# Machines that are observed

What a run has done is often not in the state it ends in: which of two things
happened first, how often, or whether something held all the time in between.
An observer keeps notes of a run. It sees when a call begins and when an
action has been performed, and no thread sees what it notes; so every run of
the machine is one of the observed machine (`Reach.observed`), and what an
outline proves of the notes is true of the run.

`ReachWhile` is a stretch of a run throughout which something holds.
-/

namespace Machine

variable {ι A : Type} {R : A → Type} {S G : Type}

/-- **An observer**, with notes of type `G`. -/
structure Observer (M : Machine ι A R S) (G : Type) where
  /-- What is noted when a thread begins a call in a state. -/
  onCall : ι → M.Call → S → G → G
  /-- What is noted when an action has been performed and left a state. -/
  onAct : A → S → G → G

/-- **The observed machine.** -/
def observed (M : Machine ι A R S) (o : M.Observer G) :
    Machine ι A R (S × G) where
  Call := M.Call
  Ret := M.Ret
  prog := M.prog
  may i s c := M.may i s.1 c
  onCall i c s := (M.onCall i c s.1, o.onCall i c s.1 s.2)
  sem i c a s r s' := M.sem i c a s.1 r s'.1 ∧ s'.2 = o.onAct a s'.1 s.2
  onRet i c v s := (M.onRet i c v s.1, s.2)

/-- A configuration with the notes taken so far. -/
def Conf.noting {M : Machine ι A R S} (o : M.Observer G) (x : M.Conf) (g : G) :
    (M.observed o).Conf :=
  ⟨(x.st, g), x.pc⟩

variable [DecidableEq ι] {M : Machine ι A R S}

/-- **What an observer notes of a step.** -/
inductive Notes (o : M.Observer G) (i : ι) : M.Conf → M.Conf → G → G → Prop
    where
  | call {s : S} {pc pc' : ι → M.Pc} {g : G} (c : M.Call)
      (hpc : pc i = none) (hmay : M.may i s c) :
      Notes o i ⟨s, pc⟩ ⟨M.onCall i c s, pc'⟩ g (o.onCall i c s g)
  | act {s s' : S} {pc pc' : ι → M.Pc} {g : G} {c : M.Call} {a : A} {r : R a}
      (hsem : M.sem i c a s r s') :
      Notes o i ⟨s, pc⟩ ⟨s', pc'⟩ g (o.onAct a s' g)
  | ret {s : S} {pc pc' : ι → M.Pc} {g : G} {c : M.Call} (v : M.Ret c) :
      Notes o i ⟨s, pc⟩ ⟨M.onRet i c v s, pc'⟩ g g

/-- A step can be observed. -/
theorem Step.observed {i : ι} {x y : M.Conf} (hs : M.Step i x y)
    (o : M.Observer G) (g : G) :
    ∃ g', (M.observed o).Step i (x.noting o g) (y.noting o g')
      ∧ Notes o i x y g g' := by
  cases hs with
  | call c hpc hmay =>
    exact ⟨_, .call (M := M.observed o) c hpc hmay, .call c hpc hmay⟩
  | act hpc hsem =>
    exact ⟨_, .act (M := M.observed o) hpc ⟨hsem, rfl⟩, .act hsem⟩
  | ret hpc => exact ⟨_, .ret (M := M.observed o) hpc, .ret _⟩

/-- **A run can be observed**, from any notes at its start. -/
theorem Reach.observed {x y : M.Conf} (h : M.Reach x y) (o : M.Observer G)
    (g : G) : ∃ g', (M.observed o).Reach (x.noting o g) (y.noting o g') := by
  induction h with
  | refl => exact ⟨g, .refl⟩
  | step i _ hs ih =>
    obtain ⟨g', hreach⟩ := ih
    obtain ⟨g'', hstep, -⟩ := hs.observed o g'
    exact ⟨g'', .step i hreach hstep⟩

/-! ## Stretches of a run -/

/-- **Reachability while something holds**: of the first configuration, the
last, and all between. -/
inductive ReachWhile (M : Machine ι A R S) (P : M.Conf → Prop) (x : M.Conf) :
    M.Conf → Prop where
  | refl (hx : P x) : ReachWhile M P x x
  | step {y z : M.Conf} (i : ι) (h : ReachWhile M P x y) (hs : M.Step i y z)
      (hz : P z) : ReachWhile M P x z

variable {P : M.Conf → Prop} {x y : M.Conf}

theorem ReachWhile.first (h : M.ReachWhile P x y) : P x := by
  induction h with
  | refl hx => exact hx
  | step _ _ _ _ ih => exact ih

theorem ReachWhile.last (h : M.ReachWhile P x y) : P y := by
  cases h with
  | refl hx => exact hx
  | step _ _ _ hz => exact hz

theorem ReachWhile.reach (h : M.ReachWhile P x y) : M.Reach x y := by
  induction h with
  | refl _ => exact .refl
  | step i _ hs _ ih => exact .step i ih hs

/-- **Notes taken over a stretch of a run.** What holds of the notes at its
start, and is kept by every step within it, holds at its end. -/
theorem ReachWhile.observed (h : M.ReachWhile P x y) (o : M.Observer G)
    {I : M.Conf → G → Prop} {x₀ : (M.observed o).Conf} {g : G}
    (hg : (M.observed o).Reach x₀ (x.noting o g)) (hI : I x g)
    (hstep : ∀ {i y z g g'}, M.Step i y z → P y → P z → Notes o i y z g g' →
      I y g → I z g') :
    ∃ g', (M.observed o).Reach x₀ (y.noting o g') ∧ I y g' := by
  induction h with
  | refl hx => exact ⟨g, hg, hI⟩
  | step i h hs hz ih =>
    obtain ⟨g', hreach, hI'⟩ := ih
    obtain ⟨g'', hobs, hnotes⟩ := hs.observed o g'
    exact ⟨g'', .step i hreach hobs, hstep hs h.last hz hnotes hI'⟩

/-- A stretch that begins one step earlier. -/
theorem ReachWhile.head {i : ι} {z : M.Conf} (hx : P x) (hs : M.Step i x y)
    (h : M.ReachWhile P y z) : M.ReachWhile P x z := by
  induction h with
  | refl hy => exact .step i (.refl hx) hs hy
  | step k _ hs' hz ih => exact .step k ih hs' hz

theorem ReachWhile.mono {P' : M.Conf → Prop} (h : M.ReachWhile P x y)
    (hP : ∀ {z}, P z → P' z) : M.ReachWhile P' x y := by
  induction h with
  | refl hx => exact .refl (hP hx)
  | step i _ hs hz ih => exact .step i ih hs (hP hz)

/-- One stretch after the other. -/
theorem ReachWhile.trans {z : M.Conf} (h : M.ReachWhile P x y)
    (h' : M.ReachWhile P y z) : M.ReachWhile P x z := by
  induction h' with
  | refl _ => exact h
  | step i _ hs hz ih => exact .step i ih hs hz

/-- A run throughout which something holds that always does. -/
theorem Reach.reachWhile (h : M.Reach x y) (hP : ∀ z, P z) :
    M.ReachWhile P x y := by
  induction h with
  | refl => exact .refl (hP _)
  | step i _ hs ih => exact .step i ih hs (hP _)

/-- **The actions that leave a state in which `C` holds**: the machine of the
runs in which it holds throughout. -/
def within (M : Machine ι A R S) (C : S → Prop) : Machine ι A R S :=
  { M with sem := fun i c a s r s' => M.sem i c a s r s' ∧ C s' }

/-- A configuration of such a run. -/
def Conf.within {M : Machine ι A R S} (C : S → Prop) (x : M.Conf) :
    (M.within C).Conf :=
  ⟨x.st, x.pc⟩

/-- **A stretch of a run throughout which `C` holds.** -/
theorem ReachWhile.within {C : S → Prop}
    (h : M.ReachWhile (fun z => C z.st) x y) :
    (M.within C).Reach (x.within C) (y.within C) := by
  induction h with
  | refl _ => exact .refl
  | step i _ hs hz ih =>
    refine .step i ih ?_
    cases hs with
    | call c hpc hmay => exact .call (M := M.within C) c hpc hmay
    | act hpc hsem => exact .act (M := M.within C) hpc ⟨hsem, hz⟩
    | ret hpc => exact .ret (M := M.within C) hpc

/-! ## A call within a run -/

/-- **A call of a thread**, which begins in `x` and is about to return `v` in
`y`: between the two it is the call that the thread is in. -/
structure Makes (M : Machine ι A R S) (i : ι) (c : M.Call) (x y : M.Conf)
    (v : M.Ret c) : Prop where
  idle : x.pc i = none
  may : M.may i x.st c
  inside : M.ReachWhile (fun z => ∃ p, z.pc i = some ⟨c, p⟩)
    ⟨M.onCall i c x.st, Function.update x.pc i (some ⟨c, M.prog c⟩)⟩ y
  returns : y.pc i = some ⟨c, .ret v⟩

/-- The steps of a call. -/
theorem Makes.reach {i : ι} {c : M.Call} {v : M.Ret c}
    (h : M.Makes i c x y v) : M.Reach x y :=
  .trans (.step i .refl (.call c h.idle h.may)) h.inside.reach

namespace Outline

variable (O : M.Outline) {s : S} {i : ι}

/-- What every guarantee implies, and is a preorder, relates the states of a
run. -/
theorem relates {T : S → S → Prop} (hrefl : ∀ s, T s s)
    (htrans : ∀ {s t u}, T s t → T t u → T s u)
    (hT : ∀ {i s s'}, O.guar i s s' → T s s') (h0 : ∀ i, O.idle i s)
    (hx : M.Reach (M.start s) x) (h : M.Reach x y) : T x.st y.st := by
  induction h with
  | refl => exact hrefl _
  | step i h hs ih =>
    exact htrans ih (hT (O.guar_of_reach h0 (hx.trans h) hs))

/-- **What a call has established when it returns** may speak of the state
that it began in. -/
theorem post_of_makes (h0 : ∀ i, O.idle i s) (hx : M.Reach (M.start s) x)
    {c : M.Call} {v : M.Ret c} (h : M.Makes i c x y v)
    {Q : M.Ret c → S → Prop}
    (hwp : (M.prog c).Wp (O.spec i c) Q (M.onCall i c x.st)) : Q v y.st := by
  have hbegin : M.Reach x
      ⟨M.onCall i c x.st, Function.update x.pc i (some ⟨c, M.prog c⟩)⟩ :=
    .step i .refl (.call c h.idle h.may)
  have hkeep : ∀ z, M.ReachWhile (fun z => ∃ p, z.pc i = some ⟨c, p⟩)
      ⟨M.onCall i c x.st, Function.update x.pc i (some ⟨c, M.prog c⟩)⟩ z →
      ∃ p, z.pc i = some ⟨c, p⟩ ∧ p.Wp (O.spec i c) Q z.st := by
    intro z hz
    induction hz with
    | refl _ => exact ⟨_, Function.update_self .., hwp⟩
    | @step w z j hw hs hz ih =>
      obtain ⟨p, hp, hwp'⟩ := ih
      have hreach := (hx.trans hbegin).trans hw.reach
      by_cases hij : i = j
      · subst hij
        cases hs with
        | call c' hpc _ => exact nomatch hp.symm.trans hpc
        | act hpc hsem =>
          obtain ⟨rfl, hq⟩ := Sigma.mk.inj (Option.some.inj (hp.symm.trans hpc))
          obtain rfl := eq_of_heq hq
          exact ⟨_, Function.update_self .., (hwp'.of_act.2 _ _ hsem).2⟩
        | ret hpc =>
          obtain ⟨q, hq⟩ := hz
          simp only [Function.update_self, reduceCtorEq] at hq
      · refine ⟨p, (hs.pc_ne hij).trans hp, hwp'.stable ?_⟩
        exact O.guar_rely (fun hc => hij hc.symm) (O.guar_of_reach h0 hreach hs)
  obtain ⟨p, hp, hwp'⟩ := hkeep y h.inside
  obtain ⟨-, hq⟩ := Sigma.mk.inj (Option.some.inj (hp.symm.trans h.returns))
  obtain rfl := eq_of_heq hq
  exact hwp'.of_ret

end Outline

/-! ## One step at a time -/

section Advance

variable {exec : M.Call → (a : A) → S → Option (R a × S)} {i : ι}
  {choose : (s : S) → Option { c : M.Call // M.may i s c }}

/-- **The next step of a thread**, if it is possible: `choose` says what it
calls, and `exec` how actions are performed. -/
def advance (M : Machine ι A R S)
    (exec : M.Call → (a : A) → S → Option (R a × S)) (i : ι)
    (choose : (s : S) → Option { c : M.Call // M.may i s c }) (x : M.Conf) :
    Option M.Conf :=
  match x.pc i with
  | none => (choose x.st).map (fun c =>
    ⟨M.onCall i c.1 x.st, Function.update x.pc i (some ⟨c.1, M.prog c.1⟩)⟩)
  | some ⟨c, .act a k⟩ => (exec c a x.st).map (fun r =>
    ⟨r.2, Function.update x.pc i (some ⟨c, k r.1⟩)⟩)
  | some ⟨c, .ret v⟩ =>
    some ⟨M.onRet i c v x.st, Function.update x.pc i none⟩

theorem Step.advance (hexec : ∀ c a s r s', exec c a s = some (r, s') →
      M.sem i c a s r s') (h : M.advance exec i choose x = some y) :
    M.Step i x y := by
  obtain ⟨s, pc⟩ := x
  unfold Machine.advance at h
  split at h
  · next hpc =>
    obtain ⟨⟨c, hmay⟩, -, rfl⟩ := Option.map_eq_some_iff.mp h
    exact .call c hpc hmay
  · next c a k hpc =>
    obtain ⟨⟨r, s'⟩, hr, rfl⟩ := Option.map_eq_some_iff.mp h
    exact .act hpc (hexec c a s r s' hr)
  · next c v hpc =>
    obtain rfl := Option.some.inj h
    exact .ret hpc

/-- The next `n` steps, if all the configurations pass a check. -/
def advances (M : Machine ι A R S) (check : M.Conf → Bool)
    (exec : M.Call → (a : A) → S → Option (R a × S)) (i : ι)
    (choose : (s : S) → Option { c : M.Call // M.may i s c }) :
    ℕ → M.Conf → Option M.Conf
  | 0, x => if check x = true then some x else none
  | n + 1, x =>
    if check x = true
    then (M.advance exec i choose x).bind (advances M check exec i choose n)
    else none

theorem ReachWhile.advances {check : M.Conf → Bool}
    (hexec : ∀ c a s r s', exec c a s = some (r, s') → M.sem i c a s r s')
    {n : ℕ} (h : M.advances check exec i choose n x = some y) :
    M.ReachWhile (fun c => check c = true) x y := by
  induction n generalizing x with
  | zero =>
    obtain ⟨hx, h⟩ := Option.ite_none_right_eq_some.mp h
    obtain rfl := Option.some.inj h
    exact .refl hx
  | succ n ih =>
    obtain ⟨hx, h⟩ := Option.ite_none_right_eq_some.mp h
    obtain ⟨z, hz, hrest⟩ := Option.bind_eq_some_iff.mp h
    exact .head hx (.advance hexec hz) (ih hrest)

end Advance

end Machine
