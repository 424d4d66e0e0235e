import Mathlib.Logic.Function.Basic
import Kucomms.RelyGuarantee

/-!
# Threads that interleave their actions

A `Machine` is a system of threads, each of which calls one program after
the other on a common state, and a configuration of it says of every thread
which call it is in and what is left of that call. A step is taken by one
thread: it begins a call it may make, performs the next action of the one it
is in, or returns from it. Every interleaving of the threads' actions is a
sequence of steps, and nothing else is.

What a thread called, and what was returned to it, is recorded by the
machine itself (`onCall`, `onRet`), so that a property of histories is a
property of states.

`Machine.Outline` is a proof of the system in the style of rely and
guarantee: one assertion per thread while it is idle, one postcondition per
call, and for every call a proof of its program under the interference of
the others. `Outline.reach` is the soundness of that style, and the only
induction over runs a system needs.
-/

/-- **A system of threads** `ι` sharing a state `S`. -/
structure Machine (ι A : Type) (R : A → Type) (S : Type) where
  /-- The calls threads make. -/
  Call : Type
  /-- What a call returns. -/
  Ret : Call → Type
  /-- The program a call runs. -/
  prog : (c : Call) → Prog A R (Ret c)
  /-- The calls a thread may begin, by the state. -/
  may : ι → S → Call → Prop
  /-- What is recorded when a call begins. -/
  onCall : ι → Call → S → S
  /-- What an action performed by a thread inside a call does. -/
  sem : ι → Call → (a : A) → S → R a → S → Prop
  /-- What is recorded when a call returns. -/
  onRet : ι → (c : Call) → Ret c → S → S

namespace Machine

variable {ι A : Type} {R : A → Type} {S : Type}

/-- What is left of the call a thread is in, if it is in one. -/
abbrev Pc (M : Machine ι A R S) : Type :=
  Option ((c : M.Call) × Prog A R (M.Ret c))

/-- **A configuration**: the shared state, and where every thread is. -/
structure Conf (M : Machine ι A R S) where
  /-- The shared state. -/
  st : S
  /-- Where each thread is. -/
  pc : ι → M.Pc

/-- The configuration in which every thread is idle. -/
def start (M : Machine ι A R S) (s : S) : M.Conf := ⟨s, fun _ => none⟩

variable [DecidableEq ι]

/-- **A step** of the thread `i`. -/
inductive Step (M : Machine ι A R S) (i : ι) : M.Conf → M.Conf → Prop where
  /-- The thread begins a call. -/
  | call {s : S} {pc : ι → M.Pc} (c : M.Call) (hpc : pc i = none)
      (hmay : M.may i s c) :
      Step M i ⟨s, pc⟩
        ⟨M.onCall i c s, Function.update pc i (some ⟨c, M.prog c⟩)⟩
  /-- The thread performs the next action of its call. -/
  | act {s s' : S} {pc : ι → M.Pc} {c : M.Call} {a : A}
      {k : R a → Prog A R (M.Ret c)} {r : R a}
      (hpc : pc i = some ⟨c, .act a k⟩) (hsem : M.sem i c a s r s') :
      Step M i ⟨s, pc⟩ ⟨s', Function.update pc i (some ⟨c, k r⟩)⟩
  /-- The thread returns from its call. -/
  | ret {s : S} {pc : ι → M.Pc} {c : M.Call} {v : M.Ret c}
      (hpc : pc i = some ⟨c, .ret v⟩) :
      Step M i ⟨s, pc⟩ ⟨M.onRet i c v s, Function.update pc i none⟩

/-- **Reachability**: any number of steps, each of any thread. -/
inductive Reach (M : Machine ι A R S) (x : M.Conf) : M.Conf → Prop where
  | refl : Reach M x x
  | step {y z : M.Conf} (i : ι) (h : Reach M x y) (hs : M.Step i y z) :
      Reach M x z

variable {M : Machine ι A R S}

theorem Reach.trans {x y z : M.Conf} (h : M.Reach x y) (h' : M.Reach y z) :
    M.Reach x z := by
  induction h' with
  | refl => exact h
  | step i _ hs ih => exact .step i ih hs

/-- **A call left alone**: when its actions are executed by `exec`, the thread
inside it gets to its return in the state in which it ends alone. -/
theorem Reach.run {i : ι} {c : M.Call} {exec : (a : A) → S → R a × S}
    (hexec : ∀ a s, M.sem i c a s (exec a s).1 (exec a s).2)
    {p : Prog A R (M.Ret c)} {s : S} {pc : ι → M.Pc} :
    M.Reach ⟨s, Function.update pc i (some ⟨c, p⟩)⟩
      ⟨(p.run exec s).2,
        Function.update pc i (some ⟨c, .ret (p.run exec s).1⟩)⟩ := by
  induction p generalizing s pc with
  | ret v => exact .refl
  | act a k ih =>
    have hstep : M.Step i ⟨s, Function.update pc i (some ⟨c, .act a k⟩)⟩
        ⟨(exec a s).2, Function.update (Function.update pc i _) i
          (some ⟨c, k (exec a s).1⟩)⟩ :=
      .act (Function.update_self ..) (hexec a s)
    rw [Function.update_idem] at hstep
    exact .trans (.step i .refl hstep) (ih _)

/-- A whole call made by an idle thread with nothing in between. -/
theorem Reach.call {i : ι} (c : M.Call) (exec : (a : A) → S → R a × S)
    (hexec : ∀ a s, M.sem i c a s (exec a s).1 (exec a s).2)
    {s : S} {pc : ι → M.Pc} (hpc : pc i = none) (hmay : M.may i s c) :
    M.Reach ⟨s, pc⟩
      ⟨M.onRet i c ((M.prog c).run exec (M.onCall i c s)).1
        ((M.prog c).run exec (M.onCall i c s)).2, pc⟩ := by
  have hend : Function.update (Function.update pc i
      (some ⟨c, .ret ((M.prog c).run exec (M.onCall i c s)).1⟩)) i none
      = pc := by
    rw [Function.update_idem, ← hpc, Function.update_eq_self]
  have hret := Step.ret (M := M) (i := i) (c := c)
    (s := ((M.prog c).run exec (M.onCall i c s)).2) (Function.update_self i
      (some ⟨c, .ret ((M.prog c).run exec (M.onCall i c s)).1⟩) pc)
  rw [hend] at hret
  exact .step i (.trans (.step i .refl (.call c hpc hmay))
    (Reach.run hexec)) hret

/-- The next `n` actions of a thread inside a call, executed by `exec` where
they are possible. -/
theorem Reach.trySteps {i : ι} {c : M.Call}
    {exec : (a : A) → S → Option (R a × S)}
    (hexec : ∀ a s r s', exec a s = some (r, s') → M.sem i c a s r s')
    {n : ℕ} {p p' : Prog A R (M.Ret c)} {s s' : S} {pc : ι → M.Pc}
    (h : p.trySteps exec n s = some (p', s')) :
    M.Reach ⟨s, Function.update pc i (some ⟨c, p⟩)⟩
      ⟨s', Function.update pc i (some ⟨c, p'⟩)⟩ := by
  induction n generalizing p s with
  | zero =>
    obtain ⟨rfl, rfl⟩ := Prod.mk.inj (Option.some.inj h)
    exact .refl
  | succ n ih =>
    cases p with
    | ret v =>
      obtain ⟨rfl, rfl⟩ := Prod.mk.inj (Option.some.inj h)
      exact .refl
    | act a k =>
      obtain ⟨⟨r, t⟩, hr, hrest⟩ := Option.bind_eq_some_iff.mp h
      have hstep : M.Step i ⟨s, Function.update pc i (some ⟨c, .act a k⟩)⟩
          ⟨t, Function.update (Function.update pc i _) i (some ⟨c, k r⟩)⟩ :=
        .act (Function.update_self ..) (hexec a s r t hr)
      rw [Function.update_idem] at hstep
      exact .trans (.step i .refl hstep) (ih hrest)

/-- The same for all actions a call has left. -/
theorem Reach.tryRun {i : ι} {c : M.Call}
    {exec : (a : A) → S → Option (R a × S)}
    (hexec : ∀ a s r s', exec a s = some (r, s') → M.sem i c a s r s')
    {p : Prog A R (M.Ret c)} {v : M.Ret c} {s s' : S} {pc : ι → M.Pc}
    (h : p.tryRun exec s = some (v, s')) :
    M.Reach ⟨s, Function.update pc i (some ⟨c, p⟩)⟩
      ⟨s', Function.update pc i (some ⟨c, .ret v⟩)⟩ := by
  induction p generalizing s with
  | ret a =>
    obtain ⟨rfl, rfl⟩ := Prod.mk.inj (Option.some.inj h)
    exact .refl
  | act a k ih =>
    obtain ⟨⟨r, t⟩, hr, hrest⟩ := Option.bind_eq_some_iff.mp h
    have hstep : M.Step i ⟨s, Function.update pc i (some ⟨c, .act a k⟩)⟩
        ⟨t, Function.update (Function.update pc i _) i (some ⟨c, k r⟩)⟩ :=
      .act (Function.update_self ..) (hexec a s r t hr)
    rw [Function.update_idem] at hstep
    exact .trans (.step i .refl hstep) (ih r hrest)

/-! ## Schedules -/

/-- **A command of a schedule**, to one thread. -/
inductive Cmd (M : Machine ι A R S) where
  /-- Begin the call that is chosen in the state. -/
  | call (i : ι) (choose : (s : S) → Option { c : M.Call // M.may i s c })
  /-- Perform the next `n` actions. -/
  | acts (i : ι) (n : ℕ)
  /-- Perform all actions that are left, and return. -/
  | finish (i : ι)

/-- What a command does, if it is possible: `exec` says how actions are
performed. -/
def perform (M : Machine ι A R S)
    (exec : ι → M.Call → (a : A) → S → Option (R a × S)) (x : M.Conf) :
    M.Cmd → Option M.Conf
  | .call i choose =>
    match x.pc i with
    | none => (choose x.st).map (fun c =>
      ⟨M.onCall i c.1 x.st, Function.update x.pc i (some ⟨c.1, M.prog c.1⟩)⟩)
    | some _ => none
  | .acts i n =>
    match x.pc i with
    | none => none
    | some ⟨c, p⟩ => (p.trySteps (exec i c) n x.st).map (fun y =>
      ⟨y.2, Function.update x.pc i (some ⟨c, y.1⟩)⟩)
  | .finish i =>
    match x.pc i with
    | none => none
    | some ⟨c, p⟩ => (p.tryRun (exec i c) x.st).map (fun y =>
      ⟨M.onRet i c y.1 y.2, Function.update x.pc i none⟩)

/-- **A command is steps of the machine.** -/
theorem Reach.perform {exec : ι → M.Call → (a : A) → S → Option (R a × S)}
    (hexec : ∀ i c a s r s', exec i c a s = some (r, s') →
      M.sem i c a s r s')
    {cmd : M.Cmd} {x y : M.Conf} (h : M.perform exec x cmd = some y) :
    M.Reach x y := by
  obtain ⟨s, pc⟩ := x
  cases cmd with
  | call i choose =>
    cases hpc : pc i with
    | none =>
      simp only [Machine.perform, hpc] at h
      obtain ⟨⟨c, hmay⟩, -, rfl⟩ := Option.map_eq_some_iff.mp h
      exact .step i .refl (.call c hpc hmay)
    | some q =>
      simp only [Machine.perform, hpc] at h
      exact nomatch h
  | acts i n =>
    cases hpc : pc i with
    | none =>
      simp only [Machine.perform, hpc] at h
      exact nomatch h
    | some q =>
      simp only [Machine.perform, hpc] at h
      obtain ⟨⟨p', s'⟩, hsteps, rfl⟩ := Option.map_eq_some_iff.mp h
      have hreach : M.Reach ⟨s, Function.update pc i _⟩ _ :=
        Reach.trySteps (hexec i q.1) hsteps
      rwa [Function.update_eq_self_iff.mpr hpc.symm] at hreach
  | finish i =>
    cases hpc : pc i with
    | none =>
      simp only [Machine.perform, hpc] at h
      exact nomatch h
    | some q =>
      simp only [Machine.perform, hpc] at h
      obtain ⟨⟨v, s'⟩, hrun, rfl⟩ := Option.map_eq_some_iff.mp h
      have hreach : M.Reach ⟨s, Function.update pc i _⟩ _ :=
        Reach.tryRun (hexec i q.1) hrun
      rw [Function.update_eq_self_iff.mpr hpc.symm] at hreach
      have hret := Step.ret (M := M) (i := i) (c := q.1) (s := s')
        (Function.update_self i (some ⟨q.1, .ret v⟩) pc)
      rw [Function.update_idem] at hret
      exact .step i hreach hret

/-- **What a schedule leads to** is reachable. -/
theorem Reach.schedule {exec : ι → M.Call → (a : A) → S → Option (R a × S)}
    (hexec : ∀ i c a s r s', exec i c a s = some (r, s') →
      M.sem i c a s r s')
    {cmds : List M.Cmd} {x y : M.Conf}
    (h : cmds.foldlM (M.perform exec) x = some y) : M.Reach x y := by
  induction cmds generalizing x with
  | nil =>
    obtain rfl := Option.some.inj h
    exact .refl
  | cons cmd cmds ih =>
    obtain ⟨z, hz, hrest⟩ := Option.bind_eq_some_iff.mp h
    exact .trans (Reach.perform hexec hz) (ih hrest)

/-- **A proof outline** of a system, in the style of rely and guarantee. -/
structure Outline (M : Machine ι A R S) where
  /-- What the others may do to a thread's state at any moment. -/
  rely : ι → S → S → Prop
  /-- What every step of a thread amounts to. -/
  guar : ι → S → S → Prop
  /-- When a thread may perform an action of a call. -/
  safe : ι → M.Call → A → S → Prop
  /-- What holds while a thread is idle. -/
  idle : ι → S → Prop
  /-- What holds when a call is about to return. -/
  post : ι → (c : M.Call) → M.Ret c → S → Prop
  rely_refl : ∀ i s, rely i s s
  rely_trans : ∀ i {s t u}, rely i s t → rely i t u → rely i s u
  /-- The threads keep to the bargain. -/
  guar_rely : ∀ {i j s s'}, i ≠ j → guar i s s' → rely j s s'
  idle_stable : ∀ {i s s'}, idle i s → rely i s s' → idle i s'
  /-- A call begins in order, and its program is correct. -/
  call_ok : ∀ {i s c}, idle i s → M.may i s c →
    guar i s (M.onCall i c s) ∧
      (M.prog c).Wp ⟨M.sem i c, safe i c, rely i, guar i, rely_refl i,
        rely_trans i⟩ (post i c) (M.onCall i c s)
  /-- A call that returns leaves its thread idle. -/
  ret_ok : ∀ {i s c v}, post i c v s →
    guar i s (M.onRet i c v s) ∧ idle i (M.onRet i c v s)

namespace Outline

variable {M : Machine ι A R S} (O : M.Outline)

/-- The specification a thread meets inside a call. -/
def spec (i : ι) (c : M.Call) : RGSpec A R S :=
  ⟨M.sem i c, O.safe i c, O.rely i, O.guar i, O.rely_refl i, O.rely_trans i⟩

/-- **What the outline asserts of a thread**, wherever it is. -/
def Holds (i : ι) : M.Pc → S → Prop
  | none, s => O.idle i s
  | some ⟨c, p⟩, s => p.Wp (O.spec i c) (O.post i c) s

variable {O}

omit [DecidableEq ι] in
/-- What is asserted of a thread survives the steps of the others. -/
theorem Holds.stable {i : ι} {x : M.Pc} {s s' : S} (h : O.Holds i x s)
    (hr : O.rely i s s') : O.Holds i x s' := by
  match x, h with
  | none, h => exact O.idle_stable h hr
  | some ⟨c, p⟩, h => exact Prog.Wp.stable h hr

/-- A step keeps the guarantee of its thread and what is asserted of it. -/
theorem Holds.step {i : ι} {x y : M.Conf} (h : O.Holds i (x.pc i) x.st)
    (hs : M.Step i x y) :
    O.guar i x.st y.st ∧ O.Holds i (y.pc i) y.st := by
  cases hs with
  | call c hpc hmay =>
    simp only [hpc] at h
    simp only [Function.update_self]
    exact O.call_ok h hmay
  | act hpc hsem =>
    simp only [hpc] at h
    simp only [Function.update_self]
    exact (Prog.Wp.of_act h).2 _ _ hsem
  | ret hpc =>
    simp only [hpc] at h
    simp only [Function.update_self]
    exact O.ret_ok (Prog.Wp.of_ret h)

end Outline

/-- A step of one thread leaves the others where they are. -/
theorem Step.pc_ne {M : Machine ι A R S} {i j : ι} {x y : M.Conf}
    (hs : M.Step i x y) (hij : j ≠ i) : y.pc j = x.pc j := by
  cases hs <;> exact Function.update_of_ne hij _ _

/-- **Soundness of proof outlines**: what an outline asserts of the threads
holds in every configuration any interleaving reaches. -/
theorem Outline.reach {M : Machine ι A R S} (O : M.Outline) {x y : M.Conf}
    (h0 : ∀ i, O.Holds i (x.pc i) x.st) (h : M.Reach x y) :
    ∀ i, O.Holds i (y.pc i) y.st := by
  induction h with
  | refl => exact h0
  | step i _ hs ih =>
    intro j
    obtain ⟨hguar, hown⟩ := (ih i).step hs
    by_cases hij : j = i
    · exact hij ▸ hown
    · rw [hs.pc_ne hij]
      exact (ih j).stable (O.guar_rely (fun h => hij h.symm) hguar)

namespace Outline

variable {M : Machine ι A R S} (O : M.Outline) {s : S} {x y : M.Conf}

/-- The outline from a start in which every thread may be idle. -/
theorem reach_start (h0 : ∀ i, O.idle i s) (h : M.Reach (M.start s) x)
    (i : ι) : O.Holds i (x.pc i) x.st :=
  O.reach (x := M.start s) h0 h i

/-- Every step a reachable configuration makes keeps its guarantee. -/
theorem guar_of_reach (h0 : ∀ i, O.idle i s) (h : M.Reach (M.start s) x)
    {i : ι} (hs : M.Step i x y) : O.guar i x.st y.st :=
  ((O.reach_start h0 h i).step hs).1

/-- What every guarantee keeps holds throughout. -/
theorem invariant {I : S → Prop}
    (hI : ∀ {i s s'}, O.guar i s s' → I s → I s')
    (h0 : ∀ i, O.idle i s) (hs : I s) (h : M.Reach (M.start s) x) :
    I x.st := by
  induction h with
  | refl => exact hs
  | step i h hstep ih => exact hI (O.guar_of_reach h0 h hstep) ih

/-- Every action about to be performed is safe. -/
theorem safe_of_reach (h0 : ∀ i, O.idle i s) (h : M.Reach (M.start s) x)
    {i : ι} {c : M.Call} {a : A} {k : R a → Prog A R (M.Ret c)}
    (hpc : x.pc i = some ⟨c, .act a k⟩) : O.safe i c a x.st := by
  have hi := O.reach_start h0 h i
  rw [hpc] at hi
  exact (Prog.Wp.of_act hi).1

/-- Every call about to return has its postcondition. -/
theorem post_of_reach (h0 : ∀ i, O.idle i s) (h : M.Reach (M.start s) x)
    {i : ι} {c : M.Call} {v : M.Ret c} (hpc : x.pc i = some ⟨c, .ret v⟩) :
    O.post i c v x.st := by
  have hi := O.reach_start h0 h i
  rw [hpc] at hi
  exact Prog.Wp.of_ret hi

/-- Every idle thread is as the outline says. -/
theorem idle_of_reach (h0 : ∀ i, O.idle i s) (h : M.Reach (M.start s) x)
    {i : ι} (hpc : x.pc i = none) : O.idle i x.st := by
  have hi := O.reach_start h0 h i
  rwa [hpc] at hi

end Outline

end Machine
