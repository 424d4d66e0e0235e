import Kucomms.Prog

/-!
# Rely–guarantee reasoning about programs of atomic actions

A program that shares its memory is correct *under interference*: whatever
the others do between two of its actions, each of its own actions finds the
memory in order and leaves it so. `RGSpec` fixes the two sides of that
bargain. The **rely** says what the others may do at any moment, the
**guarantee** what every action of the program itself amounts to, and
`safe` when an action may be performed at all.

`Prog.Wp` is the weakest precondition of a program for such a specification,
by recursion on the tree. At every node the environment moves first, so an
assertion that survives to the next action has to be *stable* under the
rely; that is the only thing the rules below ask for.

* `Wp.ret_of`, `Wp.act_of`, `Wp.bind`: the proof of a program, one action at
  a time, from stable assertions.
* `Wp.run`: a program run alone has its postcondition, so a specification
  proved under interference is also one of the sequential semantics.
* `Wp.embed`: a program proved over a small state and alphabet is correct in
  a larger system that contains them.
-/

/-- **A rely–guarantee specification** of the programs over the actions `A`
working on states `S`. -/
structure RGSpec (A : Type) (R : A → Type) (S : Type) where
  /-- What an action does: `sem a s r s'` if `a` may be answered by `r` in
  the state `s` and leave `s'`. -/
  sem : (a : A) → S → R a → S → Prop
  /-- When an action may be performed. -/
  safe : A → S → Prop
  /-- What the environment may do between two actions. -/
  rely : S → S → Prop
  /-- What an action of the program may do. -/
  guar : S → S → Prop
  /-- The environment may do nothing. -/
  rely_refl : ∀ s, rely s s
  /-- The environment may move more than once. -/
  rely_trans : ∀ {s t u}, rely s t → rely t u → rely s u

variable {A : Type} {R : A → Type} {S α β : Type}

/-- **An assertion the environment cannot break.** -/
def RGSpec.Stable (G : RGSpec A R S) (P : S → Prop) : Prop :=
  ∀ ⦃s s'⦄, P s → G.rely s s' → P s'

/-- The same specification, for programs of the actions `T`. -/
def RGSpec.only (G : RGSpec A R S) (T : A → Prop) : RGSpec A R S :=
  { G with safe := fun a s => T a ∧ G.safe a s }

namespace Prog

/-- **The weakest precondition under interference.** Before every action and
before the return the environment makes a move; the action is then safe,
keeps the guarantee and leaves a state from which the rest is correct. -/
def Wp (G : RGSpec A R S) (Q : α → S → Prop) : Prog A R α → S → Prop
  | ret a, s => ∀ s', G.rely s s' → Q a s'
  | act a k, s => ∀ s', G.rely s s' → G.safe a s' ∧
      ∀ r s'', G.sem a s' r s'' → G.guar s' s'' ∧ (k r).Wp G Q s''

variable {G : RGSpec A R S} {Q Q' : α → S → Prop} {P : S → Prop} {s s' : S}

/-- The weakest precondition is itself stable. -/
theorem Wp.stable {p : Prog A R α} (h : p.Wp G Q s) (hr : G.rely s s') :
    p.Wp G Q s' := by
  cases p with
  | ret a => exact fun t ht => h t (G.rely_trans hr ht)
  | act a k => exact fun t ht => h t (G.rely_trans hr ht)

theorem Wp.mono {p : Prog A R α} (h : p.Wp G Q s)
    (hQ : ∀ a s, Q a s → Q' a s) : p.Wp G Q' s := by
  induction p generalizing s with
  | ret a => exact fun t ht => hQ a t (h t ht)
  | act a k ih =>
    intro t ht
    obtain ⟨hsafe, hstep⟩ := h t ht
    refine ⟨hsafe, fun r u hu => ?_⟩
    obtain ⟨hguar, hwp⟩ := hstep r u hu
    exact ⟨hguar, ih r hwp⟩

/-- What a returning program has established. -/
theorem Wp.of_ret {a : α} (h : (ret a : Prog A R α).Wp G Q s) : Q a s :=
  h s (G.rely_refl s)

/-- What a program about to perform an action may rely on. -/
theorem Wp.of_act {a : A} {k : R a → Prog A R α} (h : (act a k).Wp G Q s) :
    G.safe a s ∧ ∀ r s', G.sem a s r s' → G.guar s s' ∧ (k r).Wp G Q s' :=
  h s (G.rely_refl s)

/-! ## The rules -/

/-- **Return**: a stable assertion that gives the postcondition. -/
theorem Wp.ret_of {a : α} (hP : G.Stable P) (hs : P s)
    (h : ∀ s, P s → Q a s) : (ret a : Prog A R α).Wp G Q s :=
  fun t ht => h t (hP hs ht)

/-- **One action**: a stable assertion under which the action is safe, keeps
the guarantee and makes the rest correct. -/
theorem Wp.act_of {a : A} {k : R a → Prog A R α} (hP : G.Stable P) (hs : P s)
    (h : ∀ s, P s → G.safe a s ∧
      ∀ r s', G.sem a s r s' → G.guar s s' ∧ (k r).Wp G Q s') :
    (act a k).Wp G Q s :=
  fun t ht => h t (hP hs ht)

/-- **An action that only looks**: its answer is read off the state, which it
leaves as it is. -/
theorem Wp.observe {a : A} {k : R a → Prog A R α} (obs : S → R a)
    (hsem : ∀ s r s', G.sem a s r s' → r = obs s ∧ s' = s)
    (hguar : ∀ s, G.guar s s) (hP : G.Stable P) (hs : P s)
    (h : ∀ s, P s → G.safe a s ∧ (k (obs s)).Wp G Q s) :
    (act a k).Wp G Q s := by
  refine Wp.act_of hP hs (fun t ht => ⟨(h t ht).1, fun r u hu => ?_⟩)
  obtain ⟨rfl, rfl⟩ := hsem t r u hu
  exact ⟨hguar u, (h u ht).2⟩

/-- **An action that only changes the state**, in one way. -/
theorem Wp.update {a : A} {k : R a → Prog A R α} (upd : S → S)
    (hsem : ∀ s r s', G.sem a s r s' → s' = upd s)
    (hP : G.Stable P) (hs : P s)
    (h : ∀ s, P s → G.safe a s ∧ G.guar s (upd s)
      ∧ ∀ r, (k r).Wp G Q (upd s)) :
    (act a k).Wp G Q s := by
  refine Wp.act_of hP hs (fun t ht => ⟨(h t ht).1, fun r u hu => ?_⟩)
  obtain rfl := hsem t r u hu
  exact ⟨(h t ht).2.1, (h t ht).2.2 r⟩

/-- **Sequencing**: the first program establishes what the second needs. -/
theorem Wp.bind {p : Prog A R α} {f : α → Prog A R β} {Q : β → S → Prop}
    (h : p.Wp G (fun a s => (f a).Wp G Q s) s) : (p >>= f).Wp G Q s := by
  induction p generalizing s with
  | ret a => exact h.of_ret
  | act a k ih =>
    intro t ht
    obtain ⟨hsafe, hstep⟩ := h t ht
    refine ⟨hsafe, fun r u hu => ?_⟩
    obtain ⟨hguar, hwp⟩ := hstep r u hu
    exact ⟨hguar, ih r hwp⟩

/-- **A program whose actions all keep an assertion.** -/
theorem Wp.all {T : A → Prop} {p : Prog A R α} (hp : p.All T)
    (hP : G.Stable P) (hT : ∀ a s, T a → P s → G.safe a s
      ∧ ∀ r s', G.sem a s r s' → G.guar s s' ∧ P s')
    (hs : P s) : p.Wp G (fun _ s => P s) s := by
  induction p generalizing s with
  | ret a => exact Wp.ret_of hP hs (fun _ h => h)
  | act a k ih =>
    refine Wp.act_of hP hs (fun t ht => ?_)
    obtain ⟨hsafe, hstep⟩ := hT a t hp.1 ht
    refine ⟨hsafe, fun r u hu => ?_⟩
    obtain ⟨hguar, hPu⟩ := hstep r u hu
    exact ⟨hguar, ih r (hp.2 r) hPu⟩

/-- **What actions a program is made of** may be counted as safety. -/
theorem Wp.only {T : A → Prop} {p : Prog A R α} (hp : p.All T)
    (h : p.Wp G Q s) : p.Wp (G.only T) Q s := by
  induction p generalizing s with
  | ret a => exact h
  | act a k ih =>
    intro t ht
    obtain ⟨hsafe, hstep⟩ := h t ht
    refine ⟨⟨hp.1, hsafe⟩, fun r u hu => ?_⟩
    obtain ⟨hguar, hwp⟩ := hstep r u hu
    exact ⟨hguar, ih r (hp.2 r) hwp⟩

/-- **What it returns whatever happens** it returns here. -/
theorem Wp.returns {T : α → Prop} {p : Prog A R α} (hp : p.Returns T)
    (h : p.Wp G Q s) : p.Wp G (fun a s => T a ∧ Q a s) s := by
  induction p generalizing s with
  | ret a => exact fun t ht => ⟨hp, h t ht⟩
  | act a k ih =>
    intro t ht
    obtain ⟨hsafe, hstep⟩ := h t ht
    refine ⟨hsafe, fun r u hu => ?_⟩
    obtain ⟨hguar, hwp⟩ := hstep r u hu
    exact ⟨hguar, ih r (hp r) hwp⟩

/-! ## The same program run alone, and in a larger system -/

/-- **Without interference**: if `exec` performs actions as the
specification allows, the run ends in the postcondition, and all it did to
the state is a chain of guarantees. -/
theorem Wp.run (exec : (a : A) → S → R a × S)
    (hexec : ∀ a s, G.sem a s (exec a s).1 (exec a s).2) {p : Prog A R α}
    (h : p.Wp G Q s) :
    Q (p.run exec s).1 (p.run exec s).2
      ∧ Relation.ReflTransGen G.guar s (p.run exec s).2 := by
  induction p generalizing s with
  | ret a => exact ⟨h.of_ret, .refl⟩
  | act a k ih =>
    obtain ⟨-, hstep⟩ := h.of_act
    obtain ⟨hguar, hwp⟩ := hstep _ _ (hexec a s)
    obtain ⟨hQ, hchain⟩ := ih _ hwp
    exact ⟨hQ, .head hguar hchain⟩

/-- **A program inside a larger system.** The larger state is read through
`view`, the actions are performed as `f a`, and `F` is what the larger
system asserts beside the program: an assertion its own environment and the
program's actions, which are safe, keep. -/
theorem Wp.embed {A' S' : Type} {R' : A' → Type} (G' : RGSpec A' R' S')
    (f : A → A') (g : ∀ a, R' (f a) → R a) (view : S' → S) (F : S' → Prop)
    (hsafe : ∀ a s, F s → G.safe a (view s) → G'.safe (f a) s)
    (hsem : ∀ a s r s', F s → G.safe a (view s) → G'.sem (f a) s r s' →
      G.sem a (view s) (g a r) (view s')
        ∧ (G.guar (view s) (view s') → G'.guar s s' ∧ F s'))
    (hrely : ∀ s s', F s → G'.rely s s' → G.rely (view s) (view s') ∧ F s')
    {p : Prog A R α} {s : S'} (hF : F s) (h : p.Wp G Q (view s)) :
    (p.embed f g).Wp G' (fun v s => Q v (view s) ∧ F s) s := by
  induction p generalizing s with
  | ret a =>
    intro t ht
    obtain ⟨hr, hFt⟩ := hrely s t hF ht
    exact ⟨h _ hr, hFt⟩
  | act a k ih =>
    intro t ht
    obtain ⟨hr, hFt⟩ := hrely s t hF ht
    obtain ⟨hs, hstep⟩ := h _ hr
    refine ⟨hsafe a t hFt hs, fun r u hu => ?_⟩
    obtain ⟨hsem', hkeep⟩ := hsem a t r u hFt hs hu
    obtain ⟨hguar, hwp⟩ := hstep _ _ hsem'
    obtain ⟨hguar', hFu⟩ := hkeep hguar
    exact ⟨hguar', ih _ hFu hwp⟩

/-- **A program that only reads** a part `v` of the larger state: while an
assertion keeps that part as it is, the program returns what it returns when
run on it alone. -/
theorem Wp.reads {A' S' V : Type} {R' : A' → Type} (G' : RGSpec A' R' S')
    (exec : (a : A) → V → R a × V) (v : V) {T : A → Prop}
    (hT : ∀ a, T a → (exec a v).2 = v) {f : A → A'}
    {g : ∀ a, R' (f a) → R a} {P : S' → Prop} (hP : G'.Stable P)
    (h : ∀ a s, T a → P s → G'.safe (f a) s
      ∧ ∀ r s', G'.sem (f a) s r s' →
        g a r = (exec a v).1 ∧ G'.guar s s' ∧ P s')
    {p : Prog A R α} (hp : p.All T) {s : S'} (hs : P s) :
    (p.embed f g).Wp G' (fun w s => w = (p.run exec v).1 ∧ P s) s := by
  induction p generalizing s with
  | ret a => exact Wp.ret_of hP hs (fun _ ht => ⟨rfl, ht⟩)
  | act a k ih =>
    refine Wp.act_of hP hs (fun t ht => ?_)
    obtain ⟨hsafe, hstep⟩ := h a t hp.1 ht
    refine ⟨hsafe, fun r u hu => ?_⟩
    obtain ⟨hr, hguar, hPu⟩ := hstep r u hu
    refine ⟨hguar, ?_⟩
    rw [run_act, hr, hT a hp.1]
    exact ih _ (hp.2 _) hPu

/-- Embedding a program in its own alphabet does nothing. -/
@[simp] theorem embed_id (p : Prog A R α) :
    p.embed id (fun _ r => r) = p := by
  induction p with
  | ret a => rfl
  | act a k ih => exact congrArg (act a) (funext ih)

/-- The case of `Wp.embed` where only the state is larger. -/
theorem Wp.view {S' : Type} (G' : RGSpec A R S') (view : S' → S)
    (F : S' → Prop)
    (hsafe : ∀ a s, F s → G.safe a (view s) → G'.safe a s)
    (hsem : ∀ a s r s', F s → G.safe a (view s) → G'.sem a s r s' →
      G.sem a (view s) r (view s')
        ∧ (G.guar (view s) (view s') → G'.guar s s' ∧ F s'))
    (hrely : ∀ s s', F s → G'.rely s s' → G.rely (view s) (view s') ∧ F s')
    {p : Prog A R α} {s : S'} (hF : F s) (h : p.Wp G Q (view s)) :
    p.Wp G' (fun v s => Q v (view s) ∧ F s) s := by
  have := Wp.embed G' id (fun _ r => r) view F hsafe hsem hrely hF h
  rwa [embed_id] at this

-- from here on only the rules open a precondition
attribute [irreducible] Wp

end Prog
