import Mathlib.Data.Nat.Notation
import Mathlib.Logic.Relation

/-!
# Programs of atomic actions

A C function that works on memory shared with other threads is more than
the state it ends in: between two of its accesses anything the other
threads do may happen. `Prog` keeps the accesses apart. A program is a tree
whose nodes are *atomic actions* – a load, a store, the copy of one byte, a
lock attempt – and whose branches are the answers an action may get; what
happens between two actions is ordinary computation.

One tree serves every reading of the function. `Prog.run` executes it alone,
one action after the other, which is the sequential semantics;
`Kucomms.Machine` interleaves the trees of several threads; and
`Kucomms.RelyGuarantee` has the rules that prove a tree correct whatever
happens between its actions.

Nothing here mentions what the actions are. `A` is the alphabet of actions
and `R a` the type of the answers to `a`.
-/

/-- **A program over the actions `A`**, where the action `a` is answered by
an element of `R a`: it returns, or it performs an action and continues
according to the answer. -/
inductive Prog (A : Type) (R : A → Type) (α : Type) : Type where
  /-- Return a value. -/
  | ret (a : α) : Prog A R α
  /-- Perform the action `a`, then continue with its answer. -/
  | act (a : A) (k : R a → Prog A R α) : Prog A R α

namespace Prog

variable {A : Type} {R : A → Type} {S α β γ : Type}

/-- Sequencing: the second program starts where the first one returns. -/
protected def bind : Prog A R α → (α → Prog A R β) → Prog A R β
  | ret a, f => f a
  | act a k, f => act a (fun r => (k r).bind f)

instance : Monad (Prog A R) where
  pure := ret
  bind := Prog.bind

@[simp] theorem pure_eq_ret (a : α) : (pure a : Prog A R α) = ret a := rfl

@[simp] theorem ret_bind (a : α) (f : α → Prog A R β) :
    (ret a : Prog A R α) >>= f = f a := rfl

@[simp] theorem act_bind (a : A) (k : R a → Prog A R α)
    (f : α → Prog A R β) :
    (act a k : Prog A R α) >>= f = act a (fun r => k r >>= f) := rfl

@[simp] theorem bind_ret (p : Prog A R α) : p >>= ret = p := by
  induction p with
  | ret a => rfl
  | act a k ih => exact congrArg (act a) (funext ih)

@[simp] theorem bind_assoc (p : Prog A R α) (f : α → Prog A R β)
    (g : β → Prog A R γ) : p >>= f >>= g = p >>= fun a => f a >>= g := by
  induction p with
  | ret a => rfl
  | act a k ih => exact congrArg (act a) (funext ih)

/-- The program that performs one action and returns its answer. -/
def perform (a : A) : Prog A R (R a) := act a ret

@[simp] theorem perform_bind (a : A) (f : R a → Prog A R β) :
    perform a >>= f = act a f := rfl

/-! ## Running a program alone -/

/-- **The sequential semantics**: every action is executed at once on the
state, with nothing in between. -/
def run (exec : (a : A) → S → R a × S) : Prog A R α → S → α × S
  | ret a, s => (a, s)
  | act a k, s => (k (exec a s).1).run exec (exec a s).2

@[simp] theorem run_ret (exec : (a : A) → S → R a × S) (a : α) (s : S) :
    (ret a : Prog A R α).run exec s = (a, s) := rfl

@[simp] theorem run_act (exec : (a : A) → S → R a × S) (a : A)
    (k : R a → Prog A R α) (s : S) :
    (act a k).run exec s = (k (exec a s).1).run exec (exec a s).2 := rfl

/-- Running a sequence runs its second part from where the first ended. -/
@[simp] theorem run_bind (exec : (a : A) → S → R a × S) (p : Prog A R α)
    (f : α → Prog A R β) (s : S) :
    (p >>= f).run exec s
      = (f (p.run exec s).1).run exec (p.run exec s).2 := by
  induction p generalizing s with
  | ret a => rfl
  | act a k ih => exact ih _ _

/-- Running a branch runs the program that is taken. -/
theorem run_ite (exec : (a : A) → S → R a × S) (c : Prop) [Decidable c]
    (p q : Prog A R α) (s : S) :
    (if c then p else q).run exec s
      = if c then p.run exec s else q.run exec s := by
  split <;> rfl

/-- **The first `n` actions** executed: what is left of the program, and the
state. -/
def steps (exec : (a : A) → S → R a × S) :
    ℕ → Prog A R α → S → Prog A R α × S
  | 0, p, s => (p, s)
  | _ + 1, ret a, s => (ret a, s)
  | n + 1, act a k, s => steps exec n (k (exec a s).1) (exec a s).2

/-- The same where an action may not be possible: `none` if the `n` actions
are not. -/
def trySteps (exec : (a : A) → S → Option (R a × S)) :
    ℕ → Prog A R α → S → Option (Prog A R α × S)
  | 0, p, s => some (p, s)
  | _ + 1, ret a, s => some (ret a, s)
  | n + 1, act a k, s =>
    (exec a s).bind (fun x => trySteps exec n (k x.1) x.2)

/-- All actions executed, if they are possible. -/
def tryRun (exec : (a : A) → S → Option (R a × S)) :
    Prog A R α → S → Option (α × S)
  | ret a, s => some (a, s)
  | act a k, s => (exec a s).bind (fun x => tryRun exec (k x.1) x.2)

/-! ## Programs with few kinds of actions -/

/-- **All actions of a program** are of a kind. -/
def All (P : A → Prop) : Prog A R α → Prop
  | ret _ => True
  | act a k => P a ∧ ∀ r, (k r).All P

theorem All.bind {P : A → Prop} {p : Prog A R α} {f : α → Prog A R β}
    (hp : p.All P) (hf : ∀ a, (f a).All P) : (p >>= f).All P := by
  induction p with
  | ret a => exact hf a
  | act a k ih => exact ⟨hp.1, fun r => ih r (hp.2 r)⟩

theorem All.ite {P : A → Prop} {c : Prop} [Decidable c] {p q : Prog A R α}
    (hp : p.All P) (hq : q.All P) : (if c then p else q).All P := by
  split
  · exact hp
  · exact hq

theorem All.mono {P P' : A → Prop} {p : Prog A R α} (h : p.All P)
    (hP : ∀ a, P a → P' a) : p.All P' := by
  induction p with
  | ret v => trivial
  | act a k ih => exact ⟨hP a h.1, fun r => ih r (h.2 r)⟩

theorem All.of_forall {P : A → Prop} (h : ∀ a, P a) (p : Prog A R α) :
    p.All P := by
  induction p with
  | ret a => trivial
  | act a k ih => exact ⟨h a, ih⟩

/-- **What a program returns** is of a kind, whatever its actions are answered
by. -/
def Returns (T : α → Prop) : Prog A R α → Prop
  | ret a => T a
  | act _ k => ∀ r, (k r).Returns T

theorem Returns.bind {T : β → Prop} {f : α → Prog A R β}
    (hf : ∀ a, (f a).Returns T) (p : Prog A R α) : (p >>= f).Returns T := by
  induction p with
  | ret a => exact hf a
  | act a k ih => exact ih

theorem Returns.ite {T : α → Prop} {c : Prop} [Decidable c]
    {p q : Prog A R α} (hp : p.Returns T) (hq : q.Returns T) :
    (if c then p else q).Returns T := by
  split
  · exact hp
  · exact hq

/-- **The same run in a larger state**: where the actions of a program are
answered alike, and do the same to the part that `f` shows. -/
theorem All.run_proj {S' : Type} {P : A → Prop} {p : Prog A R α}
    {exec : (a : A) → S → R a × S} {exec' : (a : A) → S' → R a × S'}
    {f : S' → S} (hp : p.All P)
    (h : ∀ a s, P a → (exec a (f s)) = ((exec' a s).1, f (exec' a s).2))
    (s : S') : p.run exec (f s) = ((p.run exec' s).1, f (p.run exec' s).2) := by
  induction p generalizing s with
  | ret v => rfl
  | act a k ih =>
    show (k (exec a (f s)).1).run exec (exec a (f s)).2 = _
    rw [h a s hp.1]
    exact ih _ (hp.2 _) _

/-! ## A program inside a larger alphabet -/

/-- **The same program over a larger alphabet**: every action `a` is
performed as `f a`, and the answer to `f a` is read back by `g`. -/
def embed {A' : Type} {R' : A' → Type} (f : A → A')
    (g : ∀ a, R' (f a) → R a) : Prog A R α → Prog A' R' α
  | ret a => ret a
  | act a k => act (f a) (fun r => (k (g a r)).embed f g)

section Embed

variable {A' : Type} {R' : A' → Type}

@[simp] theorem embed_bind (f : A → A') (g : ∀ a, R' (f a) → R a)
    (p : Prog A R α) (q : α → Prog A R β) :
    (p >>= q).embed f g = p.embed f g >>= fun a => (q a).embed f g := by
  induction p with
  | ret a => rfl
  | act a k ih => exact congrArg (act (f a)) (funext fun r => ih (g a r))

/-- The actions of an embedded program are those of the alphabet it comes
from. -/
theorem All.embed {P : A' → Prop} {f : A → A'} {g : ∀ a, R' (f a) → R a}
    (h : ∀ a, P (f a)) (p : Prog A R α) : (p.embed f g).All P := by
  induction p with
  | ret a => trivial
  | act a k ih => exact ⟨h a, fun r => ih _⟩

end Embed

end Prog
