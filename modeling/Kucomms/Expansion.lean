import Kucomms.RelyGuarantee

/-!
# Actions that are programs

An action of one level is a function of the next. `Prog.expand` puts a
program in the place of every action, and `Wp.expand` is the rule that goes
with it: a program that is correct while its actions are atomic is correct
when they are not, if every action, whatever the environment does while it
is under way, comes to what it is said to do *at one moment* of the time it
takes. The two levels see different states; what relates them may be any
relation, so the upper one may know things that the lower one does not
record.

`Prog.Reading` is the other thing that happens to a program on the way down:
reads are put in between its actions, of memory whose content is known. They
make no difference (`Wp.reading`).

At the upper level there may be nobody else. `RGSpec.alone` is the
specification of a program that nobody interferes with, and its rules are
those of a sequential program.
-/

namespace Prog

variable {A A' : Type} {R : A → Type} {R' : A' → Type} {S S' α β : Type}

/-! ## Putting programs in the place of actions -/

/-- **Every action `a` replaced by the program `f a`.** -/
def expand (f : (a : A) → Prog A' R' (R a)) : Prog A R α → Prog A' R' α
  | ret v => ret v
  | act a k => f a >>= fun r => (k r).expand f

section Expand

variable (f : (a : A) → Prog A' R' (R a))

@[simp] theorem expand_ret (v : α) : (ret v : Prog A R α).expand f = ret v :=
  rfl

@[simp] theorem expand_act (a : A) (k : R a → Prog A R α) :
    (act a k).expand f = f a >>= fun r => (k r).expand f := rfl

@[simp] theorem expand_bind (p : Prog A R α) (q : α → Prog A R β) :
    (p >>= q).expand f = p.expand f >>= fun v => (q v).expand f := by
  induction p with
  | ret v => rfl
  | act a k ih =>
    rw [act_bind, expand_act, expand_act, bind_assoc]
    exact congrArg (f a >>= ·) (funext ih)

theorem expand_ite (c : Prop) [Decidable c] (p q : Prog A R α) :
    (if c then p else q).expand f
      = if c then p.expand f else q.expand f := by
  split <;> rfl

end Expand

theorem embed_ite (f : A → A') (g : ∀ a, R' (f a) → R a) (c : Prop)
    [Decidable c] (p q : Prog A R α) :
    (if c then p else q).embed f g
      = if c then p.embed f g else q.embed f g := by
  split <;> rfl

/-- Embedding twice is embedding once. -/
theorem embed_embed {A'' : Type} {R'' : A'' → Type} (f : A → A')
    (g : ∀ a, R' (f a) → R a) (f' : A' → A'') (g' : ∀ a, R'' (f' a) → R' a)
    (p : Prog A R α) :
    (p.embed f g).embed f' g'
      = p.embed (fun a => f' (f a)) (fun a r => g a (g' (f a) r)) := by
  induction p with
  | ret v => rfl
  | act a k ih => exact congrArg (act (f' (f a))) (funext fun r => ih _)

/-! ## The rule -/

section Rule

variable {G : RGSpec A R S} {G' : RGSpec A' R' S'} {Q : α → S → Prop}

/-- **A program whose actions are programs.** The states of the two levels
are related, and the relation survives the environment (`hrely`). Each action
may count on being safe, and on its guarantee, at any moment the environment
may bring about; and at one of these moments it has to take effect
(`hact`). -/
theorem Wp.expand (rel : S' → S → Prop) {f : (a : A) → Prog A' R' (R a)}
    (hrely : ∀ {s s' t}, rel s t → G'.rely s s' →
      ∃ t', G.rely t t' ∧ rel s' t')
    (hact : ∀ {a s t}, rel s t →
      (∀ u, G.rely t u → G.safe a u ∧ ∀ r v, G.sem a u r v → G.guar u v) →
      (f a).Wp G' (fun r s' => ∃ u v t', G.rely t u ∧ G.sem a u r v
        ∧ G.rely v t' ∧ rel s' t') s)
    {p : Prog A R α} {s : S'} {t : S} (hrel : rel s t) (h : p.Wp G Q t) :
    (p.expand f).Wp G' (fun v s' => ∃ t', rel s' t' ∧ Q v t') s := by
  induction p generalizing s t with
  | ret v =>
    refine Wp.ret_of (P := fun s' => ∃ t', G.rely t t' ∧ rel s' t')
      ?_ ⟨t, G.rely_refl t, hrel⟩ (fun s' hs' => ?_)
    · rintro s' s'' ⟨t', ht, hrel'⟩ hr
      obtain ⟨t'', ht', hrel''⟩ := hrely hrel' hr
      exact ⟨t'', G.rely_trans ht ht', hrel''⟩
    · obtain ⟨t', ht, hrel'⟩ := hs'
      exact ⟨t', hrel', (h.stable ht).of_ret⟩
  | act a k ih =>
    refine Wp.bind ((hact hrel (fun u hu => ?_)).mono ?_)
    · obtain ⟨hsafe, hstep⟩ := (h.stable hu).of_act
      exact ⟨hsafe, fun r v hv => (hstep r v hv).1⟩
    · rintro r s' ⟨u, v, t', hu, hsem, hv, hrel'⟩
      exact ih r hrel' (((h.stable hu).of_act.2 r v hsem).2.stable hv)

end Rule

/-! ## Reads in between -/

/-- **The second program performs the actions of the first**, and reads in
between: `known a r` says that the action `a` is a read, and that `r` is what
it is going to find. -/
inductive Reading (known : (a : A) → R a → Prop) :
    Prog A R α → Prog A R α → Prop where
  | ret (v : α) : Reading known (ret v) (ret v)
  | act {a : A} {k k' : R a → Prog A R α} (h : ∀ r, Reading known (k r) (k' r)) :
      Reading known (act a k) (act a k')
  | read {a : A} {r : R a} {p : Prog A R α} {k : R a → Prog A R α}
      (hknown : known a r) (h : Reading known p (k r)) :
      Reading known p (act a k)

section Reading

variable {known : (a : A) → R a → Prop} {G : RGSpec A R S}
  {Q : α → S → Prop} {P : S → Prop} {T : A → Prop} {s : S}

theorem Reading.rfl {p : Prog A R α} : Reading known p p := by
  induction p with
  | ret v => exact .ret v
  | act a k ih => exact .act ih

theorem Reading.bind {p p' : Prog A R α} {q q' : α → Prog A R β}
    (h : Reading known p p') (hq : ∀ v, Reading known (q v) (q' v)) :
    Reading known (p >>= q) (p' >>= q') := by
  induction h with
  | ret v => exact hq v
  | act _ ih => exact .act ih
  | read hknown _ ih => exact .read hknown ih

/-- What is known to be returned. -/
theorem Reading.bind_ret {v : α} {q : Prog A R α} {p : Prog A R β}
    {k : α → Prog A R β} (hq : Reading known (Prog.ret v) q)
    (h : Reading known p (k v)) : Reading known p (q >>= k) := by
  generalize hret : (Prog.ret v : Prog A R α) = p₀ at hq
  induction hq with
  | ret w =>
    cases hret
    exact h
  | act _ _ => cases hret
  | read hknown _ ih => exact .read hknown (ih hret)

/-- Reads that are programs of reads. -/
theorem Reading.expand {f : (a : A) → Prog A' R' (R a)}
    {known' : (a : A') → R' a → Prop}
    (hf : ∀ a r, known a r → Reading known' (Prog.ret r) (f a))
    {p q : Prog A R α} (h : Reading known p q) :
    Reading known' (p.expand f) (q.expand f) := by
  induction h with
  | ret v => exact .ret v
  | act _ ih => exact Reading.rfl.bind ih
  | read hknown _ ih => exact .bind_ret (hf _ _ hknown) ih

theorem Reading.ite {c : Prop} [Decidable c] {p p' q q' : Prog A R α}
    (h : c → Reading known p p') (h' : ¬c → Reading known q q') :
    Reading known (if c then p else q) (if c then p' else q') := by
  by_cases hc : c
  · rw [if_pos hc, if_pos hc]
    exact h hc
  · rw [if_neg hc, if_neg hc]
    exact h' hc

/-- **Reads of what is known make no difference**, while an assertion that the
program keeps says what they find. -/
theorem Wp.reading {p q : Prog A R α} (h : Reading known p q)
    (hP : G.Stable P) (hT : p.All T)
    (hkeep : ∀ {a s r s'}, T a → P s → G.safe a s → G.sem a s r s' → P s')
    (hread : ∀ {a r s}, known a r → P s → G.safe a s
      ∧ ∀ r' s', G.sem a s r' s' → r' = r ∧ s' = s ∧ G.guar s s')
    (hs : P s) (hp : p.Wp G Q s) : q.Wp G Q s := by
  induction h generalizing s with
  | ret v => exact hp
  | act h ih =>
    refine Wp.act_of (P := fun t => P t ∧ Wp G Q _ t)
      (fun t t' ht hr => ⟨hP ht.1 hr, ht.2.stable hr⟩) ⟨hs, hp⟩
      (fun t ht => ?_)
    obtain ⟨hsafe, hstep⟩ := ht.2.of_act
    refine ⟨hsafe, fun r t' hsem => ?_⟩
    obtain ⟨hguar, hrest⟩ := hstep r t' hsem
    exact ⟨hguar, ih r (hT.2 r) (hkeep hT.1 ht.1 hsafe hsem) hrest⟩
  | read hknown h ih =>
    refine Wp.act_of (P := fun t => P t ∧ Wp G Q _ t)
      (fun t t' ht hr => ⟨hP ht.1 hr, ht.2.stable hr⟩) ⟨hs, hp⟩
      (fun t ht => ?_)
    obtain ⟨hsafe, hstep⟩ := hread hknown ht.1
    refine ⟨hsafe, fun r t' hsem => ?_⟩
    obtain ⟨rfl, rfl, hguar⟩ := hstep r t' hsem
    exact ⟨hguar, ih hT ht.1 ht.2⟩

/-- **A program that only reads** what is known returns what is known. -/
theorem Wp.read_only {v : α} {q : Prog A R α} (h : Reading known (ret v) q)
    (hP : G.Stable P)
    (hread : ∀ {a r s}, known a r → P s → G.safe a s
      ∧ ∀ r' s', G.sem a s r' s' → r' = r ∧ s' = s ∧ G.guar s s')
    (hs : P s) : q.Wp G (fun w s => w = v ∧ P s) s :=
  Wp.reading (T := fun _ => False) h hP trivial (fun h => h.elim) hread hs
    (Wp.ret_of hP hs (fun _ ht => ⟨Eq.refl v, ht⟩))

end Reading

end Prog

/-! ## Nobody else -/

/-- **The specification of a program that nobody interferes with**, which
keeps `I` at every action. -/
def RGSpec.alone {A : Type} {R : A → Type} {S : Type}
    (sem : (a : A) → S → R a → S → Prop) (safe : A → S → Prop)
    (I : S → Prop) : RGSpec A R S where
  sem := sem
  safe := safe
  rely := Eq
  guar _ s' := I s'
  rely_refl _ := rfl
  rely_trans h h' := h.trans h'

namespace Prog

variable {A : Type} {R : A → Type} {S α : Type}
  {sem : (a : A) → S → R a → S → Prop} {safe : A → S → Prop} {I : S → Prop}
  {Q : α → S → Prop} {s : S}

/-- Return. -/
theorem Wp.alone_ret {v : α} (h : Q v s) :
    (ret v : Prog A R α).Wp (.alone sem safe I) Q s :=
  Wp.ret_of (P := (· = s)) (fun _ _ ht hr => (hr.symm.trans ht)) rfl
    (fun _ ht => ht ▸ h)

/-- One action. -/
theorem Wp.alone_act {a : A} {k : R a → Prog A R α} (hsafe : safe a s)
    (h : ∀ r s', sem a s r s' → I s'
      ∧ (k r).Wp (.alone sem safe I) Q s') :
    (act a k).Wp (.alone sem safe I) Q s := by
  refine Wp.act_of (P := (· = s)) (fun _ _ ht hr => (hr.symm.trans ht)) rfl ?_
  rintro t rfl
  exact ⟨hsafe, h⟩

end Prog
