import Mathlib.Data.List.Perm.Subperm
import Kucomms.Machine

/-!
# Calls under an interruptible lock

Threads call functions that take a lock, work on a shared state and release
the lock – except that the lock attempt may be *interrupted*: it then returns
without the lock, and the function goes on all the same. `locked` makes such
a function of its body, and `LockSys.machine` is the system of any number of
threads that call them.

Releasing the lock is releasing it, whoever does. So a thread that was
interrupted not only works beside the holder of the lock; when it is done, it
lets the next one in as well.

`Excludes` is the condition on lock attempts under which none of this does
harm: an attempt is interrupted only while nobody holds the lock, and none
returns while an interrupted thread is still at work. As long as all attempts
are so, calls are atomic (`LockSys.serializable`): what was returned to the
threads is what the bodies return when they run one after the other.
-/

/-- What a lock attempt returns. -/
inductive LockResult where
  | acquired | interrupted
  deriving DecidableEq

/-- The actions of a thread that locks: those of the bodies, and the two
ends. -/
inductive LockAct (A : Type) where
  | lock
  | unlock
  | act (a : A)

/-- The answer to an action. -/
@[reducible] def LockAct.Res {A : Type} (R : A → Type) : LockAct A → Type
  | .lock => LockResult
  | .unlock => Unit
  | .act a => R a

section Programs

variable {A : Type} {R : A → Type} {α : Type}

/-- An attempt to take the lock. -/
def lockInterruptible : Prog (LockAct A) (LockAct.Res R) LockResult :=
  .act .lock .ret

/-- The release of the lock. -/
def unlock : Prog (LockAct A) (LockAct.Res R) Unit := .act .unlock .ret

/-- A body inside the larger alphabet. -/
def Prog.inLock (p : Prog A R α) : Prog (LockAct A) (LockAct.Res R) α :=
  p.embed LockAct.act (fun _ r => r)

/-- What is left of a body under the lock once the attempt has returned. -/
def unlockAfter (p : Prog A R α) : Prog (LockAct A) (LockAct.Res R) α := do
  let v ← p.inLock
  unlock
  return v

/-- **A body under the lock.** The answer to the lock attempt is not looked
at. -/
def locked (p : Prog A R α) : Prog (LockAct A) (LockAct.Res R) α := do
  let _ret ← lockInterruptible
  unlockAfter p

variable {S : Type}

/-- What an action does when nobody else is there: the lock is free. -/
def LockAct.execAlone (exec : (a : A) → S → R a × S) :
    (a : LockAct A) → S → LockAct.Res R a × S
  | .lock, s => (.acquired, s)
  | .unlock, s => ((), s)
  | .act a, s => exec a s

/-- **A locked body, run alone, is the body.** -/
theorem locked_run (exec : (a : A) → S → R a × S) (p : Prog A R α) (s : S) :
    (locked p).run (LockAct.execAlone exec) s = p.run exec s := by
  show (unlockAfter p).run (LockAct.execAlone exec) s = _
  induction p generalizing s with
  | ret v => rfl
  | act a k ih => exact ih (exec a s).1 (exec a s).2

end Programs

/-- **Functions under one lock**: their bodies, and what the actions of the
bodies do to the shared state. -/
structure LockSys (A : Type) (R : A → Type) (S : Type) where
  /-- The calls. -/
  Call : Type
  /-- What a call returns. -/
  Ret : Call → Type
  /-- The calls that are made. -/
  valid : Call → Prop
  /-- What a call does under the lock. -/
  body : (c : Call) → Prog A R (Ret c)
  /-- What an action does. -/
  exec : (a : A) → S → R a × S

namespace LockSys

variable {A : Type} {R : A → Type} {S ι : Type}

/-- A call with what it returned. -/
abbrev Entry (K : LockSys A R S) : Type := (c : K.Call) × K.Ret c

/-- **The state of the system.** -/
structure State (K : LockSys A R S) (ι : Type) where
  /-- The shared state. -/
  inner : S
  /-- Who holds the lock. -/
  owner : Option ι
  /-- The threads at work after an interrupted attempt. -/
  barging : List ι
  /-- The calls that have returned, in order. -/
  returned : List (ι × K.Entry)

/-- Nobody has called anything. -/
def start (K : LockSys A R S) (ι : Type) (s : S) : K.State ι :=
  ⟨s, none, [], []⟩

variable [DecidableEq ι]

/-- What an action of the thread `i` may do. -/
inductive Sem (K : LockSys A R S)
    (allows : ι → LockResult → K.State ι → Prop) (i : ι) :
    (a : LockAct A) → K.State ι → LockAct.Res R a → K.State ι → Prop where
  /-- The lock is free, and taken. -/
  | acquire {s : K.State ι} (hfree : s.owner = none)
      (hallows : allows i .acquired s) :
      Sem K allows i .lock s .acquired { s with owner := some i }
  /-- The attempt is interrupted. -/
  | interrupt {s : K.State ι} (hallows : allows i .interrupted s) :
      Sem K allows i .lock s .interrupted { s with barging := i :: s.barging }
  /-- The lock is free afterwards, whoever held it. -/
  | unlock {s : K.State ι} :
      Sem K allows i .unlock s ()
        { s with owner := none, barging := s.barging.erase i }
  | act {s : K.State ι} (a : A) :
      Sem K allows i (.act a) s (K.exec a s.inner).1
        { s with inner := (K.exec a s.inner).2 }

/-- **The system of threads `ι`** that make the calls, where lock attempts
turn out as `allows` says they may. -/
def machine (K : LockSys A R S)
    (allows : ι → LockResult → K.State ι → Prop) :
    Machine ι (LockAct A) (LockAct.Res R) (K.State ι) where
  Call := K.Call
  Ret := K.Ret
  prog c := locked (K.body c)
  may _ _ c := K.valid c
  onCall _ _ s := s
  sem i _ := K.Sem allows i
  onRet i c v s := { s with returned := s.returned ++ [(i, ⟨c, v⟩)] }

/-- **When lock attempts exclude**: one is interrupted only while nobody holds
the lock, and none returns while an interrupted thread is at work. -/
def Excludes (K : LockSys A R S) (_ : ι) (r : LockResult) (s : K.State ι) :
    Prop :=
  s.barging = [] ∧ (r = .interrupted → s.owner = none)

/-- **Running bodies one after the other**: from `s`, the calls listed, each
with what it returned, lead to the state at the end. -/
inductive Serial (K : LockSys A R S) (s : S) :
    List (ι × K.Entry) → S → Prop where
  | nil : Serial K s [] s
  | snoc {ran : List (ι × K.Entry)} {t : S} (i : ι) (c : K.Call)
      (h : Serial K s ran t) (hc : K.valid c) :
      Serial K s (ran ++ [(i, ⟨c, ((K.body c).run K.exec t).1⟩)])
        ((K.body c).run K.exec t).2

/-! ## Where a thread is -/

/-- Where a thread is in a call. -/
inductive Phase (K : LockSys A R S) where
  | idle
  /-- The lock attempt has not returned. -/
  | waiting (c : K.Call)
  /-- Inside, with `p` left of the body. -/
  | inside (c : K.Call) (p : Prog A R (K.Ret c))
  /-- The lock is released. -/
  | leaving (c : K.Call) (v : K.Ret c)

namespace Phase

variable {K : LockSys A R S}

/-- The program counter of a thread. -/
def pc (allows : ι → LockResult → K.State ι → Prop) :
    K.Phase → (K.machine allows).Pc
  | idle => none
  | waiting c => some ⟨c, locked (K.body c)⟩
  | inside c p => some ⟨c, unlockAfter p⟩
  | leaving c v => some ⟨c, .ret v⟩

/-- What a thread has run and not yet returned. -/
def unreturned (i : ι) : K.Phase → List (ι × K.Entry)
  | leaving c v => [(i, ⟨c, v⟩)]
  | _ => []

/-- The thread is between the return of its lock attempt and its unlock. -/
def Inside : K.Phase → Prop
  | inside _ _ => True
  | _ => False

end Phase

/-- **Who is inside**: nobody, and the shared state is `t`; or one thread,
whose call, run from `t`, ends as what is left of it ends. -/
inductive Occupied (K : LockSys A R S) (φ : ι → K.Phase) (t : S)
    (s : K.State ι) : Prop where
  | nobody (hφ : ∀ i, ¬(φ i).Inside) (howner : s.owner = none)
      (hbarging : s.barging = []) (hinner : s.inner = t)
  | one (i : ι) (c : K.Call) (p : Prog A R (K.Ret c)) (hc : K.valid c)
      (hi : φ i = .inside c p) (hφ : ∀ j, j ≠ i → ¬(φ j).Inside)
      (hlock : s.owner = some i ∧ s.barging = []
        ∨ s.owner = none ∧ s.barging = [i])
      (hrun : (K.body c).run K.exec t = p.run K.exec s.inner)

/-- **The invariant**: the bodies run so far explain the shared state, and
what each thread has run is what was returned to it, and what is about to
be. -/
structure Explained (K : LockSys A R S)
    (allows : ι → LockResult → K.State ι → Prop) (s₀ : S)
    (x : (K.machine allows).Conf) (φ : ι → K.Phase)
    (ran : List (ι × K.Entry)) (t : S) : Prop where
  pc : ∀ i, x.pc i = (φ i).pc allows
  valid : ∀ i c, φ i = .waiting c → K.valid c
  serial : K.Serial s₀ ran t
  own : ∀ i, ran.filter (fun e => e.1 = i)
    = x.st.returned.filter (fun e => e.1 = i) ++ (φ i).unreturned i
  occupied : K.Occupied φ t x.st

variable {K : LockSys A R S} {allows : ι → LockResult → K.State ι → Prop}
  {s₀ t : S} {x y : (K.machine allows).Conf} {φ : ι → K.Phase}
  {ran : List (ι × K.Entry)} {i : ι}

/-- Moving one thread on. -/
theorem pc_update (hpc : ∀ j, x.pc j = (φ j).pc allows)
    (ψ : K.Phase) (j : ι) :
    Function.update x.pc i (ψ.pc allows) j
      = (Function.update φ i ψ j).pc allows := by
  by_cases h : j = i
  · subst h
    rw [Function.update_self, Function.update_self]
  · rw [Function.update_of_ne h, Function.update_of_ne h, hpc]

/-- Nobody is inside at the start. -/
theorem Explained.start (K : LockSys A R S)
    (allows : ι → LockResult → K.State ι → Prop) (s₀ : S) :
    K.Explained allows s₀ ((K.machine allows).start (K.start ι s₀))
      (fun _ => .idle) [] s₀ :=
  ⟨fun _ => rfl, fun _ _ h => (nomatch h), .nil, fun _ => rfl,
    .nobody (fun _ => id) rfl rfl rfl⟩

/-- What a thread outside does to itself leaves the one inside alone. -/
theorem Occupied.update {s : K.State ι} {ψ : K.Phase}
    (h : K.Occupied φ t s) (hi : ¬(φ i).Inside) (hψ : ¬ψ.Inside) :
    K.Occupied (Function.update φ i ψ) t s := by
  have hout : ∀ j, ¬(φ j).Inside → ¬(Function.update φ i ψ j).Inside := by
    intro j hj
    by_cases hji : j = i
    · subst hji
      rwa [Function.update_self]
    · rwa [Function.update_of_ne hji]
  cases h with
  | nobody hφ howner hbarging hinner =>
    exact .nobody (fun j => hout j (hφ j)) howner hbarging hinner
  | one j c p hc hj hφ hlock hrun =>
    have hji : j ≠ i := by
      rintro rfl
      exact hi (hj ▸ trivial)
    exact .one j c p hc (by rw [Function.update_of_ne hji, hj])
      (fun k hk => hout k (hφ k hk)) hlock hrun

/-- The entries of one thread. -/
theorem filter_concat (l : List (ι × K.Entry)) (e : ι × K.Entry) (j : ι) :
    (l ++ [e]).filter (fun e => e.1 = j)
      = l.filter (fun e => e.1 = j) ++ if e.1 = j then [e] else [] := by
  rw [List.filter_append]
  congr 1
  by_cases h : e.1 = j
  · simp [h]
  · simp [h]

/-- **One thread moves on**, from its phase to `ψ`. -/
theorem Explained.move {s s' : K.State ι} {pc : ι → (K.machine allows).Pc}
    {ran' : List (ι × K.Entry)} {t' : S}
    (h : K.Explained allows s₀ ⟨s, pc⟩ φ ran t) (ψ : K.Phase)
    (hvalid : ∀ c, ψ = .waiting c → K.valid c)
    (hserial : K.Serial s₀ ran' t')
    (hi : ran'.filter (fun e => e.1 = i)
      = s'.returned.filter (fun e => e.1 = i) ++ ψ.unreturned i)
    (hran : ∀ j, j ≠ i →
      ran'.filter (fun e => e.1 = j) = ran.filter (fun e => e.1 = j))
    (hret : ∀ j, j ≠ i → s'.returned.filter (fun e => e.1 = j)
      = s.returned.filter (fun e => e.1 = j))
    (hocc : K.Occupied (Function.update φ i ψ) t' s') :
    K.Explained allows s₀
      ⟨s', Function.update pc i (ψ.pc allows)⟩
      (Function.update φ i ψ) ran' t' := by
  refine ⟨pc_update h.pc ψ, fun j c hj => ?_, hserial, fun j => ?_, hocc⟩
  · by_cases hji : j = i
    · subst hji
      rw [Function.update_self] at hj
      exact hvalid c hj
    · rw [Function.update_of_ne hji] at hj
      exact h.valid j c hj
  · by_cases hji : j = i
    · subst hji
      rw [Function.update_self]
      exact hi
    · rw [Function.update_of_ne hji, hran j hji]
      show _ = s'.returned.filter _ ++ _
      rw [hret j hji]
      exact h.own j

/-- A thread that begins a call. -/
theorem Explained.call {s : K.State ι} {pc : ι → (K.machine allows).Pc}
    (h : K.Explained allows s₀ ⟨s, pc⟩ φ ran t) {c : K.Call}
    (hpc : pc i = none) (hc : K.valid c) :
    K.Explained allows s₀
      ⟨s, Function.update pc i (some ⟨c, locked (K.body c)⟩)⟩
      (Function.update φ i (.waiting c)) ran t := by
  have hidle : φ i = .idle := by
    have hi : pc i = (φ i).pc allows := h.pc i
    rw [hpc] at hi
    cases hφ : φ i <;> rw [hφ] at hi <;> first | rfl | exact nomatch hi
  have hown := h.own i
  rw [hidle] at hown
  refine h.move (.waiting c) (fun c' hc' => ?_) h.serial hown
    (fun _ _ => rfl) (fun _ _ => rfl)
    (h.occupied.update (by rw [hidle]; exact id) id)
  cases hc'
  exact hc

/-- A thread that returns. -/
theorem Explained.ret {s : K.State ι} {pc : ι → (K.machine allows).Pc}
    (h : K.Explained allows s₀ ⟨s, pc⟩ φ ran t) {c : K.Call} {v : K.Ret c}
    (hpc : pc i = some ⟨c, .ret v⟩) :
    K.Explained allows s₀
      ⟨{ s with returned := s.returned ++ [(i, ⟨c, v⟩)] },
        Function.update pc i none⟩
      (Function.update φ i .idle) ran t := by
  have hleaving : φ i = .leaving c v := by
    have hi : pc i = (φ i).pc allows := h.pc i
    rw [hpc] at hi
    cases hφ : φ i with
    | idle => rw [hφ] at hi; exact nomatch hi
    | waiting c' => rw [hφ] at hi; exact nomatch hi
    | inside c' p => rw [hφ] at hi; cases p <;> exact nomatch hi
    | leaving c' v' => rw [hφ] at hi; cases hi; rfl
  have hown := h.own i
  rw [hleaving] at hown
  refine h.move .idle (fun _ hc' => nomatch hc') h.serial ?_
    (fun _ _ => rfl) (fun j hj => ?_) ?_
  · rw [filter_concat, if_pos rfl]
    exact hown.trans (List.append_nil _).symm
  · rw [filter_concat, if_neg hj.symm, List.append_nil]
  · have hocc := h.occupied.update
      (show ¬(φ i).Inside by rw [hleaving]; exact id)
      (show ¬LockSys.Phase.idle.Inside from id)
    cases hocc with
    | nobody hφ howner hbarging hinner =>
      exact .nobody hφ howner hbarging hinner
    | one j c p hc hj hφ hlock hrun => exact .one j c p hc hj hφ hlock hrun

omit [DecidableEq ι] in
/-- While attempts exclude, a thread whose attempt returns finds nobody
inside. -/
theorem Occupied.nobody_of_excludes {s : K.State ι} {r : LockResult}
    (h : K.Occupied φ t s) (hr : K.Excludes i r s)
    (hfree : r = .acquired → s.owner = none) :
    (∀ j, ¬(φ j).Inside) ∧ s.owner = none ∧ s.inner = t := by
  cases h with
  | nobody hφ howner hbarging hinner => exact ⟨hφ, howner, hinner⟩
  | one j c p hc hj hφ hlock hrun =>
    exfalso
    have howner : s.owner = none := by
      cases r with
      | acquired => exact hfree rfl
      | interrupted => exact hr.2 rfl
    obtain ⟨hlock, -⟩ | ⟨-, hlock⟩ := hlock
    · rw [howner] at hlock
      exact nomatch hlock
    · rw [hr.1] at hlock
      exact nomatch hlock

/-- A thread whose lock attempt returns goes inside. -/
theorem Explained.enter {s s' : K.State ι} {pc : ι → (K.machine allows).Pc}
    {c : K.Call} {r : LockResult}
    (h : K.Explained allows s₀ ⟨s, pc⟩ φ ran t) (hi : φ i = .waiting c)
    (hr : K.Excludes i r s) (hfree : r = .acquired → s.owner = none)
    (hinner : s'.inner = s.inner) (hret : s'.returned = s.returned)
    (hlock : s'.owner = some i ∧ s'.barging = []
      ∨ s'.owner = none ∧ s'.barging = [i]) :
    K.Explained allows s₀
      ⟨s', Function.update pc i (some ⟨c, unlockAfter (K.body c)⟩)⟩
      (Function.update φ i (.inside c (K.body c))) ran t := by
  obtain ⟨hφ, -, ht⟩ := h.occupied.nobody_of_excludes hr hfree
  have hown := h.own i
  rw [hi] at hown
  refine h.move (.inside c (K.body c)) (fun _ hc => nomatch hc) h.serial ?_
    (fun _ _ => rfl) (fun _ _ => by rw [hret])
    (.one i c (K.body c) (h.valid i c hi) (Function.update_self ..)
      (fun j hj => ?_) hlock ?_)
  · rw [hret]
    exact hown
  · rw [Function.update_of_ne hj]
    exact hφ j
  · rw [hinner]
    exact congrArg _ ht.symm

/-- The thread inside, found by its phase. -/
theorem Occupied.of_inside {s : K.State ι} {c : K.Call}
    {p : Prog A R (K.Ret c)} (h : K.Occupied φ t s) (hi : φ i = .inside c p) :
    K.valid c ∧ (∀ j, j ≠ i → ¬(φ j).Inside)
      ∧ (s.owner = some i ∧ s.barging = []
        ∨ s.owner = none ∧ s.barging = [i])
      ∧ (K.body c).run K.exec t = p.run K.exec s.inner := by
  cases h with
  | nobody hφ howner hbarging hinner =>
    exact absurd (show (φ i).Inside by rw [hi]; trivial) (hφ i)
  | one j c' p' hc hj hφ hlock hrun =>
    have hij : i = j := by
      by_contra hne
      exact hφ i hne (by rw [hi]; trivial)
    subst hij
    rw [hi] at hj
    cases hj
    exact ⟨hc, hφ, hlock, hrun⟩

/-- A thread inside performs an action of its body. -/
theorem Explained.work {s : K.State ι} {pc : ι → (K.machine allows).Pc}
    {c : K.Call} {a : A} {k : R a → Prog A R (K.Ret c)}
    (h : K.Explained allows s₀ ⟨s, pc⟩ φ ran t)
    (hi : φ i = .inside c (.act a k)) :
    K.Explained allows s₀
      ⟨{ s with inner := (K.exec a s.inner).2 },
        Function.update pc i
          (some ⟨c, unlockAfter (k (K.exec a s.inner).1)⟩)⟩
      (Function.update φ i (.inside c (k (K.exec a s.inner).1))) ran t := by
  obtain ⟨hc, hφ, hlock, hrun⟩ := h.occupied.of_inside hi
  have hown := h.own i
  rw [hi] at hown
  refine h.move (.inside c (k (K.exec a s.inner).1))
    (fun _ hc => nomatch hc) h.serial hown (fun _ _ => rfl) (fun _ _ => rfl)
    (.one i c _ hc (Function.update_self ..) (fun j hj => ?_) hlock hrun)
  rw [Function.update_of_ne hj]
  exact hφ j hj

/-- A thread inside releases the lock, and its body counts as run. -/
theorem Explained.leave {s : K.State ι} {pc : ι → (K.machine allows).Pc}
    {c : K.Call} {v : K.Ret c}
    (h : K.Explained allows s₀ ⟨s, pc⟩ φ ran t)
    (hi : φ i = .inside c (.ret v)) :
    K.Explained allows s₀
      ⟨{ s with owner := none, barging := s.barging.erase i },
        Function.update pc i (some ⟨c, .ret v⟩)⟩
      (Function.update φ i (.leaving c v)) (ran ++ [(i, ⟨c, v⟩)])
      s.inner := by
  obtain ⟨hc, hφ, hlock, hrun⟩ := h.occupied.of_inside hi
  have hown := h.own i
  rw [hi] at hown
  have hserial := h.serial.snoc i c hc
  rw [hrun] at hserial
  refine h.move (.leaving c v) (fun _ hc => nomatch hc) hserial ?_
    (fun j hj => ?_) (fun _ _ => rfl) (.nobody (fun j => ?_) rfl ?_ rfl)
  · rw [filter_concat, if_pos rfl, hown]
    exact congrArg (· ++ _) (List.append_nil _)
  · rw [filter_concat, if_neg hj.symm, List.append_nil]
  · by_cases hji : j = i
    · subst hji
      rw [Function.update_self]
      exact id
    · rw [Function.update_of_ne hji]
      exact hφ j hji
  · obtain ⟨-, hb⟩ | ⟨-, hb⟩ := hlock
    · rw [hb]
      rfl
    · show s.barging.erase i = []
      rw [hb]
      exact List.erase_cons_head ..

/-- **Every step keeps the invariant**, while lock attempts exclude. -/
theorem Explained.step (hallows : ∀ i r s, allows i r s → K.Excludes i r s)
    (h : K.Explained allows s₀ x φ ran t) (hs : (K.machine allows).Step i x y) :
    ∃ φ' ran' t', K.Explained allows s₀ y φ' ran' t' := by
  cases hs with
  | call c hpc hmay => exact ⟨_, _, _, h.call hpc hmay⟩
  | ret hpc => exact ⟨_, _, _, h.ret hpc⟩
  | act hpc hsem =>
    have hi := (h.pc i).symm.trans hpc
    cases hφ : φ i with
    | idle => rw [hφ] at hi; exact nomatch hi
    | leaving c' v => rw [hφ] at hi; exact nomatch hi
    | waiting c' =>
      rw [hφ] at hi
      cases hi
      cases hsem with
      | acquire hfree hall =>
        have hr := hallows _ _ _ hall
        exact ⟨_, _, _, h.enter hφ hr (fun _ => hfree) rfl rfl
          (.inl ⟨rfl, hr.1⟩)⟩
      | interrupt hall =>
        have hr := hallows _ _ _ hall
        exact ⟨_, _, _, h.enter hφ hr (fun h => nomatch h) rfl rfl
          (.inr ⟨hr.2 rfl, congrArg (List.cons i) hr.1⟩)⟩
    | inside c' p =>
      rw [hφ] at hi
      cases p with
      | ret v =>
        cases hi
        cases hsem with
        | unlock => exact ⟨_, _, _, h.leave hφ⟩
      | act a k =>
        cases hi
        cases hsem with
        | act => exact ⟨_, _, _, h.work hφ⟩

/-- **Calls are atomic while lock attempts exclude.** Whatever has been
returned to the threads, the bodies running one after the other return it as
well; and once nobody is in a call, that is all they return, and it explains
the shared state. -/
theorem serializable (hallows : ∀ i r s, allows i r s → K.Excludes i r s)
    (hx : (K.machine allows).Reach
      ((K.machine allows).start (K.start ι s₀)) x) :
    ∃ ran t, K.Serial s₀ ran t ∧ x.st.returned.Subperm ran
      ∧ ((∀ i, x.pc i = none) →
        x.st.inner = t ∧ x.st.returned.Perm ran) := by
  have hinv : ∃ φ ran t, K.Explained allows s₀ x φ ran t := by
    induction hx with
    | refl => exact ⟨_, _, _, Explained.start K allows s₀⟩
    | step i _ hs ih =>
      obtain ⟨φ, ran, t, h⟩ := ih
      exact h.step hallows hs
  obtain ⟨φ, ran, t, h⟩ := hinv
  classical
  have hcount : ∀ e, ran.count e = x.st.returned.count e
      + ((φ e.1).unreturned e.1).count e := by
    intro e
    have hown := congrArg (List.count e) (h.own e.1)
    rw [List.count_append, List.count_filter (by simp),
      List.count_filter (by simp)] at hown
    exact hown
  refine ⟨ran, t, h.serial, ?_, fun hidle => ?_⟩
  · exact List.subperm_ext_iff.mpr (fun e _ => by rw [hcount e]; omega)
  · have hφ : ∀ i, φ i = .idle := by
      intro i
      have hi := (h.pc i).symm.trans (hidle i)
      cases hφ : φ i <;> rw [hφ] at hi <;> first | rfl | exact nomatch hi
    refine ⟨?_, List.perm_iff_count.mpr (fun e => ?_)⟩
    · cases h.occupied with
      | nobody hφ howner hbarging hinner => exact hinner
      | one i c p hc hi hφ' hlock hrun => exact nomatch (hφ i).symm.trans hi
    · rw [hcount e, hφ e.1]
      rfl

/-! ## Runs of one thread -/

section Runs

variable {s : K.State ι} {pc : ι → (K.machine allows).Pc} {c : K.Call}
  {p : Prog A R (K.Ret c)}

/-- A thread calls and is let in. -/
theorem reach_acquire (hpc : pc i = none) (hc : K.valid c)
    (hfree : s.owner = none) (hallows : allows i .acquired s) :
    (K.machine allows).Reach ⟨s, pc⟩
      ⟨{ s with owner := some i },
        Function.update pc i (some ⟨c, unlockAfter (K.body c)⟩)⟩ := by
  have hstep := Machine.Step.act (M := K.machine allows) (i := i) (c := c)
    (Function.update_self i (some ⟨c, locked (K.body c)⟩) pc)
    (Sem.acquire hfree hallows)
  rw [Function.update_idem] at hstep
  have hcall := Machine.Step.call (M := K.machine allows) (s := s) c hpc hc
  exact .step i (.step i .refl hcall) hstep

/-- A thread calls, is interrupted and goes in. -/
theorem reach_interrupt (hpc : pc i = none) (hc : K.valid c)
    (hallows : allows i .interrupted s) :
    (K.machine allows).Reach ⟨s, pc⟩
      ⟨{ s with barging := i :: s.barging },
        Function.update pc i (some ⟨c, unlockAfter (K.body c)⟩)⟩ := by
  have hstep := Machine.Step.act (M := K.machine allows) (i := i) (c := c)
    (Function.update_self i (some ⟨c, locked (K.body c)⟩) pc)
    (Sem.interrupt hallows)
  rw [Function.update_idem] at hstep
  have hcall := Machine.Step.call (M := K.machine allows) (s := s) c hpc hc
  exact .step i (.step i .refl hcall) hstep

/-- A thread inside performs the next `n` actions of its body. -/
theorem reach_steps (n : ℕ) :
    (K.machine allows).Reach
      ⟨s, Function.update pc i (some ⟨c, unlockAfter p⟩)⟩
      ⟨{ s with inner := (p.steps K.exec n s.inner).2 },
        Function.update pc i
          (some ⟨c, unlockAfter (p.steps K.exec n s.inner).1⟩)⟩ := by
  induction n generalizing p s with
  | zero => exact .refl
  | succ n ih =>
    cases p with
    | ret v => exact .refl
    | act a k =>
      have hstep := Machine.Step.act (M := K.machine allows) (i := i)
        (Function.update_self i (some ⟨c, unlockAfter (.act a k)⟩) pc)
        (Sem.act (s := s) a)
      rw [Function.update_idem] at hstep
      exact .trans (.step i .refl hstep) ih

/-- A thread inside runs to the end of its body. -/
theorem reach_run :
    (K.machine allows).Reach
      ⟨s, Function.update pc i (some ⟨c, unlockAfter p⟩)⟩
      ⟨{ s with inner := (p.run K.exec s.inner).2 },
        Function.update pc i
          (some ⟨c, unlockAfter (.ret (p.run K.exec s.inner).1)⟩)⟩ := by
  induction p generalizing s with
  | ret v => exact .refl
  | act a k ih =>
    have hstep := Machine.Step.act (M := K.machine allows) (i := i)
      (Function.update_self i (some ⟨c, unlockAfter (.act a k)⟩) pc)
      (Sem.act (s := s) a)
    rw [Function.update_idem] at hstep
    exact .trans (.step i .refl hstep) (ih _)

/-- A thread inside runs to the end of its body, unlocks and returns. -/
theorem reach_finish :
    (K.machine allows).Reach
      ⟨s, Function.update pc i (some ⟨c, unlockAfter p⟩)⟩
      ⟨⟨(p.run K.exec s.inner).2, none, s.barging.erase i,
          s.returned ++ [(i, ⟨c, (p.run K.exec s.inner).1⟩)]⟩,
        Function.update pc i none⟩ := by
  have hunlock := Machine.Step.act (M := K.machine allows) (i := i)
    (Function.update_self i
      (some ⟨c, unlockAfter (.ret (p.run K.exec s.inner).1)⟩) pc)
    (Sem.unlock (s := { s with inner := (p.run K.exec s.inner).2 }))
  rw [Function.update_idem] at hunlock
  have hret := Machine.Step.ret (M := K.machine allows) (i := i) (c := c)
    (s := ⟨(p.run K.exec s.inner).2, none, s.barging.erase i, s.returned⟩)
    (Function.update_self i (some ⟨c, .ret (p.run K.exec s.inner).1⟩) pc)
  rw [Function.update_idem] at hret
  exact .step i (.step i reach_run hunlock) hret

end Runs

end LockSys
