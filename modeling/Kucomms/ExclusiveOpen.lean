import Kucomms.RegistryTables

/-!
# Exclusive opens

A device file is open at most once at a time: `kucomms_find_and_open` sets
the open flag of an entry and says whether it was set before, and
`kucomms_fops_open` goes on only if it was not. As long as lock attempts
exclude, one call of any number goes on (`findAndOpen_exclusive`).

The function ignores a lock attempt that a signal interrupts. Then two calls
can load the flag before either has set it, and both go on
(`findAndOpen_interrupted_both_open`).
-/

open Prog

/-! ## The system -/

/-- **The calls of `kucomms_find_and_open` on a name**, by any number of
threads. -/
def findAndOpenSys (env : ChrdevAnswer) (name : Name) :
    LockSys RegAct RegAct.Res Registry where
  Call := Unit
  Ret _ := Option (Fin kucommsListSize) × Bool
  valid _ := True
  body _ := findAndOpen name
  exec := RegAct.exec env

/-- The program of a call is the function with its lock. -/
theorem findAndOpenSys_prog {ι : Type} [DecidableEq ι] (env : ChrdevAnswer)
    (name : Name)
    (allows : ι → LockResult → (findAndOpenSys env name).State ι → Prop) :
    ((findAndOpenSys env name).machine allows).prog ()
      = kucommsFindAndOpen name := rfl

/-- The checks of `kucomms_fops_open` on what `kucomms_find_and_open`
returns: there is an entry, and it was not open. -/
def fopsOpenProceeds (ret : Option (Fin kucommsListSize) × Bool) : Bool :=
  ret.1.isSome && !ret.2

/-- The calls listed on which `kucomms_fops_open` goes on. -/
def proceeding {ι : Type} {env : ChrdevAnswer} {name : Name}
    (l : List (ι × (findAndOpenSys env name).Entry)) :
    List (ι × (findAndOpenSys env name).Entry) :=
  l.filter (fun e => fopsOpenProceeds e.2.2)

/-! ## One call after the other -/

section Serial

variable {ι : Type} {env : ChrdevAnswer} {name : Name} {r t : Registry}
  {u : Fin kucommsListSize} {ran : List (ι × (findAndOpenSys env name).Entry)}

theorem proceeding_concat (l : List (ι × (findAndOpenSys env name).Entry))
    (i : ι) (ret : Option (Fin kucommsListSize) × Bool) :
    proceeding (l ++ [(i, ⟨(), ret⟩)])
      = proceeding l
        ++ if fopsOpenProceeds ret = true then [(i, ⟨(), ret⟩)] else [] := by
  unfold proceeding
  rw [List.filter_append]
  congr 1
  by_cases h : fopsOpenProceeds ret = true
  · simp [h]
  · simp [h]

/-- Calls on a name without an entry. -/
theorem serial_unregistered (hu : r.find .cblist name = none)
    (h : (findAndOpenSys env name).Serial r ran t) :
    t = r ∧ proceeding ran = [] := by
  induction h with
  | nil => exact ⟨rfl, rfl⟩
  | @snoc ran t i c h hc ih =>
    obtain ⟨rfl, hran⟩ := ih
    have hrun : (findAndOpen name).run (RegAct.exec env) t
        = ((none, false), t) := by
      rw [findAndOpen_run, hu]
    show ((findAndOpen name).run (RegAct.exec env) t).2 = t
      ∧ proceeding (ran
        ++ [(i, ⟨(), ((findAndOpen name).run (RegAct.exec env) t).1⟩)]) = []
    rw [hrun]
    refine ⟨rfl, ?_⟩
    rw [proceeding_concat, hran]
    rfl

/-- **Calls one after the other** on a name with an entry: they leave the
names as they are, and one has gone on at most, after which the entry is
open. -/
theorem serial_registered (hu : r.find .cblist name = some u)
    (h : (findAndOpenSys env name).Serial r ran t) :
    t.find .cblist name = some u ∧ (proceeding ran).length ≤ 1
      ∧ (proceeding ran ≠ [] → (t.cblist u).isOpen = true) := by
  induction h with
  | nil => exact ⟨hu, Nat.zero_le _, fun hne => absurd rfl hne⟩
  | @snoc ran t i c h hc ih =>
    obtain ⟨hfind, hle, hopen⟩ := ih
    have hrun : (findAndOpen name).run (RegAct.exec env) t
        = ((some u, (t.cblist u).isOpen), t.setOpen u true) := by
      rw [findAndOpen_run, hfind]
    have hret : ((findAndOpen name).run (RegAct.exec env) t).1
        = (some u, (t.cblist u).isOpen) := congrArg Prod.fst hrun
    have hleft : ((findAndOpen name).run (RegAct.exec env) t).2
        = t.setOpen u true := congrArg Prod.snd hrun
    have hnow : ((t.setOpen u true).cblist u).isOpen = true := by
      show (Function.update t.cblist u _ u).isOpen = true
      rw [Function.update_self]
    show (((findAndOpen name).run (RegAct.exec env) t).2).find .cblist name
        = some u
      ∧ (proceeding (ran
        ++ [(i, ⟨(), ((findAndOpen name).run (RegAct.exec env) t).1⟩)])).length
          ≤ 1
      ∧ (_ → ((((findAndOpen name).run (RegAct.exec env) t).2).cblist u).isOpen
        = true)
    rw [hret, hleft, proceeding_concat]
    refine ⟨(Registry.find_setOpen true .cblist name).trans hfind, ?_,
      fun _ => hnow⟩
    cases hflag : (t.cblist u).isOpen with
    | true =>
      -- the entry was open: the call does not go on
      rw [if_neg (show ¬fopsOpenProceeds (some u, true) = true from
        Bool.false_ne_true), List.append_nil]
      exact hle
    | false =>
      -- it was not, so no call has gone on before
      have hnone : proceeding ran = [] := by
        by_contra hne
        exact Bool.false_ne_true (hflag.symm.trans (hopen hne))
      rw [if_pos (show fopsOpenProceeds (some u, false) = true from rfl),
        hnone]
      exact le_refl 1

end Serial

/-! ## Any number of threads -/

/-- **One open goes on at most while lock attempts exclude**: among the calls
on a name that have returned, from any state of the tables. -/
theorem findAndOpen_exclusive {ι : Type} [DecidableEq ι] {env : ChrdevAnswer}
    {name : Name} {r : Registry}
    {x : ((findAndOpenSys env name).machine (ι := ι)
      (findAndOpenSys env name).Excludes).Conf}
    (hx : ((findAndOpenSys env name).machine
        (findAndOpenSys env name).Excludes).Reach
      (Machine.start _ ((findAndOpenSys env name).start ι r)) x) :
    (proceeding x.st.returned).length ≤ 1 := by
  obtain ⟨ran, t, hserial, hsub, -⟩ :=
    LockSys.serializable (fun _ _ _ => id) hx
  have hle : (proceeding x.st.returned).length ≤ (proceeding ran).length :=
    (hsub.filter _).length_le
  cases hu : r.find .cblist name with
  | none =>
    rw [(serial_unregistered hu hserial).2] at hle
    exact hle.trans (Nat.zero_le 1)
  | some u => exact hle.trans (serial_registered hu hserial).2.1

/-- `"kucomms_a"` -/
def deviceA : Name where
  ptr := some (fun k => (basename ++ [97]).getD k 0)
  len := 9

/-- What a kernel answers that has room for one more device. -/
def chrdevOk : ChrdevAnswer := ⟨240, 1⟩

/-- Tables with one device and its callbacks, from the functions that create
and register them. -/
def Registry.withDeviceA : Registry :=
  let r := kucommsInit .blank
  let r := ((charDeviceCreate (fun k => (basename ++ [97]).getD k 0) 9).run
    (RegAct.exec chrdevOk) r).2
  ((register deviceA ⟨1, 2, 3, 4⟩).run (RegAct.exec chrdevOk) r).2

/-- A run in which one of two threads opens the file. -/
theorem findAndOpen_exclusive_one :
    ∃ x : ((findAndOpenSys chrdevOk deviceA).machine (ι := Bool)
        (findAndOpenSys chrdevOk deviceA).Excludes).Conf,
      x.st.returned.length = 2 ∧ proceeding x.st.returned ≠ []
      ∧ (proceeding x.st.returned).length ≤ 1 := by
  have hx : ((findAndOpenSys chrdevOk deviceA).machine
      (findAndOpenSys chrdevOk deviceA).Excludes).Reach
      (Machine.start _
        ((findAndOpenSys chrdevOk deviceA).start Bool .withDeviceA))
      (Machine.start _
        ((findAndOpenSys chrdevOk deviceA).start Bool .withDeviceA)) := .refl
  have hx := hx.trans (LockSys.reach_acquire
    (K := findAndOpenSys chrdevOk deviceA) (i := false) (c := ()) rfl trivial
    rfl ⟨rfl, fun h => nomatch h⟩)
  have hx := hx.trans LockSys.reach_finish
  have hx := hx.trans (LockSys.reach_acquire
    (K := findAndOpenSys chrdevOk deviceA) (i := true) (c := ()) rfl trivial
    rfl ⟨rfl, fun h => nomatch h⟩)
  have hx := hx.trans LockSys.reach_finish
  exact ⟨_, rfl, List.ne_nil_of_length_pos (by decide +kernel),
    findAndOpen_exclusive hx⟩

/-! ## An interrupted attempt -/

/-- **With interrupted attempts two opens go on.** One thread has the mutex
and has loaded the open flag, which is clear; another is interrupted, goes
on, finds the flag clear as well and sets it; then the first sets it. -/
theorem findAndOpen_interrupted_both_open :
    (∃ u, Registry.withDeviceA.find .cblist deviceA = some u
      ∧ (Registry.withDeviceA.cblist u).isOpen = false)
    ∧ ∃ x : ((findAndOpenSys chrdevOk deviceA).machine (ι := Bool)
        fun _ _ _ => True).Conf,
      ((findAndOpenSys chrdevOk deviceA).machine fun _ _ _ => True).Reach
        (Machine.start _
          ((findAndOpenSys chrdevOk deviceA).start Bool .withDeviceA)) x
      ∧ (proceeding x.st.returned).length = 2 := by
  refine ⟨⟨0, by decide +kernel, by decide +kernel⟩, ?_⟩
  have hx : ((findAndOpenSys chrdevOk deviceA).machine
      fun _ _ _ => True).Reach
      (Machine.start _
        ((findAndOpenSys chrdevOk deviceA).start Bool .withDeviceA))
      (Machine.start _
        ((findAndOpenSys chrdevOk deviceA).start Bool .withDeviceA)) := .refl
  have hx := hx.trans (LockSys.reach_acquire
    (K := findAndOpenSys chrdevOk deviceA) (i := false) (c := ()) rfl trivial
    rfl trivial)
  -- the length, the nine bytes and the open flag
  have hx := hx.trans (LockSys.reach_steps 11)
  have hx := hx.trans (LockSys.reach_interrupt
    (K := findAndOpenSys chrdevOk deviceA) (i := true) (c := ()) rfl trivial
    trivial)
  have hx := hx.trans LockSys.reach_finish
  rw [Function.update_comm Bool.false_ne_true] at hx
  have hx := hx.trans LockSys.reach_finish
  exact ⟨_, hx, by decide +kernel⟩
