import Mathlib.Data.List.Defs
import Mathlib.Data.List.ReduceOption

/-!
# Objects and refinement

An object answers operations one after the other, each operation giving an
answer and the next state. `Object.run` is what it answers to a list of
them. One object *refines* another when related states give the same answers
and stay related; then no list of operations tells them apart
(`Object.Refines.run`). An object may also give an operation up before it has
done anything, as by throwing an exception; it refines one that never does in
what it carries out (`Object.RefinesOrThrows.run`).
-/

/-- **An object** with operations `Op`, answers `Ans` and states `S`. -/
abbrev Object (Op Ans S : Type) : Type := Op → S → Ans × S

namespace Object

variable {Op Ans S T : Type}

/-- The answers to a list of operations, and the state after them. -/
def run (O : Object Op Ans S) : List Op → S → List Ans × S
  | [], s => ([], s)
  | op :: ops, s =>
    let r := O op s
    let rest := run O ops r.2
    (r.1 :: rest.1, rest.2)

/-- **Refinement**: an operation asked for in good order gets the same answer
from both, and leaves them related. -/
def Refines (O : Object Op Ans S) (P : Object Op Ans T) (valid : Op → Prop)
    (rel : S → T → Prop) : Prop :=
  ∀ op s t, valid op → rel s t →
    (O op s).1 = (P op t).1 ∧ rel (O op s).2 (P op t).2

/-- **Refinement over runs of any length.** -/
theorem Refines.run {O : Object Op Ans S} {P : Object Op Ans T}
    {valid : Op → Prop} {rel : S → T → Prop} (h : O.Refines P valid rel)
    {ops : List Op} (hops : ∀ op ∈ ops, valid op) {s : S} {t : T}
    (hst : rel s t) :
    (O.run ops s).1 = (P.run ops t).1
      ∧ rel (O.run ops s).2 (P.run ops t).2 := by
  induction ops generalizing s t with
  | nil => exact ⟨rfl, hst⟩
  | cons op ops ih =>
    obtain ⟨hans, hrel⟩ := h op s t (hops op (by simp)) hst
    obtain ⟨hrest, hfinal⟩ :=
      ih (fun op hop => hops op (List.mem_cons_of_mem _ hop)) hrel
    exact ⟨congrArg₂ List.cons hans hrest, hfinal⟩

/-- **Refinement with exceptions**, which are the answers `none`: an operation
gets the same answer from both, and leaves them related, or it is given up
and changes nothing. Those that are `sure` are not given up. -/
def RefinesOrThrows (O : Object Op (Option Ans) S) (P : Object Op Ans T)
    (valid sure : Op → Prop) (rel : S → T → Prop) : Prop :=
  ∀ op s t, valid op → rel s t →
    (O op s).1 = some (P op t).1 ∧ rel (O op s).2 (P op t).2
    ∨ O op s = (none, s) ∧ ¬sure op

/-- The operations that were answered. -/
def carriedOut : List Op → List (Option Ans) → List Op
  | op :: ops, some _ :: answers => op :: carriedOut ops answers
  | _ :: ops, none :: answers => carriedOut ops answers
  | _, _ => []

/-- **Refinement with exceptions over runs of any length**: the operations
that were not given up are answered as if there had been no others. -/
theorem RefinesOrThrows.run {O : Object Op (Option Ans) S}
    {P : Object Op Ans T} {valid sure : Op → Prop} {rel : S → T → Prop}
    (h : O.RefinesOrThrows P valid sure rel) {ops : List Op}
    (hops : ∀ op ∈ ops, valid op) {s : S} {t : T} (hst : rel s t) :
    (O.run ops s).1.reduceOption
        = (P.run (carriedOut ops (O.run ops s).1) t).1
      ∧ rel (O.run ops s).2 (P.run (carriedOut ops (O.run ops s).1) t).2
      ∧ ∀ p ∈ ops.zip (O.run ops s).1, p.2 = none → ¬sure p.1 := by
  induction ops generalizing s t with
  | nil => exact ⟨rfl, hst, fun _ hp => nomatch hp⟩
  | cons op ops ih =>
    have hrest : ∀ op ∈ ops, valid op := fun op hop =>
      hops op (List.mem_cons_of_mem _ hop)
    obtain ⟨hans, hrel⟩ | ⟨hthrows, hsure⟩ :=
      h op s t (hops op (by simp)) hst
    · obtain ⟨hanswers, hfinal, hnone⟩ := ih hrest hrel
      simp only [Object.run, hans, carriedOut, List.reduceOption_cons_of_some]
      refine ⟨congrArg (_ :: ·) hanswers, hfinal, ?_⟩
      rw [List.zip_cons_cons]
      exact List.forall_mem_cons.mpr ⟨(fun h => nomatch h), hnone⟩
    · obtain ⟨hanswers, hfinal, hnone⟩ := ih hrest hst
      simp only [Object.run, hthrows, carriedOut,
        List.reduceOption_cons_of_none]
      refine ⟨hanswers, hfinal, ?_⟩
      rw [List.zip_cons_cons]
      exact List.forall_mem_cons.mpr ⟨fun _ => hsure, hnone⟩

/-- **An invariant over runs of any length.** -/
theorem invariant {O : Object Op Ans S} {I : S → Prop}
    (h : ∀ op s, I s → I (O op s).2) (ops : List Op) {s : S} (hs : I s) :
    I (O.run ops s).2 := by
  induction ops generalizing s with
  | nil => exact hs
  | cons op ops ih => exact ih (h op s hs)

end Object
