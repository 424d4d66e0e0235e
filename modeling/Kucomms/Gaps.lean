import Mathlib.Data.List.DropRight

/-!
# How much happens between two events

A log is a list of events, the latest last. Some events end a stretch of it
(`stop`), some are counted; how often the counted ones occur is bounded if no
stretch without a stop has more than `n` of them.

To keep such a bound while a log grows, one number is enough: how many were
counted since the last stop. `Paced` is the bound together with that number,
and says what an event does to it.
-/

namespace Gaps

variable {E : Type} (stop counted : E → Bool)

/-- **What was counted since the last stop.** -/
def sinceStop (log : List E) : ℕ :=
  (log.rtakeWhile (fun e => !stop e)).countP counted

/-- **No stretch without a stop has more than `n` counted events**, whether it
lies before the first, between two of them or behind the last. -/
def Within (n : ℕ) (log : List E) : Prop :=
  ∀ stretch, stretch <:+: log → (∀ e ∈ stretch, stop e = false) →
    stretch.countP counted ≤ n

variable {stop counted} {log : List E} {e : E} {n : ℕ}

theorem sinceStop_stop (he : stop e = true) :
    sinceStop stop counted (log ++ [e]) = 0 := by
  rw [sinceStop, List.rtakeWhile_concat_neg _ _ _ (by simp [he])]
  rfl

theorem sinceStop_counted (he : stop e = false) (hc : counted e = true) :
    sinceStop stop counted (log ++ [e]) = sinceStop stop counted log + 1 := by
  rw [sinceStop, List.rtakeWhile_concat_pos _ _ _ (by simp [he]),
    List.countP_append, List.countP_singleton, if_pos hc]
  rfl

theorem sinceStop_other (he : stop e = false) (hc : counted e = false) :
    sinceStop stop counted (log ++ [e]) = sinceStop stop counted log := by
  rw [sinceStop, List.rtakeWhile_concat_pos _ _ _ (by simp [he]),
    List.countP_append, List.countP_singleton, hc]
  rfl

/-- A stretch without a stop at the end of a log has been counted. -/
theorem countP_suffix_le {stretch : List E} (hsuffix : stretch <:+ log)
    (hstop : ∀ e ∈ stretch, stop e = false) :
    stretch.countP counted ≤ sinceStop stop counted log := by
  induction log using List.reverseRecOn generalizing stretch with
  | nil => rw [List.suffix_nil.mp hsuffix]; exact Nat.zero_le _
  | append_singleton log e ih =>
    rcases List.suffix_concat_iff.mp hsuffix with rfl | ⟨init, rfl, hinit⟩
    · exact Nat.zero_le _
    · have hinit' := ih hinit (fun x hx => hstop x
        (List.mem_append_left _ hx))
      have he : stop e = false := hstop e
        (List.mem_append_right _ (List.mem_singleton_self e))
      rw [List.countP_append, List.countP_singleton]
      cases hc : counted e with
      | true => rw [sinceStop_counted he hc]; exact Nat.succ_le_succ hinit'
      | false => rw [sinceStop_other he hc]; exact hinit'

theorem Within.nil : Within stop counted n [] := by
  intro stretch hinfix _
  rw [List.infix_nil.mp hinfix]
  exact Nat.zero_le _

/-- **A bound, and what is left of it**: no stretch has more than `n` counted
events, and the one that is open has `d` at most. -/
structure Paced (stop counted : E → Bool) (n d : ℕ) (log : List E) : Prop where
  within : Within stop counted n log
  since : sinceStop stop counted log ≤ d

namespace Paced

variable {d d' : ℕ}

theorem start : Paced stop counted n d [] :=
  ⟨.nil, Nat.zero_le _⟩

theorem mono (h : Paced stop counted n d log) (hd : d ≤ d') :
    Paced stop counted n d' log :=
  ⟨h.within, h.since.trans hd⟩

/-- The open stretch has kept to the bound, whatever else is known of it. -/
theorem since_le (h : Within stop counted n log) :
    sinceStop stop counted log ≤ n := by
  refine h _ (List.rtakeWhile_suffix _ _).isInfix (fun e he => ?_)
  have hstop := List.mem_rtakeWhile_imp he
  rwa [Bool.not_eq_true'] at hstop

/-- One more event is within bounds if the stretch it leaves open is. -/
theorem concat (h : Within stop counted n log)
    (hn : sinceStop stop counted (log ++ [e]) ≤ n)
    (hd : sinceStop stop counted (log ++ [e]) ≤ d) :
    Paced stop counted n d (log ++ [e]) := by
  refine ⟨fun stretch hinfix hstop => ?_, hd⟩
  rcases List.infix_concat_iff.mp hinfix with hsuffix | hinfix
  · exact (countP_suffix_le hsuffix hstop).trans hn
  · exact h stretch hinfix hstop

/-- **A stop** leaves nothing open. -/
theorem stopping (h : Paced stop counted n d log) (he : stop e = true) :
    Paced stop counted n 0 (log ++ [e]) := by
  refine concat h.within ?_ ?_
  · rw [sinceStop_stop he]
    exact Nat.zero_le n
  · rw [sinceStop_stop he]

/-- **A counted event**, while the bound leaves room for it. -/
theorem counting (h : Paced stop counted n d log) (he : stop e = false)
    (hc : counted e = true) (hd : d < n) :
    Paced stop counted n (d + 1) (log ++ [e]) := by
  have hsince := h.since
  refine concat h.within ?_ ?_
  · rw [sinceStop_counted he hc]
    omega
  · rw [sinceStop_counted he hc]
    omega

theorem skipping (h : Paced stop counted n d log) (he : stop e = false)
    (hc : counted e = false) : Paced stop counted n d (log ++ [e]) := by
  refine concat h.within ?_ ?_
  · rw [sinceStop_other he hc]
    exact since_le h.within
  · rw [sinceStop_other he hc]
    exact h.since

end Paced

end Gaps
