import Mathlib.Data.Finset.Basic
import Mathlib.Data.Finset.Card
import Kucomms.Refinement

/-!
# A directory of devices with callbacks

What the registry is for, without its slots: a set of devices, at most `n` at
a time, and for some of them the callbacks that are registered for it, of any
type `V`. Devices and callbacks are known by names, of any type `K`. Callbacks
that are in use are marked open, and keep their place while they are.

`Directory.step` is the specification of the six operations. An operation may
be asked for with a name or with callbacks that are not in order, which is
`none` here.
-/

/-- Registered callbacks. -/
structure Entry (V : Type) where
  callbacks : V
  isOpen : Bool

/-- **A directory**: the devices there are, and what is registered for
them. -/
structure Directory (K V : Type) where
  devices : Finset K
  entries : K → Option (Entry V)

namespace Directory

variable {K V : Type}

/-- The operations. -/
inductive Op (K V : Type) where
  /-- Create a device; `available` says whether the system has one left. -/
  | create (k : Option K) (available : Bool)
  | remove (k : Option K)
  | register (k : Option K) (v : Option V)
  | unregister (k : Option K)
  /-- Mark a name open. -/
  | findAndOpen (k : Option K)
  | findAndClose (k : Option K)

/-- The answers. -/
inductive Answer (V : Type) where
  | done (ok : Bool)
  /-- The callbacks of the name, if there are any, and whether they were
  open. -/
  | entry (v : Option V) (wasOpen : Bool)
  | closed

variable [DecidableEq K] (n : ℕ)

/-- No devices. -/
def empty : Directory K V := ⟨∅, fun _ => none⟩

/-- Change what is registered for a name. -/
def setEntry (d : Directory K V) (k : K) (e : Option (Entry V)) :
    Directory K V :=
  { d with entries := Function.update d.entries k e }

@[simp] theorem setEntry_self (d : Directory K V) (k : K)
    (e : Option (Entry V)) : (d.setEntry k e).entries k = e :=
  Function.update_self ..

theorem setEntry_ne (d : Directory K V) {k k' : K} (h : k' ≠ k)
    (e : Option (Entry V)) : (d.setEntry k e).entries k' = d.entries k' :=
  Function.update_of_ne h _ _

/-- Registering what is registered changes nothing. -/
theorem setEntry_eq_self {d : Directory K V} {k : K} {e : Option (Entry V)}
    (h : d.entries k = e) : d.setEntry k e = d := by
  unfold setEntry
  rw [← h, Function.update_eq_self]

theorem setEntry_setEntry (d : Directory K V) (k : K)
    (e e' : Option (Entry V)) :
    (d.setEntry k e).setEntry k e' = d.setEntry k e' := by
  unfold setEntry
  rw [Function.update_idem]

/-- **The specification.** -/
def step : Object (Op K V) (Answer V) (Directory K V)
  | .create (some k) available, d =>
    if k ∉ d.devices ∧ d.devices.card < n ∧ available = true then
      (.done true, { d with devices := insert k d.devices })
    else (.done false, d)
  | .remove (some k), d =>
    if k ∈ d.devices ∧ (d.entries k).isNone then
      (.done true, { d with devices := d.devices.erase k })
    else (.done false, d)
  | .register (some k) (some v), d =>
    if k ∈ d.devices ∧ (d.entries k).isNone then
      (.done true, d.setEntry k (some ⟨v, false⟩))
    else (.done false, d)
  | .unregister (some k), d =>
    match d.entries k with
    | none => (.done true, d)
    | some e =>
      if e.isOpen then (.done false, d) else (.done true, d.setEntry k none)
  | .findAndOpen (some k), d =>
    match d.entries k with
    | none => (.entry none false, d)
    | some e =>
      (.entry (some e.callbacks) e.isOpen,
        d.setEntry k (some { e with isOpen := true }))
  | .findAndClose (some k), d =>
    match d.entries k with
    | none => (.closed, d)
    | some e => (.closed, d.setEntry k (some { e with isOpen := false }))
  | .create none _, d | .remove none, d | .register none _, d
  | .register (some _) none, d => (.done false, d)
  | .unregister none, d => (.done true, d)
  | .findAndOpen none, d => (.entry none false, d)
  | .findAndClose none, d => (.closed, d)

end Directory
