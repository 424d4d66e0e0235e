import Mathlib.Algebra.BigOperators.Group.List.Basic
import Mathlib.Algebra.GroupWithZero.Nat
import Kucomms.Refinement

/-!
# A bounded FIFO of records in a circle

What a message queue is for, without its bytes: a list of records, of which
only so many fit. The records lie in a circle of `L` cells, one after the
other from the position `rd`; a record that fits may be added, the first one
may be taken. The position matters for one thing only: whether a record lies
in one piece, so that it can be handed out in place, or straddles the end of
the circle and has to be copied.

`Fifo.step` is the specification of the eight operations. The records are of
any type `M`, with a size for each.
-/

/-- **A bounded FIFO**: the records held, and the position of the first. -/
structure Fifo (M : Type) where
  rd : ℕ
  records : List M

namespace Fifo

variable {M : Type}

/-- The operations. -/
inductive Op (M : Type) where
  /-- Add a record by copying it in. -/
  | add (m : M)
  /-- Reserve a place for a record, and fill it if it is in one piece. -/
  | addInPlace (m : M)
  /-- Take the first record by copying it out to a place of `limit` cells. -/
  | get (limit : ℕ)
  /-- The size of the first record. -/
  | nextLength
  /-- Show the first record, and take it if it is in one piece. -/
  | getInPlace
  /-- The number of cells in use. -/
  | getAvail
  /-- The number of cells that may still be used. -/
  | getFree

/-- The answers. -/
inductive Answer (M : Type) where
  | added (ok : Bool)
  /-- `none` for a refusal, otherwise the place, if it is in one piece. -/
  | reserved (place : Option (Option ℕ))
  | got (m : Option M) (error : Bool)
  /-- `none` if there is no record, otherwise the record, if it is in one
  piece. -/
  | shown (m : Option (Option M))
  | nextLength (n : Option ℕ)
  | cells (n : ℕ)

variable (size : M → ℕ) (L : ℕ)

/-- The number of cells in use. -/
def inUse (f : Fifo M) : ℕ := (f.records.map size).sum

/-- The position behind the last record. -/
def wr (f : Fifo M) : ℕ := (f.rd + f.inUse size) % L

/-- Append a record. -/
def push (f : Fifo M) (m : M) : Fifo M := { f with records := f.records ++ [m] }

/-- Give up the first record `m`, leaving `rest`. -/
def pop (f : Fifo M) (m : M) (rest : List M) : Fifo M :=
  ⟨(f.rd + size m) % L, rest⟩

/-- **The specification**: a record is added exactly if it leaves a cell
free, and taken from the front. -/
def step : Object (Op M) (Answer M) (Fifo M)
  | .add m, f =>
    if f.inUse size + size m ≤ L - 1 then (.added true, f.push m)
    else (.added false, f)
  | .addInPlace m, f =>
    if f.inUse size + size m ≤ L - 1 then
      if f.wr size L + size m ≤ L then
        (.reserved (some (some (f.wr size L))), f.push m)
      else (.reserved (some none), f)
    else (.reserved none, f)
  | .get limit, f =>
    match f.records with
    | [] => (.got none false, f)
    | m :: rest =>
      if size m ≤ limit then (.got (some m) false, f.pop size L m rest)
      else (.got none true, f)
  | .nextLength, f => (.nextLength (f.records.head?.map size), f)
  | .getInPlace, f =>
    match f.records with
    | [] => (.shown none, f)
    | m :: rest =>
      if f.rd + size m ≤ L then (.shown (some (some m)), f.pop size L m rest)
      else (.shown (some none), f)
  | .getAvail, f => (.cells (f.inUse size), f)
  | .getFree, f => (.cells (L - 1 - f.inUse size), f)

end Fifo
