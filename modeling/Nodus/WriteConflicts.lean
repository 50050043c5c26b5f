import Mathlib.Data.List.Sort
import Nodus.Ancestors
import Nodus.StateCells
import Nodus.TaskGraph

/-! What is said at the end of a run of tasks that have written one cell at the same time. -/

namespace Nodus.Orchestration

open Ancestors Relation

variable {K V : Type} [LinearOrder K]

local instance lawfulBEqKey : LawfulBEq K := inferInstance

/-! ### What is recorded of the writes -/

/-- What a step does to the cells, as far as `TrackedState` records it. -/
inductive CellAct (K V : Type) where
  | write (t : TaskId) (key : K) (v : V)
  | read (t : TaskId) (key : K)
  /-- A part of what a cell holds is assigned to, which makes it this. -/
  | openForWrite (t : TaskId) (key : K) (changed : V)
  /-- What a step has contributed to a cell is folded into it. -/
  | fold (t : TaskId) (key : K) (folded : V)
  /-- A task changes the object that it has assigned to a cell. The cell has a copy of its own. -/
  | change (t : TaskId) (key : K) (v : V)
  deriving DecidableEq, Repr

structure TrackedWrites (K V : Type) where
  cells : K → V
  /-- The cells that have been written, in the order of the first writes. -/
  keys : List K := []
  writes : K → List TaskId := fun _ => []
  writtenValues : K → TaskId → Option V := fun _ _ => none
  readsBeforeWrite : K → List TaskId := fun _ => []

namespace TrackedWrites

def note (x : TrackedWrites K V) (t : TaskId) (key : K) : TrackedWrites K V :=
  { x with
    keys := if key ∈ x.keys then x.keys else x.keys ++ [key]
    writes := Function.update x.writes key (x.writes key ++ [t]) }

/-- The value that is recorded of a task is the object that it has assigned. -/
def record (x : TrackedWrites K V) (t : TaskId) (key : K) (v : Option V) : TrackedWrites K V :=
  { x with writtenValues := Function.update x.writtenValues key (Function.update (x.writtenValues key) t v) }

/-- `__setitem__`. -/
def setItem (x : TrackedWrites K V) (t : TaskId) (key : K) (v : V) : TrackedWrites K V :=
  { (x.note t key).record t key (some v) with cells := Function.update x.cells key v }

/-- `__getitem__`. -/
def getItem (x : TrackedWrites K V) (t : TaskId) (key : K) : TrackedWrites K V :=
  match x.writtenValues key t with
  | none => { x with readsBeforeWrite := Function.update x.readsBeforeWrite key (t :: x.readsBeforeWrite key) }
  | some _ => x

/-- `open_for_write`, and the assignment that follows. What is recorded is what the cell held before it. -/
def openForWrite (x : TrackedWrites K V) (t : TaskId) (key : K) (changed : V) : TrackedWrites K V :=
  let x := x.getItem t key
  { x.setItem t key (x.cells key) with cells := Function.update x.cells key changed }

def perform (x : TrackedWrites K V) : CellAct K V → TrackedWrites K V
  | .write t key v => x.setItem t key v
  | .read t key => x.getItem t key
  | .openForWrite t key changed => x.openForWrite t key changed
  | .fold t key folded => { x.note t key with cells := Function.update x.cells key folded }
  | .change t key v => x.record t key ((x.writtenValues key t).map fun _ => v)

def run (x : TrackedWrites K V) (acts : List (CellAct K V)) : TrackedWrites K V := acts.foldl perform x

/-- `dict.fromkeys`: each of them once, in the order of the first time. -/
def distinct (ids : List TaskId) : List TaskId := ids.reverse.dedup.reverse

end TrackedWrites

/-! ### The report -/

structure WriteConflict (K : Type) where
  key : K
  tasks : TaskId × TaskId
  winner : TaskId
  readModifyWrite : List TaskId
  lostUpdate : Bool
  deriving DecidableEq, Repr

/-- `writers_agree`, of two. Two values whose comparison raises do not agree. -/
def writersAgree (same : V → V → Option Bool) (byTask : TaskId → Option V) (a b : TaskId) : Bool :=
  match byTask a, byTask b with
  | some v, some w => same v w = some true
  | _, _ => false

/-- What is said of a pair of writers. -/
def conflictOf (same : V → V → Option Bool) (x : TrackedWrites K V) (key : K) (pair : TaskId × TaskId) : WriteConflict K :=
  let readModifyWrite := [pair.1, pair.2].filter (· ∈ x.readsBeforeWrite key)
  { key := key
    tasks := pair
    winner := (x.writes key).getLast?.getD pair.1
    readModifyWrite := readModifyWrite
    lostUpdate := readModifyWrite ≠ [] || !writersAgree same (x.writtenValues key) pair.1 pair.2 }

/-- `concurrent_write_conflicts`, from a cell on. -/
def conflictsFrom (deps : TaskId → List TaskId) (fuel : Nat) (same : V → V → Option Bool) (x : TrackedWrites K V) :
    List K → Memo TaskId → List (WriteConflict K)
  | [], _ => []
  | key :: rest, memo =>
      let distinct := TrackedWrites.distinct (x.writes key)
      if distinct.length < 2 then conflictsFrom deps fuel same x rest memo
      else
        match firstPair deps fuel distinct memo with
        | (none, memo') => conflictsFrom deps fuel same x rest memo'
        | (some pair, memo') => conflictOf same x key pair :: conflictsFrom deps fuel same x rest memo'

/-- `concurrent_write_conflicts`. -/
def concurrentWriteConflicts (deps : TaskId → List TaskId) (fuel : Nat) (same : V → V → Option Bool) (x : TrackedWrites K V) :
    List (WriteConflict K) :=
  conflictsFrom deps fuel same x (x.keys.insertionSort (· ≤ ·)) fun _ => none

structure WriteWarning (K : Type) where
  key : K
  tasks : TaskId × TaskId
  winner : TaskId
  /-- Whether they are said to have read the cell before, or to have written different values. -/
  readModifyWrite : Bool
  deriving DecidableEq, Repr

/-- The warnings, and the error of a cell that is declared to be written once. -/
structure WriteReport (K : Type) where
  warnings : List (WriteWarning K) := []
  error : Option (K × TaskId × TaskId) := none
  deriving DecidableEq, Repr

/-- The loop of `report_write_conflicts`, under what the cells declare. -/
def reportConflicts (policies : K → Option MergePolicy) : List (WriteConflict K) → WriteReport K
  | [] => {}
  | conflict :: rest =>
      match policies conflict.key with
      | some .once => { error := some (conflict.key, conflict.tasks) }
      | some .any | some .sum | some .append | some .union => reportConflicts policies rest
      | none =>
          if conflict.lostUpdate then
            let warning :=
              { key := conflict.key, tasks := conflict.tasks, winner := conflict.winner,
                readModifyWrite := conflict.readModifyWrite ≠ [] }
            { reportConflicts policies rest with warnings := warning :: (reportConflicts policies rest).warnings }
          else reportConflicts policies rest

/-- The dependencies that `_ancestors_of` looks up. -/
def Run.dependenciesOf (s : Run) (t : TaskId) : List TaskId := if t ∈ s.tasks then (s.node t).dependencies else []

/-- `report_write_conflicts`. -/
def Run.reportWriteConflicts (s : Run) (fuel : Nat) (same : V → V → Option Bool) (policies : K → Option MergePolicy)
    (x : TrackedWrites K V) : WriteReport K :=
  reportConflicts policies (concurrentWriteConflicts s.dependenciesOf fuel same x)

end Nodus.Orchestration
