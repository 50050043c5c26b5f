import Mathlib.Data.Finset.Basic
import Mathlib.Data.List.Dedup
import Mathlib.Data.List.Sort
import Mathlib.Logic.Function.Basic

/-! Task graphs: which tasks are ready, how they are started, and what is made of their ends. The bodies of the tasks run
elsewhere, as coroutines or on worker threads; every call of `schedule_ready` that is under way has a frame. -/

namespace Nodus.Orchestration

/-- The id of a task, or of an instance of a mapped task. -/
structure TaskId where
  task : Nat
  index : Option Nat := none
  deriving DecidableEq, Repr

/-- `JOIN_ON_STATES`. -/
inductive JoinState where
  | completed
  | failed
  | skipped
  deriving DecidableEq, Repr

inductive TaskStatus where
  | pending
  | running
  | done
  | completed
  | failed
  | retrying
  | retryScheduled
  | expanded
  | skipped
  deriving DecidableEq, Repr

inductive Value where
  | nil
  | atom (n : Nat)
  | list (items : List Value)
  deriving Repr

mutual

def Value.decEq : (v w : Value) → Decidable (v = w)
  | .nil, .nil => isTrue rfl
  | .atom n, .atom m => decidable_of_iff (n = m) ⟨congrArg _, Value.atom.inj⟩
  | .list vs, .list ws =>
      match Value.decEqList vs ws with
      | isTrue h => isTrue (congrArg _ h)
      | isFalse h => isFalse fun h' => h (Value.list.inj h')
  | .nil, .atom _ | .nil, .list _ | .atom _, .nil | .atom _, .list _ | .list _, .nil | .list _, .atom _ =>
      isFalse fun h => by cases h

def Value.decEqList : (vs ws : List Value) → Decidable (vs = ws)
  | [], [] => isTrue rfl
  | [], _ :: _ | _ :: _, [] => isFalse fun h => by cases h
  | v :: vs, w :: ws =>
      match Value.decEq v w, Value.decEqList vs ws with
      | isTrue h, isTrue h' => isTrue (h ▸ h' ▸ rfl)
      | isFalse h, _ => isFalse fun he => h (List.cons.inj he).1
      | _, isFalse h => isFalse fun he => h (List.cons.inj he).2

end

instance : DecidableEq Value := Value.decEq

/-- A `when` guard. -/
inductive Predicate where
  | reached (label : String)
  | not (operand : Predicate)
  | and (left right : Predicate)
  | or (left right : Predicate)
  deriving DecidableEq, Repr

/-- `_evaluate_goal_predicate`. -/
def Predicate.holds (reached : List String) : Predicate → Bool
  | .reached label => decide (label ∈ reached)
  | .not operand => !operand.holds reached
  | .and left right => left.holds reached && right.holds reached
  | .or left right => left.holds reached || right.holds reached

/-- The key of a result in the cache: the one the task declares, or the name of its function with what it is given. -/
inductive CacheKey where
  | named (key : String) (index : Option Nat)
  | default (fnName : String) (deps : List Value)
  deriving DecidableEq, Repr

structure TaskNode where
  dependencies : List TaskId := []
  onStates : Finset JoinState := {.completed}
  guard : Option Predicate := none
  fnName : String := "<anonymous>"
  maxRetries : Nat := 0
  cache : Bool := false
  cacheKey : Option String := none
  allowFailure : Bool := false
  /-- The dependency whose result is the list that a mapped task runs over. -/
  eachSource : Option TaskId := none
  eachIndex : Option Nat := none
  eachValue : Value := .nil
  eachDepIndex : Nat := 0
  status : TaskStatus := .pending
  attempts : Nat := 0

namespace TaskNode

/-- A declared mapped task, which is never run itself. -/
def Mapped (node : TaskNode) : Prop := node.eachSource ≠ none ∧ node.eachIndex = none

instance (node : TaskNode) : Decidable node.Mapped := inferInstanceAs (Decidable (_ ∧ _))

/-- `tolerates_failure`. -/
def ToleratesFailure (node : TaskNode) : Prop := node.onStates ≠ {.completed}

instance (node : TaskNode) : Decidable node.ToleratesFailure := inferInstanceAs (Decidable (_ ≠ _))

end TaskNode

/-- A call of `schedule_ready`: the tasks of its pass that it has not come to yet, and whether another pass follows. -/
structure Frame where
  rest : List TaskId := []
  again : Bool := true
  deriving DecidableEq, Repr

/-- How the body of a task ends. -/
inductive Ending where
  | returned (v : Value)
  /-- The body returns an error value. -/
  | errorValue (v : Value)
  /-- The body returns the value of a workflow wait. -/
  | waits
  | raised

/-- A run of a graph. -/
structure Run where
  node : TaskId → TaskNode
  /-- Those of the graph, and the instances of the mapped ones. -/
  tasks : List TaskId
  /-- There is a dispatcher, and the bodies run on worker threads. -/
  workers : Bool := false
  /-- The run is one of a workflow or of a goal. -/
  flow : Bool := false
  pending : List TaskId
  /-- The hint of a resumed run at the order of the ready tasks. -/
  order : TaskId → Nat := fun _ => 0
  results : TaskId → Option Value := fun _ => none
  /-- The bodies that are running, by the number of their coroutine or worker thread. -/
  running : List (Nat × TaskId) := []
  spawned : Nat := 0
  failed : Bool := false
  waiting : Option TaskId := none
  retryScheduled : Option TaskId := none
  skipped : List TaskId := []
  /-- `mapped_expanded`: the expanded tasks with their instances. -/
  expanded : List (TaskId × List TaskId) := []
  taskCache : CacheKey → Option Value := fun _ => none
  /-- The labels of the checkpoints reached so far. -/
  labels : List String := []
  /-- The calls of `schedule_ready` on every thread, the innermost first. -/
  frames : Nat → List Frame := fun _ => []
  /-- The run has been found cancelled. -/
  cancelled : Bool := false
  /-- An exception has ended the run. -/
  crashed : Bool := false
  /-- The attempts that have been started, the latest first. -/
  starts : List TaskId := []
  /-- Those of them that retry a failed attempt. -/
  retries : List TaskId := []
  /-- The tasks that are parked at a wait nobody has answered yet. -/
  parked : List TaskId := []

namespace Run

def setNode (s : Run) (t : TaskId) (f : TaskNode → TaskNode) : Run :=
  { s with node := Function.update s.node t (f (s.node t)) }

def setStatus (s : Run) (t : TaskId) (status : TaskStatus) : Run := s.setNode t fun node => { node with status := status }

def setFrames (s : Run) (thread : Nat) (frames : List Frame) : Run :=
  { s with frames := Function.update s.frames thread frames }

/-- `schedule_ready` is called. -/
def call (s : Run) (thread : Nat) : Run := s.setFrames thread ({} :: s.frames thread)

/-- `_remove_task_from_pending`. -/
def removePending (s : Run) (t : TaskId) : Run := { s with pending := s.pending.filter (· ≠ t) }

/-- `_mark_task_pending`. -/
def markPending (s : Run) (t : TaskId) : Run := if t ∈ s.pending then s else { s with pending := s.pending ++ [t] }

/-- `_dep_satisfied`. -/
def depSatisfied (s : Run) (t dep : TaskId) : Bool :=
  if (s.results dep).isSome then decide (.completed ∈ (s.node t).onStates)
  else if (s.node dep).status = .failed then decide (.failed ∈ (s.node t).onStates)
  else if dep ∈ s.skipped then decide (.skipped ∈ (s.node t).onStates)
  else false

/-- `ready_tasks`. -/
def readyTasks (s : Run) : List TaskId :=
  (s.tasks.filter fun t => decide (t ∈ s.pending) && (s.node t).dependencies.all (s.depSatisfied t)).insertionSort
    fun t u => s.order t ≤ s.order u

/-- `guard_holds`. -/
def guardHolds (s : Run) (t : TaskId) : Bool :=
  match (s.node t).guard with
  | none => true
  | some predicate => predicate.holds s.labels

/-- `MAX_MAPPED_INSTANCES`. -/
def maxMappedInstances : Nat := 1024

/-- A mapped task that does not expand. -/
def conclude (s : Run) (t : TaskId) (status : TaskStatus) : Run :=
  { (s.setStatus t status).removePending t with
    failed := s.failed || decide (status = .failed ∧ (s.node t).allowFailure = false) }

/-- The node of an instance. -/
def instanceNode (node : TaskNode) (dep : Nat) (index : Nat) (item : Value) : TaskNode :=
  { node with
    eachSource := none, eachIndex := some index, eachValue := item, eachDepIndex := dep, status := .pending, attempts := 0 }

def instanceIds (t : TaskId) (items : List Value) : List TaskId :=
  (List.range items.length).map fun i => ⟨t.task, some i⟩

/-- A mapped task with its items becomes that many instances. -/
def expand (s : Run) (t : TaskId) (dep : Nat) (items : List Value) : Run :=
  { (s.setStatus t .expanded).removePending t with
    node := fun u => if u ∈ instanceIds t items then
        instanceNode (s.node t) dep (u.index.getD 0) (items.getD (u.index.getD 0) .nil) else (s.setStatus t .expanded).node u
    tasks := s.tasks ++ instanceIds t items
    pending := (s.removePending t).pending ++ instanceIds t items
    expanded := s.expanded ++ [(t, instanceIds t items)] }

/-- `expand_mapped`. -/
def expandMapped (s : Run) (t : TaskId) : Run :=
  let node := s.node t
  let source := node.dependencies.find? fun dep => node.eachSource = some dep
  match source.bind s.results with
  | some (.list items) =>
      if maxMappedInstances < items.length then s.conclude t .failed
      else if items.isEmpty then { s.conclude t .skipped with skipped := t :: s.skipped }
      else s.expand t ((source.map node.dependencies.idxOf).getD 0) items
  | _ => s.conclude t .failed

/-- What the instances of a mapped task have come to: nothing yet while one of them is not done, a failure, or a list. -/
def outcomes (s : Run) (allowFailure : Bool) : List TaskId → Option (Option (List Value))
  | [] => some (some [])
  | i :: rest =>
      match s.results i with
      | some v => (s.outcomes allowFailure rest).map fun values => values.map (v :: ·)
      | none =>
          if (s.node i).status = .failed ∨ i ∈ s.skipped then
            if allowFailure = false ∧ (s.node i).status = .failed then some none
            else (s.outcomes allowFailure rest).map fun values => values.map (.nil :: ·)
          else none

/-- `_settle_mapped_parent`. -/
def settleMappedParent (s : Run) (parent : TaskId) (instances : List TaskId) : Run × Bool :=
  if (s.node parent).status ≠ .expanded then (s, false)
  else match s.outcomes (s.node parent).allowFailure instances with
    | none => (s, false)
    | some none => (s.setStatus parent .failed, true)
    | some (some values) =>
        ({ s.setStatus parent .done with results := Function.update s.results parent (some (.list values)) }, true)

def settleMapped (s : Run) : Run × Bool :=
  s.expanded.foldl (fun (acc : Run × Bool) p => ((acc.1.settleMappedParent p.1 p.2).1,
    acc.2 || (acc.1.settleMappedParent p.1 p.2).2)) (s, false)

/-- What a task is given: the result of every dependency, or nil, and its item in the place of the list. -/
def args (s : Run) (t : TaskId) : List Value :=
  let node := s.node t
  let values := node.dependencies.map fun dep => (s.results dep).getD .nil
  if node.eachIndex.isSome then values.set node.eachDepIndex node.eachValue else values

/-- `task.cache_key or _default_cache_key`. -/
def cacheKey (s : Run) (t : TaskId) (values : List Value) : CacheKey :=
  match (s.node t).cacheKey with
  | some key => .named key (s.node t).eachIndex
  | none => .default (s.node t).fnName values

/-- An attempt begins. -/
def start (s : Run) (t : TaskId) : Run :=
  { (s.setNode t fun node => { node with status := .running, attempts := node.attempts + 1 }).removePending t with
    starts := t :: s.starts
    retries := if (s.node t).status = .retrying ∨ (s.node t).status = .retryScheduled then t :: s.retries else s.retries }

/-- The result of a task is recorded. -/
def record (s : Run) (t : TaskId) (v : Value) : Run :=
  { s.setStatus t .done with results := Function.update s.results t (some v) }

/-- The body of a task is handed to a coroutine or a worker thread. -/
def launch (s : Run) (t : TaskId) : Run := { s with running := (s.spawned, t) :: s.running, spawned := s.spawned + 1 }

/-- `spawn_task`. The task is not looked for among the pending ones. -/
def spawnTask (s : Run) (thread : Nat) (t : TaskId) : Run :=
  if s.waiting.isSome then s
  else if s.failed ∧ ¬ (s.node t).ToleratesFailure then s
  else match if (s.node t).cache then s.taskCache (s.cacheKey t (s.args t)) else none with
    | some v => ((s.start t).record t v).call thread
    | none => (s.start t).launch t

/-- `_fail_task`. -/
def failTask (s : Run) (thread : Nat) (t : TaskId) (swept : Bool) : Run :=
  if (s.node t).attempts ≤ (s.node t).maxRetries then
    if s.flow ∧ swept then { (s.setStatus t .retryScheduled).markPending t with retryScheduled := some t }
    else ((s.setStatus t .retrying).markPending t).spawnTask thread t
  else if (s.node t).allowFailure then (s.setStatus t .failed).call thread
  else if s.failed then s.setStatus t .failed
  else { s.setStatus t .failed with failed := true }.call thread

/-- `_pause_for_wait`. -/
def pauseForWait (s : Run) (t : TaskId) : Run := { s.record t .nil with waiting := some t, parked := t :: s.parked }

/-- The key under which a result is stored asks for the result of every dependency. -/
def KeyMissing (s : Run) (t : TaskId) : Prop :=
  (s.node t).cache = true ∧ (s.node t).cacheKey = none ∧ ∃ dep ∈ (s.node t).dependencies, s.results dep = none

instance (s : Run) (t : TaskId) : Decidable (s.KeyMissing t) := inferInstanceAs (Decidable (_ ∧ _ ∧ _))

def storeCached (s : Run) (t : TaskId) (v : Value) : Run :=
  if (s.node t).cache then
    let key := s.cacheKey t ((s.node t).dependencies.map fun dep => (s.results dep).getD .nil)
    { s with taskCache := Function.update s.taskCache key (some v) }
  else s

/-- A body returns a value. On a worker thread a missing key counts as a failure of the task; it ends the run otherwise. -/
def complete (s : Run) (thread : Nat) (t : TaskId) (v : Value) (swept : Bool) : Run :=
  let s' := s.record t v
  if s'.KeyMissing t then
    if s.workers then s'.failTask thread t swept else { s' with crashed := true }
  else (s'.storeCached t v).call thread

/-- `_cancel_inflight_tasks`. The bodies on worker threads are not reached. -/
def cancelInflight (s : Run) : Run :=
  if s.workers then { s with cancelled := true }
  else
    { s with
      cancelled := true
      node := fun t => if t ∈ s.running.map Prod.snd then { s.node t with status := .failed } else s.node t
      running := [] }

/-- The guard of a task says no. -/
def skip (s : Run) (t : TaskId) : Run := { s.removePending t with skipped := t :: s.skipped }

/-- `schedule_ready` on a thread goes on: it begins a pass, or comes to the next task of the one it is in, or returns. -/
def turn (s : Run) (thread : Nat) (cancelled : Bool) : Run :=
  match s.frames thread with
  | [] => s
  | ⟨[], false⟩ :: outer => s.setFrames thread outer
  | ⟨[], true⟩ :: outer =>
      if cancelled then s.cancelInflight.setFrames thread outer
      else
        let pass := s.settleMapped
        pass.1.setFrames thread (⟨pass.1.readyTasks, pass.2⟩ :: outer)
  | ⟨t :: rest, again⟩ :: outer =>
      if s.guardHolds t = false then (s.skip t).setFrames thread (⟨rest, true⟩ :: outer)
      else if (s.node t).Mapped then (s.expandMapped t).setFrames thread (⟨rest, true⟩ :: outer)
      else (s.setFrames thread (⟨rest, again⟩ :: outer)).spawnTask thread t

/-- The task whose body a coroutine or a worker thread runs. -/
def taskOf (s : Run) (flight : Nat) : Option TaskId := (s.running.find? (·.1 = flight)).map Prod.snd

/-- `running.pop`. -/
def pop (s : Run) (flight : Nat) : Run := { s with running := s.running.filter (·.1 ≠ flight) }

/-- `on_complete` and `on_error`, and what a worker thread does when its body is done. -/
def ends (s : Run) (thread flight : Nat) (ending : Ending) (swept : Bool) : Run :=
  match s.taskOf flight with
  | none => s
  | some t =>
      let s' := s.pop flight
      match ending with
      | .waits => s'.pauseForWait t
      | .returned v => s'.complete thread t v swept
      | .errorValue v => if s.flow then s'.failTask thread t swept else s'.complete thread t v swept
      | .raised => s'.failTask thread t swept

end Run

/-- What happens in a run, in any order: `schedule_ready` goes on, a body ends, a body reaches a checkpoint, or another
run on the same machine puts a result into the cache. -/
inductive Act where
  | turn (thread : Nat) (cancelled : Bool)
  | ends (thread flight : Nat) (ending : Ending) (swept : Bool)
  | checkpoint (label : String)
  | cached (key : CacheKey) (v : Value)

namespace Run

def perform (s : Run) (act : Act) : Run :=
  if s.crashed then s
  else match act with
    | .turn thread cancelled => s.turn thread cancelled
    | .ends thread flight ending swept => s.ends thread flight ending swept
    | .checkpoint label => { s with labels := label :: s.labels }
    | .cached key v => { s with taskCache := Function.update s.taskCache key (some v) }

def run (s : Run) (acts : List Act) : Run := acts.foldl perform s

/-- The run of a graph, up to the first call of `schedule_ready`. -/
def fresh (node : TaskId → TaskNode) (tasks : List TaskId) (workers flow : Bool) : Run :=
  { node, tasks, workers, flow, pending := tasks.dedup, frames := fun thread => if thread = 0 then [{}] else [] }

/-- What is saved of a task. -/
structure SavedTask where
  state : TaskStatus
  attempts : Nat := 0
  result : Option Value := none
  deriving DecidableEq, Repr

/-- `_persist_graph_state`, as far as a task is concerned. -/
def saved (s : Run) (t : TaskId) : Option SavedTask :=
  if t ∈ s.tasks then some ⟨(s.node t).status, (s.node t).attempts, s.results t⟩ else none

/-- A task of a resumed run. After one that has failed for good nothing is restored any more. -/
def restoreTask (saved : TaskId → Option SavedTask) (s : Run) (t : TaskId) : Run :=
  if s.failed then s
  else match saved t with
    | none => s
    | some task =>
        let s' := s.setNode t fun node => { node with attempts := task.attempts }
        match task.state with
        | .completed | .done =>
            { (s'.setStatus t .completed).removePending t with
              results := Function.update s.results t (some (task.result.getD .nil)) }
        | .failed =>
            if (s.node t).allowFailure then (s'.setStatus t .failed).removePending t
            else { s'.setStatus t .failed with failed := true }
        | _ => s'.setStatus t .pending

/-- The tasks that have no result are pending, those whose failure was tolerated among them. -/
def markUnrecorded (s : Run) : Run :=
  s.tasks.foldl (fun s t => if (s.results t).isNone then s.markPending t else s) s

/-- A resumed run, up to the first call of `schedule_ready`, if there is one. -/
def resumed (node : TaskId → TaskNode) (tasks : List TaskId) (workers flow : Bool) (saved : TaskId → Option SavedTask)
    (storedPending : Option (List TaskId)) (order : TaskId → Nat) (labels : List String) (parked : List TaskId) : Run :=
  let pending := match storedPending with
    | some stored => (stored.filter (· ∈ tasks)).dedup
    | none => tasks.dedup
  let s : Run := tasks.foldl (restoreTask saved)
    { node, tasks, workers, flow, pending, order, labels, parked }
  if s.failed then s
  else { s.markUnrecorded with frames := fun thread => if thread = 0 then [{}] else [] }

end Run

/-- What is reported of a task: one of `TASK_STATUSES`, or the status it has otherwise. -/
inductive Reported where
  | completed
  | failed
  | upstreamFailed
  | skipped
  | omitted
  | cancelled
  | abandoned
  | other (status : TaskStatus)
  deriving DecidableEq, Repr

/-- Why tasks have not run. -/
structure Closure where
  blocked : List TaskId := []
  omitted : List TaskId := []
  skipped : List TaskId := []
  deriving DecidableEq, Repr

namespace Run

def failedIds (s : Run) : List TaskId := s.tasks.filter fun t => (s.node t).status = .failed

/-- What a dependency says of a task that has not run. -/
def blame (s : Run) (closure : Closure) (t dep : TaskId) : Option Reported :=
  if dep ∈ closure.blocked ∨ (dep ∈ s.failedIds ∧ .failed ∉ (s.node t).onStates) then some .upstreamFailed
  else if dep ∈ closure.skipped ∧ .skipped ∉ (s.node t).onStates then some .skipped
  else if dep ∈ closure.omitted ∨ ((s.results dep).isSome ∧ .completed ∉ (s.node t).onStates) then some .omitted
  else none

/-- The task has run, or it is known why not. -/
def Placed (s : Run) (closure : Closure) (t : TaskId) : Prop :=
  s.results t ≠ none ∨ t ∈ s.failedIds ∨ t ∈ closure.blocked ∨ t ∈ closure.omitted ∨ t ∈ closure.skipped

instance (s : Run) (closure : Closure) (t : TaskId) : Decidable (s.Placed closure t) :=
  inferInstanceAs (Decidable (_ ∨ _ ∨ _ ∨ _ ∨ _))

def classify (s : Run) (closure : Closure) (t : TaskId) : Closure :=
  if s.Placed closure t then closure
  else match (s.node t).dependencies.findSome? (s.blame closure t) with
    | some .upstreamFailed => { closure with blocked := t :: closure.blocked }
    | some .skipped => { closure with skipped := t :: closure.skipped }
    | some .omitted => { closure with omitted := t :: closure.omitted }
    | _ => closure

/-- As many passes as there are tasks: after the last one that changes anything the others change nothing. -/
def closure (s : Run) : Closure :=
  (List.range s.tasks.length).foldl (fun closure _ => s.tasks.foldl s.classify closure) { skipped := s.skipped }

/-- `task_statuses`. -/
def reported (s : Run) (t : TaskId) : Reported :=
  if s.results t ≠ none then .completed
  else if t ∈ s.failedIds then .failed
  else if t ∈ s.closure.blocked then .upstreamFailed
  else if t ∈ s.closure.skipped then .skipped
  else if t ∈ s.closure.omitted then .omitted
  else if (s.node t).status = .running then .abandoned
  else if s.failedIds ≠ [] then .cancelled
  else .other (s.node t).status

/-- The pending tasks that nothing explains. -/
def unexplained (s : Run) : List TaskId :=
  s.tasks.filter fun t => t ∈ s.pending ∧ s.reported t ∉ [.omitted, .upstreamFailed, .cancelled, .skipped]

/-- The tasks that a failed run names. -/
def failedNames (s : Run) : List TaskId :=
  s.tasks.filter fun t => (s.node t).eachIndex = none ∧ (s.node t).status = .failed ∧ (s.node t).allowFailure = false

end Run

/-- What a run returns. -/
inductive Report where
  | failed (names : List TaskId)
  | waiting (t : TaskId)
  | retryScheduled (t : TaskId)
  /-- The workflow error about missing dependencies. -/
  | missing (tasks : List TaskId)
  | completed
  deriving DecidableEq, Repr

def Run.report (s : Run) : Report :=
  if s.failed then .failed s.failedNames
  else match s.waiting, s.retryScheduled with
    | some t, _ => .waiting t
    | none, some t => .retryScheduled t
    | none, none => if s.unexplained ≠ [] then .missing s.unexplained else .completed

end Nodus.Orchestration
