import Nodus.StateCells
import Nodus.TaskVerdict

/-! The state of a workflow while its steps run. What a step contributes to a folded cell is kept in a record of its own,
and is folded into the cell when the attempt ends, whichever way it ends. -/

namespace Nodus.Orchestration

/-! ### What a step of a run starts -/

namespace Run

variable {s s' s'' : Run} {t : TaskId}

/-- At most one task is started; it has its result at once, or its body runs under a new number. -/
inductive Spawns (s s' : Run) : Prop
  | idle (hrunning : s'.running = s.running) (hspawned : s'.spawned = s.spawned) (hstarts : s'.starts = s.starts)
  | hit (t : TaskId) (hrunning : s'.running = s.running) (hspawned : s'.spawned = s.spawned)
      (hstarts : s'.starts = t :: s.starts) (hresult : s'.results t ≠ none)
  | launch (t : TaskId) (hrunning : s'.running = (s.spawned, t) :: s.running) (hspawned : s'.spawned = s.spawned + 1)
      (hstarts : s'.starts = t :: s.starts)

theorem Spawns.of_eq (h : Spawns s' s'') (hrunning : s'.running = s.running) (hspawned : s'.spawned = s.spawned)
    (hstarts : s'.starts = s.starts) : Spawns s s'' := by
  cases h with
  | idle hr hs ht => exact .idle (hr.trans hrunning) (hs.trans hspawned) (ht.trans hstarts)
  | hit t hr hs ht hresult => exact .hit t (hr.trans hrunning) (hs.trans hspawned) (hstarts ▸ ht) hresult
  | launch t hr hs ht =>
      rw [hspawned] at hr hs
      rw [hrunning] at hr
      rw [hstarts] at ht
      exact .launch t hr hs ht

theorem spawns_spawnTask (s : Run) (thread : Nat) (t : TaskId) : Spawns s (s.spawnTask thread t) := by
  unfold spawnTask
  split
  · exact .idle rfl rfl rfl
  · split
    · exact .idle rfl rfl rfl
    · split
      · next v _ =>
          refine .hit t rfl rfl rfl ?_
          show Function.update s.results t (some v) t ≠ none
          rw [Function.update_self]
          exact Option.some_ne_none v
      · exact .launch t rfl rfl rfl

theorem spawns_failTask (s : Run) (thread : Nat) (t : TaskId) (swept : Bool) : Spawns s (s.failTask thread t swept) := by
  have hmark : ∀ x : Run, (x.markPending t).running = x.running ∧ (x.markPending t).spawned = x.spawned ∧
      (x.markPending t).starts = x.starts := by
    intro x
    unfold Run.markPending
    split
    · exact ⟨rfl, rfl, rfl⟩
    · exact ⟨rfl, rfl, rfl⟩
  unfold failTask
  split
  · split
    · obtain ⟨hrunning, hspawned, hstarts⟩ := hmark (s.setStatus t .retryScheduled)
      exact .idle hrunning hspawned hstarts
    · obtain ⟨hrunning, hspawned, hstarts⟩ := hmark (s.setStatus t .retrying)
      exact (spawns_spawnTask _ thread t).of_eq hrunning hspawned hstarts
  · split
    · exact .idle rfl rfl rfl
    · split
      · exact .idle rfl rfl rfl
      · exact .idle rfl rfl rfl

theorem spawns_complete (s : Run) (thread : Nat) (t : TaskId) (v : Value) (swept : Bool) :
    Spawns s (s.complete thread t v swept) := by
  unfold complete
  simp only []
  split
  · split
    · exact (spawns_failTask (s.record t v) thread t swept).of_eq rfl rfl rfl
    · exact .idle rfl rfl rfl
  · unfold storeCached
    split
    · exact .idle rfl rfl rfl
    · exact .idle rfl rfl rfl

theorem spawns_ends {flight : Nat} (htask : s.taskOf flight = some t) (thread : Nat) (ending : Ending) (swept : Bool) :
    Spawns (s.pop flight) (s.ends thread flight ending swept) := by
  unfold ends
  rw [htask]
  cases ending with
  | waits => exact .idle rfl rfl rfl
  | returned v => exact spawns_complete (s.pop flight) thread t v swept
  | errorValue v =>
      simp only []
      split
      · exact spawns_failTask (s.pop flight) thread t swept
      · exact spawns_complete (s.pop flight) thread t v swept
  | raised => exact spawns_failTask (s.pop flight) thread t swept

/-- `schedule_ready` on a thread is about to find out that the run has been cancelled, and to end the coroutines. -/
def Unwinds (s : Run) (thread : Nat) (cancelled : Bool) : Prop :=
  cancelled = true ∧ s.workers = false ∧ (s.frames thread).head? = some ⟨[], true⟩

instance (s : Run) (thread : Nat) (cancelled : Bool) : Decidable (s.Unwinds thread cancelled) :=
  inferInstanceAs (Decidable (_ ∧ _ ∧ _))

theorem spawns_turn (s : Run) (thread : Nat) (cancelled : Bool) :
    Spawns s (s.turn thread cancelled) ∨ s.Unwinds thread cancelled ∧ (s.turn thread cancelled).running = [] ∧
      (s.turn thread cancelled).spawned = s.spawned ∧ (s.turn thread cancelled).starts = s.starts := by
  unfold Run.turn
  split
  · exact .inl (.idle rfl rfl rfl)
  · exact .inl (.idle rfl rfl rfl)
  · next outer hframes =>
      split
      · next hcancelled =>
          unfold cancelInflight
          split
          · exact .inl (.idle rfl rfl rfl)
          · next hworkers =>
              refine .inr ⟨⟨hcancelled, Bool.eq_false_iff.mpr hworkers, ?_⟩, rfl, rfl, rfl⟩
              rw [hframes]
              rfl
      · exact .inl (.idle (settleMapped_eq Run.running (fun _ _ _ => rfl) s) (settleMapped_eq Run.spawned (fun _ _ _ => rfl) s)
          (settleMapped_eq Run.starts (fun _ _ _ => rfl) s))
  · next t rest again outer _ =>
      left
      split
      · exact .idle rfl rfl rfl
      · split
        · have hsame : (s.expandMapped t).running = s.running ∧ (s.expandMapped t).spawned = s.spawned ∧
              (s.expandMapped t).starts = s.starts := by
            unfold expandMapped
            simp only []
            split
            · split
              · exact ⟨rfl, rfl, rfl⟩
              · split
                · exact ⟨rfl, rfl, rfl⟩
                · exact ⟨rfl, rfl, rfl⟩
            · exact ⟨rfl, rfl, rfl⟩
          exact .idle hsame.1 hsame.2.1 hsame.2.2
        · exact (spawns_spawnTask (s.setFrames thread (⟨rest, again⟩ :: outer)) thread t).of_eq rfl rfl rfl

/-- The task that a step has started. -/
def started (s s' : Run) : Option TaskId := if s'.starts.length = s.starts.length then none else s'.starts.head?

theorem Spawns.started (h : Spawns s s') : s.started s' = none ∧ s'.running = s.running ∧ s'.spawned = s.spawned ∨
    ∃ t, s.started s' = some t ∧ (s'.running = s.running ∧ s'.spawned = s.spawned ∧ s'.results t ≠ none ∨
      s'.running = (s.spawned, t) :: s.running ∧ s'.spawned = s.spawned + 1) := by
  have hnew : ∀ t, s'.starts = t :: s.starts → s.started s' = some t := by
    intro t ht
    unfold Run.started
    rw [ht, if_neg (by simp)]
    rfl
  cases h with
  | idle hr hs ht =>
      left
      refine ⟨?_, hr, hs⟩
      unfold Run.started
      rw [ht, if_pos rfl]
  | hit t hr hs ht hresult => exact .inr ⟨t, hnew t ht, .inl ⟨hr, hs, hresult⟩⟩
  | launch t hr hs ht => exact .inr ⟨t, hnew t ht, .inr ⟨hr, hs⟩⟩

end Run

/-! ### The state -/

/-- What a step has contributed so far: to every cell the values in their order. -/
structure StepWrites (K V : Type) where
  contributions : List (K × List (Cell V)) := []

/-- An attempt that has ended, in which execution of the run, with the number of its body and what this has contributed. -/
structure Attempt (K V : Type) where
  execution : Nat
  flight : Nat
  task : TaskId
  made : List (K × Cell V)

/-- What a checkpoint has recorded. -/
structure Mark (K V : Type) where
  label : String
  task : TaskId
  /-- The cells without what the step itself has contributed: `resume_state`, or `state` where there is nothing of it. -/
  base : K → Cell V
  /-- The attempts that had ended then. -/
  after : List (Attempt K V)

/-- A run of a workflow with its state. -/
structure Tracked (K V : Type) where
  run : Run
  policies : K → MergePolicy
  durable : K → Bool := fun _ => true
  cells : K → Cell V
  /-- The records that are open. -/
  steps : TaskId → Option (StepWrites K V) := fun _ => none
  marks : List (Mark K V) := []
  /-- What every body has contributed, by its number. -/
  made : Nat → List (K × Cell V) := fun _ => []
  /-- The bodies that have ended, the first one first, with their tasks. -/
  ended : List (Nat × TaskId) := []
  /-- The number of the execution: a resumed run is executed once more. -/
  execution : Nat := 0
  /-- The attempts of earlier executions that have ended, but for those of steps that were to be run again. -/
  past : List (Attempt K V) := []

inductive StateAct (K V : Type) where
  | act (act : Act)
  | contribute (flight : Nat) (key : K) (value : Cell V)
  /-- `cell = value`. -/
  | write (key : K) (value : Cell V)
  /-- A list that has been contributed is changed in its place. The record holds the list itself. -/
  | changeWrites (t : TaskId) (key : K) (i : Nat) (items : List V)
  /-- So is a list that has become part of a cell. -/
  | changeCell (key : K) (items : List V)
  | checkpoint (flight : Nat) (label : String)

section state

variable {K V : Type} [DecidableEq K] {values : Values V}

/-- `contribute`. -/
def addContribution (key : K) (value : Cell V) : List (K × List (Cell V)) → List (K × List (Cell V))
  | [] => [(key, [value])]
  | (k, contributed) :: rest =>
      if k = key then (k, contributed ++ [value]) :: rest else (k, contributed) :: addContribution key value rest

/-- The contributions of a step are folded one cell after the other, up to the first fold that raises. -/
def foldAll (values : Values V) (policies : K → MergePolicy) (cells : K → Cell V) :
    List (K × List (Cell V)) → (K → Cell V) × Bool
  | [] => (cells, true)
  | (key, contributed) :: rest =>
      match foldContributions values (policies key) (cells key) contributed with
      | none => (cells, false)
      | some folded => foldAll values policies (Function.update cells key folded) rest

namespace Tracked

variable {x : Tracked K V}

/-- `begin_step`. -/
def beginStep (x : Tracked K V) (t : TaskId) : Tracked K V := { x with steps := Function.update x.steps t (some {}) }

/-- `end_step`. The record is closed before its contributions are folded. -/
def endStep (values : Values V) (x : Tracked K V) (t : TaskId) : Tracked K V × Bool :=
  match x.steps t with
  | none => (x, true)
  | some writes =>
      ({ x with
          steps := Function.update x.steps t none
          cells := (foldAll values x.policies x.cells writes.contributions).1 },
        (foldAll values x.policies x.cells writes.contributions).2)

/-- The run goes on. A record is opened for the task that is started, if there is one, also if it has its result at once. -/
def follow (x : Tracked K V) (run : Run) : Tracked K V :=
  match x.run.started run with
  | none => { x with run }
  | some t => { x.beginStep t with run }

/-- The attempt of a body ends, however it ends. What it has contributed is folded first; if this raises, a worker thread
counts it as a failure of the task, and it ends the run otherwise. -/
def endAttempt (values : Values V) (x : Tracked K V) (t : TaskId) (thread flight : Nat) (ending : Ending) (swept : Bool) :
    Tracked K V :=
  let closed := { (x.endStep values t).1 with ended := x.ended ++ [(flight, t)] }
  if (x.endStep values t).2 then closed.follow (x.run.perform (.ends thread flight ending swept))
  else if x.run.workers then closed.follow (x.run.perform (.ends thread flight .raised swept))
  else { closed with run := { x.run.pop flight with crashed := true } }

/-- `state_contribute`, called by a body that is running. -/
def contribute (values : Values V) (x : Tracked K V) (flight : Nat) (key : K) (value : Cell V) : Tracked K V :=
  match x.run.taskOf flight with
  | none => x
  | some t =>
      match x.steps t with
      | none => x
      | some writes =>
          if checkContribution values (x.policies key) value then
            { x with
              steps := Function.update x.steps t (some ⟨addContribution key value writes.contributions⟩)
              made := Function.update x.made flight (x.made flight ++ [(key, value)]) }
          else x

/-- The attempts that have ended. -/
def attempts (x : Tracked K V) : List (Attempt K V) :=
  x.past ++ x.ended.map fun p => ⟨x.execution, p.1, p.2, x.made p.1⟩

/-- `_record_checkpoint`, unless the pending folds raise. -/
def mark (values : Values V) (x : Tracked K V) (flight : Nat) (label : String) : Tracked K V :=
  match x.run.taskOf flight with
  | none => x
  | some t =>
      match x.steps t with
      | none => x
      | some writes =>
          if (foldAll values x.policies x.cells writes.contributions).2 then
            { x with
              run := x.run.perform (.checkpoint label)
              marks := ⟨label, t, fun key => if x.durable key then x.cells key else .nil, x.attempts⟩ :: x.marks }
          else x

/-- The elements of a list that has been contributed are others now. -/
def relist (items : List V) : Cell V → Cell V
  | .list _ => .list items
  | value => value

def changeWrites (x : Tracked K V) (t : TaskId) (key : K) (i : Nat) (items : List V) : Tracked K V :=
  match x.steps t with
  | none => x
  | some writes =>
      { x with
        steps := Function.update x.steps t (some ⟨writes.contributions.map fun p =>
          if p.1 = key then (p.1, p.2.modify i (relist items)) else p⟩) }

def perform (values : Values V) (x : Tracked K V) (act : StateAct K V) : Tracked K V :=
  if x.run.crashed then x
  else match act with
    | .act (.ends thread flight ending swept) =>
        match x.run.taskOf flight with
        | none => x
        | some t => x.endAttempt values t thread flight ending swept
    | .act act => x.follow (x.run.perform act)
    | .contribute flight key value => x.contribute values flight key value
    | .write key value => { x with cells := Function.update x.cells key value }
    | .changeWrites t key i items => x.changeWrites t key i items
    | .changeCell key items => { x with cells := Function.update x.cells key (relist items (x.cells key)) }
    | .checkpoint flight label => x.mark values flight label

def track (values : Values V) (x : Tracked K V) (acts : List (StateAct K V)) : Tracked K V :=
  acts.foldl (perform values) x

end Tracked

end state

end Nodus.Orchestration
