import Nodus.Runners
import Nodus.TaskVerdict

/-! Runners that share a store: their operations on a run call the store in any order, and the graphs they execute go on
meanwhile. -/

namespace Nodus.Workflow

open Orchestration (Run)

/-- Where an operation is: it calls the store, or it executes the graph. -/
inductive Phase where
  | calling (rest : Program)
  | executing (watched : Bool) (run : Run) (next : Option GraphResult → Program)

/-- An operation that is under way, with the claim under which it executes the graph and the numbers of all claims it has had. -/
structure Process where
  phase : Phase
  held : Option WorkflowClaim := none
  tokens : List Nat := []

structure System where
  /-- The record in the store. -/
  stored : Option WorkflowRunRecord
  processes : Nat → Option Process := fun _ => none
  called : Nat := 0
  /-- How many claims have been taken and how many waits have been registered. -/
  minted : Nat := 0
  registered : Nat := 0
  /-- The waits that a resume has cleared to execute the run. -/
  consumed : List Nat := []

/-- What happens next. The time and the answer are those that the process gets, the run is the one that it begins to
execute. -/
inductive Step where
  | call (op : Operation)
  | go (p : Nat) (now : Nat) (answer : Bool) (run : Run)
  | act (p : Nat) (act : Orchestration.Act)
  | finish (p : Nat) (result : Option GraphResult)
  | crash (p : Nat)

namespace System

variable {s : System} {ttl : Nat}

/-- The record in the store says that the run is cancelled. -/
def Cancelled (s : System) : Prop := ∃ record ∈ s.stored, record.status = .cancelled

instance (s : System) : Decidable s.Cancelled := inferInstanceAs (Decidable (∃ record ∈ s.stored, _))

def setProcess (s : System) (p : Nat) (process : Option Process) : System :=
  { s with processes := Function.update s.processes p process }

/-- A wait gets its number when it is registered. -/
def numbered (s : System) : Change → Change
  | .registerWait wait => .registerWait { wait with serial := s.registered }
  | change => change

/-- The wait that a change clears to execute the run. -/
def consumes (seen : WorkflowRunRecord) : Change → List Nat
  | .resume _ => (seen.wait.map WorkflowWaitRecord.serial).toList
  | _ => []

/-- `save_run`. -/
def save (s : System) (seen : WorkflowRunRecord) (change : Change) (now : Nat) : System :=
  { s with
    stored := some ((s.numbered change).apply now seen)
    registered := match change with
      | .registerWait _ => s.registered + 1
      | _ => s.registered
    consumed := consumes seen change ++ s.consumed }

/-- The next call of an operation. -/
def go (ttl : Nat) (s : System) (p : Nat) (process : Process) (now : Nat) (answer : Bool) (run : Run) : Program → System
  | .done => s.setProcess p none
  | .getRun next => s.setProcess p (some { process with phase := .calling (next now s.stored) })
  | .saveRun seen change next => (s.save seen change now).setProcess p (some { process with phase := .calling next })
  | .createRun record next =>
      { s with stored := some (s.stored.getD (record.saved now)) }.setProcess p
        (some { process with phase := .calling next })
  | .claimRun owner expectedStatuses next =>
      match s.stored.bind fun record => record.claimRun owner expectedStatuses ttl now s.minted with
      | none => s.setProcess p (some { process with phase := .calling (next none) })
      | some record =>
          { s with stored := some record, minted := s.minted + 1 }.setProcess p
            (some ⟨.calling (next record.claim), record.claim, s.minted :: process.tokens⟩)
  | .releaseClaim token next =>
      let release (record : WorkflowRunRecord) := (record.releaseClaim (some token) now).getD record
      { s with stored := s.stored.map release }.setProcess p
        (some { process with phase := .calling next, held := none })
  | .ask _ next => s.setProcess p (some { process with phase := .calling (next answer) })
  | .execute watched next => s.setProcess p (some { process with phase := .executing watched run next })

/-- What `schedule_ready` finds when it asks whether the run is cancelled. -/
def observed (s : System) (watched : Bool) : Orchestration.Act → Orchestration.Act
  | .turn thread _ => .turn thread (watched && decide s.Cancelled)
  | act => act

def step (ttl : Nat) (s : System) : Step → System
  | .call op => { s.setProcess s.called (some { phase := .calling op.program }) with called := s.called + 1 }
  | .go p now answer run =>
      match s.processes p with
      | some process => match process.phase with
        | .calling rest => s.go ttl p process now answer run rest
        | .executing _ _ _ => s
      | none => s
  | .act p act =>
      match s.processes p with
      | some process => match process.phase with
        | .calling _ => s
        | .executing watched run next =>
            s.setProcess p (some { process with phase := .executing watched (run.perform (s.observed watched act)) next })
      | none => s
  | .finish p result =>
      match s.processes p with
      | some process => match process.phase with
        | .calling _ => s
        | .executing _ _ next => s.setProcess p (some { process with phase := .calling (next result), held := none })
      | none => s
  | .crash p => s.setProcess p none

def runs (ttl : Nat) (s : System) (steps : List Step) : System := steps.foldl (step ttl) s

end System

/-! ### Cancelled runs -/

/-- The act begins a pass of `schedule_ready`. -/
def Boundary (run : Run) : Orchestration.Act → Prop
  | .turn thread _ => (run.frames thread).head? = some ⟨[], true⟩
  | _ => False

instance (run : Run) : (act : Orchestration.Act) → Decidable (Boundary run act)
  | .turn _ _ => inferInstanceAs (Decidable (_ = _))
  | .ends _ _ _ _ | .checkpoint _ | .cached _ _ => isFalse id

/-- A run that has been found cancelled starts nothing in this step: no pass is under way that has tasks left, and no attempt
fails that is retried. -/
def Winding (run : Run) : Orchestration.Act → Prop
  | .turn thread _ => run.next thread = none
  | .ends thread flight ending swept => run.Fits (.ends thread flight ending swept) ∧
      (run.Fails ending → ∀ t ∈ run.taskOf flight, (run.node t).maxRetries < (run.node t).attempts)
  | .checkpoint _ | .cached _ _ => True

instance (run : Run) : (act : Orchestration.Act) → Decidable (Winding run act)
  | .turn _ _ => inferInstanceAs (Decidable (_ = _))
  | .ends _ _ _ _ => inferInstanceAs (Decidable (_ ∧ (_ → ∀ t ∈ _, _)))
  | .checkpoint _ | .cached _ _ => isTrue trivial

/-- A run that has been found cancelled, or that an exception has ended. -/
def Ceased (run : Run) : Prop := run.cancelled = true ∨ run.crashed = true

theorem perform_of_crashed {run : Run} (h : run.crashed = true) (act : Orchestration.Act) : run.perform act = run := by
  unfold Run.perform
  rw [if_pos h]

theorem perform_boundary {run : Run} {thread : Nat} (h : Boundary run (.turn thread true)) :
    (run.perform (.turn thread true)).starts = run.starts ∧ Ceased (run.perform (.turn thread true)) := by
  by_cases hcrashed : run.crashed = true
  · rw [perform_of_crashed hcrashed]
    exact ⟨rfl, .inr hcrashed⟩
  · obtain ⟨outer, hframes⟩ : ∃ outer, run.frames thread = ⟨[], true⟩ :: outer := List.head?_eq_some_iff.mp h
    have hturn : run.perform (.turn thread true) = run.cancelInflight.setFrames thread outer := by
      unfold Run.perform
      rw [if_neg hcrashed]
      simp only [Run.turn, hframes, if_true]
    rw [hturn]
    unfold Run.cancelInflight
    split
    · exact ⟨rfl, .inl rfl⟩
    · exact ⟨rfl, .inl rfl⟩

theorem cancelled_complete (run : Run) (thread : Nat) (t : Orchestration.TaskId) (v : Orchestration.Value) (swept : Bool) :
    (run.complete thread t v swept).cancelled = run.cancelled := by
  unfold Run.complete
  simp only []
  split
  · split
    · exact Run.cancelled_failTask _ thread t swept
    · rfl
  · unfold Run.storeCached
    split
    · rfl
    · rfl

theorem cancelled_ends (run : Run) (thread flight : Nat) (ending : Orchestration.Ending) (swept : Bool) :
    (run.ends thread flight ending swept).cancelled = run.cancelled := by
  unfold Run.ends
  split
  · rfl
  · next t _ =>
      cases ending with
      | waits => rfl
      | returned v => exact cancelled_complete (run.pop flight) thread t v swept
      | errorValue v =>
          simp only []
          split
          · exact Run.cancelled_failTask (run.pop flight) thread t swept
          · exact cancelled_complete (run.pop flight) thread t v swept
      | raised => exact Run.cancelled_failTask (run.pop flight) thread t swept

theorem perform_winding {run : Run} (h : Ceased run) {act : Orchestration.Act} (hw : Winding run act) :
    (run.perform act).starts = run.starts ∧ Ceased (run.perform act) := by
  by_cases hcrashed : run.crashed = true
  · rw [perform_of_crashed hcrashed]
    exact ⟨rfl, .inr hcrashed⟩
  · have hcancelled : run.cancelled = true := h.resolve_right hcrashed
    unfold Run.perform
    rw [if_neg hcrashed]
    cases act with
    | turn thread cancelled =>
        simp only []
        refine ⟨?_, .inl ?_⟩
        · rcases Run.starts_turn run thread cancelled with hsame | ⟨t, rest, again, outer, hframes, -⟩
          · exact hsame
          · have hnext : run.next thread = some t := by
              unfold Run.next
              rw [hframes]
              rfl
            exact absurd (hw.symm.trans hnext) (by simp)
        · unfold Run.turn
          split
          · exact hcancelled
          · exact hcancelled
          · split
            · unfold Run.cancelInflight
              split
              · rfl
              · rfl
            · exact (Run.settleMapped_cancelled run).trans hcancelled
          · next t rest again outer hframes =>
              have hnext : run.next thread = some t := by
                unfold Run.next
                rw [hframes]
                rfl
              exact absurd (hw.symm.trans hnext) (by simp)
    | ends thread flight ending swept =>
        refine ⟨?_, .inl ((cancelled_ends run thread flight ending swept).trans hcancelled)⟩
        rcases Run.starts_ends run thread flight ending swept hw.1 with hsame | ⟨t, htask, -, -, hfails, hattempts⟩
        · exact hsame
        · exact absurd hattempts (Nat.not_le.mpr (hw.2 hfails t htask))
    | checkpoint label => exact ⟨rfl, .inl hcancelled⟩
    | cached key v => exact ⟨rfl, .inl hcancelled⟩

namespace System

variable {s : System} {ttl : Nat}

/-- What is written to a record that is cancelled: `cancel_run` writes that again, and `start_graph` what it has read. -/
def KeepsCancelled (seen : WorkflowRunRecord) : Change → Prop
  | .cancel => True
  | .stop => seen.status = .cancelled
  | _ => False

instance (seen : WorkflowRunRecord) : (change : Change) → Decidable (KeepsCancelled seen change)
  | .cancel => isTrue trivial
  | .stop => inferInstanceAs (Decidable (_ = _))
  | .start _ | .resume _ | .finish _ _ | .registerWait _ | .scheduleRetry _ | .expire _ _ _ | .rehydrate
  | .rehydrationFailed _ => isFalse id

/-- A process heeds a cancellation: only `cancel_run` writes a cancelled record, and `start_graph` when it has read that it is
cancelled; a graph that begins a pass asks whether the run is cancelled; and a run that has been found cancelled starts nothing. -/
def HeedsIn (s : System) : Step → Phase → Prop
  | .go _ _ _ _, .calling (.saveRun seen change _) => s.Cancelled → KeepsCancelled seen change
  | .act _ act, .executing watched run _ =>
      (s.Cancelled → Boundary run act → watched = true) ∧ (run.cancelled = true → Winding run act)
  | _, _ => True

instance (s : System) : (step : Step) → (phase : Phase) → Decidable (s.HeedsIn step phase)
  | .go _ _ _ _, .calling (.saveRun _ _ _) => inferInstanceAs (Decidable (_ → _))
  | .go _ _ _ _, .calling .done | .go _ _ _ _, .calling (.getRun _) | .go _ _ _ _, .calling (.createRun _ _)
  | .go _ _ _ _, .calling (.claimRun _ _ _) | .go _ _ _ _, .calling (.releaseClaim _ _)
  | .go _ _ _ _, .calling (.ask _ _) | .go _ _ _ _, .calling (.execute _ _) => isTrue trivial
  | .act _ _, .executing _ _ _ => inferInstanceAs (Decidable ((_ → _ → _) ∧ (_ → _)))
  | .go _ _ _ _, .executing _ _ _ | .act _ _, .calling _ | .call _, _ | .finish _ _, _ | .crash _, _ => isTrue trivial

/-- The process that goes on. -/
def Step.process : Step → Option Nat
  | .go p _ _ _ | .act p _ | .finish p _ | .crash p => some p
  | .call _ => none

def Heeds (s : System) (step : Step) : Prop :=
  ∀ p ∈ Step.process step, ∀ process ∈ s.processes p, s.HeedsIn step process.phase

instance (s : System) (step : Step) : Decidable (s.Heeds step) :=
  inferInstanceAs (Decidable (∀ p ∈ Step.process step, ∀ process ∈ s.processes p, _))

/-- Every step of a run heeds it. -/
def AllHeed (ttl : Nat) (s : System) : List Step → Prop
  | [] => True
  | step :: steps => s.Heeds step ∧ (s.step ttl step).AllHeed ttl steps

instance decidableAllHeed (ttl : Nat) (s : System) : (steps : List Step) → Decidable (s.AllHeed ttl steps)
  | [] => isTrue trivial
  | step :: steps => @instDecidableAnd _ _ _ (decidableAllHeed ttl (s.step ttl step) steps)

/-- A process that executes the graph starts nothing from the pass on that begins in a cancelled run. -/
def Stops (s : System) (step : Step) : Prop :=
  ∀ p act, step = .act p act → ∀ process ∈ s.processes p, ∀ watched run next,
    process.phase = .executing watched run next → Ceased run ∨ s.Cancelled ∧ Boundary run act →
      (run.perform (s.observed watched act)).starts = run.starts ∧ Ceased (run.perform (s.observed watched act))

/-- Once a run is cancelled it stays cancelled, and nothing is started from the next pass on. -/
structure StaysCancelled (ttl : Nat) (s : System) (steps : List Step) : Prop where
  status : ∀ before after, steps = before ++ after → (s.runs ttl before).Cancelled → (s.runs ttl steps).Cancelled
  stops : ∀ before step after, steps = before ++ step :: after → (s.runs ttl before).Stops step

theorem releaseClaim_status (record : WorkflowRunRecord) (token : Option Nat) (now : Nat) :
    ((record.releaseClaim token now).getD record).status = record.status := by
  unfold WorkflowRunRecord.releaseClaim
  split
  · rfl
  · rfl

theorem claimRun_eq_some {record record' : WorkflowRunRecord} {owner : String} {expectedStatuses : List RunStatus}
    {now token : Nat} (h : record.claimRun owner expectedStatuses ttl now token = some record') :
    record.status ∈ expectedStatuses ∧ record.Claimable now ∧
      record' = { record with claim := some ⟨token, owner, some (now + ttl)⟩, updatedAt := some now } := by
  unfold WorkflowRunRecord.claimRun at h
  split at h
  · next hclaimable => exact ⟨hclaimable.1, hclaimable.2, (Option.some.inj h).symm⟩
  · cases h

theorem Cancelled.go (h : s.Cancelled) {p : Nat} {process : Process} {now : Nat} {answer : Bool} {run : Run} {rest : Program}
    (hsave : ∀ seen change next, rest = .saveRun seen change next → KeepsCancelled seen change) :
    (s.go ttl p process now answer run rest).Cancelled := by
  obtain ⟨record, hrecord, hstatus⟩ := h
  have hstored : s.stored = some record := hrecord
  cases rest with
  | done => exact ⟨record, hrecord, hstatus⟩
  | getRun next => exact ⟨record, hrecord, hstatus⟩
  | saveRun seen change next =>
      have hkeeps := hsave seen change next rfl
      cases change with
      | cancel => exact ⟨_, rfl, rfl⟩
      | stop => exact ⟨_, rfl, hkeeps⟩
      | start claim => exact hkeeps.elim
      | resume checkpoint => exact hkeeps.elim
      | finish result resumed => exact hkeeps.elim
      | registerWait wait => exact hkeeps.elim
      | scheduleRetry retry => exact hkeeps.elim
      | expire nextStatus releaseSchedules nowMs => exact hkeeps.elim
      | rehydrate => exact hkeeps.elim
      | rehydrationFailed error => exact hkeeps.elim
  | createRun created next =>
      refine ⟨record, ?_, hstatus⟩
      show some (s.stored.getD (created.saved now)) = some record
      rw [hstored]
      rfl
  | claimRun owner expectedStatuses next =>
      simp only [System.go]
      split
      · exact ⟨record, hrecord, hstatus⟩
      · next record' hclaim =>
          rw [hstored] at hclaim
          obtain ⟨-, -, rfl⟩ := claimRun_eq_some hclaim
          exact ⟨_, rfl, hstatus⟩
  | releaseClaim token next =>
      refine ⟨(record.releaseClaim (some token) now).getD record, ?_, (releaseClaim_status record (some token) now).trans hstatus⟩
      show s.stored.map _ = _
      rw [hstored]
      rfl
  | ask question next => exact ⟨record, hrecord, hstatus⟩
  | execute watched next => exact ⟨record, hrecord, hstatus⟩

theorem Cancelled.step (h : s.Cancelled) {step : Step} (hheeds : s.Heeds step) : (s.step ttl step).Cancelled := by
  cases step with
  | call op => exact h
  | go p now answer run =>
      unfold System.step
      simp only []
      split
      · next process hprocess =>
          split
          · next rest hphase =>
              refine h.go fun seen change next hrest => ?_
              have hin := hheeds p rfl process hprocess
              rw [hphase, hrest] at hin
              exact hin h
          · exact h
      · exact h
  | act p act =>
      unfold System.step
      simp only []
      split
      · split
        · exact h
        · exact h
      · exact h
  | finish p result =>
      unfold System.step
      simp only []
      split
      · split
        · exact h
        · exact h
      · exact h
  | crash p => exact h

theorem Heeds.stops {step : Step} (hheeds : s.Heeds step) : s.Stops step := by
  rintro p act rfl process hprocess watched run next hphase hceased
  have hin := hheeds p rfl process hprocess
  rw [hphase] at hin
  obtain ⟨hwatched, hwinding⟩ := hin
  by_cases hrun : Ceased run
  · rcases hrun with hcancelled | hcrashed
    · have hw : Winding run (s.observed watched act) := by
        have hact := hwinding hcancelled
        cases act with
        | turn thread cancelled => exact hact
        | ends thread flight ending swept => exact hact
        | checkpoint label => exact hact
        | cached key v => exact hact
      exact perform_winding (.inl hcancelled) hw
    · rw [perform_of_crashed hcrashed]
      exact ⟨rfl, .inr hcrashed⟩
  · obtain ⟨hcancelled, hboundary⟩ := hceased.resolve_left hrun
    cases act with
    | turn thread found =>
        have hobserved : s.observed watched (.turn thread found) = .turn thread true := by
          unfold observed
          rw [hwatched hcancelled hboundary, decide_eq_true hcancelled]
          rfl
        rw [hobserved]
        exact perform_boundary hboundary
    | ends thread flight ending swept => exact hboundary.elim
    | checkpoint label => exact hboundary.elim
    | cached key v => exact hboundary.elim

theorem runs_append (s : System) (before after : List Step) :
    s.runs ttl (before ++ after) = (s.runs ttl before).runs ttl after := List.foldl_append

theorem allHeed_append {before after : List Step} (h : s.AllHeed ttl (before ++ after)) :
    (s.runs ttl before).AllHeed ttl after := by
  induction before generalizing s with
  | nil => exact h
  | cons step before ih => exact ih h.2

theorem Cancelled.runs (h : s.Cancelled) (steps : List Step) (hheed : s.AllHeed ttl steps) : (s.runs ttl steps).Cancelled := by
  induction steps generalizing s with
  | nil => exact h
  | cons step steps ih => exact ih (h.step hheed.1) hheed.2

def pendingRun : WorkflowRunRecord :=
  { runId := "run", status := .waiting, wait := some { eventType := "go", registeredAt := some storeTimeFloorMs } }

def oneTask : Run := Run.fresh (fun _ => {}) [⟨0, none⟩] false true

/-- A process goes on, and is told yes. -/
def goes (p : Nat) : Step := .go p (storeTimeFloorMs + 1) true oneTask

/-- The run is started, up to the execution of its graph, and cancelled before the first pass. -/
def startSteps : List Step :=
  [.call (.startGraph "vm:1" { runId := "run" }), goes 0, goes 0, goes 0, goes 0, goes 0, .call .cancelRun, goes 1, goes 1,
    .act 0 (.turn 0 false)]

/-- A run that waits is resumed and cancelled before the graph returns. -/
def resumeSteps : List Step :=
  .call (.resumeWorkflow { owner := "vm:1" }) :: List.replicate 11 (goes 0) ++
    [.call .cancelRun, goes 1, goes 1, .finish 0 (some { outcome := .completed }), goes 0, goes 0]

end System

end Nodus.Workflow
