import Nodus.RunRecords

/-! The operations of a workflow runner on one run, as programs that call the store. An operation reads the record of the run,
decides on what it has read, and writes the whole record back; whatever else it depends on are questions that are answered when
it asks them. -/

namespace Nodus.Workflow

/-- What `run_task_graph` returns, as far as the runner looks at it. -/
inductive GraphOutcome where
  | waiting (wait : Option WorkflowWaitRecord)
  | retryScheduled (retry : Option RetryMetadata)
  | failed (error : Option String) (retry : Option RetryMetadata) (compensation : Bool)
  | completed
  deriving DecidableEq

structure GraphResult where
  outcome : GraphOutcome
  /-- The label of the last checkpoint. -/
  checkpoint : Option String := none
  deriving DecidableEq

/-- `_result_status`. -/
def resultStatus : GraphOutcome → RunStatus × Option String
  | .waiting _ => (.waiting, none)
  | .retryScheduled retry => (.retryScheduled, retry.bind RetryMetadata.lastError)
  | .failed error _ _ => (.failed, error)
  | .completed => (.completed, none)

/-- What an operation makes of the record it has read. -/
inductive Change where
  /-- `cancel_run`. -/
  | cancel
  /-- `start_graph` before it executes the graph, and `resume_workflow`. -/
  | start (claim : WorkflowClaim)
  | resume (checkpoint : Option String)
  /-- Both after they have executed it, and `start_graph` if the run has been cancelled meanwhile. -/
  | finish (result : GraphResult) (resumed : Bool)
  | stop
  | registerWait (wait : WorkflowWaitRecord)
  | scheduleRetry (retry : RetryMetadata)
  | expire (nextStatus : RunStatus) (releaseSchedules : Bool) (nowMs : Nat)
  /-- `_rehydrate_run_claimed`. -/
  | rehydrate
  | rehydrationFailed (error : String)

namespace WorkflowRunRecord

def cancel (record : WorkflowRunRecord) (now : Nat) : WorkflowRunRecord :=
  { record with status := .cancelled, claim := none, cancelledFrom := some record.status, cancelledAt := some now }

def start (record : WorkflowRunRecord) (claim : WorkflowClaim) : WorkflowRunRecord :=
  { record with status := .running, claim := some claim }

def resume (record : WorkflowRunRecord) (checkpoint : Option String) : WorkflowRunRecord :=
  { record with
    status := .running
    wait := none
    resumeCount := record.resumeCount + 1
    retry := none
    currentCheckpoint := checkpoint <|> record.currentCheckpoint }

/-- A resumed run keeps the last checkpoint if it reaches none. -/
def finish (record : WorkflowRunRecord) (result : GraphResult) (resumed : Bool) : WorkflowRunRecord :=
  let record := { record with
    status := (resultStatus result.outcome).1
    lastError := (resultStatus result.outcome).2
    currentCheckpoint := result.checkpoint <|> if resumed then record.currentCheckpoint else none }
  match result.outcome with
  | .completed => { record with retry := none }
  | .failed _ retry compensation =>
      { record with retry := retry <|> record.retry, compensated := record.compensated || compensation }
  | .waiting _ | .retryScheduled _ => record

end WorkflowRunRecord

/-- The record that is saved. -/
def Change.apply (change : Change) (now : Nat) (record : WorkflowRunRecord) : WorkflowRunRecord :=
  (match change with
    | .cancel => record.cancel now
    | .start claim => record.start claim
    | .resume checkpoint => record.resume checkpoint
    | .finish result resumed => record.finish result resumed
    | .stop => { record with claim := none }
    | .registerWait wait => record.registerWait wait now
    | .scheduleRetry retry => record.scheduleRetry retry
    | .expire nextStatus releaseSchedules nowMs =>
        (record.expireWaitTimeout nowMs nextStatus releaseSchedules).getD record
    | .rehydrate => { record with rehydratedAt := some now, rehydratedStatus := some record.status }
    | .rehydrationFailed error => { record with lastError := some error }).saved now

/-- What an operation asks for besides the record. -/
inductive Question where
  /-- `vm_factory` returns a VM that can rebuild graphs. -/
  | vmAvailable
  /-- `load_graph_state` finds the state of the run, whose status is `waiting`. -/
  | stateFound
  | stateWaiting
  /-- The graph is registered, for this VM; it can be rebuilt; it has a predicate to ask whether the run is cancelled. -/
  | graphRegistered
  | graphRebuilt
  | graphWatched
  | checkpointFound
  /-- The payload has the shape that the wait has declared. -/
  | payloadAccepted
  /-- No other run waits for the event, or it is for all of them. -/
  | unambiguous
  /-- The run has been idle for long enough to be adopted. -/
  | idleEnough
  deriving DecidableEq

/-- What an operation is still to do. -/
inductive Program where
  | done
  /-- The time is the one that is read next. -/
  | getRun (next : Nat → Option WorkflowRunRecord → Program)
  | saveRun (seen : WorkflowRunRecord) (change : Change) (next : Program)
  | createRun (record : WorkflowRunRecord) (next : Program)
  | claimRun (owner : String) (expectedStatuses : List RunStatus) (next : Option WorkflowClaim → Program)
  | releaseClaim (token : Nat) (next : Program)
  | ask (question : Question) (next : Bool → Program)
  /-- `run_task_graph`, of a graph with the predicate or without it. It returns or raises. -/
  | execute (watched : Bool) (next : Option GraphResult → Program)

namespace Program

/-- `register_wait`, and `mark_waiting`. -/
def registerWait (wait : WorkflowWaitRecord) (next : Program) : Program :=
  getRun fun _ record => match record with
    | none => next
    | some record => saveRun record (.registerWait wait) next

/-- `schedule_retry`. -/
def scheduleRetry (retry : RetryMetadata) (next : Program) : Program :=
  getRun fun _ record => match record with
    | none => next
    | some record => saveRun record (.scheduleRetry retry) next

/-- `expire_wait_timeout`, with the record it has expired. -/
def expireWaitTimeout (releaseSchedules : Bool) (next : Option WorkflowRunRecord → Program) : Program :=
  getRun fun now record => match record with
    | none => next none
    | some record => match record.expireWaitTimeout now .deadLettered releaseSchedules with
      | none => next none
      | some expired => saveRun record (.expire .deadLettered releaseSchedules now) (next (some expired))

/-- `cancel_run`. -/
def cancelRun : Program :=
  getRun fun _ record => match record with
    | none => done
    | some record => if record.status ∈ RunStatus.terminal then done else saveRun record .cancel done

/-- `_mark_wait_from_result` and `_mark_retry_from_result`. -/
def markFromResult (result : GraphResult) (next : Program) : Program :=
  match result.outcome with
  | .waiting (some wait) => registerWait wait next
  | .retryScheduled (some retry) => scheduleRetry retry next
  | _ => next

/-- `start_graph`. The claim is given back also if an exception ends the run. -/
def startGraph (owner : String) (record : WorkflowRunRecord) : Program :=
  createRun record <| claimRun owner RunStatus.claimable fun claim => match claim with
    | none => done
    | some claim =>
        let executed : Program := execute true fun result => match result with
          | none => releaseClaim claim.token done
          | some result => getRun fun _ record => match record with
            | none => markFromResult result (releaseClaim claim.token done)
            | some record =>
                if record.status = .cancelled then saveRun record .stop (releaseClaim claim.token done)
                else saveRun record (.finish result false) (markFromResult result (releaseClaim claim.token done))
        getRun fun _ record => match record with
          | none => executed
          | some record => saveRun record (.start claim) executed

/-- A call of `resume_workflow`. -/
structure ResumeCall where
  owner : String
  checkpoint : Option String := none
  withPayload : Bool := false
  eventType : Option String := none
  correlationKey : Option String := none
  /-- The time at which a retry is due, if the caller gives one. -/
  nowMs : Option Nat := none

/-- What is asked of a wait that is to be resumed for an event. -/
def Matches (call : ResumeCall) (record : WorkflowRunRecord) : Prop :=
  (∀ eventType ∈ call.eventType, record.wait.map WorkflowWaitRecord.eventType = some eventType) ∧
    ∀ key ∈ call.correlationKey, record.wait.bind WorkflowWaitRecord.correlationKey = some key

instance (call : ResumeCall) (record : WorkflowRunRecord) : Decidable (Matches call record) :=
  inferInstanceAs (Decidable ((∀ eventType ∈ call.eventType, _) ∧ ∀ key ∈ call.correlationKey, _))

/-- `claim_waiting_run_for_resume`. -/
def claimWaitingRun (call : ResumeCall) (next : Option WorkflowClaim → Program) : Program :=
  getRun fun _ record => match record with
    | none => next none
    | some record =>
        if record.wait ≠ none ∧ record.status = .waiting ∧ Matches call record then
          claimRun call.owner [.waiting] next
        else next none

/-- The graph of a resumed run is executed, with the claim. -/
def executeResumed (call : ResumeCall) (claim : WorkflowClaim) (watched : Bool) (next : Program) : Program :=
  let executed : Program := execute watched fun result => match result with
    | none => releaseClaim claim.token next
    | some result => getRun fun _ record => match record with
      | none => markFromResult result (releaseClaim claim.token next)
      | some record =>
          saveRun record (.finish result true) (markFromResult result (releaseClaim claim.token next))
  getRun fun _ record => match record with
    | none => executed
    | some record => saveRun record (.resume call.checkpoint) executed

/-- A resumed run is rolled back to a checkpoint, if it is to be. -/
def resumeAt (call : ResumeCall) (claim : WorkflowClaim) (watched : Bool) (next : Program) : Program :=
  if call.checkpoint.isSome then ask .checkpointFound fun found =>
    if found then executeResumed call claim watched next else releaseClaim claim.token next
  else executeResumed call claim watched next

/-- The graph of a resumed run is looked up or rebuilt. A graph that is rebuilt has no predicate. -/
def resumeGraph (call : ResumeCall) (claim : WorkflowClaim) (next : Program) : Program :=
  ask .graphRegistered fun registered =>
    if registered then ask .graphWatched fun watched => resumeAt call claim watched next
    else ask .graphRebuilt fun rebuilt =>
      if rebuilt then resumeAt call claim false next else releaseClaim claim.token next

/-- What `resume_workflow` does when it has the claim. A run that waits is not resumed from a checkpoint alone. -/
def resumeClaimed (call : ResumeCall) (seen : WorkflowRunRecord) (claim : WorkflowClaim) (next : Program) : Program :=
  ask .stateFound fun found =>
    if found = false then releaseClaim claim.token next
    else if call.checkpoint.isSome ∧ call.withPayload = false ∧ call.eventType = none ∧ seen.status = .waiting then
      ask .stateWaiting fun waiting =>
        if waiting then releaseClaim claim.token next else resumeGraph call claim next
    else resumeGraph call claim next

/-- What `resume_workflow` checks in the record it has read, up to its claim. -/
def resumeChecked (call : ResumeCall) (record : WorkflowRunRecord) (next : Program) : Program :=
  let claimed (claim : Option WorkflowClaim) : Program := match claim with
    | none => next
    | some claim => resumeClaimed call record claim next
  if record.compensated then next
  else if record.status = .waiting then
    if Matches call record then ask .payloadAccepted fun accepted =>
      if accepted then claimWaitingRun call claimed else next
    else next
  else claimRun call.owner RunStatus.resumable claimed

/-- `resume_workflow`, when it has looked at the deadline of the wait. -/
def resumeUnexpired (call : ResumeCall) (next : Program) : Program :=
  getRun fun _ record => match record with
    | none => next
    | some record =>
        if record.status = .deadLettered then next
        else if record.status = .retryScheduled then getRun fun now current => match current with
          | none => next
          | some current => if current.RetryDue (call.nowMs.getD now) then resumeChecked call record next else next
        else resumeChecked call record next

/-- `resume_workflow`. -/
def resumeWorkflow (call : ResumeCall) (next : Program) : Program :=
  expireWaitTimeout true fun expired =>
    if expired.map WorkflowRunRecord.status = some .deadLettered then next else resumeUnexpired call next

/-- `deliver_event`, for a run. -/
def deliverEvent (owner eventType : String) (correlationKey : Option String) (withPayload : Bool) (nowMs : Option Nat) :
    Program :=
  let call : ResumeCall := { owner, withPayload, eventType := some eventType, correlationKey, nowMs }
  getRun fun _ record => match record with
    | none => done
    | some record =>
        if record.status = .waiting ∧ record.wait ≠ none ∧ Matches call record then
          ask .unambiguous fun unambiguous =>
            if unambiguous then ask .vmAvailable fun available => if available then resumeWorkflow call done else done
            else done
        else done

/-- `rehydrate_run`. -/
def rehydrateRun (owner : String) (next : Program) : Program :=
  claimRun owner RunStatus.claimable fun claim => match claim with
    | none => next
    | some claim =>
        let released := releaseClaim claim.token next
        let adopted (record : WorkflowRunRecord) : Program := saveRun record .rehydrate released
        expireWaitTimeout false fun expired =>
          if expired.map WorkflowRunRecord.status = some .deadLettered then released
          else getRun fun _ record => match record with
            | none => released
            | some record =>
                if record.status ∈ RunStatus.rehydratable then ask .stateFound fun found =>
                  if found then ask .graphRegistered fun registered =>
                    if registered then adopted record
                    else ask .graphRebuilt fun rebuilt =>
                      if rebuilt then adopted record
                      else saveRun record (.rehydrationFailed s!"Failed to rehydrate workflow run '{record.runId}'") released
                  else released
                else released

/-- `expire_wait_timeouts`, for a run. -/
def expireWaitTimeouts (releaseSchedules : Bool) (next : Option WorkflowRunRecord → Program) : Program :=
  getRun fun _ record => match record with
    | none => next none
    | some record => if record.status = .waiting then expireWaitTimeout releaseSchedules next else next none

/-- What a sweep does with a run that it has not resumed: it adopts it, if it has a VM for it. -/
def sweepAdopt (owner : String) : Program :=
  getRun fun _ record => match record with
    | none => done
    | some record =>
        if record.status ∈ RunStatus.rehydratable then ask .idleEnough fun idle =>
          if idle then ask .vmAvailable fun available => if available then rehydrateRun owner done else done
          else done
        else done

/-- It resumes the run first if a retry is due. -/
def sweepRetry (owner : String) (nowMs : Option Nat) : Program :=
  getRun fun now record => match record with
    | none => sweepAdopt owner
    | some record =>
        if record.RetryDue (nowMs.getD now) then
          ask .vmAvailable fun available =>
            if available then resumeWorkflow { owner, nowMs } done else sweepAdopt owner
        else sweepAdopt owner

/-- `sweep`, for a run. Before all else its wait is settled, and the run is resumed if that releases it. -/
def sweep (owner : String) (nowMs : Option Nat) : Program :=
  expireWaitTimeouts true fun settled => match settled with
    | none => sweepRetry owner nowMs
    | some settled =>
        if settled.status = .deadLettered then done
        else ask .vmAvailable fun available =>
          if available then resumeWorkflow { owner, nowMs } done else sweepRetry owner nowMs

end Program

/-- An operation that a runner is told to do. -/
inductive Operation where
  | cancelRun
  | startGraph (owner : String) (record : WorkflowRunRecord)
  | resumeWorkflow (call : Program.ResumeCall)
  | deliverEvent (owner eventType : String) (correlationKey : Option String) (withPayload : Bool) (nowMs : Option Nat)
  | sweep (owner : String) (nowMs : Option Nat)
  | rehydrateRun (owner : String)
  | markWaiting (wait : WorkflowWaitRecord)
  | scheduleRetry (retry : RetryMetadata)
  /-- What the background thread does from time to time. -/
  | expireWaitTimeouts

def Operation.program : Operation → Program
  | cancelRun => .cancelRun
  | startGraph owner record => .startGraph owner record
  | resumeWorkflow call => .resumeWorkflow call .done
  | deliverEvent owner eventType correlationKey withPayload nowMs =>
      .deliverEvent owner eventType correlationKey withPayload nowMs
  | sweep owner nowMs => .sweep owner nowMs
  | rehydrateRun owner => .rehydrateRun owner .done
  | markWaiting wait => .registerWait wait .done
  | scheduleRetry retry => .scheduleRetry retry .done
  | expireWaitTimeouts => .expireWaitTimeouts false fun _ => .done

end Nodus.Workflow
