import Mathlib.Data.List.Basic
import Mathlib.Logic.Function.Basic

/-! The record of a workflow run in the store, and what the methods of the store make of it. Times are in milliseconds. -/

namespace Nodus.Workflow

/-- `RUN_STATUSES`. -/
inductive RunStatus where
  | pending
  | running
  | waiting
  | retryScheduled
  | completed
  | failed
  | deadLettered
  | cancelled
  deriving DecidableEq, Repr

namespace RunStatus

/-- `TERMINAL_RUN_STATUSES`. -/
def terminal : List RunStatus := [completed, failed, deadLettered, cancelled]

/-- `REHYDRATABLE_RUN_STATUSES`. -/
def rehydratable : List RunStatus := [waiting, running, retryScheduled]

/-- The statuses in which `claim_run` claims a run if it is not told otherwise. -/
def claimable : List RunStatus := [pending, running, waiting, retryScheduled]

/-- Those in which `resume_workflow` claims a run that is not waiting. -/
def resumable : List RunStatus := [running, completed, failed, waiting, retryScheduled, pending]

end RunStatus

structure WorkflowClaim where
  token : Nat
  owner : String
  expiresAt : Option Nat
  deriving DecidableEq, Repr

/-- `WAIT_TIMEOUT_POLICIES`. -/
inductive TimeoutPolicy where
  | fail
  | resume
  deriving DecidableEq, Repr

structure WorkflowWaitRecord where
  eventType : String
  correlationKey : Option String := none
  registeredAt : Option Nat := none
  deadlineMs : Option Nat := none
  onTimeout : TimeoutPolicy := .fail
  /-- The number of its registration, which is not stored. -/
  serial : Nat := 0
  deriving DecidableEq, Repr

/-- `_retry_metadata`. -/
structure RetryMetadata where
  taskId : Option String := none
  step : Option String := none
  attempt : Option Nat := none
  maxRetries : Option Nat := none
  delayMs : Option Nat := none
  nextAttemptAt : Option Nat := none
  classification : String := "retryable"
  lastError : Option String := none
  deriving DecidableEq, Repr

/-- What is recorded of a wait that has timed out. -/
structure WaitTimeout where
  expiredAt : Nat
  registeredAt : Nat
  deadlineMs : Nat
  eventType : String
  correlationKey : Option String
  deriving DecidableEq, Repr

structure WorkflowRunRecord where
  runId : String
  status : RunStatus := .pending
  createdAt : Option Nat := none
  updatedAt : Option Nat := none
  currentCheckpoint : Option String := none
  resumeCount : Nat := 0
  lastError : Option String := none
  /-- `metadata["retry"]`, and the other entries that are read or written. -/
  retry : Option RetryMetadata := none
  waitTimeout : Option WaitTimeout := none
  compensated : Bool := false
  cancelledFrom : Option RunStatus := none
  cancelledAt : Option Nat := none
  rehydratedAt : Option Nat := none
  rehydratedStatus : Option RunStatus := none
  claim : Option WorkflowClaim := none
  wait : Option WorkflowWaitRecord := none
  deriving DecidableEq, Repr

/-- `STORE_TIME_FLOOR_MS`. -/
def storeTimeFloorMs : Nat := 1000000000000

/-- `is_store_time`. -/
def IsStoreTime (time : Nat) : Prop := storeTimeFloorMs ≤ time

instance (time : Nat) : Decidable (IsStoreTime time) := inferInstanceAs (Decidable (_ ≤ _))

namespace WorkflowRunRecord

/-- `save_run`, as far as it changes the record. -/
def saved (record : WorkflowRunRecord) (now : Nat) : WorkflowRunRecord :=
  { record with updatedAt := some now, createdAt := some (record.createdAt.getD now) }

/-- `_schedule_retry_on_record`. -/
def scheduleRetry (record : WorkflowRunRecord) (retry : RetryMetadata) : WorkflowRunRecord :=
  { record with status := .retryScheduled, wait := none, lastError := retry.lastError, retry := some retry }

/-- `_retry_due_for_record`. -/
def RetryDue (record : WorkflowRunRecord) (now : Nat) : Prop :=
  record.status = .retryScheduled ∧
    ∀ retry ∈ record.retry, ∀ nextAttemptAt ∈ retry.nextAttemptAt, IsStoreTime nextAttemptAt ∧ nextAttemptAt ≤ now

instance (record : WorkflowRunRecord) (now : Nat) : Decidable (record.RetryDue now) :=
  inferInstanceAs (Decidable (_ ∧ ∀ retry ∈ record.retry, ∀ nextAttemptAt ∈ retry.nextAttemptAt, _))

/-- `_clear_retry_on_record`. -/
def clearRetry (record : WorkflowRunRecord) (nextStatus : RunStatus) : WorkflowRunRecord :=
  { record with retry := none, status := nextStatus }

/-- `_register_wait_on_record`. -/
def registerWait (record : WorkflowRunRecord) (wait : WorkflowWaitRecord) (now : Nat) : WorkflowRunRecord :=
  { record with status := .waiting, wait := some { wait with registeredAt := some now } }

/-- `_clear_wait_on_record`. -/
def clearWait (record : WorkflowRunRecord) (nextStatus : RunStatus) : WorkflowRunRecord :=
  { record with wait := none, status := nextStatus }

/-- The deadline of a wait has passed. A time from before the clock of the store was one that others can read is never due. -/
def TimedOut (wait : WorkflowWaitRecord) (now : Nat) : Prop :=
  ∃ deadlineMs ∈ wait.deadlineMs, ∃ registeredAt ∈ wait.registeredAt,
    IsStoreTime registeredAt ∧ registeredAt + deadlineMs ≤ now

instance (wait : WorkflowWaitRecord) (now : Nat) : Decidable (TimedOut wait now) :=
  inferInstanceAs (Decidable (∃ deadlineMs ∈ wait.deadlineMs, ∃ registeredAt ∈ wait.registeredAt, _))

/-- `_expire_wait_timeout_on_record`. A deadline with `on_timeout: "resume"` is a schedule, and is left alone unless the caller
says that it goes on with the run. -/
def expireWaitTimeout (record : WorkflowRunRecord) (now : Nat) (nextStatus : RunStatus) (releaseSchedules : Bool) :
    Option WorkflowRunRecord :=
  match record.wait with
  | none => none
  | some wait =>
      if record.status = .waiting ∧ TimedOut wait now then
        if wait.onTimeout = .resume then
          if releaseSchedules then some (record.clearWait .running) else none
        else some { record with
          status := nextStatus
          claim := none
          lastError := some s!"Wait timeout expired for '{record.runId}'"
          waitTimeout := some ⟨now, wait.registeredAt.getD 0, wait.deadlineMs.getD 0, wait.eventType, wait.correlationKey⟩ }
      else none

/-- Nobody holds the run any more. A claim from before the clock of the store was one that others can read does not count. -/
def Claimable (record : WorkflowRunRecord) (now : Nat) : Prop :=
  ∀ claim ∈ record.claim, ∀ expiresAt ∈ claim.expiresAt, IsStoreTime expiresAt → expiresAt ≤ now

instance (record : WorkflowRunRecord) (now : Nat) : Decidable (record.Claimable now) :=
  inferInstanceAs (Decidable (∀ claim ∈ record.claim, ∀ expiresAt ∈ claim.expiresAt, _))

/-- `claim_run`, inside of its transaction. -/
def claimRun (record : WorkflowRunRecord) (owner : String) (expectedStatuses : List RunStatus) (ttl now token : Nat) :
    Option WorkflowRunRecord :=
  if record.status ∈ expectedStatuses ∧ record.Claimable now then
    some { record with claim := some ⟨token, owner, some (now + ttl)⟩, updatedAt := some now }
  else none

/-- `release_claim`, inside of its transaction. -/
def releaseClaim (record : WorkflowRunRecord) (token : Option Nat) (now : Nat) : Option WorkflowRunRecord :=
  if token = none ∨ record.claim = none ∨ record.claim.map WorkflowClaim.token = token then
    some { record with claim := none, updatedAt := some now }
  else none

end WorkflowRunRecord

end Nodus.Workflow
