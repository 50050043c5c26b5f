import Mathlib.Algebra.Order.Ring.Rat
import Mathlib.Data.List.Lex
import Mathlib.Data.List.Nodup
import Mathlib.Data.Prod.Lex
import Mathlib.Logic.Function.Basic
import Nodus.Paired

/-! The two stores of workflow runs, with one JSON file or one row of an SQLite table for each run. A value that is written as
JSON is read back as it was, so the files and the columns hold the values. Ids are valid state ids, and times are finite. -/

namespace Nodus.Stores

/-- A string: its code points, among which may be surrogates. -/
abbrev PyStr := List Nat

instance : LawfulBEq PyStr := inferInstance

def str (s : String) : PyStr := s.toList.map Char.toNat

/-- What UTF-8 can encode. -/
def Utf8 (s : PyStr) : Prop := ∀ c ∈ s, ¬ (0xD800 ≤ c ∧ c ≤ 0xDFFF)

instance (s : PyStr) : Decidable (Utf8 s) := inferInstanceAs (Decidable (∀ c ∈ s, _))

inductive Json where
  | null
  | bool (value : Bool)
  | int (value : Int)
  | float (value : ℚ)
  | str (value : PyStr)
  | arr (items : List Json)
  | obj (entries : List (PyStr × Json))

abbrev Dict := List (PyStr × Json)

/-- `payload.get(key)`. -/
def getKey (payload : Dict) (key : PyStr) : Json := (payload.lookup key).getD .null

/-- `payload[key] = value`, in the place the key has or at the end. -/
def setKey : Dict → PyStr → Json → Dict
  | [], key, value => [(key, value)]
  | entry :: payload, key, value => if entry.1 = key then (key, value) :: payload else entry :: setKey payload key value

/-- `payload.pop(key, None)`. -/
def popKey (payload : Dict) (key : PyStr) : Dict := payload.filter (·.1 ≠ key)

namespace Json

def asStr : Json → Option PyStr
  | .str value => some value
  | _ => none

/-- A number, which a truth value is too. -/
def asNumber : Json → Option ℚ
  | .int value => some value
  | .float value => some value
  | .bool value => some (if value then 1 else 0)
  | _ => none

def asInt : Json → Option Int
  | .int value => some value
  | .bool value => some (if value then 1 else 0)
  | _ => none

def asDict : Json → Option Dict
  | .obj entries => some entries
  | _ => none

def ofStr (value : Option PyStr) : Json := value.elim .null .str

def ofNumber (value : Option ℚ) : Json := value.elim .null .float

end Json

/-! ### The records -/

structure WorkflowClaim where
  token : PyStr
  owner : PyStr
  claimedAt : ℚ
  expiresAt : Option ℚ := none
  deriving DecidableEq

structure WorkflowWaitRecord where
  eventType : PyStr
  correlationKey : Option PyStr := none
  payload : Option Dict := none
  registeredAt : Option ℚ := none
  deadlineMs : Option ℚ := none
  schema : Option Dict := none
  onTimeout : PyStr := str "fail"

structure WorkflowRunRecord where
  runId : PyStr
  graphId : PyStr
  workflowName : Option PyStr := none
  executionKind : Option PyStr := none
  status : PyStr := str "pending"
  createdAt : Option ℚ := none
  updatedAt : Option ℚ := none
  currentCheckpoint : Option PyStr := none
  resumeCount : Int := 0
  lastError : Option PyStr := none
  metadata : Dict := []
  claim : Option WorkflowClaim := none
  wait : Option WorkflowWaitRecord := none

/-- `WAIT_TIMEOUT_POLICIES`. -/
def waitTimeoutPolicies : List PyStr := [str "fail", str "resume"]

namespace WorkflowClaim

def toDict (claim : WorkflowClaim) : Dict :=
  [(str "token", .str claim.token), (str "owner", .str claim.owner), (str "claimed_at", .float claim.claimedAt),
   (str "expires_at", .ofNumber claim.expiresAt)]

def fromDict (payload : Json) : Option WorkflowClaim := do
  let payload ← payload.asDict
  let token ← (getKey payload (str "token")).asStr
  let owner ← (getKey payload (str "owner")).asStr
  let claimedAt ← (getKey payload (str "claimed_at")).asNumber
  return { token, owner, claimedAt, expiresAt := (getKey payload (str "expires_at")).asNumber }

end WorkflowClaim

namespace WorkflowWaitRecord

/-- The default of `on_timeout` is left out, and so is an empty schema. -/
def toDict (wait : WorkflowWaitRecord) : Dict :=
  [(str "event_type", .str wait.eventType), (str "correlation_key", .ofStr wait.correlationKey),
   (str "payload", .obj (wait.payload.getD [])), (str "registered_at", .ofNumber wait.registeredAt),
   (str "deadline_ms", .ofNumber wait.deadlineMs)] ++
    (if wait.onTimeout ≠ str "fail" then [(str "on_timeout", .str wait.onTimeout)] else []) ++
    (if wait.schema.getD [] ≠ [] then [(str "schema", .obj (wait.schema.getD []))] else [])

def fromDict (payload : Json) : Option WorkflowWaitRecord := do
  let payload ← payload.asDict
  let eventType ← (getKey payload (str "event_type")).asStr
  let onTimeout := (getKey payload (str "on_timeout")).asStr.getD (str "fail")
  if eventType = [] then none
  return {
    eventType
    correlationKey := (getKey payload (str "correlation_key")).asStr
    payload := (getKey payload (str "payload")).asDict
    registeredAt := (getKey payload (str "registered_at")).asNumber
    deadlineMs := (getKey payload (str "deadline_ms")).asNumber
    schema := (getKey payload (str "schema")).asDict
    onTimeout := if onTimeout ∈ waitTimeoutPolicies then onTimeout else str "fail" }

end WorkflowWaitRecord

namespace WorkflowRunRecord

def toDict (record : WorkflowRunRecord) : Dict :=
  [(str "run_id", .str record.runId), (str "graph_id", .str record.graphId), (str "workflow_name", .ofStr record.workflowName),
   (str "execution_kind", .ofStr record.executionKind), (str "status", .str record.status),
   (str "created_at", .ofNumber record.createdAt), (str "updated_at", .ofNumber record.updatedAt),
   (str "current_checkpoint", .ofStr record.currentCheckpoint), (str "resume_count", .int record.resumeCount),
   (str "last_error", .ofStr record.lastError), (str "metadata", .obj record.metadata),
   (str "claim", record.claim.elim .null fun claim => .obj claim.toDict),
   (str "wait", record.wait.elim .null fun wait => .obj wait.toDict)]

def fromDict (payload : Json) : Option WorkflowRunRecord := do
  let payload ← payload.asDict
  let runId ← (getKey payload (str "run_id")).asStr
  let graphId ← (getKey payload (str "graph_id")).asStr
  return {
    runId, graphId
    workflowName := (getKey payload (str "workflow_name")).asStr
    executionKind := (getKey payload (str "execution_kind")).asStr
    status := (getKey payload (str "status")).asStr.getD (str "pending")
    createdAt := (getKey payload (str "created_at")).asNumber
    updatedAt := (getKey payload (str "updated_at")).asNumber
    currentCheckpoint := (getKey payload (str "current_checkpoint")).asStr
    resumeCount := (getKey payload (str "resume_count")).asInt.getD 0
    lastError := (getKey payload (str "last_error")).asStr
    metadata := (getKey payload (str "metadata")).asDict.getD []
    claim := WorkflowClaim.fromDict (getKey payload (str "claim"))
    wait := WorkflowWaitRecord.fromDict (getKey payload (str "wait")) }

end WorkflowRunRecord

/-- A row of the table `workflow_runs`. `none` in a column is `NULL`. -/
structure Row where
  runId : PyStr
  graphId : PyStr
  workflowName : Option PyStr
  executionKind : Option PyStr
  status : PyStr
  createdAt : Option ℚ
  updatedAt : Option ℚ
  currentCheckpoint : Option PyStr
  resumeCount : Int
  lastError : Option PyStr
  metadataJson : Json
  claimJson : Option Json
  waitJson : Option Json

/-- `_serialize_record`. -/
def serializeRecord (record : WorkflowRunRecord) : Row where
  runId := record.runId
  graphId := record.graphId
  workflowName := record.workflowName
  executionKind := record.executionKind
  status := record.status
  createdAt := record.createdAt
  updatedAt := record.updatedAt
  currentCheckpoint := record.currentCheckpoint
  resumeCount := record.resumeCount
  lastError := record.lastError
  metadataJson := .obj record.metadata
  claimJson := some (record.claim.elim .null fun claim => .obj claim.toDict)
  waitJson := some (record.wait.elim .null fun wait => .obj wait.toDict)

/-- `_record_from_row`. -/
def recordFromRow (row : Row) : Option WorkflowRunRecord :=
  WorkflowRunRecord.fromDict (.obj
    [(str "run_id", .str row.runId), (str "graph_id", .str row.graphId), (str "workflow_name", .ofStr row.workflowName),
     (str "execution_kind", .ofStr row.executionKind), (str "status", .str row.status),
     (str "created_at", .ofNumber row.createdAt), (str "updated_at", .ofNumber row.updatedAt),
     (str "current_checkpoint", .ofStr row.currentCheckpoint), (str "resume_count", .int row.resumeCount),
     (str "last_error", .ofStr row.lastError), (str "metadata", row.metadataJson), (str "claim", row.claimJson.getD .null),
     (str "wait", row.waitJson.getD .null)])

/-- The texts that are columns of their own. -/
def WorkflowRunRecord.texts (record : WorkflowRunRecord) : List PyStr :=
  [record.runId, record.graphId, record.status] ++ record.workflowName.toList ++ record.executionKind.toList ++
    record.currentCheckpoint.toList ++ record.lastError.toList

/-- The texts can be encoded, and the count of resumes fits an integer column. -/
def WorkflowRunRecord.Fits (record : WorkflowRunRecord) : Prop :=
  (∀ s ∈ record.texts, Utf8 s) ∧ -2 ^ 63 ≤ record.resumeCount ∧ record.resumeCount < 2 ^ 63

instance (record : WorkflowRunRecord) : Decidable record.Fits := inferInstanceAs (Decidable (_ ∧ _ ∧ _))

/-! ### What the methods make of a record -/

/-- `STORE_TIME_FLOOR_MS`. -/
def storeTimeFloorMs : ℚ := 1000000000000

/-- `_retry_metadata`, without its defaults. -/
structure RetryArguments where
  taskId : Option PyStr := none
  stepName : Option PyStr := none
  attempt : Option ℚ := none
  maxRetries : Option ℚ := none
  delayMs : Option ℚ := none
  nextAttemptAt : Option ℚ := none
  classification : Option PyStr := none
  lastError : Option PyStr := none

/-- `_retry_metadata`. -/
def retryMetadata (retry : RetryArguments) : Dict :=
  [(str "task_id", .ofStr retry.taskId), (str "step", .ofStr retry.stepName), (str "attempt", .ofNumber retry.attempt),
   (str "max_retries", .ofNumber retry.maxRetries), (str "delay_ms", .ofNumber retry.delayMs),
   (str "next_attempt_at", .ofNumber retry.nextAttemptAt),
   (str "classification", .str (if retry.classification.getD [] = [] then str "retryable" else retry.classification.getD [])),
   (str "last_error", .ofStr retry.lastError)]

namespace WorkflowRunRecord

/-- `_schedule_retry_on_record`. -/
def scheduleRetry (record : WorkflowRunRecord) (retry : RetryArguments) : WorkflowRunRecord :=
  { record with
    status := str "retry_scheduled"
    wait := none
    lastError := retry.lastError
    metadata := setKey record.metadata (str "retry") (.obj (retryMetadata retry)) }

/-- `_clear_retry_on_record`. -/
def clearRetry (record : WorkflowRunRecord) (nextStatus : PyStr) : WorkflowRunRecord :=
  { record with metadata := popKey record.metadata (str "retry"), status := nextStatus }

/-- `_register_wait_on_record`. -/
def registerWait (record : WorkflowRunRecord) (wait : WorkflowWaitRecord) (now : ℚ) : WorkflowRunRecord :=
  { record with status := str "waiting", wait := some { wait with registeredAt := some now } }

/-- `_clear_wait_on_record`. -/
def clearWait (record : WorkflowRunRecord) (nextStatus : PyStr) : WorkflowRunRecord :=
  { record with wait := none, status := nextStatus }

/-- The branch of `_expire_wait_timeout_on_record` in which the run is given up. -/
def giveUp (record : WorkflowRunRecord) (wait : WorkflowWaitRecord) (now registeredAt deadlineMs : ℚ) (nextStatus : PyStr) :
    WorkflowRunRecord :=
  { record with
    status := nextStatus
    claim := none
    lastError := some (str "Wait timeout expired for '" ++ record.runId ++ str "'")
    metadata := setKey record.metadata (str "wait_timeout") (.obj
      [(str "expired_at", .float now), (str "registered_at", .float registeredAt), (str "deadline_ms", .float deadlineMs),
       (str "event_type", .str wait.eventType), (str "correlation_key", .ofStr wait.correlationKey)]) }

/-- The claim that `claim_run` makes, unless the run is not in one of the statuses or is held by somebody else. -/
def newClaim (record : WorkflowRunRecord) (owner : PyStr) (expectedStatuses : List PyStr) (token : PyStr) (ttl now : ℚ) :
    Option WorkflowClaim :=
  if record.status ∉ expectedStatuses then none
  else if (record.claim.bind WorkflowClaim.expiresAt).any fun expiresAt => storeTimeFloorMs ≤ expiresAt && now < expiresAt then none
  else some { token, owner, claimedAt := now, expiresAt := some (now + ttl) }

/-- A claim is given back by the token it has, or if none is asked for. -/
def Releases (record : WorkflowRunRecord) (token : Option PyStr) : Prop :=
  token = none ∨ ∀ claim ∈ record.claim, some claim.token = token

instance (record : WorkflowRunRecord) (token : Option PyStr) : Decidable (record.Releases token) :=
  inferInstanceAs (Decidable (_ ∨ ∀ claim ∈ record.claim, _))

/-- A record waits for an event, and for the key if one is given. -/
def WaitsFor (record : WorkflowRunRecord) (eventType : Option PyStr) (correlationKey : Option PyStr) : Prop :=
  record.status = str "waiting" ∧ ∃ wait ∈ record.wait, (∀ e ∈ eventType, wait.eventType = e) ∧
    ∀ key ∈ correlationKey, wait.correlationKey = some key

instance (record : WorkflowRunRecord) (eventType correlationKey : Option PyStr) : Decidable (record.WaitsFor eventType correlationKey) :=
  inferInstanceAs (Decidable (_ ∧ ∃ wait ∈ record.wait, _))

end WorkflowRunRecord

/-- `TERMINAL_RUN_STATUSES`. -/
def terminalRunStatuses : List PyStr := [str "completed", str "failed", str "dead_lettered", str "cancelled"]

/-- `REHYDRATABLE_RUN_STATUSES`. -/
def rehydratableRunStatuses : List PyStr := [str "waiting", str "running", str "retry_scheduled"]

/-- `_sorted_run_records`. -/
def sortedRunRecords (records : List WorkflowRunRecord) : List WorkflowRunRecord :=
  records.mergeSort fun a b => toLex (a.updatedAt.getD 0, a.runId) ≤ toLex (b.updatedAt.getD 0, b.runId)

/-! ### The methods -/

/-- What the SQLite driver raises for a value that no column holds. -/
inductive Fault where
  | notBound
  deriving DecidableEq

/-- A store, and the readings of the clock to come. -/
structure Session (σ : Type) where
  store : σ
  readings : Nat → ℚ

abbrev StoreM (σ : Type) := EStateM Fault (Session σ)

section Methods

variable {σ : Type}

def storeTimeMs : StoreM σ ℚ := do
  let s ← get
  set { s with readings := fun n => s.readings (n + 1) }
  return s.readings 0

/-- The time that is given, or else is read. -/
def timeOr (nowMs : Option ℚ) : StoreM σ ℚ := nowMs.elim storeTimeMs pure

/-- The methods that a class has of its own. -/
structure Methods (σ : Type) where
  getRun : PyStr → StoreM σ (Option WorkflowRunRecord)
  writeRun : WorkflowRunRecord → StoreM σ Unit
  createRun : WorkflowRunRecord → StoreM σ WorkflowRunRecord
  claimRun : PyStr → PyStr → List PyStr → PyStr → StoreM σ (Option WorkflowClaim)
  releaseClaim : PyStr → Option PyStr → StoreM σ (Option WorkflowRunRecord)
  deleteRun : PyStr → StoreM σ Bool
  listRuns : StoreM σ (List WorkflowRunRecord)

/-- `save_run`, given `_write_run`. -/
def saveWith (writeRun : WorkflowRunRecord → StoreM σ Unit) (record : WorkflowRunRecord) : StoreM σ WorkflowRunRecord := do
  let now ← storeTimeMs
  let record := { record with updatedAt := some now, createdAt := some (record.createdAt.getD now) }
  writeRun record
  return record

/-- `_retry_due_for_record`. -/
def retryDueForRecord (record : WorkflowRunRecord) (nowMs : Option ℚ) : StoreM σ Bool :=
  if record.status ≠ str "retry_scheduled" then pure false
  else match (getKey record.metadata (str "retry")).asDict.map fun retry => (getKey retry (str "next_attempt_at")).asNumber with
    | some (some nextAttemptAt) =>
        if nextAttemptAt < storeTimeFloorMs then pure false
        else do
          let now ← timeOr nowMs
          return nextAttemptAt ≤ now
    | _ => pure true

/-- `_expire_wait_timeout_on_record`. -/
def expireOnRecord (record : WorkflowRunRecord) (nowMs : Option ℚ) (nextStatus : PyStr) (releaseSchedules : Bool) :
    StoreM σ (Option WorkflowRunRecord) :=
  match record.wait with
  | none => pure none
  | some wait =>
      if record.status ≠ str "waiting" then pure none
      else match wait.deadlineMs, wait.registeredAt with
        | some deadlineMs, some registeredAt =>
            if registeredAt < storeTimeFloorMs then pure none
            else do
              let now ← timeOr nowMs
              if now < registeredAt + deadlineMs then return none
              else if wait.onTimeout = str "resume" then
                return if releaseSchedules then some (record.clearWait (str "running")) else none
              else return some (record.giveUp wait now registeredAt deadlineMs nextStatus)
        | _, _ => pure none

namespace Methods

variable (self : Methods σ)

def saveRun (record : WorkflowRunRecord) : StoreM σ WorkflowRunRecord := saveWith self.writeRun record

def restoreRun (record : WorkflowRunRecord) : StoreM σ WorkflowRunRecord := do
  self.writeRun record
  return record

/-- The methods that change a record in some way and save it. -/
def changeRun (runId : PyStr) (change : WorkflowRunRecord → StoreM σ (Option WorkflowRunRecord)) :
    StoreM σ (Option WorkflowRunRecord) := do
  match ← self.getRun runId with
  | none => return none
  | some record =>
      match ← change record with
      | none => return none
      | some record => some <$> self.saveRun record

def registerWait (runId : PyStr) (wait : WorkflowWaitRecord) : StoreM σ (Option WorkflowRunRecord) :=
  self.changeRun runId fun record => do
    let now ← storeTimeMs
    return some (record.registerWait wait now)

def clearWait (runId nextStatus : PyStr) : StoreM σ (Option WorkflowRunRecord) :=
  self.changeRun runId fun record => pure (some (record.clearWait nextStatus))

def scheduleRetry (runId : PyStr) (retry : RetryArguments) : StoreM σ (Option WorkflowRunRecord) :=
  self.changeRun runId fun record => pure (some (record.scheduleRetry retry))

def clearRetry (runId nextStatus : PyStr) : StoreM σ (Option WorkflowRunRecord) :=
  self.changeRun runId fun record => pure (some (record.clearRetry nextStatus))

def expireWaitTimeout (runId : PyStr) (nowMs : Option ℚ) (nextStatus : PyStr) (releaseSchedules : Bool) :
    StoreM σ (Option WorkflowRunRecord) :=
  self.changeRun runId fun record => expireOnRecord record nowMs nextStatus releaseSchedules

def claimWaitingRunForResume (runId owner : PyStr) (eventType correlationKey : Option PyStr) (token : PyStr) :
    StoreM σ (Option WorkflowClaim) := do
  match ← self.getRun runId with
  | none => return none
  | some record =>
      if record.WaitsFor eventType correlationKey then self.claimRun runId owner [str "waiting"] token else return none

def retryDue (runId : PyStr) (nowMs : Option ℚ) : StoreM σ Bool := do
  match ← self.getRun runId with
  | none => return false
  | some record => retryDueForRecord record nowMs

/-- The loop of `list_due_retry_runs`. -/
def dueRuns (nowMs : Option ℚ) : List WorkflowRunRecord → StoreM σ (List WorkflowRunRecord)
  | [] => pure []
  | record :: records => do
      let due ← retryDueForRecord record nowMs
      let rest ← dueRuns nowMs records
      return if due then record :: rest else rest

def listDueRetryRuns (nowMs : Option ℚ) : StoreM σ (List WorkflowRunRecord) := do
  let records ← self.listRuns
  sortedRunRecords <$> dueRuns nowMs records

/-- The loop of `expire_wait_timeouts`. -/
def expiredRuns (nowMs : Option ℚ) (releaseSchedules : Bool) : List WorkflowRunRecord → StoreM σ (List WorkflowRunRecord)
  | [] => pure []
  | record :: records =>
      if record.status ≠ str "waiting" then expiredRuns nowMs releaseSchedules records
      else do
        let updated ← self.expireWaitTimeout record.runId nowMs (str "dead_lettered") releaseSchedules
        let rest ← expiredRuns nowMs releaseSchedules records
        return updated.toList ++ rest

def expireWaitTimeouts (nowMs : Option ℚ) (releaseSchedules : Bool) : StoreM σ (List WorkflowRunRecord) := do
  let records ← self.listRuns
  sortedRunRecords <$> self.expiredRuns nowMs releaseSchedules records

end Methods

/-- A call of a method. Where a claim is made, the token is the one drawn for it. -/
inductive Op where
  | createRun (runId graphId : PyStr) (workflowName executionKind : Option PyStr) (metadata : Dict)
  | saveRun (record : WorkflowRunRecord)
  | restoreRun (record : WorkflowRunRecord)
  | getRun (runId : PyStr)
  | claimRun (runId owner : PyStr) (expectedStatuses : List PyStr) (token : PyStr)
  | claimWaitingRunForResume (runId owner : PyStr) (eventType correlationKey : Option PyStr) (token : PyStr)
  | releaseClaim (runId : PyStr) (token : Option PyStr)
  | registerWait (runId : PyStr) (wait : WorkflowWaitRecord)
  | clearWait (runId nextStatus : PyStr)
  | scheduleRetry (runId : PyStr) (retry : RetryArguments)
  | clearRetry (runId nextStatus : PyStr)
  | retryDue (runId : PyStr) (nowMs : Option ℚ)
  | listDueRetryRuns (nowMs : Option ℚ)
  | expireWaitTimeout (runId : PyStr) (nowMs : Option ℚ) (nextStatus : PyStr) (releaseSchedules : Bool)
  | expireWaitTimeouts (nowMs : Option ℚ) (releaseSchedules : Bool)
  | deleteRun (runId : PyStr)
  | listRuns
  | listAllRuns
  | listRehydratableRuns
  | listTerminalRuns
  | listRunsWaitingFor (eventType : PyStr) (correlationKey : Option PyStr)

inductive Output where
  | record (record : Option WorkflowRunRecord)
  | claim (claim : Option WorkflowClaim)
  | flag (value : Bool)
  | records (records : List WorkflowRunRecord)

namespace Methods

variable (self : Methods σ)

def perform : Op → StoreM σ Output
  | .createRun runId graphId workflowName executionKind metadata => do
      return .record (some (← self.createRun { runId, graphId, workflowName, executionKind, metadata }))
  | .saveRun record => do return .record (some (← self.saveRun record))
  | .restoreRun record => do return .record (some (← self.restoreRun record))
  | .getRun runId => do return .record (← self.getRun runId)
  | .claimRun runId owner expectedStatuses token => do return .claim (← self.claimRun runId owner expectedStatuses token)
  | .claimWaitingRunForResume runId owner eventType correlationKey token => do
      return .claim (← self.claimWaitingRunForResume runId owner eventType correlationKey token)
  | .releaseClaim runId token => do return .record (← self.releaseClaim runId token)
  | .registerWait runId wait => do return .record (← self.registerWait runId wait)
  | .clearWait runId nextStatus => do return .record (← self.clearWait runId nextStatus)
  | .scheduleRetry runId retry => do return .record (← self.scheduleRetry runId retry)
  | .clearRetry runId nextStatus => do return .record (← self.clearRetry runId nextStatus)
  | .retryDue runId nowMs => do return .flag (← self.retryDue runId nowMs)
  | .listDueRetryRuns nowMs => do return .records (← self.listDueRetryRuns nowMs)
  | .expireWaitTimeout runId nowMs nextStatus releaseSchedules => do
      return .record (← self.expireWaitTimeout runId nowMs nextStatus releaseSchedules)
  | .expireWaitTimeouts nowMs releaseSchedules => do return .records (← self.expireWaitTimeouts nowMs releaseSchedules)
  | .deleteRun runId => do return .flag (← self.deleteRun runId)
  | .listRuns => do return .records (← self.listRuns)
  | .listAllRuns => do return .records (← self.listRuns)
  | .listRehydratableRuns => do
      return .records (sortedRunRecords ((← self.listRuns).filter (·.status ∈ rehydratableRunStatuses)))
  | .listTerminalRuns => do return .records ((← self.listRuns).filter (·.status ∈ terminalRunStatuses))
  | .listRunsWaitingFor eventType correlationKey => do
      return .records (sortedRunRecords ((← self.listRuns).filter (·.WaitsFor eventType correlationKey)))

end Methods
end Methods

/-! ### The two classes -/

/-- A directory, or a table: what there is under each name. -/
structure Table (X : Type) where
  names : List PyStr := []
  entry : PyStr → Option X := fun _ => none
  nodup : names.Nodup := by exact List.nodup_nil
  mem_names : ∀ n, n ∈ names ↔ (entry n).isSome := by simp

namespace Table

variable {X : Type}

def put (t : Table X) (n : PyStr) (x : X) : Table X where
  names := if n ∈ t.names then t.names else t.names ++ [n]
  entry := Function.update t.entry n (some x)
  nodup := by
    split
    · exact t.nodup
    · next hn => exact List.nodup_append.mpr ⟨t.nodup, List.nodup_singleton n, fun a ha b hb => by
        rw [List.mem_singleton.mp hb]
        exact fun heq => hn (heq ▸ ha)⟩
  mem_names m := by
    by_cases hm : m = n
    · subst hm
      split <;> simp_all
    · rw [Function.update_of_ne hm, ← t.mem_names]
      split <;> simp [hm]

def remove (t : Table X) (n : PyStr) : Table X where
  names := t.names.filter (· ≠ n)
  entry := Function.update t.entry n none
  nodup := t.nodup.filter _
  mem_names m := by
    by_cases hm : m = n
    · simp [hm]
    · simp [hm, t.mem_names]

end Table

/-- The order in which a directory is scanned, or a table. It can be any. -/
structure Scan where
  order : List PyStr → List PyStr
  perm : ∀ names, (order names).Perm names

section Classes

variable (ttl : ℚ) (scan : Scan)

/-- `_load_run_unlocked`. -/
def loadRun (files : Table Json) (runId : PyStr) : Option WorkflowRunRecord :=
  (files.entry runId).bind WorkflowRunRecord.fromDict

/-- The file of a record is written as a whole. -/
def writeFile (runId : PyStr) (record : WorkflowRunRecord) : StoreM (Table Json) Unit :=
  modify fun s => { s with store := s.store.put runId (.obj record.toDict) }

/-- `LocalWorkflowStore`, with the bounds on age and number off. -/
def localStore : Methods (Table Json) where
  getRun runId := do return loadRun (← get).store runId
  writeRun record := writeFile record.runId record
  createRun record := do
    let now ← storeTimeMs
    match loadRun (← get).store record.runId with
    | some existing => return existing
    | none => saveWith (fun record => writeFile record.runId record) { record with createdAt := some now, updatedAt := some now }
  claimRun runId owner expectedStatuses token := do
    let now ← storeTimeMs
    match loadRun (← get).store runId with
    | none => return none
    | some record =>
        match record.newClaim owner expectedStatuses token ttl now with
        | none => return none
        | some claim =>
            writeFile runId { record with claim := some claim, updatedAt := some now }
            return some claim
  releaseClaim runId token := do
    match loadRun (← get).store runId with
    | none => return none
    | some record =>
        if record.Releases token then
          let now ← storeTimeMs
          let record := { record with claim := none, updatedAt := some now }
          writeFile runId record
          return some record
        else return some record
  deleteRun runId := do
    let s ← get
    set { s with store := s.store.remove runId }
    return (s.store.entry runId).isSome
  listRuns := do
    let s ← get
    return sortedRunRecords ((scan.order s.store.names).filterMap (loadRun s.store))

/-- `_get_run_with_conn`. -/
def readRow (rows : Table Row) (runId : PyStr) : Option WorkflowRunRecord := (rows.entry runId).bind recordFromRow

/-- A statement that binds the columns of the record. -/
def bindRecord (record : WorkflowRunRecord) : StoreM (Table Row) Unit :=
  if record.Fits then modify fun s => { s with store := s.store.put record.runId (serializeRecord record) }
  else throw .notBound

/-- `SQLiteWorkflowStore`. -/
def sqliteStore : Methods (Table Row) where
  getRun runId := do return readRow (← get).store runId
  writeRun := bindRecord
  createRun record := do
    let now ← storeTimeMs
    let record := { record with createdAt := some now, updatedAt := some now }
    match readRow (← get).store record.runId with
    | some existing => return existing
    | none =>
        bindRecord record
        return record
  claimRun runId owner expectedStatuses token := do
    let now ← storeTimeMs
    match readRow (← get).store runId with
    | none => return none
    | some record =>
        match record.newClaim owner expectedStatuses token ttl now with
        | none => return none
        | some claim =>
            modify fun s => { s with store := match s.store.entry runId with
              | none => s.store
              | some row => s.store.put runId { row with updatedAt := some now, claimJson := some (.obj claim.toDict) } }
            return some claim
  releaseClaim runId token := do
    match readRow (← get).store runId with
    | none => return none
    | some record =>
        if record.Releases token then
          let now ← storeTimeMs
          modify fun s => { s with store := match s.store.entry runId with
            | none => s.store
            | some row => s.store.put runId { row with updatedAt := some now, claimJson := none } }
          return some { record with claim := none, updatedAt := some now }
        else return some record
  deleteRun runId := do
    let s ← get
    set { s with store := s.store.remove runId }
    return (s.store.entry runId).isSome
  listRuns := do
    let s ← get
    return sortedRunRecords ((scan.order s.store.names).filterMap (readRow s.store))

end Classes

/-- A call, with the readings of the clock made in it. -/
def Methods.step {σ : Type} (self : Methods σ) (store : σ) (call : Op × (Nat → ℚ)) : Except Fault Output × σ :=
  match self.perform call.1 ⟨store, call.2⟩ with
  | .ok output s => (.ok output, s.store)
  | .error fault s => (.error fault, s.store)

/-- What the calls return or raise one after the other, and the store they end in. -/
def Methods.run {σ : Type} (self : Methods σ) (store : σ) : List (Op × (Nat → ℚ)) → List (Except Fault Output) × σ
  | [] => ([], store)
  | call :: calls =>
      ((self.step store call).1 :: (run self (self.step store call).2 calls).1, (run self (self.step store call).2 calls).2)

end Nodus.Stores
