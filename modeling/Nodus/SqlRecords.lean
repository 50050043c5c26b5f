import Mathlib.Logic.Function.Basic

/-! `nodus-store-sql`: the sessions of `RunStore` and `JobStore` over one database, by any number of clients. -/

namespace Nodus.SqlRecords

structure RunRecord (Payload Time : Type) where
  runId : String
  runType : String
  status : String
  statePayload : Option Payload
  traceId : Option String
  correlationId : Option String
  ownerId : Option String
  scope : Option String
  version : Int
  createdAt : Time
  updatedAt : Time
  completedAt : Option Time

structure JobRecord (Payload Time : Type) where
  jobId : String
  taskName : String
  status : String
  payload : Option Payload
  ownerId : Option String
  traceId : Option String
  correlationId : Option String
  attemptCount : Int
  maxAttempts : Int
  scheduledFor : Option Time
  claimedBy : Option String
  claimedAt : Option Time
  completedAt : Option Time
  createdAt : Time
  updatedAt : Time

inductive StoreError where
  /-- A row with this key exists. -/
  | integrity (key : String)
  | optimisticLock (runId : String)
  | recordNotFound (key : String)
  deriving DecidableEq, Repr

section Sessions

variable {Payload Time : Type}

abbrev Runs (Payload Time : Type) := String → Option (RunRecord Payload Time)

abbrev Jobs (Payload Time : Type) := String → Option (JobRecord Payload Time)

/-! ### The sessions -/

/-- `RunStore.create`. -/
def createRun (runs : Runs Payload Time) (record : RunRecord Payload Time) : Except StoreError (Runs Payload Time) :=
  match runs record.runId with
  | some _ => .error (.integrity record.runId)
  | none => .ok (Function.update runs record.runId (some record))

/-- `RunStore.update`: the rows, and the record that it returns. -/
def updateRun (runs : Runs Payload Time) (record : RunRecord Payload Time) (now : Time) :
    Except StoreError (Runs Payload Time × RunRecord Payload Time) :=
  let newVersion := record.version + 1
  match runs record.runId with
  | some row =>
      if row.version = record.version then
        let row' := { record with version := newVersion, updatedAt := now, createdAt := row.createdAt }
        .ok (Function.update runs record.runId (some row'), { record with version := newVersion, updatedAt := now })
      else .error (.optimisticLock record.runId)
  | none => .error (.optimisticLock record.runId)

/-- `JobStore.create`. -/
def createJob (jobs : Jobs Payload Time) (record : JobRecord Payload Time) : Except StoreError (Jobs Payload Time) :=
  match jobs record.jobId with
  | some _ => .error (.integrity record.jobId)
  | none => .ok (Function.update jobs record.jobId (some record))

/-- `JobStore.update`. -/
def updateJob (jobs : Jobs Payload Time) (record : JobRecord Payload Time) (now : Time) :
    Except StoreError (Jobs Payload Time × JobRecord Payload Time) :=
  match jobs record.jobId with
  | some row =>
      let row' := { record with updatedAt := now, createdAt := row.createdAt }
      .ok (Function.update jobs record.jobId (some row'), { record with updatedAt := now })
  | none => .error (.recordNotFound record.jobId)

/-- `JobStore.claim_pending`. -/
def claimPending (jobs : Jobs Payload Time) (jobId workerId : String) (now : Time) : Option (Jobs Payload Time × JobRecord Payload Time) :=
  match jobs jobId with
  | some row =>
      if row.status = "pending" then
        let row' := { row with status := "claimed", claimedBy := some workerId, claimedAt := some now, updatedAt := now }
        some (Function.update jobs jobId (some row'), row')
      else none
  | none => none

/-- What `RunStore.set_status` updates the run with, after it has read it. -/
def RunRecord.withStatus (record : RunRecord Payload Time) (status : String) (completedAt : Option Time) : RunRecord Payload Time :=
  { record with status, completedAt }

/-- What `JobStore.set_status` updates the job with, after it has read it. -/
def JobRecord.withStatus (record : JobRecord Payload Time) (status : String) (completedAt : Option Time) : JobRecord Payload Time :=
  { record with status, completedAt }

/-! ### Runs of sessions -/

/-- The database, and what the clients have read: rows, and of a job how often it had been written. -/
structure World (Payload Time : Type) where
  runs : Runs Payload Time
  jobs : Jobs Payload Time
  writes : String → Nat
  seenRuns : List (RunRecord Payload Time)
  seenJobs : List (JobRecord Payload Time × Nat)

/-- A session of some client. A record that is written back is based on one that a client has read; `set_status` is a read and such an
update. -/
inductive Act (Payload Time : Type) where
  | createRun (record : RunRecord Payload Time)
  /-- `get` and `list_by_trace`. -/
  | readRuns (ids : List String)
  | updateRun (read record : RunRecord Payload Time) (now : Time)
  | createJob (record : JobRecord Payload Time)
  /-- `get` and `list_pending`. -/
  | readJobs (ids : List String)
  | updateJob (read : JobRecord Payload Time × Nat) (record : JobRecord Payload Time) (now : Time)
  | claimPending (jobId workerId : String) (now : Time)

namespace World

def initial : World Payload Time := ⟨fun _ => none, fun _ => none, fun _ => 0, [], []⟩

/-- The world in which a job has been written. -/
def wrote (w : World Payload Time) (jobs : Jobs Payload Time) (jobId : String) : World Payload Time :=
  let writes := Function.update w.writes jobId (w.writes jobId + 1)
  { w with jobs, writes, seenJobs := ((jobs jobId).map fun row => (row, writes jobId)).toList ++ w.seenJobs }

/-- The world after a session; one that raises is rolled back. -/
def after (w : World Payload Time) : Act Payload Time → World Payload Time
  | .createRun record =>
      match SqlRecords.createRun w.runs record with
      | .ok runs => { w with runs, seenRuns := record :: w.seenRuns }
      | .error _ => w
  | .readRuns ids => { w with seenRuns := ids.filterMap w.runs ++ w.seenRuns }
  | .updateRun _ record now =>
      match SqlRecords.updateRun w.runs record now with
      | .ok (runs, _) => { w with runs, seenRuns := (runs record.runId).toList ++ w.seenRuns }
      | .error _ => w
  | .createJob record =>
      match SqlRecords.createJob w.jobs record with
      | .ok jobs => w.wrote jobs record.jobId
      | .error _ => w
  | .readJobs ids => { w with seenJobs := ids.filterMap (fun id => (w.jobs id).map fun row => (row, w.writes id)) ++ w.seenJobs }
  | .updateJob _ record now =>
      match SqlRecords.updateJob w.jobs record now with
      | .ok (jobs, _) => w.wrote jobs record.jobId
      | .error _ => w
  | .claimPending jobId workerId now =>
      match SqlRecords.claimPending w.jobs jobId workerId now with
      | some (jobs, _) => w.wrote jobs jobId
      | none => w

end World

/-- A record that is written back is that of a row that has been read, with any other values. -/
def Based (w : World Payload Time) : Act Payload Time → Prop
  | .updateRun read record _ => read ∈ w.seenRuns ∧ record.runId = read.runId ∧ record.version = read.version
  | .updateJob read record _ => read ∈ w.seenJobs ∧ record.jobId = read.1.jobId
  | _ => True

/-- No session has written a job since the record that is written back was read. -/
def Timely (w : World Payload Time) : Act Payload Time → Prop
  | .updateJob read record _ => w.writes record.jobId = read.2
  | _ => True

/-- A client sets a job that is not pending back to pending. -/
def SetsBack (jobId : String) : Act Payload Time → Prop
  | .updateJob read record _ => record.jobId = jobId ∧ record.status = "pending" ∧ read.1.status ≠ "pending"
  | _ => False

inductive Run (safe : World Payload Time → Act Payload Time → Prop) : World Payload Time → World Payload Time → Prop where
  | refl (w : World Payload Time) : Run safe w w
  | step {w w' : World Payload Time} (act : Act Payload Time) : Run safe w w' → Based w' act → safe w' act → Run safe w (w'.after act)

variable {w w' : World Payload Time} {act : Act Payload Time}

/-! ### What a session does -/

/-- What a session does to the runs. -/
inductive RunEffect (w : World Payload Time) : World Payload Time → Prop where
  | reads {w' : World Payload Time} : w'.runs = w.runs → (∀ r ∈ w'.seenRuns, r ∈ w.seenRuns ∨ ∃ id, w.runs id = some r) → RunEffect w w'
  /-- A row is added or replaced, and has another version then. -/
  | writes {w' : World Payload Time} (row' : RunRecord Payload Time) :
      (∀ row, w.runs row'.runId = some row → row'.version = row.version + 1) → w'.runs = Function.update w.runs row'.runId (some row') →
      w'.seenRuns = row' :: w.seenRuns → RunEffect w w'

theorem after_runs (w : World Payload Time) (act : Act Payload Time) : RunEffect w (w.after act) := by
  cases act with
  | createRun record =>
      rw [World.after, createRun]
      cases hrow : w.runs record.runId with
      | some row => exact .reads rfl fun r hr => .inl hr
      | none =>
          refine .writes record (fun row h => ?_) rfl rfl
          rw [hrow] at h
          cases h
  | readRuns ids =>
      refine .reads rfl fun r hr => ?_
      rcases List.mem_append.mp hr with hr | hr
      · obtain ⟨id, -, hid⟩ := List.mem_filterMap.mp hr
        exact .inr ⟨id, hid⟩
      · exact .inl hr
  | updateRun read record now =>
      rw [World.after, updateRun]
      cases hrow : w.runs record.runId with
      | none => exact .reads rfl fun r hr => .inl hr
      | some row =>
          dsimp only
          by_cases hversion : row.version = record.version
          · rw [if_pos hversion]
            dsimp only
            refine .writes { record with version := record.version + 1, updatedAt := now, createdAt := row.createdAt }
              (fun old h => ?_) rfl ?_
            · rw [hrow] at h
              obtain rfl := Option.some.inj h
              exact congrArg (· + 1) hversion.symm
            · rw [Function.update_self]
              rfl
          · rw [if_neg hversion]
            exact .reads rfl fun r hr => .inl hr
  | createJob record =>
      rw [World.after]
      split <;> exact .reads rfl fun r hr => .inl hr
  | readJobs ids => exact .reads rfl fun r hr => .inl hr
  | updateJob read record now =>
      rw [World.after]
      split <;> exact .reads rfl fun r hr => .inl hr
  | claimPending jobId workerId now =>
      rw [World.after]
      split <;> exact .reads rfl fun r hr => .inl hr

/-- Why a job's row is written. -/
inductive Cause (w : World Payload Time) (row' : JobRecord Payload Time) : Act Payload Time → Prop where
  | created {act : Act Payload Time} : w.jobs row'.jobId = none → Cause w row' act
  | updated {read : JobRecord Payload Time × Nat} {record : JobRecord Payload Time} {now : Time} :
      record.jobId = row'.jobId → record.status = row'.status → Cause w row' (.updateJob read record now)
  | claimed {act : Act Payload Time} {row : JobRecord Payload Time} :
      w.jobs row'.jobId = some row → row.status = "pending" → Cause w row' act

/-- What a session does to the jobs. -/
inductive JobEffect (w : World Payload Time) (act : Act Payload Time) : World Payload Time → Prop where
  | reads {w' : World Payload Time} : w'.jobs = w.jobs → w'.writes = w.writes →
      (∀ e ∈ w'.seenJobs, e ∈ w.seenJobs ∨ ∃ id, w.jobs id = some e.1 ∧ e.2 = w.writes id) → JobEffect w act w'
  | writes {w' : World Payload Time} (row' : JobRecord Payload Time) : Cause w row' act →
      w'.jobs = Function.update w.jobs row'.jobId (some row') →
      w'.writes = Function.update w.writes row'.jobId (w.writes row'.jobId + 1) →
      w'.seenJobs = (row', w.writes row'.jobId + 1) :: w.seenJobs → JobEffect w act w'

theorem JobEffect.wrote (row' : JobRecord Payload Time) (hcause : Cause w row' act) :
    JobEffect w act (w.wrote (Function.update w.jobs row'.jobId (some row')) row'.jobId) := by
  refine .writes row' hcause rfl rfl ?_
  rw [World.wrote]
  dsimp only
  rw [Function.update_self, Function.update_self]
  rfl

/-- The rows of the jobs have their keys. -/
def KeyedJobs (w : World Payload Time) : Prop := ∀ id row, w.jobs id = some row → row.jobId = id

theorem after_jobs (hkeyed : KeyedJobs w) (act : Act Payload Time) : JobEffect w act (w.after act) := by
  cases act with
  | createRun record =>
      rw [World.after]
      split <;> exact .reads rfl rfl fun e he => .inl he
  | readRuns ids => exact .reads rfl rfl fun e he => .inl he
  | updateRun read record now =>
      rw [World.after]
      split <;> exact .reads rfl rfl fun e he => .inl he
  | createJob record =>
      rw [World.after, createJob]
      cases hrow : w.jobs record.jobId with
      | some row => exact .reads rfl rfl fun e he => .inl he
      | none => exact .wrote record (.created hrow)
  | readJobs ids =>
      refine .reads rfl rfl fun e he => ?_
      rcases List.mem_append.mp he with he | he
      · obtain ⟨id, -, hid⟩ := List.mem_filterMap.mp he
        obtain ⟨row, hrow, rfl⟩ := Option.map_eq_some_iff.mp hid
        exact .inr ⟨id, hrow, rfl⟩
      · exact .inl he
  | updateJob read record now =>
      rw [World.after, updateJob]
      cases hrow : w.jobs record.jobId with
      | none => exact .reads rfl rfl fun e he => .inl he
      | some row =>
          exact .wrote { record with updatedAt := now, createdAt := row.createdAt } (.updated rfl rfl)
  | claimPending jobId workerId now =>
      rw [World.after, claimPending]
      cases hrow : w.jobs jobId with
      | none => exact .reads rfl rfl fun e he => .inl he
      | some row =>
          dsimp only
          by_cases hpending : row.status = "pending"
          · rw [if_pos hpending]
            obtain rfl := hkeyed jobId row hrow
            exact .wrote { row with status := "claimed", claimedBy := some workerId, claimedAt := some now, updatedAt := now }
              (.claimed hrow hpending)
          · rw [if_neg hpending]
            exact .reads rfl rfl fun e he => .inl he

/-! ### No update is lost -/

/-- A run that has been read with the version of its row is this row. -/
structure RunsKept (w : World Payload Time) : Prop where
  keyed : ∀ id row, w.runs id = some row → row.runId = id
  seen : ∀ r ∈ w.seenRuns, ∃ row, w.runs r.runId = some row ∧ r.version ≤ row.version ∧ (r.version = row.version → r = row)

theorem runsKept_step (hw : RunsKept w) (h : RunEffect w w') : RunsKept w' := by
  cases h with
  | reads hruns hseen =>
      refine ⟨fun id row hrow => hw.keyed id row (hruns ▸ hrow), fun r hr => ?_⟩
      rw [hruns]
      rcases hseen r hr with hold | ⟨id, hid⟩
      · exact hw.seen r hold
      · obtain rfl := hw.keyed id r hid
        exact ⟨r, hid, Int.le_refl _, fun _ => rfl⟩
  | writes row' hversion hruns hseen =>
      refine ⟨fun id row hrow => ?_, fun r hr => ?_⟩
      · rw [hruns] at hrow
        by_cases hid : id = row'.runId
        · subst hid
          rw [Function.update_self] at hrow
          exact Option.some.inj hrow ▸ rfl
        · rw [Function.update_of_ne hid] at hrow
          exact hw.keyed id row hrow
      · rw [hruns]
        rw [hseen] at hr
        rcases List.mem_cons.mp hr with rfl | hold
        · exact ⟨r, Function.update_self _ _ _, Int.le_refl _, fun _ => rfl⟩
        · obtain ⟨row, hrow, hle, hsame⟩ := hw.seen r hold
          by_cases hid : r.runId = row'.runId
          · rw [hid] at hrow ⊢
            have hnew := hversion row hrow
            exact ⟨row', Function.update_self _ _ _, by omega, fun heq => by omega⟩
          · exact ⟨row, by rwa [Function.update_of_ne hid], hle, hsame⟩

/-- A job that has not been written since it was read is as it was read. -/
structure JobsKept (w : World Payload Time) : Prop where
  keyed : KeyedJobs w
  seen : ∀ e ∈ w.seenJobs, e.2 ≤ w.writes e.1.jobId ∧ (w.writes e.1.jobId = e.2 → w.jobs e.1.jobId = some e.1)

theorem jobsKept_step (hw : JobsKept w) (h : JobEffect w act w') : JobsKept w' := by
  cases h with
  | reads hjobs hwrites hseen =>
      refine ⟨fun id row hrow => hw.keyed id row (hjobs ▸ hrow), fun e he => ?_⟩
      rw [hjobs, hwrites]
      rcases hseen e he with hold | ⟨id, hid, hcount⟩
      · exact hw.seen e hold
      · obtain rfl := hw.keyed id e.1 hid
        exact ⟨Nat.le_of_eq hcount, fun _ => hid⟩
  | writes row' hcause hjobs hwrites hseen =>
      refine ⟨fun id row hrow => ?_, fun e he => ?_⟩
      · rw [hjobs] at hrow
        by_cases hid : id = row'.jobId
        · subst hid
          rw [Function.update_self] at hrow
          exact Option.some.inj hrow ▸ rfl
        · rw [Function.update_of_ne hid] at hrow
          exact hw.keyed id row hrow
      · rw [hjobs, hwrites]
        rw [hseen] at he
        rcases List.mem_cons.mp he with rfl | hold
        · rw [Function.update_self, Function.update_self]
          exact ⟨Nat.le_refl _, fun _ => rfl⟩
        · obtain ⟨hle, hsame⟩ := hw.seen e hold
          by_cases hid : e.1.jobId = row'.jobId
          · rw [hid] at hle ⊢
            rw [Function.update_self]
            exact ⟨Nat.le_succ_of_le hle, fun heq => by omega⟩
          · rw [Function.update_of_ne hid, Function.update_of_ne hid]
            exact ⟨hle, hsame⟩

theorem kept_run {safe : World Payload Time → Act Payload Time → Prop} {start : World Payload Time} (hstart : RunsKept start ∧ JobsKept start)
    (h : Run safe start w) : RunsKept w ∧ JobsKept w := by
  induction h with
  | refl => exact hstart
  | step _ _ _ _ ih => exact ⟨runsKept_step ih.1 (after_runs _ _), jobsKept_step ih.2 (after_jobs ih.2.keyed _)⟩

theorem kept_initial : RunsKept (World.initial : World Payload Time) ∧ JobsKept (World.initial : World Payload Time) :=
  ⟨⟨fun _ row h => absurd h.symm (Option.some_ne_none row), fun _ h => absurd h List.not_mem_nil⟩,
    ⟨fun _ row h => absurd h.symm (Option.some_ne_none row), fun _ h => absurd h List.not_mem_nil⟩⟩

/-- A run that is updated is as it was when the record was read: nothing that has been committed since is overwritten. -/
theorem run_unchanged (hw : RunsKept w) {read record : RunRecord Payload Time} {now : Time} (hbased : Based w (.updateRun read record now))
    {result : Runs Payload Time × RunRecord Payload Time} (hupdate : updateRun w.runs record now = .ok result) :
    w.runs record.runId = some read := by
  obtain ⟨hread, hid, hversion⟩ := hbased
  obtain ⟨row, hrow, -, hsame⟩ := hw.seen read hread
  rw [updateRun, hid, hrow] at hupdate
  dsimp only at hupdate
  split at hupdate
  · rename_i heq
    rw [hid, hrow, hsame (hversion.symm.trans heq.symm)]
  · cases hupdate

theorem job_unchanged (hw : JobsKept w) {read : JobRecord Payload Time × Nat} {record : JobRecord Payload Time} {now : Time}
    (hbased : Based w (.updateJob read record now)) (htimely : Timely w (.updateJob read record now)) :
    w.jobs record.jobId = some read.1 := by
  obtain ⟨hread, hid⟩ := hbased
  have htimely' : w.writes record.jobId = read.2 := htimely
  rw [hid] at htimely' ⊢
  exact (hw.seen read hread).2 htimely'

/-- The job is there and is not pending. -/
def Taken (w : World Payload Time) (jobId : String) : Prop := ∃ row, w.jobs jobId = some row ∧ row.status ≠ "pending"

theorem taken_step {jobId : String} (hw : JobsKept w) (htaken : Taken w jobId) (hbased : Based w act) (htimely : Timely w act)
    (hnot : ¬ SetsBack jobId act) : Taken (w.after act) jobId := by
  obtain ⟨row, hrow, hstatus⟩ := htaken
  cases after_jobs hw.keyed act with
  | reads hjobs _ _ => exact ⟨row, hjobs ▸ hrow, hstatus⟩
  | writes row' hcause hjobs _ _ =>
      rw [Taken, hjobs]
      by_cases hid : jobId = row'.jobId
      · subst hid
        refine ⟨row', Function.update_self _ _ _, fun hpending => ?_⟩
        cases hcause with
        | created hnone =>
            rw [hnone] at hrow
            cases hrow
        | claimed hold hpending' =>
            obtain rfl := Option.some.inj (hrow.symm.trans hold)
            exact hstatus hpending'
        | updated hid hsame =>
            have hread := job_unchanged hw hbased htimely
            rw [hid] at hread
            obtain rfl := Option.some.inj (hrow.symm.trans hread)
            exact hnot ⟨hid, hsame.trans hpending, hstatus⟩
      · exact ⟨row, by rwa [Function.update_of_ne hid], hstatus⟩

/-- In a run in which no job is written back after another session has written it: a run or a job that is updated is as it was when the record
was read, and a job that has been claimed is not given to anyone else unless a client sets it back to pending. -/
theorem updates_kept (hrun : Run Timely World.initial w) :
    (∀ read record now result, Based w (.updateRun read record now) → updateRun w.runs record now = .ok result → w.runs record.runId = some read) ∧
      (∀ read record now, Based w (.updateJob read record now) → Timely w (.updateJob read record now) → w.jobs record.jobId = some read.1) ∧
      ∀ jobId workerId now result, claimPending w.jobs jobId workerId now = some result →
        ∀ w', Run (fun w act => Timely w act ∧ ¬ SetsBack jobId act) (w.after (.claimPending jobId workerId now)) w' →
          ∀ workerId' now', claimPending w'.jobs jobId workerId' now' = none := by
  obtain ⟨hruns, hjobs⟩ := kept_run kept_initial hrun
  refine ⟨fun read record now result hbased hupdate => run_unchanged hruns hbased hupdate,
    fun read record now hbased htimely => job_unchanged hjobs hbased htimely, fun jobId workerId now result hclaim w' hmore => ?_⟩
  have hafter : JobsKept (w.after (.claimPending jobId workerId now)) := jobsKept_step hjobs (after_jobs hjobs.keyed _)
  have htaken : Taken (w.after (.claimPending jobId workerId now)) jobId := by
    rw [claimPending] at hclaim
    split at hclaim
    · rename_i row hrow
      by_cases hpending : row.status = "pending"
      · refine ⟨{ row with status := "claimed", claimedBy := some workerId, claimedAt := some now, updatedAt := now }, ?_, (by decide : "claimed" ≠ "pending")⟩
        rw [World.after, claimPending, hrow]
        dsimp only
        rw [if_pos hpending]
        exact Function.update_self _ _ _
      · rw [if_neg hpending] at hclaim
        cases hclaim
    · cases hclaim
  have hend : JobsKept w' ∧ Taken w' jobId := by
    induction hmore with
    | refl => exact ⟨hafter, htaken⟩
    | step _ _ hbased hsafe ih =>
        obtain ⟨hkept, htaken⟩ := ih
        exact ⟨jobsKept_step hkept (after_jobs hkept.keyed _), taken_step hkept htaken hbased hsafe.1 hsafe.2⟩
  intro workerId' now'
  obtain ⟨-, row, hrow, hstatus⟩ := hend
  rw [claimPending, hrow]
  exact if_neg hstatus

end Sessions

/-- A job that no one has claimed. -/
def openJob : JobRecord Nat Nat := ⟨"j", "task", "pending", none, none, none, none, 0, 3, none, none, none, none, 0, 0⟩

def openWorld : World Nat Nat := World.initial.after (.createJob openJob)

/-- The second worker does not get a job that the first one has claimed. -/
theorem claimed_once : claimPending (openWorld.after (.claimPending "j" "first" 1)).jobs "j" "second" 2 = none := by
  have hrun : Run Timely World.initial openWorld := .step _ (.refl _) trivial trivial
  obtain ⟨-, -, hclaims⟩ := updates_kept hrun
  obtain ⟨result, hresult⟩ := Option.isSome_iff_exists.mp (by decide : (claimPending openWorld.jobs "j" "first" 1).isSome = true)
  exact hclaims "j" "first" 1 result hresult _ (.refl _) "second" 2

/-- A client reads a job, a worker claims it, and the client writes the attempts back: the claim is lost, and a second worker gets the job,
although no client has set it back. -/
theorem claimed_twice : ∃ w w' : World Nat Nat, Run (fun _ _ => True) World.initial w ∧
    (claimPending w.jobs "j" "first" 1).isSome ∧ Run (fun _ act => ¬ SetsBack "j" act) (w.after (.claimPending "j" "first" 1)) w' ∧
    (claimPending w'.jobs "j" "second" 3).isSome := by
  refine ⟨openWorld.after (.readJobs ["j"]), _, .step _ (.step _ (.refl _) trivial trivial) trivial trivial, by decide,
    .step (.updateJob (openJob, 1) { openJob with attemptCount := 1 } 2) (.refl _) ⟨List.mem_cons_of_mem _ List.mem_cons_self, rfl⟩ ?_, by decide⟩
  rintro ⟨-, -, hstatus⟩
  exact hstatus rfl

end Nodus.SqlRecords
