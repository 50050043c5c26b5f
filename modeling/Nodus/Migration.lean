import Mathlib.Data.List.Perm.Subperm
import Nodus.StoreEquivalence

/-! Runs are copied from one store into another. A store of files may keep a bounded number of finished runs only, and deletes the
oldest ones when one more is written. -/

namespace Nodus.Stores

/-- What the migration uses of a store: the runs that it lists, a run by its id, and how a record is written and a run removed. -/
structure Backend where
  State : Type
  listAllRuns : State → List WorkflowRunRecord
  getRun : State → PyStr → Option WorkflowRunRecord
  /-- Whether writing the record raises nothing. -/
  accepts : WorkflowRunRecord → Bool
  write : State → WorkflowRunRecord → State
  delete : State → PyStr → State
  /-- `max_terminal_runs`. -/
  maxTerminalRuns : Option Int
  mem_runs : ∀ s r, r ∈ listAllRuns s ↔ getRun s r.runId = some r
  nodup_runs : ∀ s, ((listAllRuns s).map WorkflowRunRecord.runId).Nodup
  getRun_id : ∀ s id r, getRun s id = some r → r.runId = id
  getRun_stored : ∀ s id r, getRun s id = some r → r.stored = r
  getRun_write : ∀ s r id, accepts r → getRun (write s r) id = if id = r.runId then some r.stored else getRun s id
  getRun_delete : ∀ s id id', getRun (delete s id) id' = if id' = id then none else getRun s id'

def WorkflowRunRecord.Terminal (record : WorkflowRunRecord) : Bool := record.status ∈ terminalRunStatuses

namespace Backend

variable (b : Backend)

/-- The finished runs, the oldest first. -/
def terminalRuns (s : b.State) : List WorkflowRunRecord := sortedRunRecords ((b.listAllRuns s).filter WorkflowRunRecord.Terminal)

/-- `_prune_terminal_runs`. -/
def pruneTerminalRuns (s : b.State) : b.State :=
  match b.maxTerminalRuns with
  | none => s
  | some limit =>
      if limit < 0 then s
      else
        let terminal := b.terminalRuns s
        (terminal.take (terminal.length - limit.toNat)).foldl (fun s stale => b.delete s stale.runId) s

/-- The store after a record has been written. -/
def restored (s : b.State) (record : WorkflowRunRecord) : b.State :=
  if record.Terminal then b.pruneTerminalRuns (b.write s record) else b.write s record

/-- `restore_run`, where `none` is that it raises. -/
def restoreRun (s : b.State) (record : WorkflowRunRecord) : Option b.State :=
  if b.accepts record then some (b.restored s record) else none

end Backend

/-- What `migrate_workflow_store` reports. -/
structure Report where
  migrated : List PyStr := []
  skipped : List PyStr := []
  waitingMigrated : List PyStr := []
  failed : List PyStr := []
  deriving DecidableEq

/-- A run that waits is counted. -/
def Report.noteWaiting (report : Report) (record : WorkflowRunRecord) : Report :=
  if record.status = str "waiting" then { report with waitingMigrated := report.waitingMigrated ++ [record.runId] } else report

/-- The loop of `migrate_workflow_store`. -/
def migrateRuns (target : Backend) (dryRun overwrite : Bool) :
    List WorkflowRunRecord → Report × target.State → Report × target.State
  | [], st => st
  | record :: records, (report, t) =>
      if (target.getRun t record.runId).isSome && !overwrite then
        migrateRuns target dryRun overwrite records ({ report with skipped := report.skipped ++ [record.runId] }, t)
      else
        let report := report.noteWaiting record
        if dryRun then
          migrateRuns target dryRun overwrite records ({ report with migrated := report.migrated ++ [record.runId] }, t)
        else match target.restoreRun t record with
          | some t =>
              migrateRuns target dryRun overwrite records ({ report with migrated := report.migrated ++ [record.runId] }, t)
          | none => migrateRuns target dryRun overwrite records ({ report with failed := report.failed ++ [record.runId] }, t)

/-- The report, and the two stores afterwards. -/
structure Migrated (source target : Backend) where
  report : Report
  source : source.State
  target : target.State

/-- `migrate_workflow_store`. -/
def migrateWorkflowStore (source target : Backend) (s : source.State) (t : target.State) (dryRun overwrite : Bool) : Migrated source target :=
  let (report, t) := migrateRuns target dryRun overwrite (source.listAllRuns s) ({}, t)
  ⟨report, s, t⟩

/-! ### The two classes -/

section Classes

/-- A directory whose readable files are named by the ids of their records, in which they stand as they are written. -/
structure LocalFiles (valid : PyStr → Bool) where
  files : Table Json
  good : ∀ id record, loadRun files id = some record → valid id ∧ record.runId = id ∧ record.stored = record

/-- A table whose rows are those of their ids. -/
structure SqliteRows where
  rows : Table Row
  good : ∀ id record, readRow rows id = some record → record.runId = id ∧ record.stored = record

theorem map_runId_sublist {f : PyStr → Option WorkflowRunRecord} (hf : ∀ id r, f id = some r → r.runId = id) (ids : List PyStr) :
    ((ids.filterMap f).map WorkflowRunRecord.runId).Sublist ids := by
  induction ids with
  | nil => exact List.Sublist.slnil
  | cons id rest ih =>
      cases hid : f id with
      | none =>
          rw [List.filterMap_cons_none hid]
          exact ih.cons id
      | some r =>
          rw [List.filterMap_cons_some hid, List.map_cons, hf id r hid]
          exact ih.cons_cons id

theorem nodup_listed {X : Type} (t : Table X) (scan : Scan) {f : PyStr → Option WorkflowRunRecord} (hf : ∀ id r, f id = some r → r.runId = id) :
    ((sortedRunRecords ((scan.order t.names).filterMap f)).map WorkflowRunRecord.runId).Nodup := by
  refine ((List.mergeSort_perm _ _).map WorkflowRunRecord.runId).nodup_iff.mpr ((map_runId_sublist hf _).nodup ?_)
  exact (scan.perm t.names).nodup_iff.mpr t.nodup

theorem mem_listed {X : Type} (t : Table X) (scan : Scan) {f : PyStr → Option WorkflowRunRecord} (hf : ∀ id r, f id = some r → r.runId = id)
    (hnames : ∀ id r, f id = some r → id ∈ t.names) (r : WorkflowRunRecord) :
    r ∈ sortedRunRecords ((scan.order t.names).filterMap f) ↔ f r.runId = some r := by
  rw [sortedRunRecords, List.mem_mergeSort, List.mem_filterMap]
  constructor
  · rintro ⟨id, -, hid⟩
    rw [hf id r hid]
    exact hid
  · exact fun h => ⟨r.runId, (scan.perm t.names).mem_iff.mpr (hnames _ _ h), h⟩

theorem loadRun_remove (files : Table Json) (id id' : PyStr) :
    loadRun (files.remove id) id' = if id' = id then none else loadRun files id' := by
  unfold loadRun
  show (Function.update files.entry id none id').bind _ = _
  by_cases h : id' = id
  · rw [h, Function.update_self, if_pos rfl]
    rfl
  · rw [Function.update_of_ne h, if_neg h]

theorem readRow_remove (rows : Table Row) (id id' : PyStr) :
    readRow (rows.remove id) id' = if id' = id then none else readRow rows id' := by
  unfold readRow
  show (Function.update rows.entry id none id').bind _ = _
  by_cases h : id' = id
  · rw [h, Function.update_self, if_pos rfl]
    rfl
  · rw [Function.update_of_ne h, if_neg h]

theorem loadRun_names {files : Table Json} {id : PyStr} {record : WorkflowRunRecord} (h : loadRun files id = some record) :
    id ∈ files.names := by
  obtain ⟨file, hfile, -⟩ := Option.bind_eq_some_iff.mp h
  exact (files.mem_names id).mpr (Option.isSome_iff_exists.mpr ⟨file, hfile⟩)

theorem readRow_names {rows : Table Row} {id : PyStr} {record : WorkflowRunRecord} (h : readRow rows id = some record) :
    id ∈ rows.names := by
  obtain ⟨row, hrow, -⟩ := Option.bind_eq_some_iff.mp h
  exact (rows.mem_names id).mpr (Option.isSome_iff_exists.mpr ⟨row, hrow⟩)

namespace LocalFiles

variable {valid : PyStr → Bool}

def put (s : LocalFiles valid) (record : WorkflowRunRecord) (h : valid record.runId) : LocalFiles valid where
  files := s.files.put record.runId (.obj record.toDict)
  good id r hr := by
    rw [loadRun_put, record_fromDict] at hr
    split at hr
    · next hid =>
        obtain rfl := Option.some.inj hr
        exact ⟨hid ▸ h, hid.symm, stored_stored record⟩
    · exact s.good id r hr

def remove (s : LocalFiles valid) (id : PyStr) : LocalFiles valid where
  files := s.files.remove id
  good id' r hr := by
    rw [loadRun_remove] at hr
    split at hr
    · exact absurd hr nofun
    · exact s.good id' r hr

end LocalFiles

namespace SqliteRows

def put (s : SqliteRows) (record : WorkflowRunRecord) : SqliteRows where
  rows := s.rows.put record.runId (serializeRecord record)
  good id r hr := by
    rw [readRow_put, recordFromRow_serialize] at hr
    split at hr
    · next hid =>
        obtain rfl := Option.some.inj hr
        exact ⟨hid.symm, stored_stored record⟩
    · exact s.good id r hr

def remove (s : SqliteRows) (id : PyStr) : SqliteRows where
  rows := s.rows.remove id
  good id' r hr := by
    rw [readRow_remove] at hr
    split at hr
    · exact absurd hr nofun
    · exact s.good id' r hr

end SqliteRows

/-- `LocalWorkflowStore`. `valid` is the check of `safe_state_id`: an id that cannot name a file names no run, and is not written. -/
def localBackend (valid : PyStr → Bool) (scan : Scan) (maxTerminalRuns : Option Int) : Backend where
  State := LocalFiles valid
  listAllRuns s := sortedRunRecords ((scan.order s.files.names).filterMap (loadRun s.files))
  getRun s id := loadRun s.files id
  accepts record := valid record.runId
  write s record := if h : valid record.runId then s.put record h else s
  delete := LocalFiles.remove
  maxTerminalRuns
  mem_runs s r := mem_listed s.files scan (fun id r h => (s.good id r h).2.1) (fun _ _ => loadRun_names) r
  nodup_runs s := nodup_listed s.files scan fun id r h => (s.good id r h).2.1
  getRun_id s id r h := (s.good id r h).2.1
  getRun_stored s id r h := (s.good id r h).2.2
  getRun_write s r id h := by
    rw [dif_pos h]
    exact (loadRun_put ..).trans (by rw [record_fromDict])
  getRun_delete s id id' := loadRun_remove s.files id id'

/-- `SQLiteWorkflowStore`. -/
def sqliteBackend (scan : Scan) : Backend where
  State := SqliteRows
  listAllRuns s := sortedRunRecords ((scan.order s.rows.names).filterMap (readRow s.rows))
  getRun s id := readRow s.rows id
  accepts record := record.Fits
  write := SqliteRows.put
  delete := SqliteRows.remove
  maxTerminalRuns := none
  mem_runs s r := mem_listed s.rows scan (fun id r h => (s.good id r h).1) (fun _ _ => readRow_names) r
  nodup_runs s := nodup_listed s.rows scan fun id r h => (s.good id r h).1
  getRun_id s id r h := (s.good id r h).1
  getRun_stored s id r h := (s.good id r h).2
  getRun_write s r id _ := (readRow_put ..).trans (by rw [recordFromRow_serialize])
  getRun_delete s id id' := readRow_remove s.rows id id'

/-- A store of either class. -/
inductive StoreClass where
  | local (valid : PyStr → Bool) (scan : Scan) (maxTerminalRuns : Option Int)
  | sqlite (scan : Scan)

def StoreClass.backend : StoreClass → Backend
  | .local valid scan maxTerminalRuns => localBackend valid scan maxTerminalRuns
  | .sqlite scan => sqliteBackend scan

end Classes

/-! ### What the migration should do -/

/-- The migration leaves the source as it was, reports each of its runs once, leaves the runs of the target as they were, carries each
run that it reports as migrated, and finds nothing to do when it is run again. -/
structure Faithful (source target : Backend) (s : source.State) (t : target.State) (m : Migrated source target) : Prop where
  source_kept : m.source = s
  partition : (m.report.migrated ++ (m.report.skipped ++ m.report.failed)).Perm ((source.listAllRuns s).map WorkflowRunRecord.runId)
  target_kept : ∀ id record, target.getRun t id = some record → target.getRun m.target id = some record
  carried : ∀ record ∈ source.listAllRuns s, record.runId ∈ m.report.migrated → target.getRun m.target record.runId = some record
  again : (migrateWorkflowStore source target s m.target false false).report.migrated = [] ∧
    (migrateWorkflowStore source target s m.target false false).target = m.target

namespace Backend

/-- The finished runs that are new to the target and can be written to it. -/
def arriving (target : Backend) (t : target.State) (records : List WorkflowRunRecord) : List WorkflowRunRecord :=
  records.filter fun r => r.Terminal && (target.getRun t r.runId).isNone && target.accepts r

/-- No finished run arrives, or there is room for those that do. -/
def Roomy (target : Backend) (t : target.State) (records : List WorkflowRunRecord) : Prop :=
  ∀ limit, target.maxTerminalRuns = some limit → 0 ≤ limit →
    target.arriving t records = [] ∨ ((target.terminalRuns t).length + (target.arriving t records).length : Int) ≤ limit

/-! ### The finished runs of a store -/

section Pruning

variable {b : Backend} {s : b.State} {r : WorkflowRunRecord}

theorem mem_terminalRuns : r ∈ b.terminalRuns s ↔ b.getRun s r.runId = some r ∧ r.Terminal := by
  rw [terminalRuns, sortedRunRecords, List.mem_mergeSort, List.mem_filter, b.mem_runs]

theorem nodup_terminalRuns (s : b.State) : ((b.terminalRuns s).map WorkflowRunRecord.runId).Nodup := by
  refine ((List.mergeSort_perm _ _).map WorkflowRunRecord.runId).nodup_iff.mpr ?_
  exact ((List.filter_sublist (l := b.listAllRuns s)).map WorkflowRunRecord.runId).nodup (b.nodup_runs s)

theorem terminalRuns_le (ids : List PyStr) (h : ∀ r, b.getRun s r.runId = some r → r.Terminal → r.runId ∈ ids) :
    (b.terminalRuns s).length ≤ ids.length := by
  have hsub : ((b.terminalRuns s).map WorkflowRunRecord.runId) ⊆ ids := by
    intro id hid
    obtain ⟨r, hr, rfl⟩ := List.mem_map.mp hid
    exact h r (mem_terminalRuns.mp hr).1 (mem_terminalRuns.mp hr).2
  have hle := ((nodup_terminalRuns s).subperm hsub).length_le
  rwa [List.length_map] at hle

theorem le_terminalRuns (ids : List PyStr) (hnodup : ids.Nodup) (h : ∀ id ∈ ids, ∃ r, b.getRun s id = some r ∧ r.Terminal) :
    ids.length ≤ (b.terminalRuns s).length := by
  have hsub : ids ⊆ (b.terminalRuns s).map WorkflowRunRecord.runId := by
    intro id hid
    obtain ⟨r, hr, hterminal⟩ := h id hid
    have hrid := b.getRun_id s id r hr
    exact List.mem_map.mpr ⟨r, mem_terminalRuns.mpr ⟨hrid ▸ hr, hterminal⟩, hrid⟩
  have hle := (hnodup.subperm hsub).length_le
  rwa [List.length_map] at hle

theorem getRun_foldl_delete (stale : List WorkflowRunRecord) (s : b.State) (id : PyStr) :
    b.getRun (stale.foldl (fun s stale => b.delete s stale.runId) s) id =
      if id ∈ stale.map WorkflowRunRecord.runId then none else b.getRun s id := by
  induction stale generalizing s with
  | nil => rfl
  | cons r rest ih =>
      rw [List.foldl_cons, ih, b.getRun_delete, List.map_cons]
      by_cases hrest : id ∈ rest.map WorkflowRunRecord.runId
      · rw [if_pos hrest, if_pos (List.mem_cons_of_mem _ hrest)]
      · by_cases hid : id = r.runId
        · rw [if_neg hrest, if_pos hid, if_pos (hid ▸ List.mem_cons_self)]
        · rw [if_neg hrest, if_neg hid, if_neg fun hmem => (List.mem_cons.mp hmem).elim hid hrest]

theorem getRun_prune {id : PyStr} (h : b.getRun (b.pruneTerminalRuns s) id = some r) : b.getRun s id = some r := by
  rw [pruneTerminalRuns] at h
  cases hmax : b.maxTerminalRuns with
  | none => rwa [hmax] at h
  | some limit =>
      rw [hmax] at h
      simp only at h
      split at h
      · exact h
      · rw [getRun_foldl_delete] at h
        split at h
        · exact absurd h nofun
        · exact h

theorem length_prune {limit : Int} (hmax : b.maxTerminalRuns = some limit) (hlimit : 0 ≤ limit) (s : b.State) :
    ((b.terminalRuns (b.pruneTerminalRuns s)).length : Int) ≤ limit := by
  have hkept : ∀ r, b.getRun (b.pruneTerminalRuns s) r.runId = some r → r.Terminal →
      r.runId ∈ ((b.terminalRuns s).drop ((b.terminalRuns s).length - limit.toNat)).map WorkflowRunRecord.runId := by
    intro r hr hterminal
    have hbefore : r ∈ b.terminalRuns s := mem_terminalRuns.mpr ⟨getRun_prune hr, hterminal⟩
    rw [pruneTerminalRuns, hmax] at hr
    simp only [if_neg (Int.not_lt.mpr hlimit), getRun_foldl_delete] at hr
    split at hr
    · exact absurd hr nofun
    · next hnot =>
        refine List.mem_map_of_mem ?_
        rw [← List.take_append_drop ((b.terminalRuns s).length - limit.toNat) (b.terminalRuns s)] at hbefore
        exact (List.mem_append.mp hbefore).resolve_left fun htake => hnot (List.mem_map_of_mem htake)
  have hle := terminalRuns_le _ hkept
  rw [List.length_map, List.length_drop] at hle
  omega

theorem prune_eq {limit : Int} (hmax : b.maxTerminalRuns = some limit) (hroom : ((b.terminalRuns s).length : Int) ≤ limit) :
    b.pruneTerminalRuns s = s := by
  rw [pruneTerminalRuns, hmax]
  simp only
  split
  · rfl
  · have hzero : (b.terminalRuns s).length - limit.toNat = 0 := by omega
    rw [hzero]
    rfl

end Pruning

end Backend

/-! ### A run of the loop -/

section Loop

variable {target : Backend}

/-- One turn of the loop, without `dry_run` and `overwrite`. -/
def visit (target : Backend) (st : Report × target.State) (record : WorkflowRunRecord) : Report × target.State :=
  if (target.getRun st.2 record.runId).isSome then ({ st.1 with skipped := st.1.skipped ++ [record.runId] }, st.2)
  else
    let report := st.1.noteWaiting record
    match target.restoreRun st.2 record with
    | some t => ({ report with migrated := report.migrated ++ [record.runId] }, t)
    | none => ({ report with failed := report.failed ++ [record.runId] }, st.2)

theorem migrateRuns_eq (records : List WorkflowRunRecord) (st : Report × target.State) :
    migrateRuns target false false records st = records.foldl (visit target) st := by
  induction records generalizing st with
  | nil => rfl
  | cons record records ih =>
      rw [migrateRuns, List.foldl_cons, visit]
      simp only [Bool.not_false, Bool.and_true, Bool.false_eq_true, if_false]
      split
      · exact ih _
      · cases target.restoreRun st.2 record with
        | none => exact ih _
        | some t => exact ih _

theorem noteWaiting_eq (report : Report) (record : WorkflowRunRecord) : (report.noteWaiting record).migrated = report.migrated ∧
    (report.noteWaiting record).skipped = report.skipped ∧ (report.noteWaiting record).failed = report.failed := by
  unfold Report.noteWaiting
  split
  · exact ⟨rfl, rfl, rfl⟩
  · exact ⟨rfl, rfl, rfl⟩

/-- The lists of a report after a turn. -/
structure Reports (before after : Report) (migrated skipped failed : List PyStr) : Prop where
  migrated : after.migrated = before.migrated ++ migrated
  skipped : after.skipped = before.skipped ++ skipped
  failed : after.failed = before.failed ++ failed

/-- What a turn does: the run is there already, or the record cannot be written, or it is written. -/
theorem visit_cases (st : Report × target.State) (record : WorkflowRunRecord) :
    ((target.getRun st.2 record.runId).isSome ∧ (visit target st record).2 = st.2 ∧
        Reports st.1 (visit target st record).1 [] [record.runId] []) ∨
      (target.getRun st.2 record.runId = none ∧ target.accepts record = false ∧ (visit target st record).2 = st.2 ∧
        Reports st.1 (visit target st record).1 [] [] [record.runId]) ∨
      (target.getRun st.2 record.runId = none ∧ target.accepts record = true ∧
        (visit target st record).2 = target.restored st.2 record ∧ Reports st.1 (visit target st record).1 [record.runId] [] []) := by
  obtain ⟨hmigrated, hskipped, hfailed⟩ := noteWaiting_eq st.1 record
  rw [visit]
  by_cases hread : (target.getRun st.2 record.runId).isSome
  · rw [if_pos hread]
    exact .inl ⟨hread, rfl, (List.append_nil _).symm, rfl, (List.append_nil _).symm⟩
  · have hnone : target.getRun st.2 record.runId = none := Option.not_isSome_iff_eq_none.mp hread
    rw [if_neg hread]
    by_cases haccepts : target.accepts record = true
    · have hwritten : target.restoreRun st.2 record = some (target.restored st.2 record) := if_pos haccepts
      rw [hwritten]
      refine .inr (.inr ⟨hnone, haccepts, rfl, ?_, ?_, ?_⟩)
      · exact congrArg (· ++ [record.runId]) hmigrated
      · exact hskipped.trans (List.append_nil _).symm
      · exact hfailed.trans (List.append_nil _).symm
    · have hraises : target.restoreRun st.2 record = none := if_neg haccepts
      rw [hraises]
      refine .inr (.inl ⟨hnone, Bool.eq_false_iff.mpr haccepts, rfl, ?_, ?_, ?_⟩)
      · exact hmigrated.trans (List.append_nil _).symm
      · exact hskipped.trans (List.append_nil _).symm
      · exact congrArg (· ++ [record.runId]) hfailed

/-- What holds before the loop and is kept by each turn, for a record that has not had one, holds after it. -/
theorem loop_induct {I : List WorkflowRunRecord → Report × target.State → Prop} {t : target.State} {records : List WorkflowRunRecord}
    (hnodup : (records.map WorkflowRunRecord.runId).Nodup) (hstart : I [] ({}, t))
    (hstep : ∀ done record st, record ∈ records → record.runId ∉ done.map WorkflowRunRecord.runId → done ⊆ records → I done st →
      I (done ++ [record]) (visit target st record)) : I records (records.foldl (visit target) ({}, t)) := by
  have hrun : ∀ rest done st, done ++ rest = records → I done st → I records (rest.foldl (visit target) st) := by
    intro rest
    induction rest with
    | nil =>
        intro done st hall h
        rw [List.append_nil] at hall
        exact hall ▸ h
    | cons record rest ih =>
        intro done st hall h
        refine ih (done ++ [record]) _ (by simp [hall]) (hstep done record st ?_ ?_ ?_ h)
        · rw [← hall]
          simp
        · rw [← hall, List.map_append, List.nodup_append] at hnodup
          intro hmem
          exact hnodup.2.2 _ hmem _ (by simp) rfl
        · rw [← hall]
          exact List.subset_append_left ..
  exact hrun records [] _ rfl hstart

section Runs

variable {t : target.State} {records done : List WorkflowRunRecord} {st : Report × target.State} {record : WorkflowRunRecord}

theorem Reports.perm {before after : Report} {migrated skipped failed : List PyStr} (h : Reports before after migrated skipped failed) :
    (after.migrated ++ (after.skipped ++ after.failed)).Perm
      ((before.migrated ++ (before.skipped ++ before.failed)) ++ (migrated ++ (skipped ++ failed))) := by
  rw [h.migrated, h.skipped, h.failed, List.perm_iff_count]
  intro id
  simp only [List.count_append]
  omega

theorem getRun_write {id : PyStr} {r : WorkflowRunRecord} (hstored : record.stored = record) (haccepts : target.accepts record = true) :
    target.getRun (target.write st.2 record) id = some r ↔
      id = record.runId ∧ r = record ∨ id ≠ record.runId ∧ target.getRun st.2 id = some r := by
  rw [target.getRun_write _ _ _ haccepts, hstored]
  by_cases hid : id = record.runId
  · simp [hid, eq_comm]
  · simp [hid]

/-- After any number of turns. A finished run has arrived only if the bound has been enforced since. -/
structure Along (t : target.State) (done : List WorkflowRunRecord) (st : Report × target.State) : Prop where
  reads : ∀ id r, target.getRun st.2 id = some r → target.getRun t id = some r ∨ r ∈ done
  listed : (st.1.migrated ++ (st.1.skipped ++ st.1.failed)).Perm (done.map WorkflowRunRecord.runId)
  carried : ∀ r ∈ done, target.getRun t r.runId = none → target.accepts r → r.runId ∈ st.1.migrated
  capped : ∀ limit, target.maxTerminalRuns = some limit → 0 ≤ limit → target.arriving t done ≠ [] →
    ((target.terminalRuns st.2).length : Int) ≤ limit

theorem arriving_append (done : List WorkflowRunRecord) (record : WorkflowRunRecord) :
    target.arriving t (done ++ [record]) = target.arriving t done ++ target.arriving t [record] := List.filter_append ..

theorem Along.absent (h : Along t done st) (hid : record.runId ∉ done.map WorkflowRunRecord.runId)
    (hsome : (target.getRun st.2 record.runId).isSome) : (target.getRun t record.runId).isSome := by
  obtain ⟨r, hr⟩ := Option.isSome_iff_exists.mp hsome
  rcases h.reads _ r hr with hold | hdone
  · rw [hold]
    rfl
  · exact absurd (target.getRun_id _ _ _ hr ▸ List.mem_map_of_mem hdone) hid

theorem along_visit (hstored : record.stored = record) (hid : record.runId ∉ done.map WorkflowRunRecord.runId) (h : Along t done st) :
    Along t (done ++ [record]) (visit target st record) := by
  have hlisted : ∀ {migrated skipped failed : List PyStr}, migrated ++ (skipped ++ failed) = [record.runId] →
      Reports st.1 (visit target st record).1 migrated skipped failed →
      ((visit target st record).1.migrated ++ ((visit target st record).1.skipped ++ (visit target st record).1.failed)).Perm
        ((done ++ [record]).map WorkflowRunRecord.runId) := by
    intro migrated skipped failed hone hreports
    rw [List.map_append]
    refine hreports.perm.trans (h.listed.append ?_)
    rw [hone]
    rfl
  have hcarried : ∀ {migrated skipped failed : List PyStr}, Reports st.1 (visit target st record).1 migrated skipped failed →
      (target.getRun t record.runId = none → target.accepts record → record.runId ∈ migrated) →
      ∀ r ∈ done ++ [record], target.getRun t r.runId = none → target.accepts r → r.runId ∈ (visit target st record).1.migrated := by
    intro migrated skipped failed hreports hnew r hr hnone haccepts
    rw [hreports.migrated]
    rcases List.mem_append.mp hr with hr | hr
    · exact List.mem_append_left _ (h.carried r hr hnone haccepts)
    · obtain rfl := List.mem_singleton.mp hr
      exact List.mem_append_right _ (hnew hnone haccepts)
  rcases visit_cases st record with ⟨hsome, hstore, hreports⟩ | ⟨hnone, hrefused, hstore, hreports⟩ | ⟨hnone, haccepts, hstore, hreports⟩
  · have hthere := h.absent hid hsome
    have hno : target.arriving t [record] = [] := by simp [Backend.arriving, Option.isSome_iff_ne_none.mp hthere]
    refine ⟨fun id r hr => ?_, hlisted rfl hreports, hcarried hreports fun hn => absurd (hn ▸ hthere) nofun, fun limit hmax hlimit hne => ?_⟩
    · rw [hstore] at hr
      exact (h.reads id r hr).imp_right (List.mem_append_left _)
    · rw [hstore]
      exact h.capped limit hmax hlimit fun hnil => hne (by rw [arriving_append, hnil, hno]; rfl)
  · have hno : target.arriving t [record] = [] := by simp [Backend.arriving, hrefused]
    refine ⟨fun id r hr => ?_, hlisted rfl hreports, hcarried hreports fun _ ha => absurd (hrefused ▸ ha) nofun, fun limit hmax hlimit hne => ?_⟩
    · rw [hstore] at hr
      exact (h.reads id r hr).imp_right (List.mem_append_left _)
    · rw [hstore]
      exact h.capped limit hmax hlimit fun hnil => hne (by rw [arriving_append, hnil, hno]; rfl)
  · refine ⟨fun id r hr => ?_, hlisted rfl hreports, hcarried hreports fun _ _ => List.mem_cons_self, fun limit hmax hlimit hne => ?_⟩
    · have hwritten : target.getRun (target.write st.2 record) id = some r := by
        rw [hstore, Backend.restored] at hr
        split at hr
        · exact Backend.getRun_prune hr
        · exact hr
      rcases (getRun_write hstored haccepts).mp hwritten with ⟨-, rfl⟩ | ⟨-, hold⟩
      · exact .inr (List.mem_append_right _ List.mem_cons_self)
      · exact (h.reads id r hold).imp_right (List.mem_append_left _)
    · rw [hstore, Backend.restored]
      by_cases hterminal : record.Terminal = true
      · rw [if_pos hterminal]
        exact Backend.length_prune hmax hlimit _
      · rw [if_neg hterminal]
        have hno : target.arriving t [record] = [] := by simp [Backend.arriving, hterminal]
        have hcap := h.capped limit hmax hlimit fun hnil => hne (by rw [arriving_append, hnil, hno]; rfl)
        -- A run that is not finished adds no finished one.
        have hle : (target.terminalRuns (target.write st.2 record)).length ≤
            ((target.terminalRuns st.2).map WorkflowRunRecord.runId).length := by
          refine Backend.terminalRuns_le _ fun r hr hr' => ?_
          rcases (getRun_write hstored haccepts).mp hr with ⟨-, rfl⟩ | ⟨-, hold⟩
          · exact absurd hr' hterminal
          · exact List.mem_map_of_mem (Backend.mem_terminalRuns.mpr ⟨hold, hr'⟩)
        rw [List.length_map] at hle
        omega

theorem restored_eq (hroom : record.Terminal → ∀ limit, target.maxTerminalRuns = some limit → 0 ≤ limit →
    ((target.terminalRuns (target.write st.2 record)).length : Int) ≤ limit) :
    target.restored st.2 record = target.write st.2 record := by
  rw [Backend.restored]
  by_cases hterminal : record.Terminal = true
  · rw [if_pos hterminal]
    cases hmax : target.maxTerminalRuns with
    | none => simp only [Backend.pruneTerminalRuns, hmax]
    | some limit =>
        by_cases hlimit : limit < 0
        · simp only [Backend.pruneTerminalRuns, hmax, if_pos hlimit]
        · exact Backend.prune_eq hmax (hroom hterminal limit hmax (Int.not_lt.mp hlimit))
  · rw [if_neg hterminal]

/-- After any number of turns with room for the runs that arrive: these have been added to those that were there. -/
structure Adding (t : target.State) (done : List WorkflowRunRecord) (st : Report × target.State) : Prop where
  reads : ∀ id r, target.getRun st.2 id = some r ↔
    target.getRun t id = some r ∨ target.getRun t id = none ∧ r ∈ done ∧ r.runId = id ∧ target.accepts r
  migrated : ∀ id ∈ st.1.migrated, ∃ r ∈ done, r.runId = id ∧ target.getRun t id = none ∧ target.accepts r

theorem mem_arriving : record ∈ target.arriving t records ↔
    record ∈ records ∧ record.Terminal ∧ target.getRun t record.runId = none ∧ target.accepts record := by
  rw [Backend.arriving, List.mem_filter, Bool.and_eq_true, Bool.and_eq_true, Option.isNone_iff_eq_none, and_assoc]

theorem Adding.terminal_le (h : Adding t done st) (hdone : done ⊆ records) (hrecord : record ∈ records) (hstored : record.stored = record)
    (hnone : target.getRun t record.runId = none) (haccepts : target.accepts record = true) :
    (target.terminalRuns (target.write st.2 record)).length ≤ (target.terminalRuns t).length + (target.arriving t records).length := by
  have hle := Backend.terminalRuns_le (b := target) (s := target.write st.2 record)
    ((target.terminalRuns t ++ target.arriving t records).map WorkflowRunRecord.runId) fun r hr hterminal => ?_
  · rwa [List.length_map, List.length_append] at hle
  · refine List.mem_map_of_mem (List.mem_append.mpr ?_)
    rcases (getRun_write hstored haccepts).mp hr with ⟨-, rfl⟩ | ⟨-, hbefore⟩
    · exact .inr (mem_arriving.mpr ⟨hrecord, hterminal, hnone, haccepts⟩)
    · rcases (h.reads _ r).mp hbefore with hold | ⟨hnew, hmem, -, hr⟩
      · exact .inl (Backend.mem_terminalRuns.mpr ⟨hold, hterminal⟩)
      · exact .inr (mem_arriving.mpr ⟨hdone hmem, hterminal, hnew, hr⟩)

theorem Adding.keep {st' : Report × target.State} {skipped failed : List PyStr} (h : Adding t done st) (hstore : st'.2 = st.2)
    (hreports : Reports st.1 st'.1 [] skipped failed) (hout : target.getRun t record.runId = none → target.accepts record = false) :
    Adding t (done ++ [record]) st' := by
  refine ⟨fun id r => ?_, fun id hid => ?_⟩
  · rw [hstore, h.reads id r]
    refine or_congr_right (and_congr_right fun hnone => ?_)
    constructor
    · exact fun ⟨hr, hid, ha⟩ => ⟨List.mem_append_left _ hr, hid, ha⟩
    · rintro ⟨hr, hid, ha⟩
      refine ⟨(List.mem_append.mp hr).resolve_right fun hlast => ?_, hid, ha⟩
      obtain rfl := List.mem_singleton.mp hlast
      exact absurd (hout (hid ▸ hnone) ▸ ha) nofun
  · rw [hreports.migrated, List.append_nil] at hid
    obtain ⟨r, hr, hfound⟩ := h.migrated id hid
    exact ⟨r, List.mem_append_left _ hr, hfound⟩

theorem adding_visit (hroomy : target.Roomy t records) (hrecord : record ∈ records) (hstored : record.stored = record)
    (hid : record.runId ∉ done.map WorkflowRunRecord.runId) (hdone : done ⊆ records) (h : Adding t done st) :
    Adding t (done ++ [record]) (visit target st record) := by
  have hold : ∀ {r}, target.getRun st.2 record.runId = some r → target.getRun t record.runId = some r := by
    intro r hr
    rcases (h.reads _ r).mp hr with hr | ⟨-, hmem, hsame, -⟩
    · exact hr
    · exact absurd (hsame ▸ List.mem_map_of_mem hmem) hid
  rcases visit_cases st record with ⟨hsome, hstore, hreports⟩ | ⟨hnone, hrefused, hstore, hreports⟩ | ⟨hnone, haccepts, hstore, hreports⟩
  · obtain ⟨r, hr⟩ := Option.isSome_iff_exists.mp hsome
    exact h.keep hstore hreports fun hn => absurd (hn.symm.trans (hold hr)) nofun
  · exact h.keep hstore hreports fun _ => hrefused
  · have habsent : target.getRun t record.runId = none := by
      refine Option.eq_none_iff_forall_ne_some.mpr fun r hr => ?_
      exact absurd (hnone.symm.trans ((h.reads _ r).mpr (.inl hr))) nofun
    have hkept : target.restored st.2 record = target.write st.2 record := restored_eq fun hterminal limit hmax hlimit => by
      have hle := h.terminal_le hdone hrecord hstored habsent haccepts
      rcases hroomy limit hmax hlimit with hnil | hroom
      · exact absurd (hnil ▸ mem_arriving.mpr ⟨hrecord, hterminal, habsent, haccepts⟩) List.not_mem_nil
      · omega
    refine ⟨fun id r => ?_, fun id hmem => ?_⟩
    · rw [hstore, hkept, getRun_write hstored haccepts, h.reads id r]
      constructor
      · rintro (⟨rfl, rfl⟩ | ⟨-, hr | ⟨hn, hr, hsame, ha⟩⟩)
        · exact .inr ⟨habsent, List.mem_append_right _ List.mem_cons_self, rfl, haccepts⟩
        · exact .inl hr
        · exact .inr ⟨hn, List.mem_append_left _ hr, hsame, ha⟩
      · rintro (hr | ⟨hn, hr, hsame, ha⟩)
        · refine .inr ⟨fun hsame => ?_, .inl hr⟩
          exact absurd ((hsame ▸ habsent).symm.trans hr) nofun
        · rcases List.mem_append.mp hr with hr | hr
          · refine .inr ⟨fun hlast => ?_, .inr ⟨hn, hr, hsame, ha⟩⟩
            exact hid (hlast ▸ hsame ▸ List.mem_map_of_mem hr)
          · obtain rfl := List.mem_singleton.mp hr
            exact .inl ⟨hsame.symm, rfl⟩
    · rw [hreports.migrated] at hmem
      rcases List.mem_append.mp hmem with hmem | hmem
      · obtain ⟨r, hr, hfound⟩ := h.migrated id hmem
        exact ⟨r, List.mem_append_left _ hr, hfound⟩
      · obtain rfl := List.mem_singleton.mp hmem
        exact ⟨record, List.mem_append_right _ List.mem_cons_self, rfl, habsent, haccepts⟩

theorem settled_loop (h : ∀ r ∈ records, (target.getRun st.2 r.runId).isSome ∨ target.accepts r = false) :
    (records.foldl (visit target) st).1.migrated = st.1.migrated ∧ (records.foldl (visit target) st).2 = st.2 := by
  induction records generalizing st with
  | nil => exact ⟨rfl, rfl⟩
  | cons r rest ih =>
      have hturn : (visit target st r).1.migrated = st.1.migrated ∧ (visit target st r).2 = st.2 := by
        rcases visit_cases st r with ⟨-, hstore, hreports⟩ | ⟨-, -, hstore, hreports⟩ | ⟨hnone, haccepts, -, -⟩
        · exact ⟨hreports.migrated.trans (List.append_nil _), hstore⟩
        · exact ⟨hreports.migrated.trans (List.append_nil _), hstore⟩
        · rcases h r List.mem_cons_self with hsome | hrefused
          · exact absurd (hnone ▸ hsome) nofun
          · exact absurd (haccepts.symm.trans hrefused) nofun
      have hrest := @ih (visit target st r) fun r' hr' => by
        rw [hturn.2]
        exact h r' (List.mem_cons_of_mem _ hr')
      exact ⟨hrest.1.trans hturn.1, hrest.2.trans hturn.2⟩

end Runs

end Loop

section Faithfulness

variable {source target : Backend} {s : source.State} {t : target.State}

theorem stored_of_listed {record : WorkflowRunRecord} (h : record ∈ source.listAllRuns s) : record.stored = record :=
  source.getRun_stored s _ _ ((source.mem_runs s record).mp h)

theorem migrate_along : Along t (source.listAllRuns s) ((source.listAllRuns s).foldl (visit target) ({}, t)) := by
  refine loop_induct (I := Along t) (source.nodup_runs s)
    ⟨fun _ _ h => .inl h, List.Perm.nil, fun _ hr => absurd hr List.not_mem_nil, fun _ _ _ h => absurd rfl h⟩ ?_
  intro done record st hrecord hid _ h
  exact along_visit (stored_of_listed hrecord) hid h

theorem migrate_adding (hroomy : target.Roomy t (source.listAllRuns s)) :
    Adding t (source.listAllRuns s) ((source.listAllRuns s).foldl (visit target) ({}, t)) := by
  refine loop_induct (I := Adding t) (source.nodup_runs s) ⟨fun id r => ?_, fun _ hid => absurd hid List.not_mem_nil⟩ ?_
  · exact ⟨.inl, fun h => h.resolve_right fun h' => absurd h'.2.1 List.not_mem_nil⟩
  · intro done record st hrecord hid hdone h
    exact adding_visit hroomy hrecord (stored_of_listed hrecord) hid hdone h

theorem faithful_of_roomy (hroomy : target.Roomy t (source.listAllRuns s)) :
    Faithful source target s t (migrateWorkflowStore source target s t false false) := by
  have hadding := migrate_adding hroomy
  have halong : Along t (source.listAllRuns s) ((source.listAllRuns s).foldl (visit target) ({}, t)) := migrate_along
  rw [migrateWorkflowStore, migrateRuns_eq]
  refine ⟨rfl, halong.listed, fun id r hr => (hadding.reads id r).mpr (.inl hr), fun r hr hmem => ?_, ?_⟩
  · obtain ⟨r', hr', hsame, hnone, haccepts⟩ := hadding.migrated _ hmem
    obtain rfl := List.inj_on_of_nodup_map (source.nodup_runs s) hr' hr hsame
    exact (hadding.reads _ r').mpr (.inr ⟨hnone, hr, rfl, haccepts⟩)
  · rw [migrateWorkflowStore, migrateRuns_eq]
    refine settled_loop fun r hr => ?_
    cases hread : target.getRun t r.runId with
    | some r' => exact .inl (Option.isSome_iff_exists.mpr ⟨r', (hadding.reads _ r').mpr (.inl hread)⟩)
    | none =>
        by_cases haccepts : target.accepts r = true
        · exact .inl (Option.isSome_iff_exists.mpr ⟨r, (hadding.reads _ r).mpr (.inr ⟨hread, hr, rfl, haccepts⟩)⟩)
        · exact .inr (Bool.eq_false_iff.mpr haccepts)

theorem nodup_terminal_arriving : ((target.terminalRuns t ++ target.arriving t (source.listAllRuns s)).map WorkflowRunRecord.runId).Nodup := by
  rw [List.map_append, List.nodup_append]
  refine ⟨Backend.nodup_terminalRuns t, ((List.filter_sublist).map WorkflowRunRecord.runId).nodup (source.nodup_runs s), ?_⟩
  rintro id hid id' hid' rfl
  obtain ⟨r, hr, rfl⟩ := List.mem_map.mp hid
  obtain ⟨r', hr', hsame⟩ := List.mem_map.mp hid'
  have hnone := (mem_arriving.mp hr').2.2.1
  rw [hsame, (Backend.mem_terminalRuns.mp hr).1] at hnone
  exact absurd hnone nofun

theorem roomy_of_faithful (h : Faithful source target s t (migrateWorkflowStore source target s t false false)) :
    target.Roomy t (source.listAllRuns s) := by
  intro limit hmax hlimit
  by_contra hcrowded
  obtain ⟨hne, hover⟩ := not_or.mp hcrowded
  have halong : Along t (source.listAllRuns s) ((source.listAllRuns s).foldl (visit target) ({}, t)) := migrate_along
  rw [migrateWorkflowStore, migrateRuns_eq] at h
  have hcap := halong.capped limit hmax hlimit hne
  -- All the finished runs would still be there.
  have hall := Backend.le_terminalRuns (b := target) (s := ((source.listAllRuns s).foldl (visit target) ({}, t)).2)
    ((target.terminalRuns t ++ target.arriving t (source.listAllRuns s)).map WorkflowRunRecord.runId) nodup_terminal_arriving fun id hid => by
      obtain ⟨r, hr, rfl⟩ := List.mem_map.mp hid
      rcases List.mem_append.mp hr with hr | hr
      · obtain ⟨hread, hterminal⟩ := Backend.mem_terminalRuns.mp hr
        exact ⟨r, h.target_kept _ r hread, hterminal⟩
      · obtain ⟨hlisted, hterminal, hnone, haccepts⟩ := mem_arriving.mp hr
        exact ⟨r, h.carried r hlisted (halong.carried r hlisted hnone haccepts), hterminal⟩
  rw [List.length_map, List.length_append] at hall
  omega

/-- The migration does what it should exactly where the target need not delete finished runs. -/
theorem migrate_faithful_iff (source target : StoreClass) (s : source.backend.State) (t : target.backend.State) :
    Faithful source.backend target.backend s t (migrateWorkflowStore source.backend target.backend s t false false) ↔
      target.backend.Roomy t (source.backend.listAllRuns s) :=
  ⟨roomy_of_faithful, faithful_of_roomy⟩

end Faithfulness

section Counterexample

def finishedRun (id : PyStr) : WorkflowRunRecord := { runId := id, graphId := str "g", status := str "completed" }

/-- A directory of one run. -/
def holding (id : PyStr) : LocalFiles fun _ => true := LocalFiles.put ⟨{}, fun _ _ h => absurd h nofun⟩ (finishedRun id) rfl

theorem getRun_holding (limit : Option Int) (id : PyStr) :
    (localBackend (fun _ => true) .creation limit).getRun (holding id) (finishedRun id).runId = some (finishedRun id) := by
  show loadRun (Table.put {} id (.obj (finishedRun id).toDict)) id = _
  rw [loadRun_put, if_pos rfl, record_fromDict]
  rfl

/-- A finished run is copied into a directory that holds another one and keeps one. -/
theorem migrate_not_faithful :
    ¬ Faithful (StoreClass.local (fun _ => true) .creation none).backend (StoreClass.local (fun _ => true) .creation (some 1)).backend
      (holding (str "new")) (holding (str "old"))
      (migrateWorkflowStore (StoreClass.local (fun _ => true) .creation none).backend
        (StoreClass.local (fun _ => true) .creation (some 1)).backend (holding (str "new")) (holding (str "old")) false false) := by
  intro h
  have hlisted : finishedRun (str "new") ∈ (localBackend (fun _ => true) .creation none).listAllRuns (holding (str "new")) :=
    (Backend.mem_runs _ _ _).mpr (getRun_holding none (str "new"))
  have habsent : (localBackend (fun _ => true) .creation (some 1)).getRun (holding (str "old")) (str "new") = none := by decide
  have harrives := mem_arriving.mpr ⟨hlisted, by decide, habsent, rfl⟩
  have hheld : 1 ≤ ((localBackend (fun _ => true) .creation (some 1)).terminalRuns (holding (str "old"))).length :=
    Backend.le_terminalRuns [str "old"] (List.nodup_singleton _) fun id hid =>
      ⟨finishedRun (str "old"), List.mem_singleton.mp hid ▸ getRun_holding (some 1) (str "old"), by decide⟩
  rcases roomy_of_faithful h 1 rfl (by decide) with hnil | hroom
  · exact absurd (hnil ▸ harrives) List.not_mem_nil
  · have harriving := List.length_pos_of_mem harrives
    exact absurd hroom (Int.not_le.mpr (by exact_mod_cast Nat.add_le_add hheld harriving))

end Counterexample

end Nodus.Stores
