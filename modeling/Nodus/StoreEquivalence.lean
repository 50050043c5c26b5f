import Nodus.StoreBackends

/-! The two stores give the same answers to the same calls, as long as a run is created in one moment and no record is written
that the columns of a table cannot hold. -/

namespace Nodus.Stores

open Paired

/-! ### What is read back -/

/-- A wait record as it is read back. -/
def WorkflowWaitRecord.stored (wait : WorkflowWaitRecord) : Option WorkflowWaitRecord :=
  if wait.eventType = [] then none
  else some { wait with
    payload := some (wait.payload.getD [])
    schema := if wait.schema.getD [] = [] then none else wait.schema
    onTimeout := if wait.onTimeout ∈ waitTimeoutPolicies then wait.onTimeout else str "fail" }

/-- A record as it is read back. -/
def WorkflowRunRecord.stored (record : WorkflowRunRecord) : WorkflowRunRecord :=
  { record with wait := record.wait.bind WorkflowWaitRecord.stored }

theorem asStr_ofStr (value : Option PyStr) : (Json.ofStr value).asStr = value := by
  cases value <;> rfl

theorem asNumber_ofNumber (value : Option ℚ) : (Json.ofNumber value).asNumber = value := by
  cases value <;> rfl

theorem claim_fromDict (claim : Option WorkflowClaim) :
    WorkflowClaim.fromDict (claim.elim .null fun claim => .obj claim.toDict) = claim := by
  cases claim with
  | none => rfl
  | some claim =>
      show some (WorkflowClaim.mk _ _ _ (Json.ofNumber claim.expiresAt).asNumber) = _
      rw [asNumber_ofNumber]

theorem wait_fromDict (wait : Option WorkflowWaitRecord) :
    WorkflowWaitRecord.fromDict (wait.elim .null fun wait => .obj wait.toDict) = wait.bind WorkflowWaitRecord.stored := by
  cases wait with
  | none => rfl
  | some wait =>
      let d := wait.toDict
      have hevent : (getKey d (str "event_type")).asStr = some wait.eventType := rfl
      have hkey : (getKey d (str "correlation_key")).asStr = wait.correlationKey := asStr_ofStr _
      have hpayload : (getKey d (str "payload")).asDict = some (wait.payload.getD []) := rfl
      have hregistered : (getKey d (str "registered_at")).asNumber = wait.registeredAt := asNumber_ofNumber _
      have hdeadline : (getKey d (str "deadline_ms")).asNumber = wait.deadlineMs := asNumber_ofNumber _
      have hpolicy : (getKey d (str "on_timeout")).asStr.getD (str "fail") = wait.onTimeout := by
        unfold d WorkflowWaitRecord.toDict
        by_cases ho : wait.onTimeout = str "fail"
        · by_cases hs : wait.schema.getD [] = []
          · rw [if_neg (not_not.mpr ho), if_neg (not_not.mpr hs), ho]
            rfl
          · rw [if_neg (not_not.mpr ho), if_pos hs, ho]
            rfl
        · rw [if_pos ho]
          rfl
      have hschema : (getKey d (str "schema")).asDict = if wait.schema.getD [] = [] then none else wait.schema := by
        unfold d WorkflowWaitRecord.toDict
        by_cases hs : wait.schema.getD [] = []
        · rw [if_neg (not_not.mpr hs), if_pos hs]
          split <;> rfl
        · rw [if_pos hs, if_neg hs]
          cases hschema : wait.schema with
          | none =>
              rw [hschema] at hs
              exact absurd rfl hs
          | some schema => split <;> rfl
      show (WorkflowWaitRecord.fromDict (.obj d)) = wait.stored
      unfold WorkflowWaitRecord.fromDict WorkflowWaitRecord.stored
      have hdict : (Json.obj d).asDict = some d := rfl
      simp only [hdict, Option.bind_eq_bind, Option.bind_some, hevent, hkey, hpayload, hregistered, hdeadline, hpolicy, hschema]
      split <;> rfl

theorem record_fromDict (record : WorkflowRunRecord) :
    WorkflowRunRecord.fromDict (.obj record.toDict) = some record.stored := by
  have hclaim : getKey record.toDict (str "claim") = record.claim.elim .null fun claim => .obj claim.toDict := rfl
  have hwait : getKey record.toDict (str "wait") = record.wait.elim .null fun wait => .obj wait.toDict := rfl
  show some (WorkflowRunRecord.mk record.runId record.graphId (Json.ofStr record.workflowName).asStr
    (Json.ofStr record.executionKind).asStr record.status (Json.ofNumber record.createdAt).asNumber
    (Json.ofNumber record.updatedAt).asNumber (Json.ofStr record.currentCheckpoint).asStr record.resumeCount
    (Json.ofStr record.lastError).asStr record.metadata (WorkflowClaim.fromDict _) (WorkflowWaitRecord.fromDict _)) = _
  rw [asStr_ofStr, asStr_ofStr, asStr_ofStr, asStr_ofStr, asNumber_ofNumber, asNumber_ofNumber, hclaim, hwait, claim_fromDict,
    wait_fromDict]
  rfl

theorem recordFromRow_serialize (record : WorkflowRunRecord) : recordFromRow (serializeRecord record) = some record.stored :=
  record_fromDict record

theorem stored_fits {record : WorkflowRunRecord} : record.stored.Fits ↔ record.Fits := Iff.rfl

theorem wait_stored_stored {wait wait' : WorkflowWaitRecord} (h : wait.stored = some wait') : wait'.stored = some wait' := by
  unfold WorkflowWaitRecord.stored at h
  split at h
  · cases h
  · next hevent =>
      cases h
      have hpolicy : (if wait.onTimeout ∈ waitTimeoutPolicies then wait.onTimeout else str "fail") ∈ waitTimeoutPolicies := by
        split
        · next hmem => exact hmem
        · exact List.mem_cons_self
      unfold WorkflowWaitRecord.stored
      rw [if_neg hevent]
      simp only [if_pos hpolicy, Option.getD_some]
      congr 2
      by_cases hschema : wait.schema.getD [] = []
      · rw [if_pos hschema]
        rfl
      · rw [if_neg hschema, if_neg hschema]

theorem stored_stored (record : WorkflowRunRecord) : record.stored.stored = record.stored := by
  unfold WorkflowRunRecord.stored
  congr 1
  cases hwait : record.wait with
  | none => rfl
  | some wait =>
      cases hstored : wait.stored with
      | none => simp only [Option.bind_some, hstored, Option.bind_none]
      | some wait' => simp only [Option.bind_some, hstored, wait_stored_stored hstored]

theorem recordFromRow_eq (row : Row) :
    recordFromRow row = some {
      runId := row.runId, graphId := row.graphId, workflowName := row.workflowName, executionKind := row.executionKind
      status := row.status, createdAt := row.createdAt, updatedAt := row.updatedAt
      currentCheckpoint := row.currentCheckpoint, resumeCount := row.resumeCount, lastError := row.lastError
      metadata := row.metadataJson.asDict.getD [], claim := WorkflowClaim.fromDict (row.claimJson.getD .null)
      wait := WorkflowWaitRecord.fromDict (row.waitJson.getD .null) } := by
  show some (WorkflowRunRecord.mk row.runId row.graphId (Json.ofStr row.workflowName).asStr
    (Json.ofStr row.executionKind).asStr row.status (Json.ofNumber row.createdAt).asNumber
    (Json.ofNumber row.updatedAt).asNumber (Json.ofStr row.currentCheckpoint).asStr row.resumeCount
    (Json.ofStr row.lastError).asStr (row.metadataJson.asDict.getD []) (WorkflowClaim.fromDict _)
    (WorkflowWaitRecord.fromDict _)) = _
  rw [asStr_ofStr, asStr_ofStr, asStr_ofStr, asStr_ofStr, asNumber_ofNumber, asNumber_ofNumber]
  rfl

/-! ### Stores that hold the same -/

/-- The stores read alike, and what is read is as it was written. -/
structure Alike (files : Table Json) (rows : Table Row) : Prop where
  read : ∀ id, loadRun files id = readRow rows id
  names : files.names.Perm rows.names
  good : ∀ id record, loadRun files id = some record → record.runId = id ∧ record.Fits ∧ record.stored = record

variable {files : Table Json} {rows : Table Row}

theorem loadRun_put (id id' : PyStr) (file : Json) :
    loadRun (files.put id file) id' = if id' = id then WorkflowRunRecord.fromDict file else loadRun files id' := by
  unfold loadRun
  show (Function.update files.entry id (some file) id').bind _ = _
  by_cases h : id' = id
  · rw [h, Function.update_self, if_pos rfl]
    rfl
  · rw [Function.update_of_ne h, if_neg h]

theorem readRow_put (id id' : PyStr) (row : Row) :
    readRow (rows.put id row) id' = if id' = id then recordFromRow row else readRow rows id' := by
  unfold readRow
  show (Function.update rows.entry id (some row) id').bind _ = _
  by_cases h : id' = id
  · rw [h, Function.update_self, if_pos rfl]
    rfl
  · rw [Function.update_of_ne h, if_neg h]

theorem Alike.isSome (h : Alike files rows) (id : PyStr) : (files.entry id).isSome = (rows.entry id).isSome := by
  rw [Bool.eq_iff_iff, ← files.mem_names, ← rows.mem_names]
  exact h.names.mem_iff

theorem Alike.put (h : Alike files rows) {id : PyStr} {file : Json} {row : Row} {record : WorkflowRunRecord}
    (hfile : WorkflowRunRecord.fromDict file = some record) (hrow : recordFromRow row = some record) (hid : record.runId = id)
    (hfits : record.Fits) (hstored : record.stored = record) : Alike (files.put id file) (rows.put id row) where
  read id' := by
    rw [loadRun_put, readRow_put, hfile, hrow, h.read]
  names := by
    show (if id ∈ files.names then files.names else files.names ++ [id]).Perm
      (if id ∈ rows.names then rows.names else rows.names ++ [id])
    by_cases hmem : id ∈ files.names
    · rw [if_pos hmem, if_pos (h.names.mem_iff.mp hmem)]
      exact h.names
    · rw [if_neg hmem, if_neg fun hmem' => hmem (h.names.mem_iff.mpr hmem')]
      exact h.names.append_right [id]
  good id' record' hload := by
    rw [loadRun_put] at hload
    split at hload
    · next heq =>
        rw [hfile] at hload
        cases hload
        exact ⟨hid.trans heq.symm, hfits, hstored⟩
    · exact h.good id' record' hload

theorem Alike.putRecord (h : Alike files rows) {record : WorkflowRunRecord} (hfits : record.Fits) :
    Alike (files.put record.runId (.obj record.toDict)) (rows.put record.runId (serializeRecord record)) :=
  h.put (record_fromDict record) (recordFromRow_serialize record) rfl (stored_fits.mpr hfits) (stored_stored record)

theorem Alike.remove (h : Alike files rows) (id : PyStr) : Alike (files.remove id) (rows.remove id) where
  read id' := by
    show (Function.update files.entry id none id').bind _ = (Function.update rows.entry id none id').bind _
    by_cases heq : id' = id
    · rw [heq, Function.update_self, Function.update_self]
      rfl
    · rw [Function.update_of_ne heq, Function.update_of_ne heq]
      exact h.read id'
  names := h.names.filter _
  good id' record hload := by
    have hload' : (Function.update files.entry id none id').bind WorkflowRunRecord.fromDict = some record := hload
    by_cases heq : id' = id
    · rw [heq, Function.update_self] at hload'
      cases hload'
    · rw [Function.update_of_ne heq] at hload'
      exact h.good id' record hload'

/-- A claim is written into a record, or taken out: the file as a whole, the row in two columns. -/
theorem Alike.putClaim (h : Alike files rows) {id : PyStr} {record : WorkflowRunRecord} (hload : loadRun files id = some record)
    {claim : Option WorkflowClaim} (claimJson : Option Json) (hclaim : WorkflowClaim.fromDict (claimJson.getD .null) = claim)
    (now : ℚ) : Alike (files.put id (.obj { record with claim, updatedAt := some now }.toDict))
      (match rows.entry id with
        | none => rows
        | some row => rows.put id { row with updatedAt := some now, claimJson }) := by
  obtain ⟨hid, hfits, hstored⟩ := h.good id record hload
  have hread : (rows.entry id).bind recordFromRow = some record := (h.read id).symm.trans hload
  cases hrow : rows.entry id with
  | none =>
      rw [hrow] at hread
      cases hread
  | some row =>
      rw [hrow, Option.bind_some, recordFromRow_eq] at hread
      have hwait : record.wait.bind WorkflowWaitRecord.stored = record.wait := congrArg WorkflowRunRecord.wait hstored
      have hstored' : ({ record with claim, updatedAt := some now } : WorkflowRunRecord).stored =
          { record with claim, updatedAt := some now } := by
        unfold WorkflowRunRecord.stored
        simp only [hwait]
      refine h.put ((record_fromDict _).trans (congrArg some hstored')) ?_ hid hfits hstored'
      rw [recordFromRow_eq, hclaim]
      cases hread
      rfl

theorem sorted_eq {l l' : List WorkflowRunRecord} (hperm : l.Perm l')
    (hids : ∀ a ∈ l, ∀ b ∈ l, a.runId = b.runId → a = b) : sortedRunRecords l = sortedRunRecords l' := by
  let key (a : WorkflowRunRecord) := toLex (a.updatedAt.getD 0, a.runId)
  have hsorted : ∀ l, (sortedRunRecords l).Pairwise fun a b => key a ≤ key b := by
    intro l
    have hmerged : (l.mergeSort fun a b => decide (key a ≤ key b)).Pairwise fun a b => decide (key a ≤ key b) = true :=
      List.pairwise_mergeSort
        (fun a b c hab hbc => decide_eq_true ((of_decide_eq_true hab).trans (of_decide_eq_true hbc)))
        (fun a b => by simpa using le_total (key a) (key b)) l
    exact hmerged.imp fun hab => of_decide_eq_true hab
  have hp : (sortedRunRecords l).Perm (sortedRunRecords l') :=
    (List.mergeSort_perm l _).trans (hperm.trans (List.mergeSort_perm l' _).symm)
  refine List.Perm.eq_of_pairwise (fun a b ha hb hab hba => ?_) (hsorted l) (hsorted l') hp
  have hkey : key a = key b := le_antisymm hab hba
  refine hids a (List.mem_mergeSort.mp ha) b (hperm.mem_iff.mpr (List.mem_mergeSort.mp hb)) ?_
  exact congrArg Prod.snd (toLex.injective hkey)

theorem Alike.list (h : Alike files rows) (scan scan' : Scan) :
    sortedRunRecords ((scan.order files.names).filterMap (loadRun files)) =
      sortedRunRecords ((scan'.order rows.names).filterMap (readRow rows)) := by
  rw [← funext h.read]
  refine sorted_eq (((scan.perm _).trans (h.names.trans (scan'.perm _).symm)).filterMap _) fun a ha b hb hid => ?_
  obtain ⟨n, _, hn⟩ := List.mem_filterMap.mp ha
  obtain ⟨m, _, hm⟩ := List.mem_filterMap.mp hb
  rw [(h.good n a hn).1, (h.good m b hm).1] at hid
  rw [hid, hm] at hn
  exact (Option.some.inj hn).symm

/-! ### Records that the columns can hold -/

/-- The run is given up at a time when its wait has expired, and not resumed. -/
def WorkflowRunRecord.GivenUp (record : WorkflowRunRecord) (now : ℚ) : Prop :=
  record.status = str "waiting" ∧ ∃ wait ∈ record.wait, wait.onTimeout ≠ str "resume" ∧
    ∃ deadlineMs ∈ wait.deadlineMs, ∃ registeredAt ∈ wait.registeredAt,
      storeTimeFloorMs ≤ registeredAt ∧ registeredAt + deadlineMs ≤ now

theorem utf8_append {a b : PyStr} (ha : Utf8 a) (hb : Utf8 b) : Utf8 (a ++ b) := by
  intro c hc
  rcases List.mem_append.mp hc with hc | hc
  · exact ha c hc
  · exact hb c hc

theorem WorkflowRunRecord.Fits.withStatus {record : WorkflowRunRecord} (hfits : record.Fits) {status : PyStr} (hstatus : Utf8 status)
    (metadata : Dict) (claim : Option WorkflowClaim) (wait : Option WorkflowWaitRecord) {lastError : Option PyStr}
    (herror : ∀ e ∈ lastError, Utf8 e) : { record with status, metadata, claim, wait, lastError }.Fits := by
  obtain ⟨htexts, hcount⟩ := hfits
  refine ⟨fun x hx => ?_, hcount⟩
  simp only [texts, List.mem_append, List.mem_cons, List.not_mem_nil, or_false, Option.mem_toList] at hx htexts
  rcases hx with ((((rfl | rfl | rfl) | hx) | hx) | hx) | hx
  · exact htexts _ (by simp)
  · exact htexts _ (by simp)
  · exact hstatus
  · exact htexts x (by simp [hx])
  · exact htexts x (by simp [hx])
  · exact htexts x (by simp [hx])
  · exact herror x hx

theorem WorkflowRunRecord.Fits.lastError {record : WorkflowRunRecord} (hfits : record.Fits) : ∀ e ∈ record.lastError, Utf8 e := by
  intro e he
  exact hfits.1 e (by simp [texts, Option.mem_def.mp he])

theorem WorkflowRunRecord.Fits.runId {record : WorkflowRunRecord} (hfits : record.Fits) : Utf8 record.runId :=
  hfits.1 _ (by simp [texts])

/-! ### Methods that agree -/

/-- The stores hold the same, and the same readings of the clock are to come. -/
structure Sessions (s : Session (Table Json)) (t : Session (Table Row)) : Prop where
  alike : Alike s.store t.store
  readings : s.readings = t.readings

/-- Both return one value, with `P`, in sessions that are the same again. -/
def Agrees {α : Type} (P : α → Session (Table Json) → Prop) (c : StoreM (Table Json) α) (d : StoreM (Table Row) α)
    (s : Session (Table Json)) (t : Session (Table Row)) : Prop :=
  AgreeAt (fun a b s' t' => a = b ∧ P a s' ∧ Sessions s' t') (fun _ _ => False) c d s t

/-- Both return one value, in stores that hold the same. -/
def Answers {α : Type} (c : StoreM (Table Json) α) (d : StoreM (Table Row) α) (s : Session (Table Json))
    (t : Session (Table Row)) : Prop :=
  AgreeAt (fun a b s' t' => a = b ∧ Alike s'.store t'.store) (fun _ _ => False) c d s t

section Agreement

variable {α β : Type} {P : α → Session (Table Json) → Prop} {Q : β → Session (Table Json) → Prop}
  {c : StoreM (Table Json) α} {d : StoreM (Table Row) α} {f : α → StoreM (Table Json) β} {g : α → StoreM (Table Row) β}
  {s : Session (Table Json)} {t : Session (Table Row)}

theorem agrees_pure {a : α} (h : Sessions s t) (hp : P a s) : Agrees P (pure a) (pure a) s t := ⟨rfl, hp, h⟩

theorem Agrees.bind (h : Agrees P c d s t) (hf : ∀ a s' t', P a s' → Sessions s' t' → Agrees Q (f a) (g a) s' t') :
    Agrees Q (c >>= f) (d >>= g) s t := by
  refine AgreeAt.bind h fun a b s' t' _ _ hq => ?_
  obtain ⟨rfl, hp, hs⟩ := hq
  exact hf a s' t' hp hs

theorem agrees_get {f : Session (Table Json) → StoreM (Table Json) β} {g : Session (Table Row) → StoreM (Table Row) β}
    (h : Agrees Q (f s) (g t) s t) : Agrees Q (get >>= f) (get >>= g) s t := h

theorem answers_get {f : Session (Table Json) → StoreM (Table Json) β} {g : Session (Table Row) → StoreM (Table Row) β}
    (h : Answers (f s) (g t) s t) : Answers (get >>= f) (get >>= g) s t := h

theorem Agrees.map (h : Agrees P c d s t) (f : α → β) : Agrees (fun _ _ => True) (f <$> c) (f <$> d) s t := by
  rw [map_eq_pure_bind, map_eq_pure_bind]
  exact h.bind fun a s' t' _ hs => agrees_pure hs trivial

theorem Agrees.mono {P' : α → Session (Table Json) → Prop} (h : Agrees P c d s t) (hp : ∀ a s', P a s' → P' a s') :
    Agrees P' c d s t :=
  AgreeAt.mono h (fun a _ s' _ _ _ hq => ⟨hq.1, hp a s' hq.2.1, hq.2.2⟩) fun _ _ he => he

theorem answers_pure {a : α} (h : Alike s.store t.store) : Answers (pure a) (pure a) s t := ⟨rfl, h⟩

theorem Agrees.bind_answers (h : Agrees P c d s t)
    (hf : ∀ a s' t', P a s' → Sessions s' t' → Answers (f a) (g a) s' t') : Answers (c >>= f) (d >>= g) s t := by
  refine AgreeAt.bind h fun a b s' t' _ _ hq => ?_
  obtain ⟨rfl, hp, hs⟩ := hq
  exact hf a s' t' hp hs

theorem Agrees.answers (h : Agrees P c d s t) (u : α → β) :
    Answers (c >>= fun a => pure (u a)) (d >>= fun a => pure (u a)) s t :=
  h.bind_answers fun _ _ _ _ hs => answers_pure hs.alike

variable (ttl : ℚ) (scan scan' : Scan) (h : Sessions s t)

include h

theorem getRun_agrees (id : PyStr) : Agrees (fun a s' => a = loadRun s.store id ∧ s' = s)
    ((localStore ttl scan).getRun id) ((sqliteStore ttl scan').getRun id) s t :=
  ⟨h.alike.read id, ⟨rfl, rfl⟩, h⟩

theorem storeTimeMs_agrees : Agrees (fun now s' => now = s.readings 0 ∧ s' = { s with readings := fun n => s.readings (n + 1) })
    storeTimeMs storeTimeMs s t :=
  ⟨congrFun h.readings 0, ⟨rfl, rfl⟩, h.alike, funext fun n => congrFun h.readings (n + 1)⟩

theorem timeOr_agrees (nowMs : Option ℚ) :
    Agrees (fun now _ => now = nowMs.getD (s.readings 0)) (timeOr nowMs) (timeOr nowMs) s t := by
  cases nowMs with
  | none => exact (storeTimeMs_agrees h).mono fun now s' hnow => hnow.1
  | some now => exact agrees_pure h rfl

theorem writeRun_agrees {record : WorkflowRunRecord} (hfits : record.Fits) : Agrees (fun _ _ => True)
    ((localStore ttl scan).writeRun record) ((sqliteStore ttl scan').writeRun record) s t := by
  show Agrees _ (writeFile record.runId record) (bindRecord record) s t
  unfold bindRecord
  rw [if_pos hfits]
  exact ⟨rfl, trivial, h.alike.putRecord hfits, h.readings⟩

theorem saveRun_agrees {record : WorkflowRunRecord} (hfits : record.Fits) : Agrees (fun _ _ => True)
    ((localStore ttl scan).saveRun record) ((sqliteStore ttl scan').saveRun record) s t := by
  refine (storeTimeMs_agrees h).bind fun now s' t' _ hs => ?_
  have hnow : WorkflowRunRecord.Fits { record with
    updatedAt := some now, createdAt := some (record.createdAt.getD now) } := hfits
  refine (writeRun_agrees ttl scan scan' hs hnow).bind fun _ s'' t'' _ hs' => ?_
  exact agrees_pure hs' trivial

theorem restoreRun_agrees {record : WorkflowRunRecord} (hfits : record.Fits) : Agrees (fun _ _ => True)
    ((localStore ttl scan).restoreRun record) ((sqliteStore ttl scan').restoreRun record) s t :=
  (writeRun_agrees ttl scan scan' h hfits).bind fun _ _ _ _ hs => agrees_pure hs trivial

theorem agrees_some {changed : WorkflowRunRecord} (hfits : changed.Fits) :
    Agrees (fun (found : Option WorkflowRunRecord) _ => ∀ r ∈ found, WorkflowRunRecord.Fits r) (pure (some changed))
      (pure (some changed)) s t := by
  refine agrees_pure h fun r hr => ?_
  cases hr
  exact hfits

theorem changeRun_agrees (id : PyStr) {change : WorkflowRunRecord → StoreM (Table Json) (Option WorkflowRunRecord)}
    {change' : WorkflowRunRecord → StoreM (Table Row) (Option WorkflowRunRecord)}
    (hchange : ∀ record t, Sessions s t → loadRun s.store id = some record → record.Fits →
      Agrees (fun changed _ => ∀ r ∈ changed, r.Fits) (change record) (change' record) s t) : Agrees (fun _ _ => True)
    ((localStore ttl scan).changeRun id change) ((sqliteStore ttl scan').changeRun id change') s t := by
  refine (getRun_agrees ttl scan scan' h id).bind fun found s' t' hfound hs => ?_
  obtain ⟨hfound, rfl⟩ := hfound
  cases found with
  | none => exact agrees_pure hs trivial
  | some record =>
      have hfits := (h.alike.good id record hfound.symm).2.1
      refine (hchange record t' hs hfound.symm hfits).bind fun changed s' t' hfits hs' => ?_
      cases changed with
      | none => exact agrees_pure hs' trivial
      | some changed =>
          exact (saveRun_agrees ttl scan scan' hs' (hfits changed rfl)).map some

theorem retryDueForRecord_agrees (record : WorkflowRunRecord) (nowMs : Option ℚ) :
    Agrees (fun _ _ => True) (retryDueForRecord record nowMs) (retryDueForRecord record nowMs) s t := by
  unfold retryDueForRecord
  split
  · exact agrees_pure h trivial
  · split
    · split
      · exact agrees_pure h trivial
      · exact (timeOr_agrees h nowMs).bind fun now _ _ _ hs => agrees_pure hs trivial
    · exact agrees_pure h trivial

theorem expireOnRecord_agrees {record : WorkflowRunRecord} (hfits : record.Fits) (nowMs : Option ℚ) (nextStatus : PyStr)
    (releaseSchedules : Bool) (hnext : record.GivenUp (nowMs.getD (s.readings 0)) → Utf8 nextStatus) :
    Agrees (fun changed _ => ∀ r ∈ changed, r.Fits) (expireOnRecord record nowMs nextStatus releaseSchedules)
      (expireOnRecord record nowMs nextStatus releaseSchedules) s t := by
  have hnone : ∀ {s' t'}, Sessions s' t' →
      Agrees (fun (changed : Option WorkflowRunRecord) _ => ∀ r ∈ changed, r.Fits) (pure none) (pure none) s' t' :=
    fun hs => agrees_pure hs fun r hr => (Option.not_mem_none r hr).elim
  unfold expireOnRecord
  cases hwait : record.wait with
  | none => exact hnone h
  | some wait =>
      simp only []
      split
      · exact hnone h
      · next hstatus =>
          split
          · next deadlineMs registeredAt hdeadline hregistered =>
              split
              · exact hnone h
              · next hfloor =>
                  refine (timeOr_agrees h nowMs).bind fun now s' t' hnow hs => ?_
                  split
                  · exact hnone hs
                  · next hpassed =>
                      split
                      · split
                        · exact agrees_some hs (hfits.withStatus (by decide) _ _ _ hfits.lastError)
                        · exact hnone hs
                      · next honTimeout =>
                          have hgivenUp : record.GivenUp (nowMs.getD (s.readings 0)) :=
                            ⟨not_not.mp hstatus, wait, hwait, honTimeout, deadlineMs, hdeadline, registeredAt, hregistered,
                              not_lt.mp hfloor, hnow ▸ not_lt.mp hpassed⟩
                          refine agrees_some hs (hfits.withStatus (hnext hgivenUp) _ _ _ fun e he => ?_)
                          cases he
                          exact utf8_append (utf8_append (by decide) hfits.runId) (by decide)
          · exact hnone h

theorem expireWaitTimeout_agrees (id : PyStr) (nowMs : Option ℚ) (nextStatus : PyStr) (releaseSchedules : Bool)
    (hnext : ∀ record, loadRun s.store id = some record → record.GivenUp (nowMs.getD (s.readings 0)) → Utf8 nextStatus) :
    Agrees (fun _ _ => True) ((localStore ttl scan).expireWaitTimeout id nowMs nextStatus releaseSchedules)
      ((sqliteStore ttl scan').expireWaitTimeout id nowMs nextStatus releaseSchedules) s t :=
  changeRun_agrees ttl scan scan' h id fun record _ hs hload hfits =>
    expireOnRecord_agrees hs hfits nowMs nextStatus releaseSchedules (hnext record hload)

theorem claimRun_agrees (id owner : PyStr) (expectedStatuses : List PyStr) (token : PyStr) : Agrees (fun _ _ => True)
    ((localStore ttl scan).claimRun id owner expectedStatuses token)
    ((sqliteStore ttl scan').claimRun id owner expectedStatuses token) s t := by
  refine (storeTimeMs_agrees h).bind fun now s' t' _ hs => ?_
  refine agrees_get ?_
  simp only [← hs.alike.read id]
  cases hload : loadRun s'.store id with
  | none => exact agrees_pure hs trivial
  | some record =>
      simp only []
      split
      · exact agrees_pure hs trivial
      · next claim hclaim =>
          have halike := hs.alike.putClaim hload (some (.obj claim.toDict)) (claim_fromDict (some claim)) now
          exact ⟨rfl, trivial, halike, hs.readings⟩

theorem releaseClaim_agrees (id : PyStr) (token : Option PyStr) : Agrees (fun _ _ => True)
    ((localStore ttl scan).releaseClaim id token) ((sqliteStore ttl scan').releaseClaim id token) s t := by
  refine agrees_get ?_
  simp only [← h.alike.read id]
  cases hload : loadRun s.store id with
  | none => exact agrees_pure h trivial
  | some record =>
      simp only []
      split
      · refine (storeTimeMs_agrees h).bind fun now s' t' hnow hs => ?_
        obtain ⟨-, rfl⟩ := hnow
        exact ⟨rfl, trivial, hs.alike.putClaim hload none rfl now, hs.readings⟩
      · exact agrees_pure h trivial

theorem claimWaitingRunForResume_agrees (id owner : PyStr) (eventType correlationKey : Option PyStr) (token : PyStr) :
    Agrees (fun _ _ => True) ((localStore ttl scan).claimWaitingRunForResume id owner eventType correlationKey token)
      ((sqliteStore ttl scan').claimWaitingRunForResume id owner eventType correlationKey token) s t := by
  refine (getRun_agrees ttl scan scan' h id).bind fun found s' t' hfound hs => ?_
  obtain ⟨_, rfl⟩ := hfound
  cases found with
  | none => exact agrees_pure hs trivial
  | some record =>
      simp only []
      split
      · exact claimRun_agrees ttl scan scan' hs id owner _ token
      · exact agrees_pure hs trivial

theorem retryDue_agrees (id : PyStr) (nowMs : Option ℚ) : Agrees (fun _ _ => True) ((localStore ttl scan).retryDue id nowMs)
    ((sqliteStore ttl scan').retryDue id nowMs) s t := by
  refine (getRun_agrees ttl scan scan' h id).bind fun found s' t' hfound hs => ?_
  cases found with
  | none => exact agrees_pure hs trivial
  | some record => exact retryDueForRecord_agrees hs record nowMs

theorem listRuns_agrees : Agrees (fun _ _ => True) (localStore ttl scan).listRuns (sqliteStore ttl scan').listRuns s t :=
  ⟨h.alike.list scan scan', trivial, h⟩

theorem deleteRun_agrees (id : PyStr) :
    Agrees (fun _ _ => True) ((localStore ttl scan).deleteRun id) ((sqliteStore ttl scan').deleteRun id) s t :=
  ⟨h.alike.isSome id, trivial, h.alike.remove id, h.readings⟩

theorem dueRuns_agrees (nowMs : Option ℚ) (records : List WorkflowRunRecord) :
    Agrees (fun _ _ => True) (Methods.dueRuns nowMs records) (Methods.dueRuns nowMs records) s t := by
  induction records generalizing s t with
  | nil => exact agrees_pure h trivial
  | cons record records ih =>
      refine (retryDueForRecord_agrees h record nowMs).bind fun due s' t' _ hs => ?_
      refine (ih hs).bind fun rest s'' t'' _ hs' => ?_
      exact agrees_pure hs' trivial

theorem expiredRuns_agrees (nowMs : Option ℚ) (releaseSchedules : Bool) (records : List WorkflowRunRecord) :
    Agrees (fun _ _ => True) ((localStore ttl scan).expiredRuns nowMs releaseSchedules records)
      ((sqliteStore ttl scan').expiredRuns nowMs releaseSchedules records) s t := by
  induction records generalizing s t with
  | nil => exact agrees_pure h trivial
  | cons record records ih =>
      unfold Methods.expiredRuns
      split
      · exact ih h
      · refine (expireWaitTimeout_agrees ttl scan scan' h record.runId nowMs (str "dead_lettered") releaseSchedules
          fun _ _ _ => by decide).bind fun updated s' t' _ hs => ?_
        refine (ih hs).bind fun rest s'' t'' _ hs' => ?_
        exact agrees_pure hs' trivial

theorem listDueRetryRuns_agrees (nowMs : Option ℚ) : Agrees (fun _ _ => True)
    ((localStore ttl scan).listDueRetryRuns nowMs) ((sqliteStore ttl scan').listDueRetryRuns nowMs) s t :=
  (listRuns_agrees ttl scan scan' h).bind fun records _ _ _ hs => (dueRuns_agrees hs nowMs records).map sortedRunRecords

theorem expireWaitTimeouts_agrees (nowMs : Option ℚ) (releaseSchedules : Bool) : Agrees (fun _ _ => True)
    ((localStore ttl scan).expireWaitTimeouts nowMs releaseSchedules)
    ((sqliteStore ttl scan').expireWaitTimeouts nowMs releaseSchedules) s t :=
  (listRuns_agrees ttl scan scan' h).bind fun records _ _ _ hs =>
    (expiredRuns_agrees ttl scan scan' hs nowMs releaseSchedules records).map sortedRunRecords

/-- A run that is not there is created with one time by both if the clock does not move between two readings. -/
theorem createRun_answers (record : WorkflowRunRecord)
    (hnew : loadRun s.store record.runId = none → record.Fits ∧ s.readings 0 = s.readings 1) :
    Answers ((localStore ttl scan).createRun record) ((sqliteStore ttl scan').createRun record) s t := by
  refine (storeTimeMs_agrees h).bind_answers fun now s' t' hnow hs => ?_
  obtain ⟨rfl, rfl⟩ := hnow
  refine answers_get ?_
  simp only [← hs.alike.read record.runId]
  cases hload : loadRun s.store record.runId with
  | some existing => exact answers_pure hs.alike
  | none =>
      obtain ⟨hfits, hsame⟩ := hnew hload
      have hcreated : ({ record with updatedAt := some (s.readings 1), createdAt := some (s.readings 0) } : WorkflowRunRecord) =
          { record with createdAt := some (s.readings 0), updatedAt := some (s.readings 0) } := by
        rw [hsame]
      have hnow : WorkflowRunRecord.Fits { record with createdAt := some (s.readings 0), updatedAt := some (s.readings 0) } := hfits
      simp only []
      unfold bindRecord
      rw [if_pos hnow]
      refine ⟨hcreated, ?_⟩
      show Alike (s.store.put record.runId (.obj (WorkflowRunRecord.toDict
        { record with updatedAt := some (s.readings 1), createdAt := some (s.readings 0) }))) _
      rw [hcreated]
      exact hs.alike.putRecord hnow

variable {ttl scan scan'}

/-- What a call has to meet for the stores to agree on it: the record that it writes fits the columns, and the clock stands still
between the two readings that the creation of a run makes. -/
def Bound (files : Table Json) (readings : Nat → ℚ) : Op → Prop
  | .createRun runId graphId workflowName executionKind metadata => loadRun files runId = none →
      WorkflowRunRecord.Fits { runId, graphId, workflowName, executionKind, metadata } ∧ readings 0 = readings 1
  | .saveRun record => record.Fits
  | .restoreRun record => record.Fits
  | .clearWait runId nextStatus => loadRun files runId ≠ none → Utf8 nextStatus
  | .clearRetry runId nextStatus => loadRun files runId ≠ none → Utf8 nextStatus
  | .scheduleRetry runId retry => loadRun files runId ≠ none → ∀ e ∈ retry.lastError, Utf8 e
  | .expireWaitTimeout runId nowMs nextStatus _ =>
      ∀ record, loadRun files runId = some record → record.GivenUp (nowMs.getD (readings 0)) → Utf8 nextStatus
  | _ => True

theorem perform_answers {op : Op} (hbound : Bound s.store s.readings op) :
    Answers ((localStore ttl scan).perform op) ((sqliteStore ttl scan').perform op) s t := by
  cases op with
  | createRun runId graphId workflowName executionKind metadata =>
      refine AgreeAt.bind (createRun_answers ttl scan scan' h _ hbound) fun a b s' t' _ _ hq => ?_
      obtain ⟨rfl, halike⟩ := hq
      exact answers_pure halike
  | saveRun record => exact (saveRun_agrees ttl scan scan' h hbound).answers _
  | restoreRun record => exact (restoreRun_agrees ttl scan scan' h hbound).answers _
  | getRun runId => exact (getRun_agrees ttl scan scan' h runId).answers _
  | claimRun runId owner expectedStatuses token =>
      exact (claimRun_agrees ttl scan scan' h runId owner expectedStatuses token).answers _
  | claimWaitingRunForResume runId owner eventType correlationKey token =>
      exact (claimWaitingRunForResume_agrees ttl scan scan' h runId owner eventType correlationKey token).answers _
  | releaseClaim runId token => exact (releaseClaim_agrees ttl scan scan' h runId token).answers _
  | registerWait runId wait =>
      refine (changeRun_agrees ttl scan scan' h runId fun record t hs _ hfits => ?_).answers _
      refine (storeTimeMs_agrees hs).bind fun now s' t' _ hs' => ?_
      exact agrees_some hs' (hfits.withStatus (by decide) _ _ _ hfits.lastError)
  | clearWait runId nextStatus =>
      refine (changeRun_agrees ttl scan scan' h runId fun record t hs hload hfits => ?_).answers _
      exact agrees_some hs (hfits.withStatus (hbound (hload ▸ Option.some_ne_none record)) _ _ _ hfits.lastError)
  | scheduleRetry runId retry =>
      refine (changeRun_agrees ttl scan scan' h runId fun record t hs hload hfits => ?_).answers _
      exact agrees_some hs (hfits.withStatus (by decide) _ _ _ (hbound (hload ▸ Option.some_ne_none record)))
  | clearRetry runId nextStatus =>
      refine (changeRun_agrees ttl scan scan' h runId fun record t hs hload hfits => ?_).answers _
      exact agrees_some hs (hfits.withStatus (hbound (hload ▸ Option.some_ne_none record)) _ _ _ hfits.lastError)
  | retryDue runId nowMs => exact (retryDue_agrees ttl scan scan' h runId nowMs).answers _
  | listDueRetryRuns nowMs => exact (listDueRetryRuns_agrees ttl scan scan' h nowMs).answers _
  | expireWaitTimeout runId nowMs nextStatus releaseSchedules =>
      exact (expireWaitTimeout_agrees ttl scan scan' h runId nowMs nextStatus releaseSchedules hbound).answers _
  | expireWaitTimeouts nowMs releaseSchedules =>
      exact (expireWaitTimeouts_agrees ttl scan scan' h nowMs releaseSchedules).answers _
  | deleteRun runId => exact (deleteRun_agrees ttl scan scan' h runId).answers _
  | listRuns => exact (listRuns_agrees ttl scan scan' h).answers _
  | listAllRuns => exact (listRuns_agrees ttl scan scan' h).answers _
  | listRehydratableRuns => exact (listRuns_agrees ttl scan scan' h).answers _
  | listTerminalRuns => exact (listRuns_agrees ttl scan scan' h).answers _
  | listRunsWaitingFor eventType correlationKey => exact (listRuns_agrees ttl scan scan' h).answers _

end Agreement

/-! ### Whole runs -/

variable {ttl : ℚ} {scan scan' : Scan}

theorem alike_empty : Alike {} {} where
  read _ := rfl
  names := .rfl
  good _ _ h := nomatch h

theorem step_agrees (h : Alike files rows) {call : Op × (Nat → ℚ)} (hbound : Bound files call.2 call.1) :
    ((localStore ttl scan).step files call).1 = ((sqliteStore ttl scan').step rows call).1 ∧
      Alike ((localStore ttl scan).step files call).2 ((sqliteStore ttl scan').step rows call).2 := by
  have hanswers : Answers ((localStore ttl scan).perform call.1) ((sqliteStore ttl scan').perform call.1)
      ⟨files, call.2⟩ ⟨rows, call.2⟩ := perform_answers ⟨h, rfl⟩ hbound
  unfold Answers AgreeAt at hanswers
  unfold Methods.step
  cases hlocal : (localStore ttl scan).perform call.1 ⟨files, call.2⟩ with
  | ok output s =>
      cases hsqlite : (sqliteStore ttl scan').perform call.1 ⟨rows, call.2⟩ with
      | ok output' t =>
          rw [hlocal, hsqlite] at hanswers
          exact ⟨congrArg Except.ok hanswers.1, hanswers.2⟩
      | error fault t =>
          rw [hlocal, hsqlite] at hanswers
          exact hanswers.elim
  | error fault s =>
      cases hsqlite : (sqliteStore ttl scan').perform call.1 ⟨rows, call.2⟩ with
      | ok output t =>
          rw [hlocal, hsqlite] at hanswers
          exact hanswers.elim
      | error fault' t =>
          rw [hlocal, hsqlite] at hanswers
          exact hanswers.2.elim

/-- Every call meets its condition in the store that it finds. -/
def AllBound (ttl : ℚ) (scan : Scan) : Table Json → List (Op × (Nat → ℚ)) → Prop
  | _, [] => True
  | files, call :: calls => Bound files call.2 call.1 ∧ AllBound ttl scan ((localStore ttl scan).step files call).2 calls

theorem run_agrees (h : Alike files rows) {calls : List (Op × (Nat → ℚ))} (hbound : AllBound ttl scan files calls) :
    ((localStore ttl scan).run files calls).1 = ((sqliteStore ttl scan').run rows calls).1 ∧
      Alike ((localStore ttl scan).run files calls).2 ((sqliteStore ttl scan').run rows calls).2 := by
  induction calls generalizing files rows with
  | nil => exact ⟨rfl, h⟩
  | cons call calls ih =>
      obtain ⟨hcall, hcalls⟩ := hbound
      obtain ⟨houtput, halike⟩ := step_agrees h hcall
      obtain ⟨houtputs, halike⟩ := ih halike hcalls
      exact ⟨List.cons_eq_cons.mpr ⟨houtput, houtputs⟩, halike⟩

/-- The two stores return the same in every run from empty stores whose calls meet their conditions, and hold the same at
its end. -/
theorem stores_agree (ttl : ℚ) (scan scan' : Scan) (calls : List (Op × (Nat → ℚ))) (hbound : AllBound ttl scan {} calls) :
    ((localStore ttl scan).run {} calls).1 = ((sqliteStore ttl scan').run {} calls).1 ∧
      Alike ((localStore ttl scan).run {} calls).2 ((sqliteStore ttl scan').run {} calls).2 :=
  run_agrees alike_empty hbound

/-- A scan in the order of the names' creation. -/
def Scan.creation : Scan := ⟨id, fun _ => .refl _⟩

def createR : Op := .createRun (str "r") (str "g") none none []

/-- A run is created and claimed while the clock stands still. -/
theorem stores_agree_claimed :
    let calls : List (Op × (Nat → ℚ)) :=
      [(createR, fun _ => 0), (.claimRun (str "r") (str "runner") [str "pending"] (str "claim_1"), fun _ => 0)]
    ((localStore 30000 .creation).run {} calls).1 = ((sqliteStore 30000 .creation).run {} calls).1 ∧
      Alike ((localStore 30000 .creation).run {} calls).2 ((sqliteStore 30000 .creation).run {} calls).2 :=
  stores_agree 30000 .creation .creation _ ⟨fun _ => ⟨by decide, rfl⟩, trivial, trivial⟩

/-- The time of the last change in what a call returns, if it returns a record. -/
def changedAt : Except Fault Output → Option ℚ
  | .ok (.record (some record)) => record.updatedAt
  | _ => none

/-- The clock moves between the two readings of a creation, of which one store writes the second and the other the first; and a
count of resumes is saved that no column holds. -/
theorem stores_differ :
    ((localStore 30000 .creation).run {} [(createR, fun n => n)]).1 ≠
        ((sqliteStore 30000 .creation).run {} [(createR, fun n => n)]).1 ∧
      ((localStore 30000 .creation).run {} [(.saveRun { runId := str "r", graphId := str "g", resumeCount := 2 ^ 63 }, fun _ => 1)]).1 ≠
        ((sqliteStore 30000 .creation).run {}
          [(.saveRun { runId := str "r", graphId := str "g", resumeCount := 2 ^ 63 }, fun _ => 1)]).1 := by
  constructor
  · intro h
    have htimes := congrArg (List.map changedAt) h
    exact absurd htimes (by decide)
  · intro h
    have htimes := congrArg (List.map changedAt) h
    exact absurd htimes (by decide)

end Nodus.Stores
