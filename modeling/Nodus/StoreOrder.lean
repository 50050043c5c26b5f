import Nodus.Interleaving
import Nodus.RunRecords

/-! The methods of a store that two clients call for one run. Only the claims are taken and given back in a transaction: the other
methods read the record, change it and write it back as a whole. -/

namespace Nodus.Workflow

open Interleaving

/-- A call of a method of the store, with the times the client reads on its clock meanwhile. -/
inductive StoreOp where
  | claimRun (owner : String) (expectedStatuses : List RunStatus) (now token : Nat)
  | releaseClaim (token : Option Nat) (now : Nat)
  | registerWait (wait : WorkflowWaitRecord) (registeredAt now : Nat)
  | clearWait (nextStatus : RunStatus) (now : Nat)
  | scheduleRetry (retry : RetryMetadata) (now : Nat)
  | clearRetry (nextStatus : RunStatus) (now : Nat)
  | expireWaitTimeout (nextStatus : RunStatus) (releaseSchedules : Bool) (nowMs now : Nat)
  deriving DecidableEq

namespace StoreOp

/-- The record that a method writes. -/
def change (ttl : Nat) (op : StoreOp) (record : WorkflowRunRecord) : Option WorkflowRunRecord :=
  match op with
  | claimRun owner expectedStatuses now token => record.claimRun owner expectedStatuses ttl now token
  | releaseClaim token now => record.releaseClaim token now
  | registerWait wait registeredAt now => some ((record.registerWait wait registeredAt).saved now)
  | clearWait nextStatus now => some ((record.clearWait nextStatus).saved now)
  | scheduleRetry retry now => some ((record.scheduleRetry retry).saved now)
  | clearRetry nextStatus now => some ((record.clearRetry nextStatus).saved now)
  | expireWaitTimeout nextStatus releaseSchedules nowMs now =>
      (record.expireWaitTimeout nowMs nextStatus releaseSchedules).map fun expired => expired.saved now

/-- The methods that take a claim or give it back. -/
def Claims : StoreOp → Bool
  | claimRun _ _ _ _ | releaseClaim _ _ => true
  | _ => false

/-- The updates of a wait or of a retry. -/
def Updates : StoreOp → Bool
  | registerWait _ _ _ | clearWait _ _ | scheduleRetry _ _ | clearRetry _ _ => true
  | _ => false

theorem change_updates {ttl : Nat} {op : StoreOp} (hop : op.Updates = true) {record record' : WorkflowRunRecord}
    (h : op.change ttl record = some record') : record'.claim = record.claim := by
  cases op with
  | registerWait wait registeredAt now => rw [← Option.some.inj h]; rfl
  | clearWait nextStatus now => rw [← Option.some.inj h]; rfl
  | scheduleRetry retry now => rw [← Option.some.inj h]; rfl
  | clearRetry nextStatus now => rw [← Option.some.inj h]; rfl
  | claimRun owner expectedStatuses now token => cases hop
  | releaseClaim token now => cases hop
  | expireWaitTimeout nextStatus releaseSchedules nowMs now => cases hop

theorem change_expire {ttl : Nat} {nextStatus : RunStatus} {releaseSchedules : Bool} {nowMs now : Nat}
    {record : WorkflowRunRecord} (h : record.wait = none) :
    (expireWaitTimeout nextStatus releaseSchedules nowMs now).change ttl record = none := by
  simp only [change, WorkflowRunRecord.expireWaitTimeout, h, Option.map_none]

end StoreOp

/-- The methods of a store. `SQLiteWorkflowStore` takes claims in a transaction, and so does one `LocalWorkflowStore` that both
clients call; in two processes each has a lock of its own. -/
def storeOperations (ttl : Nat) (transactional : Bool) : Operations (Option WorkflowRunRecord) StoreOp where
  write op stored := stored.bind fun record => (op.change ttl record).map some
  locked op := transactional && op.Claims

theorem write_some {ttl : Nat} {transactional : Bool} {op : StoreOp} {stored written : Option WorkflowRunRecord}
    (h : (storeOperations ttl transactional).write op stored = some written) :
    ∃ record record', stored = some record ∧ written = some record' ∧ op.change ttl record = some record' := by
  obtain ⟨record, hrecord, h⟩ := Option.bind_eq_some_iff.mp h
  obtain ⟨record', hchange, rfl⟩ := Option.map_eq_some_iff.mp h
  exact ⟨record, record', hrecord, rfl, hchange⟩

section clients

variable {ι : Type} [DecidableEq ι] {ttl : Nat} {transactional : Bool}

/-- A store with a run and what the clients are to call for it. -/
def client (record : Option WorkflowRunRecord) (programs : ι → List StoreOp) : Shared ι (Option WorkflowRunRecord) StoreOp :=
  { cell := record, todo := programs }

/-- An update of a wait or of a retry leaves the claim alone that is in the store. -/
def KeepsClaim (ttl : Nat) (transactional : Bool) (s : Shared ι (Option WorkflowRunRecord) StoreOp) (c : ι) : Prop :=
  ∀ op ∈ (s.todo c).head?, op.Updates = true →
    ((s.step (storeOperations ttl transactional) c).cell.bind WorkflowRunRecord.claim) =
      s.cell.bind WorkflowRunRecord.claim

/-- A sweep leaves a run alone whose wait is gone. -/
def LeavesCleared (ttl : Nat) (transactional : Bool) (s : Shared ι (Option WorkflowRunRecord) StoreOp) (c : ι) : Prop :=
  ∀ nextStatus releaseSchedules nowMs now, (s.todo c).head? = some (.expireWaitTimeout nextStatus releaseSchedules nowMs now) →
    s.cell.bind WorkflowRunRecord.wait = none → (s.step (storeOperations ttl transactional) c).cell = s.cell

/-- What two clients, or any number of them, make of a run is what their calls make of it one after the other. -/
structure Serial (ttl : Nat) (transactional : Bool) (record : Option WorkflowRunRecord) (programs : ι → List StoreOp)
    (schedule : List ι) : Prop where
  serializable : Shared.Serializable (storeOperations ttl transactional) record
    ((client record programs).run (storeOperations ttl transactional) schedule) programs
  claims : ∀ before c after, schedule = before ++ c :: after →
    KeepsClaim ttl transactional ((client record programs).run (storeOperations ttl transactional) before) c
  cleared : ∀ before c after, schedule = before ++ c :: after →
    LeavesCleared ttl transactional ((client record programs).run (storeOperations ttl transactional) before) c

theorem apply_updates {op : StoreOp} (hop : op.Updates = true) (stored : Option WorkflowRunRecord) :
    ((storeOperations ttl transactional).apply op stored).bind WorkflowRunRecord.claim =
      stored.bind WorkflowRunRecord.claim := by
  unfold Operations.apply
  cases hwrite : (storeOperations ttl transactional).write op stored with
  | none => rfl
  | some written =>
      obtain ⟨record, record', rfl, rfl, hchange⟩ := write_some hwrite
      exact StoreOp.change_updates hop hchange

theorem apply_expire {nextStatus : RunStatus} {releaseSchedules : Bool} {nowMs now : Nat}
    {stored : Option WorkflowRunRecord} (h : stored.bind WorkflowRunRecord.wait = none) :
    (storeOperations ttl transactional).apply (.expireWaitTimeout nextStatus releaseSchedules nowMs now) stored =
      stored := by
  unfold Operations.apply
  cases hwrite : (storeOperations ttl transactional).write (.expireWaitTimeout nextStatus releaseSchedules nowMs now)
      stored with
  | none => rfl
  | some written =>
      obtain ⟨record, record', rfl, rfl, hchange⟩ := write_some hwrite
      rw [StoreOp.change_expire h] at hchange
      cases hchange

/-- What a client does in a step that is undisturbed leaves the cell as it is, or makes of it what its call makes of it. -/
theorem step_cell {record : Option WorkflowRunRecord} {programs : ι → List StoreOp}
    {s : Shared ι (Option WorkflowRunRecord) StoreOp}
    (h : Shared.Sequential (storeOperations ttl transactional) record programs s) {c : ι} (hc : s.Undisturbed c) :
    (s.step (storeOperations ttl transactional) c).cell = s.cell ∨ ∃ op ∈ (s.todo c).head?,
      (s.step (storeOperations ttl transactional) c).cell = (storeOperations ttl transactional).apply op s.cell := by
  rcases Shared.step_cases h hc with he | ⟨op, rest, htodo, he⟩ | ⟨op, rest, written, -, -, he⟩
  · rw [he]
    exact .inl rfl
  · rw [he, htodo]
    exact .inr ⟨op, rfl, rfl⟩
  · rw [he]
    exact .inl rfl

/-- In every interleaving of the calls, if every write finds the record that was read for it. -/
theorem serial_of_undisturbed (ttl : Nat) (transactional : Bool) (record : Option WorkflowRunRecord)
    (programs : ι → List StoreOp) (schedule : List ι)
    (hs : (client record programs).AllUndisturbed (storeOperations ttl transactional) schedule) :
    Serial ttl transactional record programs schedule := by
  have hstart := Shared.sequential_start (storeOperations ttl transactional) record programs
  have hreached : ∀ before c after, schedule = before ++ c :: after →
      Shared.Sequential (storeOperations ttl transactional) record programs
        ((client record programs).run (storeOperations ttl transactional) before) ∧
      ((client record programs).run (storeOperations ttl transactional) before).Undisturbed c := by
    rintro before c after rfl
    obtain ⟨hbefore, hafter⟩ := Shared.allUndisturbed_append hs
    exact ⟨hstart.run before hbefore, hafter.1⟩
  refine ⟨(hstart.run schedule hs).serializable, fun before c after he op hop hupdates => ?_,
    fun before c after he nextStatus releaseSchedules nowMs now hop hwait => ?_⟩
  · obtain ⟨hseq, hc⟩ := hreached before c after he
    rcases step_cell hseq hc with hsame | ⟨op', hop', happly⟩
    · rw [hsame]
    · obtain rfl : op = op' := Option.some.inj (hop.symm.trans hop')
      rw [happly]
      exact apply_updates hupdates _
  · obtain ⟨hseq, hc⟩ := hreached before c after he
    rcases step_cell hseq hc with hsame | ⟨op, hop', happly⟩
    · exact hsame
    · obtain rfl : .expireWaitTimeout nextStatus releaseSchedules nowMs now = op := Option.some.inj (hop.symm.trans hop')
      rw [happly]
      exact apply_expire hwait

/-! A run that waits for an event, and two clients: one claims it, the other one registers another wait. -/

def waitingRun : WorkflowRunRecord :=
  { runId := "run", status := .waiting, wait := some { eventType := "go", registeredAt := some storeTimeFloorMs } }

def claimCall : StoreOp := .claimRun "a" RunStatus.claimable (storeTimeFloorMs + 1) 0

def registerCall : StoreOp := .registerWait { eventType := "stop" } (storeTimeFloorMs + 2) (storeTimeFloorMs + 2)

def twoCalls : Bool → List StoreOp
  | true => [claimCall]
  | false => [registerCall]

/-- The claim is taken before the record is read. -/
theorem serial_claim : Serial 30000 true (some waitingRun) twoCalls [true, false, false] :=
  serial_of_undisturbed 30000 true (some waitingRun) twoCalls [true, false, false]
    ⟨by decide, by decide, by decide, trivial⟩

/-- The claim is taken between the read and the write, and is lost. In either order it is kept. -/
theorem claim_lost :
    ¬ ∀ (record : Option WorkflowRunRecord) (programs : Bool → List StoreOp) (schedule : List Bool),
      Shared.Serializable (storeOperations 30000 true) record
        ((client record programs).run (storeOperations 30000 true) schedule) programs := by
  intro h
  obtain ⟨order, hprograms, hcell⟩ := h (some waitingRun) twoCalls [false, true, false]
  have hlost : (Operations.serial (storeOperations 30000 true) (some waitingRun) order).bind WorkflowRunRecord.claim = none := by
    rw [← hcell]
    rfl
  have htrue := hprograms true
  have hfalse := hprograms false
  rw [show ((client (some waitingRun) twoCalls).run (storeOperations 30000 true) [false, true, false]).todo true = []
    from rfl, List.append_nil] at htrue
  rw [show ((client (some waitingRun) twoCalls).run (storeOperations 30000 true) [false, true, false]).todo false = []
    from rfl, List.append_nil] at hfalse
  -- There are two orders of the two calls.
  rcases order with _ | ⟨⟨b₁, op₁⟩, _ | ⟨⟨b₂, op₂⟩, _ | ⟨⟨b₃, op₃⟩, order⟩⟩⟩
  · cases htrue
  · cases b₁ with
    | true => cases hfalse
    | false => cases htrue
  · cases b₁ with
    | true =>
        cases b₂ with
        | true => cases hfalse
        | false =>
            obtain rfl : op₁ = claimCall := (List.cons.inj htrue).1
            obtain rfl : op₂ = registerCall := (List.cons.inj hfalse).1
            exact absurd hlost (by decide)
    | false =>
        cases b₂ with
        | true =>
            obtain rfl : op₂ = claimCall := (List.cons.inj htrue).1
            obtain rfl : op₁ = registerCall := (List.cons.inj hfalse).1
            exact absurd hlost (by decide)
        | false => cases htrue
  · have hone : ∀ (b : Bool) (op : StoreOp) (l : List (Bool × StoreOp)), (l.filter (·.1 = b)).map Prod.snd = [op] →
        (l.filter (·.1 = b)).length = 1 := by
      intro b op l hl
      rw [← List.length_map (f := Prod.snd), hl]
      rfl
    have hsplit : ∀ l : List (Bool × StoreOp), l.length = (l.filter (·.1 = true)).length + (l.filter (·.1 = false)).length := by
      intro l
      induction l with
      | nil => rfl
      | cons p l ih =>
          obtain ⟨b, op⟩ := p
          cases b with
          | true => simp [ih]; omega
          | false => simp [ih]; omega
    have hlength := hsplit ((b₁, op₁) :: (b₂, op₂) :: (b₃, op₃) :: order)
    rw [hone true claimCall _ htrue, hone false registerCall _ hfalse] at hlength
    simp only [List.length_cons] at hlength
    omega

end clients

end Nodus.Workflow
