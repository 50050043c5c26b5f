import Nodus.SharedStore

/-! Which runner may execute a run. A runner claims the run first, and nobody else gets a claim as long as that one is in the
record and in force. -/

namespace Nodus.Workflow

open Orchestration (Run)

/-- Nobody claims a run that is cancelled or dead-lettered. -/
def RunStatus.Sealed (status : RunStatus) : Prop := status = .cancelled ∨ status = .deadLettered

instance (status : RunStatus) : Decidable status.Sealed := inferInstanceAs (Decidable (_ ∨ _))

namespace Program

/-- A program executes the graph only with a claim, writes back what it has read, gives back its own claims, and claims no run
that is sealed. -/
def Guarded (tokens : List Nat) : Option WorkflowClaim → Program → Prop
  | _, done => True
  | held, getRun next => ∀ now record, Guarded tokens held (next now record)
  | held, saveRun seen change next =>
      (match change with
        | .start claim => held = some claim
        | .stop => seen.status = .cancelled
        | .expire nextStatus releaseSchedules nowMs =>
            nextStatus = .deadLettered ∧ seen.expireWaitTimeout nowMs nextStatus releaseSchedules ≠ none
        | _ => True) ∧ Guarded tokens held next
  | held, createRun record next => record.wait = none ∧ Guarded tokens held next
  | held, claimRun _ expectedStatuses next =>
      held = none ∧ (∀ status ∈ expectedStatuses, ¬ status.Sealed) ∧ Guarded tokens none (next none) ∧
        ∀ claim, Guarded (claim.token :: tokens) (some claim) (next (some claim))
  | _, releaseClaim token next => token ∈ tokens ∧ Guarded tokens none next
  | held, ask _ next => ∀ answer, Guarded tokens held (next answer)
  | held, execute _ next => held ≠ none ∧ ∀ result, Guarded tokens none (next result)

variable {tokens : List Nat} {held : Option WorkflowClaim} {next : Program}

theorem guarded_registerWait (h : Guarded tokens held next) (wait : WorkflowWaitRecord) :
    Guarded tokens held (registerWait wait next) := by
  intro now record
  cases record with
  | none => exact h
  | some record => exact ⟨trivial, h⟩

theorem guarded_scheduleRetry (h : Guarded tokens held next) (retry : RetryMetadata) :
    Guarded tokens held (scheduleRetry retry next) := by
  intro now record
  cases record with
  | none => exact h
  | some record => exact ⟨trivial, h⟩

theorem guarded_expireWaitTimeout {next : Option WorkflowRunRecord → Program}
    (h : ∀ expired, Guarded tokens held (next expired)) (releaseSchedules : Bool) :
    Guarded tokens held (expireWaitTimeout releaseSchedules next) := by
  intro now record
  cases record with
  | none => exact h none
  | some record =>
      simp only []
      split
      · exact h none
      · next expired hexpired =>
          refine ⟨⟨rfl, ?_⟩, h (some expired)⟩
          rw [hexpired]
          exact Option.some_ne_none expired

theorem guarded_markFromResult (h : Guarded tokens held next) (result : GraphResult) :
    Guarded tokens held (markFromResult result next) := by
  unfold markFromResult
  split
  · exact guarded_registerWait h _
  · exact guarded_scheduleRetry h _
  · exact h

theorem guarded_cancelRun : Guarded tokens held cancelRun := by
  intro now record
  cases record with
  | none => exact trivial
  | some record =>
      simp only []
      split
      · exact trivial
      · exact ⟨trivial, trivial⟩

theorem not_sealed_of_mem {statuses : List RunStatus}
    (h : statuses = RunStatus.claimable ∨ statuses = RunStatus.resumable ∨ statuses = [.waiting]) :
    ∀ status ∈ statuses, ¬ status.Sealed := by
  rcases h with rfl | rfl | rfl
  · decide
  · decide
  · decide

theorem guarded_update {change : Change} (h : Guarded tokens held next)
    (hchange : ∀ record, Guarded tokens held next → Guarded tokens held (saveRun record change next)) :
    Guarded tokens held (getRun fun _ record => match record with
      | none => next
      | some record => saveRun record change next) := by
  intro now record
  cases record with
  | none => exact h
  | some record => exact hchange record h

theorem guarded_startGraph (owner : String) {record : WorkflowRunRecord} (hrecord : record.wait = none) :
    Guarded tokens none (startGraph owner record) := by
  refine ⟨hrecord, rfl, not_sealed_of_mem (.inl rfl), trivial, fun claim => ?_⟩
  have hreleased : Guarded (claim.token :: tokens) none (releaseClaim claim.token done) :=
    ⟨List.mem_cons_self, trivial⟩
  refine guarded_update ⟨Option.some_ne_none claim, fun result => ?_⟩ fun record h => ⟨rfl, h⟩
  cases result with
  | none => exact hreleased
  | some result =>
      intro now record
      cases record with
      | none => exact guarded_markFromResult hreleased result
      | some record =>
          simp only []
          split
          · next hstatus => exact ⟨hstatus, hreleased⟩
          · exact ⟨trivial, guarded_markFromResult hreleased result⟩

/-- What a resume goes on with when it has given its claim back is guarded whatever claims it has had. -/
def Goes (next : Program) : Prop := ∀ tokens, Guarded tokens none next

theorem guarded_executeResumed (h : Goes next) (call : ResumeCall) (claim : WorkflowClaim) (watched : Bool) :
    Guarded (claim.token :: tokens) (some claim) (executeResumed call claim watched next) := by
  have hreleased : Guarded (claim.token :: tokens) none (releaseClaim claim.token next) :=
    ⟨List.mem_cons_self, h _⟩
  refine guarded_update ⟨Option.some_ne_none claim, fun result => ?_⟩ fun record h => ⟨trivial, h⟩
  cases result with
  | none => exact hreleased
  | some result =>
      intro now record
      cases record with
      | none => exact guarded_markFromResult hreleased result
      | some record => exact ⟨trivial, guarded_markFromResult hreleased result⟩

theorem guarded_resumeClaimed (h : Goes next) (call : ResumeCall) (seen : WorkflowRunRecord) (claim : WorkflowClaim) :
    Guarded (claim.token :: tokens) (some claim) (resumeClaimed call seen claim next) := by
  have hrefused : Guarded (claim.token :: tokens) (some claim) (releaseClaim claim.token next) :=
    ⟨List.mem_cons_self, h _⟩
  have hat : ∀ watched, Guarded (claim.token :: tokens) (some claim) (resumeAt call claim watched next) := by
    intro watched
    unfold resumeAt
    split
    · intro found
      beta_reduce
      split
      · exact guarded_executeResumed h call claim watched
      · exact hrefused
    · exact guarded_executeResumed h call claim watched
  have hgraph : Guarded (claim.token :: tokens) (some claim) (resumeGraph call claim next) := by
    intro registered
    beta_reduce
    split
    · exact hat
    · intro rebuilt
      beta_reduce
      split
      · exact hat false
      · exact hrefused
  intro found
  beta_reduce
  split
  · exact hrefused
  · split
    · intro waiting
      beta_reduce
      split
      · exact hrefused
      · exact hgraph
    · exact hgraph

theorem guarded_resumeChecked (h : Goes next) (call : ResumeCall) (record : WorkflowRunRecord) :
    Guarded tokens none (resumeChecked call record next) := by
  unfold resumeChecked
  simp only []
  split
  · exact h tokens
  · split
    · split
      · intro accepted
        beta_reduce
        split
        · intro now current
          cases current with
          | none => exact h tokens
          | some current =>
              simp only []
              split
              · exact ⟨rfl, not_sealed_of_mem (.inr (.inr rfl)), h tokens,
                  fun claim => guarded_resumeClaimed h call record claim⟩
              · exact h tokens
        · exact h tokens
      · exact h tokens
    · exact ⟨rfl, not_sealed_of_mem (.inr (.inl rfl)), h tokens, fun claim => guarded_resumeClaimed h call record claim⟩

theorem guarded_resumeWorkflow (h : Goes next) (call : ResumeCall) :
    Guarded tokens none (resumeWorkflow call next) := by
  refine guarded_expireWaitTimeout (fun expired => ?_) true
  split
  · exact h tokens
  · intro now record
    cases record with
    | none => exact h tokens
    | some record =>
        simp only []
        split
        · exact h tokens
        · split
          · intro now current
            cases current with
            | none => exact h tokens
            | some current =>
                simp only []
                split
                · exact guarded_resumeChecked h call record
                · exact h tokens
          · exact guarded_resumeChecked h call record

theorem goes_done : Goes done := fun _ => trivial

theorem guarded_rehydrateRun (h : Goes next) (owner : String) : Guarded tokens none (rehydrateRun owner next) := by
  refine ⟨rfl, not_sealed_of_mem (.inl rfl), h tokens, fun claim => ?_⟩
  have hreleased : Guarded (claim.token :: tokens) (some claim) (releaseClaim claim.token next) :=
    ⟨List.mem_cons_self, h _⟩
  refine guarded_expireWaitTimeout (fun expired => ?_) false
  split
  · exact hreleased
  · intro now record
    cases record with
    | none => exact hreleased
    | some record =>
        have hadopted : Guarded (claim.token :: tokens) (some claim)
            (saveRun record .rehydrate (releaseClaim claim.token next)) := ⟨trivial, hreleased⟩
        simp only []
        split
        · intro found
          beta_reduce
          split
          · intro registered
            beta_reduce
            split
            · exact hadopted
            · intro rebuilt
              beta_reduce
              split
              · exact hadopted
              · exact ⟨trivial, hreleased⟩
          · exact hreleased
        · exact hreleased

theorem guarded_expireWaitTimeouts {next : Option WorkflowRunRecord → Program}
    (h : ∀ expired, Guarded tokens held (next expired)) (releaseSchedules : Bool) :
    Guarded tokens held (expireWaitTimeouts releaseSchedules next) := by
  intro now record
  cases record with
  | none => exact h none
  | some record =>
      simp only []
      split
      · exact guarded_expireWaitTimeout h releaseSchedules
      · exact h none

theorem guarded_sweep (owner : String) (nowMs : Option Nat) : Guarded tokens none (sweep owner nowMs) := by
  have hadopt : Guarded tokens none (sweepAdopt owner) := by
    intro now record
    cases record with
    | none => exact trivial
    | some record =>
        simp only []
        split
        · intro idle
          beta_reduce
          split
          · intro available
            beta_reduce
            split
            · exact guarded_rehydrateRun goes_done owner
            · exact trivial
          · exact trivial
        · exact trivial
  have hretry : Guarded tokens none (sweepRetry owner nowMs) := by
    intro now record
    cases record with
    | none => exact hadopt
    | some record =>
        simp only []
        split
        · intro available
          beta_reduce
          split
          · exact guarded_resumeWorkflow goes_done _
          · exact hadopt
        · exact hadopt
  refine guarded_expireWaitTimeouts (fun settled => ?_) true
  cases settled with
  | none => exact hretry
  | some settled =>
      simp only []
      split
      · exact trivial
      · intro available
        beta_reduce
        split
        · exact guarded_resumeWorkflow goes_done _
        · exact hretry

theorem guarded_deliverEvent (owner eventType : String) (correlationKey : Option String) (withPayload : Bool)
    (nowMs : Option Nat) :
    Guarded tokens none (deliverEvent owner eventType correlationKey withPayload nowMs) := by
  intro now record
  cases record with
  | none => exact trivial
  | some record =>
      simp only []
      split
      · intro unambiguous
        beta_reduce
        split
        · intro available
          beta_reduce
          split
          · exact guarded_resumeWorkflow goes_done _
          · exact trivial
        · exact trivial
      · exact trivial

end Program

theorem Operation.guarded (op : Operation) (hop : ∀ owner record, op = .startGraph owner record → record.wait = none) :
    Program.Guarded [] none op.program := by
  cases op with
  | cancelRun => exact Program.guarded_cancelRun
  | startGraph owner record => exact Program.guarded_startGraph owner (hop owner record rfl)
  | resumeWorkflow call => exact Program.guarded_resumeWorkflow Program.goes_done call
  | deliverEvent owner eventType correlationKey withPayload nowMs =>
      exact Program.guarded_deliverEvent owner eventType correlationKey withPayload nowMs
  | sweep owner nowMs => exact Program.guarded_sweep owner nowMs
  | rehydrateRun owner => exact Program.guarded_rehydrateRun Program.goes_done owner
  | markWaiting wait =>
      apply Program.guarded_registerWait
      exact trivial
  | scheduleRetry retry =>
      apply Program.guarded_scheduleRetry
      exact trivial
  | expireWaitTimeouts =>
      show Program.Guarded [] none (Program.expireWaitTimeouts false fun _ => .done)
      apply Program.guarded_expireWaitTimeouts
      intro expired
      exact trivial

/-- So is what is left of one. -/
def Phase.Guarded (tokens : List Nat) (held : Option WorkflowClaim) : Phase → Prop
  | calling rest => rest.Guarded tokens held
  | executing _ _ next => held ≠ none ∧ ∀ result, (next result).Guarded tokens none

namespace System

variable {s : System} {ttl : Nat}

/-- Operations are called from here on, with whatever record is in the store. -/
def initial (stored : Option WorkflowRunRecord) : System where
  stored := stored
  registered := ((stored.bind WorkflowRunRecord.wait).map fun wait => wait.serial + 1).getD 0

/-- An operation has the claim, and has not given it back. -/
def Holds (s : System) (p : Nat) (claim : WorkflowClaim) : Prop := ∃ process ∈ s.processes p, process.held = some claim

/-- An operation executes the graph. -/
def Executes (s : System) (p : Nat) : Prop :=
  ∃ process ∈ s.processes p, ∃ watched run next, process.phase = .executing watched run next

/-- The wait is the one that is registered. -/
def Registered (s : System) (wait : WorkflowWaitRecord) : Prop := ∃ record ∈ s.stored, record.wait = some wait

instance (s : System) (wait : WorkflowWaitRecord) : Decidable (s.Registered wait) :=
  inferInstanceAs (Decidable (∃ record ∈ s.stored, _))

end System

/-- The claim is in force. -/
def WorkflowClaim.InForce (claim : WorkflowClaim) (now : Nat) : Prop :=
  ∃ expiresAt ∈ claim.expiresAt, IsStoreTime expiresAt ∧ now < expiresAt

instance (claim : WorkflowClaim) (now : Nat) : Decidable (claim.InForce now) :=
  inferInstanceAs (Decidable (∃ expiresAt ∈ claim.expiresAt, _))

/-- The record that is saved has the claim of the operation, or nobody can claim it. -/
def Change.Seals (seen : WorkflowRunRecord) : Change → Prop
  | cancel | stop | start _ => True
  | expire _ _ _ => ∃ wait ∈ seen.wait, wait.onTimeout = .fail
  | resume _ | finish _ _ | registerWait _ | scheduleRetry _ | rehydrate | rehydrationFailed _ => False

instance (seen : WorkflowRunRecord) : (change : Change) → Decidable (change.Seals seen)
  | .cancel | .stop | .start _ => isTrue trivial
  | .expire _ _ _ => inferInstanceAs (Decidable (∃ wait ∈ seen.wait, _))
  | .resume _ | .finish _ _ | .registerWait _ | .scheduleRetry _ | .rehydrate | .rehydrationFailed _ => isFalse id

/-- The change drops the wait that has been read, and no resume goes on behind it. -/
def Change.DropsWait : Change → Prop
  | registerWait _ | scheduleRetry _ => True
  | cancel | start _ | resume _ | finish _ _ | stop | expire _ _ _ | rehydrate | rehydrationFailed _ => False

instance : (change : Change) → Decidable change.DropsWait
  | .registerWait _ | .scheduleRetry _ => isTrue trivial
  | .cancel | .start _ | .resume _ | .finish _ _ | .stop | .expire _ _ _ | .rehydrate | .rehydrationFailed _ => isFalse id

/-- The operations, with the wait that each delivery has found and the waits behind which the graph has been executed: the one
that a resume has cleared, or the one that the delivery has found if it has cleared none. -/
structure Deliveries where
  system : System
  delivers : Nat → Bool := fun _ => false
  found : Nat → Option Nat := fun _ => none
  executed : List Nat := []

namespace Deliveries

variable {d : Deliveries} {ttl : Nat}

/-- What a step adds to the waits behind which the graph is executed. -/
def resumed (d : Deliveries) : Step → List Nat
  | .go p _ _ _ => match (d.system.processes p).map Process.phase with
    | some (.calling (.saveRun seen (.resume _) _)) => (seen.wait.map WorkflowWaitRecord.serial <|> d.found p).toList
    | _ => []
  | _ => []

def step (ttl : Nat) (d : Deliveries) (step : Step) : Deliveries where
  system := d.system.step ttl step
  delivers := match step with
    | .call (.deliverEvent _ _ _ _ _) => Function.update d.delivers d.system.called true
    | _ => d.delivers
  found := match step with
    | .go p _ _ _ =>
        if d.delivers p = true ∧ d.found p = none then
          Function.update d.found p ((d.system.stored.bind WorkflowRunRecord.wait).map WorkflowWaitRecord.serial)
        else d.found
    | _ => d.found
  executed := d.resumed step ++ d.executed

def runs (ttl : Nat) (d : Deliveries) (steps : List Step) : Deliveries := steps.foldl (step ttl) d

/-- An operation goes on carefully. A claim is asked for only while those that are held are in force. What is saved has the claim
that is held, and the wait that is registered. A delivery resumes a run that still waits. -/
def CarefulIn (d : Deliveries) (p now : Nat) : Phase → Prop
  | .calling (.claimRun _ expectedStatuses _) =>
      (∃ record ∈ d.system.stored, record.status ∈ expectedStatuses) →
        ∀ q < d.system.called, ∀ process ∈ d.system.processes q, ∀ claim ∈ process.held, claim.InForce now
  | .calling (.saveRun seen change _) =>
      (change.Seals seen ∨
        ∀ q < d.system.called, ∀ process ∈ d.system.processes q, ∀ claim ∈ process.held, seen.claim = some claim) ∧
      (change.DropsWait ∨ ∀ wait ∈ seen.wait, d.system.Registered wait) ∧
      match change with
      | .resume _ => d.delivers p = true → seen.wait ≠ none
      | _ => True
  | _ => True

instance (d : Deliveries) (p now : Nat) : (phase : Phase) → Decidable (d.CarefulIn p now phase)
  | .calling (.claimRun _ _ _) => inferInstanceAs (Decidable ((∃ record ∈ d.system.stored, _) → _))
  | .calling (.saveRun _ change _) => match change with
    | .resume _ => inferInstanceAs (Decidable (_ ∧ _ ∧ (_ → _)))
    | .cancel | .start _ | .finish _ _ | .stop | .registerWait _ | .scheduleRetry _ | .expire _ _ _ | .rehydrate
    | .rehydrationFailed _ => inferInstanceAs (Decidable (_ ∧ _ ∧ True))
  | .calling .done | .calling (.getRun _) | .calling (.createRun _ _) | .calling (.releaseClaim _ _)
  | .calling (.ask _ _) | .calling (.execute _ _) | .executing _ _ _ => isTrue trivial

/-- A run is created without a wait. -/
def Careful (d : Deliveries) : Step → Prop
  | .go p now _ _ => ∀ process ∈ d.system.processes p, d.CarefulIn p now process.phase
  | .call (.startGraph _ record) => record.wait = none
  | _ => True

instance (d : Deliveries) : (step : Step) → Decidable (d.Careful step)
  | .go p _ _ _ => inferInstanceAs (Decidable (∀ process ∈ d.system.processes p, _))
  | .call op => match op with
    | .startGraph _ _ => inferInstanceAs (Decidable (_ = _))
    | .cancelRun | .resumeWorkflow _ | .deliverEvent _ _ _ _ _ | .sweep _ _ | .rehydrateRun _ | .markWaiting _
    | .scheduleRetry _ | .expireWaitTimeouts => isTrue trivial
  | .act _ _ | .finish _ _ | .crash _ => isTrue trivial

/-- Every step of a run is careful. -/
def AllCareful (ttl : Nat) (d : Deliveries) : List Step → Prop
  | [] => True
  | step :: steps => d.Careful step ∧ (d.step ttl step).AllCareful ttl steps

instance decidableAllCareful (ttl : Nat) (d : Deliveries) : (steps : List Step) → Decidable (d.AllCareful ttl steps)
  | [] => isTrue trivial
  | step :: steps => @instDecidableAnd _ _ _ (decidableAllCareful ttl (d.step ttl step) steps)

end Deliveries

namespace System

variable {s : System} {ttl : Nat}

/-- The claim is in the store, or nobody can claim the run. -/
def Protected (s : System) (claim : WorkflowClaim) : Prop :=
  ∃ record ∈ s.stored, record.claim = some claim ∨ record.status.Sealed

/-- At most one operation has a claim. -/
structure Apart (s : System) : Prop where
  called : ∀ p, s.called ≤ p → s.processes p = none
  guarded : ∀ p, ∀ process ∈ s.processes p, process.phase.Guarded process.tokens process.held
  minted : ∀ p, ∀ process ∈ s.processes p, ∀ token ∈ process.tokens, token < s.minted
  distinct : ∀ p q, p ≠ q → ∀ process ∈ s.processes p, ∀ other ∈ s.processes q,
    ∀ token ∈ process.tokens, token ∉ other.tokens
  own : ∀ p, ∀ process ∈ s.processes p, ∀ claim ∈ process.held, claim.token ∈ process.tokens
  sole : ∀ p q claim other, s.Holds p claim → s.Holds q other → p = q
  protects : ∀ p claim, s.Holds p claim → s.Protected claim

theorem Apart.executes (h : s.Apart) {p q : Nat} (hp : s.Executes p) (hq : s.Executes q) : p = q := by
  have holds : ∀ {p}, s.Executes p → ∃ claim, s.Holds p claim := by
    rintro p ⟨process, hprocess, watched, run, next, hphase⟩
    have hguarded := h.guarded p process hprocess
    rw [hphase] at hguarded
    obtain ⟨claim, hclaim⟩ := Option.ne_none_iff_exists'.mp hguarded.1
    exact ⟨claim, process, hprocess, hclaim⟩
  obtain ⟨claim, hclaim⟩ := holds hp
  obtain ⟨other, hother⟩ := holds hq
  exact h.sole p q claim other hclaim hother

theorem apart_initial (stored : Option WorkflowRunRecord) : (initial stored).Apart where
  called p _ := rfl
  guarded p process hprocess := by cases hprocess
  minted p process hprocess := by cases hprocess
  distinct p q hne process hprocess := by cases hprocess
  own p process hprocess := by cases hprocess
  sole := by
    rintro p q claim other ⟨process, hprocess, -⟩
    cases hprocess
  protects := by
    rintro p claim ⟨process, hprocess, -⟩
    cases hprocess

section Update

variable {s' : System} {p : Nat} {process process' : Process}

theorem mem_update (hprocesses : s'.processes = Function.update s.processes p (some process')) {q : Nat} {other : Process}
    (hother : other ∈ s'.processes q) : q = p ∧ other = process' ∨ q ≠ p ∧ other ∈ s.processes q := by
  rw [hprocesses] at hother
  by_cases hq : q = p
  · rw [hq, Function.update_self] at hother
    exact .inl ⟨hq, (Option.some.inj hother).symm⟩
  · rw [Function.update_of_ne hq] at hother
    exact .inr ⟨hq, hother⟩

theorem Apart.update (h : s.Apart) (hprocess : process ∈ s.processes p)
    (hprocesses : s'.processes = Function.update s.processes p (some process')) (hcalled : s'.called = s.called)
    (hminted : s.minted ≤ s'.minted) (hguarded : process'.phase.Guarded process'.tokens process'.held)
    (htokens : ∀ token ∈ process'.tokens, token ∈ process.tokens ∨ s.minted ≤ token ∧ token < s'.minted)
    (hown : ∀ claim ∈ process'.held, claim.token ∈ process'.tokens)
    (hsole : process'.held = none ∨ process.held ≠ none ∨ ∀ q claim, ¬ s.Holds q claim)
    (hothers : ∀ q, q ≠ p → ∀ claim, s.Holds q claim → s'.Protected claim)
    (hprotects : ∀ claim ∈ process'.held, s'.Protected claim) : s'.Apart := by
  have hnone : ∀ q, s'.called ≤ q → s'.processes q = none := by
    intro q hq
    have hq' := h.called q (hcalled ▸ hq)
    rw [hprocesses, Function.update_of_ne]
    · exact hq'
    · rintro rfl
      rw [hq'] at hprocess
      cases hprocess
  have hfresh : ∀ q, q ≠ p → ∀ other ∈ s.processes q, ∀ token ∈ process'.tokens, token ∉ other.tokens := by
    intro q hq other hother token htoken hmem
    rcases htokens token htoken with hold | ⟨hnew, -⟩
    · exact h.distinct p q hq.symm process hprocess other hother token hold hmem
    · exact Nat.not_lt.mpr hnew (h.minted q other hother token hmem)
  have hholds : ∀ q, q ≠ p → ∀ claim other, s.Holds q claim → other ∈ process'.held → False := by
    intro q hq claim other hq' hother
    rcases hsole with hheld | hheld | hnobody
    · rw [hheld] at hother
      cases hother
    · obtain ⟨mine, hmine⟩ := Option.ne_none_iff_exists'.mp hheld
      exact hq (h.sole q p claim mine hq' ⟨process, hprocess, hmine⟩)
    · exact hnobody q claim hq'
  refine ⟨hnone, ?_, ?_, ?_, ?_, ?_, ?_⟩
  · intro q other hother
    rcases mem_update hprocesses hother with ⟨rfl, rfl⟩ | ⟨-, hother⟩
    · exact hguarded
    · exact h.guarded q other hother
  · intro q other hother token htoken
    rcases mem_update hprocesses hother with ⟨rfl, rfl⟩ | ⟨-, hother⟩
    · rcases htokens token htoken with hold | ⟨-, hnew⟩
      · exact (h.minted q process hprocess token hold).trans_le hminted
      · exact hnew
    · exact (h.minted q other hother token htoken).trans_le hminted
  · intro q r hne first hfirst second hsecond token htoken
    rcases mem_update hprocesses hfirst with ⟨rfl, rfl⟩ | ⟨hq, hfirst⟩
    · rcases mem_update hprocesses hsecond with ⟨rfl, rfl⟩ | ⟨hr, hsecond⟩
      · exact absurd rfl hne
      · exact hfresh r hr second hsecond token htoken
    · rcases mem_update hprocesses hsecond with ⟨rfl, rfl⟩ | ⟨hr, hsecond⟩
      · exact fun hmem => hfresh q hq first hfirst token hmem htoken
      · exact h.distinct q r hne first hfirst second hsecond token htoken
  · intro q other hother claim hclaim
    rcases mem_update hprocesses hother with ⟨rfl, rfl⟩ | ⟨-, hother⟩
    · exact hown claim hclaim
    · exact h.own q other hother claim hclaim
  · rintro q r claim other ⟨first, hfirst, hclaim⟩ ⟨second, hsecond, hother⟩
    rcases mem_update hprocesses hfirst with ⟨rfl, rfl⟩ | ⟨hq, hfirst⟩
    · rcases mem_update hprocesses hsecond with ⟨rfl, rfl⟩ | ⟨hr, hsecond⟩
      · rfl
      · exact (hholds r hr other claim ⟨second, hsecond, hother⟩ hclaim).elim
    · rcases mem_update hprocesses hsecond with ⟨rfl, rfl⟩ | ⟨hr, hsecond⟩
      · exact (hholds q hq claim other ⟨first, hfirst, hclaim⟩ hother).elim
      · exact h.sole q r claim other ⟨first, hfirst, hclaim⟩ ⟨second, hsecond, hother⟩
  · rintro q claim ⟨other, hother, hclaim⟩
    rcases mem_update hprocesses hother with ⟨rfl, rfl⟩ | ⟨hq, hother⟩
    · exact hprotects claim hclaim
    · exact hothers q hq claim ⟨other, hother, hclaim⟩

end Update

theorem Apart.remove (h : s.Apart) (p : Nat) : (s.setProcess p none).Apart := by
  have hmem : ∀ {q process}, process ∈ (s.setProcess p none).processes q → process ∈ s.processes q := by
    intro q process hprocess
    unfold setProcess at hprocess
    by_cases hq : q = p
    · rw [hq] at hprocess
      simp only [Function.update_self] at hprocess
      cases hprocess
    · simp only [Function.update_of_ne hq] at hprocess
      exact hprocess
  have hholds : ∀ {q claim}, (s.setProcess p none).Holds q claim → s.Holds q claim := by
    rintro q claim ⟨process, hprocess, hclaim⟩
    exact ⟨process, hmem hprocess, hclaim⟩
  refine ⟨?_, ?_, ?_, ?_, ?_, ?_, ?_⟩
  · intro q hq
    unfold setProcess
    by_cases hqp : q = p
    · rw [hqp]
      simp only [Function.update_self]
    · simp only [Function.update_of_ne hqp]
      exact h.called q hq
  · exact fun q process hprocess => h.guarded q process (hmem hprocess)
  · exact fun q process hprocess => h.minted q process (hmem hprocess)
  · exact fun q r hne process hprocess other hother => h.distinct q r hne process (hmem hprocess) other (hmem hother)
  · exact fun q process hprocess => h.own q process (hmem hprocess)
  · exact fun q r claim other hq hr => h.sole q r claim other (hholds hq) (hholds hr)
  · exact fun q claim hq => h.protects q claim (hholds hq)

theorem Apart.call (h : s.Apart) {op : Operation} (hop : op.program.Guarded [] none) : (s.step ttl (.call op)).Apart := by
  have hmem : ∀ {q process}, process ∈ (s.step ttl (.call op)).processes q →
      process = { phase := .calling op.program } ∨ q ≠ s.called ∧ process ∈ s.processes q := by
    intro q process hprocess
    by_cases hq : q = s.called
    · rw [hq] at hprocess
      simp only [step, setProcess, Function.update_self] at hprocess
      exact .inl (Option.some.inj hprocess).symm
    · simp only [step, setProcess, Function.update_of_ne hq] at hprocess
      exact .inr ⟨hq, hprocess⟩
  have hholds : ∀ {q claim}, (s.step ttl (.call op)).Holds q claim → s.Holds q claim := by
    rintro q claim ⟨process, hprocess, hclaim⟩
    rcases hmem hprocess with rfl | ⟨-, hprocess⟩
    · cases hclaim
    · exact ⟨process, hprocess, hclaim⟩
  refine ⟨?_, ?_, ?_, ?_, ?_, ?_, ?_⟩
  · intro q hq
    have hlt : s.called < q := hq
    simp only [step, setProcess, Function.update_of_ne hlt.ne']
    exact h.called q hlt.le
  · intro q process hprocess
    rcases hmem hprocess with rfl | ⟨-, hprocess⟩
    · exact hop
    · exact h.guarded q process hprocess
  · intro q process hprocess token htoken
    rcases hmem hprocess with rfl | ⟨-, hprocess⟩
    · cases htoken
    · exact h.minted q process hprocess token htoken
  · intro q r hne process hprocess other hother token htoken hmem'
    rcases hmem hprocess with rfl | ⟨-, hprocess⟩
    · cases htoken
    · rcases hmem hother with rfl | ⟨-, hother⟩
      · cases hmem'
      · exact h.distinct q r hne process hprocess other hother token htoken hmem'
  · intro q process hprocess claim hclaim
    rcases hmem hprocess with rfl | ⟨-, hprocess⟩
    · cases hclaim
    · exact h.own q process hprocess claim hclaim
  · exact fun q r claim other hq hr => h.sole q r claim other (hholds hq) (hholds hr)
  · exact fun q claim hq => h.protects q claim (hholds hq)

variable {p : Nat} {process : Process}

theorem Apart.goesOn (h : s.Apart) (hprocess : process ∈ s.processes p) {phase : Phase}
    (hphase : phase.Guarded process.tokens process.held) :
    (s.setProcess p (some { process with phase })).Apart := by
  refine h.update hprocess rfl rfl le_rfl hphase ?_ ?_ ?_ ?_ ?_
  · exact fun token htoken => .inl htoken
  · exact h.own p process hprocess
  · by_cases hheld : process.held = none
    · exact .inl hheld
    · exact .inr (.inl hheld)
  · exact fun q _ claim hclaim => h.protects q claim hclaim
  · exact fun claim hclaim => h.protects p claim ⟨process, hprocess, hclaim⟩

theorem protected_save {change : Change} {seen : WorkflowRunRecord} {claim : WorkflowClaim} {now : Nat} {s' : System}
    (hstored : s'.stored = some ((s.numbered change).apply now seen))
    (hseen : change.Seals seen ∨ seen.claim = some claim)
    (hstart : ∀ mine, change = .start mine → mine = claim) (hstop : change = .stop → seen.status = .cancelled)
    (hexpire : ∀ nextStatus releaseSchedules nowMs, change = .expire nextStatus releaseSchedules nowMs →
      nextStatus = .deadLettered ∧ seen.expireWaitTimeout nowMs nextStatus releaseSchedules ≠ none) : s'.Protected claim := by
  refine ⟨_, hstored, ?_⟩
  cases change with
  | cancel => exact .inr (.inl rfl)
  | stop => exact .inr (.inl (hstop rfl))
  | start mine => exact .inl (congrArg some (hstart mine rfl))
  | resume checkpoint => exact .inl (hseen.resolve_left id)
  | finish result resumed =>
      refine .inl (Eq.trans ?_ (hseen.resolve_left id))
      show (seen.finish result resumed).claim = seen.claim
      unfold WorkflowRunRecord.finish
      cases result.outcome with
      | waiting wait => rfl
      | retryScheduled retry => rfl
      | failed error retry compensation => rfl
      | completed => rfl
  | registerWait wait => exact .inl (hseen.resolve_left id)
  | scheduleRetry retry => exact .inl (hseen.resolve_left id)
  | rehydrate => exact .inl (hseen.resolve_left id)
  | rehydrationFailed error => exact .inl (hseen.resolve_left id)
  | expire nextStatus releaseSchedules nowMs =>
      obtain ⟨rfl, hexpired⟩ := hexpire nextStatus releaseSchedules nowMs rfl
      show ((seen.expireWaitTimeout nowMs .deadLettered releaseSchedules).getD seen).claim = some claim ∨
        ((seen.expireWaitTimeout nowMs .deadLettered releaseSchedules).getD seen).status.Sealed
      unfold WorkflowRunRecord.expireWaitTimeout at hexpired ⊢
      cases hwait : seen.wait with
      | none =>
          rw [hwait] at hexpired
          exact absurd rfl hexpired
      | some wait =>
          rw [hwait] at hexpired
          simp only [] at hexpired ⊢
          split at hexpired
          · next htimed =>
              rw [if_pos htimed]
              by_cases honTimeout : wait.onTimeout = .resume
              · have hclaim : seen.claim = some claim := by
                  refine hseen.resolve_left ?_
                  rintro ⟨other, hother, hfail⟩
                  rw [Option.mem_def, hwait] at hother
                  cases hother
                  rw [honTimeout] at hfail
                  cases hfail
                rw [if_pos honTimeout]
                cases releaseSchedules with
                | true => exact .inl hclaim
                | false => exact .inl hclaim
              · rw [if_neg honTimeout]
                exact .inr (.inr rfl)
          · exact absurd rfl hexpired

theorem Apart.lt_called (h : s.Apart) {claim : WorkflowClaim} (hclaim : s.Holds p claim) : p < s.called := by
  obtain ⟨process, hprocess, -⟩ := hclaim
  by_contra hle
  rw [h.called p (Nat.not_lt.mp hle)] at hprocess
  cases hprocess

/-- A claim that is given back is the one of the operation, or the claim of another operation stays. -/
theorem Protected.release {claim : WorkflowClaim} (h : s.Protected claim) {token : Nat} (htoken : claim.token ≠ token)
    {now : Nat} {s' : System}
    (hstored : s'.stored = s.stored.map fun record => (record.releaseClaim (some token) now).getD record) :
    s'.Protected claim := by
  obtain ⟨record, hrecord, hprotects⟩ := h
  refine ⟨(record.releaseClaim (some token) now).getD record, ?_, ?_⟩
  · rw [Option.mem_def, hstored, Option.mem_def.mp hrecord]
    rfl
  · rcases hprotects with hclaim | hsealed
    · refine .inl ?_
      unfold WorkflowRunRecord.releaseClaim
      rw [if_neg]
      · exact hclaim
      · rw [hclaim]
        rintro (hnone | hnone | hsame)
        · cases hnone
        · cases hnone
        · exact htoken (Option.some.inj hsame)
    · rw [releaseClaim_status]
      exact .inr hsealed

end System

namespace Deliveries

variable {d : Deliveries} {ttl p now : Nat} {process : Process} {answer : Bool} {run : Run} {rest : Program}

theorem nobody_holds (h : d.system.Apart) {owner : String} {expectedStatuses : List RunStatus}
    {next : Option WorkflowClaim → Program} (hcareful : d.CarefulIn p now (.calling (.claimRun owner expectedStatuses next)))
    (hsealed : ∀ status ∈ expectedStatuses, ¬ status.Sealed) {record : WorkflowRunRecord}
    (hrecord : record ∈ d.system.stored) (hstatus : record.status ∈ expectedStatuses) (hclaimable : record.Claimable now)
    (q : Nat) (claim : WorkflowClaim) :
    ¬ d.system.Holds q claim := by
  intro hholds
  have hlt := h.lt_called hholds
  have hprotected := h.protects q claim hholds
  obtain ⟨other, hother, hclaim⟩ := hholds
  obtain ⟨expiresAt, hexpires, htime, hnow⟩ := hcareful ⟨record, hrecord, hstatus⟩ q hlt other hother claim hclaim
  obtain ⟨record', hrecord', hkept⟩ := hprotected
  obtain rfl : record' = record := Option.some.inj (hrecord'.symm.trans hrecord)
  rcases hkept with hin | hstop
  · exact Nat.not_le.mpr hnow (hclaimable claim hin expiresAt hexpires htime)
  · exact hsealed record'.status hstatus hstop

theorem apart_go (h : d.system.Apart) (hprocess : process ∈ d.system.processes p)
    (hrest : rest.Guarded process.tokens process.held) (hcareful : d.CarefulIn p now (.calling rest)) :
    (d.system.go ttl p process now answer run rest).Apart := by
  have hlt : p < d.system.called := by
    by_contra hle
    rw [h.called p (Nat.not_lt.mp hle)] at hprocess
    cases hprocess
  have hheld : process.held = none ∨ process.held ≠ none ∨ ∀ q claim, ¬ d.system.Holds q claim := by
    by_cases hnone : process.held = none
    · exact .inl hnone
    · exact .inr (.inl hnone)
  cases rest with
  | done => exact h.remove p
  | getRun next => exact h.goesOn hprocess (hrest now d.system.stored)
  | ask question next => exact h.goesOn hprocess (hrest answer)
  | execute watched next => exact h.goesOn hprocess hrest
  | saveRun seen change next =>
      obtain ⟨hchange, hnext⟩ := hrest
      obtain ⟨hclaims, -, -⟩ := hcareful
      have hprotects : ∀ q claim, d.system.Holds q claim →
          ((d.system.save seen change now).setProcess p (some { process with phase := .calling next })).Protected claim := by
        intro q claim hholds
        refine System.protected_save rfl ?_ ?_ ?_ ?_
        · refine hclaims.imp_right fun hall => ?_
          obtain ⟨other, hother, hclaim⟩ := hholds
          exact hall q (h.lt_called ⟨other, hother, hclaim⟩) other hother claim hclaim
        · rintro mine rfl
          have hmine : process.held = some mine := hchange
          obtain rfl : p = q := h.sole p q mine claim ⟨process, hprocess, hmine⟩ hholds
          obtain ⟨other, hother, hclaim⟩ := hholds
          obtain rfl : other = process := Option.some.inj (hother.symm.trans hprocess)
          exact Option.some.inj (hmine.symm.trans hclaim)
        · rintro rfl
          exact hchange
        · rintro nextStatus releaseSchedules nowMs rfl
          exact hchange
      refine h.update hprocess rfl rfl le_rfl hnext ?_ ?_ hheld ?_ ?_
      · exact fun token htoken => .inl htoken
      · exact h.own p process hprocess
      · exact fun q _ claim hholds => hprotects q claim hholds
      · exact fun claim hclaim => hprotects p claim ⟨process, hprocess, hclaim⟩
  | createRun record next =>
      have hprotects : ∀ q claim, d.system.Holds q claim → ({ d.system with
          stored := some (d.system.stored.getD (record.saved now)) }.setProcess p
            (some { process with phase := .calling next })).Protected claim := by
        intro q claim hholds
        obtain ⟨stored, hstored, hkept⟩ := h.protects q claim hholds
        refine ⟨stored, ?_, hkept⟩
        show some (d.system.stored.getD (record.saved now)) = some stored
        rw [Option.mem_def.mp hstored]
        rfl
      refine h.update hprocess rfl rfl le_rfl hrest.2 ?_ ?_ hheld ?_ ?_
      · exact fun token htoken => .inl htoken
      · exact h.own p process hprocess
      · exact fun q _ claim hholds => hprotects q claim hholds
      · exact fun claim hclaim => hprotects p claim ⟨process, hprocess, hclaim⟩
  | claimRun owner expectedStatuses next =>
      obtain ⟨hnone, hsealed, hrefused, hclaimed⟩ := hrest
      simp only [System.go]
      split
      · refine h.goesOn hprocess ?_
        rw [hnone]
        exact hrefused
      · next record' hclaim =>
          obtain ⟨record, hrecord, hclaim⟩ := Option.bind_eq_some_iff.mp hclaim
          obtain ⟨hstatus, hclaimable, rfl⟩ := System.claimRun_eq_some hclaim
          have hnobody := nobody_holds h hcareful hsealed hrecord hstatus hclaimable
          refine h.update hprocess rfl rfl (Nat.le_succ d.system.minted) ?_ ?_ ?_ (.inr (.inr hnobody)) ?_ ?_
          · exact hclaimed ⟨d.system.minted, owner, some (now + ttl)⟩
          · intro token htoken
            rcases List.mem_cons.mp htoken with rfl | hold
            · exact .inr ⟨le_rfl, Nat.lt_succ_self _⟩
            · exact .inl hold
          · intro claim hmine
            obtain rfl := Option.some.inj hmine
            exact List.mem_cons_self
          · exact fun q _ claim hholds => (hnobody q claim hholds).elim
          · exact fun claim hmine => ⟨_, rfl, .inl hmine⟩
  | releaseClaim token next =>
      obtain ⟨htoken, hnext⟩ := hrest
      refine h.update hprocess rfl rfl le_rfl hnext
        ?_ ?_ (.inl rfl) ?_ ?_
      · exact fun token htoken => .inl htoken
      · rintro claim hclaim
        cases hclaim
      · intro q hq claim hholds
        refine (h.protects q claim hholds).release ?_ rfl
        obtain ⟨other, hother, hclaim⟩ := hholds
        rintro rfl
        exact h.distinct p q hq.symm process hprocess other hother claim.token htoken (h.own q other hother claim hclaim)
      · rintro claim hclaim
        cases hclaim

theorem apart_step (h : d.system.Apart) {step : Step} (hcareful : d.Careful step) : (d.step ttl step).system.Apart := by
  show (d.system.step ttl step).Apart
  cases step with
  | call op =>
      refine h.call (op.guarded ?_)
      rintro owner record rfl
      exact hcareful
  | go p now answer run =>
      simp only [System.step]
      split
      · next process hprocess =>
          have hguarded := h.guarded p process hprocess
          have hin := hcareful process hprocess
          split
          · next rest hphase =>
              rw [hphase] at hguarded hin
              exact apart_go h hprocess hguarded hin
          · exact h
      · exact h
  | act p act =>
      simp only [System.step]
      split
      · next process hprocess =>
          split
          · exact h
          · next watched run next hphase =>
              have hguarded := h.guarded p process hprocess
              rw [hphase] at hguarded
              exact h.goesOn hprocess hguarded
      · exact h
  | finish p result =>
      simp only [System.step]
      split
      · next process hprocess =>
          split
          · exact h
          · next watched run next hphase =>
              have hguarded := h.guarded p process hprocess
              rw [hphase] at hguarded
              refine h.update hprocess rfl rfl le_rfl (hguarded.2 result) ?_ ?_ (.inl rfl) ?_ ?_
              · exact fun token htoken => .inl htoken
              · rintro claim hclaim
                cases hclaim
              · exact fun q _ claim hholds => h.protects q claim hholds
              · rintro claim hclaim
                cases hclaim
      · exact h
  | crash p => exact h.remove p

/-- No wait has been executed behind twice, and the one that is registered has not been executed behind yet. -/
structure Unrepeated (d : Deliveries) : Prop where
  nodup : d.executed.Nodup
  executed : ∀ serial ∈ d.executed, serial < d.system.registered
  waiting : ∀ wait, d.system.Registered wait → wait.serial < d.system.registered ∧ wait.serial ∉ d.executed
  found : ∀ p, d.found p ≠ none → d.delivers p = true

theorem unrepeated_initial (stored : Option WorkflowRunRecord) : Unrepeated { system := .initial stored } where
  nodup := List.nodup_nil
  executed _ hserial := by cases hserial
  waiting := by
    rintro wait ⟨record, hrecord, hwait⟩
    have hregistered : (System.initial stored).registered = wait.serial + 1 := by
      obtain rfl : stored = some record := hrecord
      unfold System.initial
      rw [Option.bind_some, hwait]
      rfl
    refine ⟨?_, List.not_mem_nil⟩
    show wait.serial < (System.initial stored).registered
    rw [hregistered]
    exact Nat.lt_succ_self wait.serial
  found p hfound := absurd rfl hfound

theorem wait_apply {change : Change} {seen : WorkflowRunRecord} {now : Nat} {wait : WorkflowWaitRecord}
    (hchange : ∀ asked, change ≠ .registerWait asked) (h : (change.apply now seen).wait = some wait) :
    ¬ change.DropsWait ∧ seen.wait = some wait := by
  cases change with
  | cancel => exact ⟨id, h⟩
  | start claim => exact ⟨id, h⟩
  | stop => exact ⟨id, h⟩
  | rehydrate => exact ⟨id, h⟩
  | rehydrationFailed error => exact ⟨id, h⟩
  | resume checkpoint => cases h
  | scheduleRetry retry => cases h
  | registerWait asked => exact absurd rfl (hchange asked)
  | finish result resumed =>
      refine ⟨id, Eq.trans ?_ h⟩
      show seen.wait = (seen.finish result resumed).wait
      unfold WorkflowRunRecord.finish
      cases result.outcome with
      | waiting wait => rfl
      | retryScheduled retry => rfl
      | failed error retry compensation => rfl
      | completed => rfl
  | expire nextStatus releaseSchedules nowMs =>
      refine ⟨id, ?_⟩
      have hexpired : ((seen.expireWaitTimeout nowMs nextStatus releaseSchedules).getD seen).wait = some wait := h
      unfold WorkflowRunRecord.expireWaitTimeout at hexpired
      split at hexpired
      · exact hexpired
      · split at hexpired
        · split at hexpired
          · cases releaseSchedules with
            | true => cases hexpired
            | false => exact hexpired
          · exact hexpired
        · exact hexpired

theorem registered_go (hcareful : d.CarefulIn p now (.calling rest))
    (hcreate : ∀ record next, rest = .createRun record next → record.wait = none) {wait : WorkflowWaitRecord}
    (h : (d.system.go ttl p process now answer run rest).Registered wait) :
    d.system.Registered wait ∨
      wait.serial = d.system.registered ∧ d.system.registered < (d.system.go ttl p process now answer run rest).registered := by
  obtain ⟨record, hrecord, hwait⟩ := h
  cases rest with
  | done => exact .inl ⟨record, hrecord, hwait⟩
  | getRun next => exact .inl ⟨record, hrecord, hwait⟩
  | ask question next => exact .inl ⟨record, hrecord, hwait⟩
  | execute watched next => exact .inl ⟨record, hrecord, hwait⟩
  | saveRun seen change next =>
      obtain rfl : (d.system.numbered change).apply now seen = record := Option.some.inj hrecord
      by_cases hchange : ∃ asked, change = .registerWait asked
      · obtain ⟨asked, rfl⟩ := hchange
        refine .inr ⟨?_, Nat.lt_succ_self d.system.registered⟩
        exact congrArg WorkflowWaitRecord.serial (Option.some.inj hwait).symm
      · have hsame : d.system.numbered change = change := by
          unfold System.numbered
          split
          · next asked => exact absurd ⟨asked, rfl⟩ hchange
          · rfl
        rw [hsame] at hwait
        obtain ⟨hdrops, hseen⟩ := wait_apply (fun asked hasked => hchange ⟨asked, hasked⟩) hwait
        exact .inl (hcareful.2.1.resolve_left hdrops wait hseen)
  | createRun created next =>
      have hstored : d.system.stored.getD (created.saved now) = record := Option.some.inj hrecord
      cases hold : d.system.stored with
      | none =>
          rw [hold] at hstored
          obtain rfl : created.saved now = record := hstored
          have hnone := hcreate created next rfl
          exact absurd (hwait.symm.trans hnone) (Option.some_ne_none wait)
      | some old =>
          rw [hold] at hstored
          obtain rfl : old = record := hstored
          exact .inl ⟨old, hold, hwait⟩
  | claimRun owner expectedStatuses next =>
      refine .inl ?_
      simp only [System.go] at hrecord
      split at hrecord
      · exact ⟨record, hrecord, hwait⟩
      · next record' hclaim =>
          obtain rfl : record' = record := Option.some.inj hrecord
          obtain ⟨old, hold, hclaim⟩ := Option.bind_eq_some_iff.mp hclaim
          obtain ⟨-, -, rfl⟩ := System.claimRun_eq_some hclaim
          exact ⟨old, hold, hwait⟩
  | releaseClaim token next =>
      refine .inl ?_
      obtain ⟨old, hold, rfl⟩ := Option.map_eq_some_iff.mp hrecord
      refine ⟨old, hold, Eq.trans ?_ hwait⟩
      show old.wait = ((old.releaseClaim (some token) now).getD old).wait
      unfold WorkflowRunRecord.releaseClaim
      split
      · rfl
      · rfl

theorem registered_step (h : d.system.Apart) {step : Step} (hcareful : d.Careful step) {wait : WorkflowWaitRecord}
    (hwait : (d.system.step ttl step).Registered wait) :
    d.system.Registered wait ∨
      wait.serial = d.system.registered ∧ d.system.registered < (d.system.step ttl step).registered := by
  cases step with
  | call op => exact .inl hwait
  | crash p => exact .inl hwait
  | go p now answer run =>
      simp only [System.step] at hwait ⊢
      split at hwait
      · next process hprocess =>
          have hguarded := h.guarded p process hprocess
          have hin := hcareful process hprocess
          split at hwait
          · next rest hphase =>
              rw [hphase] at hguarded hin
              refine registered_go hin ?_ hwait
              rintro record next rfl
              exact hguarded.1
          · exact .inl hwait
      · exact .inl hwait
  | act p act =>
      simp only [System.step] at hwait
      split at hwait
      · split at hwait
        · exact .inl hwait
        · exact .inl hwait
      · exact .inl hwait
  | finish p result =>
      simp only [System.step] at hwait
      split at hwait
      · split at hwait
        · exact .inl hwait
        · exact .inl hwait
      · exact .inl hwait

theorem registered_le_go (s : System) : s.registered ≤ (s.go ttl p process now answer run rest).registered := by
  cases rest with
  | done => exact le_rfl
  | getRun next => exact le_rfl
  | ask question next => exact le_rfl
  | execute watched next => exact le_rfl
  | createRun record next => exact le_rfl
  | releaseClaim token next => exact le_rfl
  | claimRun owner expectedStatuses next =>
      simp only [System.go]
      split
      · exact le_rfl
      · exact le_rfl
  | saveRun seen change next =>
      cases change with
      | registerWait wait => exact Nat.le_succ s.registered
      | _ => exact le_rfl

theorem registered_le (s : System) (step : Step) : s.registered ≤ (s.step ttl step).registered := by
  cases step with
  | call op => exact le_rfl
  | crash p => exact le_rfl
  | go p now answer run =>
      simp only [System.step]
      split
      · split
        · exact registered_le_go s
        · exact le_rfl
      · exact le_rfl
  | act p act =>
      simp only [System.step]
      split
      · split
        · exact le_rfl
        · exact le_rfl
      · exact le_rfl
  | finish p result =>
      simp only [System.step]
      split
      · split
        · exact le_rfl
        · exact le_rfl
      · exact le_rfl

theorem mem_resumed (ttl : Nat) (hfound : ∀ p, d.found p ≠ none → d.delivers p = true) {step : Step}
    (hcareful : d.Careful step) {serial : Nat} (hserial : serial ∈ d.resumed step) :
    (∃ wait, d.system.Registered wait ∧ wait.serial = serial) ∧ ∀ wait, ¬ (d.system.step ttl step).Registered wait := by
  unfold resumed at hserial
  split at hserial
  · next p now answer run =>
      split at hserial
      · next seen checkpoint next hphase =>
          obtain ⟨process, hprocess, hcalls⟩ := Option.map_eq_some_iff.mp hphase
          have hin := hcareful process hprocess
          rw [hcalls] at hin
          obtain ⟨-, hregistered, hdelivery⟩ := hin
          constructor
          · cases hwait : seen.wait with
            | some wait =>
                rw [hwait] at hserial
                obtain rfl : wait.serial = serial := Option.some.inj (Option.mem_toList.mp hserial)
                exact ⟨wait, hregistered.resolve_left id wait hwait, rfl⟩
            | none =>
                rw [hwait] at hserial
                have hmem : d.found p = some serial := Option.mem_toList.mp hserial
                have hdelivers := hfound p (by rw [hmem]; exact Option.some_ne_none serial)
                exact absurd hwait (hdelivery hdelivers)
          · rintro wait ⟨record, hrecord, hwait⟩
            have hstored : (d.system.step ttl (.go p now answer run)).stored = some ((seen.resume checkpoint).saved now) := by
              simp only [System.step]
              rw [Option.mem_def.mp hprocess]
              simp only [hcalls]
              rfl
            obtain rfl : (seen.resume checkpoint).saved now = record := Option.some.inj (hstored.symm.trans hrecord)
            cases hwait
      · cases hserial
  · cases hserial

theorem nodup_resumed (d : Deliveries) (step : Step) : (d.resumed step).Nodup := by
  unfold resumed
  split
  · split
    · next seen checkpoint next _ =>
        cases seen.wait.map WorkflowWaitRecord.serial <|> d.found _ with
        | none => exact List.nodup_nil
        | some serial => exact List.nodup_singleton serial
    · exact List.nodup_nil
  · exact List.nodup_nil

theorem Unrepeated.step (h : d.Unrepeated) (hapart : d.system.Apart) {step : Step} (hcareful : d.Careful step) :
    (d.step ttl step).Unrepeated := by
  have hle : d.system.registered ≤ (d.system.step ttl step).registered := registered_le d.system step
  have hnew : ∀ serial ∈ d.resumed step, serial < d.system.registered ∧ serial ∉ d.executed := by
    intro serial hserial
    obtain ⟨⟨wait, hwait, rfl⟩, -⟩ := mem_resumed ttl h.found hcareful hserial
    exact h.waiting wait hwait
  refine ⟨?_, ?_, ?_, ?_⟩
  · refine List.nodup_append.mpr ⟨nodup_resumed d step, h.nodup, ?_⟩
    rintro serial hserial other hother rfl
    exact (hnew serial hserial).2 hother
  · intro serial hserial
    rcases List.mem_append.mp hserial with hserial | hserial
    · exact (hnew serial hserial).1.trans_le hle
    · exact (h.executed serial hserial).trans_le hle
  · intro wait hwait
    have hfresh : wait.serial ∉ d.resumed step := fun hserial => (mem_resumed ttl h.found hcareful hserial).2 wait hwait
    rcases registered_step hapart hcareful hwait with hold | ⟨hserial, hlt⟩
    · obtain ⟨hlt, hnot⟩ := h.waiting wait hold
      exact ⟨hlt.trans_le hle, fun hmem => (List.mem_append.mp hmem).elim hfresh hnot⟩
    · refine ⟨hserial ▸ hlt, fun hmem => (List.mem_append.mp hmem).elim hfresh fun hold => ?_⟩
      exact absurd (h.executed wait.serial hold) (hserial ▸ lt_irrefl d.system.registered)
  · intro p hfound
    cases step with
    | call op =>
        have hdelivers := h.found p hfound
        cases op with
        | deliverEvent owner eventType correlationKey withPayload nowMs =>
            show Function.update d.delivers d.system.called true p = true
            by_cases hp : p = d.system.called
            · rw [hp, Function.update_self]
            · rw [Function.update_of_ne hp]
              exact hdelivers
        | cancelRun => exact hdelivers
        | startGraph owner record => exact hdelivers
        | resumeWorkflow call => exact hdelivers
        | sweep owner nowMs => exact hdelivers
        | rehydrateRun owner => exact hdelivers
        | markWaiting wait => exact hdelivers
        | scheduleRetry retry => exact hdelivers
        | expireWaitTimeouts => exact hdelivers
    | go q now answer run =>
        simp only [Deliveries.step] at hfound
        split at hfound
        · next hdelivers =>
            by_cases hp : p = q
            · rw [hp]
              exact hdelivers.1
            · rw [Function.update_of_ne hp] at hfound
              exact h.found p hfound
        · exact h.found p hfound
    | act q act => exact h.found p hfound
    | finish q result => exact h.found p hfound
    | crash q => exact h.found p hfound

theorem system_runs (d : Deliveries) (steps : List Step) : (d.runs ttl steps).system = d.system.runs ttl steps := by
  induction steps generalizing d with
  | nil => rfl
  | cons step steps ih => exact ih (d.step ttl step)

theorem apart_runs (h : d.system.Apart) (hd : d.Unrepeated) (steps : List Step) (hcareful : d.AllCareful ttl steps) :
    (d.runs ttl steps).system.Apart ∧ (d.runs ttl steps).Unrepeated := by
  induction steps generalizing d with
  | nil => exact ⟨h, hd⟩
  | cons step steps ih => exact ih (apart_step h hcareful.1) (hd.step h hcareful.1) hcareful.2

theorem allCareful_append {before after : List Step} (h : d.AllCareful ttl (before ++ after)) : d.AllCareful ttl before := by
  induction before generalizing d with
  | nil => exact trivial
  | cons step before ih => exact ⟨h.1, ih h.2⟩

end Deliveries

/-- At most one operation executes the graph at any moment, and no wait is executed behind twice. -/
structure Exclusive (ttl : Nat) (stored : Option WorkflowRunRecord) (steps : List Step) : Prop where
  executes : ∀ before after, steps = before ++ after → ∀ p q, ((System.initial stored).runs ttl before).Executes p →
    ((System.initial stored).runs ttl before).Executes q → p = q
  executed : (({ system := .initial stored } : Deliveries).runs ttl steps).executed.Nodup

/-- In every run of any number of operations, if every step is careful. -/
theorem exclusive_of_careful (ttl : Nat) (stored : Option WorkflowRunRecord) (steps : List Step)
    (hcareful : ({ system := .initial stored } : Deliveries).AllCareful ttl steps) : Exclusive ttl stored steps where
  executes before after he p q hp hq := by
    rw [he] at hcareful
    have happ := (Deliveries.apart_runs (System.apart_initial stored) (Deliveries.unrepeated_initial stored) before
      (Deliveries.allCareful_append hcareful)).1
    rw [Deliveries.system_runs] at happ
    exact happ.executes hp hq
  executed := (Deliveries.apart_runs (System.apart_initial stored) (Deliveries.unrepeated_initial stored) steps hcareful).2.nodup

/-! A run is resumed for an event, by one runner and, when the claim of that one has expired, by another. -/

/-- The other runner goes on, at a time when the first claim is not in force any more. -/
def later (p : Nat) : Step := .go p (storeTimeFloorMs + 30002) true System.oneTask

/-- The run is delivered an event, and its graph is executed. -/
def deliverySteps : List Step :=
  .call (.deliverEvent "vm:1" "go" none true none) :: List.replicate 14 (System.goes 0)

theorem delivery_exclusive : Exclusive 30000 (some System.pendingRun) deliverySteps :=
  exclusive_of_careful 30000 (some System.pendingRun) deliverySteps (by decide)

theorem runners_overlap : ¬ ∀ (stored : Option WorkflowRunRecord) (steps : List Step), Exclusive 30000 stored steps := by
  intro h
  have hboth := (h (some System.pendingRun)
    (deliverySteps ++ .call (.resumeWorkflow { owner := "vm:2" }) :: List.replicate 9 (later 1))).executes
  have hfirst := hboth _ [] (List.append_nil _).symm 0 1 ⟨_, rfl, _, _, _, rfl⟩ ⟨_, rfl, _, _, _, rfl⟩
  cases hfirst

end Nodus.Workflow
