import Nodus.Runners

/-! Runs that wait until a deadline and are to go on then. A call that clears such a wait has to execute the run, or nothing will. -/

namespace Nodus.Workflow

/-- What a call finds around it. -/
structure Surroundings where
  now : Nat
  /-- The time at which a claim is taken, the number of the claim and for how long it lasts. -/
  claimedAt : Nat
  token : Nat
  ttl : Nat
  answer : Question → Bool
  result : Option GraphResult

/-- A program that nothing interrupts: the record it leaves, and whether the graph was executed. -/
def Program.runAlone (around : Surroundings) : Program → Option WorkflowRunRecord → Bool → Option WorkflowRunRecord × Bool
  | done, stored, executed => (stored, executed)
  | getRun next, stored, executed => (next around.now stored).runAlone around stored executed
  | saveRun seen change next, _, executed => next.runAlone around (some (change.apply around.now seen)) executed
  | createRun record next, stored, executed =>
      next.runAlone around (some (stored.getD (record.saved around.now))) executed
  | claimRun owner expectedStatuses next, stored, executed =>
      match stored.bind fun record => record.claimRun owner expectedStatuses around.ttl around.claimedAt around.token with
      | none => (next none).runAlone around stored executed
      | some record => (next record.claim).runAlone around (some record) executed
  | releaseClaim token next, stored, executed =>
      next.runAlone around (stored.map fun record => (record.releaseClaim (some token) around.now).getD record) executed
  | ask question next, stored, executed => (next (around.answer question)).runAlone around stored executed
  | execute _ next, stored, _ => (next around.result).runAlone around stored true

namespace Operation

/-- Sweeps, rehydrations, resumes and what the background thread does. -/
def Pass : Operation → Prop
  | resumeWorkflow _ | sweep _ _ | rehydrateRun _ | expireWaitTimeouts => True
  | cancelRun | startGraph _ _ | deliverEvent _ _ _ _ _ | markWaiting _ | scheduleRetry _ => False

end Operation

/-- A run that waits for a schedule. -/
def Scheduled (record : WorkflowRunRecord) (wait : WorkflowWaitRecord) : Prop :=
  record.status = .waiting ∧ record.wait = some wait ∧ wait.onTimeout = .resume

/-- The call executes the run, or leaves it waiting. -/
def NotStranded (around : Surroundings) (op : Operation) (stored : Option WorkflowRunRecord) : Prop :=
  ∀ record ∈ stored, ∀ wait, Scheduled record wait →
    (op.program.runAlone around stored false).2 = true ∨
      ∃ record' ∈ (op.program.runAlone around stored false).1, Scheduled record' wait

/-- Nothing keeps `resume_workflow` from executing a run that it has released. -/
def Executable (around : Surroundings) (checkpoint : Option String) (record : WorkflowRunRecord) : Prop :=
  record.compensated = false ∧ record.Claimable around.claimedAt ∧ around.answer .stateFound = true ∧
    (around.answer .graphRegistered = true ∨ around.answer .graphRebuilt = true) ∧
    (checkpoint.isSome = true → around.answer .checkpointFound = true)

/-- If the call releases the run, it can execute it. -/
def Able (around : Surroundings) (op : Operation) (stored : Option WorkflowRunRecord) : Prop :=
  ∀ record ∈ stored, ∀ wait, Scheduled record wait → WorkflowRunRecord.TimedOut wait around.now →
    match op with
    | .resumeWorkflow call => Executable around call.checkpoint record
    | .sweep _ _ => around.answer .vmAvailable = true ∧ Executable around none record
    | _ => True

section alone

variable {around : Surroundings} {record : WorkflowRunRecord} {wait : WorkflowWaitRecord} {call : Program.ResumeCall}

namespace Program

theorem runAlone_executed (p : Program) (stored : Option WorkflowRunRecord) : (p.runAlone around stored true).2 = true := by
  induction p generalizing stored with
  | done => rfl
  | getRun next ih => exact ih _ _ _
  | saveRun seen change next ih => exact ih _
  | createRun record next ih => exact ih _
  | claimRun owner expectedStatuses next ih =>
      unfold runAlone
      split
      · exact ih _ _
      · exact ih _ _
  | releaseClaim token next ih => exact ih _
  | ask question next ih => exact ih _ _
  | execute watched next ih => exact ih _ _

theorem executeResumed_executed (claim : WorkflowClaim) (watched : Bool) (next : Program)
    (stored : Option WorkflowRunRecord) (executed : Bool) :
    ((executeResumed call claim watched next).runAlone around stored executed).2 = true := by
  cases stored with
  | none => exact runAlone_executed _ _
  | some record => exact runAlone_executed _ _

/-- What a resume finds that has the claim, so that it executes the graph. -/
structure Finds (around : Surroundings) (call : ResumeCall) (seen : WorkflowRunRecord) : Prop where
  state : around.answer .stateFound = true
  notWaiting : ¬ (call.checkpoint.isSome = true ∧ call.withPayload = false ∧ call.eventType = none ∧
    seen.status = .waiting ∧ around.answer .stateWaiting = true)
  graph : around.answer .graphRegistered = true ∨ around.answer .graphRebuilt = true
  checkpoint : call.checkpoint.isSome = true → around.answer .checkpointFound = true

theorem resumeAt_cases (around : Surroundings) (call : ResumeCall) (claim : WorkflowClaim) (watched : Bool) (next : Program) (stored : Option WorkflowRunRecord)
    (executed : Bool) :
    (call.checkpoint.isSome = true → around.answer .checkpointFound = true) ∧
        ((resumeAt call claim watched next).runAlone around stored executed).2 = true ∨
      ¬ (call.checkpoint.isSome = true → around.answer .checkpointFound = true) ∧
        (resumeAt call claim watched next).runAlone around stored executed =
          (releaseClaim claim.token next).runAlone around stored executed := by
  unfold resumeAt
  split
  · next hcheckpoint =>
      cases hfound : around.answer .checkpointFound with
      | true =>
          refine .inl ⟨fun _ => rfl, ?_⟩
          simp only [runAlone, hfound, if_true]
          exact executeResumed_executed claim watched next stored executed
      | false =>
          refine .inr ⟨fun h => Bool.false_ne_true (h hcheckpoint), ?_⟩
          simp only [runAlone, hfound, Bool.false_eq_true, if_false]
  · next hcheckpoint =>
      exact .inl ⟨fun h => absurd h hcheckpoint, executeResumed_executed claim watched next stored executed⟩

theorem resumeGraph_cases (around : Surroundings) (call : ResumeCall) (claim : WorkflowClaim) (next : Program) (stored : Option WorkflowRunRecord) (executed : Bool) :
    ((around.answer .graphRegistered = true ∨ around.answer .graphRebuilt = true) ∧
          (call.checkpoint.isSome = true → around.answer .checkpointFound = true)) ∧
        ((resumeGraph call claim next).runAlone around stored executed).2 = true ∨
      ¬ ((around.answer .graphRegistered = true ∨ around.answer .graphRebuilt = true) ∧
          (call.checkpoint.isSome = true → around.answer .checkpointFound = true)) ∧
        (resumeGraph call claim next).runAlone around stored executed =
          (releaseClaim claim.token next).runAlone around stored executed := by
  unfold resumeGraph
  cases hregistered : around.answer .graphRegistered with
  | true =>
      simp only [runAlone, hregistered, if_true, true_or, true_and]
      exact resumeAt_cases around call claim _ next stored executed
  | false =>
      cases hrebuilt : around.answer .graphRebuilt with
      | true =>
          simp only [runAlone, hregistered, hrebuilt, Bool.false_eq_true, if_false, if_true, or_true, true_and]
          exact resumeAt_cases around call claim false next stored executed
      | false =>
          right
          simp only [runAlone, hregistered, hrebuilt, Bool.false_eq_true, if_false, or_false, false_and, not_false_eq_true,
            true_and]

/-- With the claim a resume executes the graph, or gives the claim back and does nothing else. -/
theorem resumeClaimed_cases (around : Surroundings) (call : ResumeCall) (seen : WorkflowRunRecord) (claim : WorkflowClaim) (next : Program)
    (stored : Option WorkflowRunRecord) (executed : Bool) :
    Finds around call seen ∧ ((resumeClaimed call seen claim next).runAlone around stored executed).2 = true ∨
      ¬ Finds around call seen ∧ (resumeClaimed call seen claim next).runAlone around stored executed =
        (releaseClaim claim.token next).runAlone around stored executed := by
  have hgraph := resumeGraph_cases around call claim next stored executed
  unfold resumeClaimed
  cases hstate : around.answer .stateFound with
  | false =>
      refine .inr ⟨fun h => Bool.false_ne_true (hstate.symm.trans h.state), ?_⟩
      simp only [runAlone, hstate, if_true]
  | true =>
      simp only [runAlone, hstate, Bool.true_eq_false, if_false]
      split
      · next hcheckpoint =>
          cases hwaiting : around.answer .stateWaiting with
          | true =>
              refine .inr ⟨fun h => h.notWaiting ⟨hcheckpoint.1, hcheckpoint.2.1, hcheckpoint.2.2.1, hcheckpoint.2.2.2, hwaiting⟩, ?_⟩
              simp only [runAlone, hwaiting, if_true]
          | false =>
              simp only [runAlone, hwaiting, Bool.false_eq_true, if_false]
              refine hgraph.imp (And.imp_left fun h => ⟨hstate, fun hw => ?_, h.1, h.2⟩)
                (And.imp_left fun h hfinds => h ⟨hfinds.graph, hfinds.checkpoint⟩)
              exact Bool.false_ne_true (hwaiting.symm.trans hw.2.2.2.2)
      · next hcheckpoint =>
          refine hgraph.imp (And.imp_left fun h => ⟨hstate, fun hw => ?_, h.1, h.2⟩)
            (And.imp_left fun h hfinds => h ⟨hfinds.graph, hfinds.checkpoint⟩)
          exact hcheckpoint ⟨hw.1, hw.2.1, hw.2.2.1, hw.2.2.2.1⟩

theorem releaseClaim_kept (around : Surroundings) (token : Nat) (record : WorkflowRunRecord) (executed : Bool) :
    ∃ record', (releaseClaim token done).runAlone around (some record) executed = (some record', executed) ∧
      record'.status = record.status ∧ record'.wait = record.wait := by
  refine ⟨(record.releaseClaim (some token) around.now).getD record, rfl, ?_⟩
  unfold WorkflowRunRecord.releaseClaim
  split
  · exact ⟨rfl, rfl⟩
  · exact ⟨rfl, rfl⟩

theorem claimRun_cases (around : Surroundings) (owner : String) (expectedStatuses : List RunStatus) (next : Option WorkflowClaim → Program)
    (record : WorkflowRunRecord) (executed : Bool) :
    ¬ (record.status ∈ expectedStatuses ∧ record.Claimable around.claimedAt) ∧
        (claimRun owner expectedStatuses next).runAlone around (some record) executed =
          (next none).runAlone around (some record) executed ∨
      (record.status ∈ expectedStatuses ∧ record.Claimable around.claimedAt) ∧
        ∃ claim record', record'.status = record.status ∧ record'.wait = record.wait ∧
          (claimRun owner expectedStatuses next).runAlone around (some record) executed =
            (next (some claim)).runAlone around (some record') executed := by
  by_cases h : record.status ∈ expectedStatuses ∧ record.Claimable around.claimedAt
  · right
    let claim : WorkflowClaim := ⟨around.token, owner, some (around.claimedAt + around.ttl)⟩
    refine ⟨h, claim, { record with claim := some claim, updatedAt := some around.claimedAt }, rfl, rfl, ?_⟩
    rw [runAlone]
    simp only [Option.bind_some, WorkflowRunRecord.claimRun, if_pos h]
    rfl
  · left
    refine ⟨h, ?_⟩
    rw [runAlone]
    simp only [Option.bind_some, WorkflowRunRecord.claimRun, if_neg h]

/-- A run that has been released is executed if nothing is in the way, and has no wait otherwise. -/
theorem resumeUnexpired_released (around : Surroundings) (call : ResumeCall) {record : WorkflowRunRecord} (hstatus : record.status = .running) (hwait : record.wait = none) :
    Executable around call.checkpoint record ∧
        ((resumeUnexpired call done).runAlone around (some record) false).2 = true ∨
      ¬ Executable around call.checkpoint record ∧
        ∃ record', (resumeUnexpired call done).runAlone around (some record) false = (some record', false) ∧
          record'.wait = none := by
  have hchecked : (resumeUnexpired call done).runAlone around (some record) false =
      (resumeChecked call record done).runAlone around (some record) false := by
    unfold resumeUnexpired
    rw [runAlone]
    simp only [hstatus, reduceCtorEq, if_false]
  rw [hchecked]
  unfold resumeChecked
  cases hcompensated : record.compensated with
  | true =>
      refine .inr ⟨fun h => Bool.false_ne_true (h.1.symm.trans hcompensated), record, ?_, hwait⟩
      simp only [if_true]
      rfl
  | false =>
      simp only [Bool.false_eq_true, if_false, hstatus, reduceCtorEq]
      rcases claimRun_cases around call.owner RunStatus.resumable _ record false with
        ⟨hnot, he⟩ | ⟨hclaimable, claim, record', -, hwait', he⟩
      · rw [he]
        refine .inr ⟨fun h => hnot ⟨?_, h.2.1⟩, record, rfl, hwait⟩
        rw [hstatus]
        decide
      · rw [he]
        rcases resumeClaimed_cases around call record claim done (some record') false with
          ⟨hfinds, hexecuted⟩ | ⟨hnot, he'⟩
        · exact .inl ⟨⟨hcompensated, hclaimable.2, hfinds.state, hfinds.graph, hfinds.checkpoint⟩, hexecuted⟩
        · right
          refine ⟨fun h => hnot ⟨h.2.2.1, fun hw => ?_, h.2.2.2.1, h.2.2.2.2⟩, ?_⟩
          · rw [hstatus] at hw
            exact absurd hw.2.2.2.1 (by decide)
          · obtain ⟨record'', hrun, -, hwait''⟩ := releaseClaim_kept around claim.token record' false
            exact ⟨record'', he'.trans hrun, hwait''.trans (hwait'.trans hwait)⟩

theorem resumeUnexpired_waiting (h : Scheduled record wait) :
    ((resumeUnexpired call done).runAlone around (some record) false).2 = true ∨
      ∃ record' ∈ ((resumeUnexpired call done).runAlone around (some record) false).1, Scheduled record' wait := by
  obtain ⟨hstatus, hwait, hpolicy⟩ := h
  have hself : ∃ record' ∈ (done.runAlone around (some record) false).1, Scheduled record' wait :=
    ⟨record, rfl, hstatus, hwait, hpolicy⟩
  have hchecked : (resumeUnexpired call done).runAlone around (some record) false =
      (resumeChecked call record done).runAlone around (some record) false := by
    unfold resumeUnexpired
    rw [runAlone]
    simp only [hstatus, reduceCtorEq, if_false]
  rw [hchecked]
  unfold resumeChecked
  simp only [hstatus, if_true]
  split
  · exact .inr hself
  · split
    · rw [runAlone]
      split
      · unfold claimWaitingRun
        rw [runAlone]
        simp only []
        split
        · rcases claimRun_cases around call.owner [.waiting] _ record false with
            ⟨-, he⟩ | ⟨-, claim, record', hstatus', hwait', he⟩
          · rw [he]
            exact .inr hself
          · rw [he]
            rcases resumeClaimed_cases around call record claim done (some record') false with
              ⟨-, hexecuted⟩ | ⟨-, he'⟩
            · exact .inl hexecuted
            · obtain ⟨record'', hrun, hstatus'', hwait''⟩ := releaseClaim_kept around claim.token record' false
              right
              rw [he', hrun]
              exact ⟨record'', rfl, hstatus''.trans (hstatus'.trans hstatus), hwait''.trans (hwait'.trans hwait), hpolicy⟩
        · exact .inr hself
      · exact .inr hself
    · exact .inr hself

theorem expire_scheduled (h : Scheduled record wait) (now : Nat) (releaseSchedules : Bool) :
    record.expireWaitTimeout now .deadLettered releaseSchedules =
      if WorkflowRunRecord.TimedOut wait now ∧ releaseSchedules = true then some (record.clearWait .running) else none := by
  obtain ⟨hstatus, hwait, hpolicy⟩ := h
  unfold WorkflowRunRecord.expireWaitTimeout
  rw [hwait]
  simp only [hstatus, hpolicy, true_and, if_true]
  by_cases hdue : WorkflowRunRecord.TimedOut wait now
  · cases releaseSchedules with
    | true => rw [if_pos hdue, if_pos rfl, if_pos ⟨hdue, rfl⟩]
    | false => rw [if_pos hdue, if_neg Bool.false_ne_true, if_neg fun h => Bool.false_ne_true h.2]
  · rw [if_neg hdue, if_neg fun h => hdue h.1]

theorem expireWaitTimeout_scheduled (around : Surroundings) (h : Scheduled record wait) (releaseSchedules : Bool)
    (next : Option WorkflowRunRecord → Program) (executed : Bool) :
    (expireWaitTimeout releaseSchedules next).runAlone around (some record) executed =
      if WorkflowRunRecord.TimedOut wait around.now ∧ releaseSchedules = true then
        (next (some (record.clearWait .running))).runAlone around
          (some ((record.clearWait .running).saved around.now)) executed
      else (next none).runAlone around (some record) executed := by
  have hexpire := expire_scheduled h around.now releaseSchedules
  unfold expireWaitTimeout
  rw [runAlone]
  simp only []
  by_cases hdue : WorkflowRunRecord.TimedOut wait around.now ∧ releaseSchedules = true
  · rw [if_pos hdue] at hexpire ⊢
    rw [hexpire]
    simp only [runAlone, Change.apply, hexpire, Option.getD_some]
  · rw [if_neg hdue] at hexpire ⊢
    rw [hexpire]

theorem resumeWorkflow_released (hwait : record.wait = none) (executed : Bool) :
    (resumeWorkflow call done).runAlone around (some record) executed =
      (resumeUnexpired call done).runAlone around (some record) executed := by
  unfold resumeWorkflow expireWaitTimeout
  rw [runAlone]
  simp only [WorkflowRunRecord.expireWaitTimeout, hwait, Option.map_none, reduceCtorEq, if_false]

theorem rehydrateRun_waiting (h : Scheduled record wait) (owner : String) (executed : Bool) :
    ∃ kept ∈ ((rehydrateRun owner done).runAlone around (some record) executed).1, Scheduled kept wait := by
  obtain ⟨hstatus, hwait, hpolicy⟩ := h
  unfold rehydrateRun
  rcases claimRun_cases around owner RunStatus.claimable _ record executed with
    ⟨-, he⟩ | ⟨-, claim, kept, hstatus', hwait', he⟩
  · rw [he]
    exact ⟨record, rfl, hstatus, hwait, hpolicy⟩
  · rw [he]
    have hs : Scheduled kept wait := ⟨hstatus'.trans hstatus, hwait'.trans hwait, hpolicy⟩
    have hreleased : ∀ x : WorkflowRunRecord, Scheduled x wait →
        ∃ kept ∈ ((releaseClaim claim.token done).runAlone around (some x) executed).1, Scheduled kept wait := by
      intro x hx
      obtain ⟨x', hrun, hstatus', hwait'⟩ := releaseClaim_kept around claim.token x executed
      rw [hrun]
      exact ⟨x', rfl, hstatus'.trans hx.1, hwait'.trans hx.2.1, hx.2.2⟩
    have hsaved : ∀ x : WorkflowRunRecord, x.status = kept.status → x.wait = kept.wait →
        Scheduled (x.saved around.now) wait := fun x hx hx' => ⟨hx.trans hs.1, hx'.trans hs.2.1, hs.2.2⟩
    simp only []
    rw [expireWaitTimeout_scheduled around hs, if_neg fun h => Bool.false_ne_true h.2]
    simp only [Option.map_none, reduceCtorEq, if_false]
    rw [runAlone]
    simp only [hs.1]
    rw [if_pos (by decide), runAlone]
    split
    · rw [runAlone]
      split
      · rw [runAlone]
        exact hreleased _ (hsaved { kept with rehydratedAt := some around.now, rehydratedStatus := some kept.status } rfl rfl)
      · rw [runAlone]
        split
        · rw [runAlone]
          exact hreleased _ (hsaved { kept with rehydratedAt := some around.now, rehydratedStatus := some kept.status } rfl rfl)
        · rw [runAlone]
          exact hreleased _ (hsaved { kept with
            lastError := some s!"Failed to rehydrate workflow run '{kept.runId}'" } rfl rfl)
    · exact hreleased kept hs

theorem resumeWorkflow_scheduled (h : Scheduled record wait) :
    (((resumeWorkflow call done).runAlone around (some record) false).2 = true ∨
        ∃ record' ∈ ((resumeWorkflow call done).runAlone around (some record) false).1, Scheduled record' wait) ↔
      (WorkflowRunRecord.TimedOut wait around.now → Executable around call.checkpoint record) := by
  have hexpire := expireWaitTimeout_scheduled around h true (fun expired =>
    if expired.map WorkflowRunRecord.status = some .deadLettered then done else resumeUnexpired call done) false
  by_cases hdue : WorkflowRunRecord.TimedOut wait around.now
  · rw [if_pos ⟨hdue, rfl⟩] at hexpire
    have he : (resumeWorkflow call done).runAlone around (some record) false =
        (resumeUnexpired call done).runAlone around (some ((record.clearWait .running).saved around.now)) false :=
      hexpire.trans (by simp only [WorkflowRunRecord.clearWait, Option.map_some, Option.some.injEq, reduceCtorEq, if_false])
    rw [he]
    have hreleased : ((record.clearWait .running).saved around.now).status = .running ∧
        ((record.clearWait .running).saved around.now).wait = none := ⟨rfl, rfl⟩
    rcases resumeUnexpired_released around call hreleased.1 hreleased.2 with ⟨hexecutable, hexecuted⟩ | ⟨hnot, record', hrun, hnone⟩
    · exact ⟨fun _ _ => hexecutable, fun _ => .inl hexecuted⟩
    · refine ⟨fun hkept => ?_, fun hable => absurd (hable hdue) hnot⟩
      rw [hrun] at hkept
      rcases hkept with hexecuted | ⟨record'', hrecord'', -, hwait, -⟩
      · cases hexecuted
      · obtain rfl := Option.some.inj hrecord''
        rw [hnone] at hwait
        cases hwait
  · rw [if_neg fun hd => hdue hd.1] at hexpire
    have he : (resumeWorkflow call done).runAlone around (some record) false =
        (resumeUnexpired call done).runAlone around (some record) false :=
      hexpire.trans (by simp only [Option.map_none, reduceCtorEq, if_false])
    rw [he]
    exact ⟨fun _ hd => absurd hd hdue, fun _ => resumeUnexpired_waiting h⟩

theorem sweepRetry_released (owner : String) (nowMs : Option Nat) (hvm : around.answer .vmAvailable = false)
    (hstatus : record.status = .running) (executed : Bool) :
    (sweepRetry owner nowMs).runAlone around (some record) executed = (some record, executed) := by
  have hretry : ¬ record.RetryDue (nowMs.getD around.now) := fun h => nomatch hstatus.symm.trans h.1
  have hadopted : record.status ∈ RunStatus.rehydratable := by
    rw [hstatus]
    decide
  unfold sweepRetry
  rw [runAlone]
  simp only [hretry, if_false]
  unfold sweepAdopt
  rw [runAlone]
  simp only [hadopted, if_true]
  rw [runAlone]
  split
  · rw [runAlone, hvm]
    rfl
  · rfl

theorem sweepRetry_waiting (owner : String) (nowMs : Option Nat) (h : Scheduled record wait) (executed : Bool) :
    ∃ record' ∈ ((sweepRetry owner nowMs).runAlone around (some record) executed).1, Scheduled record' wait := by
  have hself : ∃ record' ∈ (done.runAlone around (some record) executed).1, Scheduled record' wait := ⟨record, rfl, h⟩
  have hretry : ¬ record.RetryDue (nowMs.getD around.now) := fun hretry => nomatch h.1.symm.trans hretry.1
  have hadopted : record.status ∈ RunStatus.rehydratable := by
    rw [h.1]
    decide
  unfold sweepRetry
  rw [runAlone]
  simp only [hretry, if_false]
  unfold sweepAdopt
  rw [runAlone]
  simp only [hadopted, if_true]
  rw [runAlone]
  split
  · rw [runAlone]
    split
    · exact rehydrateRun_waiting h owner executed
    · exact hself
  · exact hself

theorem sweep_eq (owner : String) (nowMs : Option Nat) (h : Scheduled record wait) :
    (sweep owner nowMs).runAlone around (some record) false =
      if WorkflowRunRecord.TimedOut wait around.now then
        (if around.answer .vmAvailable then resumeWorkflow { owner, nowMs } done else sweepRetry owner nowMs).runAlone around
          (some ((record.clearWait .running).saved around.now)) false
      else (sweepRetry owner nowMs).runAlone around (some record) false := by
  unfold sweep expireWaitTimeouts
  rw [runAlone]
  simp only [h.1, if_true]
  rw [expireWaitTimeout_scheduled around h]
  by_cases hdue : WorkflowRunRecord.TimedOut wait around.now
  · rw [if_pos ⟨hdue, rfl⟩, if_pos hdue]
    simp only [WorkflowRunRecord.clearWait, reduceCtorEq, if_false]
    rw [runAlone]
  · rw [if_neg fun hd => hdue hd.1, if_neg hdue]

theorem sweep_scheduled (owner : String) (nowMs : Option Nat) (h : Scheduled record wait) :
    (((sweep owner nowMs).runAlone around (some record) false).2 = true ∨
        ∃ record' ∈ ((sweep owner nowMs).runAlone around (some record) false).1, Scheduled record' wait) ↔
      (WorkflowRunRecord.TimedOut wait around.now → around.answer .vmAvailable = true ∧ Executable around none record) := by
  have hnot : ∀ record' : WorkflowRunRecord, record'.wait = none →
      ¬ ((some record', false).2 = true ∨ ∃ x ∈ (some record', false).1, Scheduled x wait) := by
    rintro record' hnone (hexecuted | ⟨x, hx, -, hwait, -⟩)
    · cases hexecuted
    · obtain rfl := Option.some.inj hx
      exact absurd (hnone.symm.trans hwait) (by simp)
  rw [sweep_eq owner nowMs h]
  by_cases hdue : WorkflowRunRecord.TimedOut wait around.now
  · rw [if_pos hdue]
    cases hvm : around.answer .vmAvailable with
    | false =>
        rw [if_neg Bool.false_ne_true, sweepRetry_released owner nowMs hvm rfl]
        exact ⟨fun hkept => absurd hkept (hnot _ rfl), fun hable => absurd (hable hdue).1 Bool.false_ne_true⟩
    | true =>
        rw [if_pos rfl, resumeWorkflow_released rfl]
        have hreleased : ((record.clearWait .running).saved around.now).status = .running ∧
            ((record.clearWait .running).saved around.now).wait = none := ⟨rfl, rfl⟩
        rcases resumeUnexpired_released around { owner, nowMs } hreleased.1 hreleased.2 with
          ⟨hexecutable, hexecuted⟩ | ⟨hunable, record', hrun, hnone⟩
        · exact ⟨fun _ _ => ⟨rfl, hexecutable⟩, fun _ => .inl hexecuted⟩
        · rw [hrun]
          exact ⟨fun hkept => absurd hkept (hnot record' hnone), fun hable => absurd (hable hdue).2 hunable⟩
  · rw [if_neg hdue]
    exact ⟨fun _ hd => absurd hd hdue, fun _ => .inr (sweepRetry_waiting owner nowMs h false)⟩

theorem expireWaitTimeouts_waiting (h : Scheduled record wait) :
    ∃ record' ∈ ((expireWaitTimeouts false fun _ => done).runAlone around (some record) false).1, Scheduled record' wait := by
  unfold expireWaitTimeouts
  rw [runAlone]
  simp only [h.1, if_true]
  rw [expireWaitTimeout_scheduled around h, if_neg fun hd => Bool.false_ne_true hd.2]
  exact ⟨record, rfl, h⟩

end Program

/-! ### Sequences of calls -/

/-- One call leaves a run that waits for a schedule executed or waiting if and only if it can execute what it releases. -/
theorem notStranded_iff_able {op : Operation} (hpass : op.Pass) (stored : Option WorkflowRunRecord) :
    NotStranded around op stored ↔ Able around op stored := by
  unfold NotStranded Able
  refine forall_congr' fun record => forall_congr' fun hrecord => forall_congr' fun wait => forall_congr' fun h => ?_
  obtain rfl := Option.mem_def.mp hrecord
  cases op with
  | resumeWorkflow call => exact Program.resumeWorkflow_scheduled h
  | sweep owner nowMs => exact Program.sweep_scheduled owner nowMs h
  | rehydrateRun owner => exact ⟨fun _ _ => trivial, fun _ => .inr (Program.rehydrateRun_waiting h owner false)⟩
  | expireWaitTimeouts => exact ⟨fun _ _ => trivial, fun _ => .inr (Program.expireWaitTimeouts_waiting h)⟩
  | cancelRun => exact hpass.elim
  | startGraph owner record => exact hpass.elim
  | deliverEvent owner eventType correlationKey withPayload nowMs => exact hpass.elim
  | markWaiting wait => exact hpass.elim
  | scheduleRetry retry => exact hpass.elim

/-- A call of an operation with what it finds around it. -/
structure Call where
  around : Surroundings
  op : Operation

/-- The record after calls that are made one after the other. -/
def afterCalls (stored : Option WorkflowRunRecord) (calls : List Call) : Option WorkflowRunRecord :=
  calls.foldl (fun stored call => (call.op.program.runAlone call.around stored false).1) stored

def scheduledRun : WorkflowRunRecord :=
  { runId := "run"
    status := .waiting
    wait := some { eventType := "timer", registeredAt := some storeTimeFloorMs, deadlineMs := some 1000, onTimeout := .resume } }

def sweepCall (available : Bool) : Call where
  around :=
    { now := storeTimeFloorMs + 2000
      claimedAt := storeTimeFloorMs + 2000
      token := 0
      ttl := 30000
      answer := fun question => if question = .vmAvailable then available else true
      result := some { outcome := .completed } }
  op := .sweep "vm:1" none

end alone

end Nodus.Workflow
