import Nodus.StateRuns
import Nodus.TaskWaits

/-! The handlers that undo completed steps when a run fails. They are called in the reverse of the order that the completion numbers
of the tasks say. -/

namespace Nodus.Orchestration

namespace Run

/-- The body of a task that completes, with what the task returns. One that parks at a wait has completed with nil. -/
def completes (s : Run) : Act → Option (TaskId × Value)
  | .ends _ flight ending _ =>
      if s.crashed then none
      else match ending with
        | .returned v => (s.taskOf flight).map (·, v)
        | .errorValue v => if s.flow then none else (s.taskOf flight).map (·, v)
        | .waits => (s.taskOf flight).map (·, .nil)
        | .raised => none
  | .turn _ _ | .checkpoint _ | .cached _ _ => none

/-- The body parks at a wait. -/
def Parks : Act → Prop
  | .ends _ _ .waits _ => True
  | _ => False

instance : (act : Act) → Decidable (Parks act)
  | .ends _ _ .waits _ => isTrue trivial
  | .ends _ _ (.returned _) _ | .ends _ _ (.errorValue _) _ | .ends _ _ .raised _ | .turn _ _ | .checkpoint _
  | .cached _ _ => isFalse id

/-- `_fail_task` comes to the end of its last branch. -/
def failsRun (s : Run) : Act → Bool
  | .ends thread flight ending swept => !s.failed && (s.perform (.ends thread flight ending swept)).failed
  | .turn _ _ | .checkpoint _ | .cached _ _ => false

end Run

/-- What is recorded of a handler: which it is, whose effects it undoes, what it has been given, and what has come of it. -/
structure CompensationRecord where
  step : String
  of : TaskId
  given : Value
  outcome : Except String Value

/-- A run with the completion numbers of its tasks. -/
structure Unwinding where
  run : Run
  /-- The handlers, by the step that they compensate. -/
  handlers : Nat → Option String
  completionSeq : TaskId → Option Nat := fun _ => none
  result : TaskId → Value := fun _ => .nil
  completionCounter : Nat := 0
  compensationPending : Bool := false
  /-- The run had failed before this execution of it began. -/
  failedBefore : Bool := false
  /-- The bodies that have completed in this execution and in the earlier ones, the latest first. -/
  bodies : List (TaskId × Value) := []
  past : List (TaskId × Value) := []

/-- What happens in a run that can be resumed. A graph that is rebuilt has new tasks; one that is still registered has those of
the last execution. -/
inductive UnwindingAct where
  | act (act : Act)
  | resume (rebuilt : Bool) (run : Run)

/-- The last completion of every task. -/
def latest : List (TaskId × Value) → List (TaskId × Value)
  | [] => []
  | p :: rest => p :: (latest rest).filter fun q => q.1 ≠ p.1

namespace Run

variable {s s' : Run} {t u : TaskId}

/-- An attempt fails for good, and this is not allowed. -/
def FailsForGood (s : Run) : Act → Prop
  | .ends _ flight ending _ => s.Fails ending ∧ ∃ t ∈ s.taskOf flight,
      (s.node t).maxRetries < (s.node t).attempts ∧ (s.node t).allowFailure = false
  | .turn _ _ | .checkpoint _ | .cached _ _ => False

instance (s : Run) : (act : Act) → Decidable (s.FailsForGood act)
  | .ends _ _ _ _ => inferInstanceAs (Decidable (_ ∧ ∃ t ∈ s.taskOf _, _))
  | .turn _ _ | .checkpoint _ | .cached _ _ => isFalse id

/-- A mapped task whose items are no list, or too many, and which is not allowed to fail. -/
def CannotExpand (s : Run) (t : TaskId) : Prop :=
  (s.node t).Mapped ∧ (s.node t).allowFailure = false ∧
    match ((s.node t).dependencies.find? fun dep => (s.node t).eachSource = some dep).bind s.results with
    | some (.list items) => maxMappedInstances < items.length
    | _ => True

instance (s : Run) (t : TaskId) : Decidable (s.CannotExpand t) := by
  unfold CannotExpand
  split
  · infer_instance
  · infer_instance

/-- `schedule_ready` comes to such a task. -/
def MapFails (s : Run) : Act → Prop
  | .turn thread _ => ∃ t ∈ s.next thread, s.guardHolds t = true ∧ s.CannotExpand t
  | .ends _ _ _ _ | .checkpoint _ | .cached _ _ => False

instance (s : Run) : (act : Act) → Decidable (s.MapFails act)
  | .turn _ _ => inferInstanceAs (Decidable (∃ t ∈ s.next _, _))
  | .ends _ _ _ _ | .checkpoint _ | .cached _ _ => isFalse id

/-! ### What a step of the run says of the verdict -/

theorem failed_of_failTask {thread : Nat} {swept : Bool} (h : (s.failTask thread t swept).failed = true) :
    s.failed = true ∨ (s.node t).maxRetries < (s.node t).attempts ∧ (s.node t).allowFailure = false := by
  unfold failTask at h
  split at h
  · split at h
    · exact .inl ((markPending_failed (s.setStatus t .retryScheduled) t).symm.trans h)
    · rw [failed_spawnTask, markPending_failed] at h
      exact .inl h
  · next hattempts =>
      split at h
      · exact .inl h
      · next hallow => exact .inr ⟨Nat.not_le.mp hattempts, Bool.eq_false_iff.mpr hallow⟩

theorem failed_of_expandMapped (h : (s.expandMapped t).failed = true) (hmapped : (s.node t).Mapped) :
    s.failed = true ∨ s.CannotExpand t := by
  have hconclude : (s.conclude t .failed).failed = true → s.failed = true ∨ (s.node t).allowFailure = false := fun h =>
    (Bool.or_eq_true_iff.mp h).imp_right fun hallow => (of_decide_eq_true hallow).2
  have hmany : ∀ items, ((s.node t).dependencies.find? fun dep => (s.node t).eachSource = some dep).bind s.results =
      some (.list items) → maxMappedInstances < items.length → (s.node t).allowFailure = false → s.CannotExpand t := by
    intro items hitems hmany hallow
    unfold CannotExpand
    rw [hitems]
    exact ⟨hmapped, hallow, hmany⟩
  have hnone : (∀ items, ((s.node t).dependencies.find? fun dep => (s.node t).eachSource = some dep).bind s.results ≠
      some (.list items)) → (s.node t).allowFailure = false → s.CannotExpand t := by
    intro hnone hallow
    refine ⟨hmapped, hallow, ?_⟩
    split
    · next items hitems => exact absurd hitems (hnone items)
    · exact trivial
  unfold expandMapped at h
  simp only [] at h
  split at h
  · next items hitems =>
      split at h
      · next hlength => exact (hconclude h).imp_right (hmany items hitems hlength)
      · split at h
        · left
          simpa [conclude] using h
        · exact .inl h
  · next hother => exact (hconclude h).imp_right (hnone hother)

theorem failed_of_turn {thread : Nat} {cancelled : Bool} (h : (s.turn thread cancelled).failed = true) :
    s.failed = true ∨ s.MapFails (.turn thread cancelled) := by
  unfold Run.turn at h
  split at h
  · exact .inl h
  · exact .inl h
  · next outer hframes =>
      split at h
      · left
        unfold Run.cancelInflight at h
        split at h
        · exact h
        · exact h
      · exact .inl ((settleMapped_eq Run.failed (fun _ _ _ => rfl) s).symm.trans h)
  · next t rest again outer hframes =>
      have hnext : s.next thread = some t := by
        unfold Run.next
        rw [hframes]
        rfl
      split at h
      · exact .inl h
      · next hguard =>
          split at h
          · next hmapped =>
              exact (failed_of_expandMapped h hmapped).imp_right fun hcannot => ⟨t, hnext, eq_true_of_ne_false hguard, hcannot⟩
          · rw [failed_spawnTask] at h
            exact .inl h

theorem completes_cases {act : Act} {p : TaskId × Value} (h : s.completes act = some p) :
    ∃ thread flight ending swept, act = .ends thread flight ending swept ∧ s.taskOf flight = some p.1 ∧ s.crashed = false ∧
      (ending = .waits ∧ p.2 = .nil ∨ ending = .returned p.2 ∨ ending = .errorValue p.2 ∧ s.flow = false) := by
  cases act with
  | turn thread cancelled => cases h
  | checkpoint label => cases h
  | cached key v => cases h
  | ends thread flight ending swept =>
      refine ⟨thread, flight, ending, swept, rfl, ?_⟩
      unfold completes at h
      simp only [] at h
      split at h
      · cases h
      · next hcrashed =>
          have hcrashed := Bool.eq_false_iff.mpr hcrashed
          cases ending with
          | raised => cases h
          | waits =>
              obtain ⟨t, ht, rfl⟩ := Option.map_eq_some_iff.mp h
              exact ⟨ht, hcrashed, .inl ⟨rfl, rfl⟩⟩
          | returned v =>
              obtain ⟨t, ht, rfl⟩ := Option.map_eq_some_iff.mp h
              exact ⟨ht, hcrashed, .inr (.inl rfl)⟩
          | errorValue v =>
              simp only [] at h
              split at h
              · cases h
              · next hflow =>
                  obtain ⟨t, ht, rfl⟩ := Option.map_eq_some_iff.mp h
                  exact ⟨ht, hcrashed, .inr (.inr ⟨rfl, Bool.eq_false_iff.mpr hflow⟩)⟩

/-- What a body that completes leaves. -/
structure Completed (s s' : Run) (t : TaskId) (v : Value) : Prop where
  results : s'.results t = some v
  failed : s'.failed = s.failed
  starts : s'.starts = s.starts
  crashed : s'.crashed = s.crashed

theorem completed_complete {thread flight : Nat} {v : Value} {swept : Bool} (hkey : ¬ s.KeyMissing t) :
    Completed s ((s.pop flight).complete thread t v swept) t v := by
  unfold complete
  simp only []
  rw [if_neg fun hmissing => hkey (keyMissing_of_record hmissing)]
  have hresult : Function.update s.results t (some v) t = some v := Function.update_self _ _ _
  unfold storeCached
  split
  · exact ⟨hresult, rfl, rfl, rfl⟩
  · exact ⟨hresult, rfl, rfl, rfl⟩

theorem completed_perform {act : Act} {p : TaskId × Value} (h : s.completes act = some p) (hkey : ¬ s.KeyMissing p.1) :
    Completed s (s.perform act) p.1 p.2 := by
  obtain ⟨thread, flight, ending, swept, rfl, htask, hcrashed, hending⟩ := completes_cases h
  unfold Run.perform
  rw [if_neg (by rw [hcrashed]; exact Bool.false_ne_true)]
  simp only [Run.ends, htask]
  rcases hending with ⟨rfl, hnil⟩ | rfl | ⟨rfl, hflow⟩
  · refine ⟨?_, rfl, rfl, rfl⟩
    show Function.update s.results p.1 (some .nil) p.1 = some p.2
    rw [Function.update_self, hnil]
  · exact completed_complete hkey
  · simp only [hflow]
    exact completed_complete hkey

theorem failed_of_perform {act : Act} (h : (s.perform act).failed = true) (hkey : ∀ p ∈ s.completes act, ¬ s.KeyMissing p.1) :
    s.failed = true ∨ s.FailsForGood act ∨ s.MapFails act := by
  cases hcompletes : s.completes act with
  | some p =>
      rw [(completed_perform hcompletes (hkey p hcompletes)).failed] at h
      exact .inl h
  | none =>
      unfold Run.perform at h
      split at h
      · exact .inl h
      · next hcrashed =>
          cases act with
          | turn thread cancelled => exact (failed_of_turn h).imp_right .inr
          | checkpoint label => exact .inl h
          | cached key v => exact .inl h
          | ends thread flight ending swept =>
              unfold completes at hcompletes
              simp only [] at hcompletes
              rw [if_neg hcrashed] at hcompletes
              simp only [Run.ends] at h
              cases htask : s.taskOf flight with
              | none =>
                  rw [htask] at h
                  exact .inl h
              | some t =>
                  rw [htask] at h hcompletes
                  have hfail : s.Fails ending → ((s.pop flight).failTask thread t swept).failed = true →
                      s.failed = true ∨ s.FailsForGood (.ends thread flight ending swept) ∨
                        s.MapFails (.ends thread flight ending swept) := fun hfails h =>
                    (failed_of_failTask h).imp_right fun hgood => .inl ⟨hfails, t, htask, hgood⟩
                  cases ending with
                  | waits => cases hcompletes
                  | returned v => cases hcompletes
                  | errorValue v =>
                      simp only [] at h hcompletes
                      split at hcompletes
                      · next hflow =>
                          rw [if_pos hflow] at h
                          exact hfail hflow h
                      · cases hcompletes
                  | raised => exact hfail trivial h

theorem failed_complete {thread : Nat} {v : Value} {swept : Bool} (h : s.failed = true) :
    (s.complete thread t v swept).failed = true := by
  unfold complete
  simp only []
  split
  · split
    · by_contra hcalm
      have hrecord : (s.record t v).failed = false := failed_failTask _ thread t swept (Bool.eq_false_iff.mpr hcalm)
      exact Bool.false_ne_true (hrecord.symm.trans h)
    · exact h
  · unfold storeCached
    split
    · exact h
    · exact h

theorem failed_perform (h : s.failed = true) (act : Act) : (s.perform act).failed = true := by
  unfold Run.perform
  split
  · exact h
  · cases act with
    | checkpoint label => exact h
    | cached key v => exact h
    | ends thread flight ending swept =>
        simp only [Run.ends]
        split
        · exact h
        · next t htask =>
            have hpop : (s.pop flight).failed = true := h
            have hfail : ((s.pop flight).failTask thread t swept).failed = true := by
              by_contra hcalm
              have hcalm := failed_failTask _ thread t swept (Bool.eq_false_iff.mpr hcalm)
              exact Bool.false_ne_true (hcalm.symm.trans hpop)
            cases ending with
            | waits => exact h
            | returned v => exact failed_complete hpop
            | errorValue v =>
                simp only []
                split
                · exact hfail
                · exact failed_complete hpop
            | raised => exact hfail
    | turn thread cancelled =>
        simp only [Run.turn]
        split
        · exact h
        · exact h
        · split
          · unfold Run.cancelInflight
            split
            · exact h
            · exact h
          · exact (settleMapped_eq Run.failed (fun _ _ _ => rfl) s).trans h
        · next t rest again outer _ =>
            split
            · exact h
            · split
              · show (s.expandMapped t).failed = true
                unfold Run.expandMapped
                simp only []
                have hconclude : ∀ status, (s.conclude t status).failed = true := fun status => by
                  show (s.failed || _) = true
                  rw [h, Bool.true_or]
                split
                · split
                  · exact hconclude .failed
                  · split
                    · exact hconclude .skipped
                    · exact h
                · exact hconclude .failed
              · exact (failed_spawnTask _ thread t).trans h

theorem crashed_spawnTask (s : Run) (thread : Nat) (t : TaskId) : (s.spawnTask thread t).crashed = s.crashed := by
  unfold spawnTask
  split
  · rfl
  · split
    · rfl
    · split
      · rfl
      · rfl

theorem markPending_crashed (s : Run) (t : TaskId) : (s.markPending t).crashed = s.crashed := by
  unfold markPending
  split
  · rfl
  · rfl

theorem crashed_failTask (s : Run) (thread : Nat) (t : TaskId) (swept : Bool) :
    (s.failTask thread t swept).crashed = s.crashed := by
  unfold failTask
  split
  · split
    · exact markPending_crashed (s.setStatus t .retryScheduled) t
    · rw [crashed_spawnTask, markPending_crashed]
      rfl
  · split
    · rfl
    · split
      · rfl
      · rfl

theorem crashed_perform (h : s.crashed = false) {act : Act} (hkey : ∀ p ∈ s.completes act, ¬ s.KeyMissing p.1) :
    (s.perform act).crashed = false := by
  cases hcompletes : s.completes act with
  | some p => exact (completed_perform hcompletes (hkey p hcompletes)).crashed.trans h
  | none =>
      unfold Run.perform
      rw [if_neg (by rw [h]; exact Bool.false_ne_true)]
      cases act with
      | checkpoint label => exact h
      | cached key v => exact h
      | ends thread flight ending swept =>
          simp only [Run.ends]
          unfold completes at hcompletes
          simp only [h] at hcompletes
          split
          · exact h
          · next t htask =>
              rw [htask] at hcompletes
              have hfail : ((s.pop flight).failTask thread t swept).crashed = false := (crashed_failTask _ thread t swept).trans h
              cases ending with
              | waits => exact h
              | returned v => cases hcompletes
              | errorValue v =>
                  simp only []
                  split
                  · exact hfail
                  · next hflow =>
                      simp only [hflow] at hcompletes
                      cases hcompletes
              | raised => exact hfail
      | turn thread cancelled =>
          simp only [Run.turn]
          split
          · exact h
          · exact h
          · split
            · unfold Run.cancelInflight
              split
              · exact h
              · exact h
            · exact (settleMapped_eq Run.crashed (fun _ _ _ => rfl) s).trans h
          · next t rest again outer _ =>
              split
              · exact h
              · split
                · show (s.expandMapped t).crashed = false
                  unfold Run.expandMapped
                  simp only []
                  split
                  · split
                    · exact h
                    · split
                      · exact h
                      · exact h
                  · exact h
                · exact (crashed_spawnTask _ thread t).trans h

theorem Sound.results_kept (h : s.Sound) {act : Act} (hfits : s.Fits act) (hr : s.results t ≠ none) :
    (s.perform act).view t = s.view t := by
  refine (settles_perform h act hfits).view t (h.inactive (k := .completed) ?_ (by decide))
  unfold kind
  rw [if_pos (Option.isSome_iff_ne_none.mpr hr)]

theorem starts_perform (s : Run) (act : Act) (hfits : s.Fits act) :
    (s.perform act).starts = s.starts ∨ ∃ u, (s.perform act).starts = u :: s.starts := by
  unfold Run.perform
  split
  · exact .inl rfl
  · cases act with
    | turn thread cancelled =>
        rcases starts_turn s thread cancelled with hsame | ⟨u, _, _, _, _, hnew⟩
        · exact .inl hsame
        · exact .inr ⟨u, hnew.1⟩
    | ends thread flight ending swept =>
        rcases starts_ends s thread flight ending swept hfits with hsame | ⟨u, -, hnew, -⟩
        · exact .inl hsame
        · exact .inr ⟨u, hnew⟩
    | checkpoint label => exact .inl rfl
    | cached key v => exact .inl rfl

theorem Sound.started_ne (h : s.Sound) {act : Act} (hfits : s.Fits act) (hr : s.results t ≠ none) :
    s.started (s.perform act) ≠ some t := by
  intro hstarted
  have hcount : (s.perform act).starts.count t = s.starts.count t := congrArg View.starts (h.results_kept hfits hr)
  rcases starts_perform s act hfits with hsame | ⟨u, hnew⟩
  · unfold Run.started at hstarted
    rw [hsame, if_pos rfl] at hstarted
    cases hstarted
  · unfold Run.started at hstarted
    rw [hnew, if_neg (by simp)] at hstarted
    obtain rfl : u = t := Option.some.inj hstarted
    rw [hnew, List.count_cons_self] at hcount
    exact Nat.succ_ne_self _ hcount

theorem Sound.nodup_tasks (h : s.Sound) {act : Act} (hfits : s.Fits act) (hnodup : s.tasks.Nodup) :
    (s.perform act).tasks.Nodup := by
  unfold Run.perform
  split
  · exact hnodup
  · cases act with
    | checkpoint label => exact hnodup
    | cached key v => exact hnodup
    | ends thread flight ending swept =>
        rw [(keeps_ends s thread flight ending swept).tasks]
        exact hnodup
    | turn thread cancelled =>
        simp only [Run.turn]
        split
        · exact hnodup
        · exact hnodup
        · split
          · show s.cancelInflight.tasks.Nodup
            rw [(keeps_cancelInflight s).tasks]
            exact hnodup
          · show s.settleMapped.1.tasks.Nodup
            rw [(keeps_settleMapped s).tasks]
            exact hnodup
        · next t rest again outer hframes =>
            have ht : t ∈ s.pending := hfits t (by simp [next, hframes])
            split
            · exact hnodup
            · split
              · next hmapped =>
                  show (s.expandMapped t).tasks.Nodup
                  rcases keeps_expandMapped s t with hk | ⟨source, items, -, -, he⟩
                  · rw [hk.tasks]
                    exact hnodup
                  · rw [he]
                    refine List.nodup_append.mpr ⟨hnodup, nodup_instanceIds t items, ?_⟩
                    rintro u hu v hv rfl
                    exact (h.fresh_instance ht hmapped hv).2.2 hu
              · rw [(keeps_spawnTask _ thread t).tasks]
                exact hnodup

end Run

namespace Unwinding

variable {x : Unwinding}

/-- A body ends. Only a coroutine gives its task a number when it completes. -/
def complete (x : Unwinding) (act : Act) : Unwinding :=
  match x.run.completes act with
  | none => x
  | some (t, v) =>
      let x' := { x with result := Function.update x.result t v, bodies := (t, v) :: x.bodies }
      if x.run.workers ∨ Run.Parks act then x'
      else { x' with
        completionSeq := Function.update x.completionSeq t (some (x.completionCounter + 1))
        completionCounter := x.completionCounter + 1 }

/-- A task is started that has its result at once. -/
def answer (x : Unwinding) (run : Run) : Unwinding :=
  match x.run.started run with
  | none => x
  | some t =>
      if run.spawned = x.run.spawned then { x with result := Function.update x.result t ((run.results t).getD .nil) } else x

/-- The instances of mapped tasks are new in every execution. -/
def perform (x : Unwinding) : UnwindingAct → Unwinding
  | .act act =>
      { (x.complete act).answer (x.run.perform act) with
        run := x.run.perform act
        compensationPending := x.compensationPending || x.run.failsRun act }
  | .resume rebuilt run =>
      { run
        handlers := x.handlers
        completionSeq := fun t => if rebuilt ∨ t.index ≠ none then none else x.completionSeq t
        result := fun t => if rebuilt ∨ t.index ≠ none then .nil else x.result t
        failedBefore := run.failed
        past := x.bodies ++ x.past }

def performs (x : Unwinding) (acts : List UnwindingAct) : Unwinding := acts.foldl perform x

section calls

variable (invoke : String → Value → Except String Value)

/-- The handler of a task is called, if it has one. -/
def compensate (x : Unwinding) (t : TaskId) (v : Value) : Option CompensationRecord :=
  (x.handlers t.task).map fun name => ⟨name, t, v, invoke name v⟩

/-- `_run_compensation`. The sort is stable. -/
def runCompensation (x : Unwinding) : List CompensationRecord :=
  let completed := x.run.tasks.filter fun t => (x.completionSeq t).isSome && (x.handlers t.task).isSome
  (completed.insertionSort fun t u => (x.completionSeq u).getD 0 ≤ (x.completionSeq t).getD 0).filterMap
    fun t => x.compensate invoke t (x.result t)

/-- What is called when the run returns: nothing unless it has failed, in this execution of it. -/
def returned (x : Unwinding) : List CompensationRecord :=
  if x.run.failed ∧ x.failedBefore = false ∧ x.run.crashed = false then
    if x.compensationPending then x.runCompensation invoke else []
  else []

/-- The handlers of the steps whose bodies have completed in the run, from the last completion to the first. -/
def owed (x : Unwinding) : List CompensationRecord :=
  (latest (x.bodies ++ x.past)).filterMap fun p => x.compensate invoke p.1 p.2

/-- A run that fails calls every handler it owes once, in the reverse of the order of completion, whatever comes of each; and a
run that does not fail calls none. -/
structure Unwinds (x : Unwinding) : Prop where
  failed : x.run.failed = true → x.failedBefore = false → x.returned invoke = x.owed invoke
  calm : x.run.failed = false → x.returned invoke = []

end calls

/-- A handler is declared for the step. -/
def Handled (x : Unwinding) (t : TaskId) : Prop := (x.handlers t.task).isSome = true

instance (x : Unwinding) (t : TaskId) : Decidable (x.Handled t) := inferInstanceAs (Decidable (_ = _))

/-- A step that the numbers account for. What has a handler completes in a coroutine, without parking, and no key is missing. When
an attempt fails for good nothing with a handler has completed in an earlier execution. Where a mapped task cannot be expanded,
nothing with a handler has completed or completes. -/
def Accounts (x : Unwinding) : UnwindingAct → Prop
  | .act act =>
      x.run.Fits act ∧
      (∀ p ∈ x.run.completes act, ¬ x.run.KeyMissing p.1 ∧ (x.Handled p.1 →
        x.run.workers = false ∧ ¬ Run.Parks act ∧ (x.run.failed = true → x.compensationPending = true))) ∧
      (x.run.failed = false → x.run.FailsForGood act → ∀ p ∈ x.past, ¬ x.Handled p.1) ∧
      (x.run.failed = false → x.run.MapFails act → ∀ p ∈ x.bodies ++ x.past, ¬ x.Handled p.1)
  | .resume _ _ => True

instance (x : Unwinding) : (act : UnwindingAct) → Decidable (x.Accounts act)
  | .act act => inferInstanceAs (Decidable (_ ∧ (∀ p ∈ x.run.completes act, _) ∧ (_ → _ → ∀ p ∈ x.past, _) ∧
      (_ → _ → ∀ p ∈ x.bodies ++ x.past, _)))
  | .resume _ _ => isTrue trivial

/-- Every step of a run is accounted for. -/
def AllAccount (x : Unwinding) : List UnwindingAct → Prop
  | [] => True
  | act :: acts => x.Accounts act ∧ (x.perform act).AllAccount acts

instance decidableAllAccount (x : Unwinding) : (acts : List UnwindingAct) → Decidable (x.AllAccount acts)
  | [] => isTrue trivial
  | act :: acts => @instDecidableAnd _ _ _ (decidableAllAccount (x.perform act) acts)

@[simp] theorem answer_run (x : Unwinding) (run : Run) : (x.answer run).run = x.run := by
  unfold answer
  split
  · rfl
  · split
    · rfl
    · rfl

theorem answer_eq (x : Unwinding) (run : Run) : ∃ result, x.answer run = { x with result } ∧
    ∀ t, x.run.started run ≠ some t → result t = x.result t := by
  unfold answer
  split
  · exact ⟨x.result, rfl, fun _ _ => rfl⟩
  · next u hu =>
      split
      · refine ⟨_, rfl, fun t ht => ?_⟩
        have hne : t ≠ u := by
          rintro rfl
          exact ht hu
        exact Function.update_of_ne hne _ _
      · exact ⟨x.result, rfl, fun _ _ => rfl⟩

theorem perform_act (x : Unwinding) (act : Act) : x.perform (.act act) = { (x.complete act).answer (x.run.perform act) with
    run := x.run.perform act
    compensationPending := x.compensationPending || x.run.failsRun act } := rfl

theorem complete_of_none {act : Act} (h : x.run.completes act = none) : x.complete act = x := by
  unfold complete
  rw [h]

/-! ### The numbers of the bodies that have completed -/

/-- What the numbers say. -/
structure Numbered (x : Unwinding) : Prop where
  sound : x.failedBefore = false → x.run.Sound ∧ x.run.tasks.Nodup ∧ x.run.crashed = false
  stopped : x.failedBefore = true → x.run.Over ∧ x.bodies = []
  results : ∀ p ∈ x.bodies, x.run.results p.1 ≠ none
  distinct : (x.bodies.map Prod.fst).Nodup
  counted : ∀ t, x.completionSeq t ≠ none → t ∈ (x.bodies ++ x.past).map Prod.fst
  numbers : ∀ p ∈ x.bodies, x.Handled p.1 → ∃ n, x.completionSeq p.1 = some n ∧ n ≤ x.completionCounter
  order : x.bodies.Pairwise fun p q => x.Handled p.1 → x.Handled q.1 →
    (x.completionSeq q.1).getD 0 < (x.completionSeq p.1).getD 0
  given : ∀ p ∈ x.bodies, x.Handled p.1 → x.result p.1 = p.2
  pending : x.compensationPending = true → x.run.failed = true
  verdict : x.failedBefore = false → x.run.failed = true →
    x.compensationPending = true ∧ (∀ p ∈ x.past, ¬ x.Handled p.1) ∨
      x.compensationPending = false ∧ ∀ p ∈ x.bodies ++ x.past, ¬ x.Handled p.1

theorem Numbered.verdict_step (h : x.Numbered) {act : Act} (ha : x.Accounts (.act act)) (hbefore : x.failedBefore = false)
    (hfailed : (x.run.perform act).failed = true) :
    (x.compensationPending || x.run.failsRun act) = true ∧ (∀ p ∈ x.past, ¬ x.Handled p.1) ∨
      (x.compensationPending || x.run.failsRun act) = false ∧ (∀ p ∈ x.bodies ++ x.past, ¬ x.Handled p.1) ∧
        ∀ p ∈ x.run.completes act, ¬ x.Handled p.1 := by
  obtain ⟨-, hcompletes, hgood, hmap⟩ := ha
  by_cases hold : x.run.failed = true
  · have hfails : x.run.failsRun act = false := by
      cases act with
      | ends thread flight ending swept =>
          show (!x.run.failed && _) = false
          rw [hold]
          rfl
      | turn thread cancelled => rfl
      | checkpoint label => rfl
      | cached key v => rfl
    rw [hfails, Bool.or_false]
    refine (h.verdict hbefore hold).imp_right fun ⟨hpending, hnone⟩ => ⟨hpending, hnone, fun p hp hhandled => ?_⟩
    exact Bool.false_ne_true (hpending.symm.trans (((hcompletes p hp).2 hhandled).2.2 hold))
  · have hold : x.run.failed = false := Bool.eq_false_iff.mpr hold
    have hpending : x.compensationPending = false := by
      by_contra hpending
      exact Bool.false_ne_true (hold.symm.trans (h.pending (eq_true_of_ne_false hpending)))
    rcases Run.failed_of_perform hfailed (fun p hp => (hcompletes p hp).1) with hbad | hgood' | hmap'
    · exact absurd (hold.symm.trans hbad) Bool.false_ne_true
    · refine .inl ⟨?_, hgood hold hgood'⟩
      cases act with
      | ends thread flight ending swept =>
          show (_ || (!x.run.failed && (x.run.perform _).failed)) = true
          rw [hold, hfailed]
          simp
      | turn thread cancelled => exact hgood'.elim
      | checkpoint label => exact hgood'.elim
      | cached key v => exact hgood'.elim
    · refine .inr ⟨?_, hmap hold hmap', fun p hp => ?_⟩
      · cases act with
        | turn thread cancelled => exact (Bool.or_false _).trans hpending
        | ends thread flight ending swept => exact hmap'.elim
        | checkpoint label => exact hmap'.elim
        | cached key v => exact hmap'.elim
      · cases act with
        | turn thread cancelled => cases hp
        | ends thread flight ending swept => exact hmap'.elim
        | checkpoint label => exact hmap'.elim
        | cached key v => exact hmap'.elim

theorem complete_of_some {act : Act} {p : TaskId × Value} (h : x.run.completes act = some p) :
    ∃ completionSeq completionCounter, x.complete act = { x with
        result := Function.update x.result p.1 p.2, bodies := p :: x.bodies, completionSeq, completionCounter } ∧
      (∀ u, u ≠ p.1 → completionSeq u = x.completionSeq u) ∧ x.completionCounter ≤ completionCounter ∧
      (x.run.workers = false → ¬ Run.Parks act →
        completionSeq p.1 = some (x.completionCounter + 1) ∧ completionCounter = x.completionCounter + 1) := by
  unfold complete
  rw [h]
  simp only []
  split
  · next hkept =>
      refine ⟨x.completionSeq, x.completionCounter, rfl, fun _ _ => rfl, le_rfl, fun hworkers hparks => ?_⟩
      rcases hkept with hkept | hkept
      · exact absurd (hworkers.symm.trans hkept) Bool.false_ne_true
      · exact absurd hkept hparks
  · exact ⟨_, _, rfl, fun u hu => Function.update_of_ne hu _ _, Nat.le_succ x.completionCounter,
      fun _ _ => ⟨Function.update_self _ _ _, rfl⟩⟩

theorem Numbered.act_over (h : x.Numbered) (hbefore : x.failedBefore = true) (act : Act) :
    (x.perform (.act act)).Numbered := by
  obtain ⟨hover, hbodies⟩ := h.stopped hbefore
  have hnone : x.run.completes act = none := by
    cases hcompletes : x.run.completes act with
    | none => rfl
    | some p =>
        obtain ⟨thread, flight, ending, swept, -, htask, -⟩ := Run.completes_cases hcompletes
        unfold Run.taskOf at htask
        rw [hover.running] at htask
        cases htask
  obtain ⟨result, he, -⟩ := answer_eq x (x.run.perform act)
  have hperform : x.perform (.act act) = { x with
      result
      run := x.run.perform act
      compensationPending := x.compensationPending || x.run.failsRun act } := by
    rw [perform_act, complete_of_none hnone, he]
  have hnobody : ∀ p, p ∉ x.bodies := fun p hp => by
    rw [hbodies] at hp
    cases hp
  rw [hperform]
  have hcalm : x.failedBefore ≠ false := by
    rw [hbefore]
    exact Bool.true_eq_false_eq_False.elim
  exact ⟨fun hfalse => absurd hfalse hcalm, fun _ => ⟨hover.perform act, hbodies⟩, fun p hp => absurd hp (hnobody p), h.distinct,
    h.counted, h.numbers, h.order, fun p hp => absurd hp (hnobody p), fun _ => (hover.perform act).failed,
    fun hfalse => absurd hfalse hcalm⟩

theorem Numbered.act (h : x.Numbered) {act : Act} (ha : x.Accounts (.act act)) : (x.perform (.act act)).Numbered := by
  by_cases hbefore : x.failedBefore = true
  · exact h.act_over hbefore act
  · have hbefore : x.failedBefore = false := Bool.eq_false_iff.mpr hbefore
    obtain ⟨hsound, hnodup, hcrashed⟩ := h.sound hbefore
    have hverdict := fun hfailed => h.verdict_step ha hbefore hfailed
    obtain ⟨hfits, hcompletes, -⟩ := ha
    have hafter : (x.run.perform act).Sound ∧ (x.run.perform act).tasks.Nodup ∧ (x.run.perform act).crashed = false :=
      ⟨hsound.perform act hfits, hsound.nodup_tasks hfits hnodup,
        Run.crashed_perform hcrashed fun p hp => (hcompletes p hp).1⟩
    have hkept : ∀ p ∈ x.bodies, (x.run.perform act).results p.1 ≠ none := by
      intro p hp
      have hview := hsound.results_kept hfits (h.results p hp)
      rw [show (x.run.perform act).results p.1 = x.run.results p.1 from congrArg View.result hview]
      exact h.results p hp
    have hpending : (x.compensationPending || x.run.failsRun act) = true → (x.run.perform act).failed = true := by
      intro hpending
      rcases Bool.or_eq_true_iff.mp hpending with hold | hnew
      · exact Run.failed_perform (h.pending hold) act
      · cases act with
        | ends thread flight ending swept => exact (Bool.and_eq_true_iff.mp hnew).2
        | turn thread cancelled => cases hnew
        | checkpoint label => cases hnew
        | cached key v => cases hnew
    cases hbody : x.run.completes act with
    | none =>
        obtain ⟨result, he, hresult⟩ := answer_eq x (x.run.perform act)
        have hperform : x.perform (.act act) = { x with
            result
            run := x.run.perform act
            compensationPending := x.compensationPending || x.run.failsRun act } := by
          rw [perform_act, complete_of_none hbody, he]
        rw [hperform]
        refine ⟨fun _ => hafter, fun htrue => absurd (hbefore.symm.trans htrue) Bool.false_ne_true, hkept, h.distinct, h.counted,
          h.numbers, h.order, fun p hp hhandled => ?_, hpending, fun _ hfailed => ?_⟩
        · exact (hresult p.1 (hsound.started_ne hfits (h.results p hp))).trans (h.given p hp hhandled)
        · exact (hverdict hfailed).imp_right fun ⟨hpending, hnone, _⟩ => ⟨hpending, hnone⟩
    | some p =>
        obtain ⟨hkey, haccounted⟩ := hcompletes p hbody
        have hcompleted := Run.completed_perform hbody hkey
        obtain ⟨completionSeq, completionCounter, hcomplete, hother, hcounter, hnew⟩ := complete_of_some hbody
        obtain ⟨result, he, hresult⟩ := answer_eq (x.complete act) (x.run.perform act)
        have hperform : x.perform (.act act) = { x with
            result
            bodies := p :: x.bodies
            completionSeq
            completionCounter
            run := x.run.perform act
            compensationPending := x.compensationPending || x.run.failsRun act } := by
          rw [perform_act, he, hcomplete]
        -- The body was running, and has completed for the first time.
        have hfirst : ∀ q ∈ x.bodies, q.1 ≠ p.1 := by
          intro q hq hsame
          obtain ⟨thread, flight, ending, swept, -, htask, -⟩ := Run.completes_cases hbody
          have hrunning := hsound.of_running (List.mem_map_of_mem (Run.mem_of_taskOf htask))
          exact h.results q hq (hsame ▸ hrunning.2.2.1)
        have hstarted : x.run.started (x.run.perform act) = none := by
          unfold Run.started
          rw [hcompleted.starts, if_pos rfl]
        have hgiven : ∀ q, result q = Function.update x.result p.1 p.2 q := by
          intro q
          have hsame := hresult q (by rw [hcomplete]; show x.run.started _ ≠ _; rw [hstarted]; exact (Option.some_ne_none q).symm)
          rw [hsame, hcomplete]
        rw [hperform]
        refine ⟨fun _ => hafter, fun htrue => absurd (hbefore.symm.trans htrue) Bool.false_ne_true, ?_, ?_, ?_, ?_, ?_, ?_,
          hpending, fun _ hfailed => ?_⟩
        · intro q hq
          rcases List.mem_cons.mp hq with rfl | hq
          · rw [hcompleted.results]
            exact Option.some_ne_none q.2
          · exact hkept q hq
        · refine List.nodup_cons.mpr ⟨fun hmem => ?_, h.distinct⟩
          obtain ⟨q, hq, hsame⟩ := List.mem_map.mp hmem
          exact hfirst q hq hsame
        · intro t ht
          by_cases htp : t = p.1
          · rw [htp]
            exact List.mem_cons_self
          · have ht : completionSeq t ≠ none := ht
            rw [hother t htp] at ht
            exact List.mem_cons_of_mem _ (h.counted t ht)
        · intro q hq hhandled
          rcases List.mem_cons.mp hq with rfl | hq
          · obtain ⟨hworkers, hparks, -⟩ := haccounted hhandled
            obtain ⟨hseq, hcounted⟩ := hnew hworkers hparks
            exact ⟨_, hseq, hcounted.ge⟩
          · obtain ⟨n, hn, hle⟩ := h.numbers q hq hhandled
            exact ⟨n, (hother q.1 (hfirst q hq)).trans hn, hle.trans hcounter⟩
        · refine List.pairwise_cons.mpr ⟨fun q hq hhandled hhandled' => ?_, h.order.imp_of_mem fun {q r} hq hr hlt hq' hr' => ?_⟩
          · obtain ⟨hworkers, hparks, -⟩ := haccounted hhandled
            obtain ⟨n, hn, hle⟩ := h.numbers q hq hhandled'
            show (completionSeq q.1).getD 0 < (completionSeq p.1).getD 0
            rw [hother q.1 (hfirst q hq), hn, (hnew hworkers hparks).1]
            exact Nat.lt_succ_of_le hle
          · show (completionSeq r.1).getD 0 < (completionSeq q.1).getD 0
            rw [hother r.1 (hfirst r hr), hother q.1 (hfirst q hq)]
            exact hlt hq' hr'
        · intro q hq hhandled
          show result q.1 = q.2
          rw [hgiven]
          rcases List.mem_cons.mp hq with rfl | hq
          · exact Function.update_self _ _ _
          · rw [Function.update_of_ne (hfirst q hq)]
            exact h.given q hq hhandled
        · refine (hverdict hfailed).imp_right fun ⟨hpending, hnone, hbody'⟩ => ⟨hpending, fun q hq => ?_⟩
          rcases List.mem_cons.mp hq with rfl | hq
          · exact hbody' q hbody
          · exact hnone q hq

theorem Numbered.resume (h : x.Numbered) (rebuilt : Bool) {run : Run}
    (hrun : (run.Sound ∧ run.tasks.Nodup ∧ run.crashed = false) ∧ run.failed = false ∨ run.Over) :
    (x.perform (.resume rebuilt run)).Numbered := by
  refine ⟨fun hcalm => ?_, fun hfailed => ?_, fun p hp => ?_, List.nodup_nil, fun t ht => ?_, fun p hp => ?_, List.Pairwise.nil,
    fun p hp => ?_, fun hpending => ?_, fun hcalm hfailed => ?_⟩
  · have hcalm : run.failed = false := hcalm
    rcases hrun with ⟨hsound, -⟩ | hover
    · exact hsound
    · exact absurd (hcalm.symm.trans hover.failed) Bool.false_ne_true
  · have hfailed : run.failed = true := hfailed
    rcases hrun with ⟨-, hcalm⟩ | hover
    · exact absurd (hcalm.symm.trans hfailed) Bool.false_ne_true
    · exact ⟨hover, rfl⟩
  · cases hp
  · have ht : (if rebuilt = true ∨ t.index ≠ none then none else x.completionSeq t) ≠ none := ht
    split at ht
    · exact absurd rfl ht
    · exact h.counted t ht
  · cases hp
  · cases hp
  · cases hpending
  · have hcalm : run.failed = false := hcalm
    exact absurd (hcalm.symm.trans hfailed) Bool.false_ne_true

end Unwinding

/-! ### The order of the handlers -/

theorem latest_of_nodup {l : List (TaskId × Value)} (h : (l.map Prod.fst).Nodup) : latest l = l := by
  induction l with
  | nil => rfl
  | cons p rest ih =>
      obtain ⟨hnew, hrest⟩ := List.nodup_cons.mp h
      show p :: (latest rest).filter (fun q => q.1 ≠ p.1) = p :: rest
      rw [ih hrest, List.filter_eq_self.mpr]
      intro q hq
      refine decide_eq_true fun hsame => hnew ?_
      rw [← hsame]
      exact List.mem_map_of_mem hq

theorem filter_latest (keep : TaskId → Bool) (l : List (TaskId × Value)) :
    (latest l).filter (fun p => keep p.1) = latest (l.filter fun p => keep p.1) := by
  induction l with
  | nil => rfl
  | cons p rest ih =>
      have hcomm : ((latest rest).filter fun q => q.1 ≠ p.1).filter (fun q => keep q.1) =
          ((latest rest).filter fun q => keep q.1).filter fun q => q.1 ≠ p.1 := by
        rw [List.filter_filter, List.filter_filter]
        refine List.filter_congr fun q _ => Bool.and_comm _ _
      show (p :: (latest rest).filter (fun q => q.1 ≠ p.1)).filter (fun q => keep q.1) = _
      cases hp : keep p.1 with
      | true =>
          rw [List.filter_cons_of_pos (by exact hp), List.filter_cons_of_pos (by exact hp), hcomm, ih]
          rfl
      | false =>
          rw [List.filter_cons_of_neg (by rw [hp]; decide), List.filter_cons_of_neg (by rw [hp]; decide), hcomm, ih]
          -- The task is not kept, so nothing that is kept has its name.
          rw [List.filter_eq_self.mpr]
          intro q hq
          rw [← ih] at hq
          refine decide_eq_true fun hsame => ?_
          have hkeep := (List.mem_filter.mp hq).2
          rw [hsame, hp] at hkeep
          cases hkeep

namespace Unwinding

variable {x : Unwinding} {invoke : String → Value → Except String Value}

theorem compensate_of_not_handled {t : TaskId} (h : ¬ x.Handled t) (v : Value) : x.compensate invoke t v = none := by
  unfold compensate
  unfold Handled at h
  rw [Option.not_isSome_iff_eq_none.mp h]
  rfl

theorem owed_nil (h : ∀ p ∈ x.bodies ++ x.past, ¬ x.Handled p.1) : x.owed invoke = [] := by
  have hlatest : ∀ (l : List (TaskId × Value)), ∀ p ∈ latest l, p ∈ l := by
    intro l
    induction l with
    | nil => exact fun p hp => hp
    | cons q rest ih =>
        intro p hp
        rcases List.mem_cons.mp hp with rfl | hp
        · exact List.mem_cons_self
        · exact List.mem_cons_of_mem _ (ih p (List.mem_of_mem_filter hp))
  exact List.filterMap_eq_nil_iff.mpr fun p hp => compensate_of_not_handled (h p (hlatest _ p hp)) p.2

/-- If nothing with a handler has completed in an earlier execution, what is owed are the bodies of this one. -/
theorem owed_eq (hpast : ∀ p ∈ x.past, ¬ x.Handled p.1) (hdistinct : (x.bodies.map Prod.fst).Nodup) :
    x.owed invoke = (x.bodies.filter fun p => x.Handled p.1).filterMap fun p => x.compensate invoke p.1 p.2 := by
  have hfilter : ∀ l : List (TaskId × Value), l.filterMap (fun p => x.compensate invoke p.1 p.2) =
      (l.filter fun p => x.Handled p.1).filterMap fun p => x.compensate invoke p.1 p.2 := by
    intro l
    rw [List.filterMap_filter]
    congr 1
    funext p
    split
    · rfl
    · next hnot => exact compensate_of_not_handled (fun hhandled => hnot (decide_eq_true hhandled)) p.2
  unfold owed
  rw [hfilter, filter_latest fun t => x.Handled t, List.filter_append]
  rw [show x.past.filter (fun p => x.Handled p.1) = [] from List.filter_eq_nil_iff.mpr fun p hp => by simpa using hpast p hp]
  rw [List.append_nil, latest_of_nodup]
  exact hdistinct.sublist (List.filter_sublist.map Prod.fst)

/-- The numbers put the tasks with handlers in the order in which their bodies have completed. -/
theorem Numbered.sorted (h : x.Numbered) (hbefore : x.failedBefore = false) (hpast : ∀ p ∈ x.past, ¬ x.Handled p.1) :
    ((x.run.tasks.filter fun t => (x.completionSeq t).isSome && (x.handlers t.task).isSome).insertionSort
      fun t u => (x.completionSeq u).getD 0 ≤ (x.completionSeq t).getD 0) =
        (x.bodies.filter fun p => x.Handled p.1).map Prod.fst := by
  obtain ⟨hsound, hnodup, -⟩ := h.sound hbefore
  have hstrict : (x.bodies.filter fun p => x.Handled p.1).Pairwise
      fun p q => (x.completionSeq q.1).getD 0 < (x.completionSeq p.1).getD 0 := by
    refine (h.order.filter _).imp_of_mem fun hp hq hlt => hlt ?_ ?_
    · exact of_decide_eq_true (List.mem_filter.mp hp).2
    · exact of_decide_eq_true (List.mem_filter.mp hq).2
  let after : TaskId → TaskId → Prop := fun t u => (x.completionSeq u).getD 0 ≤ (x.completionSeq t).getD 0
  have htotal : Std.Total after := ⟨fun t u => Nat.le_total _ _⟩
  have htrans : IsTrans TaskId after := ⟨fun t u v htu huv => Nat.le_trans huv htu⟩
  have hmem : ∀ t, t ∈ (x.run.tasks.filter fun t => (x.completionSeq t).isSome && (x.handlers t.task).isSome) ↔
      t ∈ (x.bodies.filter fun p => x.Handled p.1).map Prod.fst := by
    intro t
    constructor
    · intro ht
      obtain ⟨-, hboth⟩ := List.mem_filter.mp ht
      obtain ⟨hseq, hhandled⟩ := Bool.and_eq_true_iff.mp hboth
      obtain ⟨p, hp, rfl⟩ := List.mem_map.mp (h.counted t (Option.isSome_iff_ne_none.mp hseq))
      rcases List.mem_append.mp hp with hp | hp
      · exact List.mem_map_of_mem (List.mem_filter.mpr ⟨hp, decide_eq_true hhandled⟩)
      · exact absurd hhandled (hpast p hp)
    · intro ht
      obtain ⟨p, hp, rfl⟩ := List.mem_map.mp ht
      obtain ⟨hp, hhandled⟩ := List.mem_filter.mp hp
      have hhandled : x.Handled p.1 := of_decide_eq_true hhandled
      obtain ⟨n, hn, -⟩ := h.numbers p hp hhandled
      have hlisted : p.1 ∈ x.run.tasks := of_decide_eq_true ((hsound.placed p.1).result (h.results p hp)).1
      refine List.mem_filter.mpr ⟨hlisted, Bool.and_eq_true_iff.mpr ⟨?_, hhandled⟩⟩
      rw [hn]
      rfl
  have hsorted := List.pairwise_insertionSort after
    (x.run.tasks.filter fun t => (x.completionSeq t).isSome && (x.handlers t.task).isSome)
  refine List.Perm.eq_of_pairwise ?_ hsorted ?_ ?_
  · intro t u ht hu htu hut
    have ht := (hmem t).mp ((List.mem_insertionSort after).mp ht)
    obtain ⟨p, hp, rfl⟩ := List.mem_map.mp ht
    obtain ⟨q, hq, rfl⟩ := List.mem_map.mp hu
    have hsymm : Std.Symm fun p q : TaskId × Value => (x.completionSeq q.1).getD 0 ≠ (x.completionSeq p.1).getD 0 :=
      ⟨fun p q hne he => hne he.symm⟩
    by_contra hne
    refine (hstrict.imp fun hlt => Nat.ne_of_lt hlt).forall hp hq ?_ (Nat.le_antisymm htu hut)
    rintro rfl
    exact hne rfl
  · exact List.pairwise_map.mpr (hstrict.imp fun hlt => Nat.le_of_lt hlt)
  · refine (List.perm_insertionSort after _).trans ?_
    refine (List.perm_ext_iff_of_nodup (hnodup.filter _) ?_).mpr hmem
    exact h.distinct.sublist (List.filter_sublist.map Prod.fst)

theorem Numbered.unwinds (h : x.Numbered) (invoke : String → Value → Except String Value) : x.Unwinds invoke where
  failed hfailed hbefore := by
    unfold returned
    rw [if_pos ⟨hfailed, hbefore, (h.sound hbefore).2.2⟩]
    rcases h.verdict hbefore hfailed with ⟨hpending, hpast⟩ | ⟨hpending, hnone⟩
    · rw [if_pos hpending, owed_eq hpast h.distinct]
      unfold runCompensation
      simp only []
      rw [h.sorted hbefore hpast, List.filterMap_map]
      refine List.filterMap_congr fun p hp => ?_
      obtain ⟨hp, hhandled⟩ := List.mem_filter.mp hp
      show x.compensate invoke p.1 (x.result p.1) = x.compensate invoke p.1 p.2
      rw [h.given p hp (of_decide_eq_true hhandled)]
    · rw [if_neg (by rw [hpending]; exact Bool.false_ne_true), owed_nil hnone]
  calm hcalm := by
    unfold returned
    rw [if_neg fun hall => Bool.false_ne_true (hcalm.symm.trans hall.1)]

end Unwinding

/-! ### Every run -/

section runs

variable {node : TaskId → TaskNode} {tasks : List TaskId}

theorem Run.Opens.sound_or_over {s : Run} (ho : Run.Opens node tasks s) (hunrun : Run.Unrun node tasks) (hnodup : tasks.Nodup) :
    (s.Sound ∧ s.tasks.Nodup ∧ s.crashed = false) ∧ s.failed = false ∨ s.Over := by
  have hcrashed := ho.crashed
  cases ho with
  | fresh workers flow =>
      have hr := Run.restored_fresh hunrun workers flow
      exact .inl ⟨⟨hr.sound hunrun fun t ht _ => List.mem_dedup.mpr ht, hnodup, hcrashed⟩, rfl⟩
  | resumed workers flow savedTasks storedPending order labels parked =>
      obtain ⟨y, hy, hcases⟩ := Run.resumed_cases hunrun workers flow savedTasks storedPending order labels parked
      have hr := hy.restored
      rcases hcases with ⟨hfailed, he⟩ | ⟨hcalm, hcovered, he⟩
      · obtain ⟨t, ht, hstatus, hallow⟩ := hy.blamed hfailed
        have hindex : (y.node t).eachIndex = none := by
          rw [hr.same t]
          exact (hunrun.2 t ht).1
        rw [he]
        exact .inr ⟨hfailed, ⟨t, hr.listed ▸ ht, hstatus, hallow, hindex⟩, fun thread => congrFun hy.frames thread, hr.running⟩
      · rw [he] at hcrashed ⊢
        refine .inl ⟨⟨Run.Restored.sound ⟨hr.listed, hr.same, hr.status, hr.nodup, hr.pending, hr.results, hr.running, hr.skipped,
          hr.expanded, hr.starts, hr.retries⟩ hunrun hcovered, ?_, hcrashed⟩, hcalm⟩
        show y.tasks.Nodup
        rw [hr.listed]
        exact hnodup

/-- Every resume begins another execution of the graph. -/
def UnwindingAct.Of (node : TaskId → TaskNode) (tasks : List TaskId) : UnwindingAct → Prop
  | act _ => True
  | resume _ run => Run.Opens node tasks run

namespace Unwinding

variable {x : Unwinding}

/-- A run of a graph whose first execution begins. -/
def fresh (node : TaskId → TaskNode) (tasks : List TaskId) (workers flow : Bool) (handlers : Nat → Option String) : Unwinding where
  run := Run.fresh node tasks workers flow
  handlers := handlers

theorem numbered_fresh (hunrun : Run.Unrun node tasks) (hnodup : tasks.Nodup) (workers flow : Bool)
    (handlers : Nat → Option String) : (fresh node tasks workers flow handlers).Numbered := by
  refine ⟨fun _ => ?_, fun hfailed => ?_, fun p hp => ?_, List.nodup_nil, fun t ht => absurd rfl ht, fun p hp => ?_,
    List.Pairwise.nil, fun p hp => ?_, fun hpending => ?_, fun _ hfailed => ?_⟩
  · have hopens : Run.Opens node tasks (Run.fresh node tasks workers flow) := .fresh workers flow
    rcases hopens.sound_or_over hunrun hnodup with ⟨hsound, -⟩ | hover
    · exact hsound
    · exact absurd hover.failed Bool.false_ne_true
  · cases hfailed
  · cases hp
  · cases hp
  · cases hp
  · cases hpending
  · cases hfailed

theorem Numbered.performs (h : x.Numbered) (hunrun : Run.Unrun node tasks) (hnodup : tasks.Nodup) (acts : List UnwindingAct)
    (hof : ∀ act ∈ acts, act.Of node tasks) (haccount : x.AllAccount acts) : (x.performs acts).Numbered := by
  induction acts generalizing x with
  | nil => exact h
  | cons act acts ih =>
      refine ih ?_ (fun act hact => hof act (List.mem_cons_of_mem _ hact)) haccount.2
      have hact := hof act List.mem_cons_self
      cases act with
      | act act => exact h.act haccount.1
      | resume rebuilt run => exact h.resume rebuilt (Run.Opens.sound_or_over hact hunrun hnodup)

/-- Every task depends on the one before. -/
def rowNode (t : TaskId) : TaskNode :=
  if t = ⟨1, none⟩ then { dependencies := [⟨0, none⟩] }
  else if t = ⟨2, none⟩ then { dependencies := [⟨1, none⟩] }
  else {}

def rowTasks : List TaskId := [⟨0, none⟩, ⟨1, none⟩, ⟨2, none⟩]

theorem unrun_row : Run.Unrun rowNode rowTasks := by
  refine ⟨fun t => ?_, fun t ht => ?_⟩
  · unfold rowNode
    split
    · exact ⟨rfl, rfl⟩
    · split
      · exact ⟨rfl, rfl⟩
      · exact ⟨rfl, rfl⟩
  · rcases List.mem_cons.mp ht with rfl | ht
    · exact ⟨rfl, rfl⟩
    · rcases List.mem_cons.mp ht with rfl | ht
      · exact ⟨rfl, rfl⟩
      · rw [List.mem_singleton.mp ht]
        exact ⟨rfl, rfl⟩

/-- Both of the first two have a handler. -/
def rowHandlers (step : Nat) : Option String := if step < 2 then some "undo" else none

def rowActs : List UnwindingAct :=
  [.act (.turn 0 false), .act (.turn 0 false), .act (.ends 1 0 (.returned (.atom 0)) false), .act (.turn 1 false),
    .act (.turn 1 false), .act (.ends 2 1 (.returned (.atom 1)) false), .act (.turn 2 false), .act (.turn 2 false),
    .act (.ends 3 2 .raised false)]

end Unwinding

end runs

end Nodus.Orchestration
