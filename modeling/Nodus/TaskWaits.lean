import Nodus.TaskReport

/-! A run on worker threads. The thread that has asked for it waits for the workers, and returns when there is nothing left
to wait for. -/

namespace Nodus.Orchestration

/-- A run on worker threads. -/
structure Served where
  run : Run
  /-- A body has gone over a limit of the host: `limit_breach`. -/
  breach : Bool := false

inductive ServedAct where
  | act (act : Act)
  /-- A body ends with `RuntimeLimitExceeded`, which is no failure of its task. -/
  | breach (flight : Nat)

namespace Run

/-- A worker thread is active from the start of a body until all is done that its end has called for. -/
def Active (s : Run) : Prop := s.running ≠ [] ∨ ∃ thread, thread ≠ 0 ∧ s.frames thread ≠ []

/-- No body is running, and no call of `schedule_ready` is under way. -/
structure Quiescent (s : Run) : Prop where
  running : s.running = []
  frames : ∀ thread, s.frames thread = []

theorem Quiescent.not_active {s : Run} (h : s.Quiescent) : ¬ s.Active := by
  rintro (hrunning | ⟨thread, -, hframes⟩)
  · exact hrunning h.running
  · exact hframes (h.frames thread)

/-- No pending task is left to a sweep, and each of them accepts what the tasks that it depends on have come to. -/
def Accepting (s : Run) : Prop :=
  ∀ t ∈ s.pending, (s.node t).status ≠ .retryScheduled ∧
    ∀ dep ∈ (s.node t).dependencies, ∀ k, s.kind dep = some k → k ∈ (s.node t).onStates

variable {s s' : Run} {t : TaskId}

/-! ### No exception ends a run on worker threads -/

structure OnWorkers (s : Run) : Prop where
  workers : s.workers = true
  crashed : s.crashed = false

theorem OnWorkers.markPending (h : s.OnWorkers) (t : TaskId) : (s.markPending t).OnWorkers := by
  unfold Run.markPending
  split
  · exact h
  · exact ⟨h.workers, h.crashed⟩

theorem OnWorkers.spawnTask (h : s.OnWorkers) (thread : Nat) (t : TaskId) : (s.spawnTask thread t).OnWorkers := by
  unfold Run.spawnTask
  split
  · exact h
  · split
    · exact h
    · split
      · exact ⟨h.workers, h.crashed⟩
      · exact ⟨h.workers, h.crashed⟩

theorem OnWorkers.failTask (h : s.OnWorkers) (thread : Nat) (t : TaskId) (swept : Bool) :
    (s.failTask thread t swept).OnWorkers := by
  have hstatus : ∀ status, (s.setStatus t status).OnWorkers := fun _ => ⟨h.workers, h.crashed⟩
  unfold Run.failTask
  split
  · split
    · have hmark := (hstatus .retryScheduled).markPending t
      exact ⟨hmark.workers, hmark.crashed⟩
    · exact ((hstatus .retrying).markPending t).spawnTask thread t
  · split
    · exact ⟨h.workers, h.crashed⟩
    · split
      · exact hstatus .failed
      · exact ⟨h.workers, h.crashed⟩

theorem OnWorkers.complete (h : s.OnWorkers) (thread : Nat) (t : TaskId) (v : Value) (swept : Bool) :
    (s.complete thread t v swept).OnWorkers := by
  have hrecord : (s.record t v).OnWorkers := ⟨h.workers, h.crashed⟩
  unfold Run.complete
  simp only []
  split
  · rw [if_pos h.workers]
    exact hrecord.failTask thread t swept
  · unfold storeCached
    split
    · exact ⟨h.workers, h.crashed⟩
    · exact ⟨h.workers, h.crashed⟩

theorem OnWorkers.turn (h : s.OnWorkers) (thread : Nat) (cancelled : Bool) : (s.turn thread cancelled).OnWorkers := by
  unfold Run.turn
  split
  · exact h
  · exact ⟨h.workers, h.crashed⟩
  · split
    · unfold cancelInflight
      rw [if_pos h.workers]
      exact ⟨h.workers, h.crashed⟩
    · exact ⟨(settleMapped_eq Run.workers (fun _ _ _ => rfl) s).trans h.workers,
        (settleMapped_eq Run.crashed (fun _ _ _ => rfl) s).trans h.crashed⟩
  · next t rest again outer _ =>
      split
      · exact ⟨h.workers, h.crashed⟩
      · split
        · have hexpanded : (s.expandMapped t).OnWorkers := by
            unfold Run.expandMapped
            simp only []
            split
            · split
              · exact ⟨h.workers, h.crashed⟩
              · split
                · exact ⟨h.workers, h.crashed⟩
                · exact ⟨h.workers, h.crashed⟩
            · exact ⟨h.workers, h.crashed⟩
          exact ⟨hexpanded.workers, hexpanded.crashed⟩
        · have hset : (s.setFrames thread (⟨rest, again⟩ :: outer)).OnWorkers := ⟨h.workers, h.crashed⟩
          exact hset.spawnTask thread t

theorem OnWorkers.perform (h : s.OnWorkers) (act : Act) : (s.perform act).OnWorkers := by
  unfold Run.perform
  split
  · exact h
  · cases act with
    | turn thread cancelled => exact h.turn thread cancelled
    | ends thread flight ending swept =>
        simp only [Run.ends]
        split
        · exact h
        · next t _ =>
            have hpop : (s.pop flight).OnWorkers := ⟨h.workers, h.crashed⟩
            cases ending with
            | waits => exact ⟨h.workers, h.crashed⟩
            | returned v => exact hpop.complete thread t v swept
            | errorValue v =>
                simp only []
                split
                · exact hpop.failTask thread t swept
                · exact hpop.complete thread t v swept
            | raised => exact hpop.failTask thread t swept
    | checkpoint label => exact ⟨h.workers, h.crashed⟩
    | cached key v => exact ⟨h.workers, h.crashed⟩

theorem OnWorkers.run (h : s.OnWorkers) (acts : List Act) : (s.run acts).OnWorkers := by
  induction acts generalizing s with
  | nil => exact h
  | cons act acts ih => exact ih (h.perform act)

section opens

variable {node : TaskId → TaskNode} {tasks : List TaskId}

theorem crashed_restoreTask (savedTasks : TaskId → Option SavedTask) (s : Run) (t : TaskId) :
    (restoreTask savedTasks s t).crashed = s.crashed := by
  unfold restoreTask
  split
  · rfl
  · split
    · rfl
    · simp only []
      split
      · rfl
      · rfl
      · split
        · rfl
        · rfl
      · rfl

theorem crashed_markUnrecorded (s : Run) : s.markUnrecorded.crashed = s.crashed := by
  unfold markUnrecorded
  generalize s.tasks = l
  induction l generalizing s with
  | nil => rfl
  | cons t l ih =>
      rw [List.foldl_cons, ih]
      split
      · unfold Run.markPending
        split
        · rfl
        · rfl
      · rfl

theorem Opens.crashed (ho : Opens node tasks s) : s.crashed = false := by
  cases ho with
  | fresh workers flow => rfl
  | resumed workers flow savedTasks storedPending order labels parked =>
      have hfold : ∀ (l : List TaskId) (x : Run), (l.foldl (restoreTask savedTasks) x).crashed = x.crashed := by
        intro l
        induction l with
        | nil => exact fun _ => rfl
        | cons t l ih => exact fun x => (ih _).trans (crashed_restoreTask savedTasks x t)
      have hresumed : ∀ x : Run, x.crashed = false →
          (if (tasks.foldl (restoreTask savedTasks) x).failed then tasks.foldl (restoreTask savedTasks) x
            else { (tasks.foldl (restoreTask savedTasks) x).markUnrecorded with
              frames := fun thread => if thread = 0 then [({} : Frame)] else [] }).crashed = false := by
        intro x hx
        split
        · exact (hfold tasks x).trans hx
        · exact ((crashed_markUnrecorded _).trans (hfold tasks x)).trans hx
      exact hresumed _ rfl

theorem Opens.onWorkers (ho : Opens node tasks s) (hworkers : s.workers = true) : s.OnWorkers := ⟨hworkers, ho.crashed⟩

/-! ### Nothing is left to wait for -/

/-- Every task has come to something, if every pending task accepts what the others have come to. -/
theorem Regular.pending_nil (h : Regular node tasks s) (hacyclic : Acyclic node tasks) (hunrun : Unrun node tasks)
    (hgoing : s.Going) (hidle : s.Quiescent) (haccepting : s.Accepting) : s.pending = [] := by
  have hquiet : s.Quiet := by
    rcases h.watched hgoing with ⟨thread, frame, hframe, -⟩ | hquiet
    · rw [hidle.frames] at hframe
      cases hframe
    · exact hquiet
  -- A pending task would be ready if something were known of all that it depends on.
  have hunknown : ∀ u ∈ s.pending, (∀ dep ∈ (s.node u).dependencies, s.kind dep ≠ none) → False := by
    intro u hu hknown
    obtain ⟨hstatus, haccepts⟩ := haccepting u hu
    obtain ⟨thread, frame, hframe, -⟩ := hquiet.ready u hu hstatus fun dep hdep => by
      obtain ⟨k, hk⟩ := Option.ne_none_iff_exists'.mp (hknown dep hdep)
      exact depSatisfied_iff.mpr ⟨k, hk, haccepts dep hdep k hk⟩
    rw [hidle.frames] at hframe
    cases hframe
  have hknown : ∀ t ∈ tasks, s.kind t ≠ none := by
    refine hacyclic.induction fun t ht ih hnone => ?_
    obtain ⟨u, hu, hdeps, -⟩ := pending_of_kind_none h.sound hquiet hidle.running (h.tasks t ht) hnone
    refine hunknown u hu fun dep hdep => ih dep ?_
    rw [hdeps] at hdep
    obtain ⟨-, hdeclared⟩ := h.shaped.tasks t (h.tasks t ht) dep hdep
    have hself : (⟨t.task, none⟩ : TaskId) = t := by
      rw [← (hunrun.2 t ht).2]
    rwa [hself] at hdeclared
  rw [List.eq_nil_iff_forall_not_mem]
  intro u hu
  exact hunknown u hu fun dep hdep => hknown dep (h.listed u (h.sound.of_pending hu).1 dep hdep)

end opens

end Run

namespace Served

variable {x : Served} {node : TaskId → TaskNode} {tasks : List TaskId} {s : Run}

def perform (x : Served) : ServedAct → Served
  | .act act => { x with run := x.run.perform act }
  | .breach flight => ⟨x.run.pop flight, true⟩

def serve (x : Served) (acts : List ServedAct) : Served := acts.foldl perform x

/-- The condition under which the request thread goes on waiting. -/
def Waits (x : Served) : Prop :=
  x.run.waiting = none ∧ x.breach = false ∧ (x.run.pending ≠ [] ∧ x.run.failed = false ∨ x.run.Active)

def Fits (x : Served) : ServedAct → Prop
  | .act act => x.run.Fits act
  | .breach _ => True

instance (x : Served) : (act : ServedAct) → Decidable (x.Fits act)
  | .act _ => inferInstanceAs (Decidable (Run.Fits _ _))
  | .breach _ => isTrue trivial

/-- Every step fits. -/
def AllFit (x : Served) : List ServedAct → Prop
  | [] => True
  | act :: acts => x.Fits act ∧ (x.perform act).AllFit acts

instance decidableAllFit (x : Served) : (acts : List ServedAct) → Decidable (x.AllFit acts)
  | [] => isTrue trivial
  | act :: acts => @instDecidableAnd _ _ _ (decidableAllFit (x.perform act) acts)

theorem breach_serve (h : x.breach = true) (acts : List ServedAct) : (x.serve acts).breach = true := by
  induction acts generalizing x with
  | nil => exact h
  | cons act acts ih =>
      apply ih
      cases act with
      | act act => exact h
      | breach flight => rfl

theorem run_serve (acts : List ServedAct) (hfits : x.AllFit acts) (h : (x.serve acts).breach = false) :
    ∃ acts', (x.serve acts).run = x.run.run acts' ∧ x.run.AllFit acts' := by
  induction acts generalizing x with
  | nil => exact ⟨[], rfl, trivial⟩
  | cons act acts ih =>
      cases act with
      | act act =>
          obtain ⟨acts', hrun, hall⟩ := ih hfits.2 h
          exact ⟨act :: acts', hrun, hfits.1, hall⟩
      | breach flight =>
          have hbreach : ((x.perform (.breach flight)).serve acts).breach = true := breach_serve rfl acts
          exact absurd (hbreach.symm.trans h) (by decide)

/-- In every state of every run of an acyclic graph in which no body is running and no call of `schedule_ready` is under way,
the request thread returns if and only if a limit has been reached, the run waits or has failed, or all pending tasks accept
what the others have come to. -/
theorem returns_iff (hacyclic : Run.Acyclic node tasks) (hunrun : Run.Unrun node tasks) (ho : Run.Opens node tasks s)
    (hworkers : s.workers = true) (acts : List ServedAct) (hfits : AllFit ⟨s, false⟩ acts)
    (hidle : (serve ⟨s, false⟩ acts).run.Quiescent) (hcancelled : (serve ⟨s, false⟩ acts).run.cancelled = false) :
    ¬ (serve ⟨s, false⟩ acts).Waits ↔ (serve ⟨s, false⟩ acts).breach = true ∨ (serve ⟨s, false⟩ acts).run.waiting ≠ none ∨
      (serve ⟨s, false⟩ acts).run.failed = true ∨ (serve ⟨s, false⟩ acts).run.Accepting := by
  have hgoes : (serve ⟨s, false⟩ acts).breach = false → (serve ⟨s, false⟩ acts).run.waiting = none →
      (serve ⟨s, false⟩ acts).run.failed = false → (serve ⟨s, false⟩ acts).run.Accepting →
        (serve ⟨s, false⟩ acts).run.pending = [] := by
    intro hbreach hwaiting hcalm haccepting
    obtain ⟨acts', hrun, hall⟩ := run_serve acts hfits hbreach
    rw [hrun] at hwaiting hcalm haccepting hidle hcancelled ⊢
    have hcrashed := ((ho.onWorkers hworkers).run acts').crashed
    rcases ho.cases hacyclic hunrun with hregular | hover
    · exact (hregular.run acts' hall).pending_nil hacyclic hunrun ⟨hcalm, hwaiting, hcancelled, hcrashed⟩ hidle haccepting
    · exact absurd ((hover.run acts').failed.symm.trans hcalm) (by decide)
  constructor
  · intro hreturns
    by_contra hnot
    obtain ⟨hbreach, hwaiting, hcalm, haccepting⟩ := by
      simpa only [not_or, not_not, Bool.not_eq_true] using hnot
    refine hreturns ⟨hwaiting, hbreach, .inl ⟨fun hnil => haccepting fun t ht => ?_, hcalm⟩⟩
    rw [hnil] at ht
    cases ht
  · rintro hwhy ⟨hwaiting, hbreach, ⟨hpending, hcalm⟩ | hactive⟩
    · rcases hwhy with hb | hw | hf | haccepting
      · exact absurd (hb.symm.trans hbreach) (by decide)
      · exact hw hwaiting
      · exact absurd (hf.symm.trans hcalm) (by decide)
      · exact hpending (hgoes hbreach hwaiting hcalm haccepting)
    · exact hidle.not_active hactive

/-- Task 0 may fail, and task 1 does not accept that. -/
def toleratedNode : TaskId → TaskNode
  | ⟨0, none⟩ => { allowFailure := true }
  | ⟨1, none⟩ => { dependencies := [⟨0, none⟩] }
  | _ => {}

/-- The body of task 0 ends on a worker thread, and if task 1 is ready then, its body returns on another one. -/
def toleratedActs (ending : Ending) : List ServedAct :=
  [.act (.turn 0 false), .act (.turn 0 false), .act (.turn 0 false), .act (.ends 1 0 ending false), .act (.turn 1 false),
    .act (.turn 1 false), .act (.turn 1 false), .act (.ends 2 1 (.returned .nil) false), .act (.turn 2 false),
    .act (.turn 2 false)]

def toleratedRun (ending : Ending) : Served :=
  serve ⟨Run.fresh toleratedNode [⟨0, none⟩, ⟨1, none⟩] true true, false⟩ (toleratedActs ending)

theorem unrun_tolerated : Run.Unrun toleratedNode [⟨0, none⟩, ⟨1, none⟩] := by
  refine ⟨fun t => ?_, by decide⟩
  unfold toleratedNode
  split
  · exact ⟨rfl, rfl⟩
  · exact ⟨rfl, rfl⟩
  · exact ⟨rfl, rfl⟩

theorem acyclic_tolerated : Run.Acyclic toleratedNode [⟨0, none⟩, ⟨1, none⟩] :=
  Run.Acyclic.of_rank TaskId.task (by decide) (by decide)

/-- Both bodies return. -/
theorem served_returns : ¬ (toleratedRun (.returned .nil)).Waits := by
  have hidle : (toleratedRun (.returned .nil)).run.Quiescent := by
    refine ⟨by decide, fun thread => ?_⟩
    match thread with
    | 0 | 1 | 2 => rfl
    | n + 3 => rfl
  have haccepting : (toleratedRun (.returned .nil)).run.Accepting := by
    intro t ht
    have hpending : (toleratedRun (.returned .nil)).run.pending = [] := by decide
    rw [hpending] at ht
    cases ht
  exact (returns_iff acyclic_tolerated unrun_tolerated (.fresh true true) rfl
    (toleratedActs (.returned .nil)) (by decide) hidle rfl).mpr (.inr (.inr (.inr haccepting)))

/-- The body of task 0 raises, this is tolerated, and the request thread waits for task 1. -/
theorem served_waits :
    ¬ ∀ (node : TaskId → TaskNode) (tasks : List TaskId) (s : Run) (acts : List ServedAct), Run.Acyclic node tasks →
      Run.Unrun node tasks → Run.Opens node tasks s → s.workers = true → AllFit ⟨s, false⟩ acts →
        (serve ⟨s, false⟩ acts).run.Quiescent → (serve ⟨s, false⟩ acts).run.readyTasks = [] → ¬ (serve ⟨s, false⟩ acts).Waits := by
  intro h
  have hidle : (toleratedRun .raised).run.Quiescent := by
    refine ⟨by decide, fun thread => ?_⟩
    match thread with
    | 0 | 1 | 2 => rfl
    | n + 3 => rfl
  exact h toleratedNode _ _ (toleratedActs .raised) acyclic_tolerated unrun_tolerated (.fresh true true) rfl
    (by decide) hidle (by decide) ⟨by decide, rfl, .inl ⟨by decide, by decide⟩⟩

end Served

end Nodus.Orchestration
