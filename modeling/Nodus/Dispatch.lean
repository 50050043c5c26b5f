import Nodus.Compensation
import Nodus.StateTotals

/-! The two paths of a run. Its bodies are coroutines of the scheduler, or a dispatcher runs them on worker threads; what is
made of their ends is written twice. -/

namespace Nodus.Orchestration

namespace Run

variable {s : Run} {t : TaskId} {workers : Bool}

/-- The run on the other path. -/
def on (s : Run) (workers : Bool) : Run := { s with workers }

theorem markPending_on (s : Run) (workers : Bool) (t : TaskId) :
    (s.on workers).markPending t = (s.markPending t).on workers := by
  unfold markPending
  rw [apply_ite (on · workers)]
  rfl

theorem spawnTask_on (s : Run) (workers : Bool) (thread : Nat) (t : TaskId) :
    (s.on workers).spawnTask thread t = (s.spawnTask thread t).on workers := by
  unfold spawnTask
  rw [apply_ite (on · workers), apply_ite (on · workers)]
  refine if_congr Iff.rfl rfl (if_congr Iff.rfl rfl ?_)
  have hon : (if ((s.on workers).node t).cache then
        (s.on workers).taskCache ((s.on workers).cacheKey t ((s.on workers).args t)) else none) =
      if (s.node t).cache then s.taskCache (s.cacheKey t (s.args t)) else none := rfl
  rw [hon]
  generalize (if (s.node t).cache then s.taskCache (s.cacheKey t (s.args t)) else none) = hit
  cases hit with
  | none => rfl
  | some v => rfl

theorem failTask_on (s : Run) (workers : Bool) (thread : Nat) (t : TaskId) (swept : Bool) :
    (s.on workers).failTask thread t swept = (s.failTask thread t swept).on workers := by
  unfold failTask
  simp only [apply_ite (on · workers)]
  refine if_congr Iff.rfl (if_congr Iff.rfl ?_ ?_) (if_congr Iff.rfl rfl (if_congr Iff.rfl rfl rfl))
  · have hmark := markPending_on (s.setStatus t .retryScheduled) workers t
    exact congrArg (fun r : Run => { r with retryScheduled := some t }) hmark
  · rw [← spawnTask_on, ← markPending_on]
    rfl

theorem complete_on (s : Run) (workers : Bool) (thread : Nat) (t : TaskId) (v : Value) (swept : Bool)
    (hkey : ¬ (s.record t v).KeyMissing t) :
    (s.on workers).complete thread t v swept = (s.complete thread t v swept).on workers := by
  have hcomplete : s.complete thread t v swept = ((s.record t v).storeCached t v).call thread := if_neg hkey
  have hother : (s.on workers).complete thread t v swept = (((s.on workers).record t v).storeCached t v).call thread :=
    if_neg hkey
  have hstore : ((s.on workers).record t v).storeCached t v = ((s.record t v).storeCached t v).on workers := by
    unfold storeCached
    rw [apply_ite (on · workers)]
    exact if_congr Iff.rfl rfl rfl
  rw [hcomplete, hother, hstore]
  rfl

theorem expandMapped_on (s : Run) (workers : Bool) (t : TaskId) :
    (s.on workers).expandMapped t = (s.expandMapped t).on workers := by
  unfold expandMapped
  simp only []
  cases hgiven : ((s.node t).dependencies.find? fun dep => (s.node t).eachSource = some dep).bind s.results with
  | none =>
      have hon : (((s.on workers).node t).dependencies.find? fun dep =>
          ((s.on workers).node t).eachSource = some dep).bind (s.on workers).results = none := hgiven
      rw [hon]
      rfl
  | some v =>
      have hon : (((s.on workers).node t).dependencies.find? fun dep =>
          ((s.on workers).node t).eachSource = some dep).bind (s.on workers).results = some v := hgiven
      rw [hon]
      cases v with
      | nil => rfl
      | atom n => rfl
      | list items =>
          simp only [apply_ite (on · workers)]
          exact if_congr Iff.rfl rfl (if_congr Iff.rfl rfl rfl)

theorem outcomes_on (s : Run) (workers allowFailure : Bool) (instances : List TaskId) :
    (s.on workers).outcomes allowFailure instances = s.outcomes allowFailure instances := by
  induction instances with
  | nil => rfl
  | cons i rest ih =>
      simp only [outcomes, ih]
      rfl

theorem settleMappedParent_on (s : Run) (workers : Bool) (parent : TaskId) (instances : List TaskId) :
    (s.on workers).settleMappedParent parent instances =
      ((s.settleMappedParent parent instances).1.on workers, (s.settleMappedParent parent instances).2) := by
  unfold settleMappedParent
  have hon : (s.on workers).node parent = s.node parent := rfl
  rw [outcomes_on, hon]
  generalize s.outcomes (s.node parent).allowFailure instances = found
  split
  · rfl
  · cases found with
    | none => rfl
    | some values =>
        cases values with
        | none => rfl
        | some values => rfl

theorem settleMapped_on (s : Run) (workers : Bool) :
    (s.on workers).settleMapped = (s.settleMapped.1.on workers, s.settleMapped.2) := by
  have hfold : ∀ (l : List (TaskId × List TaskId)) (acc : Run × Bool),
      l.foldl (fun (acc : Run × Bool) p => ((acc.1.settleMappedParent p.1 p.2).1,
        acc.2 || (acc.1.settleMappedParent p.1 p.2).2)) (acc.1.on workers, acc.2) =
      ((l.foldl (fun (acc : Run × Bool) p => ((acc.1.settleMappedParent p.1 p.2).1,
        acc.2 || (acc.1.settleMappedParent p.1 p.2).2)) acc).1.on workers,
        (l.foldl (fun (acc : Run × Bool) p => ((acc.1.settleMappedParent p.1 p.2).1,
          acc.2 || (acc.1.settleMappedParent p.1 p.2).2)) acc).2) := by
    intro l
    induction l with
    | nil => exact fun _ => rfl
    | cons p l ih =>
        intro acc
        rw [List.foldl_cons, List.foldl_cons, ← ih]
        simp only [settleMappedParent_on]
  exact hfold s.expanded (s, false)

/-- A pass that finds the run cancelled while bodies are running ends the coroutines, and does not reach the threads. -/
theorem turn_on (s : Run) (workers : Bool) (thread : Nat) (cancelled : Bool)
    (hcancelled : cancelled = true → (s.frames thread).head? = some ⟨[], true⟩ → s.running = []) :
    (s.on workers).turn thread cancelled = (s.turn thread cancelled).on workers := by
  unfold turn
  have hon : (s.on workers).frames thread = s.frames thread := rfl
  rw [hon]
  rcases hframes : s.frames thread with _ | ⟨⟨_ | ⟨t, rest⟩, again⟩, outer⟩
  · rfl
  · cases again with
    | false => rfl
    | true =>
        simp only []
        split
        · next hfound =>
            have hnone : s.running = [] := hcancelled hfound (by rw [hframes]; rfl)
            have hsame : ∀ x : Run, x.running = [] → x.cancelInflight = { x with cancelled := true } := by
              intro x hx
              unfold cancelInflight
              split
              · rfl
              · rw [hx]
                simp
            rw [hsame s hnone, hsame (s.on workers) hnone]
            rfl
        · rw [settleMapped_on]
          rfl
  · simp only []
    rw [apply_ite (on · workers), apply_ite (on · workers)]
    refine if_congr Iff.rfl rfl (if_congr Iff.rfl ?_ ?_)
    · rw [expandMapped_on]
      rfl
    · rw [← spawnTask_on]
      rfl

theorem ends_on (s : Run) (workers : Bool) (thread flight : Nat) (ending : Ending) (swept : Bool)
    (hkey : s.Recorded ending → ∀ t ∈ s.taskOf flight, ¬ s.KeyMissing t) :
    (s.on workers).ends thread flight ending swept = (s.ends thread flight ending swept).on workers := by
  unfold ends
  have hon : (s.on workers).taskOf flight = s.taskOf flight := rfl
  rw [hon]
  cases htask : s.taskOf flight with
  | none => rfl
  | some t =>
      have hcomplete : ∀ v, s.Recorded ending →
          ((s.pop flight).on workers).complete thread t v swept = ((s.pop flight).complete thread t v swept).on workers := by
        intro v hrecorded
        exact complete_on (s.pop flight) workers thread t v swept fun hmissing =>
          hkey hrecorded t htask (keyMissing_of_record hmissing)
      cases ending with
      | waits => rfl
      | raised => exact failTask_on (s.pop flight) workers thread t swept
      | returned v => exact hcomplete v trivial
      | errorValue v =>
          simp only []
          show (if s.flow then _ else _) = _
          split
          · exact failTask_on (s.pop flight) workers thread t swept
          · next hflow => exact hcomplete v (Bool.eq_false_iff.mpr hflow)

/-- A step that both paths take alike: no pass ends coroutines because the run is cancelled, and the key of what is stored can
be made up. -/
def Alike (s : Run) : Act → Prop
  | .turn thread cancelled => cancelled = true → (s.frames thread).head? = some ⟨[], true⟩ → s.running = []
  | .ends _ flight ending _ => s.Recorded ending → ∀ t ∈ s.taskOf flight, ¬ s.KeyMissing t
  | .checkpoint _ | .cached _ _ => True

instance (s : Run) : (act : Act) → Decidable (s.Alike act)
  | .turn _ _ => inferInstanceAs (Decidable (_ → _ → _))
  | .ends _ _ _ _ => inferInstanceAs (Decidable (_ → ∀ t ∈ s.taskOf _, _))
  | .checkpoint _ | .cached _ _ => isTrue trivial

theorem Alike.perform_on {act : Act} (h : s.Alike act) (workers : Bool) :
    (s.on workers).perform act = (s.perform act).on workers := by
  unfold Run.perform
  rw [apply_ite (on · workers)]
  refine if_congr Iff.rfl rfl ?_
  cases act with
  | turn thread cancelled => exact turn_on s workers thread cancelled h
  | ends thread flight ending swept => exact ends_on s workers thread flight ending swept h
  | checkpoint label => rfl
  | cached key v => rfl

theorem Alike.forGood {act : Act} (h : s.Alike act) (hfails : s.failsRun act = true) :
    s.failed = false ∧ s.FailsForGood act := by
  cases act with
  | turn thread cancelled => cases hfails
  | checkpoint label => cases hfails
  | cached key v => cases hfails
  | ends thread flight ending swept =>
      obtain ⟨hcalm, hfailed⟩ := Bool.and_eq_true_iff.mp hfails
      have hcalm : s.failed = false := by
        simpa using hcalm
      have hparks : ending ≠ .waits := by
        rintro rfl
        unfold Run.perform at hfailed
        split at hfailed
        · exact Bool.false_ne_true (hcalm.symm.trans hfailed)
        · simp only [Run.ends] at hfailed
          split at hfailed
          · exact Bool.false_ne_true (hcalm.symm.trans hfailed)
          · exact Bool.false_ne_true (hcalm.symm.trans hfailed)
      have hkey : ∀ p ∈ s.completes (.ends thread flight ending swept), ¬ s.KeyMissing p.1 := by
        intro p hp
        obtain ⟨_, _, _, _, he, htask, -, hending⟩ := completes_cases hp
        cases he
        rcases hending with ⟨rfl, -⟩ | rfl | ⟨rfl, hflow⟩
        · exact absurd rfl hparks
        · exact h trivial p.1 htask
        · exact h hflow p.1 htask
      rcases failed_of_perform hfailed hkey with hbad | hgood | hmap
      · exact absurd (hcalm.symm.trans hbad) Bool.false_ne_true
      · exact ⟨hcalm, hgood⟩
      · exact hmap.elim

/-! ### The request thread -/

/-- The condition under which the request thread stays in its loop. It waits for worker threads if a body has been handed to
one, and runs the scheduler otherwise. -/
def Loops (s : Run) : Prop :=
  if s.workers = true ∧ s.spawned ≠ 0 then s.waiting = none ∧ (s.pending ≠ [] ∧ s.failed = false ∨ s.running ≠ [])
  else s.waiting = none ∧ s.retryScheduled = none ∧ s.running ≠ []

instance (s : Run) : Decidable s.Loops :=
  inferInstanceAs (Decidable (if s.workers = true ∧ s.spawned ≠ 0 then
    s.waiting = none ∧ (s.pending ≠ [] ∧ s.failed = false ∨ s.running ≠ [])
    else s.waiting = none ∧ s.retryScheduled = none ∧ s.running ≠ []))

/-- Whether one of the instances of a mapped task has failed, as far as they are looked at. -/
def casualty (s : Run) : List TaskId → Bool
  | [] => false
  | i :: rest =>
      if (s.results i).isSome then s.casualty rest
      else if (s.node i).status = .failed then true
      else if i ∈ s.skipped then s.casualty rest else false

/-- The mapped tasks that a pass adds to `mapped_tolerated`. -/
def casualties (s : Run) : Act → List TaskId
  | .turn thread cancelled =>
      if s.crashed = false ∧ cancelled = false ∧ (s.frames thread).head? = some ⟨[], true⟩ then
        (s.expanded.filter fun p => (s.node p.1).status = .expanded ∧ (s.node p.1).allowFailure = true ∧
          s.casualty p.2 = true).map Prod.fst
      else []
  | .ends _ _ _ _ | .checkpoint _ | .cached _ _ => []

theorem casualty_on (s : Run) (workers : Bool) (instances : List TaskId) :
    (s.on workers).casualty instances = s.casualty instances := by
  induction instances with
  | nil => rfl
  | cons i rest ih =>
      simp only [casualty, ih]
      rfl

theorem casualties_on (s : Run) (workers : Bool) (act : Act) : (s.on workers).casualties act = s.casualties act := by
  cases act with
  | turn thread cancelled =>
      unfold casualties
      simp only [casualty_on]
      rfl
  | ends thread flight ending swept => rfl
  | checkpoint label => rfl
  | cached key v => rfl

end Run

/-! ### The state and the handlers on both paths -/

section state

variable {K V : Type} [DecidableEq K] {values : Values V}

namespace Tracked

def on (x : Tracked K V) (workers : Bool) : Tracked K V := { x with run := x.run.on workers }

/-- What the run is made to do. -/
def asks (values : Values V) (x : Tracked K V) : StateAct K V → Option Act
  | .act (.ends thread flight ending swept) =>
      match x.run.taskOf flight with
      | none => none
      | some t =>
          if (x.endStep values t).2 then some (.ends thread flight ending swept)
          else if x.run.workers then some (.ends thread flight .raised swept)
          else none
  | .act act => some act
  | .checkpoint flight label =>
      match x.run.taskOf flight with
      | none => none
      | some t =>
          match x.steps t with
          | none => none
          | some writes =>
              if (foldAll values x.policies x.cells writes.contributions).2 then some (.checkpoint label) else none
  | .contribute _ _ _ | .write _ _ | .changeWrites _ _ _ _ | .changeCell _ _ => none

/-- A step that both paths take alike. When an attempt ends no fold raises. -/
def Alike (values : Values V) (x : Tracked K V) : StateAct K V → Prop
  | .act act => x.run.Alike act ∧
      match act with
      | .ends _ flight _ _ => ∀ t ∈ x.run.taskOf flight, (x.endStep values t).2 = true
      | .turn _ _ | .checkpoint _ | .cached _ _ => True
  | .contribute _ _ _ | .write _ _ | .changeWrites _ _ _ _ | .changeCell _ _ | .checkpoint _ _ => True

instance (x : Tracked K V) : (act : StateAct K V) → Decidable (x.Alike values act)
  | .act (.ends _ flight _ _) =>
      inferInstanceAs (Decidable (_ ∧ ∀ t ∈ x.run.taskOf flight, (x.endStep values t).2 = true))
  | .act (.turn _ _) | .act (.checkpoint _) | .act (.cached _ _) => inferInstanceAs (Decidable (_ ∧ True))
  | .contribute _ _ _ | .write _ _ | .changeWrites _ _ _ _ | .changeCell _ _ | .checkpoint _ _ => isTrue trivial

omit [DecidableEq K] in
theorem follow_on (x : Tracked K V) (workers : Bool) (run : Run) :
    (x.on workers).follow (run.on workers) = (x.follow run).on workers := by
  unfold follow
  show (match x.run.started run with
    | none => _
    | some t => _) = _
  generalize x.run.started run = started
  cases started with
  | none => rfl
  | some t => rfl

theorem endStep_on (x : Tracked K V) (workers : Bool) (t : TaskId) :
    (x.on workers).endStep values t = ((x.endStep values t).1.on workers, (x.endStep values t).2) := by
  unfold endStep
  have hsteps : (x.on workers).steps t = x.steps t := rfl
  rw [hsteps]
  cases x.steps t with
  | none => rfl
  | some writes => rfl

theorem contribute_on (x : Tracked K V) (workers : Bool) (flight : Nat) (key : K) (value : Cell V) :
    (x.on workers).contribute values flight key value = (x.contribute values flight key value).on workers := by
  unfold contribute
  have htask : (x.on workers).run.taskOf flight = x.run.taskOf flight := rfl
  rw [htask]
  cases x.run.taskOf flight with
  | none => rfl
  | some t =>
      have hsteps : (x.on workers).steps t = x.steps t := rfl
      simp only [hsteps]
      cases x.steps t with
      | none => rfl
      | some writes =>
          simp only []
          rw [apply_ite (on · workers)]
          rfl

theorem mark_on (x : Tracked K V) (workers : Bool) (flight : Nat) (label : String) :
    (x.on workers).mark values flight label = (x.mark values flight label).on workers := by
  unfold mark
  have htask : (x.on workers).run.taskOf flight = x.run.taskOf flight := rfl
  rw [htask]
  cases x.run.taskOf flight with
  | none => rfl
  | some t =>
      have hsteps : (x.on workers).steps t = x.steps t := rfl
      simp only [hsteps]
      cases x.steps t with
      | none => rfl
      | some writes =>
          have halike : x.run.Alike (.checkpoint label) := trivial
          have hrun : (x.on workers).run.perform (.checkpoint label) = (x.run.perform (.checkpoint label)).on workers :=
            halike.perform_on workers
          simp only [hrun]
          rw [apply_ite (on · workers)]
          rfl

theorem changeWrites_on (x : Tracked K V) (workers : Bool) (t : TaskId) (key : K) (i : Nat) (items : List V) :
    (x.on workers).changeWrites t key i items = (x.changeWrites t key i items).on workers := by
  unfold changeWrites
  have hsteps : (x.on workers).steps t = x.steps t := rfl
  rw [hsteps]
  cases x.steps t with
  | none => rfl
  | some writes => rfl

theorem Alike.asks_on {x : Tracked K V} {act : StateAct K V} (h : x.Alike values act) (workers : Bool) :
    (x.on workers).asks values act = x.asks values act := by
  rcases act with (_ | ⟨thread, flight, ending, swept⟩ | _ | _) | _ | _ | _ | _ | _
  case act.ends =>
    unfold asks
    have htask : (x.on workers).run.taskOf flight = x.run.taskOf flight := rfl
    simp only [htask, endStep_on]
    cases hended : x.run.taskOf flight with
    | none => rfl
    | some t =>
        have hfold : (x.endStep values t).2 = true := h.2 t hended
        simp only [hfold, if_true]
  all_goals rfl

theorem Alike.perform_on {x : Tracked K V} {act : StateAct K V} (h : x.Alike values act) (workers : Bool) :
    (x.on workers).perform values act = (x.perform values act).on workers := by
  have hfollows : ∀ (y : Tracked K V) (act : Act), x.run.Alike act →
      (y.on workers).follow ((x.on workers).run.perform act) = (y.follow (x.run.perform act)).on workers := by
    intro y act hact
    have hrun : (x.on workers).run.perform act = (x.run.perform act).on workers := hact.perform_on workers
    rw [hrun]
    exact follow_on y workers _
  unfold Tracked.perform
  rw [apply_ite (on · workers)]
  refine if_congr Iff.rfl rfl ?_
  cases act with
  | act act =>
      cases act with
      | ends thread flight ending swept =>
          have htask : (x.on workers).run.taskOf flight = x.run.taskOf flight := rfl
          simp only [htask]
          cases hended : x.run.taskOf flight with
          | none => rfl
          | some t =>
              have hfold : (x.endStep values t).2 = true := h.2 t hended
              simp only [endAttempt, endStep_on, hfold, if_true]
              exact hfollows { (x.endStep values t).1 with ended := x.ended ++ [(flight, t)] } _ h.1
      | turn thread cancelled => exact hfollows x _ h.1
      | checkpoint label => exact hfollows x _ h.1
      | cached key v => exact hfollows x _ h.1
  | contribute flight key value => exact contribute_on x workers flight key value
  | write key value => rfl
  | changeWrites t key i items => exact changeWrites_on x workers t key i items
  | changeCell key items => rfl
  | checkpoint flight label => exact mark_on x workers flight label

end Tracked

end state

namespace Unwinding

variable {x y : Unwinding} {invoke : String → Value → Except String Value}

/-- The one is a run on worker threads and the other one is the same on the scheduler, but for the numbers. -/
structure Mirrors (y x : Unwinding) : Prop where
  run : y.run = x.run.on true
  handlers : y.handlers = x.handlers
  result : y.result = x.result
  compensationPending : y.compensationPending = x.compensationPending
  failedBefore : y.failedBefore = x.failedBefore

/-- The numbers of the tasks that have a handler. -/
def SameNumbers (y x : Unwinding) : Prop := ∀ t, x.Handled t → y.completionSeq t = x.completionSeq t

theorem Mirrors.complete (h : y.Mirrors x) (act : Act) : (y.complete act).Mirrors (x.complete act) := by
  have hcompletes : y.run.completes act = x.run.completes act := by
    rw [h.run]
    cases act with
    | ends thread flight ending swept =>
        cases ending with
        | returned v => rfl
        | errorValue v => rfl
        | waits => rfl
        | raised => rfl
    | turn thread cancelled => rfl
    | checkpoint label => rfl
    | cached key v => rfl
  have hfields : ∀ z : Unwinding, (z.complete act).run = z.run ∧ (z.complete act).handlers = z.handlers ∧
      (z.complete act).compensationPending = z.compensationPending ∧ (z.complete act).failedBefore = z.failedBefore ∧
      (z.complete act).result = (z.run.completes act).elim z.result fun p => Function.update z.result p.1 p.2 := by
    intro z
    unfold Unwinding.complete
    cases z.run.completes act with
    | none => exact ⟨rfl, rfl, rfl, rfl, rfl⟩
    | some p =>
        simp only []
        split
        · exact ⟨rfl, rfl, rfl, rfl, rfl⟩
        · exact ⟨rfl, rfl, rfl, rfl, rfl⟩
  obtain ⟨hrun, hhandlers, hpending, hbefore, hresult⟩ := hfields x
  obtain ⟨hrun', hhandlers', hpending', hbefore', hresult'⟩ := hfields y
  refine ⟨?_, ?_, ?_, ?_, ?_⟩
  · rw [hrun, hrun', h.run]
  · rw [hhandlers, hhandlers', h.handlers]
  · rw [hresult, hresult', hcompletes, h.result]
  · rw [hpending, hpending', h.compensationPending]
  · rw [hbefore, hbefore', h.failedBefore]

theorem Mirrors.answer (h : y.Mirrors x) (run : Run) : (y.answer (run.on true)).Mirrors (x.answer run) := by
  have hstarted : y.run.started (run.on true) = x.run.started run := by
    rw [h.run]
    rfl
  have hspawned : y.run.spawned = x.run.spawned := by
    rw [h.run]
    rfl
  unfold Unwinding.answer
  rw [hstarted]
  cases x.run.started run with
  | none => exact h
  | some t =>
      simp only []
      rw [hspawned]
      show Mirrors (if run.spawned = x.run.spawned then _ else _) _
      split
      · refine ⟨h.run, h.handlers, ?_, h.compensationPending, h.failedBefore⟩
        show Function.update y.result t _ = Function.update x.result t _
        rw [h.result]
        rfl
      · exact h

theorem Mirrors.perform (h : y.Mirrors x) {act : Act} (halike : x.run.Alike act) :
    (y.perform (.act act)).Mirrors (x.perform (.act act)) := by
  have hrun : y.run.perform act = (x.run.perform act).on true := by
    rw [h.run]
    exact halike.perform_on true
  have hfails : y.run.failsRun act = x.run.failsRun act := by
    cases act with
    | ends thread flight ending swept =>
        show (!y.run.failed && (y.run.perform _).failed) = (!x.run.failed && (x.run.perform _).failed)
        rw [hrun, h.run]
        rfl
    | turn thread cancelled => rfl
    | checkpoint label => rfl
    | cached key v => rfl
  have hanswer := (h.complete act).answer (x.run.perform act)
  rw [perform_act, perform_act, hrun, hfails, h.compensationPending]
  exact ⟨rfl, hanswer.handlers, hanswer.result, rfl, hanswer.failedBefore⟩

/-- A body completes, and no handler is declared for its task. -/
def Unhandled (x : Unwinding) (act : Act) : Prop := ¬ Run.Parks act → ∀ p ∈ x.run.completes act, ¬ x.Handled p.1

instance (x : Unwinding) (act : Act) : Decidable (x.Unhandled act) :=
  inferInstanceAs (Decidable (_ → ∀ p ∈ x.run.completes act, _))

theorem completionSeq_perform (x : Unwinding) (act : Act) :
    (x.perform (.act act)).completionSeq = (x.complete act).completionSeq := by
  obtain ⟨result, he, -⟩ := answer_eq (x.complete act) (x.run.perform act)
  rw [perform_act, he]

theorem SameNumbers.perform (h : y.SameNumbers x) (hmirrors : y.Mirrors x) {act : Act} (hunhandled : x.Unhandled act) :
    (y.perform (.act act)).SameNumbers (x.perform (.act act)) := by
  have hhandlers : (x.perform (.act act)).handlers = x.handlers := by
    obtain ⟨result, he, -⟩ := answer_eq (x.complete act) (x.run.perform act)
    rw [perform_act, he]
    unfold Unwinding.complete
    split
    · rfl
    · split
      · rfl
      · rfl
  intro t ht
  have ht : x.Handled t := by
    unfold Handled at ht ⊢
    rwa [hhandlers] at ht
  have hthreads : (y.complete act).completionSeq = y.completionSeq := by
    unfold Unwinding.complete
    have hworkers : y.run.workers = true := by
      rw [hmirrors.run]
      rfl
    split
    · rfl
    · rw [if_pos (.inl hworkers)]
  have hscheduler : (x.complete act).completionSeq t = x.completionSeq t := by
    unfold Unwinding.complete
    cases hcompletes : x.run.completes act with
    | none => rfl
    | some p =>
        simp only []
        split
        · rfl
        · next hnumbered =>
            have hne : t ≠ p.1 := by
              rintro rfl
              exact hunhandled (fun hparks => hnumbered (.inr hparks)) p hcompletes ht
            exact Function.update_of_ne hne _ _
  rw [completionSeq_perform, completionSeq_perform, hthreads, hscheduler]
  exact h t ht

theorem runCompensation_eq (hmirrors : y.Mirrors x) (h : y.SameNumbers x) :
    y.runCompensation invoke = x.runCompensation invoke := by
  have hcompensate : ∀ t, y.compensate invoke t (y.result t) = x.compensate invoke t (x.result t) := by
    intro t
    unfold compensate
    rw [hmirrors.handlers, hmirrors.result]
  have htasks : y.run.tasks = x.run.tasks := by
    rw [hmirrors.run]
    rfl
  have hfilter : (y.run.tasks.filter fun t => (y.completionSeq t).isSome && (y.handlers t.task).isSome) =
      x.run.tasks.filter fun t => (x.completionSeq t).isSome && (x.handlers t.task).isSome := by
    rw [htasks, hmirrors.handlers]
    refine List.filter_congr fun t _ => ?_
    cases hhandled : (x.handlers t.task).isSome with
    | false => rw [Bool.and_false, Bool.and_false]
    | true => rw [h t hhandled]
  unfold runCompensation
  simp only []
  rw [hfilter]
  generalize hcompleted : (x.run.tasks.filter fun t => (x.completionSeq t).isSome && (x.handlers t.task).isSome) = completed
  have hhandled : ∀ t ∈ completed, x.Handled t := by
    intro t ht
    rw [← hcompleted] at ht
    exact (Bool.and_eq_true_iff.mp (List.mem_filter.mp ht).2).2
  have hsorted := List.map_insertionSort (fun t u => (y.completionSeq u).getD 0 ≤ (y.completionSeq t).getD 0)
    (fun t u => (x.completionSeq u).getD 0 ≤ (x.completionSeq t).getD 0) id completed fun t ht u hu => by
      rw [h t (hhandled t ht), h u (hhandled u hu)]
      rfl
  rw [List.map_id, List.map_id] at hsorted
  rw [hsorted]
  exact List.filterMap_congr fun t _ => hcompensate t

/-- The records of a run that returns are the same if the numbers are, or if there is nothing to undo. -/
theorem returned_eq (hmirrors : y.Mirrors x) (h : y.SameNumbers x ∨ x.compensationPending = false) :
    y.returned invoke = x.returned invoke := by
  unfold returned
  rw [hmirrors.run, hmirrors.failedBefore, hmirrors.compensationPending]
  refine if_congr Iff.rfl ?_ rfl
  rcases h with hnumbers | hcalm
  · rw [runCompensation_eq hmirrors hnumbers]
  · rw [if_neg (by rw [hcalm]; exact Bool.false_ne_true), if_neg (by rw [hcalm]; exact Bool.false_ne_true)]

end Unwinding

/-- The run goes on, with what it has been made to do. -/
def Unwinding.follow (x : Unwinding) (asked : Option Act) (run : Run) : Unwinding :=
  match asked with
  | none => { x with run }
  | some act => { x.perform (.act act) with run }

theorem Unwinding.follow_run (x : Unwinding) (asked : Option Act) (run : Run) : (x.follow asked run).run = run := by
  cases asked with
  | none => rfl
  | some act => rfl

theorem Unwinding.Mirrors.follow {x y : Unwinding} (h : y.Mirrors x) {asked : Option Act}
    (halike : ∀ act ∈ asked, x.run.Alike act) (run : Run) : (y.follow asked (run.on true)).Mirrors (x.follow asked run) := by
  cases asked with
  | none => exact ⟨rfl, h.handlers, h.result, h.compensationPending, h.failedBefore⟩
  | some act =>
      have hperform := h.perform (halike act rfl)
      exact ⟨rfl, hperform.handlers, hperform.result, hperform.compensationPending, hperform.failedBefore⟩

section state

variable {K V : Type} [DecidableEq K] {values : Values V}

/-- A run of a workflow with its state and with the handlers of its steps. -/
structure Dispatched (K V : Type) where
  tracked : Tracked K V
  unwinding : Unwinding
  /-- The mapped tasks that have tolerated the failure of an instance. -/
  mappedTolerated : List TaskId := []
  /-- The request thread has come to its loop. -/
  looping : Bool := false
  same : unwinding.run = tracked.run

inductive DispatchAct (K V : Type) where
  | act (act : StateAct K V)
  /-- The request thread goes on to its loop. -/
  | loop

/-- What a run returns: what has become of every task, and of the state, and what has been undone. -/
structure RunReport (K V : Type) where
  report : Report
  taskStatuses : List (TaskId × Reported)
  results : List (TaskId × Option Value)
  failed : List TaskId
  tolerated : List TaskId
  state : K → Cell V
  compensation : List CompensationRecord

namespace Dispatched

variable {x y : Dispatched K V}

def run (x : Dispatched K V) : Run := x.tracked.run

/-- The run on the other path. -/
def on (x : Dispatched K V) (workers : Bool) : Dispatched K V where
  tracked := x.tracked.on workers
  unwinding := { x.unwinding with run := x.unwinding.run.on workers }
  mappedTolerated := x.mappedTolerated
  looping := x.looping
  same := by rw [x.same]; rfl

def perform (values : Values V) (x : Dispatched K V) : DispatchAct K V → Dispatched K V
  | .loop =>
      if x.run.crashed = false ∧ x.run.frames 0 = [] ∧ x.run.failed = false ∧ x.run.waiting = none ∧
          x.run.retryScheduled = none then
        { x with looping := true }
      else x
  | .act act =>
      { x with
        tracked := x.tracked.perform values act
        unwinding := x.unwinding.follow (x.tracked.asks values act) (x.tracked.perform values act).run
        mappedTolerated := (x.tracked.asks values act).elim [] x.run.casualties ++ x.mappedTolerated
        same := Unwinding.follow_run _ _ _ }

def performs (values : Values V) (x : Dispatched K V) (acts : List (DispatchAct K V)) : Dispatched K V :=
  acts.foldl (perform values) x

/-- The request thread finds that it can return. -/
structure Returned (x : Dispatched K V) : Prop where
  crashed : x.run.crashed = false
  frames : ∀ thread, x.run.frames thread = []
  left : if x.looping then ¬ x.run.Loops
    else x.run.failed = true ∨ x.run.waiting ≠ none ∨ x.run.retryScheduled ≠ none

/-- `_add_tolerated`. -/
def tolerated (x : Dispatched K V) : List TaskId :=
  x.run.tasks.filter fun t => (x.run.node t).eachIndex = none ∧
    ((x.run.node t).status = .failed ∧ (x.run.node t).allowFailure = true ∨ t ∈ x.mappedTolerated)

def report (invoke : String → Value → Except String Value) (x : Dispatched K V) : RunReport K V where
  report := x.run.report
  taskStatuses := x.run.tasks.map fun t => (t, x.run.reported t)
  results := x.run.tasks.map fun t => (t, x.run.results t)
  failed := if x.run.failed then x.run.failedNames else []
  tolerated := x.tolerated
  state := x.tracked.cells
  compensation := x.unwinding.returned invoke

/-- The two return in the same states, and what they return is the same. -/
structure SameReport (invoke : String → Value → Except String Value) (y x : Dispatched K V) : Prop where
  returned : y.Returned ↔ x.Returned
  report : x.Returned → y.report invoke = x.report invoke

/-! ### The conditions -/

/-- A step that both paths take alike. -/
def Alike (values : Values V) (x : Dispatched K V) : DispatchAct K V → Prop
  | .act act => x.tracked.Alike values act
  | .loop => True

/-- The body of no task that has a handler completes. -/
def Unhandled (values : Values V) (x : Dispatched K V) : DispatchAct K V → Prop
  | .act act => ∀ a ∈ x.tracked.asks values act, x.unwinding.Unhandled a
  | .loop => True

/-- No attempt fails for good, unless the run has failed before. -/
def Spared (values : Values V) (x : Dispatched K V) : DispatchAct K V → Prop
  | .act act => ∀ a ∈ x.tracked.asks values act, x.run.failed = false → ¬ x.run.FailsForGood a
  | .loop => True

def Fits (values : Values V) (x : Dispatched K V) : DispatchAct K V → Prop
  | .act act => ∀ a ∈ x.tracked.asks values act, x.run.Fits a
  | .loop => True

/-- A condition holds at every step. -/
def All (values : Values V) (step : Dispatched K V → DispatchAct K V → Prop) (x : Dispatched K V) :
    List (DispatchAct K V) → Prop
  | [] => True
  | act :: acts => step x act ∧ All values step (x.perform values act) acts

instance (x : Dispatched K V) : (act : DispatchAct K V) → Decidable (x.Alike values act)
  | .act act => inferInstanceAs (Decidable (x.tracked.Alike values act))
  | .loop => isTrue trivial

instance (x : Dispatched K V) : (act : DispatchAct K V) → Decidable (x.Spared values act)
  | .act act => inferInstanceAs (Decidable (∀ a ∈ x.tracked.asks values act, _ → _))
  | .loop => isTrue trivial

instance (x : Dispatched K V) : (act : DispatchAct K V) → Decidable (x.Fits values act)
  | .act act => inferInstanceAs (Decidable (∀ a ∈ x.tracked.asks values act, _))
  | .loop => isTrue trivial

instance decidableAll (step : Dispatched K V → DispatchAct K V → Prop) [∀ x act, Decidable (step x act)] (x : Dispatched K V) :
    (acts : List (DispatchAct K V)) → Decidable (x.All values step acts)
  | [] => isTrue trivial
  | act :: acts => @instDecidableAnd _ _ _ (decidableAll step (x.perform values act) acts)

/-- Where the request thread has come to its loop and the run does not wait: no retry is left to a sweep, unless the run has
failed and nothing is running. If the run has not failed and a body has been started, every step fits, the run has not been found
cancelled, and every pending task accepts what the tasks that it depends on have come to. -/
def Settles (values : Values V) (x : Dispatched K V) (acts : List (DispatchAct K V)) : Prop :=
  (x.performs values acts).looping = true → (x.performs values acts).run.waiting = none →
    ((x.performs values acts).run.retryScheduled ≠ none →
      (x.performs values acts).run.failed = true ∧ (x.performs values acts).run.running = []) ∧
    ((x.performs values acts).run.failed = false → (x.performs values acts).run.spawned ≠ 0 →
      x.All values (Fits values) acts ∧ (x.performs values acts).run.cancelled = false ∧
        (x.performs values acts).run.Accepting)

/-! ### Both paths do the same -/

/-- The one is a run on worker threads and the other one is the same on the scheduler, but for the numbers. -/
structure Mirrors (y x : Dispatched K V) : Prop where
  tracked : y.tracked = x.tracked.on true
  unwinding : y.unwinding.Mirrors x.unwinding
  mappedTolerated : y.mappedTolerated = x.mappedTolerated
  looping : y.looping = x.looping
  scheduler : x.run.workers = false

omit [DecidableEq K] in
theorem Mirrors.run (h : y.Mirrors x) : y.run = x.run.on true := congrArg Tracked.run h.tracked

omit [DecidableEq K] in
theorem mirrors_on (x : Dispatched K V) (hscheduler : x.run.workers = false) : (x.on true).Mirrors x :=
  ⟨rfl, ⟨rfl, rfl, rfl, rfl, rfl⟩, rfl, rfl, hscheduler⟩

theorem alike_of_asks {act : StateAct K V} (h : x.tracked.Alike values act) {a : Act} (ha : a ∈ x.tracked.asks values act) :
    x.unwinding.run.Alike a := by
  rw [x.same]
  cases act with
  | act act =>
      cases act with
      | ends thread flight ending swept =>
          simp only [Tracked.asks] at ha
          cases htask : x.tracked.run.taskOf flight with
          | none =>
              rw [htask] at ha
              cases ha
          | some t =>
              have hfold : (x.tracked.endStep values t).2 = true := h.2 t htask
              simp only [htask, hfold, if_true, Option.mem_def, Option.some.injEq] at ha
              rw [← ha]
              exact h.1
      | turn thread cancelled =>
          cases ha
          exact h.1
      | checkpoint label =>
          cases ha
          exact h.1
      | cached key v =>
          cases ha
          exact h.1
  | checkpoint flight label =>
      simp only [Tracked.asks] at ha
      split at ha
      · cases ha
      · split at ha
        · cases ha
        · split at ha
          · cases ha
            exact trivial
          · cases ha
  | contribute flight key value => cases ha
  | write key value => cases ha
  | changeWrites t key i items => cases ha
  | changeCell key items => cases ha

theorem Mirrors.perform (h : y.Mirrors x) {act : DispatchAct K V} (halike : x.Alike values act) :
    (y.perform values act).Mirrors (x.perform values act) := by
  cases act with
  | loop =>
      have hcond : (y.run.crashed = false ∧ y.run.frames 0 = [] ∧ y.run.failed = false ∧ y.run.waiting = none ∧
          y.run.retryScheduled = none) ↔ (x.run.crashed = false ∧ x.run.frames 0 = [] ∧ x.run.failed = false ∧
          x.run.waiting = none ∧ x.run.retryScheduled = none) := by
        rw [h.run]
        rfl
      unfold Dispatched.perform
      simp only []
      split
      · next hcond' =>
          rw [if_pos (hcond.mp hcond')]
          exact ⟨h.tracked, h.unwinding, h.mappedTolerated, rfl, h.scheduler⟩
      · next hcond' =>
          rw [if_neg fun hc => hcond' (hcond.mpr hc)]
          exact h
  | act act =>
      have halike : x.tracked.Alike values act := halike
      have htracked : y.tracked.perform values act = (x.tracked.perform values act).on true := by
        rw [h.tracked]
        exact halike.perform_on true
      have hasks : y.tracked.asks values act = x.tracked.asks values act := by
        rw [h.tracked]
        exact halike.asks_on true
      have hself : x.tracked.perform values act = (x.tracked.perform values act).on x.run.workers :=
        halike.perform_on x.run.workers
      have hworkers : (x.tracked.perform values act).run.workers = false := by
        rw [hself]
        exact h.scheduler
      refine ⟨htracked, ?_, ?_, h.looping, hworkers⟩
      · show Unwinding.Mirrors (y.unwinding.follow (y.tracked.asks values act) (y.tracked.perform values act).run) _
        rw [hasks, htracked]
        exact h.unwinding.follow (fun a ha => alike_of_asks halike ha) _
      · show (y.tracked.asks values act).elim [] y.run.casualties ++ y.mappedTolerated = _
        have hcasualties : y.run.casualties = x.run.casualties := by
          rw [h.run]
          funext a
          exact Run.casualties_on x.run true a
        rw [hasks, hcasualties, h.mappedTolerated]
        rfl

theorem Mirrors.performs (h : y.Mirrors x) (acts : List (DispatchAct K V)) (halike : x.All values (Alike values) acts) :
    (y.performs values acts).Mirrors (x.performs values acts) := by
  induction acts generalizing y x with
  | nil => exact h
  | cons act acts ih => exact ih (h.perform halike.1) halike.2

theorem sameNumbers_performs (h : y.Mirrors x) (hnumbers : y.unwinding.SameNumbers x.unwinding)
    (acts : List (DispatchAct K V)) (halike : x.All values (Alike values) acts)
    (hunhandled : x.All values (Unhandled values) acts) :
    (y.performs values acts).unwinding.SameNumbers (x.performs values acts).unwinding := by
  induction acts generalizing y x with
  | nil => exact hnumbers
  | cons act acts ih =>
      refine ih (h.perform halike.1) ?_ halike.2 hunhandled.2
      cases act with
      | loop =>
          have hkept : ∀ z : Dispatched K V, (z.perform values .loop).unwinding = z.unwinding := by
            intro z
            unfold Dispatched.perform
            simp only []
            split
            · rfl
            · rfl
          rw [hkept, hkept]
          exact hnumbers
      | act act =>
          have hasks : y.tracked.asks values act = x.tracked.asks values act := by
            rw [h.tracked]
            exact halike.1.asks_on true
          show Unwinding.SameNumbers (y.unwinding.follow (y.tracked.asks values act) _) (x.unwinding.follow _ _)
          rw [hasks]
          cases ha : x.tracked.asks values act with
          | none => exact hnumbers
          | some a => exact hnumbers.perform h.unwinding (hunhandled.1 a ha)

theorem calm_performs (hcalm : x.unwinding.compensationPending = false) (acts : List (DispatchAct K V))
    (halike : x.All values (Alike values) acts) (hspared : x.All values (Spared values) acts) :
    (x.performs values acts).unwinding.compensationPending = false := by
  induction acts generalizing x with
  | nil => exact hcalm
  | cons act acts ih =>
      refine ih ?_ halike.2 hspared.2
      cases act with
      | loop =>
          unfold Dispatched.perform
          simp only []
          split
          · exact hcalm
          · exact hcalm
      | act act =>
          show (x.unwinding.follow (x.tracked.asks values act) _).compensationPending = false
          cases ha : x.tracked.asks values act with
          | none => exact hcalm
          | some a =>
              show (x.unwinding.compensationPending || x.unwinding.run.failsRun a) = false
              rw [hcalm, Bool.false_or]
              by_contra hfails
              obtain ⟨hrun, hgood⟩ := (alike_of_asks halike.1 ha).forGood (eq_true_of_ne_false hfails)
              rw [x.same] at hrun hgood
              exact hspared.1 a ha hrun hgood

theorem run_perform {act : StateAct K V} (h : x.tracked.Alike values act) :
    (x.perform values (.act act)).run = (x.tracked.asks values act).elim x.run x.run.perform := by
  have hfollow : ∀ (z : Tracked K V) (run : Run), (z.follow run).run = run := by
    intro z run
    unfold Tracked.follow
    split
    · rfl
    · rfl
  show (x.tracked.perform values act).run = _
  unfold Tracked.perform
  split
  · next hcrashed =>
      cases x.tracked.asks values act with
      | none => rfl
      | some a =>
          show x.tracked.run = x.tracked.run.perform a
          unfold Run.perform
          rw [if_pos hcrashed]
  · cases act with
    | act act =>
        cases act with
        | ends thread flight ending swept =>
            simp only [Tracked.asks]
            cases htask : x.tracked.run.taskOf flight with
            | none => rfl
            | some t =>
                have hfold : (x.tracked.endStep values t).2 = true := h.2 t htask
                simp only [Tracked.endAttempt, hfold, if_true]
                exact hfollow _ _
        | turn thread cancelled => exact hfollow _ _
        | checkpoint label => exact hfollow _ _
        | cached key v => exact hfollow _ _
    | contribute flight key value =>
        simp only [Tracked.contribute, Tracked.asks]
        split
        · rfl
        · split
          · rfl
          · split
            · rfl
            · rfl
    | write key value => rfl
    | changeWrites t key i items =>
        simp only [Tracked.changeWrites, Tracked.asks]
        split
        · rfl
        · rfl
    | changeCell key items => rfl
    | checkpoint flight label =>
        simp only [Tracked.mark, Tracked.asks]
        cases x.tracked.run.taskOf flight with
        | none => rfl
        | some t =>
            simp only []
            cases x.tracked.steps t with
            | none => rfl
            | some writes =>
                simp only []
                split
                · rfl
                · rfl

section runs

variable {node : TaskId → TaskNode} {tasks : List TaskId}

theorem regular_performs (h : Run.Regular node tasks x.run ∨ x.run.Over) (acts : List (DispatchAct K V))
    (halike : x.All values (Alike values) acts) (hfits : x.All values (Fits values) acts) :
    Run.Regular node tasks (x.performs values acts).run ∨ (x.performs values acts).run.Over := by
  induction acts generalizing x with
  | nil => exact h
  | cons act acts ih =>
      refine ih ?_ halike.2 hfits.2
      cases act with
      | loop =>
          have hkept : (x.perform values .loop).run = x.run := by
            unfold Dispatched.perform
            simp only []
            split
            · rfl
            · rfl
          rw [hkept]
          exact h
      | act act =>
          rw [run_perform halike.1]
          cases ha : x.tracked.asks values act with
          | none => exact h
          | some a => exact h.imp (fun hregular => hregular.perform (hfits.1 a ha)) fun hover => hover.perform a

omit [DecidableEq K] in
theorem loops_iff (h : y.Mirrors x)
    (hsettles : x.run.waiting = none → (x.run.retryScheduled ≠ none → x.run.failed = true ∧ x.run.running = []) ∧
      (x.run.failed = false → x.run.spawned ≠ 0 → x.run.running = [] → x.run.pending = [])) :
    y.run.Loops ↔ x.run.Loops := by
  have hscheduler : x.run.Loops ↔ x.run.waiting = none ∧ x.run.retryScheduled = none ∧ x.run.running ≠ [] := by
    unfold Run.Loops
    rw [if_neg fun hboth => Bool.false_ne_true (h.scheduler.symm.trans hboth.1)]
  rw [hscheduler, h.run]
  show (if true = true ∧ x.run.spawned ≠ 0 then x.run.waiting = none ∧ (x.run.pending ≠ [] ∧ x.run.failed = false ∨
    x.run.running ≠ []) else x.run.waiting = none ∧ x.run.retryScheduled = none ∧ x.run.running ≠ []) ↔ _
  split
  · next hspawned =>
      constructor
      · rintro ⟨hwaiting, hwhy⟩
        obtain ⟨hretry, hpending⟩ := hsettles hwaiting
        rcases hwhy with ⟨hne, hcalm⟩ | hrunning
        · have hrunning : x.run.running ≠ [] := fun hnone => hne (hpending hcalm hspawned.2 hnone)
          refine ⟨hwaiting, ?_, hrunning⟩
          by_contra hsome
          exact hrunning (hretry hsome).2
        · refine ⟨hwaiting, ?_, hrunning⟩
          by_contra hsome
          exact hrunning (hretry hsome).2
      · rintro ⟨hwaiting, -, hrunning⟩
        exact ⟨hwaiting, .inr hrunning⟩
  · exact Iff.rfl

omit [DecidableEq K] in
theorem Mirrors.sameReport (h : y.Mirrors x) (hloops : (∀ thread, x.run.frames thread = []) → x.run.crashed = false →
      x.looping = true → (y.run.Loops ↔ x.run.Loops)) {invoke : String → Value → Except String Value}
    (hrecords : y.unwinding.returned invoke = x.unwinding.returned invoke) : SameReport invoke y x where
  returned := by
    have hcrashed : y.run.crashed = x.run.crashed := by
      rw [h.run]
      rfl
    have hframes : y.run.frames = x.run.frames := by
      rw [h.run]
      rfl
    have hfirst : (y.run.failed = true ∨ y.run.waiting ≠ none ∨ y.run.retryScheduled ≠ none) ↔
        (x.run.failed = true ∨ x.run.waiting ≠ none ∨ x.run.retryScheduled ≠ none) := by
      rw [h.run]
      rfl
    have hover : (∀ thread, x.run.frames thread = []) → x.run.crashed = false →
        ((if y.looping then ¬ y.run.Loops
            else y.run.failed = true ∨ y.run.waiting ≠ none ∨ y.run.retryScheduled ≠ none) ↔
          if x.looping then ¬ x.run.Loops
            else x.run.failed = true ∨ x.run.waiting ≠ none ∨ x.run.retryScheduled ≠ none) := by
      intro hidle hsafe
      rw [h.looping]
      split
      · next hlooping => exact not_congr (hloops hidle hsafe hlooping)
      · exact hfirst
    constructor
    · rintro ⟨hc, hf, ho⟩
      rw [hcrashed] at hc
      rw [hframes] at hf
      exact ⟨hc, hf, (hover hf hc).mp ho⟩
    · rintro ⟨hc, hf, ho⟩
      exact ⟨hcrashed.trans hc, fun thread => (congrFun hframes thread).trans (hf thread), (hover hf hc).mpr ho⟩
  report _ := by
    unfold report tolerated
    rw [hrecords, h.run, h.tracked, h.mappedTolerated]
    rfl

/-- A run begins. The tasks may have numbers and results of an earlier execution. -/
def begun (tracked : Tracked K V) (handlers : Nat → Option String) (completionSeq : TaskId → Option Nat)
    (result : TaskId → Value) : Dispatched K V where
  tracked
  unwinding := { run := tracked.run, handlers, completionSeq, result, failedBefore := tracked.run.failed }
  same := rfl

end runs

end Dispatched

end state

namespace Dispatched

/-! The three tasks in a row, without a state. -/

def rowBegun : Dispatched Unit Nat :=
  begun (Tracked.fresh Unwinding.rowNode Unwinding.rowTasks false (fun _ => .any) (fun _ => true) fun _ => .nil)
    Unwinding.rowHandlers (fun _ => none) fun _ => .nil

/-- The bodies of the first two return. -/
def rowDispatch (ending : Ending) : List (DispatchAct Unit Nat) :=
  [.act (.act (.turn 0 false)), .act (.act (.turn 0 false)), .act (.act (.turn 0 false)), .loop,
    .act (.act (.ends 1 0 (.returned (.atom 0)) false)), .act (.act (.turn 1 false)), .act (.act (.turn 1 false)),
    .act (.act (.turn 1 false)), .act (.act (.ends 2 1 (.returned (.atom 1)) false)), .act (.act (.turn 2 false)),
    .act (.act (.turn 2 false)), .act (.act (.turn 2 false)), .act (.act (.ends 3 2 ending false)),
    .act (.act (.turn 3 false)), .act (.act (.turn 3 false))]

theorem acyclic_row : Run.Acyclic Unwinding.rowNode Unwinding.rowTasks :=
  Run.Acyclic.of_rank TaskId.task (by decide) (by decide)

end Dispatched

end Nodus.Orchestration
