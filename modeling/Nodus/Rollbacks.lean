import Nodus.Search
import Nodus.StateTotals
import Nodus.TaskReport

/-! Resuming a run from a checkpoint. The cells are put back to what they held when the checkpoint was recorded, the tasks by
what depends on the one that recorded it. -/

namespace Nodus.Orchestration

namespace Run

variable {node : TaskId → TaskNode} {tasks : List TaskId} {t u : TaskId}

/-- `dependents`: the tasks that depend on a task, once for every time they name it. -/
def dependents (node : TaskId → TaskNode) (tasks : List TaskId) (t : TaskId) : List TaskId :=
  tasks.flatMap fun u => ((node u).dependencies.filter (· = t)).map fun _ => u

/-- The tasks that a rollback resets. An instance of a mapped task is no task of the graph. -/
def resetTasks (node : TaskId → TaskNode) (tasks : List TaskId) (t : TaskId) : List TaskId :=
  if t ∈ tasks then
    Search.search (dependents node tasks) (2 + ∑ u ∈ tasks.toFinset, (dependents node tasks u).length) [t] []
  else []

/-- `_rollback_to_checkpoint`. -/
def rollbackToCheckpoint (node : TaskId → TaskNode) (tasks : List TaskId) (t : TaskId)
    (saved : TaskId → Option SavedTask) (u : TaskId) : Option SavedTask :=
  if u ∈ resetTasks node tasks t then (saved u).map fun _ => ⟨.pending, 0, none⟩ else saved u

/-- The step of a task stays completed. A mapped step is completed when all of its instances are done. -/
def StaysCompleted (saved : TaskId → Option SavedTask) (t : TaskId) : Prop :=
  ∃ task ∈ saved ⟨t.task, none⟩, task.state = .completed ∨ task.state = .done

instance (saved : TaskId → Option SavedTask) (t : TaskId) : Decidable (StaysCompleted saved t) :=
  inferInstanceAs (Decidable (∃ task ∈ saved ⟨t.task, none⟩, _))

end Run

/-- What a run is resumed from. -/
structure Resumption (K V : Type) where
  cells : K → Cell V
  saved : TaskId → Option Run.SavedTask

section state

variable {K V : Type} {values : Values V} {key : K} {n : Int} {node : TaskId → TaskNode} {tasks : List TaskId}

namespace Tracked

variable {x : Tracked K V}

/-- `resume_workflow`, as far as it changes what has been saved: with a label the last checkpoint of that label is looked for,
and the run is not resumed if there is none. -/
def resumption (x : Tracked K V) (node : TaskId → TaskNode) (tasks : List TaskId) : Option String → Option (Resumption K V)
  | none => some ⟨fun key => if x.durable key then x.cells key else .nil, x.run.saved⟩
  | some label => (x.marks.find? (·.label = label)).map fun mark =>
      ⟨mark.base, Run.rollbackToCheckpoint node tasks mark.task x.run.saved⟩

/-- A run that is resumed, up to the first call of `schedule_ready`. -/
def resumed (x : Tracked K V) (node : TaskId → TaskNode) (tasks : List TaskId) (checkpoint : Option String)
    (r : Resumption K V) (workers : Bool) (storedPending : Option (List TaskId)) (order : TaskId → Nat)
    (labels : List String) (parked : List TaskId) : Tracked K V :=
  { run := Run.resumed node tasks workers true r.saved storedPending order labels parked
    policies := x.policies
    durable := x.durable
    cells := r.cells
    marks := x.marks
    execution := x.execution + 1
    past := if checkpoint.isSome then x.attempts.filter fun a => Run.StaysCompleted r.saved a.task else x.attempts }

end Tracked

variable [DecidableEq K]

/-- The number that a cell holds. -/
def Cell.number : Cell V → Int
  | .int m => m
  | _ => 0

/-- What an attempt has contributed to a cell, if these are numbers. -/
def Attempt.amount (key : K) (a : Attempt K V) : Int := ((contributedTo key a.made).map Cell.number).sum

/-- What attempts have contributed to a cell. -/
def total (key : K) (attempts : List (Attempt K V)) : Int := (attempts.map (Attempt.amount key)).sum

theorem total_append (key : K) (attempts attempts' : List (Attempt K V)) :
    total key (attempts ++ attempts') = total key attempts + total key attempts' := by
  unfold total
  rw [List.map_append, List.sum_append]

theorem amount_of_empty {a : Attempt K V} (h : contributedTo key a.made = []) : a.amount key = 0 := by
  unfold Attempt.amount
  rw [h]
  rfl

theorem total_contributed (key : K) (attempts : List (Attempt K V)) :
    total key (attempts.filter fun a => contributedTo key a.made ≠ []) = total key attempts := by
  induction attempts with
  | nil => rfl
  | cons a attempts ih =>
      have hcons : total key (a :: attempts) = a.amount key + total key attempts := List.sum_cons
      by_cases ha : contributedTo key a.made = []
      · rw [List.filter_cons_of_neg (by simpa using ha), ih, hcons, amount_of_empty ha, Int.zero_add]
      · rw [List.filter_cons_of_pos (by simpa using ha), hcons, ← ih]
        exact List.sum_cons

namespace Tracked

variable {x : Tracked K V}

/-! ### What a cell holds in every execution of a run -/

/-- What has been contributed to the cell are numbers. -/
def Numbers (key : K) (made : Nat → List (K × Cell V)) : Prop :=
  ∀ f, ∀ value ∈ contributedTo key (made f), ∃ m, value = .int m

theorem Known.total (h : x.Known values key (.int n)) (hpolicy : x.policies key = .sum) (hnumbers : Numbers key x.made) :
    x.cells key = .int (n + total key (x.ended.map fun p => ⟨x.execution, p.1, p.2, x.made p.1⟩)) := by
  have hsum := h.totals.sum hpolicy n rfl (fun f => (contributedTo key (x.made f)).map Cell.number) fun p _ => by
    rw [List.map_map]
    refine ((List.map_congr_left fun value hvalue => ?_).trans (List.map_id _)).symm
    obtain ⟨m, rfl⟩ := hnumbers p.1 value hvalue
    rfl
  rw [hsum]
  unfold Orchestration.total
  rw [List.map_map]
  rfl

/-- What a step of a run leaves as it is. -/
structure Kept (x x' : Tracked K V) : Prop where
  policies : x'.policies = x.policies
  durable : x'.durable = x.durable
  execution : x'.execution = x.execution
  past : x'.past = x.past

omit [DecidableEq K] in
theorem Kept.trans {x' x'' : Tracked K V} (h : Kept x x') (h' : Kept x' x'') : Kept x x'' :=
  ⟨h'.policies.trans h.policies, h'.durable.trans h.durable, h'.execution.trans h.execution, h'.past.trans h.past⟩

omit [DecidableEq K] in
theorem kept_follow (x : Tracked K V) (run : Run) :
    Kept x (x.follow run) ∧ (x.follow run).marks = x.marks ∧ (x.follow run).made = x.made := by
  unfold Tracked.follow
  split
  · exact ⟨⟨rfl, rfl, rfl, rfl⟩, rfl, rfl⟩
  · exact ⟨⟨rfl, rfl, rfl, rfl⟩, rfl, rfl⟩

theorem kept_endStep (x : Tracked K V) (t : TaskId) :
    Kept x (x.endStep values t).1 ∧ (x.endStep values t).1.marks = x.marks ∧ (x.endStep values t).1.made = x.made := by
  unfold Tracked.endStep
  split
  · exact ⟨⟨rfl, rfl, rfl, rfl⟩, rfl, rfl⟩
  · exact ⟨⟨rfl, rfl, rfl, rfl⟩, rfl, rfl⟩

theorem kept_endAttempt (x : Tracked K V) (t : TaskId) (thread flight : Nat) (ending : Ending) (swept : Bool) :
    Kept x (x.endAttempt values t thread flight ending swept) ∧
      (x.endAttempt values t thread flight ending swept).marks = x.marks ∧
      (x.endAttempt values t thread flight ending swept).made = x.made := by
  obtain ⟨hkept, hmarks, hmade⟩ : Kept x (x.endStep values t).1 ∧ _ := kept_endStep x t
  unfold Tracked.endAttempt
  simp only []
  generalize hclosed : { (x.endStep values t).1 with ended := x.ended ++ [(flight, t)] } = closed
  have hkept' : Kept x closed := by
    rw [← hclosed]
    exact ⟨hkept.policies, hkept.durable, hkept.execution, hkept.past⟩
  have hmarks' : closed.marks = x.marks := by
    rw [← hclosed]
    exact hmarks
  have hmade' : closed.made = x.made := by
    rw [← hclosed]
    exact hmade
  split
  · obtain ⟨h, hm, hd⟩ := kept_follow closed (x.run.perform (.ends thread flight ending swept))
    exact ⟨hkept'.trans h, hm.trans hmarks', hd.trans hmade'⟩
  · split
    · obtain ⟨h, hm, hd⟩ := kept_follow closed (x.run.perform (.ends thread flight .raised swept))
      exact ⟨hkept'.trans h, hm.trans hmarks', hd.trans hmade'⟩
    · exact ⟨⟨hkept.policies, hkept.durable, hkept.execution, hkept.past⟩, hmarks, hmade⟩

/-- A checkpoint records the cells and the attempts there have been, and a body what it contributes. -/
structure Continues (x : Tracked K V) (act : StateAct K V) (x' : Tracked K V) : Prop where
  kept : Kept x x'
  marks : x'.marks = x.marks ∨ ∃ label t, x'.marks = ⟨label, t, fun key => if x.durable key then x.cells key else .nil,
    x.attempts⟩ :: x.marks
  made : x'.made = x.made ∨ ∃ f k value, act = .contribute f k value ∧
    x'.made = Function.update x.made f (x.made f ++ [(k, value)])

theorem continues_perform (x : Tracked K V) (act : StateAct K V) : x.Continues act (x.perform values act) := by
  have hself : x.Continues act x := ⟨⟨rfl, rfl, rfl, rfl⟩, .inl rfl, .inl rfl⟩
  unfold Tracked.perform
  split
  · exact hself
  · cases act with
    | act act =>
        cases act with
        | ends thread flight ending swept =>
            simp only []
            split
            · exact hself
            · next t _ =>
                obtain ⟨hkept, hmarks, hmade⟩ : Kept x (x.endAttempt values t thread flight ending swept) ∧ _ :=
                  kept_endAttempt x t thread flight ending swept
                exact ⟨hkept, .inl hmarks, .inl hmade⟩
        | turn thread cancelled =>
            obtain ⟨hkept, hmarks, hmade⟩ := kept_follow x (x.run.perform (.turn thread cancelled))
            exact ⟨hkept, .inl hmarks, .inl hmade⟩
        | checkpoint label =>
            obtain ⟨hkept, hmarks, hmade⟩ := kept_follow x (x.run.perform (.checkpoint label))
            exact ⟨hkept, .inl hmarks, .inl hmade⟩
        | cached k v =>
            obtain ⟨hkept, hmarks, hmade⟩ := kept_follow x (x.run.perform (.cached k v))
            exact ⟨hkept, .inl hmarks, .inl hmade⟩
    | contribute flight k value =>
        simp only [Tracked.contribute]
        split
        · exact hself
        · split
          · exact hself
          · split
            · exact ⟨⟨rfl, rfl, rfl, rfl⟩, .inl rfl, .inr ⟨flight, k, value, rfl, rfl⟩⟩
            · exact hself
    | write k value => exact ⟨⟨rfl, rfl, rfl, rfl⟩, .inl rfl, .inl rfl⟩
    | changeWrites t k i items =>
        simp only [Tracked.changeWrites]
        split
        · exact hself
        · exact ⟨⟨rfl, rfl, rfl, rfl⟩, .inl rfl, .inl rfl⟩
    | changeCell k items => exact ⟨⟨rfl, rfl, rfl, rfl⟩, .inl rfl, .inl rfl⟩
    | checkpoint flight label =>
        simp only [Tracked.mark]
        split
        · exact hself
        · split
          · exact hself
          · next t _ _ _ _ =>
              split
              · exact ⟨⟨rfl, rfl, rfl, rfl⟩, .inr ⟨label, t, rfl⟩, .inl rfl⟩
              · exact hself

theorem Numbers.perform (h : Numbers key x.made) {act : StateAct K V}
    (hact : ∀ f value, act = .contribute f key value → ∃ m, value = .int m) :
    Numbers key (x.perform values act).made := by
  have hcontinues : x.Continues act (x.perform values act) := continues_perform x act
  rcases hcontinues.made with hmade | ⟨f, k, value, rfl, hmade⟩
  · rw [hmade]
    exact h
  · rw [hmade]
    intro g w hw
    by_cases hg : g = f
    · subst hg
      rw [Function.update_self, contributedTo_append] at hw
      rcases List.mem_append.mp hw with hw | hw
      · exact h g w hw
      · obtain ⟨p, hp, rfl⟩ := List.mem_map.mp hw
        obtain ⟨hp, hkey⟩ := List.mem_filter.mp hp
        rw [List.mem_singleton.mp hp] at hkey ⊢
        obtain rfl : k = key := of_decide_eq_true hkey
        exact hact g value rfl
    · rw [Function.update_of_ne hg] at hw
      exact h g w hw

/-- The steps that have contributed to a cell when a checkpoint is recorded are those that have contributed to it when the run
is resumed there and stay completed. -/
structure Separated (key : K) (x : Tracked K V) (mark : Mark K V) (saved : TaskId → Option Run.SavedTask) : Prop where
  settled : ∀ a ∈ mark.after, contributedTo key a.made ≠ [] → a ∈ x.attempts ∧ Run.StaysCompleted saved a.task
  undone : ∀ a ∈ x.attempts, contributedTo key a.made ≠ [] → a ∉ mark.after → ¬ Run.StaysCompleted saved a.task

/-- A run of a workflow that has been resumed any number of times. Only numbers are contributed to the cell. -/
inductive Reached (values : Values V) (key : K) (n : Int) (node : TaskId → TaskNode) (tasks : List TaskId) :
    Tracked K V → Prop
  | fresh (workers : Bool) (policies : K → MergePolicy) (durable : K → Bool) (cells : K → Cell V)
      (hpolicy : policies key = .sum) (hdurable : durable key = true) (hcell : cells key = .int n) :
      Reached values key n node tasks (fresh node tasks workers policies durable cells)
  | perform {x : Tracked K V} (h : Reached values key n node tasks x) (act : StateAct K V)
      (hproper : x.Proper values key act) (hnumber : ∀ f value, act = .contribute f key value → ∃ m, value = .int m) :
      Reached values key n node tasks (x.perform values act)
  | resume {x : Tracked K V} (h : Reached values key n node tasks x) (checkpoint : Option String) (r : Resumption K V)
      (hr : x.resumption node tasks checkpoint = some r)
      (hseparated : ∀ label, checkpoint = some label → ∀ mark ∈ x.marks.find? (·.label = label),
        x.Separated key mark r.saved)
      (workers : Bool) (storedPending : Option (List TaskId)) (order : TaskId → Nat) (labels : List String)
      (parked : List TaskId) :
      Reached values key n node tasks (x.resumed node tasks checkpoint r workers storedPending order labels parked)

/-- What holds in every execution of such a run. -/
structure Counted (values : Values V) (key : K) (n : Int) (node : TaskId → TaskNode) (tasks : List TaskId)
    (x : Tracked K V) : Prop where
  policy : x.policies key = .sum
  durable : x.durable key = true
  numbers : Numbers key x.made
  earlier : ∀ a ∈ x.past, a.execution < x.execution
  distinct : x.past.Nodup
  marks : ∀ mark ∈ x.marks, mark.base key = .int (n + total key mark.after) ∧ mark.after.Nodup
  live : x.Known values key (.int (n + total key x.past)) ∨
    x.run.Over ∧ x.ended = [] ∧ x.cells key = .int (n + total key x.past)

theorem Counted.cell (h : x.Counted values key n node tasks) : x.cells key = .int (n + total key x.attempts) := by
  unfold Tracked.attempts
  rw [total_append]
  rcases h.live with hknown | ⟨-, hended, hcell⟩
  · rw [hknown.total h.policy h.numbers, Int.add_assoc]
  · rw [hcell, hended]
    show Cell.int (n + total key x.past) = Cell.int (n + (total key x.past + 0))
    rw [Int.add_zero]

theorem Counted.nodup (h : x.Counted values key n node tasks) : x.attempts.Nodup := by
  have hended : (x.ended.map Prod.fst).Nodup := by
    rcases h.live with hknown | ⟨-, hended, -⟩
    · exact hknown.tallied.once
    · rw [hended]
      exact List.nodup_nil
  unfold Tracked.attempts
  refine List.nodup_append.mpr ⟨h.distinct, ?_, fun a ha b hb hab => ?_⟩
  · refine List.Nodup.of_map (fun a : Attempt K V => a.flight) ?_
    rw [List.map_map]
    exact hended
  · obtain ⟨p, -, rfl⟩ := List.mem_map.mp hb
    exact absurd (h.earlier a ha) (hab ▸ Nat.lt_irrefl _)

theorem over_perform {act : StateAct K V} (h : x.run.Over) (hproper : x.Proper values key act) :
    (x.perform values act).run.Over ∧ (x.perform values act).ended = x.ended ∧
      (x.perform values act).cells key = x.cells key := by
  have htask : ∀ flight, x.run.taskOf flight = none := by
    intro flight
    unfold Run.taskOf
    rw [h.running]
    rfl
  have hstarts : ∀ act : Act, (x.run.perform act).starts = x.run.starts := by
    intro act
    unfold Run.perform
    split
    · rfl
    · cases act with
      | turn thread cancelled => simp only [Run.turn, h.frames thread]
      | ends thread flight ending swept => simp only [Run.ends, htask]
      | checkpoint label => rfl
      | cached k v => rfl
  have hfollow : ∀ act : Act, x.follow (x.run.perform act) = { x with run := x.run.perform act } := by
    intro act
    have hnone : x.run.started (x.run.perform act) = none := by
      unfold Run.started
      rw [hstarts, if_pos rfl]
    unfold Tracked.follow
    rw [hnone]
  unfold Tracked.perform
  split
  · exact ⟨h, rfl, rfl⟩
  · cases act with
    | act act =>
        cases act with
        | ends thread flight ending swept =>
            simp only [htask]
            exact ⟨h, trivial, trivial⟩
        | turn thread cancelled =>
            simp only [hfollow]
            exact ⟨h.perform _, trivial, trivial⟩
        | checkpoint label =>
            simp only [hfollow]
            exact ⟨h.perform _, trivial, trivial⟩
        | cached k v =>
            simp only [hfollow]
            exact ⟨h.perform _, trivial, trivial⟩
    | contribute flight k value =>
        simp only [Tracked.contribute, htask]
        exact ⟨h, trivial, trivial⟩
    | write k value => exact ⟨h, rfl, Function.update_of_ne (Ne.symm hproper) _ _⟩
    | changeWrites t k i items =>
        simp only [Tracked.changeWrites]
        split
        · exact ⟨h, rfl, rfl⟩
        · exact ⟨h, rfl, rfl⟩
    | changeCell k items => exact ⟨h, rfl, Function.update_of_ne (Ne.symm hproper) _ _⟩
    | checkpoint flight label =>
        simp only [Tracked.mark, htask]
        exact ⟨h, trivial, trivial⟩

theorem Counted.perform (h : x.Counted values key n node tasks) {act : StateAct K V} (hproper : x.Proper values key act)
    (hnumber : ∀ f value, act = .contribute f key value → ∃ m, value = .int m) :
    (x.perform values act).Counted values key n node tasks := by
  have hcontinues : x.Continues act (x.perform values act) := continues_perform x act
  have hkept := hcontinues.kept
  refine ⟨?_, ?_, h.numbers.perform hnumber, ?_, ?_, ?_, ?_⟩
  · rw [hkept.policies]
    exact h.policy
  · rw [hkept.durable]
    exact h.durable
  · rw [hkept.past, hkept.execution]
    exact h.earlier
  · rw [hkept.past]
    exact h.distinct
  · rcases hcontinues.marks with hmarks | ⟨label, t, hmarks⟩
    · rw [hmarks]
      exact h.marks
    · rw [hmarks]
      intro mark hmark
      rcases List.mem_cons.mp hmark with rfl | hmark
      · refine ⟨?_, h.nodup⟩
        show (if x.durable key then x.cells key else .nil) = _
        rw [if_pos h.durable]
        exact h.cell
      · exact h.marks mark hmark
  · rw [hkept.past]
    rcases h.live with hknown | ⟨hover, hended, hcell⟩
    · exact .inl (hknown.perform hproper)
    · obtain ⟨hover', hended', hcell'⟩ := over_perform hover hproper
      exact .inr ⟨hover', hended'.trans hended, hcell'.trans hcell⟩

theorem Counted.restored (h : x.Counted values key n node tasks) {checkpoint : Option String} {r : Resumption K V}
    (hr : x.resumption node tasks checkpoint = some r)
    (hseparated : ∀ label, checkpoint = some label → ∀ mark ∈ x.marks.find? (·.label = label),
      x.Separated key mark r.saved) :
    r.cells key = .int (n + total key
      (if checkpoint.isSome then x.attempts.filter fun a => Run.StaysCompleted r.saved a.task else x.attempts)) := by
  cases checkpoint with
  | none =>
      obtain rfl := Option.some.inj hr
      show (if x.durable key then x.cells key else .nil) = _
      rw [if_pos h.durable]
      exact h.cell
  | some label =>
      obtain ⟨mark, hfind, rfl⟩ := Option.map_eq_some_iff.mp hr
      have hs := hseparated label rfl mark hfind
      obtain ⟨hbase, hnodup⟩ := h.marks mark (List.mem_of_find?_eq_some hfind)
      show mark.base key = .int (n + total key (x.attempts.filter _))
      rw [hbase, ← total_contributed key mark.after, ← total_contributed key (x.attempts.filter _)]
      -- The same attempts have contributed, in another order at most.
      have hperm : (mark.after.filter fun a => contributedTo key a.made ≠ []).Perm
          ((x.attempts.filter fun a => Run.StaysCompleted (Run.rollbackToCheckpoint node tasks mark.task x.run.saved)
            a.task).filter fun a => contributedTo key a.made ≠ []) := by
        refine (List.perm_ext_iff_of_nodup (hnodup.filter _) ((h.nodup.filter _).filter _)).mpr fun a => ?_
        simp only [List.mem_filter, decide_eq_true_iff]
        constructor
        · rintro ⟨ha, hne⟩
          exact ⟨hs.settled a ha hne, hne⟩
        · rintro ⟨⟨ha, hstays⟩, hne⟩
          refine ⟨?_, hne⟩
          by_contra hnot
          exact hs.undone a ha hne hnot hstays
      unfold total
      rw [(hperm.map _).sum_eq]

theorem known_resumed (hacyclic : Run.Acyclic node tasks) (hunrun : Run.Unrun node tasks) (x : Tracked K V)
    (checkpoint : Option String) (r : Resumption K V) (workers : Bool) (storedPending : Option (List TaskId))
    (order : TaskId → Nat) (labels : List String) (parked : List TaskId) :
    (x.resumed node tasks checkpoint r workers storedPending order labels parked).Known values key (r.cells key) ∨
      (x.resumed node tasks checkpoint r workers storedPending order labels parked).run.Over := by
  have hopens : Run.Opens node tasks (Run.resumed node tasks workers true r.saved storedPending order labels parked) :=
    .resumed workers true r.saved storedPending order labels parked
  refine (hopens.cases hacyclic hunrun).imp (fun hregular => ?_) id
  have hrunning : (Run.resumed node tasks workers true r.saved storedPending order labels parked).running = [] := by
    obtain ⟨y, hy, ⟨-, he⟩ | ⟨-, -, he⟩⟩ :=
      Run.resumed_cases hunrun workers true r.saved storedPending order labels parked
    · rw [he]
      exact hy.restored.running
    · rw [he]
      exact hy.restored.running
  refine ⟨hregular.sound, fun p hp => ?_, fun t _ writes hwrites => ?_, fun _ _ => rfl,
    fun f p hp => absurd hp List.not_mem_nil, fun f hf => absurd hf List.not_mem_nil, List.nodup_nil, rfl⟩
  · have hp : p ∈ (Run.resumed node tasks workers true r.saved storedPending order labels parked).running := hp
    rw [hrunning] at hp
    cases hp
  · cases hwrites

theorem Counted.resumed (h : x.Counted values key n node tasks) (hacyclic : Run.Acyclic node tasks)
    (hunrun : Run.Unrun node tasks) {checkpoint : Option String} {r : Resumption K V}
    (hr : x.resumption node tasks checkpoint = some r)
    (hseparated : ∀ label, checkpoint = some label → ∀ mark ∈ x.marks.find? (·.label = label),
      x.Separated key mark r.saved)
    (workers : Bool) (storedPending : Option (List TaskId)) (order : TaskId → Nat) (labels : List String)
    (parked : List TaskId) :
    (x.resumed node tasks checkpoint r workers storedPending order labels parked).Counted values key n node tasks := by
  have hcell := h.restored hr hseparated
  have hpast : ∀ a ∈ (x.resumed node tasks checkpoint r workers storedPending order labels parked).past,
      a ∈ x.attempts := by
    intro a ha
    unfold Tracked.resumed at ha
    cases checkpoint with
    | none => exact ha
    | some label => exact (List.mem_filter.mp ha).1
  refine ⟨h.policy, h.durable, fun f value hvalue => absurd hvalue List.not_mem_nil, fun a ha => ?_, ?_, h.marks, ?_⟩
  · show a.execution < x.execution + 1
    rcases List.mem_append.mp (hpast a ha) with ha | ha
    · exact Nat.lt_succ_of_lt (h.earlier a ha)
    · obtain ⟨p, -, rfl⟩ := List.mem_map.mp ha
      exact Nat.lt_succ_self x.execution
  · unfold Tracked.resumed
    cases checkpoint with
    | none => exact h.nodup
    | some label => exact h.nodup.filter _
  · have hcell' : (x.resumed node tasks checkpoint r workers storedPending order labels parked).cells key =
        .int (n + total key (x.resumed node tasks checkpoint r workers storedPending order labels parked).past) := hcell
    rw [← hcell']
    exact (known_resumed hacyclic hunrun x checkpoint r workers storedPending order labels parked).imp id
      fun hover => ⟨hover, rfl, rfl⟩

theorem Reached.counted (h : Reached values key n node tasks x) (hacyclic : Run.Acyclic node tasks)
    (hunrun : Run.Unrun node tasks) : x.Counted values key n node tasks := by
  induction h with
  | fresh workers policies durable cells hpolicy hdurable hcell =>
      refine ⟨hpolicy, hdurable, fun f value hvalue => absurd hvalue List.not_mem_nil,
        fun a ha => absurd ha List.not_mem_nil, List.nodup_nil, fun mark hmark => absurd hmark List.not_mem_nil, .inl ?_⟩
      have hknown : (Tracked.fresh node tasks workers policies durable cells).Known values key (cells key) :=
        known_fresh hunrun workers policies durable cells
      rw [hcell] at hknown
      show Known values key (.int (n + 0)) _
      rw [Int.add_zero]
      exact hknown
  | perform _ act hproper hnumber ih => exact ih.perform hproper hnumber
  | resume _ checkpoint r hr hseparated workers storedPending order labels parked ih =>
      exact ih.resumed hacyclic hunrun hr hseparated workers storedPending order labels parked

theorem Reached.track (h : Reached values key n node tasks x) (acts : List (StateAct K V))
    (hproper : x.AllProper values key acts)
    (hnumbers : ∀ f value, .contribute f key value ∈ acts → ∃ m, value = .int m) :
    Reached values key n node tasks (x.track values acts) := by
  induction acts generalizing x with
  | nil => exact h
  | cons act acts ih =>
      refine ih (h.perform act hproper.1 fun f value he => hnumbers f value (he ▸ List.mem_cons_self)) hproper.2 ?_
      exact fun f value hmem => hnumbers f value (List.mem_cons_of_mem _ hmem)

/-! A run of two steps with one cell. -/

def oneCell (node : TaskId → TaskNode) (tasks : List TaskId) : Tracked Unit Nat :=
  fresh node tasks false (fun _ => .sum) (fun _ => true) fun _ => .int 0

/-- The second step depends on the first one. -/
def chainNode (t : TaskId) : TaskNode := if t = ⟨1, none⟩ then { dependencies := [⟨0, none⟩] } else {}

def chainActs : List (StateAct Unit Nat) :=
  [.act (.turn 0 false), .act (.turn 0 false), .contribute 0 () (.int 1), .act (.ends 0 0 (.returned .nil) false),
    .act (.turn 0 false), .act (.turn 0 false), .checkpoint 1 "l"]

theorem chainNode_acyclic : Run.Acyclic chainNode [⟨0, none⟩, ⟨1, none⟩] :=
  .of_rank TaskId.task (by decide) (by decide)

theorem combines_one {x : Tracked Unit Nat} (hpolicy : x.policies () = .sum) {m k : Int} (hcell : x.cells () = .int m) {t : TaskId}
    (hsteps : x.steps t = some ⟨[((), [.int k])]⟩) : x.Combines plainValues t := by
  intro writes hwrites p hp
  obtain rfl : (⟨[((), [.int k])]⟩ : StepWrites Unit Nat) = writes := Option.some.inj (hsteps.symm.trans hwrites)
  rw [List.mem_singleton.mp hp, hpolicy, hcell]
  exact .inl ⟨.inr trivial, fun value hvalue => List.mem_singleton.mp hvalue ▸ trivial⟩

theorem chainActs_proper : (oneCell chainNode [⟨0, none⟩, ⟨1, none⟩]).AllProper plainValues () chainActs := by
  refine ⟨⟨by decide, fun h => absurd h (by decide)⟩, ⟨by decide, fun h => absurd h (by decide)⟩, trivial,
    ⟨by decide, fun t ht => ?_⟩, ⟨by decide, fun h => absurd h (by decide)⟩, ⟨by decide, fun h => absurd h (by decide)⟩,
    trivial, trivial⟩
  obtain rfl : (⟨0, none⟩ : TaskId) = t := Option.some.inj ht
  exact combines_one rfl rfl rfl

def chainRun : Tracked Unit Nat := (oneCell chainNode [⟨0, none⟩, ⟨1, none⟩]).track plainValues chainActs

/-- Neither step depends on the other one. The second one adds one after the first one has recorded a checkpoint. -/
def branchActs : List (StateAct Unit Nat) :=
  [.act (.turn 0 false), .act (.turn 0 false), .act (.turn 0 false), .checkpoint 0 "l", .contribute 1 () (.int 1),
    .act (.ends 0 1 (.returned .nil) false)]

theorem branchActs_proper : (oneCell (fun _ => {}) [⟨0, none⟩, ⟨1, none⟩]).AllProper plainValues () branchActs := by
  refine ⟨⟨by decide, fun h => absurd h (by decide)⟩, ⟨by decide, fun h => absurd h (by decide)⟩,
    ⟨by decide, fun h => absurd h (by decide)⟩, trivial, trivial, ⟨by decide, fun t ht => ?_⟩, trivial⟩
  obtain rfl : (⟨1, none⟩ : TaskId) = t := Option.some.inj ht
  exact combines_one rfl rfl rfl

end Tracked

end state

end Nodus.Orchestration
