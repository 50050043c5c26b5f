import Nodus.Rollbacks

/-! What a resume without a label runs again. The tasks of the graph are restored from what has been saved; the instances of a
mapped task are not among them. -/

namespace Nodus.Orchestration

namespace Run

/-- What is saved of a run, as far as a resume reads it. -/
structure Snapshot where
  saved : TaskId → Option SavedTask
  pending : List TaskId

def snapshot (s : Run) : Snapshot := ⟨s.saved, s.pending⟩

/-- `_merge_resume_state`: a checkpoint that has been saved is laid over the state, whichever of them is newer. -/
def mergeResumeState (state checkpoint : Snapshot) : Snapshot where
  saved t := checkpoint.saved t <|> state.saved t
  pending := checkpoint.pending

/-- A resume without a label: `resume_workflow`, or `resume_graph`, which looks for a checkpoint of its own. -/
inductive PlainResume where
  | workflow
  | graph (checkpoint : Option Snapshot)

/-- What it restores. -/
def PlainResume.restores (resume : PlainResume) (state : Snapshot) : Snapshot :=
  match resume with
  | workflow | graph none => state
  | graph (some checkpoint) => mergeResumeState state checkpoint

variable {s s' s'' : Run} {t u : TaskId}

/-! ### What is restored is left alone -/

/-- Nothing changes but for one task, as far as it can be started. -/
structure Within (s s' : Run) (t : TaskId) : Prop where
  pending : ∀ u ∈ s'.pending, u ∈ s.pending ∨ u = t
  running : ∀ p ∈ s'.running, p ∈ s.running ∨ p.2 = t
  starts : ∀ u ∈ s'.starts, u ∈ s.starts ∨ u = t
  frames : ∀ thread, ∀ frame ∈ s'.frames thread, ∀ u ∈ frame.rest, ∃ outer ∈ s.frames thread, u ∈ outer.rest
  results : ∀ u, u ≠ t → s'.results u = s.results u
  status : ∀ u, u ≠ t → (s'.node u).status = (s.node u).status

theorem Within.trans (h : Within s s' t) (h' : Within s' s'' t) : Within s s'' t where
  pending u hu := (h'.pending u hu).elim (h.pending u) .inr
  running p hp := (h'.running p hp).elim (h.running p) .inr
  starts u hu := (h'.starts u hu).elim (h.starts u) .inr
  frames thread frame hframe u hu := by
    obtain ⟨outer, houter, hmem⟩ := h'.frames thread frame hframe u hu
    exact h.frames thread outer houter u hmem
  results u hu := (h'.results u hu).trans (h.results u hu)
  status u hu := (h'.status u hu).trans (h.status u hu)

theorem within_of_eq (hpending : s'.pending = s.pending) (hrunning : s'.running = s.running) (hstarts : s'.starts = s.starts)
    (hframes : s'.frames = s.frames) (hresults : s'.results = s.results) (hnode : s'.node = s.node) : Within s s' t where
  pending _ hu := .inl (hpending ▸ hu)
  running _ hp := .inl (hrunning ▸ hp)
  starts _ hu := .inl (hstarts ▸ hu)
  frames _ frame hframe _ hu := ⟨frame, hframes ▸ hframe, hu⟩
  results _ _ := by rw [hresults]
  status _ _ := by rw [hnode]

theorem within_refl (s : Run) (t : TaskId) : Within s s t := within_of_eq rfl rfl rfl rfl rfl rfl

theorem within_setStatus (s : Run) (t : TaskId) (status : TaskStatus) : Within s (s.setStatus t status) t := by
  refine ⟨fun u hu => .inl hu, fun p hp => .inl hp, fun u hu => .inl hu,
    fun thread frame hframe u hu => ⟨frame, hframe, hu⟩, fun u hu => rfl, fun u hu => ?_⟩
  show (Function.update s.node t _ u).status = _
  rw [Function.update_of_ne hu]

theorem within_removePending (s : Run) (t : TaskId) : Within s (s.removePending t) t :=
  ⟨fun _ hu => .inl (List.mem_of_mem_filter hu), fun _ hp => .inl hp, fun _ hu => .inl hu,
    fun _ frame hframe _ hu => ⟨frame, hframe, hu⟩, fun _ _ => rfl, fun _ _ => rfl⟩

theorem within_markPending (s : Run) (t : TaskId) : Within s (s.markPending t) t := by
  unfold markPending
  split
  · exact within_refl s t
  · refine ⟨fun u hu => ?_, fun p hp => .inl hp, fun u hu => .inl hu, fun thread frame hframe u hu => ⟨frame, hframe, hu⟩,
      fun u hu => rfl, fun u hu => rfl⟩
    exact (List.mem_append.mp hu).imp_right List.mem_singleton.mp

theorem within_record (s : Run) (t : TaskId) (v : Value) : Within s (s.record t v) t := by
  refine (within_setStatus s t .done).trans ?_
  refine ⟨fun u hu => .inl hu, fun p hp => .inl hp, fun u hu => .inl hu,
    fun thread frame hframe u hu => ⟨frame, hframe, hu⟩, fun u hu => ?_, fun u hu => rfl⟩
  exact Function.update_of_ne hu _ _

theorem within_start (s : Run) (t : TaskId) : Within s (s.start t) t := by
  refine ⟨fun u hu => .inl (List.mem_of_mem_filter hu), fun p hp => .inl hp, fun u hu => ?_,
    fun thread frame hframe u hu => ⟨frame, hframe, hu⟩, fun u hu => rfl, fun u hu => ?_⟩
  · exact (List.mem_cons.mp hu).symm
  · show (Function.update s.node t _ u).status = _
    rw [Function.update_of_ne hu]

theorem within_launch (s : Run) (t : TaskId) : Within s (s.launch t) t := by
  refine ⟨fun u hu => .inl hu, fun p hp => ?_, fun u hu => .inl hu, fun thread frame hframe u hu => ⟨frame, hframe, hu⟩,
    fun u hu => rfl, fun u hu => rfl⟩
  rcases List.mem_cons.mp hp with rfl | hp
  · exact .inr rfl
  · exact .inl hp

theorem within_setFrames (s : Run) (t : TaskId) (thread : Nat) (frames : List Frame)
    (h : ∀ frame ∈ frames, ∀ u ∈ frame.rest, ∃ outer ∈ s.frames thread, u ∈ outer.rest) :
    Within s (s.setFrames thread frames) t := by
  refine ⟨fun u hu => .inl hu, fun p hp => .inl hp, fun u hu => .inl hu, fun thread' frame hframe u hu => ?_, fun u hu => rfl,
    fun u hu => rfl⟩
  have hframe : frame ∈ Function.update s.frames thread frames thread' := hframe
  by_cases hthread : thread' = thread
  · rw [hthread, Function.update_self] at hframe
    rw [hthread]
    exact h frame hframe u hu
  · rw [Function.update_of_ne hthread] at hframe
    exact ⟨frame, hframe, hu⟩

theorem within_call (s : Run) (t : TaskId) (thread : Nat) : Within s (s.call thread) t := by
  refine within_setFrames s t thread _ fun frame hframe u hu => ?_
  rcases List.mem_cons.mp hframe with rfl | hframe
  · cases hu
  · exact ⟨frame, hframe, hu⟩

theorem within_pop (s : Run) (t : TaskId) (flight : Nat) : Within s (s.pop flight) t :=
  ⟨fun _ hu => .inl hu, fun _ hp => .inl (List.mem_of_mem_filter hp), fun _ hu => .inl hu,
    fun _ frame hframe _ hu => ⟨frame, hframe, hu⟩, fun _ _ => rfl, fun _ _ => rfl⟩

theorem within_spawnTask (s : Run) (thread : Nat) (t : TaskId) : Within s (s.spawnTask thread t) t := by
  unfold spawnTask
  split
  · exact within_refl s t
  · split
    · exact within_refl s t
    · split
      · exact ((within_start s t).trans (within_record _ t _)).trans (within_call _ t thread)
      · exact (within_start s t).trans (within_launch _ t)

theorem within_failTask (s : Run) (thread : Nat) (t : TaskId) (swept : Bool) : Within s (s.failTask thread t swept) t := by
  have hstatus := fun (status : TaskStatus) => within_setStatus s t status
  unfold failTask
  split
  · split
    · exact ((hstatus .retryScheduled).trans (within_markPending _ t)).trans (within_of_eq rfl rfl rfl rfl rfl rfl)
    · exact ((hstatus .retrying).trans (within_markPending _ t)).trans (within_spawnTask _ thread t)
  · split
    · exact (hstatus .failed).trans (within_call _ t thread)
    · split
      · exact hstatus .failed
      · have hfailed : Within s { s.setStatus t .failed with failed := true } t :=
          (hstatus .failed).trans (within_of_eq rfl rfl rfl rfl rfl rfl)
        exact hfailed.trans (within_call _ t thread)

theorem within_storeCached (s : Run) (t : TaskId) (v : Value) : Within s (s.storeCached t v) t := by
  unfold storeCached
  split
  · exact within_of_eq rfl rfl rfl rfl rfl rfl
  · exact within_refl s t

theorem within_complete (s : Run) (thread : Nat) (t : TaskId) (v : Value) (swept : Bool) :
    Within s (s.complete thread t v swept) t := by
  have hrecord := within_record s t v
  unfold complete
  simp only []
  split
  · split
    · exact hrecord.trans (within_failTask _ thread t swept)
    · exact hrecord.trans (within_of_eq rfl rfl rfl rfl rfl rfl)
  · exact (hrecord.trans (within_storeCached _ t v)).trans (within_call _ t thread)

theorem within_conclude (s : Run) (t : TaskId) (status : TaskStatus) : Within s (s.conclude t status) t :=
  ((within_setStatus s t status).trans (within_removePending _ t)).trans (within_of_eq rfl rfl rfl rfl rfl rfl)

theorem within_ends {flight : Nat} (htask : s.taskOf flight = some t) (thread : Nat) (ending : Ending) (swept : Bool) :
    Within s (s.ends thread flight ending swept) t := by
  have hpop := within_pop s t flight
  unfold ends
  rw [htask]
  cases ending with
  | waits => exact (hpop.trans (within_record _ t .nil)).trans (within_of_eq rfl rfl rfl rfl rfl rfl)
  | returned v => exact hpop.trans (within_complete _ thread t v swept)
  | errorValue v =>
      simp only []
      split
      · exact hpop.trans (within_failTask _ thread t swept)
      · exact hpop.trans (within_complete _ thread t v swept)
  | raised => exact hpop.trans (within_failTask _ thread t swept)

theorem within_settleMappedParent (s : Run) (parent : TaskId) (instances : List TaskId) :
    Within s (s.settleMappedParent parent instances).1 parent := by
  unfold settleMappedParent
  split
  · exact within_refl s parent
  · split
    · exact within_refl s parent
    · exact within_setStatus s parent .failed
    · exact within_record s parent _

/-- Nothing of these tasks is under way, and they have had the same results all along. -/
structure Barred (P : TaskId → Prop) (results : TaskId → Option Value) (s : Run) : Prop where
  pending : ∀ t ∈ s.pending, ¬ P t
  running : ∀ p ∈ s.running, ¬ P p.2
  starts : ∀ t ∈ s.starts, ¬ P t
  frames : ∀ thread, ∀ frame ∈ s.frames thread, ∀ t ∈ frame.rest, ¬ P t
  status : ∀ t, P t → (s.node t).status ≠ .expanded
  results : ∀ t, P t → s.results t = results t

/-- Only a declared task is expanded. -/
def Unmapped (t : TaskId) (node : TaskNode) : Prop := node.Mapped → t.index = none

section barred

variable {P : TaskId → Prop} {results : TaskId → Option Value}

theorem Barred.within (h : s.Barred P results) (ht : ¬ P t) (hw : Within s s' t) : s'.Barred P results := by
  have hother : ∀ u, P u → u ≠ t := fun u hu he => ht (he ▸ hu)
  refine ⟨fun u hu => ?_, fun p hp => ?_, fun u hu => ?_, fun thread frame hframe u hu => ?_, fun u hu => ?_, fun u hu => ?_⟩
  · rcases hw.pending u hu with hold | rfl
    · exact h.pending u hold
    · exact ht
  · rcases hw.running p hp with hold | hnew
    · exact h.running p hold
    · rw [hnew]
      exact ht
  · rcases hw.starts u hu with hold | rfl
    · exact h.starts u hold
    · exact ht
  · obtain ⟨outer, houter, hmem⟩ := hw.frames thread frame hframe u hu
    exact h.frames thread outer houter u hmem
  · rw [hw.status u (hother u hu)]
    exact h.status u hu
  · exact (hw.results u (hother u hu)).trans (h.results u hu)

theorem Barred.settleMapped (h : s.Barred P results) : s.settleMapped.1.Barred P results := by
  have hstep : ∀ {x : Run} (p : TaskId × List TaskId), x.Barred P results →
      (x.settleMappedParent p.1 p.2).1.Barred P results := by
    intro x p hx
    by_cases hp : P p.1
    · unfold settleMappedParent
      rw [if_pos (hx.status p.1 hp)]
      exact hx
    · exact hx.within hp (within_settleMappedParent x p.1 p.2)
  have hfold : ∀ (expanded : List (TaskId × List TaskId)) (acc : Run × Bool), acc.1.Barred P results →
      (expanded.foldl (fun (acc : Run × Bool) p => ((acc.1.settleMappedParent p.1 p.2).1,
        acc.2 || (acc.1.settleMappedParent p.1 p.2).2)) acc).1.Barred P results := by
    intro expanded
    induction expanded with
    | nil => exact fun _ h => h
    | cons p expanded ih => exact fun acc hacc => ih _ (hstep p hacc)
  exact hfold s.expanded (s, false) h

theorem Barred.cancelInflight (h : s.Barred P results) : s.cancelInflight.Barred P results := by
  unfold Run.cancelInflight
  split
  · exact ⟨h.pending, h.running, h.starts, h.frames, h.status, h.results⟩
  · refine ⟨h.pending, fun p hp => (List.not_mem_nil hp).elim, h.starts, h.frames, fun t ht => ?_, h.results⟩
    simp only []
    split
    · exact TaskStatus.noConfusion
    · exact h.status t ht

variable (hfamily : ∀ t, P t → P ⟨t.task, none⟩)

include hfamily

theorem Barred.expandMapped (h : s.Barred P results) (ht : ¬ P t) (hindex : t.index = none) :
    (s.expandMapped t).Barred P results := by
  have hself : (⟨t.task, none⟩ : TaskId) = t := by rw [← hindex]
  have hconclude := fun (status : TaskStatus) => h.within ht (within_conclude s t status)
  unfold Run.expandMapped
  simp only []
  split
  · next items _ =>
      split
      · exact hconclude .failed
      · split
        · exact (hconclude .skipped).within ht (within_of_eq rfl rfl rfl rfl rfl rfl)
        · have hexpanded := (h.within ht (within_setStatus s t .expanded)).within ht (within_removePending _ t)
          have hinstance : ∀ u ∈ instanceIds t items, ¬ P u := by
            intro u hu hP
            obtain ⟨i, -, rfl⟩ := List.mem_map.mp hu
            exact ht (hself ▸ hfamily ⟨t.task, some i⟩ hP)
          refine ⟨fun u hu => ?_, hexpanded.running, hexpanded.starts, hexpanded.frames, fun u hu => ?_, hexpanded.results⟩
          · exact (List.mem_append.mp hu).elim (hexpanded.pending u) (hinstance u)
          · show (if u ∈ instanceIds t items then _ else (s.setStatus t .expanded).node u).status ≠ _
            rw [if_neg fun hmem => hinstance u hmem hu]
            exact hexpanded.status u hu
  · exact hconclude .failed

theorem Barred.turn (h : s.Barred P results) (hshaped : s.Shaped Unmapped) (thread : Nat) (cancelled : Bool) :
    (s.turn thread cancelled).Barred P results := by
  have hset : ∀ {x : Run} {frames : List Frame}, x.Barred P results → (∀ frame ∈ frames, ∀ t ∈ frame.rest, ¬ P t) →
      (x.setFrames thread frames).Barred P results := by
    intro x frames hx hframes
    refine ⟨hx.pending, hx.running, hx.starts, fun thread' frame hframe t ht => ?_, hx.status, hx.results⟩
    have hframe : frame ∈ Function.update x.frames thread frames thread' := hframe
    by_cases hthread : thread' = thread
    · rw [hthread, Function.update_self] at hframe
      exact hframes frame hframe t ht
    · rw [Function.update_of_ne hthread] at hframe
      exact hx.frames thread' frame hframe t ht
  unfold Run.turn
  split
  · exact h
  · next outer hframes =>
      refine hset h fun frame hframe => h.frames thread frame ?_
      rw [hframes]
      exact List.mem_cons_of_mem _ hframe
  · next outer hframes =>
      have houter : ∀ frame ∈ outer, ∀ t ∈ frame.rest, ¬ P t := fun frame hframe => h.frames thread frame (by
        rw [hframes]
        exact List.mem_cons_of_mem _ hframe)
      split
      · exact hset h.cancelInflight houter
      · refine hset h.settleMapped fun frame hframe t ht => ?_
        rcases List.mem_cons.mp hframe with rfl | hframe
        · exact h.settleMapped.pending t (mem_readyTasks.mp ht).2.1
        · exact houter frame hframe t ht
  · next t rest again outer hframes =>
      have hhead : (⟨t :: rest, again⟩ : Frame) ∈ s.frames thread := hframes ▸ List.mem_cons_self
      have ht : ¬ P t := h.frames thread _ hhead t List.mem_cons_self
      have hrest : ∀ again', ∀ frame ∈ (⟨rest, again'⟩ :: outer : List Frame), ∀ u ∈ frame.rest, ¬ P u := by
        intro again' frame hframe u hu
        rcases List.mem_cons.mp hframe with rfl | hframe
        · exact h.frames thread _ hhead u (List.mem_cons_of_mem _ hu)
        · refine h.frames thread frame ?_ u hu
          rw [hframes]
          exact List.mem_cons_of_mem _ hframe
      split
      · have hskip : Within s (s.skip t) t := (within_removePending s t).trans (within_of_eq rfl rfl rfl rfl rfl rfl)
        exact hset (h.within ht hskip) (hrest true)
      · split
        · next hmapped =>
            have hindex := hshaped.tasks t (hshaped.frames thread _ hhead t List.mem_cons_self) hmapped
            exact hset (h.expandMapped hfamily ht hindex) (hrest true)
        · exact (hset h (hrest again)).within ht (within_spawnTask _ thread t)

theorem Barred.perform (h : s.Barred P results) (hshaped : s.Shaped Unmapped) (act : Act) :
    (s.perform act).Barred P results := by
  unfold Run.perform
  split
  · exact h
  · cases act with
    | turn thread cancelled => exact h.turn hfamily hshaped thread cancelled
    | checkpoint label => exact ⟨h.pending, h.running, h.starts, h.frames, h.status, h.results⟩
    | cached key v => exact ⟨h.pending, h.running, h.starts, h.frames, h.status, h.results⟩
    | ends thread flight ending swept =>
        simp only []
        cases htask : s.taskOf flight with
        | none =>
            unfold ends
            rw [htask]
            exact h
        | some t => exact h.within (h.running (flight, t) (mem_of_taskOf htask)) (within_ends htask thread ending swept)

theorem Barred.run (h : s.Barred P results) (hshaped : s.Shaped Unmapped) (acts : List Act) : (s.run acts).Barred P results := by
  induction acts generalizing s with
  | nil => exact h
  | cons act acts ih =>
      refine ih (h.perform hfamily hshaped act) (hshaped.perform ?_ ?_ act)
      · exact fun t node node' hsame hnode hmapped => hnode ((mapped_same hsame).mp hmapped)
      · exact fun t node source hnode _ _ index item hmapped => absurd hmapped.2 (Option.some_ne_none index)

end barred

/-! ### What is restored -/

section restored

variable {node : TaskId → TaskNode} {tasks : List TaskId} {saved : TaskId → Option SavedTask} {task : SavedTask}

/-- The task has been saved with its outcome. -/
def SavedTask.Done (task : SavedTask) : Prop := task.state = .completed ∨ task.state = .done

instance (task : SavedTask) : Decidable task.Done := inferInstanceAs (Decidable (_ ∨ _))

theorem restoreTask_of_failed (h : s.failed = true) (t : TaskId) : s.restoreTask saved t = s := by
  unfold restoreTask
  rw [if_pos h]

theorem restoreTasks_of_failed (h : s.failed = true) (l : List TaskId) : l.foldl (Run.restoreTask saved) s = s := by
  induction l with
  | nil => rfl
  | cons t l ih =>
      rw [List.foldl_cons, restoreTask_of_failed h t]
      exact ih

theorem restoreTask_done (h : s.failed = false) (ht : saved t = some task) (hdone : task.Done) :
    (s.restoreTask saved t).results t = some (task.result.getD .nil) := by
  unfold restoreTask
  rw [if_neg (by rw [h]; exact Bool.false_ne_true), ht]
  obtain ⟨state, attempts, result⟩ := task
  rcases hdone with hstate | hstate
  · obtain rfl : state = .completed := hstate
    exact Function.update_self t _ s.results
  · obtain rfl : state = .done := hstate
    exact Function.update_self t _ s.results

theorem restoreTask_other (hu : u ≠ t) : (s.restoreTask saved t).results u = s.results u := by
  unfold restoreTask
  split
  · rfl
  · split
    · rfl
    · simp only []
      split
      · exact Function.update_of_ne hu _ _
      · exact Function.update_of_ne hu _ _
      · split
        · rfl
        · rfl
      · rfl

/-- The result of a task that has been saved as done is restored, as long as no task is found to have failed. -/
theorem results_restoreTasks (l : List TaskId) (hcalm : (l.foldl (Run.restoreTask saved) s).failed = false)
    (ht : saved t = some task) (hdone : task.Done) (hmem : t ∈ l ∨ s.results t = some (task.result.getD .nil)) :
    (l.foldl (Run.restoreTask saved) s).results t = some (task.result.getD .nil) := by
  induction l generalizing s with
  | nil => exact hmem.resolve_left List.not_mem_nil
  | cons u l ih =>
      refine ih hcalm ?_
      have hfailed : s.failed = false := by
        by_contra hfailed
        have hfailed : s.failed = true := eq_true_of_ne_false hfailed
        rw [restoreTasks_of_failed hfailed, hfailed] at hcalm
        cases hcalm
      by_cases hut : t = u
      · rw [hut] at ht ⊢
        exact .inr (restoreTask_done hfailed ht hdone)
      · rw [restoreTask_other hut]
        exact hmem.imp_left fun h => (List.mem_cons.mp h).resolve_left hut

/-- A task that has been saved as failed, and was not allowed to, ends the run before it begins. -/
theorem restoreTask_failed (ht : saved t = some task) (hstate : task.state = .failed)
    (hallow : (s.node t).allowFailure = false) : (s.restoreTask saved t).failed = true := by
  unfold restoreTask
  split
  · next hfailed => exact hfailed
  · rw [ht]
    simp only [hstate, hallow]
    rfl

theorem same_restoreTask (s : Run) (t u : TaskId) : (s.node u).Same ((s.restoreTask saved t).node u) := by
  have hset : ∀ attempts status, (s.node u).Same
      (((s.setNode t fun node => { node with attempts }).setStatus t status).node u) := fun attempts status =>
    same_trans ((keeps_setNode s t (fun node => { node with attempts }) rfl).node u) ((keeps_setStatus _ t status).node u)
  unfold restoreTask
  split
  · exact same_refl _
  · split
    · exact same_refl _
    · next saved _ =>
        simp only []
        split
        · exact hset saved.attempts .completed
        · exact hset saved.attempts .completed
        · split
          · exact hset saved.attempts .failed
          · exact hset saved.attempts .failed
        · exact hset saved.attempts .pending

theorem failed_restoreTasks (l : List TaskId) (hmem : t ∈ l) (ht : saved t = some task) (hstate : task.state = .failed)
    (hallow : (s.node t).allowFailure = false) : (l.foldl (Run.restoreTask saved) s).failed = true := by
  induction l generalizing s with
  | nil => cases hmem
  | cons u l ih =>
      by_cases hut : t = u
      · have hfailed := restoreTask_failed ht hstate hallow
        rw [hut] at hfailed
        rw [List.foldl_cons, restoreTasks_of_failed hfailed]
        exact hfailed
      · refine ih ((List.mem_cons.mp hmem).resolve_left hut) ?_
        rw [same_restoreTask s u t]
        exact hallow

theorem markUnrecorded_results (s : Run) : s.markUnrecorded.results = s.results := by
  have hfold : ∀ (l : List TaskId) (x : Run),
      (l.foldl (fun s t => if (s.results t).isNone then s.markPending t else s) x).results = x.results := by
    intro l
    induction l with
    | nil => exact fun _ => rfl
    | cons t l ih =>
        intro x
        refine (ih _).trans ?_
        beta_reduce
        split
        · exact markPending_results x t
        · rfl
  exact hfold s.tasks s

end restored

/-! ### Resumes -/

/-- A run that is resumed so, up to the first call of `schedule_ready`. -/
def PlainResume.begins (resume : PlainResume) (state : Snapshot) (node : TaskId → TaskNode) (tasks : List TaskId)
    (workers flow : Bool) (order : TaskId → Nat) (labels : List String) (parked : List TaskId) : Run :=
  Run.resumed node tasks workers flow (resume.restores state).saved (some (resume.restores state).pending) order labels parked

/-- The outcome of a task has been settled: it has completed, or it has failed and was allowed to. -/
def OutcomeSettled (node : TaskId → TaskNode) (saved : TaskId → Option SavedTask) (t : TaskId) : Prop :=
  ∃ task ∈ saved t, task.Done ∨ task.state = .failed ∧ (node ⟨t.task, none⟩).allowFailure = true

instance (node : TaskId → TaskNode) (saved : TaskId → Option SavedTask) (t : TaskId) :
    Decidable (OutcomeSettled node saved t) :=
  inferInstanceAs (Decidable (∃ task ∈ saved t, _))

/-- No settled task has been started, and those that have been are given what the settled ones have returned. An instance of a
mapped task is given its item in the place of the list. -/
structure Respects (node : TaskId → TaskNode) (tasks : List TaskId) (state : Snapshot) (s : Run) : Prop where
  starts : ∀ t ∈ s.starts, ¬ OutcomeSettled node state.saved t
  args : ∀ u ∈ s.starts, ∀ i, ∀ dep ∈ tasks, (s.node u).dependencies[i]? = some dep →
    ∀ task ∈ state.saved dep, task.Done → ∀ v ∈ task.result,
      (s.args u)[i]? = some v ∨ (s.node u).eachIndex ≠ none ∧ i = (s.node u).eachDepIndex

/-- A resume restores every outcome: that of an instance with the one of its mapped task, and no outcome is a failure. If a task
has failed for good nothing is run at all. -/
def Restores (node : TaskId → TaskNode) (tasks : List TaskId) (state restored : Snapshot) : Prop :=
  (∃ t ∈ tasks, ∃ task ∈ restored.saved t, task.state = .failed ∧ (node t).allowFailure = false) ∨
    ∀ t, OutcomeSettled node state.saved t →
      StaysCompleted restored.saved t ∧ (t.index = none → restored.saved t = state.saved t)

section resumes

variable {node : TaskId → TaskNode} {tasks : List TaskId}

theorem starts_of_idle (hframes : ∀ thread, s.frames thread = []) (hrunning : s.running = []) (acts : List Act) :
    (s.run acts).starts = s.starts := by
  induction acts generalizing s with
  | nil => rfl
  | cons act acts ih =>
      have hstep : (∀ thread, (s.perform act).frames thread = []) ∧ (s.perform act).running = [] ∧
          (s.perform act).starts = s.starts := by
        unfold Run.perform
        split
        · exact ⟨hframes, hrunning, rfl⟩
        · cases act with
          | turn thread cancelled =>
              have hturn : s.turn thread cancelled = s := by
                unfold Run.turn
                rw [hframes thread]
              simp only [hturn]
              exact ⟨hframes, hrunning, trivial⟩
          | ends thread flight ending swept =>
              have htask : s.taskOf flight = none := by
                unfold taskOf
                rw [hrunning]
                rfl
              have hends : s.ends thread flight ending swept = s := by
                unfold ends
                rw [htask]
              simp only [hends]
              exact ⟨hframes, hrunning, trivial⟩
          | checkpoint label => exact ⟨hframes, hrunning, rfl⟩
          | cached key v => exact ⟨hframes, hrunning, rfl⟩
      exact (ih hstep.1 hstep.2.1).trans hstep.2.2

theorem args_of_result {u dep : TaskId} {i : Nat} {v : Value} (hdep : (s.node u).dependencies[i]? = some dep)
    (hresult : s.results dep = some v) :
    (s.args u)[i]? = some v ∨ (s.node u).eachIndex ≠ none ∧ i = (s.node u).eachDepIndex := by
  have hvalue : ((s.node u).dependencies.map fun dep => (s.results dep).getD .nil)[i]? = some v := by
    rw [List.getElem?_map, hdep]
    show some ((s.results dep).getD .nil) = some v
    rw [hresult]
    rfl
  unfold args
  simp only []
  split
  · next heach =>
      by_cases hi : i = (s.node u).eachDepIndex
      · exact .inr ⟨Option.isSome_iff_ne_none.mp heach, hi⟩
      · rw [List.getElem?_set_ne (Ne.symm hi)]
        exact .inl hvalue
  · exact .inl hvalue

section resumed

variable {saved : TaskId → Option SavedTask} {task : SavedTask} {workers flow : Bool} {stored : Option (List TaskId)}
  {order : TaskId → Nat} {labels : List String} {parked : List TaskId}

theorem resumed_results (hcalm : (Run.resumed node tasks workers flow saved stored order labels parked).failed = false)
    (hmem : t ∈ tasks) (ht : saved t = some task) (hdone : task.Done) :
    (Run.resumed node tasks workers flow saved stored order labels parked).results t = some (task.result.getD .nil) := by
  unfold Run.resumed at hcalm ⊢
  simp only [] at hcalm ⊢
  split_ifs at hcalm ⊢ with hfailed
  · rw [hfailed] at hcalm
    cases hcalm
  · refine (congrFun (markUnrecorded_results _) t).trans ?_
    exact results_restoreTasks tasks (Bool.eq_false_iff.mpr hfailed) ht hdone (.inl hmem)

theorem resumed_failed (hmem : t ∈ tasks) (ht : saved t = some task) (hstate : task.state = .failed)
    (hallow : (node t).allowFailure = false) :
    (Run.resumed node tasks workers flow saved stored order labels parked).failed = true := by
  unfold Run.resumed
  simp only []
  split_ifs with hfailed
  · exact hfailed
  · refine absurd (failed_restoreTasks tasks hmem ht hstate ?_) hfailed
    exact hallow

end resumed

/-- In every state of every run that is resumed from a state of which every outcome is restored. -/
theorem respects_of_restores (hunrun : Unrun node tasks) (state : Snapshot) (resume : PlainResume)
    (hrestores : Restores node tasks state (resume.restores state)) (workers flow : Bool) (order : TaskId → Nat)
    (labels : List String) (parked : List TaskId) (acts : List Act) :
    Respects node tasks state ((resume.begins state node tasks workers flow order labels parked).run acts) := by
  unfold PlainResume.begins
  generalize resume.restores state = restored at hrestores ⊢
  obtain ⟨x, hx, hcases⟩ := resumed_cases hunrun workers flow restored.saved (some restored.pending) order labels parked
  have hr := hx.restored
  rcases hcases with ⟨-, he⟩ | ⟨hcalm, -, he⟩
  · have hnone : (x.run acts).starts = [] :=
      (starts_of_idle (fun thread => congrFun hx.frames thread) hr.running acts).trans hr.starts
    rw [he]
    refine ⟨fun t ht => ?_, fun u hu => ?_⟩
    · rw [hnone] at ht
      cases ht
    · rw [hnone] at hu
      cases hu
  · have hfailed : (Run.resumed node tasks workers flow restored.saved (some restored.pending) order labels parked).failed =
        false := by
      rw [he]
      exact hcalm
    have hresults : ∀ t ∈ tasks, ∀ task ∈ restored.saved t, task.Done → x.results t = some (task.result.getD .nil) := by
      intro t ht task htask hdone
      have hresult := resumed_results hfailed ht htask hdone
      rw [he] at hresult
      exact hresult
    rcases hrestores with ⟨t, ht, task, htask, hstate, hallow⟩ | hrestores
    · rw [resumed_failed ht htask hstate hallow] at hfailed
      cases hfailed
    · rw [he]
      have hbarred : Barred (StaysCompleted restored.saved) x.results
          { x with frames := fun thread => if thread = 0 then [{}] else [] } := by
        refine ⟨fun t ht => ?_, fun p hp => ?_, fun t ht => ?_, fun thread frame hframe t ht => ?_, fun t _ => ?_,
          fun t _ => rfl⟩
        · rintro ⟨task, htask, hdone⟩
          obtain ⟨hmem, hnone⟩ := hr.pending t ht
          have hself : (⟨t.task, none⟩ : TaskId) = t := by rw [← (hunrun.2 t hmem).2]
          rw [hself] at htask
          exact absurd (hnone.symm.trans (hresults t hmem task htask hdone)) (Option.some_ne_none _).symm
        · have hp : p ∈ x.running := hp
          rw [hr.running] at hp
          cases hp
        · have ht : t ∈ x.starts := ht
          rw [hr.starts] at ht
          cases ht
        · rw [rest_of_first thread frame hframe] at ht
          cases ht
        · rcases hr.status t with hs | hs | ⟨hs, -⟩
          · exact fun h => absurd (hs.symm.trans h) TaskStatus.noConfusion
          · exact fun h => absurd (hs.symm.trans h) TaskStatus.noConfusion
          · exact fun h => absurd (hs.symm.trans h) TaskStatus.noConfusion
      have hshaped : Shaped Unmapped { x with frames := fun thread => if thread = 0 then [{}] else [] } := by
        refine ⟨fun t ht _ => (hunrun.2 t ?_).2, fun thread frame hframe t ht => ?_⟩
        · rw [← hr.listed]
          exact ht
        · rw [rest_of_first thread frame hframe] at ht
          cases ht
      have hrun := hbarred.run (fun t ht => ht) hshaped acts
      refine ⟨fun t ht hsettled => hrun.starts t ht (hrestores t hsettled).1, ?_⟩
      intro u hu i dep hmem hdep task htask hdone v hv
      obtain ⟨hstays, hsame⟩ := hrestores dep ⟨task, htask, .inl hdone⟩
      refine args_of_result hdep ?_
      rw [hrun.results dep hstays]
      have hsaved : restored.saved dep = some task := (hsame (hunrun.2 dep hmem).2).trans htask
      rw [hresults dep hmem task hsaved hdone, Option.mem_def.mp hv]
      rfl

/-- Task 1 runs after task 0, or over the list that it returns. -/
def afterNode (each : Bool) (t : TaskId) : TaskNode :=
  if t = ⟨1, none⟩ then { dependencies := [⟨0, none⟩], eachSource := if each then some ⟨0, none⟩ else none } else {}

theorem unrun_after (each : Bool) : Unrun (afterNode each) [⟨0, none⟩, ⟨1, none⟩] := by
  refine ⟨fun t => ?_, fun t ht => ?_⟩
  · unfold afterNode
    split
    · exact ⟨rfl, rfl⟩
    · exact ⟨rfl, rfl⟩
  · rcases List.mem_cons.mp ht with rfl | ht
    · exact ⟨rfl, rfl⟩
    · rw [List.mem_singleton.mp ht]
      exact ⟨rfl, rfl⟩

/-- Task 0 has returned a list of two numbers. -/
def returnedRun (each : Bool) : Run :=
  (fresh (afterNode each) [⟨0, none⟩, ⟨1, none⟩] false true).run
    [.turn 0 false, .turn 0 false, .ends 1 0 (.returned (.list [.atom 1, .atom 2])) false]

/-- The run is resumed there, and task 1 is run. -/
theorem returned_respects :
    Respects (afterNode false) [⟨0, none⟩, ⟨1, none⟩] (returnedRun false).snapshot
      ((PlainResume.workflow.begins (returnedRun false).snapshot (afterNode false) [⟨0, none⟩, ⟨1, none⟩] false true
        (fun _ => 0) [] []).run [.turn 0 false, .turn 0 false]) := by
  refine respects_of_restores (unrun_after false) _ .workflow (.inr fun t hsettled => ?_) false true (fun _ => 0) [] [] _
  have ht : t ∈ [(⟨0, none⟩ : TaskId), ⟨1, none⟩] := by
    by_contra ht
    obtain ⟨task, htask, -⟩ := hsettled
    have hnone : (returnedRun false).snapshot.saved t = none := if_neg ht
    rw [Option.mem_def, hnone] at htask
    cases htask
  refine ⟨?_, fun _ => rfl⟩
  rcases List.mem_cons.mp ht with rfl | ht
  · decide
  · rw [List.mem_singleton.mp ht] at hsettled
    exact absurd hsettled (by decide)

/-- Task 0 returns a list, task 1 is mapped over it, and the first of its instances returns. -/
def mappedActs : List Act :=
  [.turn 0 false, .turn 0 false, .ends 1 0 (.returned (.list [.atom 1, .atom 2])) false, .turn 1 false, .turn 1 false,
    .turn 1 false, .turn 1 false, .turn 1 false, .ends 2 1 (.returned (.atom 3)) false]

/-- A run that is resumed there expands task 1 again, and runs the instance once more. -/
theorem instance_repeated :
    ¬ ∀ (node : TaskId → TaskNode) (tasks : List TaskId) (s : Run) (acts : List Act), Unrun node tasks → Opens node tasks s →
      ∀ (resume : PlainResume) (workers flow : Bool) (order : TaskId → Nat) (labels : List String) (parked : List TaskId)
        (acts' : List Act), Respects node tasks (s.run acts).snapshot
          ((resume.begins (s.run acts).snapshot node tasks workers flow order labels parked).run acts') := by
  intro h
  have hstarts := (h (afterNode true) [⟨0, none⟩, ⟨1, none⟩] _ mappedActs (unrun_after true) (.fresh false true)
    .workflow false true (fun _ => 0) [] [] [.turn 0 false, .turn 0 false, .turn 0 false, .turn 0 false]).starts ⟨1, some 0⟩
  exact hstarts (by decide) (by decide)

end resumes

end Run

end Nodus.Orchestration
