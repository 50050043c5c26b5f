import Nodus.TaskGraph

/-! What a run never changes of a task: all of its node but the status and the number of attempts. Only the expansion of a
mapped task adds nodes, those of its instances. -/

namespace Nodus.Orchestration

/-- The node of a task with another status and another number of attempts. -/
def TaskNode.Same (node node' : TaskNode) : Prop :=
  node' = { node with status := node'.status, attempts := node'.attempts }

namespace Run

variable {s s' s'' : Run} {t u : TaskId}

theorem same_refl (node : TaskNode) : node.Same node := rfl

theorem same_trans {node node' node'' : TaskNode} (h : node.Same node') (h' : node'.Same node'') :
    node.Same node'' := by
  unfold TaskNode.Same at *
  rw [h', h]

theorem mapped_same {node node' : TaskNode} (h : node.Same node') : node'.Mapped ↔ node.Mapped := by
  rw [h]
  exact Iff.rfl

/-- No task is added, and none that `schedule_ready` is to come to is unknown. -/
structure Keeps (s s' : Run) : Prop where
  tasks : s'.tasks = s.tasks
  node : ∀ t, (s.node t).Same (s'.node t)
  frames : ∀ thread, ∀ frame ∈ s'.frames thread, ∀ t ∈ frame.rest,
    t ∈ s.tasks ∨ ∃ outer ∈ s.frames thread, t ∈ outer.rest

theorem Keeps.trans (h : Keeps s s') (h' : Keeps s' s'') : Keeps s s'' where
  tasks := h'.tasks.trans h.tasks
  node t := same_trans (h.node t) (h'.node t)
  frames thread frame hframe t ht := by
    rcases h'.frames thread frame hframe t ht with hmem | ⟨outer, houter, hmem⟩
    · exact .inl (h.tasks ▸ hmem)
    · exact h.frames thread outer houter t hmem

theorem keeps_of_eq (htasks : s'.tasks = s.tasks) (hnode : s'.node = s.node) (hframes : s'.frames = s.frames) :
    Keeps s s' where
  tasks := htasks
  node _ := hnode ▸ same_refl _
  frames _ frame hframe _ ht := .inr ⟨frame, hframes ▸ hframe, ht⟩

theorem keeps_refl (s : Run) : Keeps s s := keeps_of_eq rfl rfl rfl

theorem keeps_setNode (s : Run) (t : TaskId) (f : TaskNode → TaskNode) (hf : (s.node t).Same (f (s.node t))) :
    Keeps s (s.setNode t f) where
  tasks := rfl
  node u := by
    show (s.node u).Same (Function.update s.node t (f (s.node t)) u)
    by_cases hu : u = t
    · rw [hu, Function.update_self]
      exact hf
    · rw [Function.update_of_ne hu]
      exact same_refl _
  frames thread frame hframe t ht := .inr ⟨frame, hframe, ht⟩

theorem keeps_setStatus (s : Run) (t : TaskId) (status : TaskStatus) : Keeps s (s.setStatus t status) :=
  keeps_setNode s t _ rfl

theorem keeps_setFrames (s : Run) (thread : Nat) (frames : List Frame)
    (h : ∀ frame ∈ frames, ∀ t ∈ frame.rest, t ∈ s.tasks ∨ ∃ outer ∈ s.frames thread, t ∈ outer.rest) :
    Keeps s (s.setFrames thread frames) where
  tasks := rfl
  node _ := same_refl _
  frames thread' frame hframe t ht := by
    have hframe : frame ∈ Function.update s.frames thread frames thread' := hframe
    by_cases hthread : thread' = thread
    · rw [hthread, Function.update_self] at hframe
      rw [hthread]
      exact h frame hframe t ht
    · rw [Function.update_of_ne hthread] at hframe
      exact .inr ⟨frame, hframe, ht⟩

theorem keeps_call (s : Run) (thread : Nat) : Keeps s (s.call thread) := by
  refine keeps_setFrames s thread _ fun frame hframe t ht => ?_
  rcases List.mem_cons.mp hframe with rfl | hframe
  · cases ht
  · exact .inr ⟨frame, hframe, ht⟩

theorem keeps_markPending (s : Run) (t : TaskId) : Keeps s (s.markPending t) := by
  unfold markPending
  split
  · exact keeps_refl s
  · exact keeps_of_eq rfl rfl rfl

theorem keeps_start (s : Run) (t : TaskId) : Keeps s (s.start t) :=
  (keeps_setNode s t (fun node => { node with status := .running, attempts := node.attempts + 1 }) rfl).trans
    (keeps_of_eq rfl rfl rfl)

theorem keeps_record (s : Run) (t : TaskId) (v : Value) : Keeps s (s.record t v) :=
  (keeps_setStatus s t .done).trans (keeps_of_eq rfl rfl rfl)

theorem keeps_spawnTask (s : Run) (thread : Nat) (t : TaskId) : Keeps s (s.spawnTask thread t) := by
  unfold spawnTask
  split
  · exact keeps_refl s
  · split
    · exact keeps_refl s
    · split
      · exact ((keeps_start s t).trans (keeps_record _ t _)).trans (keeps_call _ thread)
      · exact (keeps_start s t).trans (keeps_of_eq rfl rfl rfl)

theorem keeps_failTask (s : Run) (thread : Nat) (t : TaskId) (swept : Bool) : Keeps s (s.failTask thread t swept) := by
  have hstatus := fun (status : TaskStatus) => keeps_setStatus s t status
  unfold failTask
  split
  · split
    · exact ((hstatus .retryScheduled).trans (keeps_markPending _ t)).trans (keeps_of_eq rfl rfl rfl)
    · exact ((hstatus .retrying).trans (keeps_markPending _ t)).trans (keeps_spawnTask _ thread t)
  · split
    · exact (hstatus .failed).trans (keeps_call _ thread)
    · split
      · exact hstatus .failed
      · have hfailed : Keeps s { s.setStatus t .failed with failed := true } :=
          (hstatus .failed).trans (keeps_of_eq rfl rfl rfl)
        exact hfailed.trans (keeps_call _ thread)

theorem keeps_storeCached (s : Run) (t : TaskId) (v : Value) : Keeps s (s.storeCached t v) := by
  unfold storeCached
  split
  · exact keeps_of_eq rfl rfl rfl
  · exact keeps_refl s

theorem keeps_complete (s : Run) (thread : Nat) (t : TaskId) (v : Value) (swept : Bool) :
    Keeps s (s.complete thread t v swept) := by
  have hrecord := keeps_record s t v
  unfold complete
  simp only []
  split
  · split
    · exact hrecord.trans (keeps_failTask _ thread t swept)
    · exact hrecord.trans (keeps_of_eq rfl rfl rfl)
  · exact (hrecord.trans (keeps_storeCached _ t v)).trans (keeps_call _ thread)

theorem keeps_ends (s : Run) (thread flight : Nat) (ending : Ending) (swept : Bool) :
    Keeps s (s.ends thread flight ending swept) := by
  have hpop : Keeps s (s.pop flight) := keeps_of_eq rfl rfl rfl
  unfold ends
  split
  · exact keeps_refl s
  · next t _ =>
      simp only []
      cases ending with
      | waits => exact (hpop.trans (keeps_record _ t .nil)).trans (keeps_of_eq rfl rfl rfl)
      | returned v => exact hpop.trans (keeps_complete _ thread t v swept)
      | errorValue v =>
          simp only []
          split
          · exact hpop.trans (keeps_failTask _ thread t swept)
          · exact hpop.trans (keeps_complete _ thread t v swept)
      | raised => exact hpop.trans (keeps_failTask _ thread t swept)

theorem keeps_cancelInflight (s : Run) : Keeps s s.cancelInflight := by
  unfold cancelInflight
  split
  · exact keeps_of_eq rfl rfl rfl
  · refine ⟨rfl, fun t => ?_, fun thread frame hframe t ht => .inr ⟨frame, hframe, ht⟩⟩
    simp only []
    split
    · rfl
    · exact same_refl _

theorem keeps_settleMappedParent (s : Run) (parent : TaskId) (instances : List TaskId) :
    Keeps s (s.settleMappedParent parent instances).1 := by
  unfold settleMappedParent
  split
  · exact keeps_refl s
  · split
    · exact keeps_refl s
    · exact keeps_setStatus s parent .failed
    · exact (keeps_setStatus s parent .done).trans (keeps_of_eq rfl rfl rfl)

theorem keeps_settleMapped (s : Run) : Keeps s s.settleMapped.1 := by
  have hfold : ∀ (expanded : List (TaskId × List TaskId)) (acc : Run × Bool), Keeps s acc.1 →
      Keeps s (expanded.foldl (fun (acc : Run × Bool) p => ((acc.1.settleMappedParent p.1 p.2).1,
        acc.2 || (acc.1.settleMappedParent p.1 p.2).2)) acc).1 := by
    intro expanded
    induction expanded with
    | nil => exact fun _ h => h
    | cons p expanded ih => exact fun acc h => ih _ (h.trans (keeps_settleMappedParent acc.1 p.1 p.2))
  exact hfold s.expanded (s, false) (keeps_refl s)

theorem keeps_conclude (s : Run) (t : TaskId) (status : TaskStatus) : Keeps s (s.conclude t status) :=
  (keeps_setStatus s t status).trans (keeps_of_eq rfl rfl rfl)

theorem keeps_expandMapped (s : Run) (t : TaskId) : Keeps s (s.expandMapped t) ∨
    ∃ source items, (s.node t).eachSource = some source ∧ source ∈ (s.node t).dependencies ∧
      s.expandMapped t = s.expand t ((s.node t).dependencies.idxOf source) items := by
  unfold expandMapped
  simp only []
  split
  · next items hitems =>
      split
      · exact .inl (keeps_conclude s t .failed)
      · split
        · exact .inl ((keeps_conclude s t .skipped).trans (keeps_of_eq rfl rfl rfl))
        · obtain ⟨source, hsource, -⟩ := Option.bind_eq_some_iff.mp hitems
          have heach : decide ((s.node t).eachSource = some source) = true :=
            List.find?_some (p := fun dep => decide ((s.node t).eachSource = some dep)) hsource
          refine .inr ⟨source, items, of_decide_eq_true heach, List.mem_of_find?_eq_some hsource, ?_⟩
          rw [hsource]
          rfl
  · exact .inl (keeps_conclude s t .failed)

theorem mem_readyTasks : t ∈ s.readyTasks ↔
    t ∈ s.tasks ∧ t ∈ s.pending ∧ ∀ dep ∈ (s.node t).dependencies, s.depSatisfied t dep = true := by
  unfold readyTasks
  rw [List.mem_insertionSort, List.mem_filter]
  simp

/-! What holds of the nodes of all tasks. -/

/-- Every task has a node of a kind, and `schedule_ready` comes to tasks only. -/
structure Shaped (P : TaskId → TaskNode → Prop) (s : Run) : Prop where
  tasks : ∀ t ∈ s.tasks, P t (s.node t)
  frames : ∀ thread, ∀ frame ∈ s.frames thread, ∀ t ∈ frame.rest, t ∈ s.tasks

section shaped

variable {P : TaskId → TaskNode → Prop}

theorem Shaped.keeps (hsame : ∀ t node node', node.Same node' → P t node → P t node') (h : s.Shaped P)
    (hk : Keeps s s') : s'.Shaped P where
  tasks t ht := hsame t _ _ (hk.node t) (h.tasks t (hk.tasks ▸ ht))
  frames thread frame hframe t ht := by
    rw [hk.tasks]
    rcases hk.frames thread frame hframe t ht with hmem | ⟨outer, houter, hmem⟩
    · exact hmem
    · exact h.frames thread outer houter t hmem

variable (hsame : ∀ t node node', node.Same node' → P t node → P t node')
  (hinstance : ∀ t node source, P t node → node.eachSource = some source → source ∈ node.dependencies →
    ∀ index item, P ⟨t.task, some index⟩ (instanceNode node (node.dependencies.idxOf source) index item))

include hsame hinstance

theorem Shaped.expandMapped (h : s.Shaped P) (ht : t ∈ s.tasks) : (s.expandMapped t).Shaped P := by
  rcases keeps_expandMapped s t with hk | ⟨source, items, hsource, hdep, he⟩
  · exact h.keeps hsame hk
  · rw [he]
    refine ⟨fun u hu => ?_, fun thread frame hframe u hu => List.mem_append_left _ (h.frames thread frame hframe u hu)⟩
    by_cases hmem : u ∈ instanceIds t items
    · have hnode : (s.expand t ((s.node t).dependencies.idxOf source) items).node u =
          instanceNode (s.node t) ((s.node t).dependencies.idxOf source) (u.index.getD 0)
            (items.getD (u.index.getD 0) .nil) := if_pos hmem
      obtain ⟨i, -, rfl⟩ := List.mem_map.mp hmem
      rw [hnode]
      exact hinstance t _ source (h.tasks t ht) hsource hdep i _
    · have hnode : (s.expand t ((s.node t).dependencies.idxOf source) items).node u = (s.setStatus t .expanded).node u :=
        if_neg hmem
      have hlisted : u ∈ s.tasks := (List.mem_append.mp hu).resolve_right hmem
      rw [hnode]
      exact hsame u _ _ ((keeps_setStatus s t .expanded).node u) (h.tasks u hlisted)

theorem Shaped.turn (h : s.Shaped P) (thread : Nat) (cancelled : Bool) : (s.turn thread cancelled).Shaped P := by
  unfold Run.turn
  split
  · exact h
  · next outer hframes =>
      refine h.keeps hsame (keeps_setFrames s thread outer fun frame hframe t ht => .inr ⟨frame, ?_, ht⟩)
      rw [hframes]
      exact List.mem_cons_of_mem _ hframe
  · next outer hframes =>
      have houter : ∀ frame ∈ outer, frame ∈ s.frames thread := fun frame hframe => by
        rw [hframes]
        exact List.mem_cons_of_mem _ hframe
      split
      · refine h.keeps hsame ((keeps_cancelInflight s).trans (keeps_setFrames _ thread outer fun frame hframe t ht => ?_))
        have hsameFrames : s.cancelInflight.frames = s.frames := by
          unfold Run.cancelInflight
          split
          · rfl
          · rfl
        exact .inr ⟨frame, hsameFrames ▸ houter frame hframe, ht⟩
      · have hpass := h.keeps hsame (keeps_settleMapped s)
        refine ⟨hpass.tasks, fun thread' frame hframe t ht => ?_⟩
        have hframe : frame ∈ Function.update s.settleMapped.1.frames thread
          (⟨s.settleMapped.1.readyTasks, s.settleMapped.2⟩ :: outer) thread' := hframe
        by_cases hthread : thread' = thread
        · rw [hthread, Function.update_self] at hframe
          rcases List.mem_cons.mp hframe with rfl | hframe
          · exact (mem_readyTasks.mp ht).1
          · have htask : t ∈ s.tasks := h.frames thread frame (houter frame hframe) t ht
            exact (keeps_settleMapped s).tasks ▸ htask
        · rw [Function.update_of_ne hthread] at hframe
          exact hpass.frames thread' frame hframe t ht
  · next t rest again outer hframes =>
      have hhead : (⟨t :: rest, again⟩ : Frame) ∈ s.frames thread := hframes ▸ List.mem_cons_self
      have ht : t ∈ s.tasks := h.frames thread _ hhead t List.mem_cons_self
      have hrest : ∀ (x : Run), x.frames = s.frames → ∀ again', Keeps x (x.setFrames thread (⟨rest, again'⟩ :: outer)) := by
        intro x hx again'
        refine keeps_setFrames x thread _ fun frame hframe u hu => .inr ?_
        rcases List.mem_cons.mp hframe with rfl | hframe
        · exact ⟨_, hx ▸ hhead, List.mem_cons_of_mem _ hu⟩
        · exact ⟨frame, by rw [hx, hframes]; exact List.mem_cons_of_mem _ hframe, hu⟩
      split
      · have hskip : Keeps s (s.skip t) := keeps_of_eq rfl rfl rfl
        exact h.keeps hsame (hskip.trans (hrest (s.skip t) rfl true))
      · split
        · refine (h.expandMapped hsame hinstance ht).keeps hsame (hrest _ ?_ true)
          unfold Run.expandMapped
          simp only []
          split
          · split
            · rfl
            · split
              · rfl
              · rfl
          · rfl
        · exact h.keeps hsame ((hrest s rfl again).trans (keeps_spawnTask _ thread t))

theorem Shaped.perform (h : s.Shaped P) (act : Act) : (s.perform act).Shaped P := by
  unfold Run.perform
  split
  · exact h
  · cases act with
    | turn thread cancelled => exact h.turn hsame hinstance thread cancelled
    | ends thread flight ending swept => exact h.keeps hsame (keeps_ends s thread flight ending swept)
    | checkpoint label => exact h.keeps hsame (keeps_of_eq rfl rfl rfl)
    | cached key v => exact h.keeps hsame (keeps_of_eq rfl rfl rfl)

/-- What holds of the nodes of a graph, and of the instances of a node that it holds of, holds in every state of every run. -/
theorem Shaped.run (h : s.Shaped P) (acts : List Act) : (s.run acts).Shaped P := by
  induction acts generalizing s with
  | nil => exact h
  | cons act acts ih => exact ih (h.perform hsame hinstance act)

end shaped

end Run

end Nodus.Orchestration
