import Mathlib.Data.List.GetD
import Nodus.TaskVerdict

/-! What the expansions of mapped tasks have added to a run. -/

namespace Nodus.Orchestration

namespace Run

variable {s s' : Run} {t u : TaskId}

/-- A mapped task that is expanded: its source has a list as its result. -/
structure Expands (s : Run) (t source : TaskId) (items : List Value) : Prop where
  pending : t ∈ s.pending
  mapped : (s.node t).Mapped
  found : (s.node t).dependencies.find? (fun dep => (s.node t).eachSource = some dep) = some source
  result : s.results source = some (.list items)
  nonempty : items ≠ []
  limit : items.length ≤ maxMappedInstances

theorem expandMapped_cases (h : s.Apart) (t : TaskId) : Only s (s.expandMapped t) t ∨
    ∃ source items, (s.node t).dependencies.find? (fun dep => (s.node t).eachSource = some dep) = some source ∧
      s.results source = some (.list items) ∧ items ≠ [] ∧ items.length ≤ maxMappedInstances ∧
        s.expandMapped t = s.expand t ((s.node t).dependencies.idxOf source) items := by
  unfold expandMapped
  simp only []
  split
  · next items hitems =>
      split
      · exact .inl (only_conclude h .failed)
      · next hlimit =>
          split
          · exact .inl (only_concludeSkipped h)
          · next hempty =>
              obtain ⟨source, hsource, hresult⟩ := Option.bind_eq_some_iff.mp hitems
              refine .inr ⟨source, items, hsource, hresult, ?_, Nat.le_of_not_lt hlimit, ?_⟩
              · rintro rfl
                exact hempty rfl
              · rw [hsource]
                rfl
  · exact .inl (only_conclude h .failed)

theorem ends_expanded (h : s.Apart) (thread flight : Nat) (ending : Ending) (swept : Bool) :
    (s.ends thread flight ending swept).expanded = s.expanded := by
  cases htask : s.taskOf flight with
  | none =>
      unfold Run.ends
      rw [htask]
  | some t => exact (only_ends h htask thread ending swept).expanded

theorem perform_expanded (h : s.Sound) {act : Act} (hfits : s.Fits act) :
    (s.perform act).tasks = s.tasks ∧ (s.perform act).expanded = s.expanded ∨
      ∃ t source items, s.Expands t source items ∧
        Agrees (s.expand t ((s.node t).dependencies.idxOf source) items) (s.perform act) := by
  unfold Run.perform
  split
  · exact .inl ⟨rfl, rfl⟩
  · cases act with
    | checkpoint label => exact .inl ⟨rfl, rfl⟩
    | cached key v => exact .inl ⟨rfl, rfl⟩
    | ends thread flight ending swept =>
        exact .inl ⟨(keeps_ends s thread flight ending swept).tasks, ends_expanded h.apart thread flight ending swept⟩
    | turn thread cancelled =>
        simp only [Run.turn]
        split
        · exact .inl ⟨rfl, rfl⟩
        · exact .inl ⟨rfl, rfl⟩
        · split
          · refine .inl ⟨(keeps_cancelInflight s).tasks, ?_⟩
            show s.cancelInflight.expanded = s.expanded
            unfold cancelInflight
            split
            · rfl
            · rfl
          · exact .inl ⟨(keeps_settleMapped s).tasks, settleMapped_eq Run.expanded (fun _ _ _ => rfl) s⟩
        · next t rest again outer hframes =>
            have ht : t ∈ s.pending := hfits t (by simp [next, hframes])
            split
            · exact .inl ⟨rfl, rfl⟩
            · split
              · next hmapped =>
                  rcases expandMapped_cases h.apart t with honly | ⟨source, items, hsource, hresult, hne, hle, he⟩
                  · exact .inl ⟨honly.tasks, honly.expanded⟩
                  · refine .inr ⟨t, source, items, ⟨ht, hmapped, hsource, hresult, hne, hle⟩, ?_⟩
                    rw [he]
                    exact agrees_setFrames _ _ _
              · left
                have hagrees := agrees_setFrames s thread (⟨rest, again⟩ :: outer)
                have honly := only_spawnTask (hagrees.apart h.apart) (h.of_pending ht).2.1 thread
                exact ⟨honly.tasks, honly.expanded⟩

/-- A mapped task has been expanded over the list that its source has as its result, one instance for each item. -/
structure Expansion (s : Run) (t : TaskId) (instances : List TaskId) (source : TaskId) (items : List Value) : Prop where
  found : (s.node t).dependencies.find? (fun dep => (s.node t).eachSource = some dep) = some source
  result : s.results source = some (.list items)
  nonempty : items ≠ []
  limit : items.length ≤ maxMappedInstances
  instances : instances = instanceIds t items
  node : ∀ i (h : i < items.length), (instanceNode (s.node t) ((s.node t).dependencies.idxOf source) i items[i]).Same
    (s.node ⟨t.task, some i⟩)

/-- The tasks of a run are those of its graph and, after them, the instances of the mapped ones that have been expanded. -/
structure Grown (node : TaskId → TaskNode) (tasks : List TaskId) (s : Run) : Prop where
  sound : s.Sound
  listed : s.tasks = tasks ++ s.expanded.flatMap Prod.snd
  same : ∀ t ∈ tasks, (node t).Same (s.node t)
  expansion : ∀ p ∈ s.expanded, ∃ source items, s.Expansion p.1 p.2 source items

variable {node : TaskId → TaskNode} {tasks : List TaskId}

theorem instanceNode_same {taskNode taskNode' : TaskNode} (h : taskNode.Same taskNode') (dep index : Nat) (item : Value) :
    instanceNode taskNode' dep index item = instanceNode taskNode dep index item := by
  rw [h]
  rfl

theorem Expansion.perform {instances : List TaskId} {source : TaskId} {items : List Value} (hs : s.Sound)
    (hlisted : t ∈ s.tasks) (hinstances : ∀ i ∈ instances, i ∈ s.tasks) (h : s.Expansion t instances source items) {act : Act}
    (hfits : s.Fits act) : (s.perform act).Expansion t instances source items := by
  have hsettles := settles_perform hs act hfits
  have hsame := hsettles.same t hlisted
  have hresult : (s.perform act).results source = s.results source := by
    have hkind : s.kind source = some .completed := by
      unfold kind
      rw [h.result]
      rfl
    exact congrArg View.result (hsettles.view source (hs.inactive hkind (by decide)))
  have hdeps : ((s.perform act).node t).dependencies = (s.node t).dependencies := by rw [hsame]
  have heach : ((s.perform act).node t).eachSource = (s.node t).eachSource := by rw [hsame]
  constructor
  · rw [hdeps, heach]
    exact h.found
  · rw [hresult]
    exact h.result
  · exact h.nonempty
  · exact h.limit
  · exact h.instances
  · intro i hi
    have hmem : (⟨t.task, some i⟩ : TaskId) ∈ instances := by
      rw [h.instances]
      exact mem_instanceIds.mpr ⟨rfl, i, hi, rfl⟩
    rw [hdeps, instanceNode_same hsame]
    exact same_trans (h.node i hi) (hsettles.same _ (hinstances _ hmem))

theorem Expansion.of_agrees {instances : List TaskId} {source : TaskId} {items : List Value}
    (h : s.Expansion t instances source items) (ha : Agrees s s') : s'.Expansion t instances source items := by
  obtain ⟨hfound, hresult, hne, hlimit, hinstances, hnode⟩ := h
  rw [← ha.node] at hfound hnode
  rw [← ha.results] at hresult
  exact ⟨hfound, hresult, hne, hlimit, hinstances, hnode⟩

theorem expansion_expand {source : TaskId} {items : List Value} (hs : s.Sound) (h : s.Expands t source items) :
    (s.expand t ((s.node t).dependencies.idxOf source) items).Expansion t (instanceIds t items) source items := by
  have hnew : t ∉ instanceIds t items := fun hmem => (hs.fresh_instance h.pending h.mapped hmem).2.1 rfl
  have hnode : (s.expand t ((s.node t).dependencies.idxOf source) items).node t =
      { s.node t with status := .expanded } := by
    show (if t ∈ instanceIds t items then _ else (s.setStatus t .expanded).node t) = _
    rw [if_neg hnew]
    exact Function.update_self _ _ _
  constructor
  · rw [hnode]
    exact h.found
  · exact h.result
  · exact h.nonempty
  · exact h.limit
  · rfl
  · intro i hi
    have hmem : (⟨t.task, some i⟩ : TaskId) ∈ instanceIds t items := mem_instanceIds.mpr ⟨rfl, i, hi, rfl⟩
    have hinstance : (s.expand t ((s.node t).dependencies.idxOf source) items).node ⟨t.task, some i⟩ =
        instanceNode (s.node t) ((s.node t).dependencies.idxOf source) i (items.getD i .nil) := by
      show (if _ ∈ instanceIds t items then _ else _) = _
      rw [if_pos hmem]
      rfl
    rw [hinstance, hnode, List.getD_eq_getElem items .nil hi]
    exact same_refl _

theorem Grown.perform (h : Grown node tasks s) {act : Act} (hfits : s.Fits act) : Grown node tasks (s.perform act) := by
  have hs := h.sound
  have hsettles := settles_perform hs act hfits
  have hold : ∀ p ∈ s.expanded, ∃ source items, (s.perform act).Expansion p.1 p.2 source items := by
    intro p hp
    obtain ⟨-, -, hlisted, -, hinstances⟩ := hs.parents p hp
    obtain ⟨source, items, hexpansion⟩ := h.expansion p hp
    exact ⟨source, items, hexpansion.perform hs hlisted (fun i hi => (hinstances i hi).listed) hfits⟩
  refine ⟨hs.perform act hfits, ?_, fun t ht => ?_, fun p hp => ?_⟩
  · rcases perform_expanded hs hfits with ⟨htasks, hexpanded⟩ | ⟨t, source, items, -, hagrees⟩
    · rw [htasks, hexpanded]
      exact h.listed
    · rw [hagrees.tasks, hagrees.expanded]
      show s.tasks ++ instanceIds t items = tasks ++ (s.expanded ++ [(t, instanceIds t items)]).flatMap Prod.snd
      rw [h.listed, List.flatMap_append, List.append_assoc]
      simp
  · have hmem : t ∈ s.tasks := by
      rw [h.listed]
      exact List.mem_append_left _ ht
    exact same_trans (h.same t ht) (hsettles.same t hmem)
  · rcases perform_expanded hs hfits with ⟨-, hexpanded⟩ | ⟨t, source, items, hexpands, hagrees⟩
    · exact hold p (hexpanded ▸ hp)
    · rw [hagrees.expanded] at hp
      rcases List.mem_append.mp hp with hp | hp
      · exact hold p hp
      · obtain rfl := List.mem_singleton.mp hp
        exact ⟨source, items, (expansion_expand hs hexpands).of_agrees hagrees⟩

theorem Grown.run (h : Grown node tasks s) (acts : List Act) (hfits : s.AllFit acts) : Grown node tasks (s.run acts) := by
  induction acts generalizing s with
  | nil => exact h
  | cons act acts ih => exact ih (h.perform hfits.1) hfits.2

theorem Restored.grown (h : Restored node tasks s) (hunrun : Unrun node tasks)
    (hcovered : ∀ t ∈ tasks, s.results t = none → t ∈ s.pending) : Grown node tasks s where
  sound := h.sound hunrun hcovered
  listed := by
    rw [h.listed, h.expanded]
    simp
  same t _ := h.same t
  expansion p hp := by
    rw [h.expanded] at hp
    cases hp

theorem Opens.grown (ho : Opens node tasks s) (hunrun : Unrun node tasks) (hcalm : s.failed = false) : Grown node tasks s := by
  cases ho with
  | fresh workers flow =>
      exact (restored_fresh hunrun workers flow).grown hunrun fun t ht _ => List.mem_dedup.mpr ht
  | resumed workers flow savedTasks storedPending order labels parked =>
      obtain ⟨x, hx, hcases⟩ := resumed_cases hunrun workers flow savedTasks storedPending order labels parked
      have hr := hx.restored
      rcases hcases with ⟨hfailed, he⟩ | ⟨-, hcovered, he⟩
      · rw [he, hfailed] at hcalm
        cases hcalm
      · rw [he]
        exact Restored.grown ⟨hr.listed, hr.same, hr.status, hr.nodup, hr.pending, hr.results, hr.running, hr.skipped,
          hr.expanded, hr.starts, hr.retries⟩ hunrun hcovered

/-! ### What is reported of a step -/

/-- `step_results`, of the step of a task. The instances of an expanded task are reported together, in the order of the items;
the result of the task itself is not among the values of the tasks. -/
def stepResult (s : Run) (t : TaskId) : Option Value :=
  match s.expanded.find? (·.1 = t) with
  | some p =>
      match p.2.filterMap s.results with
      | [] => none
      | values => some (.list values)
  | none =>
      match s.results t with
      | some v => some v
      | none => if t ∈ s.skipped ∧ (s.node t).status = .skipped then some (.list []) else none

end Run

end Nodus.Orchestration
