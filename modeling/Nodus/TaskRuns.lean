import Nodus.TaskShapes

/-! What a step of a run does to the tasks: to one of them at most, but for an expansion and a cancellation. Every task is
in one place, and is started once for every attempt. -/

namespace Nodus.Orchestration

/-- Everything that a run says of one task. -/
structure View where
  node : TaskNode
  listed : Bool
  pending : Bool
  flying : Bool
  skipped : Bool
  result : Option Value
  starts : Nat
  retries : Nat

/-- The status of a task that is not running, has no result and has not been expanded. -/
def TaskStatus.Idle : TaskStatus → Prop
  | .running | .done | .completed | .expanded => False
  | _ => True

/-- A failed attempt is to be retried. -/
def TaskStatus.Due (status : TaskStatus) : Prop := status = .retrying ∨ status = .retryScheduled

instance (status : TaskStatus) : Decidable status.Due := inferInstanceAs (Decidable (_ ∨ _))

namespace View

/-- A task is in one place. -/
structure Placed (v : View) : Prop where
  pending : v.pending = true → v.listed = true ∧ v.flying = false ∧ v.skipped = false ∧ v.result = none ∧ v.node.status.Idle
  flying : v.flying = true → v.listed = true ∧ v.skipped = false ∧ v.result = none ∧ v.node.status = .running ∧
    ¬ v.node.Mapped
  result : v.result ≠ none → v.listed = true ∧ v.skipped = false ∧ (v.node.status = .done ∨ v.node.status = .completed)
  skipped : v.skipped = true → v.listed = true ∧ v.node.status.Idle
  expanded : v.node.status = .expanded → v.node.Mapped
  covered : v.listed = true → v.pending = true ∨ v.flying = true ∨ v.result ≠ none ∨ v.node.status = .failed ∨
    v.skipped = true ∨ v.node.status = .expanded

/-- Every start of a task but the first retries a failed attempt. -/
structure Counted (v : View) : Prop where
  once : v.starts = 0 ∧ v.retries = 0 ∨ v.starts = v.retries + 1
  flying : v.flying = true → 0 < v.starts
  first : v.pending = true → v.starts = 0 → ¬ v.node.status.Due
  again : v.pending = true → 0 < v.starts → v.node.status.Due ∧ v.node.attempts ≤ v.node.maxRetries
  attempts : v.starts ≤ v.node.attempts
  bounded : v.starts ≤ v.node.maxRetries + 1
  listed : 0 < v.starts → v.listed = true

end View

namespace Run

def view (s : Run) (t : TaskId) : View where
  node := s.node t
  listed := decide (t ∈ s.tasks)
  pending := decide (t ∈ s.pending)
  flying := decide (t ∈ s.running.map Prod.snd)
  skipped := decide (t ∈ s.skipped)
  result := s.results t
  starts := s.starts.count t
  retries := s.retries.count t

/-- An instance of a mapped task. -/
structure InstanceOf (s : Run) (parent i : TaskId) : Prop where
  task : i.task = parent.task
  index : i.index ≠ none
  listed : i ∈ s.tasks
  dependencies : (s.node i).dependencies = (s.node parent).dependencies
  onStates : (s.node i).onStates = (s.node parent).onStates
  allowFailure : (s.node i).allowFailure = (s.node parent).allowFailure
  isInstance : (s.node i).eachIndex ≠ none

/-- No task is pending twice or running twice. -/
structure Apart (s : Run) : Prop where
  pending : s.pending.Nodup
  flights : (s.running.map Prod.snd).Nodup
  numbers : (s.running.map Prod.fst).Nodup
  numbered : ∀ p ∈ s.running, p.1 < s.spawned

/-- Every task is in one place, and the instances are those of the expanded tasks. -/
structure Sound (s : Run) : Prop where
  placed : ∀ t, (s.view t).Placed
  counted : ∀ t, (s.view t).Counted
  apart : s.Apart
  parents : ∀ p ∈ s.expanded, p.1.index = none ∧ (s.node p.1).Mapped ∧ p.1 ∈ s.tasks ∧ p.1 ∉ s.pending ∧
    ∀ i ∈ p.2, s.InstanceOf p.1 i
  instances : ∀ i ∈ s.tasks, i.index ≠ none → ∃ p ∈ s.expanded, i ∈ p.2
  indexed : ∀ t ∈ s.tasks, (s.node t).eachIndex ≠ none ↔ t.index ≠ none
  recorded : ∀ t, (s.node t).status = .expanded → ∃ p ∈ s.expanded, p.1 = t

variable {s s' s'' : Run} {t u : TaskId}

/-- Nothing changes but for one task. -/
structure Only (s s' : Run) (t : TaskId) : Prop where
  view : ∀ u, u ≠ t → s'.view u = s.view u
  tasks : s'.tasks = s.tasks
  expanded : s'.expanded = s.expanded
  node : (s.node t).Same (s'.node t)
  apart : s'.Apart

theorem Only.same (h : Only s s' t) (u : TaskId) : (s.node u).Same (s'.node u) := by
  by_cases hu : u = t
  · rw [hu]
    exact h.node
  · have hnode : s'.node u = s.node u := congrArg View.node (h.view u hu)
    rw [hnode]
    exact same_refl _

theorem InstanceOf.same {parent i : TaskId} (h : s.InstanceOf parent i) (htasks : i ∈ s'.tasks)
    (hi : (s.node i).Same (s'.node i)) (hp : (s.node parent).Same (s'.node parent)) : s'.InstanceOf parent i := by
  refine ⟨h.task, h.index, htasks, ?_, ?_, ?_, ?_⟩
  · rw [hi, hp]
    exact h.dependencies
  · rw [hi, hp]
    exact h.onStates
  · rw [hi, hp]
    exact h.allowFailure
  · rw [hi]
    exact h.isInstance

theorem Only.sound (h : s.Sound) (ho : Only s s' t) (hplaced : (s'.view t).Placed) (hcounted : (s'.view t).Counted)
    (hpending : t ∈ s'.pending → ¬ (s.node t).Mapped)
    (hexpanded : (s'.node t).status = .expanded → (s.node t).status = .expanded) : s'.Sound where
  placed u := by
    by_cases hu : u = t
    · rw [hu]
      exact hplaced
    · rw [ho.view u hu]
      exact h.placed u
  counted u := by
    by_cases hu : u = t
    · rw [hu]
      exact hcounted
    · rw [ho.view u hu]
      exact h.counted u
  apart := ho.apart
  parents p hp := by
    rw [ho.expanded] at hp
    obtain ⟨hindex, hmapped, hlisted, hnot, hinstances⟩ := h.parents p hp
    refine ⟨hindex, (mapped_same (ho.same p.1)).mpr hmapped, ho.tasks ▸ hlisted, fun hmem => ?_, fun i hi => ?_⟩
    · by_cases hpt : p.1 = t
      · rw [hpt] at hmem hmapped
        exact hpending hmem hmapped
      · have hview : decide (p.1 ∈ s'.pending) = decide (p.1 ∈ s.pending) := congrArg View.pending (ho.view p.1 hpt)
        exact hnot (of_decide_eq_true (hview ▸ decide_eq_true hmem))
    · have hi := hinstances i hi
      exact hi.same (ho.tasks ▸ hi.listed) (ho.same i) (ho.same p.1)
  instances i hi := by
    rw [ho.tasks] at hi
    rw [ho.expanded]
    exact h.instances i hi
  indexed u hu := by
    rw [ho.tasks] at hu
    rw [ho.same u]
    exact h.indexed u hu
  recorded u hu := by
    rw [ho.expanded]
    apply h.recorded
    by_cases hut : u = t
    · rw [hut] at hu ⊢
      exact hexpanded hu
    · have hnode : s'.node u = s.node u := congrArg View.node (ho.view u hut)
      rwa [hnode] at hu

/-- Two runs say the same of the tasks. -/
structure Agrees (s s' : Run) : Prop where
  node : s'.node = s.node
  tasks : s'.tasks = s.tasks
  pending : s'.pending = s.pending
  results : s'.results = s.results
  running : s'.running = s.running
  spawned : s'.spawned = s.spawned
  skipped : s'.skipped = s.skipped
  expanded : s'.expanded = s.expanded
  starts : s'.starts = s.starts
  retries : s'.retries = s.retries

theorem Agrees.view (h : Agrees s s') (t : TaskId) : s'.view t = s.view t := by
  unfold Run.view
  rw [h.node, h.tasks, h.pending, h.results, h.running, h.skipped, h.starts, h.retries]

theorem Agrees.apart (h : Agrees s s') (hs : s.Apart) : s'.Apart := by
  refine ⟨h.pending ▸ hs.pending, h.running ▸ hs.flights, h.running ▸ hs.numbers, ?_⟩
  rw [h.running, h.spawned]
  exact hs.numbered

theorem Agrees.sound (h : Agrees s s') (hs : s.Sound) : s'.Sound where
  placed t := by
    rw [h.view]
    exact hs.placed t
  counted t := by
    rw [h.view]
    exact hs.counted t
  apart := h.apart hs.apart
  parents p hp := by
    rw [h.expanded] at hp
    obtain ⟨hindex, hmapped, hlisted, hnot, hinstances⟩ := hs.parents p hp
    refine ⟨hindex, h.node ▸ hmapped, h.tasks ▸ hlisted, h.pending ▸ hnot, fun i hi => ?_⟩
    have hi := hinstances i hi
    exact hi.same (h.tasks ▸ hi.listed) (h.node ▸ same_refl _) (h.node ▸ same_refl _)
  instances i hi := by
    rw [h.tasks] at hi
    rw [h.expanded]
    exact hs.instances i hi
  indexed t ht := by
    rw [h.tasks] at ht
    rw [h.node]
    exact hs.indexed t ht
  recorded t ht := by
    rw [h.node] at ht
    rw [h.expanded]
    exact hs.recorded t ht

theorem Only.agrees (h : Only s s' t) (ha : Agrees s' s'') : Only s s'' t where
  view u hu := (ha.view u).trans (h.view u hu)
  tasks := ha.tasks.trans h.tasks
  expanded := ha.expanded.trans h.expanded
  node := ha.node ▸ h.node
  apart := ha.apart h.apart

theorem Only.trans (h : Only s s' t) (h' : Only s' s'' t) : Only s s'' t where
  view u hu := (h'.view u hu).trans (h.view u hu)
  tasks := h'.tasks.trans h.tasks
  expanded := h'.expanded.trans h.expanded
  node := same_trans h.node h'.node
  apart := h'.apart

/-! ### What happens to one task -/

theorem mem_filter_ne {l : List TaskId} : u ∈ l.filter (· ≠ t) ↔ u ∈ l ∧ u ≠ t := by
  rw [List.mem_filter, decide_eq_true_iff]

theorem count_cons_ne {l : List TaskId} (hu : u ≠ t) : (t :: l).count u = l.count u :=
  List.count_cons_of_ne (Ne.symm hu)

theorem only_start (h : s.Apart) : Only s (s.start t) t where
  view u hu := by
    have hretries : (s.start t).retries.count u = s.retries.count u := by
      unfold start
      simp only []
      split
      · exact count_cons_ne hu
      · rfl
    have hpending : decide (u ∈ (s.start t).pending) = decide (u ∈ s.pending) := by
      apply decide_eq_decide.mpr
      show u ∈ s.pending.filter (· ≠ t) ↔ _
      rw [mem_filter_ne, and_iff_left hu]
    have hnode : (s.start t).node u = s.node u := Function.update_of_ne hu _ _
    have hstarts : (s.start t).starts.count u = s.starts.count u := count_cons_ne hu
    unfold Run.view
    rw [hretries, hpending, hnode, hstarts]
    rfl
  tasks := rfl
  expanded := rfl
  node := by
    show (s.node t).Same (Function.update s.node t _ t)
    rw [Function.update_self]
    exact rfl
  apart := ⟨h.pending.filter _, h.flights, h.numbers, h.numbered⟩

theorem only_launch (h : s.Apart) (ht : t ∉ s.running.map Prod.snd) : Only s (s.launch t) t where
  view u hu := by
    have hflying : decide (u ∈ (s.launch t).running.map Prod.snd) = decide (u ∈ s.running.map Prod.snd) := by
      apply decide_eq_decide.mpr
      show u ∈ t :: s.running.map Prod.snd ↔ _
      rw [List.mem_cons, or_iff_right hu]
    unfold Run.view
    rw [hflying]
    rfl
  tasks := rfl
  expanded := rfl
  node := same_refl _
  apart := by
    refine ⟨h.pending, List.nodup_cons.mpr ⟨ht, h.flights⟩, List.nodup_cons.mpr ⟨fun hmem => ?_, h.numbers⟩, fun p hp => ?_⟩
    · obtain ⟨p, hp, heq⟩ := List.mem_map.mp hmem
      exact Nat.ne_of_lt (h.numbered p hp) heq
    · rcases List.mem_cons.mp hp with rfl | hp
      · exact Nat.lt_succ_self _
      · exact Nat.lt_succ_of_lt (h.numbered p hp)

theorem only_setNode (h : s.Apart) (f : TaskNode → TaskNode) (hf : (s.node t).Same (f (s.node t))) :
    Only s (s.setNode t f) t where
  view u hu := by
    have hnode : (s.setNode t f).node u = s.node u := Function.update_of_ne hu _ _
    unfold Run.view
    rw [hnode]
    rfl
  tasks := rfl
  expanded := rfl
  node := by
    show (s.node t).Same (Function.update s.node t _ t)
    rwa [Function.update_self]
  apart := ⟨h.pending, h.flights, h.numbers, h.numbered⟩

theorem only_setStatus (h : s.Apart) (status : TaskStatus) : Only s (s.setStatus t status) t := only_setNode h _ rfl

theorem only_result (h : s.Apart) (v : Option Value) :
    Only s { s with results := Function.update s.results t v } t where
  view u hu := by
    have hresult : Function.update s.results t v u = s.results u := Function.update_of_ne hu _ _
    unfold Run.view
    simp only [hresult]
  tasks := rfl
  expanded := rfl
  node := same_refl _
  apart := ⟨h.pending, h.flights, h.numbers, h.numbered⟩

theorem only_record (h : s.Apart) (v : Value) : Only s (s.record t v) t :=
  have hstatus : Only s (s.setStatus t .done) t := only_setStatus h _
  hstatus.trans (only_result hstatus.apart (some v))

theorem only_removePending (h : s.Apart) : Only s (s.removePending t) t where
  view u hu := by
    have hpending : decide (u ∈ (s.removePending t).pending) = decide (u ∈ s.pending) := by
      apply decide_eq_decide.mpr
      show u ∈ s.pending.filter (· ≠ t) ↔ _
      rw [mem_filter_ne, and_iff_left hu]
    unfold Run.view
    rw [hpending]
    rfl
  tasks := rfl
  expanded := rfl
  node := same_refl _
  apart := ⟨h.pending.filter _, h.flights, h.numbers, h.numbered⟩

theorem mem_markPending : u ∈ (s.markPending t).pending ↔ u ∈ s.pending ∨ u = t := by
  unfold markPending
  split
  · next ht => exact ⟨.inl, fun hu => hu.elim id fun he => he ▸ ht⟩
  · show u ∈ s.pending ++ [t] ↔ _
    rw [List.mem_append, List.mem_singleton]

theorem only_markPending (h : s.Apart) : Only s (s.markPending t) t where
  view u hu := by
    have hpending : decide (u ∈ (s.markPending t).pending) = decide (u ∈ s.pending) := by
      apply decide_eq_decide.mpr
      rw [mem_markPending, or_iff_left hu]
    unfold Run.view
    rw [hpending]
    unfold markPending
    split
    · rfl
    · rfl
  tasks := by
    unfold markPending
    split
    · rfl
    · rfl
  expanded := by
    unfold markPending
    split
    · rfl
    · rfl
  node := by
    unfold markPending
    split
    · exact same_refl _
    · exact same_refl _
  apart := by
    unfold markPending
    split
    · exact h
    · next ht =>
        refine ⟨?_, h.flights, h.numbers, h.numbered⟩
        exact List.nodup_append.mpr ⟨h.pending, List.nodup_singleton t,
          fun a ha b hb hab => ht (List.mem_singleton.mp hb ▸ hab ▸ ha)⟩

theorem only_skip (h : s.Apart) : Only s (s.skip t) t := by
  have hremoved : Only s (s.removePending t) t := only_removePending h
  refine ⟨fun u hu => ?_, rfl, rfl, same_refl _, ⟨h.pending.filter _, h.flights, h.numbers, h.numbered⟩⟩
  have hskipped : decide (u ∈ (s.skip t).skipped) = decide (u ∈ s.skipped) := by
    apply decide_eq_decide.mpr
    show u ∈ t :: s.skipped ↔ _
    rw [List.mem_cons, or_iff_right hu]
  rw [← hremoved.view u hu]
  unfold Run.view
  rw [hskipped]
  rfl

theorem only_conclude (h : s.Apart) (status : TaskStatus) : Only s (s.conclude t status) t := by
  have hstatus : Only s (s.setStatus t status) t := only_setStatus h _
  exact (hstatus.trans (only_removePending hstatus.apart)).agrees ⟨rfl, rfl, rfl, rfl, rfl, rfl, rfl, rfl, rfl, rfl⟩

theorem Apart.eq_of_number (h : s.Apart) {f : Nat} (ht : (f, t) ∈ s.running) (hu : (f, u) ∈ s.running) : u = t :=
  congrArg Prod.snd (List.inj_on_of_nodup_map h.numbers hu ht rfl)

theorem Apart.mem_pop (h : s.Apart) {f : Nat} (ht : (f, t) ∈ s.running) :
    u ∈ (s.pop f).running.map Prod.snd ↔ u ∈ s.running.map Prod.snd ∧ u ≠ t := by
  constructor
  · intro hu
    obtain ⟨⟨g, v⟩, hp, rfl⟩ := List.mem_map.mp hu
    obtain ⟨hp, hne⟩ := List.mem_filter.mp hp
    refine ⟨List.mem_map_of_mem hp, ?_⟩
    rintro rfl
    have hg : g = f := congrArg Prod.fst (List.inj_on_of_nodup_map h.flights hp ht rfl)
    exact of_decide_eq_true hne hg
  · rintro ⟨hu, hne⟩
    obtain ⟨⟨g, v⟩, hp, rfl⟩ := List.mem_map.mp hu
    refine List.mem_map.mpr ⟨(g, v), List.mem_filter.mpr ⟨hp, decide_eq_true fun hg => hne ?_⟩, rfl⟩
    have hg : g = f := hg
    subst hg
    exact h.eq_of_number ht hp

theorem only_pop (h : s.Apart) {f : Nat} (ht : (f, t) ∈ s.running) : Only s (s.pop f) t where
  view u hu := by
    have hflying : decide (u ∈ (s.pop f).running.map Prod.snd) = decide (u ∈ s.running.map Prod.snd) := by
      apply decide_eq_decide.mpr
      rw [h.mem_pop ht, and_iff_left hu]
    unfold Run.view
    rw [hflying]
    rfl
  tasks := rfl
  expanded := rfl
  node := same_refl _
  apart := ⟨h.pending, h.flights.sublist (List.filter_sublist.map _), h.numbers.sublist (List.filter_sublist.map _),
    fun p hp => h.numbered p (List.mem_of_mem_filter hp)⟩

/-! ### The places of one task -/

theorem Sound.of_pending (h : s.Sound) (ht : t ∈ s.pending) : t ∈ s.tasks ∧ t ∉ s.running.map Prod.snd ∧ t ∉ s.skipped ∧
    s.results t = none ∧ (s.node t).status.Idle := by
  obtain ⟨hlisted, hflying, hskipped, hresult, hidle⟩ := (h.placed t).pending (decide_eq_true ht)
  exact ⟨of_decide_eq_true hlisted, of_decide_eq_false hflying, of_decide_eq_false hskipped, hresult, hidle⟩

theorem Sound.of_running (h : s.Sound) (ht : t ∈ s.running.map Prod.snd) : t ∈ s.tasks ∧ t ∉ s.skipped ∧
    s.results t = none ∧ (s.node t).status = .running ∧ ¬ (s.node t).Mapped := by
  obtain ⟨hlisted, hskipped, hresult, hstatus, hmapped⟩ := (h.placed t).flying (decide_eq_true ht)
  exact ⟨of_decide_eq_true hlisted, of_decide_eq_false hskipped, hresult, hstatus, hmapped⟩

theorem Sound.not_pending_of_running (h : s.Sound) (ht : t ∈ s.running.map Prod.snd) : t ∉ s.pending :=
  fun hp => (h.of_pending hp).2.1 ht

theorem Sound.counted_start (h : s.Sound) (ht : t ∈ s.pending) {v : View} (hstarts : v.starts = (s.view t).starts + 1)
    (hretries : v.retries = if (s.node t).status.Due then (s.view t).retries + 1 else (s.view t).retries)
    (hattempts : v.node.attempts = (s.node t).attempts + 1) (hmax : v.node.maxRetries = (s.node t).maxRetries)
    (hpending : v.pending = false) (hlisted : v.listed = (s.view t).listed) : v.Counted := by
  obtain ⟨honce, -, hfirst, hagain, hcount, hbounded, -⟩ := h.counted t
  have hfirst := hfirst (decide_eq_true ht)
  have hagain := hagain (decide_eq_true ht)
  have hnode : (s.view t).node = s.node t := rfl
  rw [hnode] at hfirst hagain hcount hbounded
  have hmem : (s.view t).listed = true := decide_eq_true (h.of_pending ht).1
  refine ⟨?_, fun _ => by omega, fun hp => ?_, fun hp => ?_, by omega, ?_, fun _ => by rw [hlisted, hmem]⟩
  · by_cases hzero : (s.view t).starts = 0
    · rw [if_neg (hfirst hzero)] at hretries
      omega
    · rw [if_pos (hagain (by omega)).1] at hretries
      omega
  · rw [hpending] at hp
    cases hp
  · rw [hpending] at hp
    cases hp
  · by_cases hzero : (s.view t).starts = 0
    · omega
    · have hle := (hagain (by omega)).2
      omega

theorem retries_start : (s.start t).retries.count t =
    if (s.node t).status.Due then s.retries.count t + 1 else s.retries.count t := by
  by_cases hdue : (s.node t).status.Due
  · have hretries : (s.start t).retries = t :: s.retries := if_pos hdue
    rw [if_pos hdue, hretries, List.count_cons_self]
  · have hretries : (s.start t).retries = s.retries := if_neg hdue
    rw [if_neg hdue, hretries]

theorem node_start : (s.start t).node t =
    { s.node t with status := .running, attempts := (s.node t).attempts + 1 } := Function.update_self _ _ _

theorem Sound.launch (h : s.Sound) (ht : t ∈ s.pending) (hmapped : ¬ (s.node t).Mapped) : ((s.start t).launch t).Sound := by
  obtain ⟨hlisted, hflying, hskipped, hresult, -⟩ := h.of_pending ht
  have honly : Only s ((s.start t).launch t) t := by
    have hstart : Only s (s.start t) t := only_start h.apart
    exact hstart.trans (only_launch hstart.apart hflying)
  have hnode : ((s.start t).launch t).node t = _ := node_start
  have hpending : t ∉ ((s.start t).launch t).pending := fun hmem => (mem_filter_ne.mp hmem).2 rfl
  have hrunning : t ∈ ((s.start t).launch t).running.map Prod.snd := List.mem_cons_self
  refine honly.sound h ⟨fun hp => ?_, fun _ => ?_, fun hr => absurd hresult hr, fun hs => ?_, fun he => ?_, fun _ => ?_⟩ ?_
    (fun hmem => absurd hmem hpending) fun he => ?_
  · exact absurd (of_decide_eq_true hp) hpending
  · refine ⟨decide_eq_true hlisted, decide_eq_false hskipped, hresult, ?_, ?_⟩
    · show (((s.start t).launch t).node t).status = _
      rw [hnode]
    · exact fun hm => hmapped ((mapped_same honly.node).mp hm)
  · exact absurd (of_decide_eq_true hs) hskipped
  · have he : (((s.start t).launch t).node t).status = .expanded := he
    rw [hnode] at he
    cases he
  · exact .inr (.inl (decide_eq_true hrunning))
  · refine h.counted_start ht List.count_cons_self retries_start ?_ ?_ (decide_eq_false hpending) rfl
    · show (((s.start t).launch t).node t).attempts = _
      rw [hnode]
    · show (((s.start t).launch t).node t).maxRetries = _
      rw [hnode]
  · rw [hnode] at he
    cases he

theorem Sound.hit (h : s.Sound) (ht : t ∈ s.pending) (v : Value) : ((s.start t).record t v).Sound := by
  obtain ⟨hlisted, hflying, hskipped, -, -⟩ := h.of_pending ht
  have honly : Only s ((s.start t).record t v) t := by
    have hstart : Only s (s.start t) t := only_start h.apart
    exact hstart.trans (only_record hstart.apart v)
  have hnode : ((s.start t).record t v).node t =
      { s.node t with status := .done, attempts := (s.node t).attempts + 1 } := by
    show Function.update (s.start t).node t _ t = _
    rw [Function.update_self, node_start]
  have hresult : ((s.start t).record t v).results t = some v := Function.update_self _ _ _
  have hpending : t ∉ ((s.start t).record t v).pending := fun hmem => (mem_filter_ne.mp hmem).2 rfl
  have hstatus : (((s.start t).record t v).view t).node.status = .done := by
    show (((s.start t).record t v).node t).status = _
    rw [hnode]
  refine honly.sound h ⟨fun hp => ?_, fun hf => ?_, fun _ => ?_, fun hs => ?_, fun he => ?_, fun _ => ?_⟩ ?_
    (fun hmem => absurd hmem hpending) fun he => ?_
  · exact absurd (of_decide_eq_true hp) hpending
  · exact absurd (of_decide_eq_true hf) hflying
  · exact ⟨decide_eq_true hlisted, decide_eq_false hskipped, .inl hstatus⟩
  · exact absurd (of_decide_eq_true hs) hskipped
  · rw [hstatus] at he
    cases he
  · refine .inr (.inr (.inl ?_))
    show ((s.start t).record t v).results t ≠ none
    rw [hresult]
    exact Option.some_ne_none v
  · refine h.counted_start ht List.count_cons_self retries_start ?_ ?_ (decide_eq_false hpending) rfl
    · show (((s.start t).record t v).node t).attempts = _
      rw [hnode]
    · show (((s.start t).record t v).node t).maxRetries = _
      rw [hnode]
  · rw [hnode] at he
    cases he

theorem counted_rest {v w : View} (h : v.Counted) (hstarts : w.starts = v.starts) (hretries : w.retries = v.retries)
    (hnode : w.node.attempts = v.node.attempts ∧ w.node.maxRetries = v.node.maxRetries) (hflying : w.flying = false)
    (hlisted : w.listed = v.listed)
    (hpending : w.pending = true → 0 < v.starts ∧ w.node.status.Due ∧ v.node.attempts ≤ v.node.maxRetries) : w.Counted := by
  obtain ⟨honce, -, -, -, hcount, hbounded, hmem⟩ := h
  refine ⟨?_, fun hf => ?_, fun hp hzero => ?_, fun hp _ => ?_, by omega, by omega, fun hpos => ?_⟩
  · rw [hstarts, hretries]
    exact honce
  · rw [hflying] at hf
    cases hf
  · have hpos := (hpending hp).1
    omega
  · rw [hnode.1, hnode.2]
    exact (hpending hp).2
  · rw [hlisted]
    exact hmem (hstarts ▸ hpos)

theorem not_mem_pop (h : s.Apart) {f : Nat} (ht : (f, t) ∈ s.running) : t ∉ (s.pop f).running.map Prod.snd :=
  fun hmem => ((h.mem_pop ht).mp hmem).2 rfl

theorem Sound.popRecord (h : s.Sound) {f : Nat} (ht : (f, t) ∈ s.running) (v : Value) : ((s.pop f).record t v).Sound := by
  have hmem : t ∈ s.running.map Prod.snd := List.mem_map_of_mem ht
  obtain ⟨hlisted, hskipped, -, -, -⟩ := h.of_running hmem
  have hpending := h.not_pending_of_running hmem
  have hflying := not_mem_pop h.apart ht
  have honly : Only s ((s.pop f).record t v) t := by
    have hpop : Only s (s.pop f) t := only_pop h.apart ht
    exact hpop.trans (only_record hpop.apart v)
  have hnode : ((s.pop f).record t v).node t = { s.node t with status := .done } := Function.update_self _ _ _
  have hresult : ((s.pop f).record t v).results t = some v := Function.update_self _ _ _
  have hstatus : (((s.pop f).record t v).view t).node.status = .done := by
    show (((s.pop f).record t v).node t).status = _
    rw [hnode]
  refine honly.sound h ⟨fun hp => ?_, fun hf => ?_, fun _ => ?_, fun hs => ?_, fun he => ?_, fun _ => ?_⟩ ?_
    (fun hp => absurd hp hpending) fun he => ?_
  · exact absurd (of_decide_eq_true hp) hpending
  · exact absurd (of_decide_eq_true hf) hflying
  · exact ⟨decide_eq_true hlisted, decide_eq_false hskipped, .inl hstatus⟩
  · exact absurd (of_decide_eq_true hs) hskipped
  · rw [hstatus] at he
    cases he
  · refine .inr (.inr (.inl ?_))
    show ((s.pop f).record t v).results t ≠ none
    rw [hresult]
    exact Option.some_ne_none v
  · refine counted_rest (h.counted t) rfl rfl ?_ (decide_eq_false hflying) rfl fun hp => ?_
    · show (((s.pop f).record t v).node t).attempts = _ ∧ (((s.pop f).record t v).node t).maxRetries = _
      rw [hnode]
      exact ⟨rfl, rfl⟩
    · exact absurd (of_decide_eq_true hp) hpending
  · rw [hnode] at he
    cases he

theorem Sound.popFail (h : s.Sound) {f : Nat} (ht : (f, t) ∈ s.running) : ((s.pop f).setStatus t .failed).Sound := by
  have hmem : t ∈ s.running.map Prod.snd := List.mem_map_of_mem ht
  obtain ⟨hlisted, hskipped, hresult, -, -⟩ := h.of_running hmem
  have hpending := h.not_pending_of_running hmem
  have hflying := not_mem_pop h.apart ht
  have honly : Only s ((s.pop f).setStatus t .failed) t := by
    have hpop : Only s (s.pop f) t := only_pop h.apart ht
    exact hpop.trans (only_setStatus hpop.apart .failed)
  have hnode : ((s.pop f).setStatus t .failed).node t = { s.node t with status := .failed } := Function.update_self _ _ _
  have hstatus : (((s.pop f).setStatus t .failed).view t).node.status = .failed := by
    show (((s.pop f).setStatus t .failed).node t).status = _
    rw [hnode]
  refine honly.sound h ⟨fun hp => ?_, fun hf => ?_, fun hr => absurd hresult hr, fun hs => ?_, fun he => ?_, fun _ => ?_⟩ ?_
    (fun hp => absurd hp hpending) fun he => ?_
  · exact absurd (of_decide_eq_true hp) hpending
  · exact absurd (of_decide_eq_true hf) hflying
  · exact absurd (of_decide_eq_true hs) hskipped
  · rw [hstatus] at he
    cases he
  · exact .inr (.inr (.inr (.inl hstatus)))
  · refine counted_rest (h.counted t) rfl rfl ?_ (decide_eq_false hflying) rfl fun hp => ?_
    · show (((s.pop f).setStatus t .failed).node t).attempts = _ ∧ (((s.pop f).setStatus t .failed).node t).maxRetries = _
      rw [hnode]
      exact ⟨rfl, rfl⟩
    · exact absurd (of_decide_eq_true hp) hpending
  · rw [hnode] at he
    cases he

theorem markPending_node : (s.markPending t).node = s.node := by
  unfold markPending
  split
  · rfl
  · rfl

theorem Sound.popRetry (h : s.Sound) {f : Nat} (ht : (f, t) ∈ s.running) {status : TaskStatus} (hdue : status.Due)
    (hattempts : (s.node t).attempts ≤ (s.node t).maxRetries) : (((s.pop f).setStatus t status).markPending t).Sound := by
  have hmem : t ∈ s.running.map Prod.snd := List.mem_map_of_mem ht
  obtain ⟨hlisted, hskipped, hresult, -, hmapped⟩ := h.of_running hmem
  have hpop : Only s (s.pop f) t := only_pop h.apart ht
  have hstatus : Only s ((s.pop f).setStatus t status) t := hpop.trans (only_setStatus hpop.apart status)
  have honly : Only s (((s.pop f).setStatus t status).markPending t) t := hstatus.trans (only_markPending hstatus.apart)
  have heq : ((s.pop f).setStatus t status).markPending t =
      { (s.pop f).setStatus t status with pending := s.pending ++ [t] } := if_neg (h.not_pending_of_running hmem)
  have hpending : t ∈ (((s.pop f).setStatus t status).markPending t).pending := mem_markPending.mpr (.inr rfl)
  have hnode : (((s.pop f).setStatus t status).markPending t).node t = { s.node t with status := status } := by
    rw [markPending_node]
    exact Function.update_self _ _ _
  have hidle : status.Idle := by
    rcases hdue with rfl | rfl
    · exact trivial
    · exact trivial
  have hflying : t ∉ (((s.pop f).setStatus t status).markPending t).running.map Prod.snd := by
    rw [heq]
    exact not_mem_pop h.apart ht
  have hview : (((s.pop f).setStatus t status).markPending t).view t =
      { s.view t with node := { s.node t with status := status }, pending := true, flying := false } := by
    unfold Run.view
    rw [hnode, decide_eq_true hpending, decide_eq_false hflying, heq]
    rfl
  have hstarts : 0 < (s.view t).starts := (h.counted t).flying (decide_eq_true hmem)
  refine honly.sound h ?_ ?_ (fun _ => hmapped) fun he => ?_
  · rw [hview]
    refine ⟨fun _ => ⟨decide_eq_true hlisted, rfl, decide_eq_false hskipped, hresult, hidle⟩, fun hf => (by cases hf),
      fun hr => absurd hresult hr, fun hs => absurd (of_decide_eq_true hs) hskipped, fun he => ?_, fun _ => .inl rfl⟩
    have he : status = .expanded := he
    rw [he] at hidle
    exact hidle.elim
  · rw [hview]
    exact counted_rest (h.counted t) rfl rfl ⟨rfl, rfl⟩ rfl rfl fun _ => ⟨hstarts, hdue, hattempts⟩
  · rw [hnode] at he
    have he : status = .expanded := he
    rw [he] at hidle
    exact hidle.elim

theorem not_mem_removePending : t ∉ (s.removePending t).pending := fun hmem => (mem_filter_ne.mp hmem).2 rfl

theorem Sound.skip (h : s.Sound) (ht : t ∈ s.pending) : (s.skip t).Sound := by
  obtain ⟨hlisted, hflying, -, hresult, hidle⟩ := h.of_pending ht
  have hpending : t ∉ (s.skip t).pending := not_mem_removePending
  have hskipped : t ∈ (s.skip t).skipped := List.mem_cons_self
  refine (only_skip h.apart).sound h ⟨fun hp => ?_, fun hf => ?_, fun hr => absurd hresult hr,
    fun _ => ⟨decide_eq_true hlisted, hidle⟩, (h.placed t).expanded, fun _ => ?_⟩ ?_ (fun hp => absurd hp hpending) id
  · exact absurd (of_decide_eq_true hp) hpending
  · exact absurd (of_decide_eq_true hf) hflying
  · exact .inr (.inr (.inr (.inr (.inl (decide_eq_true hskipped)))))
  · refine counted_rest (h.counted t) rfl rfl ⟨rfl, rfl⟩ (decide_eq_false hflying) rfl fun hp => ?_
    exact absurd (of_decide_eq_true hp) hpending

theorem node_conclude (status : TaskStatus) : (s.conclude t status).node t = { s.node t with status := status } :=
  Function.update_self _ _ _

theorem Sound.concludeFailed (h : s.Sound) (ht : t ∈ s.pending) : (s.conclude t .failed).Sound := by
  obtain ⟨hlisted, hflying, hskipped, hresult, -⟩ := h.of_pending ht
  have hpending : t ∉ (s.conclude t .failed).pending := not_mem_removePending
  have hstatus : ((s.conclude t .failed).view t).node.status = .failed := by
    show ((s.conclude t .failed).node t).status = _
    rw [node_conclude]
  refine (only_conclude h.apart .failed).sound h ⟨fun hp => ?_, fun hf => ?_, fun hr => absurd hresult hr, fun hs => ?_,
    fun he => ?_, fun _ => .inr (.inr (.inr (.inl hstatus)))⟩ ?_ (fun hp => absurd hp hpending) fun he => ?_
  · exact absurd (of_decide_eq_true hp) hpending
  · exact absurd (of_decide_eq_true hf) hflying
  · exact absurd (of_decide_eq_true hs) hskipped
  · rw [hstatus] at he
    cases he
  · refine counted_rest (h.counted t) rfl rfl ?_ (decide_eq_false hflying) rfl fun hp => ?_
    · show ((s.conclude t .failed).node t).attempts = _ ∧ ((s.conclude t .failed).node t).maxRetries = _
      rw [node_conclude]
      exact ⟨rfl, rfl⟩
    · exact absurd (of_decide_eq_true hp) hpending
  · rw [node_conclude] at he
    cases he

theorem only_concludeSkipped (h : s.Apart) : Only s { s.conclude t .skipped with skipped := t :: s.skipped } t := by
  have hstatus : Only s (s.setStatus t .skipped) t := only_setStatus h .skipped
  exact (hstatus.trans (only_skip hstatus.apart)).agrees ⟨rfl, rfl, rfl, rfl, rfl, rfl, rfl, rfl, rfl, rfl⟩

theorem Sound.concludeSkipped (h : s.Sound) (ht : t ∈ s.pending) :
    ({ s.conclude t .skipped with skipped := t :: s.skipped } : Run).Sound := by
  obtain ⟨hlisted, hflying, -, hresult, -⟩ := h.of_pending ht
  have hpending : t ∉ (s.conclude t .skipped).pending := not_mem_removePending
  have hnode : (s.conclude t .skipped).node t = { s.node t with status := .skipped } := node_conclude .skipped
  have hview : (({ s.conclude t .skipped with skipped := t :: s.skipped } : Run).view t) =
      { s.view t with node := { s.node t with status := .skipped }, pending := false, skipped := true } := by
    have hskipped : decide (t ∈ t :: s.skipped) = true := decide_eq_true List.mem_cons_self
    unfold Run.view
    simp only [hnode, decide_eq_false hpending, hskipped]
    rfl
  refine (only_concludeSkipped h.apart).sound h ?_ ?_ (fun hp => absurd hp hpending) fun he => ?_
  · rw [hview]
    refine ⟨fun hp => (by cases hp), fun hf => absurd (of_decide_eq_true hf) hflying, fun hr => absurd hresult hr,
      fun _ => ⟨decide_eq_true hlisted, trivial⟩, fun he => (by cases he), fun _ => .inr (.inr (.inr (.inr (.inl rfl))))⟩
  · rw [hview]
    exact counted_rest (h.counted t) rfl rfl ⟨rfl, rfl⟩ (decide_eq_false hflying) rfl fun hp => (by cases hp)
  · have he : ((s.conclude t .skipped).node t).status = .expanded := he
    rw [hnode] at he
    cases he

theorem Sound.of_expanded (h : s.Sound) (ht : (s.node t).status = .expanded) : t ∉ s.pending ∧
    t ∉ s.running.map Prod.snd ∧ t ∉ s.skipped ∧ s.results t = none ∧ t ∈ s.tasks := by
  obtain ⟨p, hp, rfl⟩ := h.recorded t ht
  obtain ⟨-, -, hlisted, hpending, -⟩ := h.parents p hp
  refine ⟨hpending, fun hmem => ?_, fun hmem => ?_, ?_, hlisted⟩
  · have hrunning := (h.of_running hmem).2.2.2.1
    rw [ht] at hrunning
    cases hrunning
  · have hidle := ((h.placed p.1).skipped (decide_eq_true hmem)).2
    have hidle : (s.node p.1).status.Idle := hidle
    rw [ht] at hidle
    exact hidle
  · by_contra hne
    have hdone : (s.node p.1).status = .done ∨ (s.node p.1).status = .completed := ((h.placed p.1).result hne).2.2
    rw [ht] at hdone
    rcases hdone with hd | hd
    · cases hd
    · cases hd

theorem Sound.settleFailed (h : s.Sound) (ht : (s.node t).status = .expanded) : (s.setStatus t .failed).Sound := by
  obtain ⟨hpending, hflying, hskipped, hresult, -⟩ := h.of_expanded ht
  have hnode : (s.setStatus t .failed).node t = { s.node t with status := .failed } := Function.update_self _ _ _
  have hstatus : ((s.setStatus t .failed).view t).node.status = .failed := by
    show ((s.setStatus t .failed).node t).status = _
    rw [hnode]
  refine (only_setStatus h.apart .failed).sound h ⟨fun hp => ?_, fun hf => ?_, fun hr => absurd hresult hr, fun hs => ?_,
    fun he => ?_, fun _ => .inr (.inr (.inr (.inl hstatus)))⟩ ?_ (fun hp => absurd hp hpending) fun he => ?_
  · exact absurd (of_decide_eq_true hp) hpending
  · exact absurd (of_decide_eq_true hf) hflying
  · exact absurd (of_decide_eq_true hs) hskipped
  · rw [hstatus] at he
    cases he
  · refine counted_rest (h.counted t) rfl rfl ?_ (decide_eq_false hflying) rfl fun hp => ?_
    · show ((s.setStatus t .failed).node t).attempts = _ ∧ ((s.setStatus t .failed).node t).maxRetries = _
      rw [hnode]
      exact ⟨rfl, rfl⟩
    · exact absurd (of_decide_eq_true hp) hpending
  · exact ht

theorem Sound.settleDone (h : s.Sound) (ht : (s.node t).status = .expanded) (v : Value) : (s.record t v).Sound := by
  obtain ⟨hpending, hflying, hskipped, -, hlisted⟩ := h.of_expanded ht
  have hnode : (s.record t v).node t = { s.node t with status := .done } := Function.update_self _ _ _
  have hresult : (s.record t v).results t = some v := Function.update_self _ _ _
  have hstatus : ((s.record t v).view t).node.status = .done := by
    show ((s.record t v).node t).status = _
    rw [hnode]
  refine (only_record h.apart v).sound h ⟨fun hp => ?_, fun hf => ?_, fun _ => ?_, fun hs => ?_, fun he => ?_,
    fun _ => ?_⟩ ?_ (fun hp => absurd hp hpending) fun _ => ht
  · exact absurd (of_decide_eq_true hp) hpending
  · exact absurd (of_decide_eq_true hf) hflying
  · exact ⟨decide_eq_true hlisted, decide_eq_false hskipped, .inl hstatus⟩
  · exact absurd (of_decide_eq_true hs) hskipped
  · rw [hstatus] at he
    cases he
  · refine .inr (.inr (.inl ?_))
    show (s.record t v).results t ≠ none
    rw [hresult]
    exact Option.some_ne_none v
  · refine counted_rest (h.counted t) rfl rfl ?_ (decide_eq_false hflying) rfl fun hp => ?_
    · show ((s.record t v).node t).attempts = _ ∧ ((s.record t v).node t).maxRetries = _
      rw [hnode]
      exact ⟨rfl, rfl⟩
    · exact absurd (of_decide_eq_true hp) hpending

theorem Sound.settleMappedParent (h : s.Sound) (parent : TaskId) (instances : List TaskId) :
    (s.settleMappedParent parent instances).1.Sound := by
  unfold Run.settleMappedParent
  split
  · exact h
  · next hstatus =>
      have hexpanded := not_not.mp hstatus
      split
      · exact h
      · exact h.settleFailed hexpanded
      · next values _ => exact h.settleDone hexpanded (.list values)

theorem Sound.settleMapped (h : s.Sound) : s.settleMapped.1.Sound := by
  have hfold : ∀ (l : List (TaskId × List TaskId)) (acc : Run × Bool), acc.1.Sound →
      (l.foldl (fun (acc : Run × Bool) p => ((acc.1.settleMappedParent p.1 p.2).1,
        acc.2 || (acc.1.settleMappedParent p.1 p.2).2)) acc).1.Sound := by
    intro l
    induction l with
    | nil => exact fun _ hacc => hacc
    | cons p l ih => exact fun acc hacc => ih _ (hacc.settleMappedParent p.1 p.2)
  exact hfold s.expanded (s, false) h

/-! ### Several tasks -/

theorem cancelInflight_eq (hworkers : s.workers = false) : s.cancelInflight =
    { s with
      cancelled := true
      node := fun t => if t ∈ s.running.map Prod.snd then { s.node t with status := .failed } else s.node t
      running := [] } := by
  unfold Run.cancelInflight
  rw [hworkers]
  exact if_neg (by decide)

theorem cancelInflight_node (hworkers : s.workers = false) (u : TaskId) : (s.node u).Same (s.cancelInflight.node u) := by
  rw [cancelInflight_eq hworkers]
  show (s.node u).Same (if u ∈ s.running.map Prod.snd then { s.node u with status := .failed } else s.node u)
  split
  · exact rfl
  · exact same_refl _

theorem view_cancelInflight (hworkers : s.workers = false) (u : TaskId) : s.cancelInflight.view u =
    if u ∈ s.running.map Prod.snd then { s.view u with node := { s.node u with status := .failed }, flying := false }
    else s.view u := by
  rw [cancelInflight_eq hworkers]
  by_cases hu : u ∈ s.running.map Prod.snd
  · rw [if_pos hu]
    unfold Run.view
    simp only [if_pos hu, List.map_nil, List.not_mem_nil, decide_false]
  · rw [if_neg hu]
    unfold Run.view
    simp only [hu, if_false, List.map_nil, List.not_mem_nil, decide_false]

theorem Sound.cancelInflight (h : s.Sound) : s.cancelInflight.Sound := by
  cases hworkers : s.workers with
  | true =>
      have heq : s.cancelInflight = { s with cancelled := true } := if_pos hworkers
      rw [heq]
      exact Agrees.sound (s := s) ⟨rfl, rfl, rfl, rfl, rfl, rfl, rfl, rfl, rfl, rfl⟩ h
  | false =>
      have hsame := cancelInflight_node (s := s) hworkers
      have heq := cancelInflight_eq (s := s) hworkers
      have htasks : s.cancelInflight.tasks = s.tasks := by rw [heq]
      have hpending : s.cancelInflight.pending = s.pending := by rw [heq]
      have hexpanded : s.cancelInflight.expanded = s.expanded := by rw [heq]
      have hrunning : s.cancelInflight.running = [] := by rw [heq]
      refine ⟨fun u => ?_, fun u => ?_, ⟨hpending ▸ h.apart.pending, ?_, ?_, ?_⟩, fun p hp => ?_, fun i hi => ?_,
        fun u hu => ?_, fun u hu => ?_⟩
      · rw [view_cancelInflight hworkers]
        split
        · next hu =>
            obtain ⟨hlisted, hskipped, hresult, -, -⟩ := h.of_running hu
            refine ⟨fun hp => ?_, fun hf => (by cases hf), fun hr => absurd hresult hr, fun hs => ?_,
              fun he => (by cases he), fun _ => .inr (.inr (.inr (.inl rfl)))⟩
            · exact absurd (of_decide_eq_true hp) (h.not_pending_of_running hu)
            · exact absurd (of_decide_eq_true hs) hskipped
        · exact h.placed u
      · rw [view_cancelInflight hworkers]
        split
        · next hu =>
            refine counted_rest (h.counted u) rfl rfl ⟨rfl, rfl⟩ rfl rfl fun hp => ?_
            exact absurd (of_decide_eq_true hp) (h.not_pending_of_running hu)
        · exact h.counted u
      · rw [hrunning]
        exact List.nodup_nil
      · rw [hrunning]
        exact List.nodup_nil
      · rw [hrunning]
        exact fun p hp => by cases hp
      · rw [hexpanded] at hp
        obtain ⟨hindex, hmapped, hlisted, hnot, hinstances⟩ := h.parents p hp
        refine ⟨hindex, (mapped_same (hsame p.1)).mpr hmapped, htasks ▸ hlisted, hpending ▸ hnot, fun i hi => ?_⟩
        have hi := hinstances i hi
        exact hi.same (htasks ▸ hi.listed) (hsame i) (hsame p.1)
      · rw [htasks] at hi
        rw [hexpanded]
        exact h.instances i hi
      · rw [htasks] at hu
        rw [hsame u]
        exact h.indexed u hu
      · rw [hexpanded]
        apply h.recorded
        have hview := congrArg (fun v => v.node.status) (view_cancelInflight (s := s) hworkers u)
        have hview : (s.cancelInflight.node u).status = _ := hview
        rw [hview] at hu
        split at hu
        · cases hu
        · exact hu

theorem mem_instanceIds {items : List Value} : u ∈ instanceIds t items ↔
    u.task = t.task ∧ ∃ i < items.length, u.index = some i := by
  unfold instanceIds
  simp only [List.mem_map, List.mem_range]
  constructor
  · rintro ⟨i, hi, rfl⟩
    exact ⟨rfl, i, hi, rfl⟩
  · rintro ⟨htask, i, hi, hindex⟩
    refine ⟨i, hi, ?_⟩
    cases u
    simp_all

theorem nodup_instanceIds (t : TaskId) (items : List Value) : (instanceIds t items).Nodup := by
  apply List.Nodup.map ?_ List.nodup_range
  intro i j hij
  simpa using hij

theorem Sound.fresh_instance (h : s.Sound) (ht : t ∈ s.pending) (hmapped : (s.node t).Mapped) {items : List Value}
    (hu : u ∈ instanceIds t items) : t.index = none ∧ u ≠ t ∧ u ∉ s.tasks := by
  obtain ⟨hlisted, -⟩ := h.of_pending ht
  have hindex : t.index = none := by
    by_contra hne
    exact (h.indexed t hlisted).mpr hne hmapped.2
  obtain ⟨htask, i, -, hui⟩ := mem_instanceIds.mp hu
  refine ⟨hindex, ?_, fun hmem => ?_⟩
  · rintro rfl
    rw [hindex] at hui
    cases hui
  · obtain ⟨p, hp, hup⟩ := h.instances u hmem (by simp [hui])
    obtain ⟨hpindex, -, -, hnot, hinstances⟩ := h.parents p hp
    have hpt : p.1 = t := by
      have htask' := (hinstances u hup).task
      cases hp1 : p.1
      cases t
      simp_all
    exact hnot (hpt ▸ ht)

theorem mem_expand_pending {dep : Nat} {items : List Value} :
    u ∈ (s.expand t dep items).pending ↔ u ∈ s.pending ∧ u ≠ t ∨ u ∈ instanceIds t items := by
  show u ∈ s.pending.filter (· ≠ t) ++ instanceIds t items ↔ _
  rw [List.mem_append, mem_filter_ne]

theorem view_expand (s : Run) (t : TaskId) (dep : Nat) (items : List Value) (u : TaskId) :
    (s.expand t dep items).view u =
      if u ∈ instanceIds t items then
        { s.view u with
          node := instanceNode (s.node t) dep (u.index.getD 0) (items.getD (u.index.getD 0) .nil), listed := true
          pending := true }
      else if u = t then { s.view t with node := { s.node t with status := .expanded }, pending := false }
      else s.view u := by
  have hpending : (s.expand t dep items).pending = s.pending.filter (· ≠ t) ++ instanceIds t items := rfl
  have htasks : (s.expand t dep items).tasks = s.tasks ++ instanceIds t items := rfl
  have hnode : (s.expand t dep items).node u = if u ∈ instanceIds t items then
      instanceNode (s.node t) dep (u.index.getD 0) (items.getD (u.index.getD 0) .nil)
      else (s.setStatus t .expanded).node u := rfl
  by_cases hu : u ∈ instanceIds t items
  · rw [if_pos hu]
    rw [if_pos hu] at hnode
    unfold Run.view
    rw [hnode, decide_eq_true (mem_expand_pending.mpr (.inr hu)),
      decide_eq_true (show u ∈ (s.expand t dep items).tasks from List.mem_append_right _ hu)]
    rfl
  · rw [if_neg hu]
    rw [if_neg hu] at hnode
    have hlisted : decide (u ∈ (s.expand t dep items).tasks) = decide (u ∈ s.tasks) := by
      apply decide_eq_decide.mpr
      rw [htasks, List.mem_append, or_iff_left hu]
    by_cases hut : u = t
    · subst hut
      rw [if_pos rfl]
      have hnode : (s.expand u dep items).node u = { s.node u with status := .expanded } :=
        hnode.trans (Function.update_self _ _ _)
      have hnot : u ∉ (s.expand u dep items).pending := fun hmem =>
        (mem_expand_pending.mp hmem).elim (fun hp => hp.2 rfl) fun hi => hu hi
      unfold Run.view
      rw [hnode, decide_eq_false hnot, hlisted]
      rfl
    · rw [if_neg hut]
      have hnode : (s.expand t dep items).node u = s.node u := hnode.trans (Function.update_of_ne hut _ _)
      have hpending : decide (u ∈ (s.expand t dep items).pending) = decide (u ∈ s.pending) := by
        apply decide_eq_decide.mpr
        rw [mem_expand_pending, and_iff_left hut, or_iff_left hu]
      unfold Run.view
      rw [hnode, hpending, hlisted]
      rfl

theorem Sound.unlisted (h : s.Sound) (hu : u ∉ s.tasks) : (s.view u).flying = false ∧ (s.view u).skipped = false ∧
    (s.view u).result = none ∧ (s.view u).starts = 0 ∧ (s.view u).retries = 0 := by
  have hlisted : (s.view u).listed ≠ true := by
    show decide (u ∈ s.tasks) ≠ true
    rw [decide_eq_false hu]
    decide
  have hplaced := h.placed u
  have hstarts : (s.view u).starts = 0 := by
    by_contra hne
    exact hlisted ((h.counted u).listed (Nat.pos_of_ne_zero hne))
  refine ⟨?_, ?_, ?_, hstarts, ?_⟩
  · by_contra hne
    exact hlisted (hplaced.flying (by simpa using hne)).1
  · by_contra hne
    exact hlisted (hplaced.skipped (by simpa using hne)).1
  · by_contra hne
    exact hlisted (hplaced.result hne).1
  · have honce := (h.counted u).once
    omega

theorem Sound.expand (h : s.Sound) (ht : t ∈ s.pending) (hmapped : (s.node t).Mapped) (dep : Nat) (items : List Value) :
    (s.expand t dep items).Sound := by
  obtain ⟨hlisted, hflying, hskipped, hresult, -⟩ := h.of_pending ht
  have hview := s.view_expand t dep items
  have hnew : ∀ u ∈ instanceIds t items, u ≠ t ∧ u ∉ s.tasks := fun u hu => (h.fresh_instance ht hmapped hu).2
  have hindex : t.index = none := by
    by_contra hne
    exact (h.indexed t hlisted).mpr hne hmapped.2
  have hself : t ∉ instanceIds t items := fun hu => (hnew t hu).1 rfl
  have hnode : ∀ u, (s.expand t dep items).node u = _ := fun u => congrArg View.node (hview u)
  -- the nodes of the tasks there were
  have hsame : ∀ u ∈ s.tasks, (s.node u).Same ((s.expand t dep items).node u) := by
    intro u hu
    rw [hnode u, if_neg fun hi => (hnew u hi).2 hu]
    split
    · next he =>
        rw [he]
        exact rfl
    · exact same_refl _
  have hparent : (s.expand t dep items).node t = { s.node t with status := .expanded } := by
    rw [hnode t, if_neg hself, if_pos rfl]
  have hinstance : ∀ i ∈ instanceIds t items, (s.expand t dep items).node i =
      instanceNode (s.node t) dep (i.index.getD 0) (items.getD (i.index.getD 0) .nil) := by
    intro i hi
    rw [hnode i, if_pos hi]
  refine ⟨fun u => ?_, fun u => ?_, ⟨?_, h.apart.flights, h.apart.numbers, h.apart.numbered⟩, fun p hp => ?_,
    fun i hi hne => ?_, fun u hu => ?_, fun u hu => ?_⟩
  · rw [hview u]
    split
    · next hu =>
        obtain ⟨hf, hs, hr, -, -⟩ := h.unlisted (hnew u hu).2
        refine ⟨fun _ => ⟨rfl, hf, hs, hr, trivial⟩, fun hf' => ?_, fun hr' => absurd hr hr', fun hs' => ?_,
          fun he => (by cases he), fun _ => .inl rfl⟩
        · have hf' : (s.view u).flying = true := hf'
          rw [hf] at hf'
          cases hf'
        · have hs' : (s.view u).skipped = true := hs'
          rw [hs] at hs'
          cases hs'
    · split
      · refine ⟨fun hp => (by cases hp), fun hf => absurd (of_decide_eq_true hf) hflying, fun hr => absurd hresult hr,
          fun hs => absurd (of_decide_eq_true hs) hskipped, fun _ => hmapped, fun _ => ?_⟩
        exact .inr (.inr (.inr (.inr (.inr rfl))))
      · exact h.placed u
  · rw [hview u]
    split
    · next hu =>
        obtain ⟨hf, -, -, hstarts, hretries⟩ := h.unlisted (hnew u hu).2
        refine ⟨.inl ⟨hstarts, hretries⟩, fun hf' => ?_, fun _ _ hdue => ?_, fun _ hpos => ?_, ?_, ?_, fun _ => rfl⟩
        · have hf' : (s.view u).flying = true := hf'
          rw [hf] at hf'
          cases hf'
        · rcases hdue with hd | hd
          · cases hd
          · cases hd
        · have hpos : 0 < (s.view u).starts := hpos
          omega
        · show (s.view u).starts ≤ _
          omega
        · show (s.view u).starts ≤ _
          omega
    · split
      · exact counted_rest (h.counted t) rfl rfl ⟨rfl, rfl⟩ (decide_eq_false hflying) rfl fun hp => (by cases hp)
      · exact h.counted u
  · refine List.nodup_append.mpr ⟨h.apart.pending.filter _, nodup_instanceIds t items, fun a ha b hb hab => ?_⟩
    exact (hnew b hb).2 (hab ▸ (h.of_pending (List.mem_of_mem_filter ha)).1)
  · rcases List.mem_append.mp hp with hp | hp
    · obtain ⟨hpindex, hpmapped, hplisted, hnot, hinstances⟩ := h.parents p hp
      refine ⟨hpindex, (mapped_same (hsame p.1 hplisted)).mpr hpmapped, List.mem_append_left _ hplisted,
        fun hmem => ?_, fun i hi => ?_⟩
      · rcases mem_expand_pending.mp hmem with hmem | hmem
        · exact hnot hmem.1
        · exact (hnew p.1 hmem).2 hplisted
      · have hi := hinstances i hi
        exact hi.same (List.mem_append_left _ hi.listed) (hsame i hi.listed) (hsame p.1 hplisted)
    · rw [List.mem_singleton.mp hp]
      refine ⟨hindex, ?_, List.mem_append_left _ hlisted, fun hmem => ?_, fun i hi => ?_⟩
      · rw [hparent]
        exact hmapped
      · exact (mem_expand_pending.mp hmem).elim (fun hp => hp.2 rfl) hself
      · obtain ⟨htask, j, -, hj⟩ := mem_instanceIds.mp hi
        refine ⟨htask, by simp [hj], List.mem_append_right _ hi, ?_, ?_, ?_, ?_⟩
        · rw [hinstance i hi, hparent]
          rfl
        · rw [hinstance i hi, hparent]
          rfl
        · rw [hinstance i hi, hparent]
          rfl
        · rw [hinstance i hi]
          exact Option.some_ne_none _
  · rcases List.mem_append.mp hi with hi | hi
    · obtain ⟨p, hp, hip⟩ := h.instances i hi hne
      exact ⟨p, List.mem_append_left _ hp, hip⟩
    · exact ⟨(t, instanceIds t items), List.mem_append_right _ (List.mem_singleton_self _), hi⟩
  · rcases List.mem_append.mp hu with hu | hu
    · rw [hsame u hu]
      exact h.indexed u hu
    · obtain ⟨-, j, -, hj⟩ := mem_instanceIds.mp hu
      rw [hinstance u hu, hj]
      exact ⟨fun _ => Option.some_ne_none _, fun _ => Option.some_ne_none _⟩
  · rw [hnode u] at hu
    split at hu
    · cases hu
    · split at hu
      · next he => exact ⟨(t, instanceIds t items), List.mem_append_right _ (List.mem_singleton_self _), he.symm⟩
      · obtain ⟨p, hp, hpu⟩ := h.recorded u hu
        exact ⟨p, List.mem_append_left _ hp, hpu⟩

theorem Sound.expandMapped (h : s.Sound) (ht : t ∈ s.pending) (hmapped : (s.node t).Mapped) : (s.expandMapped t).Sound := by
  unfold Run.expandMapped
  simp only []
  split
  · split
    · exact h.concludeFailed ht
    · split
      · exact h.concludeSkipped ht
      · exact h.expand ht hmapped _ _
  · exact h.concludeFailed ht

/-! ### Steps and runs -/

theorem agrees_refl (s : Run) : Agrees s s := ⟨rfl, rfl, rfl, rfl, rfl, rfl, rfl, rfl, rfl, rfl⟩

theorem agrees_call (s : Run) (thread : Nat) : Agrees s (s.call thread) :=
  ⟨rfl, rfl, rfl, rfl, rfl, rfl, rfl, rfl, rfl, rfl⟩

theorem agrees_setFrames (s : Run) (thread : Nat) (frames : List Frame) : Agrees s (s.setFrames thread frames) :=
  ⟨rfl, rfl, rfl, rfl, rfl, rfl, rfl, rfl, rfl, rfl⟩

theorem agrees_storeCached (s : Run) (t : TaskId) (v : Value) : Agrees s (s.storeCached t v) := by
  unfold storeCached
  split
  · exact ⟨rfl, rfl, rfl, rfl, rfl, rfl, rfl, rfl, rfl, rfl⟩
  · exact agrees_refl s

theorem mem_of_taskOf {f : Nat} (hf : s.taskOf f = some t) : (f, t) ∈ s.running := by
  unfold taskOf at hf
  obtain ⟨p, hp, rfl⟩ := Option.map_eq_some_iff.mp hf
  have hpf : decide (p.1 = f) = true := List.find?_some (p := fun q : Nat × TaskId => decide (q.1 = f)) hp
  rw [← of_decide_eq_true hpf]
  exact List.mem_of_find?_eq_some hp

theorem Sound.spawnTask (h : s.Sound) (ht : t ∈ s.pending) (hmapped : ¬ (s.node t).Mapped) (thread : Nat) :
    (s.spawnTask thread t).Sound := by
  unfold Run.spawnTask
  split
  · exact h
  · split
    · exact h
    · split
      · next v _ => exact (agrees_call _ thread).sound (h.hit ht v)
      · exact h.launch ht hmapped

theorem Sound.failTask (h : s.Sound) {f : Nat} (ht : (f, t) ∈ s.running) (thread : Nat) (swept : Bool) :
    ((s.pop f).failTask thread t swept).Sound := by
  have hmapped := (h.of_running (List.mem_map_of_mem ht)).2.2.2.2
  unfold Run.failTask
  split
  · next hattempts =>
      have hretry := fun (status : TaskStatus) (hdue : status.Due) => h.popRetry ht hdue hattempts
      split
      · exact Agrees.sound (s := ((s.pop f).setStatus t .retryScheduled).markPending t)
          ⟨rfl, rfl, rfl, rfl, rfl, rfl, rfl, rfl, rfl, rfl⟩ (hretry .retryScheduled (.inr rfl))
      · refine (hretry .retrying (.inl rfl)).spawnTask (mem_markPending.mpr (.inr rfl)) ?_ thread
        rw [markPending_node]
        show ¬ (Function.update (s.pop f).node t _ t).Mapped
        rw [Function.update_self]
        exact hmapped
  · split
    · exact (agrees_call _ thread).sound (h.popFail ht)
    · split
      · exact h.popFail ht
      · exact Agrees.sound (s := (s.pop f).setStatus t .failed) ⟨rfl, rfl, rfl, rfl, rfl, rfl, rfl, rfl, rfl, rfl⟩
          (h.popFail ht)

theorem keyMissing_of_record {f : Nat} {v : Value} (h : ((s.pop f).record t v).KeyMissing t) : s.KeyMissing t := by
  obtain ⟨hcache, hnamed, dep, hdep, hnone⟩ := h
  have hnode : ((s.pop f).record t v).node t = { s.node t with status := .done } := Function.update_self _ _ _
  rw [hnode] at hcache hnamed hdep
  refine ⟨hcache, hnamed, dep, hdep, ?_⟩
  by_cases he : dep = t
  · have hsome : ((s.pop f).record t v).results t = some v := Function.update_self _ _ _
    rw [he, hsome] at hnone
    cases hnone
  · have hother : ((s.pop f).record t v).results dep = s.results dep := Function.update_of_ne he _ _
    rwa [hother] at hnone

theorem Sound.complete (h : s.Sound) {f : Nat} (ht : (f, t) ∈ s.running) (thread : Nat) (v : Value) (swept : Bool)
    (hkey : s.workers = true → ¬ s.KeyMissing t) : ((s.pop f).complete thread t v swept).Sound := by
  have hrecord := h.popRecord ht v
  unfold Run.complete
  simp only []
  split
  · next hmissing =>
      split
      · next hworkers => exact absurd (keyMissing_of_record hmissing) (hkey hworkers)
      · exact Agrees.sound (s := (s.pop f).record t v) ⟨rfl, rfl, rfl, rfl, rfl, rfl, rfl, rfl, rfl, rfl⟩ hrecord
  · exact (agrees_call _ thread).sound ((agrees_storeCached _ t v).sound hrecord)

/-- The result of a body that ends so is recorded. -/
def Recorded (s : Run) : Ending → Prop
  | .returned _ => True
  | .errorValue _ => s.flow = false
  | .waits | .raised => False

instance (s : Run) : (ending : Ending) → Decidable (s.Recorded ending)
  | .returned _ => isTrue trivial
  | .errorValue _ => inferInstanceAs (Decidable (_ = _))
  | .waits | .raised => isFalse id

/-- The task that `schedule_ready` comes to next on a thread. -/
def next (s : Run) (thread : Nat) : Option TaskId := (s.frames thread).head?.bind fun frame => frame.rest.head?

/-- A task that `schedule_ready` comes to is still pending, and a worker thread can make up the key of what it stores. -/
def Fits (s : Run) : Act → Prop
  | .turn thread _ => ∀ t ∈ s.next thread, t ∈ s.pending
  | .ends _ flight ending _ => s.workers = true → s.Recorded ending → ∀ t ∈ s.taskOf flight, ¬ s.KeyMissing t
  | .checkpoint _ | .cached _ _ => True

instance (s : Run) : (act : Act) → Decidable (s.Fits act)
  | .turn _ _ => inferInstanceAs (Decidable (∀ t ∈ _, _))
  | .ends _ _ _ _ => inferInstanceAs (Decidable (_ → _ → ∀ t ∈ _, _))
  | .checkpoint _ | .cached _ _ => isTrue trivial

/-- Every step of a run fits. -/
def AllFit (s : Run) : List Act → Prop
  | [] => True
  | act :: acts => s.Fits act ∧ (s.perform act).AllFit acts

instance decidableAllFit (s : Run) : (acts : List Act) → Decidable (s.AllFit acts)
  | [] => isTrue trivial
  | act :: acts => @instDecidableAnd _ _ _ (decidableAllFit (s.perform act) acts)

theorem Sound.ends (h : s.Sound) (thread flight : Nat) (ending : Ending) (swept : Bool)
    (hfits : s.Fits (.ends thread flight ending swept)) : (s.ends thread flight ending swept).Sound := by
  unfold Run.ends
  split
  · exact h
  · next t htask =>
      have ht := mem_of_taskOf htask
      simp only []
      cases ending with
      | waits =>
          exact Agrees.sound (s := (s.pop flight).record t .nil) ⟨rfl, rfl, rfl, rfl, rfl, rfl, rfl, rfl, rfl, rfl⟩
            (h.popRecord ht .nil)
      | returned v => exact h.complete ht thread v swept fun hworkers => hfits hworkers trivial t htask
      | errorValue v =>
          simp only []
          split
          · exact h.failTask ht thread swept
          · next hflow =>
              have hrecorded : s.Recorded (.errorValue v) := Bool.eq_false_iff.mpr hflow
              exact h.complete ht thread v swept fun hworkers => hfits hworkers hrecorded t htask
      | raised => exact h.failTask ht thread swept

theorem Sound.turn (h : s.Sound) (thread : Nat) (cancelled : Bool) (hfits : s.Fits (.turn thread cancelled)) :
    (s.turn thread cancelled).Sound := by
  unfold Run.turn
  split
  · exact h
  · exact (agrees_setFrames _ _ _).sound h
  · split
    · exact (agrees_setFrames _ _ _).sound h.cancelInflight
    · exact (agrees_setFrames _ _ _).sound h.settleMapped
  · next t rest again outer hframes =>
      have ht : t ∈ s.pending := hfits t (by simp [next, hframes])
      split
      · exact (agrees_setFrames _ _ _).sound (h.skip ht)
      · split
        · next hmapped => exact (agrees_setFrames _ _ _).sound (h.expandMapped ht hmapped)
        · next hmapped => exact Sound.spawnTask ((agrees_setFrames _ _ _).sound h) ht hmapped thread

theorem Sound.perform (h : s.Sound) (act : Act) (hfits : s.Fits act) : (s.perform act).Sound := by
  unfold Run.perform
  split
  · exact h
  · cases act with
    | turn thread cancelled => exact h.turn thread cancelled hfits
    | ends thread flight ending swept => exact h.ends thread flight ending swept hfits
    | checkpoint label => exact Agrees.sound (s := s) ⟨rfl, rfl, rfl, rfl, rfl, rfl, rfl, rfl, rfl, rfl⟩ h
    | cached key v => exact Agrees.sound (s := s) ⟨rfl, rfl, rfl, rfl, rfl, rfl, rfl, rfl, rfl, rfl⟩ h

theorem Sound.run (h : s.Sound) (acts : List Act) (hacts : s.AllFit acts) : (s.run acts).Sound := by
  induction acts generalizing s with
  | nil => exact h
  | cons act acts ih => exact ih (h.perform act hacts.1) hacts.2

/-- The nodes of a graph that has not been run: no task is an instance of another. -/
def Unrun (node : TaskId → TaskNode) (tasks : List TaskId) : Prop :=
  (∀ t, (node t).status = .pending ∧ (node t).attempts = 0) ∧ ∀ t ∈ tasks, (node t).eachIndex = none ∧ t.index = none

/-- A run before anything happens in it: there are results from an earlier run at most. -/
structure Restored (node : TaskId → TaskNode) (tasks : List TaskId) (s : Run) : Prop where
  listed : s.tasks = tasks
  same : ∀ t, (node t).Same (s.node t)
  status : ∀ t, (s.node t).status = .pending ∨ (s.node t).status = .failed ∨
    (s.node t).status = .completed ∧ s.results t ≠ none
  nodup : s.pending.Nodup
  pending : ∀ t ∈ s.pending, t ∈ tasks ∧ s.results t = none
  results : ∀ t, s.results t ≠ none → t ∈ tasks ∧ (s.node t).status = .completed
  running : s.running = []
  skipped : s.skipped = []
  expanded : s.expanded = []
  starts : s.starts = []
  retries : s.retries = []

theorem Restored.sound {node : TaskId → TaskNode} {tasks : List TaskId} (h : Restored node tasks s) (hunrun : Unrun node tasks)
    (hcovered : ∀ t ∈ tasks, s.results t = none → t ∈ s.pending) : s.Sound := by
  have hflying : ∀ t, decide (t ∈ s.running.map Prod.snd) = false := fun t => by
    rw [h.running]
    exact decide_eq_false List.not_mem_nil
  have hskipped : ∀ t, decide (t ∈ s.skipped) = false := fun t => by
    rw [h.skipped]
    exact decide_eq_false List.not_mem_nil
  have hstarts : ∀ t, s.starts.count t = 0 := fun t => by
    rw [h.starts]
    exact List.count_nil
  have hnot : ∀ t (status : TaskStatus), status ≠ .pending → status ≠ .failed → status ≠ .completed →
      (s.node t).status ≠ status := by
    intro t status hp hf hc he
    rcases h.status t with hs | hs | ⟨hs, -⟩
    · exact hp (he ▸ hs)
    · exact hf (he ▸ hs)
    · exact hc (he ▸ hs)
  refine ⟨fun t => ?_, fun t => ?_, ⟨h.nodup, ?_, ?_, ?_⟩, fun p hp => ?_, fun i hi hne => ?_, fun t ht => ?_, fun t ht => ?_⟩
  · refine ⟨fun hp => ?_, fun hf => ?_, fun hr => ?_, fun hs => ?_, fun he => ?_, fun hl => ?_⟩
    · obtain ⟨hlisted, hresult⟩ := h.pending t (of_decide_eq_true hp)
      refine ⟨decide_eq_true (h.listed ▸ hlisted), hflying t, hskipped t, hresult, ?_⟩
      show (s.node t).status.Idle
      rcases h.status t with hs | hs | ⟨-, hne⟩
      · rw [hs]
        exact trivial
      · rw [hs]
        exact trivial
      · exact absurd hresult hne
    · exact absurd ((hflying t).symm.trans hf) (by decide)
    · obtain ⟨hlisted, hstatus⟩ := h.results t hr
      exact ⟨decide_eq_true (h.listed ▸ hlisted), hskipped t, .inr hstatus⟩
    · exact absurd ((hskipped t).symm.trans hs) (by decide)
    · exact absurd he (hnot t .expanded (by decide) (by decide) (by decide))
    · by_cases hr : s.results t = none
      · exact .inl (decide_eq_true (hcovered t (h.listed ▸ of_decide_eq_true hl) hr))
      · exact .inr (.inr (.inl hr))
  · have hzero : (s.view t).starts = 0 := hstarts t
    refine ⟨.inl ⟨hzero, ?_⟩, fun hf => ?_, fun _ _ hdue => ?_, fun _ hpos => absurd hzero hpos.ne', hzero ▸ Nat.zero_le _,
      hzero ▸ Nat.zero_le _, fun hpos => absurd hzero hpos.ne'⟩
    · show s.retries.count t = 0
      rw [h.retries]
      exact List.count_nil
    · exact absurd ((hflying t).symm.trans hf) (by decide)
    · rcases hdue with hd | hd
      · exact hnot t .retrying (by decide) (by decide) (by decide) hd
      · exact hnot t .retryScheduled (by decide) (by decide) (by decide) hd
  · rw [h.running]
    exact List.nodup_nil
  · rw [h.running]
    exact List.nodup_nil
  · rw [h.running]
    exact fun p hp => by cases hp
  · rw [h.expanded] at hp
    cases hp
  · rw [h.listed] at hi
    exact absurd (hunrun.2 i hi).2 hne
  · rw [h.listed] at ht
    rw [h.same t]
    exact ⟨fun hne => absurd (hunrun.2 t ht).1 hne, fun hne => absurd (hunrun.2 t ht).2 hne⟩
  · exact absurd ht (hnot t .expanded (by decide) (by decide) (by decide))

theorem restored_fresh {node : TaskId → TaskNode} {tasks : List TaskId} (h : Unrun node tasks) (workers flow : Bool) :
    Restored node tasks (Run.fresh node tasks workers flow) :=
  ⟨rfl, fun _ => same_refl _, fun t => .inl (h.1 t).1, List.nodup_dedup tasks, fun _ ht => ⟨List.mem_dedup.mp ht, rfl⟩,
    fun _ hr => absurd rfl hr, rfl, rfl, rfl, rfl, rfl⟩

theorem Unrun.fresh {node : TaskId → TaskNode} {tasks : List TaskId} (h : Unrun node tasks) (workers flow : Bool) :
    (fresh node tasks workers flow).Sound :=
  (restored_fresh h workers flow).sound h fun _ ht _ => List.mem_dedup.mpr ht

/-- No task is running twice, or although it has a result; it has been started once, and once again for every failed
attempt that was retried, and never more than `maxRetries + 1` times. -/
structure StartedOnce (s : Run) : Prop where
  alone : (s.running.map Prod.snd).Nodup
  unrecorded : ∀ t ∈ s.running.map Prod.snd, s.results t = none
  counted : ∀ t ∈ s.starts, s.starts.count t = 1 + s.retries.count t
  bounded : ∀ t, s.starts.count t ≤ (s.node t).maxRetries + 1

theorem Sound.startedOnce (h : s.Sound) : s.StartedOnce := by
  refine ⟨h.apart.flights, fun t ht => (h.of_running ht).2.2.1, fun t ht => ?_, fun t => (h.counted t).bounded⟩
  have hpos : 0 < s.starts.count t := List.count_pos_iff.mpr ht
  have honce : s.starts.count t = 0 ∧ s.retries.count t = 0 ∨ s.starts.count t = s.retries.count t + 1 := (h.counted t).once
  omega

/-- The nodes of two tasks of which the first has its result in the cache. -/
def hitNode : TaskId → TaskNode
  | ⟨0, none⟩ => { cache := true, cacheKey := some "a" }
  | _ => {}

/-- Both are ready in one pass. The first is not run, and the pass that follows on its result starts the second; then the
first pass comes to it. -/
def hitRun : Run :=
  (fresh hitNode [⟨0, none⟩, ⟨1, none⟩] false false).run
    [.cached (.named "a" none) .nil, .turn 0 false, .turn 0 false, .turn 0 false, .turn 0 false, .turn 0 false,
      .turn 0 false]

end Run

end Nodus.Orchestration
