import Nodus.TaskRuns

/-! When a task is started. What a task has come to does not change any more, so that a task that was ready when a pass of
`schedule_ready` began still is when the pass comes to it, and when an attempt of it is retried. -/

namespace Nodus.Orchestration

/-- A step may change what a run says of the task: it is pending, running or expanded, or not there yet. -/
def View.Active (v : View) : Prop :=
  v.pending = true ∨ v.flying = true ∨ v.node.status = .expanded ∨ v.listed = false

namespace Run

variable {s s' s'' : Run} {t u dep : TaskId}

/-- What a task has come to, as far as the tasks that depend on it are concerned. -/
def kind (s : Run) (t : TaskId) : Option JoinState :=
  if (s.results t).isSome then some .completed
  else if (s.node t).status = .failed then some .failed
  else if t ∈ s.skipped then some .skipped
  else none

/-- No attempt of the task is left. A mapped one has no attempts of its own: either it has not been expanded, or one of its
instances has failed. -/
def Exhausted (s : Run) (t : TaskId) : Prop :=
  (s.node t).maxRetries < (s.node t).attempts ∨
    (s.node t).Mapped ∧ ((∀ p ∈ s.expanded, p.1 ≠ t) ∨ ∃ p ∈ s.expanded, p.1 = t ∧
      ∃ i ∈ p.2, (s.node i).status = .failed ∧ (s.node i).maxRetries < (s.node i).attempts)

/-- A dependency has come to something that the task accepts. -/
def Accepts (s : Run) (t dep : TaskId) : Prop :=
  ∃ k, s.kind dep = some k ∧ k ∈ (s.node t).onStates ∧ (k = .failed → s.Exhausted dep)

/-- All dependencies of the task have. -/
def Cleared (s : Run) (t : TaskId) : Prop := ∀ dep ∈ (s.node t).dependencies, s.Accepts t dep

/-- A task that counts as failed is not to be started again. -/
structure FailedFor (s : Run) (t : TaskId) : Prop where
  listed : t ∈ s.tasks
  pending : t ∉ s.pending
  exhausted : s.cancelled = false → s.Exhausted t

/-- Every task that `schedule_ready` is to come to, that is running, or that is an instance is cleared. -/
structure Ordered (s : Run) : Prop where
  sound : s.Sound
  failed : ∀ t, (s.node t).status = .failed → s.FailedFor t
  frames : ∀ thread, ∀ frame ∈ s.frames thread, ∀ t ∈ frame.rest, t ∈ s.tasks ∧ s.Cleared t
  running : ∀ t ∈ s.running.map Prod.snd, s.Cleared t
  instances : ∀ p ∈ s.expanded, ∀ i ∈ p.2, s.Cleared i
  parked : s.parked ≠ [] → s.waiting.isSome = true

theorem depSatisfied_iff : s.depSatisfied t dep = true ↔ ∃ k, s.kind dep = some k ∧ k ∈ (s.node t).onStates := by
  unfold depSatisfied kind
  split
  · simp
  · split
    · simp
    · split
      · simp
      · simp

theorem kind_of_view (h : s'.view u = s.view u) : s'.kind u = s.kind u := by
  have hresult : s'.results u = s.results u := congrArg View.result h
  have hnode : s'.node u = s.node u := congrArg View.node h
  have hskipped : decide (u ∈ s'.skipped) = decide (u ∈ s.skipped) := congrArg View.skipped h
  have hmem : u ∈ s'.skipped ↔ u ∈ s.skipped := decide_eq_decide.mp hskipped
  unfold kind
  rw [hresult, hnode]
  simp only [hmem]

theorem Ordered.inactive (h : s.Ordered) {k : JoinState} (hk : s.kind u = some k) : ¬ (s.view u).Active := by
  unfold kind at hk
  rintro (hp | hf | he | hl)
  · obtain ⟨-, -, hskipped, hresult, -⟩ := h.sound.of_pending (of_decide_eq_true hp)
    have hstatus : (s.node u).status ≠ .failed := fun hstatus => (h.failed u hstatus).pending (of_decide_eq_true hp)
    simp [hresult, hstatus, hskipped] at hk
  · obtain ⟨-, hskipped, hresult, hstatus, -⟩ := h.sound.of_running (of_decide_eq_true hf)
    simp [hresult, hstatus, hskipped] at hk
  · have he : (s.node u).status = .expanded := he
    obtain ⟨-, -, hskipped, hresult, -⟩ := h.sound.of_expanded he
    simp [hresult, he, hskipped] at hk
  · have hu : u ∉ s.tasks := of_decide_eq_false hl
    obtain ⟨-, hskipped, hresult, -⟩ := h.sound.unlisted hu
    have hresult : s.results u = none := hresult
    rw [hresult, if_neg (by decide)] at hk
    split at hk
    · next hstatus => exact hu (h.failed u hstatus).listed
    · rw [if_neg (of_decide_eq_false hskipped)] at hk
      cases hk

/-! ### What has settled stays so -/

structure Settles (s s' : Run) : Prop where
  tasks : ∀ u ∈ s.tasks, u ∈ s'.tasks
  view : ∀ u, ¬ (s.view u).Active → s'.view u = s.view u
  expanded : ∀ p ∈ s'.expanded, p ∈ s.expanded ∨ (s.view p.1).Active
  kept : ∀ p ∈ s.expanded, p ∈ s'.expanded
  same : ∀ u ∈ s.tasks, (s.node u).Same (s'.node u)

theorem Settles.kind (hs : Settles s s') (h : s.Ordered) {k : JoinState} (hk : s.kind u = some k) : s'.kind u = some k := by
  rw [kind_of_view (hs.view u (h.inactive hk))]
  exact hk

theorem Ordered.kind_failed (h : s.Ordered) (hf : (s.node u).status = .failed) : s.kind u = some .failed := by
  have hresult : s.results u = none := by
    by_contra hne
    have hdone : (s.node u).status = .done ∨ (s.node u).status = .completed := ((h.sound.placed u).result hne).2.2
    rw [hf] at hdone
    rcases hdone with hd | hd
    · cases hd
    · cases hd
  unfold kind
  rw [hresult, if_neg (by decide), if_pos hf]

theorem Settles.exhausted (hs : Settles s s') (h : s.Ordered) (hf : (s.node u).status = .failed) (he : s.Exhausted u) :
    s'.Exhausted u := by
  have hinactive := h.inactive (h.kind_failed hf)
  have hnode : s'.node u = s.node u := congrArg View.node (hs.view u hinactive)
  unfold Exhausted
  rw [hnode]
  refine he.imp id fun ⟨hmapped, hinstances⟩ => ⟨hmapped, hinstances.imp (fun hnone p hp hpu => ?_) ?_⟩
  · rcases hs.expanded p hp with hold | hactive
    · exact hnone p hold hpu
    · rw [hpu] at hactive
      exact hinactive hactive
  · rintro ⟨p, hp, hpu, i, hi, hfailed, hattempts⟩
    have hnodei : s'.node i = s.node i := congrArg View.node (hs.view i (h.inactive (h.kind_failed hfailed)))
    refine ⟨p, hs.kept p hp, hpu, i, hi, ?_, ?_⟩
    · rw [hnodei]
      exact hfailed
    · rw [hnodei]
      exact hattempts

theorem status_of_kind (hk : s.kind u = some .failed) : (s.node u).status = .failed := by
  unfold kind at hk
  split at hk
  · cases hk
  · split at hk
    · assumption
    · split at hk
      · cases hk
      · cases hk

theorem Settles.cleared (hs : Settles s s') (h : s.Ordered) (ht : t ∈ s.tasks) (hc : s.Cleared t) : s'.Cleared t := by
  intro dep hdep
  have hsame := hs.same t ht
  have hdep : dep ∈ (s.node t).dependencies := by
    rw [hsame] at hdep
    exact hdep
  obtain ⟨k, hk, hon, hexhausted⟩ := hc dep hdep
  refine ⟨k, hs.kind h hk, ?_, fun hfailed => ?_⟩
  · rw [hsame]
    exact hon
  · exact hs.exhausted h (status_of_kind (hfailed ▸ hk)) (hexhausted hfailed)

theorem Only.settles (ho : Only s s' t) (ha : (s.view t).Active) : Settles s s' where
  tasks _ hu := ho.tasks ▸ hu
  view u hu := ho.view u fun hut => hu (hut ▸ ha)
  expanded _ hp := .inl (ho.expanded ▸ hp)
  kept _ hp := ho.expanded ▸ hp
  same u _ := ho.same u

theorem Agrees.settles (ha : Agrees s s') : Settles s s' where
  tasks _ hu := ha.tasks ▸ hu
  view u _ := ha.view u
  expanded _ hp := .inl (ha.expanded ▸ hp)
  kept _ hp := ha.expanded ▸ hp
  same _ _ := ha.node ▸ same_refl _

theorem Ordered.of_settles (h : s.Ordered) (hs : Settles s s') (hsound : s'.Sound)
    (hfailed : ∀ u, (s.view u).Active → (s'.node u).status = .failed → s'.FailedFor u)
    (hcancelled : s.cancelled = true → s'.cancelled = true)
    (hframes : ∀ thread, ∀ frame ∈ s'.frames thread, ∀ t ∈ frame.rest,
      (∃ outer ∈ s.frames thread, t ∈ outer.rest) ∨ t ∈ s'.tasks ∧ s'.Cleared t)
    (hrunning : ∀ t ∈ s'.running.map Prod.snd, t ∈ s.running.map Prod.snd ∨ t ∈ s.tasks ∧ s.Cleared t)
    (hinstances : ∀ p ∈ s'.expanded, p ∈ s.expanded ∨ ∀ i ∈ p.2, s'.Cleared i)
    (hparked : s'.parked ≠ [] → s'.waiting.isSome = true) : s'.Ordered where
  sound := hsound
  failed u hu := by
    by_cases ha : (s.view u).Active
    · exact hfailed u ha hu
    · have hview := hs.view u ha
      have hnode : s'.node u = s.node u := congrArg View.node hview
      have hpending : decide (u ∈ s'.pending) = decide (u ∈ s.pending) := congrArg View.pending hview
      have hlisted : decide (u ∈ s'.tasks) = decide (u ∈ s.tasks) := congrArg View.listed hview
      rw [hnode] at hu
      have hold := h.failed u hu
      refine ⟨(decide_eq_decide.mp hlisted).mpr hold.listed, fun hp => hold.pending ((decide_eq_decide.mp hpending).mp hp),
        fun hcalm => hs.exhausted h hu (hold.exhausted ?_)⟩
      cases hc : s.cancelled with
      | false => rfl
      | true =>
          rw [hcancelled hc] at hcalm
          cases hcalm
  frames thread frame hframe t ht := by
    rcases hframes thread frame hframe t ht with ⟨outer, houter, hmem⟩ | hnew
    · obtain ⟨hlisted, hcleared⟩ := h.frames thread outer houter t hmem
      exact ⟨hs.tasks t hlisted, hs.cleared h hlisted hcleared⟩
    · exact hnew
  running t ht := by
    rcases hrunning t ht with hold | ⟨hlisted, hcleared⟩
    · exact hs.cleared h (h.sound.of_running hold).1 (h.running t hold)
    · exact hs.cleared h hlisted hcleared
  instances p hp i hi := by
    rcases hinstances p hp with hold | hnew
    · exact hs.cleared h ((h.sound.parents p hold).2.2.2.2 i hi).listed (h.instances p hold i hi)
    · exact hnew i hi
  parked := hparked

theorem Ordered.of_only (h : s.Ordered) (ho : Only s s' t) (ha : (s.view t).Active) (hsound : s'.Sound)
    (hfailed : (s'.node t).status = .failed → s'.FailedFor t) (hcancelled : s'.cancelled = s.cancelled)
    (hframes : ∀ thread, ∀ frame ∈ s'.frames thread, ∀ t ∈ frame.rest, ∃ outer ∈ s.frames thread, t ∈ outer.rest)
    (hrunning : ∀ t ∈ s'.running.map Prod.snd, t ∈ s.running.map Prod.snd ∨ t ∈ s.tasks ∧ s.Cleared t)
    (hparked : s'.parked ≠ [] → s'.waiting.isSome = true) : s'.Ordered := by
  refine h.of_settles (ho.settles ha) hsound (fun u hu hstatus => ?_) (fun hc => hcancelled ▸ hc)
    (fun thread frame hframe t ht => .inl (hframes thread frame hframe t ht)) hrunning (fun p hp => .inl (ho.expanded ▸ hp))
    hparked
  by_cases hut : u = t
  · rw [hut] at hstatus ⊢
    exact hfailed hstatus
  · have hnode : s'.node u = s.node u := congrArg View.node (ho.view u hut)
    rw [hnode] at hstatus
    exact absurd hu (h.inactive (h.kind_failed hstatus))

theorem Ordered.of_agrees (h : s.Ordered) (ha : Agrees s s') (hcancelled : s'.cancelled = s.cancelled)
    (hframes : ∀ thread, ∀ frame ∈ s'.frames thread, ∀ t ∈ frame.rest, ∃ outer ∈ s.frames thread, t ∈ outer.rest)
    (hparked : s'.parked ≠ [] → s'.waiting.isSome = true) : s'.Ordered := by
  refine h.of_settles ha.settles (ha.sound h.sound) (fun u hu hstatus => ?_) (fun hc => hcancelled ▸ hc)
    (fun thread frame hframe t ht => .inl (hframes thread frame hframe t ht)) (fun t ht => .inl (ha.running ▸ ht))
    (fun p hp => .inl (ha.expanded ▸ hp)) hparked
  rw [ha.node] at hstatus
  exact absurd hu (h.inactive (h.kind_failed hstatus))

/-! ### Every step keeps a run ordered -/

theorem mem_setFrames {thread thread' : Nat} {frames : List Frame} {frame : Frame}
    (h : frame ∈ (s.setFrames thread frames).frames thread') :
    thread' = thread ∧ frame ∈ frames ∨ frame ∈ s.frames thread' := by
  have h : frame ∈ Function.update s.frames thread frames thread' := h
  by_cases hthread : thread' = thread
  · rw [hthread, Function.update_self] at h
    exact .inl ⟨hthread, h⟩
  · rw [Function.update_of_ne hthread] at h
    exact .inr h

theorem Ordered.setFrames (h : s.Ordered) {thread : Nat} {frames : List Frame}
    (hframes : ∀ frame ∈ frames, ∀ t ∈ frame.rest, ∃ outer ∈ s.frames thread, t ∈ outer.rest) :
    (s.setFrames thread frames).Ordered := by
  refine h.of_agrees (agrees_setFrames s thread frames) rfl (fun thread' frame hframe t ht => ?_) h.parked
  rcases mem_setFrames hframe with ⟨rfl, hnew⟩ | hold
  · exact hframes frame hnew t ht
  · exact ⟨frame, hold, ht⟩

theorem Ordered.call (h : s.Ordered) (thread : Nat) : (s.call thread).Ordered := by
  refine h.setFrames fun frame hframe t ht => ?_
  rcases List.mem_cons.mp hframe with rfl | hframe
  · cases ht
  · exact ⟨frame, hframe, ht⟩

theorem active_of_pending (ht : t ∈ s.pending) : (s.view t).Active := .inl (decide_eq_true ht)

theorem active_of_running (ht : t ∈ s.running.map Prod.snd) : (s.view t).Active := .inr (.inl (decide_eq_true ht))

theorem Ordered.launch (h : s.Ordered) (ht : t ∈ s.pending) (hmapped : ¬ (s.node t).Mapped) (hc : s.Cleared t) :
    ((s.start t).launch t).Ordered := by
  obtain ⟨hlisted, hflying, -⟩ := h.sound.of_pending ht
  have hstart : Only s (s.start t) t := only_start h.sound.apart
  refine h.of_only (hstart.trans (only_launch hstart.apart hflying)) (active_of_pending ht) (h.sound.launch ht hmapped)
    (fun hstatus => ?_) rfl (fun _ frame hframe _ hu => ⟨frame, hframe, hu⟩) (fun u hu => ?_) h.parked
  · have hnode : ((s.start t).launch t).node t = _ := node_start
    rw [hnode] at hstatus
    cases hstatus
  · rcases List.mem_cons.mp hu with rfl | hu
    · exact .inr ⟨hlisted, hc⟩
    · exact .inl hu

theorem Ordered.hit (h : s.Ordered) (ht : t ∈ s.pending) (v : Value) : ((s.start t).record t v).Ordered := by
  have hstart : Only s (s.start t) t := only_start h.sound.apart
  refine h.of_only (hstart.trans (only_record hstart.apart v)) (active_of_pending ht) (h.sound.hit ht v)
    (fun hstatus => ?_) rfl (fun _ frame hframe _ hu => ⟨frame, hframe, hu⟩) (fun _ hu => .inl hu) h.parked
  have hnode : ((s.start t).record t v).node t = { (s.start t).node t with status := .done } := Function.update_self _ _ _
  rw [hnode] at hstatus
  cases hstatus

theorem Ordered.spawnTask (h : s.Ordered) (ht : t ∈ s.pending) (hmapped : ¬ (s.node t).Mapped) (hc : s.Cleared t)
    (thread : Nat) : (s.spawnTask thread t).Ordered := by
  unfold Run.spawnTask
  split
  · exact h
  · split
    · exact h
    · split
      · next v _ => exact (h.hit ht v).call thread
      · exact h.launch ht hmapped hc

theorem Ordered.popRecord (h : s.Ordered) {f : Nat} (ht : (f, t) ∈ s.running) (v : Value) :
    ((s.pop f).record t v).Ordered := by
  have hpop : Only s (s.pop f) t := only_pop h.sound.apart ht
  have hmem : t ∈ s.running.map Prod.snd := List.mem_map_of_mem ht
  refine h.of_only (hpop.trans (only_record hpop.apart v)) (active_of_running hmem) (h.sound.popRecord ht v)
    (fun hstatus => ?_) rfl (fun _ frame hframe _ hu => ⟨frame, hframe, hu⟩)
    (fun u hu => .inl ((h.sound.apart.mem_pop ht).mp hu).1) h.parked
  have hnode : ((s.pop f).record t v).node t = { s.node t with status := .done } := Function.update_self _ _ _
  rw [hnode] at hstatus
  cases hstatus

theorem Ordered.popFail (h : s.Ordered) {f : Nat} (ht : (f, t) ∈ s.running)
    (hattempts : ¬ (s.node t).attempts ≤ (s.node t).maxRetries) : ((s.pop f).setStatus t .failed).Ordered := by
  have hpop : Only s (s.pop f) t := only_pop h.sound.apart ht
  have hmem : t ∈ s.running.map Prod.snd := List.mem_map_of_mem ht
  refine h.of_only (hpop.trans (only_setStatus hpop.apart .failed)) (active_of_running hmem) (h.sound.popFail ht)
    (fun _ => ⟨(h.sound.of_running hmem).1, h.sound.not_pending_of_running hmem, fun _ => .inl ?_⟩) rfl
    (fun _ frame hframe _ hu => ⟨frame, hframe, hu⟩) (fun u hu => .inl ((h.sound.apart.mem_pop ht).mp hu).1) h.parked
  have hnode : ((s.pop f).setStatus t .failed).node t = { s.node t with status := .failed } := Function.update_self _ _ _
  rw [hnode]
  exact Nat.lt_of_not_le hattempts

theorem Ordered.popRetry (h : s.Ordered) {f : Nat} (ht : (f, t) ∈ s.running) {status : TaskStatus} (hdue : status.Due)
    (hattempts : (s.node t).attempts ≤ (s.node t).maxRetries) : (((s.pop f).setStatus t status).markPending t).Ordered := by
  have hpop : Only s (s.pop f) t := only_pop h.sound.apart ht
  have hstatus : Only s ((s.pop f).setStatus t status) t := hpop.trans (only_setStatus hpop.apart status)
  have hmem : t ∈ s.running.map Prod.snd := List.mem_map_of_mem ht
  have heq : ((s.pop f).setStatus t status).markPending t =
      { (s.pop f).setStatus t status with pending := s.pending ++ [t] } := if_neg (h.sound.not_pending_of_running hmem)
  refine h.of_only (hstatus.trans (only_markPending hstatus.apart)) (active_of_running hmem)
    (h.sound.popRetry ht hdue hattempts) (fun hfailed => ?_) ?_ (fun thread frame hframe u hu => ?_) (fun u hu => ?_) ?_
  · have hnode : (((s.pop f).setStatus t status).markPending t).node t = { s.node t with status := status } := by
      rw [markPending_node]
      exact Function.update_self _ _ _
    rw [hnode] at hfailed
    have hfailed : status = .failed := hfailed
    rw [hfailed] at hdue
    rcases hdue with hd | hd
    · cases hd
    · cases hd
  · rw [heq]
    rfl
  · rw [heq] at hframe
    exact ⟨frame, hframe, hu⟩
  · rw [heq] at hu
    exact .inl ((h.sound.apart.mem_pop ht).mp hu).1
  · rw [heq]
    exact h.parked

theorem Ordered.failTask (h : s.Ordered) {f : Nat} (ht : (f, t) ∈ s.running) (thread : Nat) (swept : Bool) :
    ((s.pop f).failTask thread t swept).Ordered := by
  have hmem : t ∈ s.running.map Prod.snd := List.mem_map_of_mem ht
  obtain ⟨hlisted, -, -, -, hmapped⟩ := h.sound.of_running hmem
  unfold Run.failTask
  split
  · next hattempts =>
      have hretry := fun (status : TaskStatus) (hdue : status.Due) => h.popRetry ht hdue hattempts
      split
      · exact (hretry .retryScheduled (.inr rfl)).of_agrees (s := ((s.pop f).setStatus t .retryScheduled).markPending t)
          ⟨rfl, rfl, rfl, rfl, rfl, rfl, rfl, rfl, rfl, rfl⟩ rfl (fun _ frame hframe _ hu => ⟨frame, hframe, hu⟩)
          (hretry .retryScheduled (.inr rfl)).parked
      · have hpop : Only s (s.pop f) t := only_pop h.sound.apart ht
        have hstatus : Only s ((s.pop f).setStatus t .retrying) t := hpop.trans (only_setStatus hpop.apart _)
        have hmark : Only s (((s.pop f).setStatus t .retrying).markPending t) t :=
          hstatus.trans (only_markPending hstatus.apart)
        refine (hretry .retrying (.inl rfl)).spawnTask (mem_markPending.mpr (.inr rfl)) ?_
          ((hmark.settles (active_of_running hmem)).cleared h hlisted (h.running t hmem)) thread
        exact fun hm => hmapped ((mapped_same (hmark.same t)).mp hm)
  · next hattempts =>
      have hfail := h.popFail ht hattempts
      split
      · exact hfail.call thread
      · split
        · exact hfail
        · have hset : Ordered { (s.pop f).setStatus t .failed with failed := true } :=
            hfail.of_agrees ⟨rfl, rfl, rfl, rfl, rfl, rfl, rfl, rfl, rfl, rfl⟩ rfl
              (fun _ frame hframe _ hu => ⟨frame, hframe, hu⟩) hfail.parked
          exact hset.call thread

theorem Ordered.complete (h : s.Ordered) {f : Nat} (ht : (f, t) ∈ s.running) (thread : Nat) (v : Value) (swept : Bool)
    (hkey : s.workers = true → ¬ s.KeyMissing t) : ((s.pop f).complete thread t v swept).Ordered := by
  have hrecord := h.popRecord ht v
  unfold Run.complete
  simp only []
  split
  · next hmissing =>
      split
      · next hworkers => exact absurd (keyMissing_of_record hmissing) (hkey hworkers)
      · exact hrecord.of_agrees ⟨rfl, rfl, rfl, rfl, rfl, rfl, rfl, rfl, rfl, rfl⟩ rfl
          (fun _ frame hframe _ hu => ⟨frame, hframe, hu⟩) hrecord.parked
  · have hsame : (((s.pop f).record t v).storeCached t v).frames = ((s.pop f).record t v).frames ∧
        (((s.pop f).record t v).storeCached t v).cancelled = ((s.pop f).record t v).cancelled ∧
        (((s.pop f).record t v).storeCached t v).parked = ((s.pop f).record t v).parked ∧
        (((s.pop f).record t v).storeCached t v).waiting = ((s.pop f).record t v).waiting := by
      unfold Run.storeCached
      split
      · exact ⟨rfl, rfl, rfl, rfl⟩
      · exact ⟨rfl, rfl, rfl, rfl⟩
    obtain ⟨hframes, hcancelled, hparked, hwaiting⟩ := hsame
    refine (hrecord.of_agrees (agrees_storeCached _ t v) hcancelled (fun thread frame hframe u hu => ?_) ?_).call thread
    · rw [hframes] at hframe
      exact ⟨frame, hframe, hu⟩
    · rw [hparked, hwaiting]
      exact hrecord.parked

theorem Ordered.pauseForWait (h : s.Ordered) {f : Nat} (ht : (f, t) ∈ s.running) : ((s.pop f).pauseForWait t).Ordered :=
  (h.popRecord ht .nil).of_agrees ⟨rfl, rfl, rfl, rfl, rfl, rfl, rfl, rfl, rfl, rfl⟩ rfl
    (fun _ frame hframe _ hu => ⟨frame, hframe, hu⟩) fun _ => rfl

theorem settles_cancelInflight (s : Run) : Settles s s.cancelInflight := by
  cases hworkers : s.workers with
  | true =>
      have heq : s.cancelInflight = { s with cancelled := true } := if_pos hworkers
      rw [heq]
      exact Agrees.settles ⟨rfl, rfl, rfl, rfl, rfl, rfl, rfl, rfl, rfl, rfl⟩
  | false =>
      have heq := cancelInflight_eq (s := s) hworkers
      refine ⟨fun u hu => ?_, fun u hu => ?_, fun p hp => .inl ?_, fun p hp => ?_, fun u _ => cancelInflight_node hworkers u⟩
      · rw [heq]
        exact hu
      · rw [view_cancelInflight hworkers, if_neg fun hmem => hu (active_of_running hmem)]
      · rw [heq] at hp
        exact hp
      · rw [heq]
        exact hp

theorem Ordered.cancelInflight (h : s.Ordered) : s.cancelInflight.Ordered := by
  have hsound := h.sound.cancelInflight
  have hsettles := settles_cancelInflight s
  cases hworkers : s.workers with
  | true =>
      have heq : s.cancelInflight = { s with cancelled := true } := if_pos hworkers
      rw [heq] at hsound hsettles ⊢
      exact h.of_settles hsettles hsound
        (fun u hu hstatus => absurd hu (h.inactive (h.kind_failed hstatus))) (fun _ => rfl)
        (fun _ frame hframe _ hu => .inl ⟨frame, hframe, hu⟩) (fun _ hu => .inl hu) (fun _ hp => .inl hp) h.parked
  | false =>
      have heq := cancelInflight_eq (s := s) hworkers
      have hview := view_cancelInflight (s := s) hworkers
      refine h.of_settles hsettles hsound (fun u hu hstatus => ?_) (fun _ => by rw [heq])
        (fun thread frame hframe u hu => .inl ⟨frame, ?_, hu⟩) (fun u hu => ?_) (fun p hp => .inl ?_) ?_
      · have hcancelled : s.cancelInflight.cancelled = true := by rw [heq]
        have hnode : s.cancelInflight.node u = (s.cancelInflight.view u).node := rfl
        rw [hnode, hview] at hstatus
        split at hstatus
        · next hmem =>
            refine ⟨?_, ?_, fun hcalm => ?_⟩
            · rw [heq]
              exact (h.sound.of_running hmem).1
            · rw [heq]
              exact h.sound.not_pending_of_running hmem
            · rw [hcancelled] at hcalm
              cases hcalm
        · exact absurd hu (h.inactive (h.kind_failed hstatus))
      · rw [heq] at hframe
        exact hframe
      · rw [heq] at hu
        cases hu
      · rw [heq] at hp
        exact hp
      · rw [heq]
        exact h.parked

theorem active_of_expanded (ht : (s.node t).status = .expanded) : (s.view t).Active := .inr (.inr (.inl ht))

theorem failed_of_outcomes {allowFailure : Bool} {instances : List TaskId} (h : s.outcomes allowFailure instances = some none) :
    ∃ i ∈ instances, (s.node i).status = .failed := by
  induction instances with
  | nil => cases h
  | cons i rest ih =>
      have hrest : ∀ (f : Option (List Value) → Option (List Value)), (∀ values, f (some values) ≠ none) →
          (s.outcomes allowFailure rest).map f = some none → ∃ j ∈ i :: rest, (s.node j).status = .failed := by
        intro f hf hmap
        obtain ⟨values, hvalues, hnone⟩ := Option.map_eq_some_iff.mp hmap
        cases values with
        | none =>
            obtain ⟨j, hj, hstatus⟩ := ih hvalues
            exact ⟨j, List.mem_cons_of_mem _ hj, hstatus⟩
        | some values => exact absurd hnone (hf values)
      unfold outcomes at h
      split at h
      · exact hrest _ (fun values => Option.some_ne_none _) h
      · split at h
        · split at h
          · next hfailed => exact ⟨i, List.mem_cons_self, hfailed.2⟩
          · exact hrest _ (fun values => Option.some_ne_none _) h
        · cases h

theorem Ordered.settleMappedParent (h : s.Ordered) {p : TaskId × List TaskId} (hp : p ∈ s.expanded) : (s.settleMappedParent p.1 p.2).1.Ordered := by
  have hsound := h.sound.settleMappedParent p.1 p.2
  unfold Run.settleMappedParent at hsound ⊢
  split
  · exact h
  · next hstatus =>
      have hexpanded := not_not.mp hstatus
      obtain ⟨hpending, -, -, -, hlisted⟩ := h.sound.of_expanded hexpanded
      rw [if_neg hstatus] at hsound
      split
      · exact h
      · next houtcomes =>
          rw [houtcomes] at hsound
          have honly : Only s (s.setStatus p.1 .failed) p.1 := only_setStatus h.sound.apart _
          refine h.of_only honly (active_of_expanded hexpanded) hsound (fun _ => ⟨hlisted, hpending, fun hcalm => .inr ?_⟩) rfl
            (fun _ frame hframe _ hu => ⟨frame, hframe, hu⟩) (fun _ hu => .inl hu) h.parked
          obtain ⟨i, hi, hfailed⟩ := failed_of_outcomes houtcomes
          have hi' := (h.sound.parents p hp).2.2.2.2 i hi
          have hne : i ≠ p.1 := fun he => hi'.index (he ▸ (h.sound.parents p hp).1)
          have hnode : (s.setStatus p.1 .failed).node i = s.node i := Function.update_of_ne hne _ _
          have hexhausted := (h.failed i hfailed).exhausted hcalm
          refine ⟨(mapped_same (honly.same p.1)).mpr (h.sound.parents p hp).2.1, .inr ⟨p, hp, rfl, i, hi, ?_, ?_⟩⟩
          · rw [hnode]
            exact hfailed
          · rw [hnode]
            exact hexhausted.resolve_right fun hm => hi'.isInstance hm.1.2
      · next values houtcomes =>
          rw [houtcomes] at hsound
          refine h.of_only (only_record h.sound.apart (.list values)) (active_of_expanded hexpanded) hsound
            (fun hfailed => ?_) rfl (fun _ frame hframe _ hu => ⟨frame, hframe, hu⟩) (fun _ hu => .inl hu) h.parked
          have hnode : (s.record p.1 (.list values)).node p.1 = { s.node p.1 with status := .done } :=
            Function.update_self _ _ _
          have hfailed : ((s.record p.1 (.list values)).node p.1).status = .failed := hfailed
          rw [hnode] at hfailed
          cases hfailed

theorem settleMapped_eq {α : Type} (f : Run → α)
    (hf : ∀ (s : Run) node results, f { s with node, results } = f s) (s : Run) : f s.settleMapped.1 = f s := by
  have hparent : ∀ (s : Run) (parent : TaskId) (instances : List TaskId),
      f (s.settleMappedParent parent instances).1 = f s := by
    intro s parent instances
    unfold Run.settleMappedParent
    split
    · rfl
    · split
      · rfl
      · exact hf s _ _
      · exact hf s _ _
  have hfold : ∀ (l : List (TaskId × List TaskId)) (acc : Run × Bool),
      f (l.foldl (fun (acc : Run × Bool) p => ((acc.1.settleMappedParent p.1 p.2).1,
        acc.2 || (acc.1.settleMappedParent p.1 p.2).2)) acc).1 = f acc.1 := by
    intro l
    induction l with
    | nil => exact fun _ => rfl
    | cons p l ih => exact fun acc => (ih _).trans (hparent acc.1 p.1 p.2)
  exact hfold s.expanded (s, false)

theorem settleMapped_cancelled (s : Run) : s.settleMapped.1.cancelled = s.cancelled :=
  settleMapped_eq Run.cancelled (fun _ _ _ => rfl) s

theorem settleMapped_frames (s : Run) : s.settleMapped.1.frames = s.frames :=
  settleMapped_eq Run.frames (fun _ _ _ => rfl) s

theorem expandMapped_frames (s : Run) (t : TaskId) : (s.expandMapped t).frames = s.frames := by
  unfold Run.expandMapped
  simp only []
  split
  · split
    · rfl
    · split
      · rfl
      · rfl
  · rfl

theorem settleMappedParent_expanded (s : Run) (parent : TaskId) (instances : List TaskId) :
    (s.settleMappedParent parent instances).1.expanded = s.expanded := by
  unfold Run.settleMappedParent
  split
  · rfl
  · split
    · rfl
    · rfl
    · rfl

theorem Ordered.settleMapped (h : s.Ordered) : s.settleMapped.1.Ordered := by
  have hfold : ∀ (l : List (TaskId × List TaskId)) (acc : Run × Bool), (∀ p ∈ l, p ∈ acc.1.expanded) → acc.1.Ordered →
      (l.foldl (fun (acc : Run × Bool) p => ((acc.1.settleMappedParent p.1 p.2).1,
        acc.2 || (acc.1.settleMappedParent p.1 p.2).2)) acc).1.Ordered := by
    intro l
    induction l with
    | nil => exact fun _ _ hacc => hacc
    | cons p l ih =>
        intro acc hmem hacc
        refine ih _ (fun q hq => ?_) (hacc.settleMappedParent (hmem p List.mem_cons_self))
        rw [settleMappedParent_expanded]
        exact hmem q (List.mem_cons_of_mem _ hq)
  exact hfold s.expanded (s, false) (fun _ hp => hp) h

theorem Ordered.skip (h : s.Ordered) (ht : t ∈ s.pending) : (s.skip t).Ordered :=
  h.of_only (only_skip h.sound.apart) (active_of_pending ht) (h.sound.skip ht)
    (fun hstatus => ⟨(h.sound.of_pending ht).1, not_mem_removePending, fun _ => absurd ht (h.failed t hstatus).pending⟩) rfl
    (fun _ frame hframe _ hu => ⟨frame, hframe, hu⟩) (fun _ hu => .inl hu) h.parked

theorem Sound.unexpanded (h : s.Sound) (ht : t ∈ s.pending) : ∀ p ∈ s.expanded, p.1 ≠ t :=
  fun p hp he => (h.parents p hp).2.2.2.1 (he ▸ ht)

theorem Ordered.concludeFailed (h : s.Ordered) (ht : t ∈ s.pending) (hmapped : (s.node t).Mapped) :
    (s.conclude t .failed).Ordered := by
  have honly : Only s (s.conclude t .failed) t := only_conclude h.sound.apart .failed
  exact h.of_only honly (active_of_pending ht) (h.sound.concludeFailed ht)
    (fun _ => ⟨(h.sound.of_pending ht).1, not_mem_removePending,
      fun _ => .inr ⟨(mapped_same (honly.same t)).mpr hmapped, .inl (h.sound.unexpanded ht)⟩⟩) rfl
    (fun _ frame hframe _ hu => ⟨frame, hframe, hu⟩) (fun _ hu => .inl hu) h.parked

theorem Ordered.concludeSkipped (h : s.Ordered) (ht : t ∈ s.pending) :
    Ordered { s.conclude t .skipped with skipped := t :: s.skipped } := by
  refine h.of_only (only_concludeSkipped h.sound.apart) (active_of_pending ht) (h.sound.concludeSkipped ht) (fun hstatus => ?_) rfl
    (fun _ frame hframe _ hu => ⟨frame, hframe, hu⟩) (fun _ hu => .inl hu) h.parked
  have hnode : (s.conclude t .skipped).node t = { s.node t with status := .skipped } := node_conclude .skipped
  have hstatus : ((s.conclude t .skipped).node t).status = .failed := hstatus
  rw [hnode] at hstatus
  cases hstatus

theorem Cleared.of_node (hc : s.Cleared t) (hdeps : (s.node u).dependencies = (s.node t).dependencies)
    (hon : (s.node u).onStates = (s.node t).onStates) : s.Cleared u := by
  intro dep hdep
  obtain ⟨k, hk, hmem, hexhausted⟩ := hc dep (hdeps ▸ hdep)
  exact ⟨k, hk, hon ▸ hmem, hexhausted⟩

theorem settles_expand (h : s.Sound) (ht : t ∈ s.pending) (hmapped : (s.node t).Mapped) (dep : Nat) (items : List Value) :
    Settles s (s.expand t dep items) := by
  have hnew : ∀ u ∈ s.tasks, u ∉ instanceIds t items := fun u hu hmem => (h.fresh_instance ht hmapped hmem).2.2 hu
  refine ⟨fun u hu => List.mem_append_left _ hu, fun u hu => ?_, fun p hp => ?_, fun p hp => List.mem_append_left _ hp,
    fun u hu => ?_⟩
  · have hold : u ∈ s.tasks := by
      by_contra hnot
      exact hu (.inr (.inr (.inr (decide_eq_false hnot))))
    rw [view_expand, if_neg (hnew u hold), if_neg]
    rintro rfl
    exact hu (active_of_pending ht)
  · rcases List.mem_append.mp hp with hold | hp
    · exact .inl hold
    · rw [List.mem_singleton.mp hp]
      exact .inr (active_of_pending ht)
  · have hnode : (s.expand t dep items).node u = (s.setStatus t .expanded).node u := if_neg (hnew u hu)
    rw [hnode]
    exact (keeps_setStatus s t .expanded).node u

theorem Ordered.expand (h : s.Ordered) (ht : t ∈ s.pending) (hmapped : (s.node t).Mapped) (hc : s.Cleared t) (dep : Nat)
    (items : List Value) : (s.expand t dep items).Ordered := by
  have hview := view_expand s t dep items
  have hlisted := (h.sound.of_pending ht).1
  have hsettles := settles_expand h.sound ht hmapped dep items
  refine h.of_settles hsettles (h.sound.expand ht hmapped dep items) (fun u hu hstatus => ?_) id
    (fun _ frame hframe _ hu => .inl ⟨frame, hframe, hu⟩) (fun _ hu => .inl hu) (fun p hp => ?_) h.parked
  · have hnode : (s.expand t dep items).node u = ((s.expand t dep items).view u).node := rfl
    rw [hnode, hview] at hstatus
    split at hstatus
    · cases hstatus
    · split at hstatus
      · cases hstatus
      · exact absurd hu (h.inactive (h.kind_failed hstatus))
  · rcases List.mem_append.mp hp with hold | hp
    · exact .inl hold
    · refine .inr fun i hi => ?_
      rw [List.mem_singleton.mp hp] at hi
      have hnode : (s.expand t dep items).node i = instanceNode (s.node t) dep (i.index.getD 0)
        (items.getD (i.index.getD 0) .nil) := if_pos hi
      have hparent : (s.node t).Same ((s.expand t dep items).node t) := hsettles.same t hlisted
      refine (hsettles.cleared h hlisted hc).of_node ?_ ?_
      · rw [hnode, hparent]
        rfl
      · rw [hnode, hparent]
        rfl

theorem Ordered.expandMapped (h : s.Ordered) (ht : t ∈ s.pending) (hmapped : (s.node t).Mapped) (hc : s.Cleared t) :
    (s.expandMapped t).Ordered := by
  unfold Run.expandMapped
  simp only []
  split
  · split
    · exact h.concludeFailed ht hmapped
    · split
      · exact h.concludeSkipped ht
      · exact h.expand ht hmapped hc _ _
  · exact h.concludeFailed ht hmapped

theorem Ordered.ends (h : s.Ordered) (thread flight : Nat) (ending : Ending) (swept : Bool)
    (hfits : s.Fits (.ends thread flight ending swept)) : (s.ends thread flight ending swept).Ordered := by
  unfold Run.ends
  split
  · exact h
  · next t htask =>
      have ht := mem_of_taskOf htask
      simp only []
      cases ending with
      | waits => exact h.pauseForWait ht
      | returned v => exact h.complete ht thread v swept fun hworkers => hfits hworkers trivial t htask
      | errorValue v =>
          simp only []
          split
          · exact h.failTask ht thread swept
          · next hflow =>
              have hrecorded : s.Recorded (.errorValue v) := Bool.eq_false_iff.mpr hflow
              exact h.complete ht thread v swept fun hworkers => hfits hworkers hrecorded t htask
      | raised => exact h.failTask ht thread swept

/-- A body that ends so has failed. -/
def Fails (s : Run) : Ending → Prop
  | .raised => True
  | .errorValue _ => s.flow = true
  | .returned _ | .waits => False

instance (s : Run) : (ending : Ending) → Decidable (s.Fails ending)
  | .raised => isTrue trivial
  | .errorValue _ => inferInstanceAs (Decidable (_ = _))
  | .returned _ | .waits => isFalse id

/-- A run that has been found cancelled is found cancelled again, and the guard of a task whose body is to be retried still
holds. -/
def Heeds (s : Run) : Act → Prop
  | .turn _ cancelled => s.cancelled = true → cancelled = true
  | .ends _ flight ending _ => s.Fails ending → ∀ t ∈ s.taskOf flight,
      (s.node t).attempts ≤ (s.node t).maxRetries → s.guardHolds t = true
  | .checkpoint _ | .cached _ _ => True

instance (s : Run) : (act : Act) → Decidable (s.Heeds act)
  | .turn _ _ => inferInstanceAs (Decidable (_ → _))
  | .ends _ _ _ _ => inferInstanceAs (Decidable (_ → ∀ t ∈ _, _ → _))
  | .checkpoint _ | .cached _ _ => isTrue trivial

theorem Heeds.again {act : Act} (h : s.Heeds act) :
    ∀ thread cancelled, act = .turn thread cancelled → s.cancelled = true → cancelled = true := by
  rintro thread cancelled rfl
  exact h

theorem Ordered.cleared_of_ready (h : s.Ordered) (hcalm : s.cancelled = false) (ht : t ∈ s.readyTasks) : s.Cleared t := by
  intro dep hdep
  obtain ⟨k, hk, hon⟩ := depSatisfied_iff.mp ((mem_readyTasks.mp ht).2.2 dep hdep)
  refine ⟨k, hk, hon, fun hfailed => ?_⟩
  have hstatus : (s.node dep).status = .failed := status_of_kind (hfailed ▸ hk)
  exact (h.failed dep hstatus).exhausted hcalm

theorem Ordered.turn (h : s.Ordered) (thread : Nat) (cancelled : Bool) (hfits : s.Fits (.turn thread cancelled))
    (hagain : s.cancelled = true → cancelled = true) : (s.turn thread cancelled).Ordered := by
  unfold Run.turn
  split
  · exact h
  · next outer hframes =>
      refine h.setFrames fun frame hframe t ht => ⟨frame, ?_, ht⟩
      rw [hframes]
      exact List.mem_cons_of_mem _ hframe
  · next outer hframes =>
      have houter : ∀ frame ∈ outer, frame ∈ s.frames thread := fun frame hframe => by
        rw [hframes]
        exact List.mem_cons_of_mem _ hframe
      split
      · refine h.cancelInflight.setFrames fun frame hframe t ht => ⟨frame, ?_, ht⟩
        have hsame : s.cancelInflight.frames = s.frames := by
          unfold Run.cancelInflight
          split
          · rfl
          · rfl
        rw [hsame]
        exact houter frame hframe
      · next hcancelled =>
          have hpass := h.settleMapped
          have hcalm : s.settleMapped.1.cancelled = false := by
            rw [settleMapped_cancelled]
            cases hc : s.cancelled with
            | false => rfl
            | true => exact absurd (hagain hc) hcancelled
          refine hpass.of_settles (agrees_setFrames _ _ _).settles ((agrees_setFrames _ _ _).sound hpass.sound)
            (fun u hu hstatus => absurd hu (hpass.inactive (hpass.kind_failed hstatus))) id
            (fun thread' frame hframe t ht => ?_) (fun _ hu => .inl hu) (fun _ hp => .inl hp) hpass.parked
          rcases mem_setFrames hframe with ⟨rfl, hnew⟩ | hold
          · rcases List.mem_cons.mp hnew with rfl | hnew
            · exact .inr ⟨(mem_readyTasks.mp ht).1, hpass.cleared_of_ready hcalm ht⟩
            · refine .inl ⟨frame, ?_, ht⟩
              rw [settleMapped_frames]
              exact houter frame hnew
          · exact .inl ⟨frame, hold, ht⟩
  · next t rest again outer hframes =>
      have ht : t ∈ s.pending := hfits t (by simp [next, hframes])
      have hhead : (⟨t :: rest, again⟩ : Frame) ∈ s.frames thread := hframes ▸ List.mem_cons_self
      have hc : s.Cleared t := (h.frames thread _ hhead t List.mem_cons_self).2
      have hrest : ∀ again', ∀ frame ∈ (⟨rest, again'⟩ : Frame) :: outer, ∀ u ∈ frame.rest,
          ∃ frame' ∈ s.frames thread, u ∈ frame'.rest := by
        intro again' frame hframe u hu
        rcases List.mem_cons.mp hframe with rfl | hframe
        · exact ⟨_, hhead, List.mem_cons_of_mem _ hu⟩
        · exact ⟨frame, by rw [hframes]; exact List.mem_cons_of_mem _ hframe, hu⟩
      split
      · exact (h.skip ht).setFrames (hrest true)
      · split
        · next hmapped =>
            refine (h.expandMapped ht hmapped hc).setFrames fun frame hframe u hu => ?_
            rw [expandMapped_frames]
            exact hrest true frame hframe u hu
        · next hmapped => exact (h.setFrames (hrest again)).spawnTask ht hmapped hc thread

theorem Ordered.perform (h : s.Ordered) (act : Act) (hfits : s.Fits act)
    (hagain : ∀ thread cancelled, act = .turn thread cancelled → s.cancelled = true → cancelled = true) :
    (s.perform act).Ordered := by
  unfold Run.perform
  split
  · exact h
  · cases act with
    | turn thread cancelled => exact h.turn thread cancelled hfits (hagain thread cancelled rfl)
    | ends thread flight ending swept => exact h.ends thread flight ending swept hfits
    | checkpoint label =>
        exact h.of_agrees ⟨rfl, rfl, rfl, rfl, rfl, rfl, rfl, rfl, rfl, rfl⟩ rfl (fun _ frame hframe _ hu => ⟨frame, hframe, hu⟩)
          h.parked
    | cached key v =>
        exact h.of_agrees ⟨rfl, rfl, rfl, rfl, rfl, rfl, rfl, rfl, rfl, rfl⟩ rfl (fun _ frame hframe _ hu => ⟨frame, hframe, hu⟩)
          h.parked

/-! ### Starts -/

/-- A dependency has settled in a state that the task accepts: it has a recorded result, or it has failed and no attempt is
left, or it is skipped; and no attempt of it is pending or running. -/
structure SettledFor (s : Run) (t dep : TaskId) : Prop where
  pending : dep ∉ s.pending
  running : dep ∉ s.running.map Prod.snd
  accepted : s.results dep ≠ none ∧ .completed ∈ (s.node t).onStates ∨
    s.results dep = none ∧ (s.node dep).status = .failed ∧ s.Exhausted dep ∧ .failed ∈ (s.node t).onStates ∨
    s.results dep = none ∧ dep ∈ s.skipped ∧ .skipped ∈ (s.node t).onStates

/-- The dependencies of the task have settled, its guard holds, and nothing waits for an answer. -/
structure StartsAfter (s : Run) (t : TaskId) : Prop where
  settled : ∀ dep ∈ (s.node t).dependencies, s.SettledFor t dep
  guard : s.guardHolds t = true
  parked : s.parked = []

theorem Ordered.settledFor (h : s.Ordered) (hc : s.Accepts t dep) : s.SettledFor t dep := by
  obtain ⟨k, hk, hon, hexhausted⟩ := hc
  have hinactive := h.inactive hk
  refine ⟨fun hp => hinactive (active_of_pending hp), fun hr => hinactive (active_of_running hr), ?_⟩
  unfold kind at hk
  split at hk
  · next hresult =>
      cases hk
      exact .inl ⟨Option.isSome_iff_ne_none.mp hresult, hon⟩
  · next hresult =>
      have hnone : s.results dep = none := Option.not_isSome_iff_eq_none.mp hresult
      split at hk
      · next hstatus =>
          cases hk
          exact .inr (.inl ⟨hnone, hstatus, hexhausted rfl, hon⟩)
      · split at hk
        · next hskipped =>
            cases hk
            exact .inr (.inr ⟨hnone, hskipped, hon⟩)
        · cases hk

theorem Ordered.startsAfter (h : s.Ordered) (hc : s.Cleared t) (hguard : s.guardHolds t = true) (hwaiting : s.waiting = none) :
    s.StartsAfter t := by
  refine ⟨fun dep hdep => h.settledFor (hc dep hdep), hguard, ?_⟩
  by_contra hparked
  have hsome := h.parked hparked
  rw [hwaiting] at hsome
  cases hsome

theorem starts_spawnTask (s : Run) (thread : Nat) (t : TaskId) : (s.spawnTask thread t).starts = s.starts ∨
    (s.spawnTask thread t).starts = t :: s.starts ∧ s.waiting = none := by
  unfold spawnTask
  split
  · exact .inl rfl
  · next hwaiting =>
      have hnone : s.waiting = none := Option.not_isSome_iff_eq_none.mp hwaiting
      split
      · exact .inl rfl
      · split
        · exact .inr ⟨rfl, hnone⟩
        · exact .inr ⟨rfl, hnone⟩

theorem starts_failTask (s : Run) (thread : Nat) (t : TaskId) (swept : Bool) : (s.failTask thread t swept).starts = s.starts ∨
    (s.failTask thread t swept).starts = t :: s.starts ∧ s.waiting = none ∧ (s.node t).attempts ≤ (s.node t).maxRetries := by
  have hmark : ∀ x : Run, (x.markPending t).starts = x.starts ∧ (x.markPending t).waiting = x.waiting := by
    intro x
    unfold markPending
    split
    · exact ⟨rfl, rfl⟩
    · exact ⟨rfl, rfl⟩
  unfold failTask
  split
  · next hattempts =>
      split
      · exact .inl (hmark _).1
      · have hx := hmark (s.setStatus t .retrying)
        rcases starts_spawnTask ((s.setStatus t .retrying).markPending t) thread t with hsame | ⟨hnew, hwaiting⟩
        · exact .inl (hsame.trans hx.1)
        · refine .inr ⟨?_, ?_, hattempts⟩
          · rw [hnew, hx.1]
            rfl
          · rwa [hx.2] at hwaiting
  · split
    · exact .inl rfl
    · split
      · exact .inl rfl
      · exact .inl rfl

theorem starts_ends (s : Run) (thread flight : Nat) (ending : Ending) (swept : Bool)
    (hfits : s.Fits (.ends thread flight ending swept)) : (s.ends thread flight ending swept).starts = s.starts ∨
    ∃ t, s.taskOf flight = some t ∧ (s.ends thread flight ending swept).starts = t :: s.starts ∧ s.waiting = none ∧
      s.Fails ending ∧ (s.node t).attempts ≤ (s.node t).maxRetries := by
  unfold ends
  split
  · exact .inl rfl
  · next t htask =>
      have hcomplete : ∀ v, (s.workers = true → ¬ s.KeyMissing t) →
          ((s.pop flight).complete thread t v swept).starts = s.starts := by
        intro v hkey
        unfold complete
        simp only []
        split
        · next hmissing =>
            split
            · next hworkers => exact absurd (keyMissing_of_record hmissing) (hkey hworkers)
            · rfl
        · unfold storeCached
          split
          · rfl
          · rfl
      have hfail : ∀ ending : Ending, s.Fails ending → ((s.pop flight).failTask thread t swept).starts = s.starts ∨
          ∃ u, some t = some u ∧ ((s.pop flight).failTask thread t swept).starts = u :: s.starts ∧ s.waiting = none ∧
            s.Fails ending ∧ (s.node u).attempts ≤ (s.node u).maxRetries := by
        intro ending hfails
        rcases starts_failTask (s.pop flight) thread t swept with hsame | ⟨hnew, hwaiting, hattempts⟩
        · exact .inl hsame
        · exact .inr ⟨t, rfl, hnew, hwaiting, hfails, hattempts⟩
      simp only [htask]
      cases ending with
      | waits => exact .inl rfl
      | returned v => exact .inl (hcomplete v fun hworkers => hfits hworkers trivial t htask)
      | errorValue v =>
          simp only []
          split
          · next hflow => exact hfail (.errorValue v) hflow
          · next hflow =>
              have hrecorded : s.Recorded (.errorValue v) := Bool.eq_false_iff.mpr hflow
              exact .inl (hcomplete v fun hworkers => hfits hworkers hrecorded t htask)
      | raised => exact hfail .raised trivial

theorem starts_turn (s : Run) (thread : Nat) (cancelled : Bool) : (s.turn thread cancelled).starts = s.starts ∨
    ∃ t rest again outer, s.frames thread = ⟨t :: rest, again⟩ :: outer ∧
      (s.turn thread cancelled).starts = t :: s.starts ∧ s.waiting = none ∧ s.guardHolds t = true := by
  unfold turn
  split
  · exact .inl rfl
  · exact .inl rfl
  · split
    · unfold cancelInflight
      split
      · exact .inl rfl
      · exact .inl rfl
    · exact .inl (settleMapped_eq Run.starts (fun _ _ _ => rfl) s)
  · next t rest again outer hframes =>
      split
      · exact .inl rfl
      · next hguard =>
          have hguard : s.guardHolds t = true := by simpa using hguard
          split
          · left
            unfold expandMapped
            simp only []
            split
            · split
              · rfl
              · split
                · rfl
                · rfl
            · rfl
          · rcases starts_spawnTask (s.setFrames thread (⟨rest, again⟩ :: outer)) thread t with hsame | ⟨hnew, hwaiting⟩
            · exact .inl hsame
            · exact .inr ⟨t, rest, again, outer, hframes, hnew, hwaiting, hguard⟩

theorem Ordered.starts (h : s.Ordered) (act : Act) (hfits : s.Fits act) (hheeds : s.Heeds act) :
    (s.perform act).starts = s.starts ∨ ∃ t, (s.perform act).starts = t :: s.starts ∧ s.StartsAfter t := by
  unfold Run.perform
  split
  · exact .inl rfl
  · cases act with
    | turn thread cancelled =>
        refine (starts_turn s thread cancelled).imp id ?_
        rintro ⟨t, rest, again, outer, hframes, hnew, hwaiting, hguard⟩
        have hhead : (⟨t :: rest, again⟩ : Frame) ∈ s.frames thread := hframes ▸ List.mem_cons_self
        exact ⟨t, hnew, h.startsAfter (h.frames thread _ hhead t List.mem_cons_self).2 hguard hwaiting⟩
    | ends thread flight ending swept =>
        refine (starts_ends s thread flight ending swept hfits).imp id ?_
        rintro ⟨t, htask, hnew, hwaiting, hfails, hattempts⟩
        have hmem : t ∈ s.running.map Prod.snd := List.mem_map_of_mem (mem_of_taskOf htask)
        exact ⟨t, hnew, h.startsAfter (h.running t hmem) (hheeds hfails t htask hattempts) hwaiting⟩
    | checkpoint label => exact .inl rfl
    | cached key v => exact .inl rfl

/-! ### Fresh and resumed runs -/

section starts

variable {node : TaskId → TaskNode} {tasks parked : List TaskId} {savedTasks : TaskId → Option SavedTask}

theorem node_restored (s : Run) (t : TaskId) (attempts : Nat) (status : TaskStatus) (u : TaskId) :
    ((s.setNode t fun node => { node with attempts }).setStatus t status).node u =
      if u = t then { s.node t with status, attempts } else s.node u := by
  show Function.update (Function.update s.node t _) t _ u = _
  by_cases hu : u = t
  · rw [hu, if_pos rfl, Function.update_self]
    show { Function.update s.node t _ t with status } = _
    rw [Function.update_self]
  · rw [if_neg hu, Function.update_of_ne hu, Function.update_of_ne hu]

theorem Restored.put (h : Restored node tasks s) (ht : s.results t = none) (attempts : Nat) {status : TaskStatus}
    (hstatus : status = .pending ∨ status = .failed) :
    Restored node tasks ((s.setNode t fun node => { node with attempts }).setStatus t status) := by
  refine ⟨h.listed, fun u => ?_, fun u => ?_, h.nodup, h.pending, fun u hr => ?_, h.running, h.skipped, h.expanded, h.starts,
    h.retries⟩
  · rw [node_restored]
    split
    · next hu =>
        rw [hu]
        exact same_trans (h.same t) rfl
    · exact h.same u
  · rw [node_restored]
    split
    · exact hstatus.imp id .inl
    · exact h.status u
  · rw [node_restored]
    split
    · next hu =>
        rw [hu] at hr
        exact absurd ht hr
    · exact h.results u hr

theorem Restored.removePending (h : Restored node tasks s) (t : TaskId) : Restored node tasks (s.removePending t) :=
  ⟨h.listed, h.same, h.status, h.nodup.filter _, fun u hu => h.pending u (mem_filter_ne.mp hu).1, h.results, h.running,
    h.skipped, h.expanded, h.starts, h.retries⟩

theorem Restored.complete (h : Restored node tasks s) (ht : t ∈ tasks) (attempts : Nat) (v : Value) :
    Restored node tasks { ((s.setNode t fun node => { node with attempts }).setStatus t .completed).removePending t with
      results := Function.update s.results t (some v) } := by
  have hnode := node_restored s t attempts .completed
  have hresult : ∀ u, Function.update s.results t (some v) u = if u = t then some v else s.results u :=
    fun u => Function.update_apply s.results t (some v) u
  refine ⟨h.listed, fun u => ?_, fun u => ?_, h.nodup.filter _, fun u hu => ?_, fun u hr => ?_, h.running, h.skipped,
    h.expanded, h.starts, h.retries⟩
  · show (node u).Same (((s.setNode t fun node => { node with attempts }).setStatus t .completed).node u)
    rw [hnode]
    split
    · next hu =>
        rw [hu]
        exact same_trans (h.same t) rfl
    · exact h.same u
  · show (((s.setNode t fun node => { node with attempts }).setStatus t .completed).node u).status = _ ∨
      (((s.setNode t fun node => { node with attempts }).setStatus t .completed).node u).status = _ ∨
        (((s.setNode t fun node => { node with attempts }).setStatus t .completed).node u).status = _ ∧
          Function.update s.results t (some v) u ≠ none
    rw [hnode, hresult]
    split
    · exact .inr (.inr ⟨rfl, Option.some_ne_none v⟩)
    · exact h.status u
  · obtain ⟨hmem, hne⟩ := mem_filter_ne.mp hu
    refine ⟨(h.pending u hmem).1, ?_⟩
    show Function.update s.results t (some v) u = none
    rw [hresult, if_neg hne]
    exact (h.pending u hmem).2
  · have hr : Function.update s.results t (some v) u ≠ none := hr
    show u ∈ tasks ∧ (((s.setNode t fun node => { node with attempts }).setStatus t .completed).node u).status = _
    rw [hnode]
    rw [hresult] at hr
    split
    · next hu => exact ⟨hu ▸ ht, rfl⟩
    · next hu =>
        rw [if_neg hu] at hr
        exact h.results u hr

/-- A task has a result only if it was saved as done, and counts as failed only if it was saved as failed. -/
structure RestoredFrom (savedTasks : TaskId → Option SavedTask) (node : TaskId → TaskNode) (tasks parked : List TaskId)
    (s : Run) : Prop where
  restored : Restored node tasks s
  done : ∀ t, s.results t ≠ none → ∃ task, savedTasks t = some task ∧ (task.state = .completed ∨ task.state = .done)
  failing : ∀ t, (s.node t).status = .failed → t ∈ tasks ∧ ∃ task, savedTasks t = some task ∧ task.state = .failed
  blamed : s.failed = true → ∃ t ∈ tasks, (s.node t).status = .failed ∧ (s.node t).allowFailure = false
  tolerant : s.failed = false → ∀ t, (s.node t).status = .failed → (s.node t).allowFailure = true
  parked : s.parked = parked
  frames : s.frames = fun _ => []

theorem RestoredFrom.restoreTask (h : RestoredFrom savedTasks node tasks parked s) (ht : t ∈ tasks) :
    RestoredFrom savedTasks node tasks parked (s.restoreTask savedTasks t) := by
  unfold Run.restoreTask
  split
  · exact h
  · next hcalm =>
    split
    · exact h
    · next task htask =>
        have hsaved : s.results t ≠ none → task.state = .completed ∨ task.state = .done := by
          intro hne
          obtain ⟨task', htask', hstate⟩ := h.done t hne
          have hsame : task' = task := Option.some.inj (htask'.symm.trans htask)
          exact hsame ▸ hstate
        have hstatus : ∀ status : TaskStatus, (status = .failed → task.state = .failed) → ∀ u,
            (((s.setNode t fun node => { node with attempts := task.attempts }).setStatus t status).node u).status = .failed →
              u ∈ tasks ∧ ∃ task, savedTasks u = some task ∧ task.state = .failed := by
          intro status hfailed u hu
          rw [node_restored] at hu
          split at hu
          · next hut =>
              rw [hut]
              exact ⟨ht, task, htask, hfailed hu⟩
          · exact h.failing u hu
        have htolerant : ∀ status : TaskStatus, (status = .failed → (s.node t).allowFailure = true) → ∀ u,
            (((s.setNode t fun node => { node with attempts := task.attempts }).setStatus t status).node u).status = .failed →
              (((s.setNode t fun node => { node with attempts := task.attempts }).setStatus t status).node u).allowFailure =
                true := by
          intro status hallow u hu
          rw [node_restored] at hu ⊢
          by_cases hut : u = t
          · rw [if_pos hut] at hu ⊢
            exact hallow hu
          · rw [if_neg hut] at hu ⊢
            exact h.tolerant (Bool.eq_false_iff.mpr hcalm) u hu
        have hdone : task.state = .completed ∨ task.state = .done → RestoredFrom savedTasks node tasks parked
            { ((s.setNode t fun node => { node with attempts := task.attempts }).setStatus t .completed).removePending t with
              results := Function.update s.results t (some (task.result.getD .nil)) } := by
          intro hstate
          refine ⟨h.restored.complete ht task.attempts _, fun u hu => ?_, hstatus .completed (fun he => by cases he),
            fun hfailed => absurd hfailed hcalm, fun _ => htolerant .completed fun he => (by cases he), h.parked, h.frames⟩
          have hu : Function.update s.results t (some (task.result.getD .nil)) u ≠ none := hu
          by_cases hut : u = t
          · exact hut ▸ ⟨task, htask, hstate⟩
          · rw [Function.update_of_ne hut] at hu
            exact h.done u hu
        simp only []
        split
        · next hstate => exact hdone (.inl hstate)
        · next hstate => exact hdone (.inr hstate)
        · next hstate =>
            have hresult : s.results t = none := by
              by_contra hne
              rcases hsaved hne with hs | hs
              · exact absurd (hstate.symm.trans hs) (by decide)
              · exact absurd (hstate.symm.trans hs) (by decide)
            have hput := h.restored.put hresult task.attempts (.inr rfl)
            split
            · next hallow =>
              exact ⟨hput.removePending t, h.done, hstatus .failed fun _ => hstate, fun hfailed => absurd hfailed hcalm,
                fun _ => htolerant .failed fun _ => hallow, h.parked, h.frames⟩
            · next hallow =>
              refine ⟨⟨hput.listed, hput.same, hput.status, hput.nodup, hput.pending, hput.results, hput.running, hput.skipped,
                hput.expanded, hput.starts, hput.retries⟩, h.done, hstatus .failed fun _ => hstate, fun _ => ⟨t, ht, ?_⟩,
                fun hfailed => absurd hfailed.symm Bool.false_ne_true, h.parked, h.frames⟩
              show (((s.setNode t fun node => { node with attempts := task.attempts }).setStatus t .failed).node t).status = _ ∧
                (((s.setNode t fun node => { node with attempts := task.attempts }).setStatus t .failed).node t).allowFailure = _
              rw [node_restored, if_pos rfl]
              exact ⟨rfl, Bool.eq_false_iff.mpr hallow⟩
        · next hcompleted hdone _ =>
            have hresult : s.results t = none := by
              by_contra hne
              rcases hsaved hne with hs | hs
              · exact hcompleted hs
              · exact hdone hs
            exact ⟨h.restored.put hresult task.attempts (.inl rfl), h.done, hstatus .pending (fun he => by cases he),
              fun hfailed => absurd hfailed hcalm, fun _ => htolerant .pending fun he => (by cases he), h.parked, h.frames⟩

theorem RestoredFrom.markPending (h : RestoredFrom savedTasks node tasks parked s) (ht : t ∈ tasks)
    (hresult : s.results t = none) : RestoredFrom savedTasks node tasks parked (s.markPending t) := by
  unfold Run.markPending
  split
  · exact h
  · next hnew =>
      have hr := h.restored
      refine ⟨⟨hr.listed, hr.same, hr.status, ?_, fun u hu => ?_, hr.results, hr.running, hr.skipped, hr.expanded, hr.starts,
        hr.retries⟩, h.done, h.failing, h.blamed, h.tolerant, h.parked, h.frames⟩
      · refine List.nodup_append.mpr ⟨hr.nodup, List.nodup_singleton t, fun u hu v hv => ?_⟩
        rw [List.mem_singleton.mp hv]
        rintro rfl
        exact hnew hu
      · rcases List.mem_append.mp hu with hu | hu
        · exact hr.pending u hu
        · rw [List.mem_singleton.mp hu]
          exact ⟨ht, hresult⟩

theorem markPending_results (s : Run) (t : TaskId) : (s.markPending t).results = s.results := by
  unfold Run.markPending
  split
  · rfl
  · rfl

theorem markUnrecorded_failed (s : Run) : s.markUnrecorded.failed = s.failed := by
  have hfold : ∀ (l : List TaskId) (s : Run),
      (l.foldl (fun s t => if (s.results t).isNone then s.markPending t else s) s).failed = s.failed := by
    intro l
    induction l with
    | nil => exact fun _ => rfl
    | cons t l ih =>
        intro s
        rw [List.foldl_cons, ih]
        split
        · unfold Run.markPending
          split
          · rfl
          · rfl
        · rfl
  exact hfold s.tasks s

theorem RestoredFrom.markUnrecorded (h : RestoredFrom savedTasks node tasks parked s) :
    RestoredFrom savedTasks node tasks parked s.markUnrecorded ∧
      ∀ t ∈ tasks, s.markUnrecorded.results t = none → t ∈ s.markUnrecorded.pending := by
  let mark : List TaskId → Run → Run := fun l s => l.foldl (fun s t => if (s.results t).isNone then s.markPending t else s) s
  have hresults : ∀ (l : List TaskId) (s : Run), (mark l s).results = s.results := by
    intro l
    induction l with
    | nil => exact fun _ => rfl
    | cons t l ih =>
        intro s
        refine (ih _).trans ?_
        show (if (s.results t).isNone then s.markPending t else s).results = s.results
        split
        · exact markPending_results s t
        · rfl
  have hfold : ∀ (l : List TaskId) (s : Run), (∀ t ∈ l, t ∈ tasks) → RestoredFrom savedTasks node tasks parked s →
      RestoredFrom savedTasks node tasks parked (mark l s) ∧ (∀ u ∈ s.pending, u ∈ (mark l s).pending) ∧
        ∀ t ∈ l, s.results t = none → t ∈ (mark l s).pending := by
    intro l
    induction l with
    | nil => exact fun s _ h => ⟨h, fun _ hu => hu, fun t ht => by cases ht⟩
    | cons t l ih =>
        intro s hl h
        have hmem : ∀ u ∈ l, u ∈ tasks := fun u hu => hl u (List.mem_cons_of_mem _ hu)
        by_cases hnone : s.results t = none
        · have hstep : mark (t :: l) s = mark l (s.markPending t) := by
            show mark l (if (s.results t).isNone then s.markPending t else s) = _
            rw [if_pos (Option.isNone_iff_eq_none.mpr hnone)]
          obtain ⟨hrest, hkept, hcovered⟩ := ih (s.markPending t) hmem (h.markPending (hl t List.mem_cons_self) hnone)
          rw [hstep]
          refine ⟨hrest, fun u hu => hkept u (mem_markPending.mpr (.inl hu)), fun u hu hr => ?_⟩
          rcases List.mem_cons.mp hu with rfl | hu
          · exact hkept u (mem_markPending.mpr (.inr rfl))
          · exact hcovered u hu (by rwa [markPending_results])
        · have hstep : mark (t :: l) s = mark l s := by
            show mark l (if (s.results t).isNone then s.markPending t else s) = _
            rw [if_neg (mt Option.isNone_iff_eq_none.mp hnone)]
          obtain ⟨hrest, hkept, hcovered⟩ := ih s hmem h
          rw [hstep]
          refine ⟨hrest, hkept, fun u hu hr => ?_⟩
          rcases List.mem_cons.mp hu with rfl | hu
          · exact absurd hr hnone
          · exact hcovered u hu hr
  have hlisted : s.tasks = tasks := h.restored.listed
  have hmark : s.markUnrecorded = mark tasks s := by rw [← hlisted]; rfl
  obtain ⟨hrestored, -, hcovered⟩ := hfold tasks s (fun _ ht => ht) h
  rw [hmark]
  exact ⟨hrestored, fun t ht hr => hcovered t ht (hresults tasks s ▸ hr)⟩

/-- A run that begins: a fresh one, or a resumed one of which no task was saved as failed, and all that was waited for has
been answered. -/
inductive Begins (node : TaskId → TaskNode) (tasks : List TaskId) : Run → Prop
  | fresh (workers flow : Bool) : Begins node tasks (fresh node tasks workers flow)
  | resumed (workers flow : Bool) (savedTasks : TaskId → Option SavedTask) (storedPending : Option (List TaskId))
      (order : TaskId → Nat) (labels : List String) (hsaved : ∀ t ∈ tasks, ∀ task ∈ savedTasks t, task.state ≠ .failed) :
      Begins node tasks (resumed node tasks workers flow savedTasks storedPending order labels [])

theorem Restored.ordered (h : Restored node tasks s) (hunrun : Unrun node tasks)
    (hcovered : ∀ t ∈ tasks, s.results t = none → t ∈ s.pending) (hcalm : ∀ t, (s.node t).status ≠ .failed)
    (hframes : ∀ thread, ∀ frame ∈ s.frames thread, frame.rest = []) (hparked : s.parked = []) : s.Ordered := by
  refine ⟨h.sound hunrun hcovered, fun t ht => absurd ht (hcalm t), fun thread frame hframe t ht => ?_, fun t ht => ?_,
    fun p hp => ?_, fun hne => absurd hparked hne⟩
  · rw [hframes thread frame hframe] at ht
    cases ht
  · rw [h.running] at ht
    cases ht
  · rw [h.expanded] at hp
    cases hp

theorem RestoredFrom.restoreTasks (h : RestoredFrom savedTasks node tasks parked s) :
    RestoredFrom savedTasks node tasks parked (tasks.foldl (Run.restoreTask savedTasks) s) := by
  have hfold : ∀ (l : List TaskId) (s : Run), (∀ t ∈ l, t ∈ tasks) → RestoredFrom savedTasks node tasks parked s →
      RestoredFrom savedTasks node tasks parked (l.foldl (Run.restoreTask savedTasks) s) := by
    intro l
    induction l with
    | nil => exact fun _ _ h => h
    | cons t l ih =>
        exact fun s hl h => ih _ (fun u hu => hl u (List.mem_cons_of_mem _ hu)) (h.restoreTask (hl t List.mem_cons_self))
  exact hfold tasks s (fun _ ht => ht) h

theorem rest_of_first (thread : Nat) (frame : Frame) (h : frame ∈ if thread = 0 then [({} : Frame)] else []) :
    frame.rest = [] := by
  split at h
  · rw [List.mem_singleton.mp h]
  · cases h

theorem resumed_cases (hunrun : Unrun node tasks) (workers flow : Bool) (savedTasks : TaskId → Option SavedTask)
    (storedPending : Option (List TaskId)) (order : TaskId → Nat) (labels : List String) (parked : List TaskId) : ∃ x, RestoredFrom savedTasks node tasks parked x ∧
      (x.failed = true ∧
          resumed node tasks workers flow savedTasks storedPending order labels parked = x ∨
        x.failed = false ∧ (∀ t ∈ tasks, x.results t = none → t ∈ x.pending) ∧
          resumed node tasks workers flow savedTasks storedPending order labels parked =
            { x with frames := fun thread => if thread = 0 then [{}] else [] }) := by
  have hpending : ∀ pending : List TaskId, pending.Nodup → (∀ t ∈ pending, t ∈ tasks) →
      ∃ x, RestoredFrom savedTasks node tasks parked x ∧
        let y : Run := tasks.foldl (Run.restoreTask savedTasks) { node, tasks, workers, flow, pending, order, labels, parked }
        let z := if y.failed then y else { y.markUnrecorded with frames := fun thread => if thread = 0 then [{}] else [] }
        x.failed = true ∧ z = x ∨ x.failed = false ∧ (∀ t ∈ tasks, x.results t = none → t ∈ x.pending) ∧
          z = { x with frames := fun thread => if thread = 0 then [{}] else [] } := by
    intro pending hnodup hlisted
    have hbase : RestoredFrom savedTasks node tasks parked { node, tasks, workers, flow, pending, order, labels, parked } :=
      ⟨⟨rfl, fun _ => same_refl _, fun t => .inl (hunrun.1 t).1, hnodup, fun t ht => ⟨hlisted t ht, rfl⟩,
        fun _ hr => absurd rfl hr, rfl, rfl, rfl, rfl, rfl⟩, fun _ hr => absurd rfl hr,
        fun t ht => absurd ((hunrun.1 t).1.symm.trans ht) (by decide), fun hfailed => absurd hfailed Bool.false_ne_true,
        fun _ t ht => absurd ((hunrun.1 t).1.symm.trans ht) (by decide), rfl, rfl⟩
    have hfolded := hbase.restoreTasks
    cases hfailed : (tasks.foldl (Run.restoreTask savedTasks)
      { node, tasks, workers, flow, pending, order, labels, parked }).failed with
    | true => exact ⟨_, hfolded, .inl ⟨hfailed, if_pos hfailed⟩⟩
    | false =>
        obtain ⟨hmarked, hcovered⟩ := hfolded.markUnrecorded
        refine ⟨_, hmarked, .inr ⟨?_, hcovered, if_neg (by rw [hfailed]; decide)⟩⟩
        rw [markUnrecorded_failed]
        exact hfailed
  cases storedPending with
  | none => exact hpending tasks.dedup (List.nodup_dedup _) fun t ht => List.mem_dedup.mp ht
  | some stored =>
      exact hpending (stored.filter (· ∈ tasks)).dedup (List.nodup_dedup _)
        fun t ht => of_decide_eq_true (List.mem_filter.mp (List.mem_dedup.mp ht)).2

theorem Begins.ordered (hb : Begins node tasks s) (hunrun : Unrun node tasks) : s.Ordered := by
  cases hb with
  | fresh workers flow =>
      exact (restored_fresh hunrun workers flow).ordered hunrun (fun t ht _ => List.mem_dedup.mpr ht)
        (fun t ht => absurd ((hunrun.1 t).1.symm.trans ht) (by decide)) rest_of_first rfl
  | resumed workers flow savedTasks storedPending order labels hsaved =>
      obtain ⟨x, hx, hcases⟩ := resumed_cases hunrun workers flow savedTasks storedPending order labels []
      have hcalm : ∀ t, (x.node t).status ≠ .failed := by
        intro t ht
        obtain ⟨hlisted, task, htask, hstate⟩ := hx.failing t ht
        exact hsaved t hlisted task htask hstate
      rcases hcases with ⟨hfailed, -⟩ | ⟨-, hcovered, he⟩
      · obtain ⟨t, -, ht, -⟩ := hx.blamed hfailed
        exact absurd ht (hcalm t)
      · have hr := hx.restored
        rw [he]
        exact Restored.ordered ⟨hr.listed, hr.same, hr.status, hr.nodup, hr.pending, hr.results, hr.running, hr.skipped,
          hr.expanded, hr.starts, hr.retries⟩ hunrun hcovered hcalm rest_of_first hx.parked

/-- Every step of a run fits and heeds. -/
def AllHeed (s : Run) : List Act → Prop
  | [] => True
  | act :: acts => (s.Fits act ∧ s.Heeds act) ∧ (s.perform act).AllHeed acts

instance decidableAllHeed (s : Run) : (acts : List Act) → Decidable (s.AllHeed acts)
  | [] => isTrue trivial
  | act :: acts => @instDecidableAnd _ _ _ (decidableAllHeed (s.perform act) acts)

theorem AllHeed.append {acts acts' : List Act} (h : s.AllHeed (acts ++ acts')) :
    s.AllHeed acts ∧ (s.run acts).AllHeed acts' := by
  induction acts generalizing s with
  | nil => exact ⟨trivial, h⟩
  | cons act acts ih => exact ⟨⟨h.1, (ih h.2).1⟩, (ih h.2).2⟩

theorem Ordered.run (h : s.Ordered) (acts : List Act) (hacts : s.AllHeed acts) : (s.run acts).Ordered := by
  induction acts generalizing s with
  | nil => exact h
  | cons act acts ih => exact ih (h.perform act hacts.1.1 (Heeds.again hacts.1.2)) hacts.2

/-- At any time in a fresh or resumed run, if every step fits and heeds, the next step starts no task or one whose
dependencies have settled. -/
theorem started_after (hunrun : Unrun node tasks) (hb : Begins node tasks s) (acts : List Act) (act : Act)
    (hacts : s.AllHeed (acts ++ [act])) :
    ((s.run acts).perform act).starts = (s.run acts).starts ∨
      ∃ t, ((s.run acts).perform act).starts = t :: (s.run acts).starts ∧ (s.run acts).StartsAfter t := by
  obtain ⟨hbefore, hlast⟩ := hacts.append
  exact ((hb.ordered hunrun).run acts hbefore).starts act hlast.1.1 hlast.1.2

/-- Task 1 runs after task 0, which fails once. -/
def chainNode : TaskId → TaskNode
  | ⟨1, none⟩ => { dependencies := [⟨0, none⟩] }
  | _ => { maxRetries := 1 }

theorem chain_started :
    ((fresh chainNode [⟨0, none⟩, ⟨1, none⟩] false true).run
      [.turn 0 false, .turn 0 false, .ends 0 0 .raised false, .ends 0 1 (.returned .nil) false, .turn 0 false]).StartsAfter
        ⟨1, none⟩ := by
  have hunrun : Unrun chainNode [⟨0, none⟩, ⟨1, none⟩] := by
    refine ⟨fun t => ?_, by decide⟩
    unfold chainNode
    split
    · exact ⟨rfl, rfl⟩
    · exact ⟨rfl, rfl⟩
  rcases started_after hunrun (.fresh false true)
    [.turn 0 false, .turn 0 false, .ends 0 0 .raised false, .ends 0 1 (.returned .nil) false, .turn 0 false]
    (.turn 0 false) (by decide) with hsame | ⟨t, hnew, hafter⟩
  · exact absurd hsame (by decide)
  · have ht : t = ⟨1, none⟩ := (List.cons.inj (hnew.symm.trans
      (show _ = ([⟨1, none⟩, ⟨0, none⟩, ⟨0, none⟩] : List TaskId) by decide))).1
    subst ht
    exact hafter

/-- Task 2 runs if task 0 fails; task 1 waits for an answer. -/
def cleanupNode : TaskId → TaskNode
  | ⟨0, none⟩ => { allowFailure := true }
  | ⟨2, none⟩ => { dependencies := [⟨0, none⟩], onStates := {.failed} }
  | _ => {}

/-- Task 1 parks, and then task 0 fails. -/
def parkedRun : Run :=
  (fresh cleanupNode [⟨0, none⟩, ⟨1, none⟩, ⟨2, none⟩] false true).run
    [.turn 0 false, .turn 0 false, .turn 0 false, .turn 0 false, .ends 0 1 .waits false, .ends 0 0 .raised false,
      .turn 0 false, .turn 0 false, .turn 0 false]

/-- Task 1 has been answered. Task 0 is ready again because it has no result, and task 2 is because task 0 has failed. -/
def answeredRun : Run :=
  (resumed cleanupNode parkedRun.tasks false true parkedRun.saved (some parkedRun.pending) (fun _ => 0) [] []).run
    [.turn 0 false, .turn 0 false]

theorem started_beside :
    ¬ ∀ (node : TaskId → TaskNode) (tasks : List TaskId) (savedTasks : TaskId → Option SavedTask) (pending : List TaskId)
      (acts : List Act) (act : Act), Unrun node tasks →
      let s := (resumed node tasks false true savedTasks (some pending) (fun _ => 0) [] []).run acts
      (s.perform act).starts = s.starts ∨ ∃ t, (s.perform act).starts = t :: s.starts ∧ s.StartsAfter t := by
  intro h
  have hunrun : Unrun cleanupNode parkedRun.tasks := by
    refine ⟨fun t => ?_, by decide⟩
    unfold cleanupNode
    split
    · exact ⟨rfl, rfl⟩
    · exact ⟨rfl, rfl⟩
    · exact ⟨rfl, rfl⟩
  rcases h cleanupNode parkedRun.tasks parkedRun.saved parkedRun.pending [.turn 0 false, .turn 0 false] (.turn 0 false) hunrun
    with hsame | ⟨t, hnew, hafter⟩
  · have hstarts : (answeredRun.perform (.turn 0 false)).starts = [⟨2, none⟩, ⟨0, none⟩] := by decide
    exact absurd (hstarts.symm.trans hsame) (by decide)
  · have hstarts : (answeredRun.perform (.turn 0 false)).starts = [⟨2, none⟩, ⟨0, none⟩] := by decide
    have ht : t = ⟨2, none⟩ := (List.cons.inj (hnew.symm.trans hstarts)).1
    have hrunning : (⟨0, none⟩ : TaskId) ∈ answeredRun.running.map Prod.snd := by decide
    exact (hafter.settled ⟨0, none⟩ (by rw [ht]; decide)).running hrunning

end starts

end Run

end Nodus.Orchestration
