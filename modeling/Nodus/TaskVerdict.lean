import Nodus.TaskReport

/-! What the list of failed tasks in a result says. A run that has failed names a task that was not allowed to, and in a run
that has not every failure is a tolerated one. -/

namespace Nodus.Orchestration

namespace Run

variable {s s' : Run} {t u dep : TaskId}

/-! ### Tolerated failures -/

/-- As long as the run has not failed, what has failed was allowed to. -/
def Tolerant (s : Run) : Prop :=
  s.failed = false → s.cancelled = false → ∀ t ∈ s.tasks, (s.node t).status = .failed → (s.node t).allowFailure = true

theorem Tolerant.of_only (ht : s.Tolerant) (ho : Only s s' t) (hfailed : s'.failed = false → s.failed = false)
    (hcancelled : s'.cancelled = false → s.cancelled = false)
    (hnew : s'.failed = false → s'.cancelled = false → (s'.node t).status = .failed → (s'.node t).allowFailure = true) : s'.Tolerant := by
  intro hf hc u hu hstatus
  by_cases hut : u = t
  · rw [hut] at hstatus ⊢
    exact hnew hf hc hstatus
  · have hnode : s'.node u = s.node u := congrArg View.node (ho.view u hut)
    rw [hnode] at hstatus ⊢
    exact ht (hfailed hf) (hcancelled hc) u (ho.tasks ▸ hu) hstatus

theorem Tolerant.of_node (ht : s.Tolerant) (htasks : s'.tasks = s.tasks) (hnode : s'.node = s.node)
    (hfailed : s'.failed = s.failed) (hcancelled : s'.cancelled = s.cancelled) : s'.Tolerant := by
  intro hf hc u hu hstatus
  rw [hnode] at hstatus ⊢
  exact ht (hfailed ▸ hf) (hcancelled ▸ hc) u (htasks ▸ hu) hstatus

theorem status_spawnTask (s : Run) (thread : Nat) (t : TaskId) (h : ((s.spawnTask thread t).node t).status = .failed) :
    (s.node t).status = .failed := by
  unfold spawnTask at h
  split at h
  · exact h
  · split at h
    · exact h
    · split at h
      · next v _ =>
          have hnode : (((s.start t).record t v).call thread).node t = { (s.start t).node t with status := .done } :=
            Function.update_self _ _ _
          rw [hnode] at h
          cases h
      · have hnode : ((s.start t).launch t).node t = _ := node_start
        rw [hnode] at h
        cases h

theorem cancelled_spawnTask (s : Run) (thread : Nat) (t : TaskId) : (s.spawnTask thread t).cancelled = s.cancelled := by
  unfold spawnTask
  split
  · rfl
  · split
    · rfl
    · split
      · rfl
      · rfl

theorem markPending_cancelled (s : Run) (t : TaskId) : (s.markPending t).cancelled = s.cancelled := by
  unfold markPending
  split
  · rfl
  · rfl

theorem cancelled_failTask (s : Run) (thread : Nat) (t : TaskId) (swept : Bool) :
    (s.failTask thread t swept).cancelled = s.cancelled := by
  unfold failTask
  split
  · split
    · exact markPending_cancelled (s.setStatus t .retryScheduled) t
    · rw [cancelled_spawnTask, markPending_cancelled]
      rfl
  · split
    · rfl
    · split
      · rfl
      · rfl

theorem failed_failTask (s : Run) (thread : Nat) (t : TaskId) (swept : Bool)
    (h : (s.failTask thread t swept).failed = false) : s.failed = false := by
  unfold failTask at h
  split at h
  · split at h
    · exact (markPending_failed (s.setStatus t .retryScheduled) t).symm.trans h
    · rw [failed_spawnTask, markPending_failed] at h
      exact h
  · split at h
    · exact h
    · split at h
      · exact h
      · cases h

theorem allowed_of_failTask (s : Run) (thread : Nat) (t : TaskId) (swept : Bool)
    (hf : (s.failTask thread t swept).failed = false) (h : ((s.failTask thread t swept).node t).status = .failed) :
    ((s.failTask thread t swept).node t).allowFailure = true := by
  have hnode : ∀ status, (s.setStatus t status).node t = { s.node t with status := status } :=
    fun status => Function.update_self _ _ _
  unfold failTask at hf h ⊢
  split
  · next hattempts =>
      rw [if_pos hattempts] at h
      split at h
      · have hmark : (((s.setStatus t .retryScheduled).markPending t).node t).status = .failed := h
        rw [markPending_node, hnode] at hmark
        cases hmark
      · have hmark := status_spawnTask _ thread t h
        rw [markPending_node, hnode] at hmark
        cases hmark
  · next hattempts =>
      rw [if_neg hattempts] at hf
      split
      · next hallow =>
          show ((s.setStatus t .failed).node t).allowFailure = true
          rw [hnode]
          exact hallow
      · next hallow =>
          rw [if_neg hallow] at hf
          split at hf
          · next hfailed =>
              have hcalm : s.failed = false := hf
              rw [hcalm] at hfailed
              cases hfailed
          · cases hf

theorem Tolerant.ends (ht : s.Tolerant) (h : s.Sound) {thread flight : Nat} {ending : Ending} {swept : Bool}
    (hfits : s.Fits (.ends thread flight ending swept)) : (s.ends thread flight ending swept).Tolerant := by
  cases htask : s.taskOf flight with
  | none =>
      unfold Run.ends
      rw [htask]
      exact ht
  | some t =>
      have honly : Only s (s.ends thread flight ending swept) t := only_ends h.apart htask thread ending swept
      have hfail : Only s ((s.pop flight).failTask thread t swept) t → ((s.pop flight).failTask thread t swept).Tolerant :=
        fun honly => ht.of_only honly (fun hf => failed_failTask (s.pop flight) thread t swept hf)
          (fun hc => (cancelled_failTask (s.pop flight) thread t swept).symm.trans hc)
          fun hf _ => allowed_of_failTask (s.pop flight) thread t swept hf
      have hcomplete : ∀ v, (s.workers = true → ¬ s.KeyMissing t) → Only s ((s.pop flight).complete thread t v swept) t →
          ((s.pop flight).complete thread t v swept).Tolerant := by
        intro v hkey honly
        have hdone : (((s.pop flight).record t v).node t).status ≠ .failed := by
          have hnode : ((s.pop flight).record t v).node t = { s.node t with status := .done } := Function.update_self _ _ _
          rw [hnode]
          exact fun he => by cases he
        unfold complete at honly ⊢
        simp only [] at honly ⊢
        split
        · next hmissing =>
            split
            · next hworkers => exact absurd (keyMissing_of_record hmissing) (hkey hworkers)
            · next hworkers =>
                rw [if_pos hmissing, if_neg hworkers] at honly
                exact ht.of_only honly id id fun _ _ hstatus => absurd hstatus hdone
        · next hmissing =>
            rw [if_neg hmissing] at honly
            refine ht.of_only honly ?_ ?_ fun _ _ hstatus => absurd ?_ hdone
            · unfold storeCached
              split
              · exact id
              · exact id
            · unfold storeCached
              split
              · exact id
              · exact id
            · revert hstatus
              unfold storeCached
              split
              · exact id
              · exact id
      unfold Run.ends at honly ⊢
      rw [htask] at honly ⊢
      cases ending with
      | waits =>
          refine ht.of_only honly id id fun _ _ hstatus => ?_
          have hnode : ((s.pop flight).pauseForWait t).node t = { s.node t with status := .done } := Function.update_self _ _ _
          have hstatus : (((s.pop flight).pauseForWait t).node t).status = .failed := hstatus
          rw [hnode] at hstatus
          cases hstatus
      | returned v => exact hcomplete v (fun hworkers => hfits hworkers trivial t htask) honly
      | errorValue v =>
          simp only [] at honly ⊢
          split
          · next hflow =>
              rw [if_pos hflow] at honly
              exact hfail honly
          · next hflow =>
              rw [if_neg hflow] at honly
              have hrecorded : s.Recorded (.errorValue v) := Bool.eq_false_iff.mpr hflow
              exact hcomplete v (fun hworkers => hfits hworkers hrecorded t htask) honly
      | raised => exact hfail honly

theorem outcomes_failed {allowFailure : Bool} {instances : List TaskId} (h : s.outcomes allowFailure instances = some none) :
    allowFailure = false := by
  induction instances with
  | nil => cases h
  | cons i rest ih =>
      have hrest : ∀ f : List Value → List Value, (s.outcomes allowFailure rest).map (·.map f) = some none →
          s.outcomes allowFailure rest = some none := by
        intro f hf
        obtain ⟨values, hvalues, hnone⟩ := Option.map_eq_some_iff.mp hf
        rw [hvalues, Option.map_eq_none_iff.mp hnone]
      unfold outcomes at h
      split at h
      · next v _ => exact ih (hrest (v :: ·) h)
      · split at h
        · split at h
          · next hallow => exact hallow.1
          · exact ih (hrest (.nil :: ·) h)
        · cases h

theorem Tolerant.settleMappedParent (ht : s.Tolerant) (h : s.Sound) {p : TaskId × List TaskId} (hp : p ∈ s.expanded) :
    (s.settleMappedParent p.1 p.2).1.Tolerant := by
  unfold Run.settleMappedParent
  split
  · exact ht
  · split
    · exact ht
    · next houtcomes =>
        refine ht.of_only (only_setStatus h.apart .failed) id id fun hf hc _ => ?_
        obtain ⟨i, hi, hstatus⟩ := failed_of_outcomes houtcomes
        have hinstance := (h.parents p hp).2.2.2.2 i hi
        have hallow := ht hf hc i hinstance.listed hstatus
        rw [hinstance.allowFailure, outcomes_failed houtcomes] at hallow
        cases hallow
    · next values _ =>
        refine ht.of_only (only_record h.apart (.list values)) id id fun _ _ hstatus => ?_
        have hnode : (s.record p.1 (.list values)).node p.1 = { s.node p.1 with status := .done } := Function.update_self _ _ _
        have hstatus : ((s.record p.1 (.list values)).node p.1).status = .failed := hstatus
        rw [hnode] at hstatus
        cases hstatus

theorem Tolerant.settleMapped (ht : s.Tolerant) (h : s.Sound) : s.settleMapped.1.Tolerant := by
  have hfold : ∀ (l : List (TaskId × List TaskId)) (acc : Run × Bool), (∀ p ∈ l, p ∈ acc.1.expanded) → acc.1.Sound →
      acc.1.Tolerant → (l.foldl (fun (acc : Run × Bool) p => ((acc.1.settleMappedParent p.1 p.2).1,
        acc.2 || (acc.1.settleMappedParent p.1 p.2).2)) acc).1.Tolerant := by
    intro l
    induction l with
    | nil => exact fun _ _ _ ht => ht
    | cons p l ih =>
        intro acc hmem hacc ht
        refine ih _ (fun q hq => ?_) (hacc.settleMappedParent p.1 p.2) (ht.settleMappedParent hacc (hmem p List.mem_cons_self))
        rw [settleMappedParent_expanded]
        exact hmem q (List.mem_cons_of_mem _ hq)
  exact hfold s.expanded (s, false) (fun _ hp => hp) h ht

theorem Tolerant.expand (ht : s.Tolerant) (dep : Nat) (items : List Value) : (s.expand t dep items).Tolerant := by
  intro hf hc u hu hstatus
  by_cases hmem : u ∈ instanceIds t items
  · have hnode : (s.expand t dep items).node u = instanceNode (s.node t) dep (u.index.getD 0)
        (items.getD (u.index.getD 0) .nil) := if_pos hmem
    rw [hnode] at hstatus
    cases hstatus
  · have hnode : (s.expand t dep items).node u = (s.setStatus t .expanded).node u := if_neg hmem
    have hold : u ∈ s.tasks := (List.mem_append.mp hu).resolve_right hmem
    rw [hnode] at hstatus ⊢
    by_cases hut : u = t
    · have hexpanded : (s.setStatus t .expanded).node u = { s.node t with status := .expanded } := by
        rw [hut]
        exact Function.update_self _ _ _
      rw [hexpanded] at hstatus
      cases hstatus
    · have hother : (s.setStatus t .expanded).node u = s.node u := Function.update_of_ne hut _ _
      rw [hother] at hstatus ⊢
      exact ht hf hc u hold hstatus

theorem Tolerant.expandMapped (ht : s.Tolerant) (h : s.Sound) : (s.expandMapped t).Tolerant := by
  have hfailed : (s.conclude t .failed).Tolerant := by
    refine ht.of_only (only_conclude h.apart .failed) (fun hf => (Bool.or_eq_false_iff.mp hf).1) id fun hf _ _ => ?_
    rw [node_conclude]
    by_contra hallow
    exact of_decide_eq_false (Bool.or_eq_false_iff.mp hf).2 ⟨rfl, Bool.eq_false_iff.mpr hallow⟩
  unfold Run.expandMapped
  simp only []
  split
  · next items _ =>
      split
      · exact hfailed
      · split
        · refine ht.of_only (only_concludeSkipped h.apart) (fun hf => (Bool.or_eq_false_iff.mp hf).1) id fun _ _ hstatus => ?_
          have hstatus : ((s.conclude t .skipped).node t).status = .failed := hstatus
          rw [node_conclude] at hstatus
          cases hstatus
        · exact ht.expand _ items
  · exact hfailed

theorem Tolerant.turn (ht : s.Tolerant) (h : s.Sound) {thread : Nat} {cancelled : Bool}
    (hfits : s.Fits (.turn thread cancelled)) : (s.turn thread cancelled).Tolerant := by
  unfold Run.turn
  split
  · exact ht
  · exact ht.of_node rfl rfl rfl rfl
  · split
    · intro _ hc
      have hset : s.cancelInflight.cancelled = true := by
        unfold Run.cancelInflight
        split
        · rfl
        · rfl
      exact absurd (hset.symm.trans hc) (by decide)
    · exact (ht.settleMapped h).of_node rfl rfl rfl rfl
  · next t rest again outer hframes =>
      have hp : t ∈ s.pending := hfits t (by simp [next, hframes])
      have hagrees := agrees_setFrames s thread (⟨rest, again⟩ :: outer)
      split
      · show ((s.skip t).setFrames thread _).Tolerant
        exact ht.of_node rfl rfl rfl rfl
      · split
        · exact (ht.expandMapped h).of_node rfl rfl rfl rfl
        · have honly := hagrees.only (only_spawnTask (hagrees.apart h.apart) (h.of_pending hp).2.1 thread)
          refine ht.of_only honly (fun hf => ?_) (fun hc => ?_) fun hf hc hstatus => ?_
          · rwa [failed_spawnTask] at hf
          · rwa [cancelled_spawnTask] at hc
          · have hold : (s.node t).status = .failed :=
              status_spawnTask (s.setFrames thread (⟨rest, again⟩ :: outer)) thread t hstatus
            rw [failed_spawnTask] at hf
            rw [cancelled_spawnTask] at hc
            rw [honly.node]
            exact ht hf hc t (h.of_pending hp).1 hold

theorem Tolerant.perform (ht : s.Tolerant) (h : s.Sound) {act : Act} (hfits : s.Fits act) : (s.perform act).Tolerant := by
  unfold Run.perform
  split
  · exact ht
  · cases act with
    | turn thread cancelled => exact ht.turn h hfits
    | ends thread flight ending swept => exact ht.ends h hfits
    | checkpoint label => exact ht.of_node rfl rfl rfl rfl
    | cached key v => exact ht.of_node rfl rfl rfl rfl

/-! ### Mapped tasks that have been settled -/

theorem Sound.inactive (h : s.Sound) {k : JoinState} (hk : s.kind u = some k) (hne : k ≠ .failed) : ¬ (s.view u).Active := by
  have hcases : s.results u ≠ none ∨ s.results u = none ∧ u ∈ s.skipped := by
    unfold kind at hk
    split at hk
    · next hr => exact .inl (Option.isSome_iff_ne_none.mp hr)
    · next hr =>
        split at hk
        · exact absurd (Option.some.inj hk).symm hne
        · split at hk
          · next hs => exact .inr ⟨Option.not_isSome_iff_eq_none.mp hr, hs⟩
          · cases hk
  rintro (hp | hf | he | hl)
  · obtain ⟨-, -, hskipped, hresult, -⟩ := h.of_pending (of_decide_eq_true hp)
    rcases hcases with hr | ⟨-, hs⟩
    · exact hr hresult
    · exact hskipped hs
  · obtain ⟨-, hskipped, hresult, -⟩ := h.of_running (of_decide_eq_true hf)
    rcases hcases with hr | ⟨-, hs⟩
    · exact hr hresult
    · exact hskipped hs
  · obtain ⟨-, -, hskipped, hresult, -⟩ := h.of_expanded he
    rcases hcases with hr | ⟨-, hs⟩
    · exact hr hresult
    · exact hskipped hs
  · obtain ⟨-, hskipped, hresult, -⟩ := h.unlisted (of_decide_eq_false hl)
    rcases hcases with hr | ⟨-, hs⟩
    · exact hr hresult
    · exact absurd (decide_eq_true hs) (by rw [show decide (u ∈ s.skipped) = false from hskipped]; decide)

/-- If an expanded task is settled without a failure, then no instance of it has failed that was not allowed to. -/
def Settled (s : Run) (p : TaskId × List TaskId) : Prop :=
  (s.node p.1).status = .expanded ∨ (s.node p.1).status = .failed ∨
    ∀ i ∈ p.2, (s.node i).allowFailure = true ∨ ∃ k, s.kind i = some k ∧ k ≠ .failed

/-- A task is expanded once, and settled. -/
structure Gathered (s : Run) : Prop where
  once : ∀ p ∈ s.expanded, ∀ q ∈ s.expanded, p.1 = q.1 → p = q
  settled : ∀ p ∈ s.expanded, s.Settled p

theorem Settles.instances (hs : Settles s s') (h : s.Sound) {p : TaskId × List TaskId} (hp : p ∈ s.expanded)
    (hall : ∀ i ∈ p.2, (s.node i).allowFailure = true ∨ ∃ k, s.kind i = some k ∧ k ≠ .failed) :
    ∀ i ∈ p.2, (s'.node i).allowFailure = true ∨ ∃ k, s'.kind i = some k ∧ k ≠ .failed := by
  intro i hi
  rcases hall i hi with hallow | ⟨k, hk, hne⟩
  · left
    rw [hs.same i ((h.parents p hp).2.2.2.2 i hi).listed]
    exact hallow
  · exact .inr ⟨k, (kind_of_view (hs.view i (h.inactive hk hne))).trans hk, hne⟩

theorem Gathered.of_settles (hg : s.Gathered) (h : s.Sound) (hs : Settles s s')
    (hparent : ∀ p ∈ s.expanded, (s.node p.1).status = .expanded → s'.Settled p)
    (hexpanded : s'.expanded = s.expanded ∨ ∃ q, q.1 ∈ s.pending ∧ (s'.node q.1).status = .expanded ∧
      s'.expanded = s.expanded ++ [q]) : s'.Gathered := by
  have hold : ∀ p ∈ s.expanded, s'.Settled p := by
    intro p hp
    obtain ⟨-, hmapped, hlisted, hpending, -⟩ := h.parents p hp
    rcases hg.settled p hp with he | hf | hall
    · exact hparent p hp he
    · have hinactive : ¬ (s.view p.1).Active := by
        rintro (ha | ha | ha | ha)
        · exact hpending (of_decide_eq_true ha)
        · exact (h.of_running (of_decide_eq_true ha)).2.2.2.2 hmapped
        · have ha : (s.node p.1).status = .expanded := ha
          exact absurd (hf.symm.trans ha) (by decide)
        · exact of_decide_eq_false ha hlisted
      have hnode : s'.node p.1 = s.node p.1 := congrArg View.node (hs.view p.1 hinactive)
      right
      left
      rw [hnode]
      exact hf
    · exact .inr (.inr (hs.instances h hp hall))
  rcases hexpanded with hsame | ⟨q, hq, hstatus, hnew⟩
  · refine ⟨?_, ?_⟩
    · rw [hsame]
      exact hg.once
    · rw [hsame]
      exact hold
  · have hfirst : ∀ p ∈ s.expanded, p.1 ≠ q.1 := fun p hp he => (h.parents p hp).2.2.2.1 (he ▸ hq)
    refine ⟨fun p hp r hr he => ?_, fun p hp => ?_⟩
    · rw [hnew] at hp hr
      rcases List.mem_append.mp hp with hp | hp
      · rcases List.mem_append.mp hr with hr | hr
        · exact hg.once p hp r hr he
        · rw [List.mem_singleton.mp hr] at he
          exact absurd he (hfirst p hp)
      · rcases List.mem_append.mp hr with hr | hr
        · rw [List.mem_singleton.mp hp] at he
          exact absurd he.symm (hfirst r hr)
        · rw [List.mem_singleton.mp hp, List.mem_singleton.mp hr]
    · rw [hnew] at hp
      rcases List.mem_append.mp hp with hp | hp
      · exact hold p hp
      · rw [List.mem_singleton.mp hp]
        exact .inl hstatus

theorem Gathered.of_only (hg : s.Gathered) (h : s.Sound) (ho : Only s s' t) (ht : t ∈ s.pending ∨ t ∈ s.running.map Prod.snd) :
    s'.Gathered := by
  refine hg.of_settles h (ho.settles (ht.elim active_of_pending active_of_running)) (fun p hp he => ?_) (.inl ho.expanded)
  have hne : p.1 ≠ t := by
    rintro rfl
    rcases ht with hp' | hf
    · exact (h.parents p hp).2.2.2.1 hp'
    · exact (h.of_running hf).2.2.2.2 (h.parents p hp).2.1
  have hnode : s'.node p.1 = s.node p.1 := congrArg View.node (ho.view p.1 hne)
  left
  rw [hnode]
  exact he

theorem Gathered.of_agrees (hg : s.Gathered) (h : s.Sound) (ha : Agrees s s') : s'.Gathered := by
  refine hg.of_settles h ha.settles (fun p _ he => .inl ?_) (.inl ha.expanded)
  rw [ha.node]
  exact he

theorem outcomes_done {allowFailure : Bool} {instances : List TaskId} {values : List Value}
    (h : s.outcomes allowFailure instances = some (some values)) :
    ∀ i ∈ instances, allowFailure = true ∨ ∃ k, s.kind i = some k ∧ k ≠ .failed := by
  induction instances generalizing values with
  | nil => exact fun i hi => by cases hi
  | cons i rest ih =>
      have hrest : ∀ f : List Value → List Value, (s.outcomes allowFailure rest).map (·.map f) = some (some values) →
          ∃ values, s.outcomes allowFailure rest = some (some values) := by
        intro f hf
        obtain ⟨found, hfound, hsome⟩ := Option.map_eq_some_iff.mp hf
        obtain ⟨values', rfl, -⟩ := Option.map_eq_some_iff.mp hsome
        exact ⟨values', hfound⟩
      intro u hu
      rw [List.mem_cons] at hu
      unfold outcomes at h
      split at h
      · next v hv =>
          obtain ⟨values', hvalues⟩ := hrest (v :: ·) h
          rcases hu with rfl | hu
          · refine .inr ⟨.completed, ?_, by decide⟩
            unfold kind
            rw [hv]
            rfl
          · exact ih hvalues u hu
      · next hnone =>
          split at h
          · next hcases =>
              split at h
              · cases h
              · next hallow =>
                  obtain ⟨values', hvalues⟩ := hrest (.nil :: ·) h
                  rcases hu with rfl | hu
                  · by_cases hfailed : (s.node u).status = .failed
                    · left
                      by_contra hne
                      exact hallow ⟨Bool.eq_false_iff.mpr hne, hfailed⟩
                    · refine .inr ⟨.skipped, ?_, by decide⟩
                      unfold kind
                      rw [hnone, if_neg (by decide), if_neg hfailed, if_pos (hcases.resolve_left hfailed)]
                  · exact ih hvalues u hu
          · cases h

theorem Gathered.settleMappedParent (hg : s.Gathered) (h : s.Sound) {p : TaskId × List TaskId} (hp : p ∈ s.expanded) :
    (s.settleMappedParent p.1 p.2).1.Gathered := by
  unfold Run.settleMappedParent
  split
  · exact hg
  · next hstatus =>
      have he : (s.node p.1).status = .expanded := not_not.mp hstatus
      have hother : ∀ {x : Run}, Only s x p.1 → ∀ q : TaskId × List TaskId, q.1 ≠ p.1 → (s.node q.1).status = .expanded →
          x.Settled q := by
        intro x ho q hne hq
        have hnode : x.node q.1 = s.node q.1 := congrArg View.node (ho.view q.1 hne)
        left
        rw [hnode]
        exact hq
      split
      · exact hg
      · have honly : Only s (s.setStatus p.1 .failed) p.1 := only_setStatus h.apart .failed
        refine hg.of_settles h (honly.settles (active_of_expanded he)) (fun q hq hstatus => ?_) (.inl rfl)
        by_cases hqp : q.1 = p.1
        · right
          left
          rw [hqp]
          exact congrArg TaskNode.status (Function.update_self p.1 _ s.node)
        · exact hother honly q hqp hstatus
      · next values houtcomes =>
          have honly : Only s (s.record p.1 (.list values)) p.1 := only_record h.apart (.list values)
          have hsettles := honly.settles (active_of_expanded he)
          refine hg.of_settles h hsettles (fun q hq hstatus => ?_) (.inl rfl)
          by_cases hqp : q.1 = p.1
          · rw [hg.once q hq p hp hqp]
            refine .inr (.inr (hsettles.instances h hp fun i hi => ?_))
            rw [((h.parents p hp).2.2.2.2 i hi).allowFailure]
            exact outcomes_done houtcomes i hi
          · exact hother honly q hqp hstatus

theorem Gathered.settleMapped (hg : s.Gathered) (h : s.Sound) : s.settleMapped.1.Gathered := by
  have hfold : ∀ (l : List (TaskId × List TaskId)) (acc : Run × Bool), (∀ p ∈ l, p ∈ acc.1.expanded) → acc.1.Sound →
      acc.1.Gathered → (l.foldl (fun (acc : Run × Bool) p => ((acc.1.settleMappedParent p.1 p.2).1,
        acc.2 || (acc.1.settleMappedParent p.1 p.2).2)) acc).1.Gathered := by
    intro l
    induction l with
    | nil => exact fun _ _ _ hg => hg
    | cons p l ih =>
        intro acc hmem hacc hg
        refine ih _ (fun q hq => ?_) (hacc.settleMappedParent p.1 p.2) (hg.settleMappedParent hacc (hmem p List.mem_cons_self))
        rw [settleMappedParent_expanded]
        exact hmem q (List.mem_cons_of_mem _ hq)
  exact hfold s.expanded (s, false) (fun _ hp => hp) h hg

theorem expand_other (h : s.Sound) (ht : t ∈ s.pending) (hmapped : (s.node t).Mapped) {dep : Nat} {items : List Value}
    (hu : u ∈ s.tasks) (hne : u ≠ t) : (s.expand t dep items).node u = s.node u := by
  have hnode : (s.expand t dep items).node u = (s.setStatus t .expanded).node u :=
    if_neg fun hmem => (h.fresh_instance ht hmapped hmem).2.2 hu
  rw [hnode]
  exact Function.update_of_ne hne _ _

theorem expand_self (h : s.Sound) (ht : t ∈ s.pending) (hmapped : (s.node t).Mapped) {dep : Nat} {items : List Value} :
    ((s.expand t dep items).node t).status = .expanded := by
  have hnode : (s.expand t dep items).node t = (s.setStatus t .expanded).node t :=
    if_neg fun hmem => (h.fresh_instance ht hmapped hmem).2.1 rfl
  rw [hnode]
  exact congrArg TaskNode.status (Function.update_self t _ s.node)

theorem Gathered.expandMapped (hg : s.Gathered) (h : s.Sound) (ht : t ∈ s.pending) (hmapped : (s.node t).Mapped) :
    (s.expandMapped t).Gathered := by
  unfold Run.expandMapped
  simp only []
  split
  · next items _ =>
      split
      · exact hg.of_only h (only_conclude h.apart .failed) (.inl ht)
      · split
        · exact hg.of_only h (only_concludeSkipped h.apart) (.inl ht)
        · refine hg.of_settles h (settles_expand h ht hmapped _ items) (fun p hp he => .inl ?_) (.inr ⟨_, ht, ?_, rfl⟩)
          · rw [expand_other h ht hmapped (h.parents p hp).2.2.1 fun hpt => (h.parents p hp).2.2.2.1 (hpt ▸ ht)]
            exact he
          · exact expand_self h ht hmapped
  · exact hg.of_only h (only_conclude h.apart .failed) (.inl ht)

theorem Gathered.cancelInflight (hg : s.Gathered) (h : s.Sound) : s.cancelInflight.Gathered := by
  refine hg.of_settles h (settles_cancelInflight s) (fun p hp he => .inl ?_) (.inl ?_)
  · have hne : p.1 ∉ s.running.map Prod.snd := fun hf => (h.of_running hf).2.2.2.2 (h.parents p hp).2.1
    unfold Run.cancelInflight
    split
    · exact he
    · simp only [if_neg hne]
      exact he
  · unfold Run.cancelInflight
    split
    · rfl
    · rfl

theorem Gathered.turn (hg : s.Gathered) (h : s.Sound) {thread : Nat} {cancelled : Bool}
    (hfits : s.Fits (.turn thread cancelled)) : (s.turn thread cancelled).Gathered := by
  unfold Run.turn
  split
  · exact hg
  · exact hg.of_agrees h (agrees_setFrames _ _ _)
  · split
    · exact (hg.cancelInflight h).of_agrees h.cancelInflight (agrees_setFrames _ _ _)
    · exact (hg.settleMapped h).of_agrees h.settleMapped (agrees_setFrames _ _ _)
  · next t rest again outer hframes =>
      have ht : t ∈ s.pending := hfits t (by simp [next, hframes])
      split
      · exact (hg.of_only h (only_skip h.apart) (.inl ht)).of_agrees (h.skip ht) (agrees_setFrames _ _ _)
      · split
        · next hmapped =>
            exact (hg.expandMapped h ht hmapped).of_agrees (h.expandMapped ht hmapped) (agrees_setFrames _ _ _)
        · have hagrees := agrees_setFrames s thread (⟨rest, again⟩ :: outer)
          exact hg.of_only h (hagrees.only (only_spawnTask (hagrees.apart h.apart) (h.of_pending ht).2.1 thread)) (.inl ht)

theorem Gathered.perform (hg : s.Gathered) (h : s.Sound) {act : Act} (hfits : s.Fits act) : (s.perform act).Gathered := by
  unfold Run.perform
  split
  · exact hg
  · cases act with
    | turn thread cancelled => exact hg.turn h hfits
    | ends thread flight ending swept =>
        simp only []
        cases htask : s.taskOf flight with
        | none =>
            unfold Run.ends
            rw [htask]
            exact hg
        | some t =>
            exact hg.of_only h (only_ends h.apart htask thread ending swept)
              (.inr (List.mem_map_of_mem (mem_of_taskOf htask)))
    | checkpoint label => exact hg.of_agrees h ⟨rfl, rfl, rfl, rfl, rfl, rfl, rfl, rfl, rfl, rfl⟩
    | cached key v => exact hg.of_agrees h ⟨rfl, rfl, rfl, rfl, rfl, rfl, rfl, rfl, rfl, rfl⟩

/-! ### What a result without failed tasks says -/

/-- The task depends, directly or not, on one that has failed and was allowed to. -/
inductive Downstream (s : Run) : TaskId → Prop
  | direct {t dep : TaskId} (hdep : dep ∈ (s.node t).dependencies) (hfailed : (s.node dep).status = .failed)
      (hallow : (s.node dep).allowFailure = true) : s.Downstream t
  | further {t dep : TaskId} (hdep : dep ∈ (s.node t).dependencies) (h : s.Downstream dep) : s.Downstream t

/-- Every task is completed, skipped or omitted, or it has failed and was allowed to, or it is downstream of one that has. -/
def Accounted (s : Run) : Prop := ∀ t ∈ s.tasks, s.reported t ∈ [.completed, .skipped, .omitted] ∨
  s.reported t = .failed ∧ (s.node t).allowFailure = true ∨ s.reported t = .upstreamFailed ∧ s.Downstream t

theorem downstream_of_blocked (hall : ∀ t ∈ s.failedIds, (s.node t).allowFailure = true) :
    ∀ t ∈ s.closure.blocked, s.Downstream t := by
  rw [closure_eq]
  refine Passes.passes_keep (P := fun closure : Closure => ∀ t ∈ closure.blocked, s.Downstream t)
    (fun closure t ht hblocked => ?_) (fun t ht => by cases ht) _
  rcases classify_cases s closure t with ⟨hsame, -⟩ | ⟨-, dep, hdep, ⟨hblame, hnew⟩ | ⟨-, hnew⟩ | ⟨-, hnew⟩⟩
  · rw [hsame]
    exact hblocked
  · rw [hnew]
    intro u hu
    rcases List.mem_cons.mp hu with rfl | hu
    · unfold blame at hblame
      split at hblame
      · next hcases =>
          rcases hcases with hb | ⟨hf, -⟩
          · exact .further hdep (hblocked dep hb)
          · exact .direct hdep (mem_failedIds.mp hf).2 (hall dep hf)
      · split at hblame
        · cases hblame
        · split at hblame
          · cases hblame
          · cases hblame
    · exact hblocked u hu
  · rw [hnew]
    exact hblocked
  · rw [hnew]
    exact hblocked

theorem mem_failedNames : t ∈ s.failedNames ↔ t ∈ s.tasks ∧ (s.node t).eachIndex = none ∧ (s.node t).status = .failed ∧
    (s.node t).allowFailure = false := by
  unfold failedNames
  rw [List.mem_filter, decide_eq_true_iff]

/-- The state in which a run returns a result that says everything: it has not been cancelled; if it has failed, no mapped
task is still expanded, and if it has not, readiness and the report agree. -/
structure Sure (s : Run) : Prop where
  cancelled : s.cancelled = false
  gathered : s.failed = true → ∀ p ∈ s.expanded, (s.node p.1).status ≠ .expanded
  consistent : s.failed = false → s.Consistent

theorem failedNames_ne_nil (h : s.Sound) (hg : s.Gathered) (hlost : s.Lost)
    (hgathered : ∀ p ∈ s.expanded, (s.node p.1).status ≠ .expanded) : s.failedNames ≠ [] := by
  obtain ⟨t, ht, hfailed, hallow, hpending⟩ := hlost
  by_cases hindex : t.index = none
  · have heach : (s.node t).eachIndex = none := by
      by_contra hne
      exact (h.indexed t ht).mp hne hindex
    exact List.ne_nil_of_mem (mem_failedNames.mpr ⟨ht, heach, hfailed, hallow⟩)
  · -- The failure of an instance has been carried up to the task.
    obtain ⟨p, hp, hi⟩ := h.instances t ht hindex
    obtain ⟨hparent, -, hlisted, -, hinstances⟩ := h.parents p hp
    have hstatus : (s.node p.1).status = .failed := by
      rcases hg.settled p hp with he | hf | hall
      · exact absurd he (hgathered p hp)
      · exact hf
      · rcases hall t hi with ha | ⟨k, hk, hne⟩
        · rw [hallow] at ha
          cases ha
        · have hnone : s.results t = none := by
            by_contra hr
            have hdone : (s.node t).status = .done ∨ (s.node t).status = .completed := ((h.placed t).result hr).2.2
            rw [hfailed] at hdone
            rcases hdone with hd | hd
            · cases hd
            · cases hd
          unfold kind at hk
          rw [hnone, if_neg (by decide), if_pos hfailed] at hk
          exact absurd (Option.some.inj hk).symm hne
    have heach : (s.node p.1).eachIndex = none := by
      by_contra hne
      exact (h.indexed p.1 hlisted).mp hne hparent
    have hallow' : (s.node p.1).allowFailure = false := by
      rw [← (hinstances t hi).allowFailure]
      exact hallow
    exact List.ne_nil_of_mem (mem_failedNames.mpr ⟨hlisted, heach, hstatus, hallow'⟩)

theorem waits_of_report (hcalm : s.failed = false) (hreport : s.report = .completed ∨ s.report = .failed []) :
    s.report = .completed ∧ s.waiting = none ∧ s.retryScheduled = none := by
  unfold report at hreport ⊢
  rw [if_neg (by rw [hcalm]; decide)] at hreport ⊢
  split at hreport
  · rcases hreport with hc | hf
    · cases hc
    · cases hf
  · rcases hreport with hc | hf
    · cases hc
    · cases hf
  · next hw hr =>
      refine ⟨hreport.resolve_right fun hf => ?_, hw, hr⟩
      split at hf
      · cases hf
      · cases hf

section runs

variable {node : TaskId → TaskNode} {tasks : List TaskId}

theorem Regular.accounted (h : Regular node tasks s) (ht : s.Tolerant) (hg : s.Gathered) (hacyclic : Acyclic node tasks)
    (hunrun : Unrun node tasks) (hsure : s.Sure) (hcrashed : s.crashed = false)
    (hidle : s.report = .completed → s.running = [] ∧ ∀ thread, s.frames thread = [])
    (hreport : s.report = .completed ∨ s.report = .failed []) : s.Accounted := by
  cases hfailed : s.failed with
  | true =>
      have hnames : s.report = .failed s.failedNames := if_pos hfailed
      have hempty : s.failedNames = [] := by
        rcases hreport with hc | hf
        · rw [hnames] at hc
          cases hc
        · rw [hnames] at hf
          exact Report.failed.inj hf
      exact absurd hempty (failedNames_ne_nil h.sound hg (h.lost hfailed) (hsure.gathered hfailed))
  | false =>
      obtain ⟨hcompleted, hwaits⟩ := waits_of_report hfailed hreport
      have hended : s.Ended := ⟨hcrashed, hwaits.1, hwaits.2, hsure.cancelled, fun _ => hidle hcompleted⟩
      have hplaced := h.placed hacyclic hunrun (h.drained hended hfailed) (hsure.consistent hfailed)
      have hallowed : ∀ t ∈ s.failedIds, (s.node t).allowFailure = true := fun t hmem =>
        ht hfailed hsure.cancelled t (mem_failedIds.mp hmem).1 (mem_failedIds.mp hmem).2
      intro t hlisted
      by_cases hresult : s.results t = none
      · by_cases hstatus : (s.node t).status = .failed
        · have hmem : t ∈ s.failedIds := mem_failedIds.mpr ⟨hlisted, hstatus⟩
          refine .inr (.inl ⟨?_, hallowed t hmem⟩)
          unfold reported
          rw [if_neg (not_not.mpr hresult), if_pos hmem]
        · have hthree := reported_of_placed (hplaced t hlisted) hresult hstatus
          simp only [List.mem_cons, List.not_mem_nil, or_false] at hthree
          rcases hthree with hs | ho | hu
          · rw [hs]
            exact .inl (by decide)
          · rw [ho]
            exact .inl (by decide)
          · refine .inr (.inr ⟨hu, downstream_of_blocked hallowed t ?_⟩)
            have hplain : t ∉ s.failedIds := fun hmem => hstatus (mem_failedIds.mp hmem).2
            unfold reported at hu
            rw [if_neg (not_not.mpr hresult), if_neg hplain] at hu
            by_contra hb
            rw [if_neg hb] at hu
            split_ifs at hu
      · left
        unfold reported
        rw [if_pos hresult]
        decide

theorem Opens.tolerant (ho : Opens node tasks s) (hunrun : Unrun node tasks) : s.Tolerant := by
  cases ho with
  | fresh workers flow =>
      intro _ _ t _ ht
      exact absurd ((hunrun.1 t).1.symm.trans ht) (by decide)
  | resumed workers flow savedTasks storedPending order labels parked =>
      obtain ⟨x, hx, hcases⟩ :=
        resumed_cases hunrun workers flow savedTasks storedPending order labels parked
      rcases hcases with ⟨hfailed, he⟩ | ⟨hcalm, -, he⟩
      · rw [he]
        intro hf
        rw [hfailed] at hf
        cases hf
      · rw [he]
        exact fun _ _ t _ ht => hx.tolerant hcalm t ht

theorem Opens.gathered (ho : Opens node tasks s) (hunrun : Unrun node tasks) : s.Gathered := by
  have hnone : s.expanded = [] := by
    cases ho with
    | fresh workers flow => rfl
    | resumed workers flow savedTasks storedPending order labels parked =>
        obtain ⟨x, hx, hcases⟩ :=
          resumed_cases hunrun workers flow savedTasks storedPending order labels parked
        rcases hcases with ⟨-, he⟩ | ⟨-, -, he⟩
        · rw [he]
          exact hx.restored.expanded
        · rw [he]
          exact hx.restored.expanded
  refine ⟨fun p hp => ?_, fun p hp => ?_⟩
  · rw [hnone] at hp
    cases hp
  · rw [hnone] at hp
    cases hp

/-- What is known of a run in every state. -/
def Known (node : TaskId → TaskNode) (tasks : List TaskId) (s : Run) : Prop :=
  Regular node tasks s ∧ s.Tolerant ∧ s.Gathered ∨ s.Over

theorem Opens.known (ho : Opens node tasks s) (hacyclic : Acyclic node tasks) (hunrun : Unrun node tasks) :
    Known node tasks s :=
  (ho.cases hacyclic hunrun).imp (fun hregular => ⟨hregular, ho.tolerant hunrun, ho.gathered hunrun⟩) id

theorem Known.perform (h : Known node tasks s) {act : Act} (hfits : s.Fits act) : Known node tasks (s.perform act) := by
  rcases h with ⟨hregular, ht, hg⟩ | hover
  · exact .inl ⟨hregular.perform hfits, ht.perform hregular.sound hfits, hg.perform hregular.sound hfits⟩
  · exact .inr (hover.perform act)

theorem Known.accounted (h : Known node tasks s) (hacyclic : Acyclic node tasks) (hunrun : Unrun node tasks) (hsure : s.Sure)
    (hcrashed : s.crashed = false) (hidle : s.report = .completed → s.running = [] ∧ ∀ thread, s.frames thread = [])
    (hreport : s.report = .completed ∨ s.report = .failed []) : s.Accounted := by
  rcases h with ⟨hregular, ht, hg⟩ | hover
  · exact hregular.accounted ht hg hacyclic hunrun hsure hcrashed hidle hreport
  · obtain ⟨t, ht, hstatus, hallow, heach⟩ := hover.lost
    have hnames : s.report = .failed s.failedNames := if_pos hover.failed
    have hmem : t ∈ s.failedNames := mem_failedNames.mpr ⟨ht, heach, hstatus, hallow⟩
    rw [hnames] at hreport
    rcases hreport with hc | hf
    · cases hc
    · rw [Report.failed.inj hf] at hmem
      cases hmem

end runs

/-! ### The numbers of the bodies -/

/-- The bodies that are running were, or the step has started them. -/
structure Flies (s s' : Run) : Prop where
  running : ∀ p ∈ s'.running, p ∈ s.running ∨ p.1 = s.spawned
  spawned : s.spawned ≤ s'.spawned

theorem flies_of_eq (hrunning : s'.running = s.running) (hspawned : s'.spawned = s.spawned) : Flies s s' :=
  ⟨fun _ hp => .inl (hrunning ▸ hp), hspawned.ge⟩

theorem flies_spawnTask (s : Run) (thread : Nat) (t : TaskId) : Flies s (s.spawnTask thread t) := by
  unfold spawnTask
  split
  · exact flies_of_eq rfl rfl
  · split
    · exact flies_of_eq rfl rfl
    · split
      · exact flies_of_eq rfl rfl
      · refine ⟨fun p hp => ?_, Nat.le_succ _⟩
        rcases List.mem_cons.mp hp with rfl | hp
        · exact .inr rfl
        · exact .inl hp

theorem markPending_spawned (s : Run) (t : TaskId) : (s.markPending t).spawned = s.spawned := by
  unfold markPending
  split
  · rfl
  · rfl

theorem flies_failTask (s : Run) (thread : Nat) (t : TaskId) (swept : Bool) : Flies s (s.failTask thread t swept) := by
  unfold failTask
  split
  · split
    · exact flies_of_eq (markPending_running (s.setStatus t .retryScheduled) t) (markPending_spawned (s.setStatus t .retryScheduled) t)
    · have hspawn := flies_spawnTask ((s.setStatus t .retrying).markPending t) thread t
      refine ⟨fun p hp => ?_, ?_⟩
      · have hcases := hspawn.running p hp
        rw [markPending_running, markPending_spawned] at hcases
        exact hcases
      · have hle := hspawn.spawned
        rw [markPending_spawned] at hle
        exact hle
  · split
    · exact flies_of_eq rfl rfl
    · split
      · exact flies_of_eq rfl rfl
      · exact flies_of_eq rfl rfl

theorem flies_complete (s : Run) (thread : Nat) (t : TaskId) (v : Value) (swept : Bool) : Flies s (s.complete thread t v swept) := by
  unfold complete
  simp only []
  split
  · split
    · exact ⟨(flies_failTask (s.record t v) thread t swept).running, (flies_failTask (s.record t v) thread t swept).spawned⟩
    · exact flies_of_eq rfl rfl
  · unfold storeCached
    split
    · exact flies_of_eq rfl rfl
    · exact flies_of_eq rfl rfl

theorem flies_ends (h : s.Apart) {flight : Nat} (htask : s.taskOf flight = some t) (thread : Nat) (ending : Ending)
    (swept : Bool) : Flies s (s.ends thread flight ending swept) ∧
      ∀ p ∈ (s.ends thread flight ending swept).running, p.1 ≠ flight := by
  have hbelow : flight < s.spawned := h.numbered (flight, t) (mem_of_taskOf htask)
  have hpop : ∀ {x : Run}, Flies (s.pop flight) x → Flies s x ∧ ∀ p ∈ x.running, p.1 ≠ flight := by
    intro x hx
    refine ⟨⟨fun p hp => ?_, hx.spawned⟩, fun p hp => ?_⟩
    · exact (hx.running p hp).imp (fun hmem => (List.mem_filter.mp hmem).1) id
    · rcases hx.running p hp with hmem | hnew
      · exact of_decide_eq_true (List.mem_filter.mp hmem).2
      · rw [hnew]
        exact hbelow.ne'
  unfold ends
  rw [htask]
  cases ending with
  | waits => exact hpop (flies_of_eq rfl rfl)
  | returned v => exact hpop (flies_complete (s.pop flight) thread t v swept)
  | errorValue v =>
      simp only []
      split
      · exact hpop (flies_failTask (s.pop flight) thread t swept)
      · exact hpop (flies_complete (s.pop flight) thread t v swept)
  | raised => exact hpop (flies_failTask (s.pop flight) thread t swept)

theorem flies_turn (s : Run) (thread : Nat) (cancelled : Bool) : Flies s (s.turn thread cancelled) := by
  unfold turn
  split
  · exact flies_of_eq rfl rfl
  · exact flies_of_eq rfl rfl
  · split
    · unfold cancelInflight
      split
      · exact flies_of_eq rfl rfl
      · exact ⟨fun p hp => absurd hp List.not_mem_nil, Nat.le_refl _⟩
    · exact flies_of_eq (settleMapped_eq Run.running (fun _ _ _ => rfl) s) (settleMapped_eq Run.spawned (fun _ _ _ => rfl) s)
  · next t rest again outer hframes =>
      split
      · exact flies_of_eq rfl rfl
      · split
        · have hsame : (s.expandMapped t).running = s.running ∧ (s.expandMapped t).spawned = s.spawned := by
            unfold expandMapped
            simp only []
            split
            · split
              · exact ⟨rfl, rfl⟩
              · split
                · exact ⟨rfl, rfl⟩
                · exact ⟨rfl, rfl⟩
            · exact ⟨rfl, rfl⟩
          exact flies_of_eq hsame.1 hsame.2
        · have hspawn := flies_spawnTask (s.setFrames thread (⟨rest, again⟩ :: outer)) thread t
          exact ⟨hspawn.running, hspawn.spawned⟩

theorem flies_perform (h : s.Apart) (act : Act) : Flies s (s.perform act) := by
  unfold perform
  split
  · exact flies_of_eq rfl rfl
  · cases act with
    | turn thread cancelled => exact flies_turn s thread cancelled
    | ends thread flight ending swept =>
        simp only []
        cases htask : s.taskOf flight with
        | none =>
            unfold ends
            rw [htask]
            exact flies_of_eq rfl rfl
        | some t => exact (flies_ends h htask thread ending swept).1
    | checkpoint label => exact flies_of_eq rfl rfl
    | cached key v => exact flies_of_eq rfl rfl

end Run

end Nodus.Orchestration
