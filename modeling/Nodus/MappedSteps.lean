import Nodus.Expansions

/-! Mapped steps: what their instances are called with, when they settle, and which list they come to. -/

namespace Nodus.Orchestration

namespace Run

variable {s s' : Run} {t u : TaskId} {node : TaskId → TaskNode} {tasks : List TaskId}

theorem settleMapped_keep {P : Run → Prop}
    (hstep : ∀ s, ∀ p ∈ s.expanded, P s → P (s.settleMappedParent p.1 p.2).1) (h : P s) : P s.settleMapped.1 := by
  have hfold : ∀ (l : List (TaskId × List TaskId)) (acc : Run × Bool), (∀ p ∈ l, p ∈ acc.1.expanded) → P acc.1 →
      P (l.foldl (fun (acc : Run × Bool) p => ((acc.1.settleMappedParent p.1 p.2).1,
        acc.2 || (acc.1.settleMappedParent p.1 p.2).2)) acc).1 := by
    intro l
    induction l with
    | nil => exact fun _ _ hacc => hacc
    | cons p l ih =>
        intro acc hmem hacc
        refine ih _ (fun q hq => ?_) (hstep acc.1 p (hmem p List.mem_cons_self) hacc)
        rw [settleMappedParent_expanded]
        exact hmem q (List.mem_cons_of_mem _ hq)
  exact hfold s.expanded (s, false) (fun _ hp => hp) h

/-! ### Instances that have failed -/

/-- An instance that has failed is not pending. -/
def Rested (s : Run) : Prop := ∀ u, u.index ≠ none → (s.node u).status = .failed → u ∉ s.pending

theorem Rested.of_only (h : s.Rested) (ho : Only s s' t)
    (ht : t.index ≠ none → (s'.node t).status = .failed → t ∉ s'.pending) : s'.Rested := by
  intro u hindex hstatus
  by_cases hut : u = t
  · subst hut
    exact ht hindex hstatus
  · have hview := ho.view u hut
    have hnode : s'.node u = s.node u := congrArg View.node hview
    have hpending : decide (u ∈ s'.pending) = decide (u ∈ s.pending) := congrArg View.pending hview
    rw [decide_eq_decide.mp hpending]
    exact h u hindex (hnode ▸ hstatus)

theorem Rested.of_agrees (h : s.Rested) (ha : Agrees s s') : s'.Rested := by
  intro u hindex hstatus
  rw [ha.pending]
  exact h u hindex (ha.node ▸ hstatus)

theorem Rested.settleMappedParent (h : s.Rested) (hs : s.Sound) {p : TaskId × List TaskId} (hp : p ∈ s.expanded) :
    (s.settleMappedParent p.1 p.2).1.Rested := by
  have hindex : p.1.index = none := (hs.parents p hp).1
  have habsurd : ∀ {Q : Prop}, p.1.index ≠ none → Q := fun hne => absurd hindex hne
  unfold Run.settleMappedParent
  split
  · exact h
  · split
    · exact h
    · exact h.of_only (only_setStatus hs.apart .failed) habsurd
    · exact h.of_only (only_record hs.apart _) habsurd

theorem Rested.settleMapped (h : s.Rested) (hs : s.Sound) : s.settleMapped.1.Rested := by
  have hkept : s.settleMapped.1.Sound ∧ s.settleMapped.1.Rested := by
    apply settleMapped_keep (P := fun x => x.Sound ∧ x.Rested) _ ⟨hs, h⟩
    rintro x p hp ⟨hsound, hrested⟩
    exact ⟨hsound.settleMappedParent p.1 p.2, hrested.settleMappedParent hsound hp⟩
  exact hkept.2

theorem Rested.cancelInflight (h : s.Rested) (hs : s.Sound) : s.cancelInflight.Rested := by
  cases hworkers : s.workers with
  | true =>
      have heq : s.cancelInflight = { s with cancelled := true } := if_pos hworkers
      rw [heq]
      exact h
  | false =>
      rw [cancelInflight_eq hworkers]
      intro u hindex hstatus hpending
      have hflying : u ∉ s.running.map Prod.snd := fun hf => hs.not_pending_of_running hf hpending
      have hstatus : (if u ∈ s.running.map Prod.snd then { s.node u with status := .failed } else s.node u).status = .failed :=
        hstatus
      rw [if_neg hflying] at hstatus
      exact h u hindex hstatus hpending

theorem Rested.expandMapped (h : s.Rested) (hs : s.Sound) (ht : t ∈ s.pending) (hmapped : (s.node t).Mapped) :
    (s.expandMapped t).Rested := by
  have hindex : t.index = none := by
    by_contra hne
    exact ((hs.indexed t (hs.of_pending ht).1).mpr hne) hmapped.2
  rcases expandMapped_cases hs.apart t with honly | ⟨source, items, -, -, -, -, he⟩
  · exact h.of_only honly fun hne => absurd hindex hne
  · rw [he]
    intro u hu hstatus hpending
    have hview := view_expand s t ((s.node t).dependencies.idxOf source) items u
    by_cases hinstance : u ∈ instanceIds t items
    · rw [if_pos hinstance] at hview
      have hnode : (s.expand t _ items).node u = _ := congrArg View.node hview
      rw [hnode] at hstatus
      cases hstatus
    · have hut : u ≠ t := fun heq => hu (heq ▸ hindex)
      rw [if_neg hinstance, if_neg hut] at hview
      have hnode : (s.expand t _ items).node u = s.node u := congrArg View.node hview
      rw [hnode] at hstatus
      rcases mem_expand_pending.mp hpending with ⟨hold, -⟩ | hnew
      · exact h u hu hstatus hold
      · exact hinstance hnew

theorem Rested.ends (h : s.Rested) (hs : s.Sound) {thread flight : Nat} {ending : Ending} {swept : Bool}
    (hfits : s.Fits (.ends thread flight ending swept)) : (s.ends thread flight ending swept).Rested := by
  cases htask : s.taskOf flight with
  | none =>
      unfold Run.ends
      rw [htask]
      exact h
  | some t =>
      apply h.of_only (only_ends hs.apart htask thread ending swept)
      intro _ hstatus hpending
      -- The task has been started, so that it is pending only to be retried.
      have hflying : 0 < s.starts.count t :=
        (hs.counted t).flying (decide_eq_true (List.mem_map_of_mem (mem_of_taskOf htask)))
      have hstarts : 0 < (s.ends thread flight ending swept).starts.count t := by
        rcases starts_ends s thread flight ending swept hfits with hsame | ⟨u, -, hnew, -⟩
        · rw [hsame]
          exact hflying
        · rw [hnew]
          exact hflying.trans_le (List.count_le_count_cons)
      have hdue := ((hs.ends thread flight ending swept hfits).counted t).again (decide_eq_true hpending) hstarts
      have hnode : ((s.ends thread flight ending swept).node t).status.Due := hdue.1
      rw [hstatus] at hnode
      rcases hnode with hnode | hnode
      · cases hnode
      · cases hnode

theorem Rested.turn (h : s.Rested) (hs : s.Sound) {thread : Nat} {cancelled : Bool}
    (hfits : s.Fits (.turn thread cancelled)) : (s.turn thread cancelled).Rested := by
  unfold Run.turn
  split
  · exact h
  · exact h.of_agrees (agrees_setFrames _ _ _)
  · split
    · exact (h.cancelInflight hs).of_agrees (agrees_setFrames _ _ _)
    · exact (h.settleMapped hs).of_agrees (agrees_setFrames _ _ _)
  · next t rest again outer hframes =>
      have ht : t ∈ s.pending := hfits t (by simp [next, hframes])
      split
      · refine (h.of_only (only_skip hs.apart) fun _ _ => ?_).of_agrees (agrees_setFrames _ _ _)
        exact not_mem_removePending
      · split
        · next hmapped => exact (h.expandMapped hs ht hmapped).of_agrees (agrees_setFrames _ _ _)
        · have hagrees := agrees_setFrames s thread (⟨rest, again⟩ :: outer)
          have honly := only_spawnTask (hagrees.apart hs.apart) (hs.of_pending ht).2.1 thread
          refine (h.of_agrees hagrees).of_only honly fun hindex hstatus => ?_
          have hbefore : ((s.setFrames thread (⟨rest, again⟩ :: outer)).node t).status = .failed :=
            status_spawnTask _ thread t hstatus
          exact absurd ht (h t hindex hbefore)

theorem Rested.perform (h : s.Rested) (hs : s.Sound) {act : Act} (hfits : s.Fits act) : (s.perform act).Rested := by
  unfold Run.perform
  split
  · exact h
  · cases act with
    | turn thread cancelled => exact h.turn hs hfits
    | ends thread flight ending swept => exact h.ends hs hfits
    | checkpoint label => exact h
    | cached key v => exact h

/-! ### The list that a mapped step comes to -/

/-- The results of the instances, with nil in the place of those that have none. -/
def joined (s : Run) (instances : List TaskId) : List Value := instances.map fun i => (s.results i).getD .nil

/-- A settled task has the results of its instances, of which nothing is to be expected any more. -/
def Collected (s : Run) : Prop :=
  ∀ p ∈ s.expanded, ∀ v, s.results p.1 = some v → v = .list (s.joined p.2) ∧ ∀ i ∈ p.2, s.kind i ≠ none ∧ ¬ (s.view i).Active

theorem Collected.of_settles (hc : s.Collected) (h : s.Sound) (hs : Settles s s')
    (hold : ∀ p ∈ s'.expanded, s.results p.1 = none → ∀ v, s'.results p.1 = some v →
      v = .list (s'.joined p.2) ∧ ∀ i ∈ p.2, s'.kind i ≠ none ∧ ¬ (s'.view i).Active) : s'.Collected := by
  intro p hp v hv
  cases hresult : s.results p.1 with
  | none => exact hold p hp hresult v hv
  | some w =>
      have hkind : s.kind p.1 = some .completed := by
        unfold kind
        rw [hresult]
        rfl
      have hinactive := h.inactive hkind (by decide)
      have hsame : s'.results p.1 = s.results p.1 := congrArg View.result (hs.view p.1 hinactive)
      have hmem : p ∈ s.expanded := (hs.expanded p hp).resolve_right hinactive
      obtain ⟨hlist, hall⟩ := hc p hmem v (hsame ▸ hv)
      have hview : ∀ i ∈ p.2, s'.view i = s.view i := fun i hi => hs.view i (hall i hi).2
      refine ⟨?_, fun i hi => ?_⟩
      · have hjoined : s'.joined p.2 = s.joined p.2 :=
          List.map_congr_left fun i hi => by rw [show s'.results i = s.results i from congrArg View.result (hview i hi)]
        rw [hjoined]
        exact hlist
      · rw [kind_of_view (hview i hi), hview i hi]
        exact hall i hi

theorem Collected.of_only (hc : s.Collected) (h : s.Sound) (ho : Only s s' t)
    (ht : t ∈ s.pending ∨ t ∈ s.running.map Prod.snd) : s'.Collected := by
  have hactive : (s.view t).Active := ht.elim active_of_pending active_of_running
  apply hc.of_settles h (ho.settles hactive)
  intro p hp hnone v hv
  obtain ⟨-, hmapped, -, hpending, -⟩ := h.parents p (ho.expanded ▸ hp)
  have hne : p.1 ≠ t := by
    rintro rfl
    rcases ht with ht | ht
    · exact hpending ht
    · exact (h.of_running ht).2.2.2.2 hmapped
  have hsame : s'.results p.1 = s.results p.1 := congrArg View.result (ho.view p.1 hne)
  rw [hsame, hnone] at hv
  cases hv

theorem Collected.of_results (hc : s.Collected) (h : s.Sound) (hs : Settles s s') (hresults : s'.results = s.results) :
    s'.Collected := by
  apply hc.of_settles h hs
  intro p _ hnone v hv
  rw [hresults, hnone] at hv
  cases hv

/-- The instances of a task that is settled have come to something, and have no more attempts before them. -/
theorem outcomes_joined {allowFailure : Bool} {instances : List TaskId} {values : List Value}
    (h : s.outcomes allowFailure instances = some (some values)) :
    values = s.joined instances ∧ ∀ i ∈ instances, s.kind i ≠ none := by
  induction instances generalizing values with
  | nil =>
      cases h
      exact ⟨rfl, fun i hi => absurd hi List.not_mem_nil⟩
  | cons i rest ih =>
      have hcons : ∀ v, s.kind i ≠ none → (s.results i).getD .nil = v →
          (s.outcomes allowFailure rest).map (·.map (v :: ·)) = some (some values) →
            values = s.joined (i :: rest) ∧ ∀ u ∈ i :: rest, s.kind u ≠ none := by
        rintro v hkind rfl hrest
        obtain ⟨found, hfound, hsome⟩ := Option.map_eq_some_iff.mp hrest
        obtain ⟨tail, rfl, rfl⟩ := Option.map_eq_some_iff.mp hsome
        obtain ⟨rfl, hall⟩ := ih hfound
        exact ⟨rfl, List.forall_mem_cons.mpr ⟨hkind, hall⟩⟩
      unfold outcomes at h
      split at h
      · next v hv =>
          apply hcons v _ (by rw [hv]; rfl) h
          unfold kind
          rw [hv]
          exact Option.some_ne_none _
      · next hnone =>
          split at h
          · next hcases =>
              split at h
              · cases h
              · apply hcons .nil _ (by rw [hnone]; rfl) h
                unfold kind
                rw [hnone, if_neg (by decide)]
                split_ifs with hfailed hskipped
                · exact Option.some_ne_none _
                · exact Option.some_ne_none _
                · exact absurd hcases (not_or.mpr ⟨hfailed, hskipped⟩)
          · cases h

theorem Rested.inactive (hr : s.Rested) (h : s.Sound) (hlisted : u ∈ s.tasks) (hindex : u.index ≠ none)
    (hkind : s.kind u ≠ none) : ¬ (s.view u).Active := by
  obtain ⟨k, hk⟩ := Option.ne_none_iff_exists'.mp hkind
  by_cases hfailed : k = .failed
  · subst hfailed
    have hother : ∀ status : TaskStatus, (s.node u).status = status → status = .failed := fun _ hs => hs ▸ status_of_kind hk
    rintro (ha | ha | ha | ha)
    · exact hr u hindex (status_of_kind hk) (of_decide_eq_true ha)
    · cases hother _ (h.of_running (of_decide_eq_true ha)).2.2.2.1
    · cases hother _ ha
    · exact of_decide_eq_false ha hlisted
  · exact h.inactive hk hfailed

theorem Collected.settleMappedParent (hc : s.Collected) (hr : s.Rested) (h : s.Sound) (hg : s.Gathered)
    {p : TaskId × List TaskId} (hp : p ∈ s.expanded) : (s.settleMappedParent p.1 p.2).1.Collected := by
  unfold Run.settleMappedParent
  split
  · exact hc
  · next hstatus =>
      have hactive := active_of_expanded (not_not.mp hstatus)
      split
      · exact hc
      · exact hc.of_results h ((only_setStatus h.apart .failed).settles hactive) rfl
      · next values houtcomes =>
          have honly : Only s (s.record p.1 (.list values)) p.1 := only_record h.apart _
          show (s.record p.1 (.list values)).Collected
          refine hc.of_settles h (honly.settles hactive) fun q hq hnone v hv => ?_
          have hqp : q.1 = p.1 := by
            by_contra hne
            have hsame : (s.record p.1 (.list values)).results q.1 = s.results q.1 := congrArg View.result (honly.view q.1 hne)
            rw [hsame, hnone] at hv
            cases hv
          obtain rfl : q = p := hg.once q hq p hp hqp
          have hvalue : (s.record q.1 (.list values)).results q.1 = some (.list values) := Function.update_self _ _ _
          obtain rfl : Value.list values = v := Option.some.inj (hvalue.symm.trans hv)
          obtain ⟨rfl, hall⟩ := outcomes_joined houtcomes
          -- The instances are other tasks than the settled one, and stay as they are.
          have hview : ∀ i ∈ q.2, (s.record q.1 (.list (s.joined q.2))).view i = s.view i := by
            intro i hi
            apply honly.view i
            rintro rfl
            exact ((h.parents q hp).2.2.2.2 _ hi).index (h.parents q hp).1
          refine ⟨congrArg Value.list (List.map_congr_left fun i hi => ?_), fun i hi => ?_⟩
          · have hsame : (s.record q.1 (.list (s.joined q.2))).results i = s.results i := congrArg View.result (hview i hi)
            rw [hsame]
          · have hinstance := (h.parents q hp).2.2.2.2 i hi
            have hkind := kind_of_view (hview i hi)
            have hinactive := hr.inactive h hinstance.listed hinstance.index (hall i hi)
            rw [← hview i hi] at hinactive
            exact ⟨hkind ▸ hall i hi, hinactive⟩

/-- What is known of the expanded tasks and of their instances in every state of a run. -/
structure Joins (s : Run) : Prop where
  sound : s.Sound
  gathered : s.Gathered
  rested : s.Rested
  collected : s.Collected

theorem Joins.settleMapped (h : s.Joins) : s.settleMapped.1.Joins := by
  apply settleMapped_keep _ h
  rintro x p hp ⟨hsound, hgathered, hrested, hcollected⟩
  exact ⟨hsound.settleMappedParent p.1 p.2, hgathered.settleMappedParent hsound hp, hrested.settleMappedParent hsound hp,
    hcollected.settleMappedParent hrested hsound hgathered hp⟩

theorem Collected.expandMapped (hc : s.Collected) (h : s.Sound) (ht : t ∈ s.pending) (hmapped : (s.node t).Mapped) :
    (s.expandMapped t).Collected := by
  rcases expandMapped_cases h.apart t with honly | ⟨source, items, -, -, -, -, he⟩
  · exact hc.of_only h honly (.inl ht)
  · rw [he]
    exact hc.of_results h (settles_expand h ht hmapped _ items) rfl

theorem Collected.of_agrees (hc : s.Collected) (h : s.Sound) (ha : Agrees s s') : s'.Collected :=
  hc.of_results h ha.settles ha.results

theorem Joins.collected_turn (hj : s.Joins) {thread : Nat} {cancelled : Bool} (hfits : s.Fits (.turn thread cancelled)) :
    (s.turn thread cancelled).Collected := by
  have h := hj.sound
  have hc := hj.collected
  unfold Run.turn
  split
  · exact hc
  · exact hc.of_agrees h (agrees_setFrames _ _ _)
  · split
    · have hresults : s.cancelInflight.results = s.results := by
        unfold Run.cancelInflight
        split
        · rfl
        · rfl
      exact (hc.of_results h (settles_cancelInflight s) hresults).of_agrees h.cancelInflight (agrees_setFrames _ _ _)
    · exact hj.settleMapped.collected.of_agrees h.settleMapped (agrees_setFrames _ _ _)
  · next t rest again outer hframes =>
      have ht : t ∈ s.pending := hfits t (by simp [next, hframes])
      split
      · exact (hc.of_only h (only_skip h.apart) (.inl ht)).of_agrees (h.skip ht) (agrees_setFrames _ _ _)
      · split
        · next hmapped =>
            exact (hc.expandMapped h ht hmapped).of_agrees (h.expandMapped ht hmapped) (agrees_setFrames _ _ _)
        · have hagrees := agrees_setFrames s thread (⟨rest, again⟩ :: outer)
          exact hc.of_only h (hagrees.only (only_spawnTask (hagrees.apart h.apart) (h.of_pending ht).2.1 thread)) (.inl ht)

theorem Joins.perform (hj : s.Joins) {act : Act} (hfits : s.Fits act) : (s.perform act).Joins := by
  have h := hj.sound
  have hc := hj.collected
  refine ⟨h.perform act hfits, hj.gathered.perform h hfits, hj.rested.perform h hfits, ?_⟩
  unfold Run.perform
  split
  · exact hc
  · cases act with
    | turn thread cancelled => exact hj.collected_turn hfits
    | ends thread flight ending swept =>
        simp only []
        cases htask : s.taskOf flight with
        | none =>
            unfold Run.ends
            rw [htask]
            exact hc
        | some t =>
            exact hc.of_only h (only_ends h.apart htask thread ending swept)
              (.inr (List.mem_map_of_mem (mem_of_taskOf htask)))
    | checkpoint label => exact hc.of_agrees h ⟨rfl, rfl, rfl, rfl, rfl, rfl, rfl, rfl, rfl, rfl⟩
    | cached key v => exact hc.of_agrees h ⟨rfl, rfl, rfl, rfl, rfl, rfl, rfl, rfl, rfl, rfl⟩

/-! ### When a mapped step settles -/

/-- The outcomes of its instances are all there, and settle an expanded task with a list. -/
def RipeAt (s : Run) (p : TaskId × List TaskId) : Prop :=
  (s.node p.1).status = .expanded ∧ ∃ values, s.outcomes (s.node p.1).allowFailure p.2 = some (some values)

/-- The run goes no further. -/
def Stopped (s : Run) : Prop := s.waiting ≠ none ∨ s.cancelled = true ∨ s.crashed = true

/-- An expanded task that can be settled has a pass before it, or the run goes no further. -/
def Punctual (s : Run) : Prop := ∀ p ∈ s.expanded, s.RipeAt p → s.Stopped ∨ s.Coming

theorem outcomes_congr {allowFailure : Bool} {instances : List TaskId} (h : ∀ i ∈ instances, s'.view i = s.view i) :
    s'.outcomes allowFailure instances = s.outcomes allowFailure instances := by
  induction instances with
  | nil => rfl
  | cons i rest ih =>
      have hview := h i List.mem_cons_self
      have hresult : s'.results i = s.results i := congrArg View.result hview
      have hnode : s'.node i = s.node i := congrArg View.node hview
      have hskipped : decide (i ∈ s'.skipped) = decide (i ∈ s.skipped) := congrArg View.skipped hview
      have hrest := ih fun u hu => h u (List.mem_cons_of_mem _ hu)
      simp only [outcomes, hresult, hnode, decide_eq_decide.mp hskipped, hrest]

/-- A step that leaves its task without an outcome, or fails it for good, makes no expanded task ripe. -/
theorem RipeAt.of_only (h : s.Sound) (ho : Only s s' t) (ht : t ∈ s.pending ∨ t ∈ s.running.map Prod.snd)
    (hkind : s'.kind t = none ∨ s'.kind t = some .failed ∧ (s.node t).allowFailure = false) {p : TaskId × List TaskId}
    (hp : p ∈ s.expanded) (hripe : s'.RipeAt p) : s.RipeAt p := by
  obtain ⟨-, hmapped, -, hpending, hinstances⟩ := h.parents p hp
  have hne : p.1 ≠ t := by
    rintro rfl
    rcases ht with ht | ht
    · exact hpending ht
    · exact (h.of_running ht).2.2.2.2 hmapped
  have hnode : s'.node p.1 = s.node p.1 := congrArg View.node (ho.view p.1 hne)
  obtain ⟨hstatus, values, houtcomes⟩ := hripe
  rw [hnode] at hstatus houtcomes
  have hout : t ∉ p.2 := by
    intro hmem
    rcases hkind with hnone | ⟨hfailed, hallow⟩
    · exact (outcomes_joined houtcomes).2 t hmem hnone
    · rcases outcomes_done houtcomes t hmem with hallowed | ⟨k, hk, hnot⟩
      · rw [← (hinstances t hmem).allowFailure, hallow] at hallowed
        cases hallowed
      · rw [hfailed] at hk
        exact hnot (Option.some.inj hk).symm
  refine ⟨hstatus, values, ?_⟩
  rw [← houtcomes]
  exact (outcomes_congr fun i hi => ho.view i fun hit => hout (hit ▸ hi)).symm

theorem Punctual.of_only (hq : s.Punctual) (h : s.Sound) (ho : Only s s' t) (ht : t ∈ s.pending ∨ t ∈ s.running.map Prod.snd)
    (hkind : s'.kind t = none ∨ s'.kind t = some .failed ∧ (s.node t).allowFailure = false)
    (hstopped : s.Stopped → s'.Stopped) (hcoming : s.Coming → s'.Coming) : s'.Punctual := by
  intro p hp hripe
  have hmem : p ∈ s.expanded := ho.expanded ▸ hp
  exact (hq p hmem (hripe.of_only h ho ht hkind hmem)).imp hstopped hcoming

theorem Punctual.of_agrees (hq : s.Punctual) (ha : Agrees s s') (hstopped : s.Stopped → s'.Stopped)
    (hcoming : s.Coming → s'.Coming) : s'.Punctual := by
  intro p hp hripe
  obtain ⟨hstatus, values, houtcomes⟩ := hripe
  have hbefore : s.outcomes (s'.node p.1).allowFailure p.2 = some (some values) :=
    (outcomes_congr fun i _ => ha.view i).symm.trans houtcomes
  rw [ha.node] at hstatus hbefore
  exact (hq p (ha.expanded ▸ hp) ⟨hstatus, values, hbefore⟩).imp hstopped hcoming

theorem kind_none (hresult : s.results t = none) (hskipped : t ∉ s.skipped) (hstatus : (s.node t).status ≠ .failed) :
    s.kind t = none := by
  unfold kind
  rw [hresult, if_neg (by decide), if_neg hstatus, if_neg hskipped]

theorem spawnTask_cases (s : Run) (thread : Nat) (t : TaskId) : (s.spawnTask thread t).Coming ∨
    s.spawnTask thread t = s ∨ s.spawnTask thread t = (s.start t).launch t := by
  unfold spawnTask
  split
  · exact .inr (.inl rfl)
  · split
    · exact .inr (.inl rfl)
    · split
      · exact .inl (coming_call _ thread)
      · exact .inr (.inr rfl)

theorem Coming.of_frames (h : s.Coming) (hframes : s'.frames = s.frames) : s'.Coming := by
  obtain ⟨thread, frame, hframe, hagain⟩ := h
  exact ⟨thread, frame, hframes ▸ hframe, hagain⟩

theorem kind_launch (hresult : s.results t = none) (hskipped : t ∉ s.skipped) : ((s.start t).launch t).kind t = none := by
  refine kind_none hresult hskipped ?_
  have hnode : ((s.start t).launch t).node t = (s.start t).node t := rfl
  rw [hnode, node_start]
  exact nofun

theorem Coming.punctual (h : s.Coming) : s.Punctual := fun _ _ _ => .inr h

/-- Nothing but the frames, the flags and the tasks is looked at. -/
structure Onward (s s' : Run) : Prop where
  frames : s'.frames = s.frames
  waiting : s'.waiting = s.waiting
  cancelled : s'.cancelled = s.cancelled
  crashed : s'.crashed = s.crashed

theorem Onward.stopped (h : Onward s s') (hs : s.Stopped) : s'.Stopped := by
  unfold Stopped
  rw [h.waiting, h.cancelled, h.crashed]
  exact hs

theorem markPending_eq (s : Run) (t : TaskId) : s.markPending t = { s with pending := (s.markPending t).pending } := by
  unfold markPending
  split
  · rfl
  · rfl

theorem Punctual.failTask (hq : s.Punctual) (h : s.Sound) {f : Nat} (ht : (f, t) ∈ s.running) (thread : Nat) (swept : Bool) :
    ((s.pop f).failTask thread t swept).Punctual := by
  have hmem : t ∈ s.running.map Prod.snd := List.mem_map_of_mem ht
  obtain ⟨-, hskipped, hresult, -⟩ := h.of_running hmem
  have hpop : Only s (s.pop f) t := only_pop h.apart ht
  have honly : Only s ((s.pop f).failTask thread t swept) t :=
    hpop.trans (only_failTask hpop.apart (not_mem_pop h.apart ht) thread swept)
  have hkeep : ∀ {x : Run}, Only s x t → Onward s x →
      (x.kind t = none ∨ x.kind t = some .failed ∧ (s.node t).allowFailure = false) → x.Punctual := by
    intro x ho hon hkind
    exact hq.of_only h ho (.inr hmem) hkind hon.stopped fun hc => hc.of_frames hon.frames
  have hdue : ∀ {x : Run}, x.results = s.results → x.skipped = s.skipped → (x.node t).status ≠ .failed → x.kind t = none := by
    intro x hresults hskips hstatus
    exact kind_none (hresults ▸ hresult) (hskips ▸ hskipped) hstatus
  have hnode : ∀ status : TaskStatus, ((s.pop f).setStatus t status).node t = { s.node t with status := status } :=
    fun status => Function.update_self t _ s.node
  unfold Run.failTask at honly ⊢
  split
  · next hattempts =>
      rw [if_pos hattempts] at honly
      split
      · next hswept =>
          rw [if_pos hswept] at honly
          rw [markPending_eq] at honly ⊢
          apply hkeep honly ⟨rfl, rfl, rfl, rfl⟩
          left
          refine hdue rfl rfl ?_
          show (((s.pop f).setStatus t .retryScheduled).node t).status ≠ .failed
          rw [hnode]
          exact nofun
      · next hswept =>
          rw [if_neg hswept] at honly
          rcases spawnTask_cases (((s.pop f).setStatus t .retrying).markPending t) thread t with hcoming | hsame | hlaunch
          · exact hcoming.punctual
          · rw [hsame] at honly ⊢
            rw [markPending_eq] at honly ⊢
            apply hkeep honly ⟨rfl, rfl, rfl, rfl⟩
            left
            refine hdue rfl rfl ?_
            show (((s.pop f).setStatus t .retrying).node t).status ≠ .failed
            rw [hnode]
            exact nofun
          · rw [hlaunch] at honly ⊢
            rw [markPending_eq] at honly ⊢
            exact hkeep honly ⟨rfl, rfl, rfl, rfl⟩ (.inl (kind_launch hresult hskipped))
  · next hattempts =>
      rw [if_neg hattempts] at honly
      split
      · exact (coming_call _ thread).punctual
      · next hallow =>
          rw [if_neg hallow] at honly
          split
          · next hfailed =>
              rw [if_pos hfailed] at honly
              refine hkeep honly ⟨rfl, rfl, rfl, rfl⟩ (.inr ⟨?_, Bool.eq_false_iff.mpr hallow⟩)
              have hresult : ((s.pop f).setStatus t .failed).results t = none := hresult
              unfold kind
              rw [hresult, if_neg (by decide), hnode, if_pos rfl]
          · exact (coming_call _ thread).punctual

theorem punctual_complete {f thread : Nat} {v : Value} {swept : Bool}
    (hkey : s.workers = true → ¬ s.KeyMissing t) : ((s.pop f).complete thread t v swept).Punctual := by
  unfold Run.complete
  simp only []
  split
  · next hmissing =>
      split
      · next hworkers => exact absurd (keyMissing_of_record hmissing) (hkey hworkers)
      · exact fun _ _ _ => .inl (.inr (.inr rfl))
  · exact (coming_call _ thread).punctual

theorem Punctual.ends (hq : s.Punctual) (h : s.Sound) {thread flight : Nat} {ending : Ending} {swept : Bool}
    (hfits : s.Fits (.ends thread flight ending swept)) : (s.ends thread flight ending swept).Punctual := by
  cases htask : s.taskOf flight with
  | none =>
      unfold Run.ends
      rw [htask]
      exact hq
  | some t =>
      have ht := mem_of_taskOf htask
      unfold Run.ends
      rw [htask]
      cases ending with
      | waits => exact fun _ _ _ => .inl (.inl (Option.some_ne_none t))
      | returned v => exact punctual_complete fun hworkers => hfits hworkers trivial t htask
      | errorValue v =>
          simp only []
          split
          · exact hq.failTask h ht thread swept
          · next hflow =>
              have hrecorded : s.Recorded (.errorValue v) := Bool.eq_false_iff.mpr hflow
              exact punctual_complete fun hworkers => hfits hworkers hrecorded t htask
      | raised => exact hq.failTask h ht thread swept

theorem Punctual.turn (hq : s.Punctual) (h : s.Sound) {thread : Nat} {cancelled : Bool}
    (hfits : s.Fits (.turn thread cancelled)) : (s.turn thread cancelled).Punctual := by
  have hset : ∀ {x : Run} {frames : List Frame}, x.Punctual → (∀ frame ∈ x.frames thread, frame.again = true →
      ∃ frame' ∈ frames, frame'.again = true) → (x.setFrames thread frames).Punctual := by
    intro x frames hx hframes
    refine hx.of_agrees (agrees_setFrames _ _ _) id ?_
    rintro ⟨thread', frame, hframe, hagain⟩
    by_cases hthread : thread' = thread
    · subst hthread
      obtain ⟨frame', hframe', hagain'⟩ := hframes frame hframe hagain
      exact ⟨thread', frame', mem_setFrames_self hframe', hagain'⟩
    · refine ⟨thread', frame, ?_, hagain⟩
      show frame ∈ Function.update x.frames thread frames thread'
      rw [Function.update_of_ne hthread]
      exact hframe
  have hagain : ∀ {x : Run} {rest : List TaskId} {outer : List Frame}, (x.setFrames thread (⟨rest, true⟩ :: outer)).Punctual :=
    fun {x rest outer} => Coming.punctual ⟨thread, ⟨rest, true⟩, mem_setFrames_self List.mem_cons_self, rfl⟩
  unfold Run.turn
  split
  · exact hq
  · next outer hframes =>
      apply hset hq
      rw [hframes]
      intro frame hframe hagain
      rcases List.mem_cons.mp hframe with rfl | hframe
      · cases hagain
      · exact ⟨frame, hframe, hagain⟩
  · next outer hframes =>
      split
      · refine fun _ _ _ => .inl (.inr (.inl ?_))
        show s.cancelInflight.cancelled = true
        unfold Run.cancelInflight
        split
        · rfl
        · rfl
      · simp only []
        cases hchanged : s.settleMapped.2 with
        | true => exact hagain
        | false =>
            -- The pass has found no expanded task that can be settled.
            obtain ⟨hsame, hnone⟩ := settleMapped_none hchanged
            rw [hsame]
            rintro p hp ⟨hstatus, values, houtcomes⟩
            have hagrees := agrees_setFrames s thread (⟨s.readyTasks, false⟩ :: outer)
            have hbefore : s.outcomes (s.node p.1).allowFailure p.2 = some (some values) :=
              (outcomes_congr fun i _ => hagrees.view i).symm.trans houtcomes
            rw [hnone p hp hstatus] at hbefore
            cases hbefore
  · next t rest again outer hframes =>
      have ht : t ∈ s.pending := hfits t (by simp [next, hframes])
      split
      · exact hagain
      · split
        · exact hagain
        · have hagrees := agrees_setFrames s thread (⟨rest, again⟩ :: outer)
          have hbefore : (s.setFrames thread (⟨rest, again⟩ :: outer)).Punctual := by
            apply hset hq
            rw [hframes]
            intro frame hframe hflag
            rcases List.mem_cons.mp hframe with rfl | hframe
            · exact ⟨_, List.mem_cons_self, hflag⟩
            · exact ⟨frame, List.mem_cons_of_mem _ hframe, hflag⟩
          obtain ⟨-, hflying, hskipped, hresult, -⟩ := h.of_pending ht
          have hsound := hagrees.sound h
          have honly := only_spawnTask hsound.apart hflying thread
          rcases spawnTask_cases (s.setFrames thread (⟨rest, again⟩ :: outer)) thread t with hcoming | hsame | hlaunch
          · exact hcoming.punctual
          · rw [hsame]
            exact hbefore
          · rw [hlaunch] at honly ⊢
            exact hbefore.of_only hsound honly (.inl ht) (.inl (kind_launch hresult hskipped)) id id

theorem Punctual.perform (hq : s.Punctual) (h : s.Sound) {act : Act} (hfits : s.Fits act) : (s.perform act).Punctual := by
  unfold Run.perform
  split
  · exact hq
  · cases act with
    | turn thread cancelled => exact hq.turn h hfits
    | ends thread flight ending swept => exact hq.ends h hfits
    | checkpoint label => exact hq.of_agrees ⟨rfl, rfl, rfl, rfl, rfl, rfl, rfl, rfl, rfl, rfl⟩ id id
    | cached key v => exact hq.of_agrees ⟨rfl, rfl, rfl, rfl, rfl, rfl, rfl, rfl, rfl, rfl⟩ id id

theorem settleMappedParent_result (q : TaskId × List TaskId) (h : s.results u ≠ none) :
    (s.settleMappedParent q.1 q.2).1.results u ≠ none := by
  unfold Run.settleMappedParent
  split
  · exact h
  · split
    · exact h
    · exact h
    · next values _ =>
        show Function.update s.results q.1 (some (.list values)) u ≠ none
        by_cases hu : u = q.1
        · rw [hu, Function.update_self]
          exact Option.some_ne_none _
        · rw [Function.update_of_ne hu]
          exact h

theorem settleMappedParent_ripe {p : TaskId × List TaskId} (h : s.RipeAt p) :
    (s.settleMappedParent p.1 p.2).1.results p.1 ≠ none := by
  obtain ⟨hstatus, values, houtcomes⟩ := h
  have hsettled : (s.settleMappedParent p.1 p.2).1.results p.1 = some (.list values) := by
    unfold Run.settleMappedParent
    rw [if_neg (not_not.mpr hstatus), houtcomes]
    exact Function.update_self _ _ _
  rw [hsettled]
  exact Option.some_ne_none _

theorem Joins.settled_of_ripe (hj : s.Joins) {p : TaskId × List TaskId} (hp : p ∈ s.expanded) (hripe : s.RipeAt p) :
    s.settleMapped.1.results p.1 ≠ none := by
  have hover : ∀ (l : List (TaskId × List TaskId)) (acc : Run × Bool), acc.1.results p.1 ≠ none →
      (l.foldl (fun (acc : Run × Bool) q => ((acc.1.settleMappedParent q.1 q.2).1,
        acc.2 || (acc.1.settleMappedParent q.1 q.2).2)) acc).1.results p.1 ≠ none := by
    intro l
    induction l with
    | nil => exact fun _ h => h
    | cons q l ih => exact fun acc h => ih _ (settleMappedParent_result q h)
  have hfold : ∀ (l : List (TaskId × List TaskId)) (acc : Run × Bool), p ∈ l → (∀ q ∈ l, q ∈ acc.1.expanded) →
      acc.1.Sound → acc.1.Gathered → acc.1.RipeAt p →
      (l.foldl (fun (acc : Run × Bool) q => ((acc.1.settleMappedParent q.1 q.2).1,
        acc.2 || (acc.1.settleMappedParent q.1 q.2).2)) acc).1.results p.1 ≠ none := by
    intro l
    induction l with
    | nil => exact fun _ hmem => absurd hmem List.not_mem_nil
    | cons q l ih =>
        intro acc hmem hall hs hg hripe
        by_cases hqp : q = p
        · subst hqp
          exact hover l _ (settleMappedParent_ripe hripe)
        · -- Another task is settled first, which is not an instance.
          have hq := hall q List.mem_cons_self
          have hp := hall p hmem
          have hne : p.1 ≠ q.1 := fun he => hqp (hg.once q hq p hp he.symm)
          have hview : ∀ u, u ≠ q.1 → (acc.1.settleMappedParent q.1 q.2).1.view u = acc.1.view u := by
            intro u hu
            unfold Run.settleMappedParent
            split
            · rfl
            · split
              · rfl
              · exact (only_setStatus hs.apart .failed).view u hu
              · exact (only_record hs.apart _).view u hu
          have hnode : (acc.1.settleMappedParent q.1 q.2).1.node p.1 = acc.1.node p.1 := congrArg View.node (hview p.1 hne)
          refine ih _ ((List.mem_cons.mp hmem).resolve_left (Ne.symm hqp)) (fun r hr => ?_) (hs.settleMappedParent q.1 q.2)
            (hg.settleMappedParent hs hq) ?_
          · rw [settleMappedParent_expanded]
            exact hall r (List.mem_cons_of_mem _ hr)
          · obtain ⟨hstatus, values, houtcomes⟩ := hripe
            refine ⟨hnode ▸ hstatus, values, ?_⟩
            show (acc.1.settleMappedParent q.1 q.2).1.outcomes _ p.2 = _
            rw [hnode, ← houtcomes]
            apply outcomes_congr
            intro i hi
            apply hview i
            rintro rfl
            exact ((hs.parents p hp).2.2.2.2 _ hi).index (hs.parents q hq).1
  exact hfold s.expanded (s, false) hp (fun _ hq => hq) hj.sound hj.gathered hripe

/-! ### What is expected of a mapped step -/

/-- Every instance has a result, has been skipped, or has failed where that is allowed. One that has stopped at a wait has nil as
its result. -/
def AllSettled (s : Run) (allowFailure : Bool) (instances : List TaskId) : Prop :=
  ∀ i ∈ instances, s.kind i ≠ none ∧ (s.kind i = some .failed → allowFailure = true)

theorem outcomes_of_settled {allowFailure : Bool} {instances : List TaskId} (h : s.AllSettled allowFailure instances) :
    s.outcomes allowFailure instances = some (some (s.joined instances)) := by
  induction instances with
  | nil => rfl
  | cons i rest ih =>
      obtain ⟨hkind, hfailed⟩ := h i List.mem_cons_self
      have hrest := ih fun u hu => h u (List.mem_cons_of_mem _ hu)
      unfold kind at hkind hfailed
      unfold joined at hrest ⊢
      simp only [outcomes, hrest, List.map_cons]
      cases hresult : s.results i with
      | some v => rfl
      | none =>
          rw [hresult, if_neg (by decide)] at hkind hfailed
          by_cases hstatus : (s.node i).status = .failed
          · rw [if_pos hstatus] at hfailed
            rw [if_pos (.inl hstatus), hfailed rfl, if_neg (fun hand => by cases hand.1)]
            rfl
          · rw [if_neg hstatus] at hkind
            by_cases hskipped : i ∈ s.skipped
            · rw [if_pos (.inr hskipped), if_neg (fun hand => hstatus hand.2)]
              rfl
            · rw [if_neg hskipped] at hkind
              exact absurd rfl hkind

/-- What is expected of a task with its instances, expanded over the list that its source has come to. -/
structure MappedLawful (s : Run) (t : TaskId) (instances : List TaskId) (source : TaskId) (items : List Value) : Prop where
  /-- An instance is called with its item in the place of the list. -/
  position : (s.node t).dependencies.idxOf source < (s.node t).dependencies.length
  called : ∀ i (h : i < items.length), s.args ⟨t.task, some i⟩ =
    ((s.node t).dependencies.map fun dep => (s.results dep).getD .nil).set ((s.node t).dependencies.idxOf source) items[i]
  /-- It does not settle before its instances have, of which nothing else is to come. -/
  early : s.results t ≠ none → ∀ i ∈ instances, s.kind i ≠ none ∧ ¬ (s.view i).Active
  /-- It is settled in the next pass, and there is one to come unless the run goes no further. -/
  late : (s.node t).status = .expanded → s.AllSettled (s.node t).allowFailure instances →
    s.settleMapped.1.results t ≠ none ∧ (s.Stopped ∨ s.Coming)
  value : ∀ v, s.results t = some v →
    v = .list ((List.range items.length).map fun i => (s.results ⟨t.task, some i⟩).getD .nil)
  reported : ∀ v, s.results t = some v → s.stepResult t = some v

/-- No instance has failed and none has been skipped. -/
def Untroubled (s : Run) (instances : List TaskId) : Prop := ∀ i ∈ instances, (s.node i).status ≠ .failed ∧ i ∉ s.skipped

theorem Expansion.args {instances : List TaskId} {source : TaskId} {items : List Value}
    (h : s.Expansion t instances source items) (i : Nat) (hi : i < items.length) : s.args ⟨t.task, some i⟩ =
      ((s.node t).dependencies.map fun dep => (s.results dep).getD .nil).set ((s.node t).dependencies.idxOf source) items[i] := by
  unfold Run.args
  rw [h.node i hi]
  rfl

theorem Joins.stepResult_eq (hj : s.Joins) {p : TaskId × List TaskId} (hp : p ∈ s.expanded) :
    s.stepResult p.1 = if p.2.filterMap s.results = [] then none else some (.list (p.2.filterMap s.results)) := by
  obtain ⟨q, hfind⟩ := Option.isSome_iff_exists.mp
    (List.find?_isSome.mpr ⟨p, hp, decide_eq_true rfl⟩ : (s.expanded.find? (·.1 = p.1)).isSome)
  have hname : q.1 = p.1 := by simpa using List.find?_some hfind
  have hq : q = p := hj.gathered.once q (List.mem_of_find?_eq_some hfind) p hp hname
  unfold stepResult
  rw [hfind, hq]
  cases hvalues : p.2.filterMap s.results with
  | nil => simp only [hvalues, if_pos]
  | cons v rest => simp only [hvalues, if_neg (List.cons_ne_nil v rest)]

theorem filterMap_eq_joined {instances : List TaskId} (h : ∀ i ∈ instances, s.results i ≠ none) :
    instances.filterMap s.results = s.joined instances := by
  induction instances with
  | nil => rfl
  | cons i rest ih =>
      obtain ⟨v, hv⟩ := Option.ne_none_iff_exists'.mp (h i List.mem_cons_self)
      have hrest := ih fun u hu => h u (List.mem_cons_of_mem _ hu)
      unfold joined at hrest ⊢
      rw [List.filterMap_cons, hv, List.map_cons, hv, hrest]
      rfl

theorem results_of_length {instances : List TaskId} (h : (instances.filterMap s.results).length = instances.length) :
    ∀ i ∈ instances, s.results i ≠ none := by
  intro i hi
  rw [List.length_filterMap_eq_countP] at h
  exact Option.isSome_iff_ne_none.mp (List.countP_eq_length.mp h i hi)

theorem Sound.untroubled_iff (h : s.Sound) {instances : List TaskId} (hall : ∀ i ∈ instances, s.kind i ≠ none) :
    s.Untroubled instances ↔ ∀ i ∈ instances, s.results i ≠ none := by
  constructor
  · intro hcalm i hi hresult
    obtain ⟨hstatus, hskipped⟩ := hcalm i hi
    exact hall i hi (kind_none hresult hskipped hstatus)
  · intro hresults i hi
    obtain ⟨-, hskipped, hstatus⟩ := (h.placed i).result (hresults i hi)
    refine ⟨fun hfailed => ?_, of_decide_eq_false hskipped⟩
    rcases hstatus with hstatus | hstatus
    · exact absurd (hfailed.symm.trans hstatus) (by decide)
    · exact absurd (hfailed.symm.trans hstatus) (by decide)

/-! ### Every run -/

variable {node : TaskId → TaskNode} {tasks : List TaskId}

theorem Opens.expanded (ho : Opens node tasks s) (hunrun : Unrun node tasks) : s.expanded = [] := by
  cases ho with
  | fresh workers flow => rfl
  | resumed workers flow savedTasks storedPending order labels parked =>
      obtain ⟨x, hx, hcases⟩ := resumed_cases hunrun workers flow savedTasks storedPending order labels parked
      rcases hcases with ⟨-, he⟩ | ⟨-, -, he⟩
      · rw [he]
        exact hx.restored.expanded
      · rw [he]
        exact hx.restored.expanded

/-- What holds in every state of a run that has not ended before it began. -/
structure Mapping (node : TaskId → TaskNode) (tasks : List TaskId) (s : Run) : Prop where
  grown : Grown node tasks s
  joins : s.Joins
  punctual : s.Punctual

theorem Mapping.perform (h : Mapping node tasks s) {act : Act} (hfits : s.Fits act) : Mapping node tasks (s.perform act) :=
  ⟨h.grown.perform hfits, h.joins.perform hfits, h.punctual.perform h.joins.sound hfits⟩

theorem Mapping.run (h : Mapping node tasks s) (acts : List Act) (hfits : s.AllFit acts) : Mapping node tasks (s.run acts) := by
  induction acts generalizing s with
  | nil => exact h
  | cons act acts ih => exact ih (h.perform hfits.1) hfits.2

theorem Opens.mapping (ho : Opens node tasks s) (hunrun : Unrun node tasks) (hcalm : s.failed = false) :
    Mapping node tasks s := by
  have hgrown := ho.grown hunrun hcalm
  have hnone := ho.expanded hunrun
  have hempty : ∀ {P : TaskId × List TaskId → Prop}, ∀ p ∈ s.expanded, P p := by
    intro P p hp
    rw [hnone] at hp
    cases hp
  refine ⟨hgrown, ⟨hgrown.sound, ho.gathered hunrun, fun u hindex _ hpending => ?_, hempty⟩, hempty⟩
  have hlisted := (hgrown.sound.of_pending hpending).1
  rw [hgrown.listed, hnone, List.flatMap_nil, List.append_nil] at hlisted
  exact hindex (hunrun.2 u hlisted).2

theorem Opens.over (ho : Opens node tasks s) (hunrun : Unrun node tasks) (hfailed : s.failed = true) : s.Over := by
  cases ho with
  | fresh workers flow => cases hfailed
  | resumed workers flow savedTasks storedPending order labels parked =>
      obtain ⟨x, hx, hcases⟩ := resumed_cases hunrun workers flow savedTasks storedPending order labels parked
      have hr := hx.restored
      rcases hcases with ⟨hlost, he⟩ | ⟨hcalm, -, he⟩
      · obtain ⟨t, ht, hstatus, hallow⟩ := hx.blamed hlost
        have hindex : (x.node t).eachIndex = none := by
          rw [hr.same t]
          exact (hunrun.2 t ht).1
        rw [he]
        exact ⟨hlost, ⟨t, hr.listed ▸ ht, hstatus, hallow, hindex⟩, fun thread => congrFun hx.frames thread, hr.running⟩
      · rw [he] at hfailed
        exact absurd (hcalm.symm.trans hfailed) (by decide)

theorem Over.expanded (h : s.Over) (acts : List Act) : (s.run acts).expanded = s.expanded := by
  induction acts generalizing s with
  | nil => rfl
  | cons act acts ih =>
      apply (ih (h.perform act)).trans
      unfold Run.perform
      split
      · rfl
      · cases act with
        | turn thread cancelled => simp only [Run.turn, h.frames thread]
        | ends thread flight ending swept =>
            have htask : s.taskOf flight = none := by
              unfold taskOf
              rw [h.running]
              rfl
            simp only [Run.ends, htask]
        | checkpoint label => rfl
        | cached key v => rfl

/-- All but the report is as it is expected to be in any case, and the report is if no instance of a settled step has failed or
has been skipped. -/
theorem Mapping.lawful_of_expansion (h : Mapping node tasks s) {p : TaskId × List TaskId} (hp : p ∈ s.expanded) {source : TaskId}
    {items : List Value} (hexpansion : s.Expansion p.1 p.2 source items) :
    s.MappedLawful p.1 p.2 source items ↔ (s.results p.1 ≠ none → s.Untroubled p.2) := by
  have hj := h.joins
  have hjoined : s.joined p.2 = (List.range items.length).map fun i => (s.results ⟨p.1.task, some i⟩).getD .nil := by
    rw [hexpansion.instances]
    exact List.map_map
  have hlength : (s.joined p.2).length = p.2.length := List.length_map _
  have hstep := hj.stepResult_eq hp
  constructor
  · intro hlawful hsettled
    obtain ⟨v, hv⟩ := Option.ne_none_iff_exists'.mp hsettled
    have hvalue := (hj.collected p hp v hv).1
    have hreport := hlawful.reported v hv
    rw [hstep, hvalue] at hreport
    split at hreport
    · cases hreport
    · have hsame : p.2.filterMap s.results = s.joined p.2 := Value.list.inj (Option.some.inj hreport)
      have hall := results_of_length ((congrArg List.length hsame).trans hlength)
      exact (hj.sound.untroubled_iff fun i hi => ((hj.collected p hp v hv).2 i hi).1).mpr hall
  · intro hcalm
    refine ⟨?_, hexpansion.args, ?_, fun hstatus hall => ?_, fun v hv => ?_, fun v hv => ?_⟩
    · exact List.idxOf_lt_length_iff.mpr (List.mem_of_find?_eq_some hexpansion.found)
    · intro hsettled i hi
      obtain ⟨v, hv⟩ := Option.ne_none_iff_exists'.mp hsettled
      exact (hj.collected p hp v hv).2 i hi
    · have hripe : s.RipeAt p := ⟨hstatus, _, outcomes_of_settled hall⟩
      exact ⟨hj.settled_of_ripe hp hripe, h.punctual p hp hripe⟩
    · rw [← hjoined]
      exact (hj.collected p hp v hv).1
    · obtain ⟨hvalue, hkinds⟩ := hj.collected p hp v hv
      have hresults := (hj.sound.untroubled_iff fun i hi => (hkinds i hi).1).mp (hcalm (hv ▸ Option.some_ne_none v))
      rw [hstep, filterMap_eq_joined hresults, hvalue, if_neg]
      intro hnil
      have hzero : p.2.length = 0 := by rw [← hlength, hnil, List.length_nil]
      rw [hexpansion.instances] at hzero
      unfold instanceIds at hzero
      rw [List.length_map, List.length_range] at hzero
      exact hexpansion.nonempty (List.length_eq_zero_iff.mp hzero)

/-- The second task maps over the list that the first returns, and its failures are allowed. -/
def fanNode (t : TaskId) : TaskNode :=
  if t.task = 1 then { dependencies := [⟨0, none⟩], eachSource := some ⟨0, none⟩, allowFailure := true } else {}

/-- Of two instances the first raises and the second returns. -/
def fanActs : List Act :=
  [.turn 0 false, .turn 0 false, .turn 0 false, .ends 0 0 (.returned (.list [.atom 5, .atom 6])) false, .turn 0 false,
    .turn 0 false, .turn 0 false, .turn 0 false, .turn 0 false, .ends 0 1 .raised false, .ends 0 2 (.returned (.atom 7)) false,
    .turn 0 false]

def fanRun : Run := (fresh fanNode [⟨0, none⟩, ⟨1, none⟩] false true).run fanActs

theorem unrun_fan : Unrun fanNode [⟨0, none⟩, ⟨1, none⟩] := by
  refine ⟨fun t => ?_, fun t ht => ?_⟩
  · unfold fanNode
    split
    · exact ⟨rfl, rfl⟩
    · exact ⟨rfl, rfl⟩
  · rcases List.mem_cons.mp ht with rfl | ht
    · exact ⟨rfl, rfl⟩
    · obtain rfl := List.mem_singleton.mp ht
      exact ⟨rfl, rfl⟩

end Run

end Nodus.Orchestration
