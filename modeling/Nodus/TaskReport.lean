import Mathlib.Data.Finset.Card
import Mathlib.Order.WellFoundedSet
import Nodus.Passes
import Nodus.TaskOrder

/-! What a run reports. While it goes on, readiness is decided by what the dependencies themselves have come to; at the end
the tasks that have not run are classified by all that they depend on. -/

namespace Nodus.Orchestration

/-- What is reported of a task that has come to something. -/
def JoinState.reported : JoinState → Reported
  | .completed => .completed
  | .failed => .failed
  | .skipped => .skipped

namespace Run

variable {s s' s'' : Run} {t u dep : TaskId} {closure : Closure}

/-! ### The classification -/

theorem classify_of_placed (h : s.Placed closure t) : s.classify closure t = closure := if_pos h

theorem Placed.of_mem {closure' : Closure} (h : s.Placed closure u) (hb : ∀ u ∈ closure.blocked, u ∈ closure'.blocked)
    (ho : ∀ u ∈ closure.omitted, u ∈ closure'.omitted) (hs : ∀ u ∈ closure.skipped, u ∈ closure'.skipped) :
    s.Placed closure' u := by
  rcases h with hr | hf | hm | hm | hm
  · exact .inl hr
  · exact .inr (.inl hf)
  · exact .inr (.inr (.inl (hb u hm)))
  · exact .inr (.inr (.inr (.inl (ho u hm))))
  · exact .inr (.inr (.inr (.inr (hs u hm))))

theorem classify_cases (s : Run) (closure : Closure) (t : TaskId) : s.classify closure t = closure ∧
      (s.Placed closure t ∨ ∀ dep ∈ (s.node t).dependencies, s.blame closure t dep = none) ∨
    ¬ s.Placed closure t ∧ ∃ dep ∈ (s.node t).dependencies,
      s.blame closure t dep = some .upstreamFailed ∧
          s.classify closure t = { closure with blocked := t :: closure.blocked } ∨
        s.blame closure t dep = some .skipped ∧ s.classify closure t = { closure with skipped := t :: closure.skipped } ∨
        s.blame closure t dep = some .omitted ∧ s.classify closure t = { closure with omitted := t :: closure.omitted } := by
  by_cases hplaced : s.Placed closure t
  · exact .inl ⟨classify_of_placed hplaced, .inl hplaced⟩
  · have hclassify : s.classify closure t = _ := if_neg hplaced
    cases hfind : (s.node t).dependencies.findSome? (s.blame closure t) with
    | none =>
        rw [hfind] at hclassify
        exact .inl ⟨hclassify, .inr fun dep hdep => List.findSome?_eq_none_iff.mp hfind dep hdep⟩
    | some reason =>
        obtain ⟨dep, hdep, hblame⟩ := List.exists_of_findSome?_eq_some hfind
        rw [hfind] at hclassify
        right
        refine ⟨hplaced, dep, hdep, ?_⟩
        have hreason : reason = .upstreamFailed ∨ reason = .skipped ∨ reason = .omitted := by
          unfold blame at hblame
          split at hblame
          · exact .inl (Option.some.inj hblame).symm
          · split at hblame
            · exact .inr (.inl (Option.some.inj hblame).symm)
            · split at hblame
              · exact .inr (.inr (Option.some.inj hblame).symm)
              · cases hblame
        rcases hreason with rfl | rfl | rfl
        · exact .inl ⟨hblame, hclassify⟩
        · exact .inr (.inl ⟨hblame, hclassify⟩)
        · exact .inr (.inr ⟨hblame, hclassify⟩)

theorem placed_classify (h : s.Placed closure u) (t : TaskId) : s.Placed (s.classify closure t) u := by
  rcases classify_cases s closure t with ⟨hsame, -⟩ | ⟨-, dep, -, ⟨-, hnew⟩ | ⟨-, hnew⟩ | ⟨-, hnew⟩⟩
  · rw [hsame]
    exact h
  · rw [hnew]
    exact h.of_mem (fun _ hu => List.mem_cons_of_mem _ hu) (fun _ hu => hu) fun _ hu => hu
  · rw [hnew]
    exact h.of_mem (fun _ hu => hu) (fun _ hu => hu) fun _ hu => List.mem_cons_of_mem _ hu
  · rw [hnew]
    exact h.of_mem (fun _ hu => hu) (fun _ hu => List.mem_cons_of_mem _ hu) fun _ hu => hu

/-- How many tasks have run or are classified. -/
def placedCount (s : Run) (closure : Closure) : Nat := (s.tasks.toFinset.filter fun t => s.Placed closure t).card

theorem classify_grows (s : Run) : Passes.Grows s.classify s.placedCount s.tasks := by
  intro closure t ht
  rcases classify_cases s closure t with ⟨hsame, -⟩ | ⟨hnot, hclassified⟩
  · exact .inl hsame
  · right
    have hplaced : s.Placed (s.classify closure t) t := by
      obtain ⟨dep, -, ⟨-, hnew⟩ | ⟨-, hnew⟩ | ⟨-, hnew⟩⟩ := hclassified
      · rw [hnew]
        exact .inr (.inr (.inl List.mem_cons_self))
      · rw [hnew]
        exact .inr (.inr (.inr (.inr List.mem_cons_self)))
      · rw [hnew]
        exact .inr (.inr (.inr (.inl List.mem_cons_self)))
    apply Finset.card_lt_card
    refine ⟨fun u hu => ?_, fun hsub => ?_⟩
    · obtain ⟨hmem, hu⟩ := Finset.mem_filter.mp hu
      exact Finset.mem_filter.mpr ⟨hmem, placed_classify hu t⟩
    · exact hnot (Finset.mem_filter.mp (hsub (Finset.mem_filter.mpr ⟨List.mem_toFinset.mpr ht, hplaced⟩))).2

theorem placedCount_le (s : Run) (closure : Closure) : s.placedCount closure ≤ s.tasks.length :=
  (Finset.card_filter_le _ _).trans (List.toFinset_card_le _)

theorem closure_eq (s : Run) :
    s.closure = (fun closure => s.tasks.foldl s.classify closure)^[s.tasks.length] { skipped := s.skipped } := by
  rw [Run.closure, List.foldl_const, List.length_range]

theorem closure_fixed (s : Run) (ht : t ∈ s.tasks) :
    s.Placed s.closure t ∨ ∀ dep ∈ (s.node t).dependencies, s.blame s.closure t dep = none := by
  have hfixed := Passes.passes_fixed (classify_grows s) (placedCount_le s) { skipped := s.skipped } t ht
  rw [← closure_eq] at hfixed
  rcases classify_cases s s.closure t with ⟨-, hcases⟩ | ⟨hnot, dep, -, ⟨-, hnew⟩ | ⟨-, hnew⟩ | ⟨-, hnew⟩⟩
  · exact hcases
  · have hblocked := congrArg (fun c => c.blocked.length) (hnew.symm.trans hfixed)
    exact absurd hblocked (Nat.succ_ne_self _)
  · have hskipped := congrArg (fun c => c.skipped.length) (hnew.symm.trans hfixed)
    exact absurd hskipped (Nat.succ_ne_self _)
  · have homitted := congrArg (fun c => c.omitted.length) (hnew.symm.trans hfixed)
    exact absurd homitted (Nat.succ_ne_self _)

/-- The task has not run, and no guard has been asked about it. -/
def Left (s : Run) (t : TaskId) : Prop := s.results t = none ∧ (s.node t).status ≠ .failed ∧ t ∉ s.skipped

/-- A task that is left because one that it depends on is skipped or is cut itself, and it does not accept this. -/
inductive Cut (s : Run) : TaskId → Prop
  | skipped {t dep : TaskId} (hleft : s.Left t) (hon : .skipped ∉ (s.node t).onStates)
      (hdep : dep ∈ (s.node t).dependencies) (h : dep ∈ s.skipped) : s.Cut t
  | cut {t dep : TaskId} (hleft : s.Left t) (hon : .skipped ∉ (s.node t).onStates)
      (hdep : dep ∈ (s.node t).dependencies) (h : s.Cut dep) : s.Cut t

theorem left_of_not_placed (ht : t ∈ s.tasks) (h : ¬ s.Placed closure t) (hbase : ∀ t ∈ s.skipped, t ∈ closure.skipped) :
    s.Left t := by
  refine ⟨?_, fun hfailed => h (.inr (.inl ?_)), fun hskipped => h (.inr (.inr (.inr (.inr (hbase t hskipped)))))⟩
  · by_contra hresult
    exact h (.inl hresult)
  · exact List.mem_filter.mpr ⟨ht, decide_eq_true hfailed⟩

theorem skipped_or_cut (s : Run) :
    (∀ t ∈ s.skipped, t ∈ s.closure.skipped) ∧ ∀ t ∈ s.closure.skipped, t ∈ s.skipped ∨ s.Cut t := by
  rw [closure_eq]
  refine Passes.passes_keep (P := fun closure : Closure => (∀ t ∈ s.skipped, t ∈ closure.skipped) ∧
    ∀ t ∈ closure.skipped, t ∈ s.skipped ∨ s.Cut t) (fun closure t ht ⟨hbase, hcut⟩ => ?_)
    ⟨fun _ ht => ht, fun _ ht => .inl ht⟩ _
  rcases classify_cases s closure t with ⟨hsame, -⟩ | ⟨hnot, dep, hdep, ⟨-, hnew⟩ | ⟨hblame, hnew⟩ | ⟨-, hnew⟩⟩
  · rw [hsame]
    exact ⟨hbase, hcut⟩
  · rw [hnew]
    exact ⟨hbase, hcut⟩
  · rw [hnew]
    refine ⟨fun u hu => List.mem_cons_of_mem _ (hbase u hu), fun u hu => ?_⟩
    rcases List.mem_cons.mp hu with rfl | hu
    · have hleft : s.Left u := left_of_not_placed ht hnot hbase
      unfold blame at hblame
      split at hblame
      · cases hblame
      · split at hblame
        · next hskipped =>
            right
            rcases hcut dep hskipped.1 with hold | hold
            · exact .skipped hleft hskipped.2 hdep hold
            · exact .cut hleft hskipped.2 hdep hold
        · split at hblame
          · cases hblame
          · cases hblame
    · exact hcut u hu
  · rw [hnew]
    exact ⟨hbase, hcut⟩

/-! ### While a run goes on -/

/-- Nothing has stopped the run so far, but perhaps a retry that is left to a later sweep. -/
structure Going (s : Run) : Prop where
  failed : s.failed = false
  waiting : s.waiting = none
  cancelled : s.cancelled = false
  crashed : s.crashed = false

/-- A pass of `schedule_ready` is still to come. -/
def Coming (s : Run) : Prop := ∃ thread, ∃ frame ∈ s.frames thread, frame.again = true

/-- Every ready task that is not left to a sweep is one that `schedule_ready` is to come to, and no expanded task can be
settled. -/
structure Quiet (s : Run) : Prop where
  ready : ∀ t ∈ s.pending, (s.node t).status ≠ .retryScheduled → (∀ dep ∈ (s.node t).dependencies, s.depSatisfied t dep = true) →
      ∃ thread, ∃ frame ∈ s.frames thread, t ∈ frame.rest
  settled : ∀ p ∈ s.expanded, (s.node p.1).status = .expanded → s.outcomes (s.node p.1).allowFailure p.2 = none

def Watched (s : Run) : Prop := s.Coming ∨ s.Quiet

/-- Nothing is known yet of the instances if nothing is known of the first, or if it has not failed for all of them. -/
theorem outcomes_none_cons (s : Run) (allowFailure : Bool) (i : TaskId) (rest : List TaskId) :
    s.outcomes allowFailure (i :: rest) = none ↔
      s.kind i = none ∨ (s.kind i = some .failed → allowFailure = true) ∧ s.outcomes allowFailure rest = none := by
  unfold kind
  simp only [outcomes]
  cases hresult : s.results i with
  | some v => simp
  | none =>
      by_cases hfailed : (s.node i).status = .failed
      · cases allowFailure
        · simp [hfailed]
        · simp [hfailed]
      · by_cases hskipped : i ∈ s.skipped
        · simp [hfailed, hskipped]
        · simp [hfailed, hskipped]

theorem outcomes_none_of_kind (hkind : ∀ u k, s'.kind u = some k → s.kind u = some k) {allowFailure : Bool}
    {instances : List TaskId} (h : s.outcomes allowFailure instances = none) : s'.outcomes allowFailure instances = none := by
  induction instances with
  | nil => cases h
  | cons i rest ih =>
      rw [outcomes_none_cons] at h ⊢
      rcases h with hnone | ⟨hfailed, hrest⟩
      · left
        by_contra hsome
        obtain ⟨k, hk⟩ := Option.ne_none_iff_exists'.mp hsome
        exact Option.some_ne_none k ((hkind i k hk).symm.trans hnone)
      · exact .inr ⟨fun hf => hfailed (hkind i _ hf), ih hrest⟩

theorem exists_of_outcomes_none {allowFailure : Bool} {instances : List TaskId}
    (h : s.outcomes allowFailure instances = none) : ∃ i ∈ instances, s.kind i = none := by
  induction instances with
  | nil => cases h
  | cons i rest ih =>
      rcases (outcomes_none_cons s allowFailure i rest).mp h with hnone | ⟨-, hrest⟩
      · exact ⟨i, List.mem_cons_self, hnone⟩
      · obtain ⟨u, hu, hnone⟩ := ih hrest
        exact ⟨u, List.mem_cons_of_mem _ hu, hnone⟩

/-- A step after which no more tasks are pending, no more is known of the tasks, and the calls under way have nothing less to
do leaves a run watched. -/
theorem Watched.of_kind (hw : s.Watched) (hpending : ∀ u ∈ s'.pending, (s'.node u).status ≠ .retryScheduled →
      u ∈ s.pending ∧ (s.node u).status ≠ .retryScheduled) (hsame : ∀ u, (s.node u).Same (s'.node u))
    (hexpanded : s'.expanded = s.expanded) (hstatus : ∀ u, (s'.node u).status = .expanded → (s.node u).status = .expanded)
    (hkind : ∀ u k, s'.kind u = some k → s.kind u = some k)
    (hframes : ∀ thread, ∀ frame ∈ s.frames thread, (frame.again = true → ∃ frame' ∈ s'.frames thread, frame'.again = true) ∧
      ∀ u ∈ frame.rest, u ∈ s'.pending → ∃ frame' ∈ s'.frames thread, u ∈ frame'.rest) : s'.Watched := by
  rcases hw with ⟨thread, frame, hframe, hagain⟩ | hquiet
  · obtain ⟨frame', hframe', hagain'⟩ := (hframes thread frame hframe).1 hagain
    exact .inl ⟨thread, frame', hframe', hagain'⟩
  · refine .inr ⟨fun u hu hkeep hready => ?_, fun p hp hp' => ?_⟩
    · obtain ⟨hbefore, hkept⟩ := hpending u hu hkeep
      have hready : ∀ dep ∈ (s.node u).dependencies, s.depSatisfied u dep = true := by
        intro dep hdep
        have hdep' : dep ∈ (s'.node u).dependencies := by
          rw [hsame u]
          exact hdep
        obtain ⟨k, hk, hon⟩ := depSatisfied_iff.mp (hready dep hdep')
        rw [hsame u] at hon
        exact depSatisfied_iff.mpr ⟨k, hkind dep k hk, hon⟩
      obtain ⟨thread, frame, hframe, hmem⟩ := hquiet.ready u hbefore hkept hready
      exact ⟨thread, (hframes thread frame hframe).2 u hmem hu⟩
    · have hallow : (s'.node p.1).allowFailure = (s.node p.1).allowFailure := by
        rw [hsame p.1]
      rw [hallow]
      exact outcomes_none_of_kind hkind (hquiet.settled p (hexpanded ▸ hp) (hstatus p.1 hp'))

theorem Watched.of_agrees (hw : s.Watched) (ha : Agrees s s')
    (hframes : ∀ thread, ∀ frame ∈ s.frames thread, (frame.again = true → ∃ frame' ∈ s'.frames thread, frame'.again = true) ∧
      ∀ u ∈ frame.rest, ∃ frame' ∈ s'.frames thread, u ∈ frame'.rest) : s'.Watched := by
  refine hw.of_kind (fun u hu hkeep => ⟨ha.pending ▸ hu, ha.node ▸ hkeep⟩) (fun u => ha.node ▸ same_refl _) ha.expanded (fun u hu => ha.node ▸ hu)
    (fun u k hk => ?_) fun thread frame hframe =>
      ⟨(hframes thread frame hframe).1, fun u hu _ => (hframes thread frame hframe).2 u hu⟩
  rw [← hk]
  exact (kind_of_view (ha.view u)).symm

theorem Watched.of_only (hw : s.Watched) (ho : Only s s' t) (h' : s'.Sound) (ht : t ∈ s'.running.map Prod.snd)
    (hframes : ∀ thread, ∀ frame ∈ s.frames thread, (frame.again = true → ∃ frame' ∈ s'.frames thread, frame'.again = true) ∧
      ∀ u ∈ frame.rest, u ≠ t → ∃ frame' ∈ s'.frames thread, u ∈ frame'.rest) : s'.Watched := by
  obtain ⟨-, hskipped, hresult, hstatus, -⟩ := h'.of_running ht
  have hidle := h'.not_pending_of_running ht
  refine hw.of_kind (fun u hu hkeep => ?_) ho.same ho.expanded (fun u hu => ?_) (fun u k hk => ?_) fun thread frame hframe =>
    ⟨(hframes thread frame hframe).1, fun u hu hp => (hframes thread frame hframe).2 u hu fun he => hidle (he ▸ hp)⟩
  · have hut : u ≠ t := fun he => hidle (he ▸ hu)
    have hpending : decide (u ∈ s'.pending) = decide (u ∈ s.pending) := congrArg View.pending (ho.view u hut)
    have hnode : s'.node u = s.node u := congrArg View.node (ho.view u hut)
    exact ⟨(decide_eq_decide.mp hpending).mp hu, hnode ▸ hkeep⟩
  · have hut : u ≠ t := by
      rintro rfl
      exact absurd (hstatus.symm.trans hu) (by decide)
    have hnode : s'.node u = s.node u := congrArg View.node (ho.view u hut)
    rwa [hnode] at hu
  · have hut : u ≠ t := by
      rintro rfl
      unfold kind at hk
      simp [hresult, hstatus, hskipped] at hk
    rw [← hk]
    exact (kind_of_view (ho.view u hut)).symm

theorem Watched.deferred (hw : s.Watched) (ho : Only s s' t) (h' : s'.Sound) (ht : t ∈ s'.pending)
    (hdeferred : (s'.node t).status = .retryScheduled) (hframes : s'.frames = s.frames) : s'.Watched := by
  obtain ⟨-, -, hskipped, hresult, -⟩ := h'.of_pending ht
  have hother : ∀ u, (s'.node u).status ≠ .retryScheduled → u ≠ t := fun u hkeep he => hkeep (he ▸ hdeferred)
  refine hw.of_kind (fun u hu hkeep => ?_) ho.same ho.expanded (fun u hu => ?_) (fun u k hk => ?_) fun thread frame hframe =>
    ⟨fun hagain => ⟨frame, hframes ▸ hframe, hagain⟩, fun u hu _ => ⟨frame, hframes ▸ hframe, hu⟩⟩
  · have hview := ho.view u (hother u hkeep)
    have hpending : decide (u ∈ s'.pending) = decide (u ∈ s.pending) := congrArg View.pending hview
    have hnode : s'.node u = s.node u := congrArg View.node hview
    exact ⟨(decide_eq_decide.mp hpending).mp hu, hnode ▸ hkeep⟩
  · have hnode : s'.node u = s.node u := by
      apply congrArg View.node (ho.view u (hother u _))
      rw [hu]
      decide
    rwa [hnode] at hu
  · have hut : u ≠ t := by
      rintro rfl
      unfold kind at hk
      simp [hresult, hdeferred, hskipped] at hk
    rw [← hk]
    exact (kind_of_view (ho.view u hut)).symm

theorem coming_call (s : Run) (thread : Nat) : (s.call thread).Coming := by
  refine ⟨thread, {}, ?_, rfl⟩
  show _ ∈ Function.update s.frames thread _ thread
  rw [Function.update_self]
  exact List.mem_cons_self

theorem settleMappedParent_none {p : TaskId × List TaskId} (h : (s.settleMappedParent p.1 p.2).2 = false) :
    (s.settleMappedParent p.1 p.2).1 = s ∧
      ((s.node p.1).status = .expanded → s.outcomes (s.node p.1).allowFailure p.2 = none) := by
  unfold settleMappedParent at h ⊢
  split
  · next hstatus => exact ⟨rfl, fun he => absurd he hstatus⟩
  · next hstatus =>
      rw [if_neg hstatus] at h
      split
      · next hnone => exact ⟨rfl, fun _ => hnone⟩
      · next hfailed =>
          rw [hfailed] at h
          cases h
      · next hdone =>
          rw [hdone] at h
          cases h

theorem settleMapped_none (h : s.settleMapped.2 = false) : s.settleMapped.1 = s ∧
    ∀ p ∈ s.expanded, (s.node p.1).status = .expanded → s.outcomes (s.node p.1).allowFailure p.2 = none := by
  let settle : Run × Bool → TaskId × List TaskId → Run × Bool := fun acc p =>
    ((acc.1.settleMappedParent p.1 p.2).1, acc.2 || (acc.1.settleMappedParent p.1 p.2).2)
  -- The flag stays up once it is up.
  have hup : ∀ (l : List (TaskId × List TaskId)) (x : Run), (l.foldl settle (x, true)).2 = true := by
    intro l
    induction l with
    | nil => exact fun _ => rfl
    | cons p l ih => exact fun x => ih _
  have hfold : ∀ l : List (TaskId × List TaskId), (l.foldl settle (s, false)).2 = false → (l.foldl settle (s, false)).1 = s ∧
      ∀ p ∈ l, (s.node p.1).status = .expanded → s.outcomes (s.node p.1).allowFailure p.2 = none := by
    intro l
    induction l with
    | nil => exact fun _ => ⟨rfl, fun p hp => by cases hp⟩
    | cons p l ih =>
        intro h
        have hstep : settle (s, false) p = ((s.settleMappedParent p.1 p.2).1, (s.settleMappedParent p.1 p.2).2) := rfl
        rw [List.foldl_cons, hstep] at h ⊢
        cases hchanged : (s.settleMappedParent p.1 p.2).2 with
        | true =>
            rw [hchanged, hup] at h
            cases h
        | false =>
            obtain ⟨hsame, hnone⟩ := settleMappedParent_none hchanged
            rw [hchanged, hsame] at h
            rw [hsame]
            obtain ⟨hrest, hall⟩ := ih h
            refine ⟨hrest, fun q hq => ?_⟩
            rcases List.mem_cons.mp hq with rfl | hq
            · exact hnone
            · exact hall q hq
  exact hfold s.expanded h

/-! ### What a step leaves alone -/

theorem Agrees.only (ha : Agrees s s') (ho : Only s' s'' t) : Only s s'' t where
  view u hu := (ho.view u hu).trans (ha.view u)
  tasks := ho.tasks.trans ha.tasks
  expanded := ho.expanded.trans ha.expanded
  node := ha.node ▸ ho.node
  apart := ho.apart

theorem only_spawnTask (h : s.Apart) (ht : t ∉ s.running.map Prod.snd) (thread : Nat) : Only s (s.spawnTask thread t) t := by
  have hrefl : Only s s t := ⟨fun _ _ => rfl, rfl, rfl, same_refl _, h⟩
  have hstart : Only s (s.start t) t := only_start h
  unfold spawnTask
  split
  · exact hrefl
  · split
    · exact hrefl
    · split
      · exact (hstart.trans (only_record hstart.apart _)).agrees (agrees_call _ thread)
      · exact hstart.trans (only_launch hstart.apart ht)

theorem markPending_running (s : Run) (t : TaskId) : (s.markPending t).running = s.running := by
  unfold markPending
  split
  · rfl
  · rfl

theorem only_failTask (h : s.Apart) (ht : t ∉ s.running.map Prod.snd) (thread : Nat) (swept : Bool) :
    Only s (s.failTask thread t swept) t := by
  have hstatus : ∀ status : TaskStatus, Only s (s.setStatus t status) t := only_setStatus h
  have hmark : ∀ status : TaskStatus, Only s ((s.setStatus t status).markPending t) t :=
    fun status => (hstatus status).trans (only_markPending (hstatus status).apart)
  unfold failTask
  split
  · split
    · exact (hmark .retryScheduled).agrees ⟨rfl, rfl, rfl, rfl, rfl, rfl, rfl, rfl, rfl, rfl⟩
    · refine (hmark .retrying).trans (only_spawnTask (hmark .retrying).apart ?_ thread)
      rw [markPending_running]
      exact ht
  · split
    · exact (hstatus .failed).agrees (agrees_call _ thread)
    · split
      · exact hstatus .failed
      · exact (hstatus .failed).agrees ⟨rfl, rfl, rfl, rfl, rfl, rfl, rfl, rfl, rfl, rfl⟩

theorem only_complete (h : s.Apart) (ht : t ∉ s.running.map Prod.snd) (thread : Nat) (v : Value) (swept : Bool) :
    Only s (s.complete thread t v swept) t := by
  have hrecord : Only s (s.record t v) t := only_record h v
  unfold complete
  simp only []
  split
  · split
    · exact hrecord.trans (only_failTask hrecord.apart ht thread swept)
    · exact hrecord.agrees ⟨rfl, rfl, rfl, rfl, rfl, rfl, rfl, rfl, rfl, rfl⟩
  · exact (hrecord.agrees (agrees_storeCached _ t v)).agrees (agrees_call _ thread)

theorem only_ends (h : s.Apart) {flight : Nat} (htask : s.taskOf flight = some t) (thread : Nat) (ending : Ending)
    (swept : Bool) : Only s (s.ends thread flight ending swept) t := by
  have ht := mem_of_taskOf htask
  have hpop : Only s (s.pop flight) t := only_pop h ht
  have hflying : t ∉ (s.pop flight).running.map Prod.snd := not_mem_pop h ht
  unfold ends
  rw [htask]
  cases ending with
  | waits => exact (hpop.trans (only_record hpop.apart .nil)).agrees ⟨rfl, rfl, rfl, rfl, rfl, rfl, rfl, rfl, rfl, rfl⟩
  | returned v => exact hpop.trans (only_complete hpop.apart hflying thread v swept)
  | errorValue v =>
      simp only []
      split
      · exact hpop.trans (only_failTask hpop.apart hflying thread swept)
      · exact hpop.trans (only_complete hpop.apart hflying thread v swept)
  | raised => exact hpop.trans (only_failTask hpop.apart hflying thread swept)

theorem Settles.trans (h : Settles s s') (h' : Settles s' s'') : Settles s s'' where
  tasks u hu := h'.tasks u (h.tasks u hu)
  view u hu := by
    have hview := h.view u hu
    rw [h'.view u (by rw [hview]; exact hu), hview]
  expanded p hp := by
    by_cases ha : (s.view p.1).Active
    · exact .inr ha
    · rcases h'.expanded p hp with hold | ha'
      · exact h.expanded p hold
      · rw [h.view p.1 ha] at ha'
        exact absurd ha' ha
  kept p hp := h'.kept p (h.kept p hp)
  same u hu := same_trans (h.same u hu) (h'.same u (h.tasks u hu))

theorem settles_refl (s : Run) : Settles s s := (agrees_refl s).settles

theorem settles_settleMapped (h : s.Sound) : Settles s s.settleMapped.1 := by
  have hparent : ∀ {x : Run}, x.Sound → ∀ p : TaskId × List TaskId, Settles x (x.settleMappedParent p.1 p.2).1 := by
    intro x hx p
    unfold settleMappedParent
    split
    · exact settles_refl x
    · next hstatus =>
        have ha : (x.view p.1).Active := active_of_expanded (not_not.mp hstatus)
        split
        · exact settles_refl x
        · exact (only_setStatus hx.apart .failed).settles ha
        · next values _ => exact (only_record hx.apart (.list values)).settles ha
  have hfold : ∀ (l : List (TaskId × List TaskId)) (acc : Run × Bool), acc.1.Sound → Settles s acc.1 →
      Settles s (l.foldl (fun (acc : Run × Bool) p => ((acc.1.settleMappedParent p.1 p.2).1,
        acc.2 || (acc.1.settleMappedParent p.1 p.2).2)) acc).1 := by
    intro l
    induction l with
    | nil => exact fun _ _ hs => hs
    | cons p l ih =>
        exact fun acc hacc hs => ih _ (hacc.settleMappedParent p.1 p.2) (hs.trans (hparent hacc p))
  exact hfold s.expanded (s, false) h (settles_refl s)

theorem settles_expandMapped (h : s.Sound) (ht : t ∈ s.pending) (hmapped : (s.node t).Mapped) : Settles s (s.expandMapped t) := by
  have ha : (s.view t).Active := active_of_pending ht
  unfold Run.expandMapped
  simp only []
  split
  · split
    · exact (only_conclude h.apart .failed).settles ha
    · split
      · exact (only_concludeSkipped h.apart).settles ha
      · exact settles_expand h ht hmapped _ _
  · exact (only_conclude h.apart .failed).settles ha

theorem settles_turn (h : s.Sound) (thread : Nat) (cancelled : Bool) (hfits : s.Fits (.turn thread cancelled)) :
    Settles s (s.turn thread cancelled) := by
  unfold Run.turn
  split
  · exact settles_refl s
  · exact (agrees_setFrames _ _ _).settles
  · split
    · exact (settles_cancelInflight s).trans (agrees_setFrames _ _ _).settles
    · exact (settles_settleMapped h).trans (agrees_setFrames _ _ _).settles
  · next t rest again outer hframes =>
      have ht : t ∈ s.pending := hfits t (by simp [next, hframes])
      have ha : (s.view t).Active := active_of_pending ht
      split
      · exact ((only_skip h.apart).settles ha).trans (agrees_setFrames _ _ _).settles
      · split
        · next hmapped => exact (settles_expandMapped h ht hmapped).trans (agrees_setFrames _ _ _).settles
        · have hagrees := agrees_setFrames s thread (⟨rest, again⟩ :: outer)
          exact (hagrees.only (only_spawnTask (hagrees.apart h.apart) (h.of_pending ht).2.1 thread)).settles ha

theorem settles_perform (h : s.Sound) (act : Act) (hfits : s.Fits act) : Settles s (s.perform act) := by
  unfold Run.perform
  split
  · exact settles_refl s
  · cases act with
    | turn thread cancelled => exact settles_turn h thread cancelled hfits
    | ends thread flight ending swept =>
        simp only []
        cases htask : s.taskOf flight with
        | none =>
            unfold Run.ends
            rw [htask]
            exact settles_refl s
        | some t =>
            exact (only_ends h.apart htask thread ending swept).settles
              (active_of_running (List.mem_map_of_mem (mem_of_taskOf htask)))
    | checkpoint label => exact Agrees.settles ⟨rfl, rfl, rfl, rfl, rfl, rfl, rfl, rfl, rfl, rfl⟩
    | cached key v => exact Agrees.settles ⟨rfl, rfl, rfl, rfl, rfl, rfl, rfl, rfl, rfl, rfl⟩

/-! ### A failed run names what has failed -/

/-- A task has failed for good, and this is not allowed. -/
def Lost (s : Run) : Prop :=
  ∃ t ∈ s.tasks, (s.node t).status = .failed ∧ (s.node t).allowFailure = false ∧ t ∉ s.pending

theorem Settles.lost (hs : Settles s s') (h : s.Sound) (hl : s.Lost) : s'.Lost := by
  obtain ⟨t, ht, hfailed, hallow, hpending⟩ := hl
  have hinactive : ¬ (s.view t).Active := by
    rintro (hp | hf | he | hl)
    · exact hpending (of_decide_eq_true hp)
    · exact absurd (hfailed.symm.trans (h.of_running (of_decide_eq_true hf)).2.2.2.1) (by decide)
    · have he : (s.node t).status = .expanded := he
      exact absurd (hfailed.symm.trans he) (by decide)
    · exact of_decide_eq_false hl ht
  have hview := hs.view t hinactive
  have hnode : s'.node t = s.node t := congrArg View.node hview
  have hsame : decide (t ∈ s'.pending) = decide (t ∈ s.pending) := congrArg View.pending hview
  refine ⟨t, hs.tasks t ht, ?_, ?_, fun hp => hpending ((decide_eq_decide.mp hsame).mp hp)⟩
  · rw [hnode]
    exact hfailed
  · rw [hnode]
    exact hallow

theorem failed_spawnTask (s : Run) (thread : Nat) (t : TaskId) : (s.spawnTask thread t).failed = s.failed := by
  unfold spawnTask
  split
  · rfl
  · split
    · rfl
    · split
      · rfl
      · rfl

theorem markPending_failed (s : Run) (t : TaskId) : (s.markPending t).failed = s.failed := by
  unfold markPending
  split
  · rfl
  · rfl

theorem lost_failTask (thread : Nat) (swept : Bool) (hlisted : t ∈ s.tasks) (hpending : t ∉ s.pending)
    (h : (s.failTask thread t swept).failed = true) : s.failed = true ∨ (s.failTask thread t swept).Lost := by
  have hnode : (s.setStatus t .failed).node t = { s.node t with status := .failed } := Function.update_self _ _ _
  unfold failTask at h ⊢
  split
  · next hattempts =>
      left
      rw [if_pos hattempts] at h
      split at h
      · exact (markPending_failed (s.setStatus t .retryScheduled) t).symm.trans h
      · rw [failed_spawnTask, markPending_failed] at h
        exact h
  · next hattempts =>
      rw [if_neg hattempts] at h
      split
      · next hallow =>
          rw [if_pos hallow] at h
          exact .inl h
      · next hallow =>
          split
          · next hfailed => exact .inl hfailed
          · refine .inr ⟨t, hlisted, ?_, ?_, hpending⟩
            · show ((s.setStatus t .failed).node t).status = _
              rw [hnode]
            · show ((s.setStatus t .failed).node t).allowFailure = _
              rw [hnode]
              exact Bool.eq_false_iff.mpr hallow

theorem lost_ends (hs : s.Sound) {thread flight : Nat} {ending : Ending} {swept : Bool}
    (hfits : s.Fits (.ends thread flight ending swept)) (h : (s.ends thread flight ending swept).failed = true) :
    s.failed = true ∨ (s.ends thread flight ending swept).Lost := by
  cases htask : s.taskOf flight with
  | none =>
      unfold ends at h
      rw [htask] at h
      exact .inl h
  | some t =>
      have hmem : t ∈ s.running.map Prod.snd := List.mem_map_of_mem (mem_of_taskOf htask)
      have hfail : ((s.pop flight).failTask thread t swept).failed = true →
          s.failed = true ∨ ((s.pop flight).failTask thread t swept).Lost :=
        lost_failTask (s := s.pop flight) thread swept (hs.of_running hmem).1 (hs.not_pending_of_running hmem)
      have hcomplete : ∀ v, (s.workers = true → ¬ s.KeyMissing t) →
          ((s.pop flight).complete thread t v swept).failed = true → s.failed = true := by
        intro v hkey h
        unfold complete at h
        simp only [] at h
        split at h
        · next hmissing =>
            split at h
            · next hworkers => exact absurd (keyMissing_of_record hmissing) (hkey hworkers)
            · exact h
        · unfold storeCached at h
          split at h
          · exact h
          · exact h
      unfold ends at h ⊢
      rw [htask] at h ⊢
      cases ending with
      | waits => exact .inl h
      | returned v => exact .inl (hcomplete v (fun hworkers => hfits hworkers trivial t htask) h)
      | errorValue v =>
          simp only [] at h ⊢
          split
          · next hflow =>
              rw [if_pos hflow] at h
              exact hfail h
          · next hflow =>
              rw [if_neg hflow] at h
              have hrecorded : s.Recorded (.errorValue v) := Bool.eq_false_iff.mpr hflow
              exact .inl (hcomplete v (fun hworkers => hfits hworkers hrecorded t htask) h)
      | raised => exact hfail h

theorem lost_expandMapped (hlisted : t ∈ s.tasks) (h : (s.expandMapped t).failed = true) :
    s.failed = true ∨ (s.expandMapped t).Lost := by
  have hconclude : (s.conclude t .failed).failed = true → s.failed = true ∨ (s.conclude t .failed).Lost := by
    intro h
    refine (Bool.or_eq_true_iff.mp h).imp id fun hallow => ⟨t, hlisted, ?_, ?_, not_mem_removePending⟩
    · rw [node_conclude]
    · rw [node_conclude]
      exact (of_decide_eq_true hallow).2
  unfold expandMapped at h ⊢
  simp only [] at h ⊢
  split
  · next items hitems =>
      rw [hitems] at h
      simp only [] at h
      split
      · next hmany =>
          rw [if_pos hmany] at h
          exact hconclude h
      · next hfew =>
          rw [if_neg hfew] at h
          split
          · next hempty =>
              rw [if_pos hempty] at h
              left
              simpa [conclude] using h
          · next hempty =>
              rw [if_neg hempty] at h
              exact .inl h
  · next hnone =>
      refine hconclude ?_
      revert h
      split
      · next hitems => exact absurd hitems (hnone _)
      · exact id

theorem lost_turn (hs : s.Sound) {thread : Nat} {cancelled : Bool} (hfits : s.Fits (.turn thread cancelled))
    (h : (s.turn thread cancelled).failed = true) : s.failed = true ∨ (s.turn thread cancelled).Lost := by
  unfold Run.turn at h ⊢
  split
  · next hframes =>
      rw [hframes] at h
      exact .inl h
  · next outer hframes =>
      rw [hframes] at h
      exact .inl h
  · next outer hframes =>
      rw [hframes] at h
      simp only [] at h
      split at h
      · left
        unfold Run.cancelInflight at h
        split at h
        · exact h
        · exact h
      · have hsame : s.settleMapped.1.failed = s.failed := settleMapped_eq Run.failed (fun _ _ _ => rfl) s
        exact .inl (hsame.symm.trans h)
  · next t rest again outer hframes =>
      have ht : t ∈ s.pending := hfits t (by simp [next, hframes])
      rw [hframes] at h
      simp only [] at h
      split
      · next hguard =>
          rw [if_pos hguard] at h
          exact .inl h
      · next hguard =>
          rw [if_neg hguard] at h
          split
          · next hmapped =>
              rw [if_pos hmapped] at h
              exact lost_expandMapped (hs.of_pending ht).1 h
          · next hmapped =>
              rw [if_neg hmapped, failed_spawnTask] at h
              exact .inl h

theorem lost_perform (hs : s.Sound) {act : Act} (hfits : s.Fits act) (hlost : s.failed = true → s.Lost)
    (h : (s.perform act).failed = true) : (s.perform act).Lost := by
  have hnew : s.failed = true ∨ (s.perform act).Lost := by
    unfold Run.perform at h ⊢
    split
    · next hcrashed =>
        rw [if_pos hcrashed] at h
        exact .inl h
    · next hcrashed =>
        rw [if_neg hcrashed] at h
        cases act with
        | turn thread cancelled => exact lost_turn hs hfits h
        | ends thread flight ending swept => exact lost_ends hs hfits h
        | checkpoint label => exact .inl h
        | cached key v => exact .inl h
  rcases hnew with hold | hnew
  · exact (settles_perform hs act hfits).lost hs (hlost hold)
  · exact hnew

/-! ### A run that goes on is watched -/

theorem going_spawnTask {thread : Nat} (h : (s.spawnTask thread t).Going) :
    s.Going ∧ ((s.spawnTask thread t).Coming ∨ s.spawnTask thread t = (s.start t).launch t) := by
  unfold spawnTask at h ⊢
  split
  · next hwaiting =>
      rw [if_pos hwaiting] at h
      rw [h.waiting] at hwaiting
      cases hwaiting
  · next hwaiting =>
      rw [if_neg hwaiting] at h
      split
      · next hfailed =>
          rw [if_pos hfailed] at h
          exact absurd hfailed.1 (by rw [h.failed]; decide)
      · next hfailed =>
          rw [if_neg hfailed] at h
          split
          · next hcached =>
              rw [hcached] at h
              exact ⟨⟨h.failed, h.waiting, h.cancelled, h.crashed⟩, .inl (coming_call _ thread)⟩
          · next hcached =>
              rw [hcached] at h
              exact ⟨⟨h.failed, h.waiting, h.cancelled, h.crashed⟩, .inr rfl⟩

theorem mem_running_launch (s : Run) (t : TaskId) : t ∈ ((s.start t).launch t).running.map Prod.snd := List.mem_cons_self

/-- An attempt that begins leaves a run watched, if it is the task that the calls under way have come to. -/
theorem Watched.spawnTask (hw : s.Watched) (ha : Agrees s s') (h : s.Sound) (ht : t ∈ s.pending) {thread : Nat}
    (h' : (s'.spawnTask thread t).Sound)
    (hframes : ∀ thread, ∀ frame ∈ s.frames thread, (frame.again = true → ∃ frame' ∈ s'.frames thread, frame'.again = true) ∧
      ∀ u ∈ frame.rest, u ≠ t → ∃ frame' ∈ s'.frames thread, u ∈ frame'.rest)
    (hgoing : (s'.spawnTask thread t).Going) : (s'.spawnTask thread t).Watched := by
  rcases (going_spawnTask hgoing).2 with hcoming | hlaunch
  · exact .inl hcoming
  · rw [hlaunch] at h' ⊢
    have hstart : Only s' (s'.start t) t := only_start (ha.apart h.apart)
    have hflying : t ∉ (s'.start t).running.map Prod.snd := by
      show t ∉ s'.running.map Prod.snd
      rw [ha.running]
      exact (h.of_pending ht).2.1
    exact hw.of_only (ha.only (hstart.trans (only_launch hstart.apart hflying))) h' (mem_running_launch s' t) hframes

theorem markPending_going (h : (s.markPending t).Going) : s.Going := by
  unfold markPending at h
  split at h
  · exact h
  · exact ⟨h.failed, h.waiting, h.cancelled, h.crashed⟩

theorem markPending_frames (s : Run) (t : TaskId) : (s.markPending t).frames = s.frames := by
  unfold markPending
  split
  · rfl
  · rfl

theorem watched_failTask (h : s.Sound) {f : Nat} (ht : (f, t) ∈ s.running) {thread : Nat} {swept : Bool}
    (hgoing : ((s.pop f).failTask thread t swept).Going) :
    s.Going ∧ (s.Watched → ((s.pop f).failTask thread t swept).Watched) := by
  have hmem : t ∈ s.running.map Prod.snd := List.mem_map_of_mem ht
  have hsound := h.failTask ht thread swept
  unfold Run.failTask at hgoing hsound ⊢
  split
  · next hattempts =>
      rw [if_pos hattempts] at hgoing hsound
      split
      · next hswept =>
          rw [if_pos hswept] at hgoing hsound
          have hmarked : (((s.pop f).setStatus t .retryScheduled).markPending t).Going :=
            ⟨hgoing.failed, hgoing.waiting, hgoing.cancelled, hgoing.crashed⟩
          have hstatus := markPending_going hmarked
          refine ⟨⟨hstatus.failed, hstatus.waiting, hstatus.cancelled, hstatus.crashed⟩, fun hw => ?_⟩
          have hpop : Only s (s.pop f) t := only_pop h.apart ht
          have hdefer : Only s ((s.pop f).setStatus t .retryScheduled) t := hpop.trans (only_setStatus hpop.apart _)
          have hmark := hdefer.trans (only_markPending hdefer.apart)
          have hstatus' : ((((s.pop f).setStatus t .retryScheduled).markPending t).node t).status = .retryScheduled := by
            rw [markPending_node]
            exact congrArg TaskNode.status (Function.update_self t _ s.node)
          exact hw.deferred (hmark.agrees ⟨rfl, rfl, rfl, rfl, rfl, rfl, rfl, rfl, rfl, rfl⟩) hsound
            (mem_markPending.mpr (.inr rfl)) hstatus' (markPending_frames _ t)
      · next hswept =>
          rw [if_neg hswept] at hgoing hsound
          obtain ⟨hbefore, hcases⟩ := going_spawnTask hgoing
          have hstatus := markPending_going hbefore
          refine ⟨⟨hstatus.failed, hstatus.waiting, hstatus.cancelled, hstatus.crashed⟩, fun hw => ?_⟩
          rcases hcases with hcoming | hlaunch
          · exact .inl hcoming
          · rw [hlaunch] at hsound ⊢
            have hpop : Only s (s.pop f) t := only_pop h.apart ht
            have hretry : Only s ((s.pop f).setStatus t .retrying) t := hpop.trans (only_setStatus hpop.apart _)
            have hmark : Only s (((s.pop f).setStatus t .retrying).markPending t) t :=
              hretry.trans (only_markPending hretry.apart)
            have hstart := hmark.trans (only_start hmark.apart)
            have hflying : t ∉ ((((s.pop f).setStatus t .retrying).markPending t).start t).running.map Prod.snd := by
              show t ∉ (((s.pop f).setStatus t .retrying).markPending t).running.map Prod.snd
              rw [markPending_running]
              exact not_mem_pop h.apart ht
            refine hw.of_only (hstart.trans (only_launch hstart.apart hflying)) hsound (mem_running_launch _ t)
              fun thread frame hframe => ?_
            have hkept : frame ∈ ((((s.pop f).setStatus t .retrying).markPending t).start t).frames thread := by
              show frame ∈ (((s.pop f).setStatus t .retrying).markPending t).frames thread
              rw [markPending_frames]
              exact hframe
            exact ⟨fun hagain => ⟨frame, hkept, hagain⟩, fun u hu _ => ⟨frame, hkept, hu⟩⟩
  · next hattempts =>
      rw [if_neg hattempts] at hgoing
      split
      · next hallow =>
          rw [if_pos hallow] at hgoing
          exact ⟨⟨hgoing.failed, hgoing.waiting, hgoing.cancelled, hgoing.crashed⟩,
            fun _ => .inl (coming_call _ thread)⟩
      · next hallow =>
          rw [if_neg hallow] at hgoing
          split
          · next hfailed =>
              rw [if_pos hfailed] at hgoing
              exact absurd (hfailed.symm.trans hgoing.failed) (by decide)
          · next hfailed =>
              rw [if_neg hfailed] at hgoing
              cases hgoing.failed

theorem watched_complete {f thread : Nat} {v : Value} {swept : Bool} (hkey : s.workers = true → ¬ s.KeyMissing t)
    (hgoing : ((s.pop f).complete thread t v swept).Going) :
    s.Going ∧ (s.Watched → ((s.pop f).complete thread t v swept).Watched) := by
  unfold complete at hgoing ⊢
  simp only [] at hgoing ⊢
  split
  · next hmissing =>
      rw [if_pos hmissing] at hgoing
      split
      · next hworkers => exact absurd (keyMissing_of_record hmissing) (hkey hworkers)
      · next hworkers =>
          rw [if_neg hworkers] at hgoing
          cases hgoing.crashed
  · next hmissing =>
      rw [if_neg hmissing] at hgoing
      have hstored : ((s.pop f).record t v).Going := by
        have hcall : (((s.pop f).record t v).storeCached t v).Going :=
          ⟨hgoing.failed, hgoing.waiting, hgoing.cancelled, hgoing.crashed⟩
        unfold storeCached at hcall
        split at hcall
        · exact ⟨hcall.failed, hcall.waiting, hcall.cancelled, hcall.crashed⟩
        · exact hcall
      exact ⟨⟨hstored.failed, hstored.waiting, hstored.cancelled, hstored.crashed⟩,
        fun _ => .inl (coming_call _ thread)⟩

theorem watched_ends (h : s.Sound) {thread flight : Nat} {ending : Ending} {swept : Bool}
    (hfits : s.Fits (.ends thread flight ending swept)) (hgoing : (s.ends thread flight ending swept).Going) :
    s.Going ∧ (s.Watched → (s.ends thread flight ending swept).Watched) := by
  cases htask : s.taskOf flight with
  | none =>
      unfold Run.ends at hgoing ⊢
      rw [htask] at hgoing ⊢
      exact ⟨hgoing, id⟩
  | some t =>
      have ht := mem_of_taskOf htask
      unfold Run.ends at hgoing ⊢
      rw [htask] at hgoing ⊢
      cases ending with
      | waits => cases hgoing.waiting
      | returned v => exact watched_complete (fun hworkers => hfits hworkers trivial t htask) hgoing
      | errorValue v =>
          simp only [] at hgoing ⊢
          split
          · next hflow =>
              rw [if_pos hflow] at hgoing
              exact watched_failTask h ht hgoing
          · next hflow =>
              rw [if_neg hflow] at hgoing
              have hrecorded : s.Recorded (.errorValue v) := Bool.eq_false_iff.mpr hflow
              exact watched_complete (fun hworkers => hfits hworkers hrecorded t htask) hgoing
      | raised => exact watched_failTask h ht hgoing

theorem going_expandMapped (h : (s.expandMapped t).Going) : s.Going := by
  have hconclude : ∀ status, (s.conclude t status).Going → s.Going := fun status h =>
    ⟨(Bool.or_eq_false_iff.mp h.failed).1, h.waiting, h.cancelled, h.crashed⟩
  unfold expandMapped at h
  simp only [] at h
  split at h
  · split at h
    · exact hconclude .failed h
    · split at h
      · exact hconclude .skipped ⟨h.failed, h.waiting, h.cancelled, h.crashed⟩
      · exact ⟨h.failed, h.waiting, h.cancelled, h.crashed⟩
  · exact hconclude .failed h

theorem going_settleMapped (h : s.settleMapped.1.Going) : s.Going where
  failed := (settleMapped_eq Run.failed (fun _ _ _ => rfl) s).symm.trans h.failed
  waiting := (settleMapped_eq Run.waiting (fun _ _ _ => rfl) s).symm.trans h.waiting
  cancelled := (settleMapped_cancelled s).symm.trans h.cancelled
  crashed := (settleMapped_eq Run.crashed (fun _ _ _ => rfl) s).symm.trans h.crashed

theorem mem_setFrames_self {thread : Nat} {frames : List Frame} {frame : Frame} (h : frame ∈ frames) :
    frame ∈ (s.setFrames thread frames).frames thread := by
  show frame ∈ Function.update s.frames thread frames thread
  rwa [Function.update_self]

theorem frames_setFrames {thread : Nat} {frames : List Frame} {P : TaskId → Prop}
    (h : ∀ frame ∈ s.frames thread, (frame.again = true → ∃ frame' ∈ frames, frame'.again = true) ∧
      ∀ u ∈ frame.rest, P u → ∃ frame' ∈ frames, u ∈ frame'.rest) (thread' : Nat) (frame : Frame)
    (hframe : frame ∈ s.frames thread') :
    (frame.again = true → ∃ frame' ∈ (s.setFrames thread frames).frames thread', frame'.again = true) ∧
      ∀ u ∈ frame.rest, P u → ∃ frame' ∈ (s.setFrames thread frames).frames thread', u ∈ frame'.rest := by
  show (frame.again = true → ∃ frame' ∈ Function.update s.frames thread frames thread', frame'.again = true) ∧
    ∀ u ∈ frame.rest, P u → ∃ frame' ∈ Function.update s.frames thread frames thread', u ∈ frame'.rest
  by_cases hthread : thread' = thread
  · rw [hthread, Function.update_self]
    exact h frame (hthread ▸ hframe)
  · rw [Function.update_of_ne hthread]
    exact ⟨fun hagain => ⟨frame, hframe, hagain⟩, fun u hu _ => ⟨frame, hframe, hu⟩⟩

theorem watched_turn (h : s.Sound) {thread : Nat} {cancelled : Bool} (hfits : s.Fits (.turn thread cancelled))
    (hgoing : (s.turn thread cancelled).Going) : s.Going ∧ (s.Watched → (s.turn thread cancelled).Watched) := by
  have hsound := h.turn thread cancelled hfits
  unfold Run.turn at hgoing hsound ⊢
  split
  · next hframes =>
      rw [hframes] at hgoing
      exact ⟨hgoing, id⟩
  · next outer hframes =>
      rw [hframes] at hgoing
      refine ⟨⟨hgoing.failed, hgoing.waiting, hgoing.cancelled, hgoing.crashed⟩, fun hw => ?_⟩
      refine hw.of_agrees (agrees_setFrames s thread outer) fun thread' frame hframe => ?_
      have hreturned : ∀ frame ∈ s.frames thread, (frame.again = true → ∃ frame' ∈ outer, frame'.again = true) ∧
          ∀ u ∈ frame.rest, True → ∃ frame' ∈ outer, u ∈ frame'.rest := by
        intro frame hframe
        rw [hframes] at hframe
        rcases List.mem_cons.mp hframe with rfl | hframe
        · exact ⟨fun hagain => absurd hagain Bool.false_ne_true, fun u hu => absurd hu List.not_mem_nil⟩
        · exact ⟨fun hagain => ⟨frame, hframe, hagain⟩, fun u hu _ => ⟨frame, hframe, hu⟩⟩
      have hkept := frames_setFrames hreturned thread' frame hframe
      exact ⟨hkept.1, fun u hu => hkept.2 u hu trivial⟩
  · next outer hframes =>
      rw [hframes] at hgoing hsound
      simp only [] at hgoing hsound
      split
      · next hcancelled =>
          rw [if_pos hcancelled] at hgoing
          have hset : s.cancelInflight.cancelled = true := by
            unfold Run.cancelInflight
            split
            · rfl
            · rfl
          exact absurd (hset.symm.trans hgoing.cancelled) (by decide)
      · next hcancelled =>
          rw [if_neg hcancelled] at hgoing hsound
          have hpass : s.settleMapped.1.Going :=
            ⟨hgoing.failed, hgoing.waiting, hgoing.cancelled, hgoing.crashed⟩
          refine ⟨going_settleMapped hpass, fun hw => ?_⟩
          show (s.settleMapped.1.setFrames thread (⟨s.settleMapped.1.readyTasks, s.settleMapped.2⟩ :: outer)).Watched
          cases hchanged : s.settleMapped.2 with
          | true => exact .inl ⟨thread, ⟨s.settleMapped.1.readyTasks, true⟩, mem_setFrames_self List.mem_cons_self, rfl⟩
          | false =>
              -- The pass lists every task that is ready.
              obtain ⟨hsame, hnone⟩ := settleMapped_none hchanged
              rw [hsame]
              have hkind : ∀ u k, (s.setFrames thread (⟨s.readyTasks, false⟩ :: outer)).kind u = some k → s.kind u = some k :=
                fun _ _ hk => hk
              refine .inr ⟨fun u hu _ hready => ⟨thread, ⟨s.readyTasks, false⟩, mem_setFrames_self List.mem_cons_self, ?_⟩,
                fun p hp hstatus => outcomes_none_of_kind hkind (hnone p hp hstatus)⟩
              exact mem_readyTasks.mpr ⟨(h.of_pending hu).1, hu, hready⟩
  · next t rest again outer hframes =>
      have ht : t ∈ s.pending := hfits t (by simp [next, hframes])
      rw [hframes] at hgoing hsound
      simp only [] at hgoing hsound
      split
      · next hguard =>
          rw [if_pos hguard] at hgoing
          exact ⟨⟨hgoing.failed, hgoing.waiting, hgoing.cancelled, hgoing.crashed⟩,
            fun _ => .inl ⟨thread, ⟨rest, true⟩, mem_setFrames_self List.mem_cons_self, rfl⟩⟩
      · next hguard =>
          rw [if_neg hguard] at hgoing hsound
          split
          · next hmapped =>
              rw [if_pos hmapped] at hgoing
              have hexpanded : (s.expandMapped t).Going :=
                ⟨hgoing.failed, hgoing.waiting, hgoing.cancelled, hgoing.crashed⟩
              exact ⟨going_expandMapped hexpanded,
                fun _ => .inl ⟨thread, ⟨rest, true⟩, mem_setFrames_self List.mem_cons_self, rfl⟩⟩
          · next hmapped =>
              rw [if_neg hmapped] at hgoing hsound
              have hbefore := (going_spawnTask hgoing).1
              refine ⟨⟨hbefore.failed, hbefore.waiting, hbefore.cancelled, hbefore.crashed⟩,
                fun hw => ?_⟩
              refine hw.spawnTask (agrees_setFrames s thread _) h ht hsound (frames_setFrames fun frame hframe => ?_) hgoing
              rw [hframes] at hframe
              rcases List.mem_cons.mp hframe with rfl | hframe
              · refine ⟨fun hagain => ⟨_, List.mem_cons_self, hagain⟩, fun u hu hut => ⟨_, List.mem_cons_self, ?_⟩⟩
                exact (List.mem_cons.mp hu).resolve_left hut
              · exact ⟨fun hagain => ⟨frame, List.mem_cons_of_mem _ hframe, hagain⟩,
                  fun u hu _ => ⟨frame, List.mem_cons_of_mem _ hframe, hu⟩⟩

theorem watched_perform (h : s.Sound) {act : Act} (hfits : s.Fits act) (hgoing : (s.perform act).Going) :
    s.Going ∧ (s.Watched → (s.perform act).Watched) := by
  unfold Run.perform at hgoing ⊢
  split
  · next hcrashed =>
      rw [if_pos hcrashed] at hgoing
      exact ⟨hgoing, id⟩
  · next hcrashed =>
      rw [if_neg hcrashed] at hgoing
      have hkept : ∀ thread, ∀ frame ∈ s.frames thread, (frame.again = true → ∃ frame' ∈ s.frames thread, frame'.again = true) ∧
          ∀ u ∈ frame.rest, ∃ frame' ∈ s.frames thread, u ∈ frame'.rest :=
        fun thread frame hframe => ⟨fun hagain => ⟨frame, hframe, hagain⟩, fun u hu => ⟨frame, hframe, hu⟩⟩
      cases act with
      | turn thread cancelled => exact watched_turn h hfits hgoing
      | ends thread flight ending swept => exact watched_ends h hfits hgoing
      | checkpoint label =>
          exact ⟨⟨hgoing.failed, hgoing.waiting, hgoing.cancelled, hgoing.crashed⟩,
            fun hw => hw.of_agrees ⟨rfl, rfl, rfl, rfl, rfl, rfl, rfl, rfl, rfl, rfl⟩ hkept⟩
      | cached key v =>
          exact ⟨⟨hgoing.failed, hgoing.waiting, hgoing.cancelled, hgoing.crashed⟩,
            fun hw => hw.of_agrees ⟨rfl, rfl, rfl, rfl, rfl, rfl, rfl, rfl, rfl, rfl⟩ hkept⟩

/-! ### Retries that are left to a sweep -/

/-- No retry is left to a sweep by the step. -/
structure NoDeferral (s s' : Run) : Prop where
  flag : s'.retryScheduled = s.retryScheduled
  status : ∀ u, (s'.node u).status = .retryScheduled → (s.node u).status = .retryScheduled

theorem NoDeferral.trans (h : NoDeferral s s') (h' : NoDeferral s' s'') : NoDeferral s s'' where
  flag := h'.flag.trans h.flag
  status u hu := h.status u (h'.status u hu)

theorem noDeferral_of_eq (hflag : s'.retryScheduled = s.retryScheduled) (hnode : s'.node = s.node) : NoDeferral s s' where
  flag := hflag
  status u hu := by
    rw [hnode] at hu
    exact hu

theorem noDeferral_setNode (s : Run) (t : TaskId) {f : TaskNode → TaskNode}
    (hf : (f (s.node t)).status ≠ .retryScheduled) : NoDeferral s (s.setNode t f) where
  flag := rfl
  status u hu := by
    have hu : (Function.update s.node t (f (s.node t)) u).status = .retryScheduled := hu
    by_cases hut : u = t
    · rw [hut, Function.update_self] at hu
      exact absurd hu hf
    · rwa [Function.update_of_ne hut] at hu

theorem noDeferral_setStatus (s : Run) (t : TaskId) {status : TaskStatus} (h : status ≠ .retryScheduled) :
    NoDeferral s (s.setStatus t status) :=
  noDeferral_setNode s t h

theorem noDeferral_record (s : Run) (t : TaskId) (v : Value) : NoDeferral s (s.record t v) :=
  (noDeferral_setStatus s t (by decide)).trans (noDeferral_of_eq rfl rfl)

theorem noDeferral_start (s : Run) (t : TaskId) : NoDeferral s (s.start t) := by
  have hset : NoDeferral s (s.setNode t fun node => { node with status := .running, attempts := node.attempts + 1 }) := by
    apply noDeferral_setNode
    exact fun h => TaskStatus.noConfusion h
  exact hset.trans (noDeferral_of_eq rfl rfl)

theorem noDeferral_spawnTask (s : Run) (thread : Nat) (t : TaskId) : NoDeferral s (s.spawnTask thread t) := by
  have hstart := noDeferral_start s t
  unfold spawnTask
  split
  · exact noDeferral_of_eq rfl rfl
  · split
    · exact noDeferral_of_eq rfl rfl
    · split
      · next v _ => exact (hstart.trans (noDeferral_record _ t v)).trans (noDeferral_of_eq rfl rfl)
      · exact hstart.trans (noDeferral_of_eq rfl rfl)

theorem noDeferral_conclude (s : Run) (t : TaskId) {status : TaskStatus} (h : status ≠ .retryScheduled) :
    NoDeferral s (s.conclude t status) :=
  (noDeferral_setStatus s t h).trans (noDeferral_of_eq rfl rfl)

theorem noDeferral_expand (s : Run) (t : TaskId) (dep : Nat) (items : List Value) : NoDeferral s (s.expand t dep items) where
  flag := rfl
  status u hu := by
    have hu : (if u ∈ instanceIds t items then
        instanceNode (s.node t) dep (u.index.getD 0) (items.getD (u.index.getD 0) .nil)
      else (s.setStatus t .expanded).node u).status = .retryScheduled := hu
    split at hu
    · cases hu
    · exact (noDeferral_setStatus s t (by decide)).status u hu

theorem noDeferral_expandMapped (s : Run) (t : TaskId) : NoDeferral s (s.expandMapped t) := by
  unfold expandMapped
  simp only []
  split
  · split
    · exact noDeferral_conclude s t (by decide)
    · split
      · exact (noDeferral_conclude s t (by decide)).trans (noDeferral_of_eq rfl rfl)
      · exact noDeferral_expand s t _ _
  · exact noDeferral_conclude s t (by decide)

theorem noDeferral_settleMapped (s : Run) : NoDeferral s s.settleMapped.1 := by
  have hparent : ∀ (x : Run) (p : TaskId × List TaskId), NoDeferral x (x.settleMappedParent p.1 p.2).1 := by
    intro x p
    unfold settleMappedParent
    split
    · exact noDeferral_of_eq rfl rfl
    · split
      · exact noDeferral_of_eq rfl rfl
      · exact noDeferral_setStatus x p.1 (by decide)
      · exact noDeferral_record x p.1 _
  have hfold : ∀ (l : List (TaskId × List TaskId)) (acc : Run × Bool), NoDeferral s acc.1 →
      NoDeferral s (l.foldl (fun (acc : Run × Bool) p => ((acc.1.settleMappedParent p.1 p.2).1,
        acc.2 || (acc.1.settleMappedParent p.1 p.2).2)) acc).1 := by
    intro l
    induction l with
    | nil => exact fun _ h => h
    | cons p l ih => exact fun acc h => ih _ (h.trans (hparent acc.1 p))
  exact hfold s.expanded (s, false) (noDeferral_of_eq rfl rfl)

theorem noDeferral_cancelInflight (s : Run) : NoDeferral s s.cancelInflight := by
  unfold cancelInflight
  split
  · exact noDeferral_of_eq rfl rfl
  · refine ⟨rfl, fun u hu => ?_⟩
    simp only [] at hu
    split at hu
    · cases hu
    · exact hu

theorem noDeferral_turn (s : Run) (thread : Nat) (cancelled : Bool) : NoDeferral s (s.turn thread cancelled) := by
  unfold Run.turn
  split
  · exact noDeferral_of_eq rfl rfl
  · exact noDeferral_of_eq rfl rfl
  · split
    · exact (noDeferral_cancelInflight s).trans (noDeferral_of_eq rfl rfl)
    · exact (noDeferral_settleMapped s).trans (noDeferral_of_eq rfl rfl)
  · next t rest again outer _ =>
      split
      · exact noDeferral_of_eq rfl rfl
      · split
        · exact (noDeferral_expandMapped s t).trans (noDeferral_of_eq rfl rfl)
        · have hset : NoDeferral s (s.setFrames thread (⟨rest, again⟩ :: outer)) := noDeferral_of_eq rfl rfl
          exact hset.trans (noDeferral_spawnTask _ thread t)

/-- A task whose retry is left to a sweep is not forgotten. -/
def Deferred (s : Run) : Prop := ∀ t, (s.node t).status = .retryScheduled → s.retryScheduled ≠ none

theorem Deferred.kept (h : s.Deferred) (hn : NoDeferral s s') : s'.Deferred := by
  intro t ht
  rw [hn.flag]
  exact h t (hn.status t ht)

theorem Deferred.failTask (h : s.Deferred) (thread : Nat) (t : TaskId) (swept : Bool) :
    (s.failTask thread t swept).Deferred := by
  have hmark : ∀ x : Run, NoDeferral x (x.markPending t) := by
    intro x
    unfold markPending
    split
    · exact noDeferral_of_eq rfl rfl
    · exact noDeferral_of_eq rfl rfl
  have hfailed : NoDeferral s (s.setStatus t .failed) := noDeferral_setStatus s t (by decide)
  unfold Run.failTask
  split
  · split
    · exact fun _ _ => Option.some_ne_none t
    · have hretry : NoDeferral s (s.setStatus t .retrying) := noDeferral_setStatus s t (by decide)
      exact h.kept ((hretry.trans (hmark _)).trans (noDeferral_spawnTask _ thread t))
  · split
    · exact h.kept (hfailed.trans (noDeferral_of_eq rfl rfl))
    · split
      · exact h.kept hfailed
      · exact h.kept (hfailed.trans (noDeferral_of_eq rfl rfl))

theorem Deferred.complete (h : s.Deferred) (thread : Nat) (t : TaskId) (v : Value) (swept : Bool) :
    (s.complete thread t v swept).Deferred := by
  have hrecord := h.kept (noDeferral_record s t v)
  unfold Run.complete
  simp only []
  split
  · split
    · exact hrecord.failTask thread t swept
    · exact hrecord.kept (noDeferral_of_eq rfl rfl)
  · unfold storeCached
    split
    · exact hrecord.kept (noDeferral_of_eq rfl rfl)
    · exact hrecord.kept (noDeferral_of_eq rfl rfl)

theorem Deferred.perform (h : s.Deferred) (act : Act) : (s.perform act).Deferred := by
  unfold Run.perform
  split
  · exact h
  · cases act with
    | turn thread cancelled => exact h.kept (noDeferral_turn s thread cancelled)
    | ends thread flight ending swept =>
        simp only [Run.ends]
        split
        · exact h
        · next t _ =>
            have hpop : (s.pop flight).Deferred := h.kept (noDeferral_of_eq rfl rfl)
            cases ending with
            | waits => exact hpop.kept ((noDeferral_record _ t .nil).trans (noDeferral_of_eq rfl rfl))
            | returned v => exact hpop.complete thread t v swept
            | errorValue v =>
                simp only []
                split
                · exact hpop.failTask thread t swept
                · exact hpop.complete thread t v swept
            | raised => exact hpop.failTask thread t swept
    | checkpoint label => exact h.kept (noDeferral_of_eq rfl rfl)
    | cached key v => exact h.kept (noDeferral_of_eq rfl rfl)

/-! ### What a run that has ended reports -/

/-- Nothing waits, and no exception or cancellation has ended the run. If it has not failed, there is nothing left to do. -/
structure Ended (s : Run) : Prop where
  crashed : s.crashed = false
  waiting : s.waiting = none
  retryScheduled : s.retryScheduled = none
  cancelled : s.cancelled = false
  idle : s.failed = false → s.running = [] ∧ ∀ thread, s.frames thread = []

/-- The task has come to nothing, and its body is not running. -/
def Idle (s : Run) (t : TaskId) : Prop := s.results t = none ∧ (s.node t).status ≠ .failed ∧ (s.node t).status ≠ .running

/-- The report agrees with what has been run. -/
structure Explained (s : Run) : Prop where
  found : ∀ missing, s.report ≠ .missing missing
  named : ∀ t ∈ s.tasks, ∀ status, s.reported t ≠ .other status
  unrun : ∀ t ∈ s.tasks, s.Idle t → s.reported t ∈ [.skipped, .omitted, .upstreamFailed, .cancelled]
  accepted : s.failed = false → ∀ t ∈ s.tasks, t ∉ s.skipped →
    (∀ dep ∈ (s.node t).dependencies, ∃ k ∈ (s.node t).onStates, s.reported dep = k.reported) → ¬ s.Idle t

/-- No pending task counts as failed, and none that is left would be ready if all that is cut were skipped. -/
structure Consistent (s : Run) : Prop where
  restored : ∀ t ∈ s.pending, (s.node t).status ≠ .failed
  cascade : ∀ t ∈ s.tasks, s.Left t → (∃ dep ∈ (s.node t).dependencies, s.Cut dep) →
    ∃ dep ∈ (s.node t).dependencies, s.depSatisfied t dep = false ∧ ¬ (.skipped ∈ (s.node t).onStates ∧ s.Cut dep)

theorem mem_failedIds : t ∈ s.failedIds ↔ t ∈ s.tasks ∧ (s.node t).status = .failed := by
  unfold failedIds
  rw [List.mem_filter, decide_eq_true_iff]

theorem explained_of_failed (hfailed : s.failed = true) (hlost : ∃ t ∈ s.tasks, (s.node t).status = .failed) :
    s.Explained := by
  obtain ⟨u, hu, hstatus⟩ := hlost
  have hids : s.failedIds ≠ [] := List.ne_nil_of_mem (mem_failedIds.mpr ⟨hu, hstatus⟩)
  refine ⟨fun missing h => ?_, fun t ht status h => ?_, fun t ht hidle => ?_, fun hcalm => ?_⟩
  · unfold report at h
    rw [if_pos hfailed] at h
    cases h
  · unfold reported at h
    split_ifs at h
  · obtain ⟨hresult, hnot, hrunning⟩ := hidle
    have hplain : t ∉ s.failedIds := fun hmem => hnot (mem_failedIds.mp hmem).2
    unfold reported
    rw [if_neg (not_not.mpr hresult), if_neg hplain]
    split_ifs
    · decide
    · decide
    · decide
    · decide
  · rw [hfailed] at hcalm
    cases hcalm

/-- At the end of a run that has not failed, no task that is left is ready. -/
structure Drained (s : Run) : Prop where
  running : s.running = []
  unready : ∀ t ∈ s.tasks, s.Left t → ∃ dep ∈ (s.node t).dependencies, s.depSatisfied t dep = false

/-- If nothing is under way, a task that nothing is known of is pending, or has an instance that is. -/
theorem pending_of_kind_none (hs : s.Sound) (hq : s.Quiet) (hrunning : s.running = []) (ht : t ∈ s.tasks)
    (hkind : s.kind t = none) : ∃ u ∈ s.pending,
      (s.node u).dependencies = (s.node t).dependencies ∧ (s.node u).onStates = (s.node t).onStates := by
  have hplace : ∀ u ∈ s.tasks, s.kind u = none → u ∈ s.pending ∨ (s.node u).status = .expanded := by
    intro u hu hnone
    unfold kind at hnone
    split at hnone
    · cases hnone
    · next hresult =>
        split at hnone
        · cases hnone
        · next hfailed =>
            split at hnone
            · cases hnone
            · next hskipped =>
                rcases (hs.placed u).covered (decide_eq_true hu) with hp | hf | hr | hf | hk | he
                · exact .inl (of_decide_eq_true hp)
                · have hf : u ∈ s.running.map Prod.snd := of_decide_eq_true hf
                  rw [hrunning] at hf
                  cases hf
                · exact absurd (Option.isSome_iff_ne_none.mpr hr) hresult
                · exact absurd hf hfailed
                · exact absurd (of_decide_eq_true hk) hskipped
                · exact .inr he
  rcases hplace t ht hkind with hp | he
  · exact ⟨t, hp, rfl, rfl⟩
  · obtain ⟨p, hp, rfl⟩ := hs.recorded t he
    obtain ⟨i, hi, hnone⟩ := exists_of_outcomes_none (hq.settled p hp he)
    have hinstance := (hs.parents p hp).2.2.2.2 i hi
    rcases hplace i hinstance.listed hnone with hip | hexpanded
    · exact ⟨i, hip, hinstance.dependencies, hinstance.onStates⟩
    · exact absurd ((hs.placed i).expanded hexpanded).2 hinstance.isInstance

theorem drained (h : s.Sound) (hw : s.Watched) (hkept : ∀ t ∈ s.pending, (s.node t).status ≠ .retryScheduled)
    (hrunning : s.running = []) (hframes : ∀ thread, s.frames thread = []) : s.Drained := by
  have hquiet : s.Quiet := by
    rcases hw with ⟨thread, frame, hframe, -⟩ | hquiet
    · rw [hframes] at hframe
      cases hframe
    · exact hquiet
  have hpending : ∀ t ∈ s.pending, ∃ dep ∈ (s.node t).dependencies, s.depSatisfied t dep = false := by
    intro t ht
    by_contra hnone
    obtain ⟨thread, frame, hframe, -⟩ := hquiet.ready t ht (hkept t ht) fun dep hdep => by
      by_contra hunsatisfied
      exact hnone ⟨dep, hdep, Bool.eq_false_iff.mpr hunsatisfied⟩
    rw [hframes] at hframe
    cases hframe
  refine ⟨hrunning, fun t ht ⟨hresult, hfailed, hskipped⟩ => ?_⟩
  have hnone : s.kind t = none := by
    unfold kind
    rw [if_neg (by simp [hresult]), if_neg hfailed, if_neg hskipped]
  -- The task that is pending for it has the same dependencies, and accepts the same of them.
  obtain ⟨u, hu, hdeps, hon⟩ := pending_of_kind_none h hquiet hrunning ht hnone
  obtain ⟨dep, hdep, hunsatisfied⟩ := hpending u hu
  refine ⟨dep, hdeps ▸ hdep, ?_⟩
  by_contra hsatisfied
  obtain ⟨k, hk, haccepted⟩ := depSatisfied_iff.mp (Bool.of_not_eq_false hsatisfied)
  rw [← hon] at haccepted
  exact absurd (depSatisfied_iff.mpr ⟨k, hk, haccepted⟩) (by rw [hunsatisfied]; decide)

/-- A dependency that the report holds nothing against is one that the task accepts, or one that is cut. -/
theorem satisfied_or_cut (hdep : dep ∈ s.tasks) (hplaced : s.Placed s.closure dep) (hblame : s.blame s.closure t dep = none) :
    s.depSatisfied t dep = true ∨ .skipped ∈ (s.node t).onStates ∧ s.Cut dep := by
  unfold blame at hblame
  split at hblame
  · cases hblame
  · next hblocked =>
      split at hblame
      · cases hblame
      · next hskipped =>
          split at hblame
          · cases hblame
          · next homitted =>
              rw [not_or, not_and, not_not] at hblocked homitted
              rw [not_and, not_not] at hskipped
              unfold depSatisfied
              rcases hplaced with hr | hf | hb | ho | hs
              · rw [if_pos (Option.isSome_iff_ne_none.mpr hr)]
                exact .inl (decide_eq_true (homitted.2 (Option.isSome_iff_ne_none.mpr hr)))
              · by_cases hr : (s.results dep).isSome
                · rw [if_pos hr]
                  exact .inl (decide_eq_true (homitted.2 hr))
                · rw [if_neg hr, if_pos (mem_failedIds.mp hf).2]
                  exact .inl (decide_eq_true (hblocked.2 hf))
              · exact absurd hb hblocked.1
              · exact absurd ho homitted.1
              · rcases (skipped_or_cut s).2 dep hs with hguard | hcut
                · by_cases hr : (s.results dep).isSome
                  · rw [if_pos hr]
                    exact .inl (decide_eq_true (homitted.2 hr))
                  · rw [if_neg hr]
                    by_cases hf : (s.node dep).status = .failed
                    · rw [if_pos hf]
                      exact .inl (decide_eq_true (hblocked.2 (mem_failedIds.mpr ⟨hdep, hf⟩)))
                    · rw [if_neg hf, if_pos hguard]
                      exact .inl (decide_eq_true (hskipped hs))
                · exact .inr ⟨hskipped hs, hcut⟩

theorem Consistent.absurd_left (hc : s.Consistent) (hd : s.Drained) (ht : t ∈ s.tasks) (hleft : s.Left t)
    (hall : ∀ dep ∈ (s.node t).dependencies, s.depSatisfied t dep = true ∨ .skipped ∈ (s.node t).onStates ∧ s.Cut dep) :
    False := by
  obtain ⟨dep, hdep, hunsatisfied⟩ := hd.unready t ht hleft
  have hcut : s.Cut dep := by
    rcases hall dep hdep with hsatisfied | ⟨-, hcut⟩
    · rw [hunsatisfied] at hsatisfied
      cases hsatisfied
    · exact hcut
  obtain ⟨dep', hdep', hunsatisfied', hnot⟩ := hc.cascade t ht hleft ⟨dep, hdep, hcut⟩
  rcases hall dep' hdep' with hsatisfied | hcut'
  · rw [hunsatisfied'] at hsatisfied
    cases hsatisfied
  · exact hnot hcut'

theorem placed_of_dependencies (hd : s.Drained) (hc : s.Consistent) (ht : t ∈ s.tasks)
    (hdeps : ∀ dep ∈ (s.node t).dependencies, dep ∈ s.tasks ∧ s.Placed s.closure dep) : s.Placed s.closure t := by
  rcases closure_fixed s ht with hplaced | hblameless
  · exact hplaced
  · by_contra hnot
    refine hc.absurd_left hd ht (left_of_not_placed ht hnot (skipped_or_cut s).1) fun dep hdep => ?_
    exact satisfied_or_cut (hdeps dep hdep).1 (hdeps dep hdep).2 (hblameless dep hdep)

theorem reported_of_placed (hplaced : s.Placed s.closure t) (hresult : s.results t = none)
    (hfailed : (s.node t).status ≠ .failed) : s.reported t ∈ [.skipped, .omitted, .upstreamFailed] := by
  have hplain : t ∉ s.failedIds := fun hmem => hfailed (mem_failedIds.mp hmem).2
  have hclassified := (hplaced.resolve_left (not_not.mpr hresult)).resolve_left hplain
  unfold reported
  rw [if_neg (not_not.mpr hresult), if_neg hplain]
  by_cases hb : t ∈ s.closure.blocked
  · rw [if_pos hb]
    decide
  · rw [if_neg hb]
    by_cases hs : t ∈ s.closure.skipped
    · rw [if_pos hs]
      decide
    · rw [if_neg hs, if_pos ((hclassified.resolve_left hb).resolve_right hs)]
      decide

/-- A dependency that is reported to have come to something that the task accepts is one that it accepts, or one that is
cut. -/
theorem satisfied_of_reported {k : JoinState} (hdep : dep ∈ s.tasks) (hk : k ∈ (s.node t).onStates)
    (hreported : s.reported dep = k.reported) : s.depSatisfied t dep = true ∨ .skipped ∈ (s.node t).onStates ∧ s.Cut dep := by
  unfold reported at hreported
  split at hreported
  · next hr =>
      left
      rw [depSatisfied_iff]
      refine ⟨.completed, if_pos (Option.isSome_iff_ne_none.mpr hr), ?_⟩
      cases k with
      | completed => exact hk
      | failed => cases hreported
      | skipped => cases hreported
  · next hr =>
      have hnone : ¬ (s.results dep).isSome = true := by simpa using hr
      split at hreported
      · next hf =>
          left
          rw [depSatisfied_iff]
          refine ⟨.failed, ?_, ?_⟩
          · unfold kind
            rw [if_neg hnone, if_pos (mem_failedIds.mp hf).2]
          · cases k with
            | completed => cases hreported
            | failed => exact hk
            | skipped => cases hreported
      · next hf =>
          split at hreported
          · cases k with
            | completed => cases hreported
            | failed => cases hreported
            | skipped => cases hreported
          · split at hreported
            · next hs =>
                have hon : .skipped ∈ (s.node t).onStates := by
                  cases k with
                  | completed => cases hreported
                  | failed => cases hreported
                  | skipped => exact hk
                rcases (skipped_or_cut s).2 dep hs with hguard | hcut
                · left
                  rw [depSatisfied_iff]
                  refine ⟨.skipped, ?_, hon⟩
                  have hplain : (s.node dep).status ≠ .failed := fun hstatus => hf (mem_failedIds.mpr ⟨hdep, hstatus⟩)
                  unfold kind
                  rw [if_neg hnone, if_neg hplain, if_pos hguard]
                · exact .inr ⟨hon, hcut⟩
            · split_ifs at hreported
              all_goals
                cases k with
                | completed => cases hreported
                | failed => cases hreported
                | skipped => cases hreported

theorem explained_of_drained (hs : s.Sound) (hd : s.Drained) (hc : s.Consistent) (hended : s.Ended) (hcalm : s.failed = false)
    (hlisted : ∀ t ∈ s.tasks, ∀ dep ∈ (s.node t).dependencies, dep ∈ s.tasks)
    (hplaced : ∀ t ∈ s.tasks, s.Placed s.closure t) : s.Explained := by
  have hreported : ∀ t ∈ s.tasks, s.results t = none → (s.node t).status ≠ .failed →
      s.reported t ∈ [.skipped, .omitted, .upstreamFailed] :=
    fun t ht hresult hfailed => reported_of_placed (hplaced t ht) hresult hfailed
  refine ⟨fun missing h => ?_, fun t ht status h => ?_, fun t ht hidle => ?_, fun _ t ht hskipped haccepted hidle => ?_⟩
  · have hnone : s.unexplained = [] := by
      refine List.filter_eq_nil_iff.mpr fun t ht hmem => ?_
      obtain ⟨hp, hnot⟩ := of_decide_eq_true hmem
      have hthree := hreported t ht (hs.of_pending hp).2.2.2.1 (hc.restored t hp)
      apply hnot
      revert hthree
      generalize s.reported t = reason
      simp only [List.mem_cons, List.not_mem_nil, or_false]
      rintro (rfl | rfl | rfl)
      · simp
      · simp
      · simp
    unfold report at h
    rw [hcalm, hended.waiting, hended.retryScheduled, hnone] at h
    cases h
  · by_cases hresult : s.results t = none
    · by_cases hfailed : (s.node t).status = .failed
      · unfold reported at h
        rw [if_neg (not_not.mpr hresult), if_pos (mem_failedIds.mpr ⟨ht, hfailed⟩)] at h
        cases h
      · have hthree := hreported t ht hresult hfailed
        rw [h] at hthree
        simp at hthree
    · unfold reported at h
      rw [if_pos hresult] at h
      cases h
  · have hthree := hreported t ht hidle.1 hidle.2.1
    simp only [List.mem_cons, List.not_mem_nil, or_false] at hthree ⊢
    exact hthree.imp id (Or.imp id .inl)
  · refine hc.absurd_left hd ht ⟨hidle.1, hidle.2.1, hskipped⟩ fun dep hdep => ?_
    obtain ⟨k, hk, hreported⟩ := haccepted dep hdep
    exact satisfied_of_reported (hlisted t ht dep hdep) hk hreported

/-! ### Every run -/

section runs

variable {node : TaskId → TaskNode} {tasks : List TaskId}

/-- A run of a graph, up to the first call of `schedule_ready`: a fresh one, or one resumed from whatever has been saved. -/
inductive Opens (node : TaskId → TaskNode) (tasks : List TaskId) : Run → Prop
  | fresh (workers flow : Bool) : Opens node tasks (fresh node tasks workers flow)
  | resumed (workers flow : Bool) (savedTasks : TaskId → Option SavedTask) (storedPending : Option (List TaskId))
      (order : TaskId → Nat) (labels : List String) (parked : List TaskId) :
      Opens node tasks (resumed node tasks workers flow savedTasks storedPending order labels parked)

def DependsOn (node : TaskId → TaskNode) (tasks : List TaskId) (dep t : TaskId) : Prop :=
  t ∈ tasks ∧ dep ∈ (node t).dependencies

/-- All dependencies are in the graph, and no task depends on itself, directly or not. -/
structure Acyclic (node : TaskId → TaskNode) (tasks : List TaskId) : Prop where
  listed : ∀ t ∈ tasks, ∀ dep ∈ (node t).dependencies, dep ∈ tasks
  acyclic : ∀ t, ¬ Relation.TransGen (DependsOn node tasks) t t

theorem Acyclic.of_rank (rank : TaskId → Nat) (hlisted : ∀ t ∈ tasks, ∀ dep ∈ (node t).dependencies, dep ∈ tasks)
    (hrank : ∀ t ∈ tasks, ∀ dep ∈ (node t).dependencies, rank dep < rank t) : Acyclic node tasks := by
  have hbelow : ∀ {t u}, Relation.TransGen (DependsOn node tasks) t u → rank t < rank u := by
    intro t u h
    induction h with
    | single h => exact hrank _ h.1 _ h.2
    | tail _ h ih => exact ih.trans (hrank _ h.1 _ h.2)
  exact ⟨hlisted, fun t h => Nat.lt_irrefl _ (hbelow h)⟩

/-- What holds of a task if it holds of all that it depends on holds of every task of an acyclic graph. -/
theorem Acyclic.induction (h : Acyclic node tasks) {P : TaskId → Prop}
    (hstep : ∀ t ∈ tasks, (∀ dep ∈ (node t).dependencies, P dep) → P t) : ∀ t ∈ tasks, P t := by
  have hirrefl : Std.Irrefl (Relation.TransGen (DependsOn node tasks)) := ⟨h.acyclic⟩
  have horder : IsStrictOrder TaskId (Relation.TransGen (DependsOn node tasks)) := { }
  have hfounded : {t | t ∈ tasks}.WellFoundedOn (Relation.TransGen (DependsOn node tasks)) :=
    (List.finite_toSet tasks).wellFoundedOn
  intro t ht
  refine hfounded.induction ht fun t ht ih => hstep t ht fun dep hdep => ?_
  exact ih dep (h.listed t ht dep hdep) (.single ⟨ht, hdep⟩)

/-- A run that has ended before it began: what has been restored has failed. -/
structure Over (s : Run) : Prop where
  failed : s.failed = true
  lost : ∃ t ∈ s.tasks, (s.node t).status = .failed ∧ (s.node t).allowFailure = false ∧ (s.node t).eachIndex = none
  frames : ∀ thread, s.frames thread = []
  running : s.running = []

theorem Over.perform (h : s.Over) (act : Act) : (s.perform act).Over := by
  unfold Run.perform
  split
  · exact h
  · cases act with
    | turn thread cancelled =>
        simp only [Run.turn, h.frames thread]
        exact h
    | ends thread flight ending swept =>
        have htask : s.taskOf flight = none := by
          unfold taskOf
          rw [h.running]
          rfl
        simp only [Run.ends, htask]
        exact h
    | checkpoint label => exact ⟨h.failed, h.lost, h.frames, h.running⟩
    | cached key v => exact ⟨h.failed, h.lost, h.frames, h.running⟩

theorem Over.run (h : s.Over) (acts : List Act) : (s.run acts).Over := by
  induction acts generalizing s with
  | nil => exact h
  | cons act acts ih => exact ih (h.perform act)

/-- The node of a task, and of every instance of it, has dependencies that are in the graph. -/
def Declared (node : TaskId → TaskNode) (tasks : List TaskId) (t : TaskId) (taskNode : TaskNode) : Prop :=
  ∀ dep ∈ taskNode.dependencies, dep ∈ tasks ∧ dep ∈ (node ⟨t.task, none⟩).dependencies

/-- What holds in every state of a run. -/
structure Regular (node : TaskId → TaskNode) (tasks : List TaskId) (s : Run) : Prop where
  sound : s.Sound
  lost : s.failed = true → s.Lost
  watched : s.Going → s.Watched
  deferred : s.Deferred
  shaped : s.Shaped (Declared node tasks)
  tasks : ∀ t ∈ tasks, t ∈ s.tasks

theorem Regular.perform (h : Regular node tasks s) {act : Act} (hfits : s.Fits act) : Regular node tasks (s.perform act) where
  sound := h.sound.perform act hfits
  lost := lost_perform h.sound hfits h.lost
  watched hgoing := by
    obtain ⟨hbefore, hkept⟩ := watched_perform h.sound hfits hgoing
    exact hkept (h.watched hbefore)
  deferred := h.deferred.perform act
  shaped := h.shaped.perform
    (fun t taskNode taskNode' hsame hdeclared dep hdep => hdeclared dep (by rw [hsame] at hdep; exact hdep))
    (fun t taskNode source hdeclared _ _ index item dep hdep => hdeclared dep hdep) act
  tasks t ht := (settles_perform h.sound act hfits).tasks t (h.tasks t ht)

theorem Regular.run (h : Regular node tasks s) (acts : List Act) (hfits : s.AllFit acts) : Regular node tasks (s.run acts) := by
  induction acts generalizing s with
  | nil => exact h
  | cons act acts ih => exact ih (h.perform hfits.1) hfits.2

theorem Restored.regular (h : Restored node tasks s) (hacyclic : Acyclic node tasks) (hunrun : Unrun node tasks)
    (hcovered : ∀ t ∈ tasks, s.results t = none → t ∈ s.pending) (hcalm : s.failed = false)
    (hframes : s.frames = fun thread => if thread = 0 then [{}] else []) : Regular node tasks s where
  sound := h.sound hunrun hcovered
  lost hfailed := by
    rw [hcalm] at hfailed
    cases hfailed
  watched _ := .inl ⟨0, {}, by rw [hframes]; exact List.mem_cons_self, rfl⟩
  deferred t ht := by
    rcases h.status t with hs | hs | ⟨hs, -⟩
    · exact absurd (hs.symm.trans ht) (by decide)
    · exact absurd (hs.symm.trans ht) (by decide)
    · exact absurd (hs.symm.trans ht) (by decide)
  shaped := by
    refine ⟨fun t ht dep hdep => ?_, fun thread frame hframe t ht => ?_⟩
    · rw [h.listed] at ht
      rw [h.same t] at hdep
      have hself : (⟨t.task, none⟩ : TaskId) = t := by
        rw [← (hunrun.2 t ht).2]
      rw [hself]
      exact ⟨hacyclic.listed t ht dep hdep, hdep⟩
    · rw [hframes] at hframe
      rw [rest_of_first thread frame hframe] at ht
      cases ht
  tasks _ ht := h.listed ▸ ht

theorem Opens.cases (ho : Opens node tasks s) (hacyclic : Acyclic node tasks) (hunrun : Unrun node tasks) :
    Regular node tasks s ∨ s.Over := by
  cases ho with
  | fresh workers flow =>
      exact .inl ((restored_fresh hunrun workers flow).regular hacyclic hunrun (fun t ht _ => List.mem_dedup.mpr ht) rfl rfl)
  | resumed workers flow savedTasks storedPending order labels parked =>
      obtain ⟨x, hx, hcases⟩ :=
        resumed_cases hunrun workers flow savedTasks storedPending order labels parked
      have hr := hx.restored
      rcases hcases with ⟨hfailed, he⟩ | ⟨hcalm, hcovered, he⟩
      · obtain ⟨t, ht, hstatus, hallow⟩ := hx.blamed hfailed
        have hindex : (x.node t).eachIndex = none := by
          rw [hr.same t]
          exact (hunrun.2 t ht).1
        right
        rw [he]
        exact ⟨hfailed, ⟨t, hr.listed ▸ ht, hstatus, hallow, hindex⟩, fun thread => congrFun hx.frames thread, hr.running⟩
      · left
        rw [he]
        exact Restored.regular ⟨hr.listed, hr.same, hr.status, hr.nodup, hr.pending, hr.results, hr.running, hr.skipped,
          hr.expanded, hr.starts, hr.retries⟩ hacyclic hunrun hcovered hcalm rfl

theorem Regular.listed (h : Regular node tasks s) : ∀ t ∈ s.tasks, ∀ dep ∈ (s.node t).dependencies, dep ∈ tasks :=
  fun t ht dep hdep => (h.shaped.tasks t ht dep hdep).1

theorem Regular.placed (h : Regular node tasks s) (hacyclic : Acyclic node tasks) (hunrun : Unrun node tasks)
    (hd : s.Drained) (hc : s.Consistent) : ∀ t ∈ s.tasks, s.Placed s.closure t := by
  have hplaced : ∀ t ∈ tasks, s.Placed s.closure t := by
    refine hacyclic.induction fun t ht ih => ?_
    refine placed_of_dependencies hd hc (h.tasks t ht) fun dep hdep => ?_
    obtain ⟨hdeclared, hsame⟩ := h.shaped.tasks t (h.tasks t ht) dep hdep
    have hself : (⟨t.task, none⟩ : TaskId) = t := by
      rw [← (hunrun.2 t ht).2]
    rw [hself] at hsame
    exact ⟨h.tasks dep hdeclared, ih dep hsame⟩
  intro t ht
  refine placed_of_dependencies hd hc ht fun dep hdep => ?_
  exact ⟨h.tasks dep (h.listed t ht dep hdep), hplaced dep (h.listed t ht dep hdep)⟩

theorem Regular.drained (h : Regular node tasks s) (hended : s.Ended) (hcalm : s.failed = false) : s.Drained := by
  obtain ⟨hrunning, hframes⟩ := hended.idle hcalm
  have hw := h.watched ⟨hcalm, hended.waiting, hended.cancelled, hended.crashed⟩
  have hkept : ∀ t ∈ s.pending, (s.node t).status ≠ .retryScheduled :=
    fun t _ hstatus => h.deferred t hstatus hended.retryScheduled
  exact Run.drained h.sound hw hkept hrunning hframes

theorem Regular.explained (h : Regular node tasks s) (hacyclic : Acyclic node tasks) (hunrun : Unrun node tasks)
    (hended : s.Ended) (hcons : s.failed = false → s.Consistent) : s.Explained := by
  cases hfailed : s.failed with
  | true =>
      obtain ⟨t, ht, hstatus, -⟩ := h.lost hfailed
      exact explained_of_failed hfailed ⟨t, ht, hstatus⟩
  | false =>
      have hc := hcons hfailed
      have hd := h.drained hended hfailed
      exact explained_of_drained h.sound hd hc hended hfailed (fun t ht dep hdep => h.tasks dep (h.listed t ht dep hdep))
        (h.placed hacyclic hunrun hd hc)

/-- Task 0 is not run because of its guard, task 1 needs it, and task 2 runs if task 1 is skipped. -/
def guardedNode : TaskId → TaskNode
  | ⟨0, none⟩ => { guard := some (.reached "ready") }
  | ⟨1, none⟩ => { dependencies := [⟨0, none⟩] }
  | ⟨2, none⟩ => { dependencies := [⟨1, none⟩], onStates := {.skipped} }
  | _ => {}

/-- The guard says no, and then nothing is ready. -/
def guardedRun (tasks : List TaskId) : Run :=
  (fresh guardedNode tasks false true).run [.turn 0 false, .turn 0 false, .turn 0 false, .turn 0 false]

theorem unrun_guarded : Unrun guardedNode [⟨0, none⟩, ⟨1, none⟩, ⟨2, none⟩] := by
  refine ⟨fun t => ?_, by decide⟩
  unfold guardedNode
  split
  · exact ⟨rfl, rfl⟩
  · exact ⟨rfl, rfl⟩
  · exact ⟨rfl, rfl⟩
  · exact ⟨rfl, rfl⟩

end runs

end Run

end Nodus.Orchestration
