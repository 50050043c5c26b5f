import Nodus.Expansions
import Nodus.PlainResumes
import Nodus.StatusOrder

/-! A run that has failed and is resumed: what is restored of it, and what is reported again. -/

namespace Nodus.Orchestration

namespace Run

variable {s s' : Run} {t dep : TaskId} {closure closure' : Closure}

/-! ### Reports of runs that show the same of their tasks -/

/-- The same tasks have results, and the same tasks have failed; none is skipped by its guard in the second run. -/
structure Mirrors (s s' : Run) : Prop where
  tasks : s'.tasks = s.tasks
  same : ∀ t ∈ s.tasks, (s.node t).Same (s'.node t)
  results : s'.results = s.results
  failed : ∀ t ∈ s.tasks, (s'.node t).status = .failed ↔ (s.node t).status = .failed
  skipped : s'.skipped = []

theorem Mirrors.mem_failedIds (h : Mirrors s s') : t ∈ s'.failedIds ↔ t ∈ s.failedIds := by
  rw [Run.mem_failedIds, Run.mem_failedIds, h.tasks]
  exact and_congr_right fun ht => h.failed t ht

theorem Mirrors.onStates (h : Mirrors s s') (ht : t ∈ s.tasks) : (s'.node t).onStates = (s.node t).onStates := by
  rw [h.same t ht]

theorem Mirrors.dependencies (h : Mirrors s s') (ht : t ∈ s.tasks) : (s'.node t).dependencies = (s.node t).dependencies := by
  rw [h.same t ht]

/-- A task that has neither a result nor failed is classified as skipped. -/
def Passed (s : Run) (closure : Closure) : Prop :=
  ∃ t ∈ s.tasks, s.results t = none ∧ (s.node t).status ≠ .failed ∧ t ∈ closure.skipped

theorem Passed.classify (h : s.Passed closure) (u : TaskId) : s.Passed (s.classify closure u) := by
  obtain ⟨t, ht, hresult, hstatus, hmem⟩ := h
  refine ⟨t, ht, hresult, hstatus, ?_⟩
  rcases classify_members s closure u with ⟨hsame, -⟩ | ⟨-, dep, -, r, -, hmembers⟩
  · rw [hsame]
    exact hmem
  · exact (hmembers .skipped t).mpr (.inl hmem)

/-- The classes of the two runs, but for the tasks that are skipped. -/
structure Parallel (closure closure' : Closure) : Prop where
  blocked : closure'.blocked = closure.blocked
  omitted : closure'.omitted = closure.omitted
  skipped : closure'.skipped = []

theorem Parallel.placed (hp : Parallel closure closure') (h : Mirrors s s') (ht : t ∈ s.tasks) (hnot : ¬ s.Passed closure) :
    s'.Placed closure' t ↔ s.Placed closure t := by
  unfold Placed
  rw [h.results, h.mem_failedIds, hp.blocked, hp.omitted, hp.skipped]
  have hskipped : t ∈ closure.skipped → s.results t ≠ none ∨ t ∈ s.failedIds := by
    intro hmem
    by_contra hneither
    obtain ⟨hresult, hstatus⟩ := not_or.mp hneither
    exact hnot ⟨t, ht, not_not.mp hresult, fun hf => hstatus (Run.mem_failedIds.mpr ⟨ht, hf⟩), hmem⟩
  have hnil : t ∉ ([] : List TaskId) := List.not_mem_nil
  tauto

theorem Parallel.blame (hp : Parallel closure closure') (h : Mirrors s s') (ht : t ∈ s.tasks)
    (hnone : s.blame closure t dep ≠ some .skipped) : s'.blame closure' t dep = s.blame closure t dep := by
  have hnil : ¬ (dep ∈ ([] : List TaskId) ∧ .skipped ∉ (s.node t).onStates) := fun hand => absurd hand.1 List.not_mem_nil
  unfold Run.blame at hnone ⊢
  simp only [h.results, h.mem_failedIds, h.onStates ht, hp.blocked, hp.omitted, hp.skipped, if_neg hnil]
  by_cases hblocked : dep ∈ closure.blocked ∨ dep ∈ s.failedIds ∧ .failed ∉ (s.node t).onStates
  · rw [if_pos hblocked, if_pos hblocked]
  · rw [if_neg hblocked] at hnone
    have hskip : ¬ (dep ∈ closure.skipped ∧ .skipped ∉ (s.node t).onStates) := by
      intro hskipped
      rw [if_pos hskipped] at hnone
      exact hnone rfl
    rw [if_neg hblocked, if_neg hblocked, if_neg hskip]

theorem findSome?_agree {α β : Type} {f g : α → Option β} {b : β} {l : List α} (hagree : ∀ a ∈ l, f a ≠ some b → g a = f a)
    (hne : l.findSome? f ≠ some b) : l.findSome? g = l.findSome? f := by
  induction l with
  | nil => rfl
  | cons a l ih =>
      have hfirst : f a ≠ some b := by
        intro hfa
        rw [List.findSome?_cons, hfa] at hne
        exact hne rfl
      rw [List.findSome?_cons, List.findSome?_cons, hagree a List.mem_cons_self hfirst]
      cases hfa : f a with
      | some c => rfl
      | none =>
          rw [List.findSome?_cons, hfa] at hne
          exact ih (fun a' ha' => hagree a' (List.mem_cons_of_mem _ ha')) hne

theorem classify_of_blame (hnot : ¬ s.Placed closure t) {r : Option Reported}
    (h : (s.node t).dependencies.findSome? (s.blame closure t) = r) : s.classify closure t =
      if r = some .upstreamFailed then { closure with blocked := t :: closure.blocked }
      else if r = some .skipped then { closure with skipped := t :: closure.skipped }
      else if r = some .omitted then { closure with omitted := t :: closure.omitted } else closure := by
  unfold Run.classify
  rw [if_neg hnot, h]
  split
  · rfl
  · rfl
  · rfl
  · next h1 h2 h3 => rw [if_neg h1, if_neg h2, if_neg h3]

/-- A classification goes the same way in both runs, unless it puts a task among the skipped ones. -/
theorem Parallel.classify (hp : Parallel closure closure') (h : Mirrors s s') (ht : t ∈ s.tasks)
    (hnot : ¬ s.Passed (s.classify closure t)) : Parallel (s.classify closure t) (s'.classify closure' t) := by
  have hbefore : ¬ s.Passed closure := fun hpassed => hnot (hpassed.classify t)
  have hplaced := hp.placed h ht hbefore
  by_cases hplace : s.Placed closure t
  · rw [classify_of_placed hplace, classify_of_placed (hplaced.mpr hplace)]
    exact hp
  · have hplace' : ¬ s'.Placed closure' t := fun hs' => hplace (hplaced.mp hs')
    have hfound : (s.node t).dependencies.findSome? (s.blame closure t) ≠ some .skipped := by
      intro hskipped
      apply hnot
      rw [classify_of_blame hplace hskipped, if_neg (by decide), if_pos rfl]
      obtain ⟨hresult, hrest⟩ := not_or.mp hplace
      have hstatus : t ∉ s.failedIds := (not_or.mp hrest).1
      exact ⟨t, ht, not_not.mp hresult, fun hf => hstatus (Run.mem_failedIds.mpr ⟨ht, hf⟩), List.mem_cons_self⟩
    have hsame : (s'.node t).dependencies.findSome? (s'.blame closure' t) =
        (s.node t).dependencies.findSome? (s.blame closure t) := by
      rw [h.dependencies ht]
      exact findSome?_agree (fun dep _ hnone => hp.blame h ht hnone) hfound
    rw [classify_of_blame hplace rfl, classify_of_blame hplace' hsame, if_neg hfound, if_neg hfound]
    split_ifs
    · exact ⟨congrArg (t :: ·) hp.blocked, hp.omitted, hp.skipped⟩
    · exact ⟨hp.blocked, congrArg (t :: ·) hp.omitted, hp.skipped⟩
    · exact hp

theorem Mirrors.parallel (h : Mirrors s s') (hbase : ¬ s.Passed s.closure) : Parallel s.closure s'.closure := by
  have hpass : ∀ {c c' : Closure}, s.Passed c ∨ Parallel c c' →
      s.Passed (s.tasks.foldl s.classify c) ∨ Parallel (s.tasks.foldl s.classify c) (s'.tasks.foldl s'.classify c') := by
    intro c c' hcc
    rw [h.tasks]
    apply List.foldl_rel (r := fun c c' => s.Passed c ∨ Parallel c c') hcc
    intro t ht c c' hcc
    by_cases hpassed : s.Passed (s.classify c t)
    · exact .inl hpassed
    · rcases hcc with hc | hp
      · exact absurd (hc.classify t) hpassed
      · exact .inr (hp.classify h ht hpassed)
  have hend : s.Passed s.closure ∨ Parallel s.closure s'.closure := by
    unfold Run.closure
    rw [h.tasks, h.skipped]
    apply List.foldl_rel (r := fun c c' => s.Passed c ∨ Parallel c c')
    · exact .inr ⟨rfl, rfl, rfl⟩
    · intro n _ c c' hcc
      have hstep := hpass hcc
      rw [h.tasks] at hstep
      exact hstep
  exact hend.resolve_left hbase

theorem Mirrors.failedIds_ne_nil (h : Mirrors s s') : s'.failedIds ≠ [] ↔ s.failedIds ≠ [] := by
  rw [Ne, Ne, List.eq_nil_iff_forall_not_mem, List.eq_nil_iff_forall_not_mem]
  exact not_congr (forall_congr' fun _ => not_congr h.mem_failedIds)

/-- The same is reported of a task in both runs, but perhaps of one that nothing explains and that may be running. -/
theorem Mirrors.reported (h : Mirrors s s') (hpassed : ¬ s.Passed s.closure) (hfailed : s.failedIds ≠ []) (ht : t ∈ s.tasks) :
    s'.reported t = s.reported t ∧ s.reported t ≠ .abandoned ∨
      s.reported t = (if (s.node t).status = .running then .abandoned else .cancelled) ∧
        s'.reported t = (if (s'.node t).status = .running then .abandoned else .cancelled) := by
  have hp := h.parallel hpassed
  have hfailed' := h.failedIds_ne_nil.mpr hfailed
  have hnil : t ∉ ([] : List TaskId) := List.not_mem_nil
  have hskipped : s.results t = none → t ∉ s.failedIds → t ∉ s.closure.skipped :=
    fun hresult hf hmem => hpassed ⟨t, ht, hresult, fun hstatus => hf (Run.mem_failedIds.mpr ⟨ht, hstatus⟩), hmem⟩
  unfold Run.reported
  simp only [h.results, h.mem_failedIds, hp.blocked, hp.omitted, hp.skipped, if_neg hnil, if_pos hfailed, if_pos hfailed']
  by_cases hresult : s.results t ≠ none
  · simp only [if_pos hresult]
    exact .inl ⟨trivial, nofun⟩
  · simp only [if_neg hresult]
    by_cases hf : t ∈ s.failedIds
    · simp only [if_pos hf]
      exact .inl ⟨trivial, nofun⟩
    · simp only [if_neg hf, if_neg (hskipped (not_not.mp hresult) hf)]
      by_cases hblocked : t ∈ s.closure.blocked
      · simp only [if_pos hblocked]
        exact .inl ⟨trivial, nofun⟩
      · simp only [if_neg hblocked]
        by_cases homitted : t ∈ s.closure.omitted
        · simp only [if_pos homitted]
          exact .inl ⟨trivial, nofun⟩
        · simp only [if_neg homitted]
          exact .inr ⟨trivial, trivial⟩

theorem Passed.reported (h : s.Passed s.closure) : ∃ t ∈ s.tasks, s.reported t = .skipped := by
  obtain ⟨t, ht, hresult, hstatus, hmem⟩ := h
  refine ⟨t, ht, ?_⟩
  by_cases hleft : s.Left t
  · exact reported_of_member (r := .skipped) hleft hmem
  · rw [reported_of_not_left ht hleft, if_neg (not_not.mpr hresult), if_neg hstatus]

theorem not_reported_skipped (h : s.skipped = []) (t : TaskId) : s.reported t ≠ .skipped := by
  have hnone : s.closure.skipped = [] := by
    rw [closure_eq]
    apply Passes.passes_keep (P := fun closure : Closure => closure.skipped = []) _ h
    intro closure u _ hnil
    rcases classify_members s closure u with ⟨hsame, -⟩ | ⟨-, dep, -, r, hblame, hmembers⟩
    · rw [hsame]
      exact hnil
    · have hr : r ≠ .skipped := by
        rintro rfl
        unfold Run.blame at hblame
        simp only [hnil, List.not_mem_nil, false_and, if_false] at hblame
        split_ifs at hblame
        · cases hblame
        · cases hblame
      apply List.eq_nil_iff_forall_not_mem.mpr
      intro v hv
      rcases (hmembers .skipped v).mp hv with hold | ⟨he, -⟩
      · have hmem : v ∈ closure.skipped := hold
        rw [hnil] at hmem
        exact List.not_mem_nil hmem
      · exact hr he.symm
  unfold Run.reported
  rw [hnone, if_neg (List.not_mem_nil (a := t) : t ∉ ([] : List TaskId))]
  split_ifs <;> rintro ⟨⟩

/-! ### What is restored -/

/-- A task has failed for good, and this is not allowed. -/
def Unallowed (s : Run) (t : TaskId) : Prop := (s.node t).status = .failed ∧ (s.node t).allowFailure = false

instance (s : Run) (t : TaskId) : Decidable (s.Unallowed t) := inferInstanceAs (Decidable (_ ∧ _))

/-- The status with which a saved task is restored. -/
def restoredStatus : TaskStatus → TaskStatus
  | .completed | .done => .completed
  | .failed => .failed
  | _ => .pending

/-- The tasks before some place in the list have been restored from a run. -/
structure RestoredUpTo (s : Run) (node : TaskId → TaskNode) (tasks before : List TaskId) (x : Run) : Prop where
  tasks : x.tasks = tasks
  skipped : x.skipped = []
  expanded : x.expanded = []
  running : x.running = []
  frames : x.frames = fun _ => []
  starts : x.starts = []
  same : ∀ t, (node t).Same (x.node t)
  results : ∀ t, x.results t = if t ∈ before then s.results t else none
  status : ∀ t, (x.node t).status = if t ∈ before then restoredStatus (s.node t).status else (node t).status

variable {node : TaskId → TaskNode} {tasks before : List TaskId} {x : Run}

theorem Sound.result_iff (h : s.Sound) (ht : t ∈ s.tasks) :
    s.results t ≠ none ↔ (s.node t).status = .completed ∨ (s.node t).status = .done := by
  constructor
  · exact fun hresult => ((h.placed t).result hresult).2.2.symm
  · intro hstatus hnone
    have hnot : ∀ status : TaskStatus, status ≠ .completed → status ≠ .done → (s.node t).status ≠ status := by
      intro status hc hd heq
      rcases hstatus with hs | hs
      · exact hc (heq.symm.trans hs)
      · exact hd (heq.symm.trans hs)
    have hidle : ¬ (s.node t).status.Idle := by
      rcases hstatus with hs | hs
      · rw [hs]
        exact id
      · rw [hs]
        exact id
    rcases (h.placed t).covered (decide_eq_true ht) with hp | hf | hr | hs | hk | he
    · exact hidle ((h.placed t).pending hp).2.2.2.2
    · exact hnot .running (by decide) (by decide) ((h.placed t).flying hf).2.2.2.1
    · exact hr hnone
    · exact hnot .failed (by decide) (by decide) hs
    · exact hidle ((h.placed t).skipped hk).2
    · exact hnot .expanded (by decide) (by decide) he

theorem mem_append_singleton {l : List TaskId} {u : TaskId} : u ∈ l ++ [t] ↔ u ∈ l ∨ u = t := by
  rw [List.mem_append, List.mem_singleton]

theorem RestoredUpTo.status_put (hx : RestoredUpTo s node tasks before x) (attempts : Nat) {status : TaskStatus}
    (hstatus : restoredStatus (s.node t).status = status) (u : TaskId) :
    (((x.setNode t fun node => { node with attempts }).setStatus t status).node u).status =
      if u ∈ before ++ [t] then restoredStatus (s.node u).status else (node u).status := by
  rw [node_restored]
  by_cases hu : u = t
  · subst hu
    rw [if_pos rfl, if_pos (mem_append_singleton.mpr (.inr rfl)), hstatus]
  · rw [if_neg hu, hx.status u]
    simp only [mem_append_singleton, or_iff_left hu]

theorem RestoredUpTo.same_put (hx : RestoredUpTo s node tasks before x) (t : TaskId) (attempts : Nat) (status : TaskStatus)
    (u : TaskId) : (node u).Same (((x.setNode t fun node => { node with attempts }).setStatus t status).node u) := by
  rw [node_restored]
  split
  · next hu =>
      rw [hu]
      exact same_trans (hx.same t) rfl
  · exact hx.same u

theorem RestoredUpTo.results_put (hx : RestoredUpTo s node tasks before x) (hnone : s.results t = none) (u : TaskId) :
    x.results u = if u ∈ before ++ [t] then s.results u else none := by
  rw [hx.results u]
  by_cases hu : u = t
  · subst hu
    rw [hnone, ite_self, if_pos (mem_append_singleton.mpr (.inr rfl))]
  · simp only [mem_append_singleton, or_iff_left hu]

/-- One more task is restored, and it is the last one if it has failed and was not allowed to. -/
theorem RestoredUpTo.restoreTask (hx : RestoredUpTo s node tasks before x) (hcalm : x.failed = false) (hs : s.Sound)
    (ht : t ∈ s.tasks) (hallow : (node t).allowFailure = (s.node t).allowFailure) :
    RestoredUpTo s node tasks (before ++ [t]) (x.restoreTask s.saved t) ∧
      (x.restoreTask s.saved t).failed = decide (s.Unallowed t) := by
  have hsaved : s.saved t = some ⟨(s.node t).status, (s.node t).attempts, s.results t⟩ := if_pos ht
  have hallow : (x.node t).allowFailure = (s.node t).allowFailure := by
    rw [hx.same t]
    exact hallow
  have hresult := hs.result_iff ht
  unfold Run.restoreTask
  rw [if_neg (Bool.eq_false_iff.mp hcalm), hsaved]
  simp only []
  have hallowed : (s.node t).status ≠ .failed → decide (s.Unallowed t) = false :=
    fun hne => decide_eq_false fun hf => hne hf.1
  have hdone : restoredStatus (s.node t).status = .completed → s.results t ≠ none →
      RestoredUpTo s node tasks (before ++ [t])
        { ((x.setNode t fun node => { node with attempts := (s.node t).attempts }).setStatus t .completed).removePending t with
          results := Function.update x.results t (some ((s.results t).getD .nil)) } := by
    intro hstatus hne
    obtain ⟨v, hv⟩ := Option.ne_none_iff_exists'.mp hne
    refine ⟨hx.tasks, hx.skipped, hx.expanded, hx.running, hx.frames, hx.starts, hx.same_put t _ _, fun u => ?_,
      hx.status_put _ hstatus⟩
    show Function.update x.results t _ u = _
    by_cases hu : u = t
    · subst hu
      rw [Function.update_self, if_pos (mem_append_singleton.mpr (.inr rfl)), hv]
      rfl
    · rw [Function.update_of_ne hu, hx.results u]
      simp only [mem_append_singleton, or_iff_left hu]
  split
  · next hstate =>
      have hne : (s.node t).status ≠ .failed := by
        rw [hstate]
        decide
      exact ⟨hdone (by rw [hstate]; rfl) (hresult.mpr (.inl hstate)), hcalm.trans (hallowed hne).symm⟩
  · next hstate =>
      have hne : (s.node t).status ≠ .failed := by
        rw [hstate]
        decide
      exact ⟨hdone (by rw [hstate]; rfl) (hresult.mpr (.inr hstate)), hcalm.trans (hallowed hne).symm⟩
  · next hstate =>
      have hnone : s.results t = none := by
        by_contra hne
        rcases hresult.mp hne with hs | hs
        · exact absurd (hstate.symm.trans hs) (by decide)
        · exact absurd (hstate.symm.trans hs) (by decide)
      have hfailed : restoredStatus (s.node t).status = .failed := by
        rw [hstate]
        rfl
      split
      · next hyes =>
          have hno : decide (s.Unallowed t) = false :=
            decide_eq_false fun hf => absurd (hf.2.symm.trans (hallow.symm.trans hyes)) (by decide)
          exact ⟨⟨hx.tasks, hx.skipped, hx.expanded, hx.running, hx.frames, hx.starts, hx.same_put t _ _, hx.results_put hnone,
            hx.status_put _ hfailed⟩, hcalm.trans hno.symm⟩
      · next hyes =>
          have hlost : s.Unallowed t := ⟨hstate, hallow ▸ Bool.eq_false_iff.mpr hyes⟩
          exact ⟨⟨hx.tasks, hx.skipped, hx.expanded, hx.running, hx.frames, hx.starts, hx.same_put t _ _, hx.results_put hnone,
            hx.status_put _ hfailed⟩, (decide_eq_true hlost).symm⟩
  · next hcompleted hdone hfailed =>
      have hnone : s.results t = none := by
        by_contra hne
        rcases hresult.mp hne with hs | hs
        · exact hcompleted hs
        · exact hdone hs
      have hstatus : restoredStatus (s.node t).status = .pending := by
        unfold restoredStatus
        split
        · next heq => exact absurd heq hcompleted
        · next heq => exact absurd heq hdone
        · next heq => exact absurd heq hfailed
        · rfl
      exact ⟨⟨hx.tasks, hx.skipped, hx.expanded, hx.running, hx.frames, hx.starts, hx.same_put t _ _, hx.results_put hnone,
        hx.status_put _ hstatus⟩, hcalm.trans (hallowed hfailed).symm⟩

theorem restoreTasks_failed (saved : TaskId → Option SavedTask) (hfailed : x.failed = true) (l : List TaskId) :
    l.foldl (Run.restoreTask saved) x = x := by
  induction l with
  | nil => rfl
  | cons t l ih =>
      have hstep : x.restoreTask saved t = x := if_pos hfailed
      rw [List.foldl_cons, hstep, ih]

theorem RestoredUpTo.restoreTasks (hs : s.Sound) {l : List TaskId} (hl : ∀ t ∈ l, t ∈ s.tasks)
    (hallow : ∀ t ∈ l, (node t).allowFailure = (s.node t).allowFailure) (hallowed : ∀ t ∈ l, ¬ s.Unallowed t)
    (hx : RestoredUpTo s node tasks [] x) (hcalm : x.failed = false) :
    RestoredUpTo s node tasks l (l.foldl (Run.restoreTask s.saved) x) ∧ (l.foldl (Run.restoreTask s.saved) x).failed = false := by
  induction l using List.reverseRecOn with
  | nil => exact ⟨hx, hcalm⟩
  | append_singleton l t ih =>
      have hlast : t ∈ l ++ [t] := mem_append_singleton.mpr (.inr rfl)
      have hbefore : ∀ {u}, u ∈ l → u ∈ l ++ [t] := fun hu => mem_append_singleton.mpr (.inl hu)
      obtain ⟨hup, hfailed⟩ := ih (fun u hu => hl u (hbefore hu)) (fun u hu => hallow u (hbefore hu))
        (fun u hu => hallowed u (hbefore hu))
      rw [List.foldl_append]
      obtain ⟨hnext, hflag⟩ := hup.restoreTask hfailed hs (hl t hlast) (hallow t hlast)
      exact ⟨hnext, hflag.trans (decide_eq_false (hallowed t hlast))⟩

/-- The first call of `resumed` restores the tasks up to the first one that has failed and was not allowed to. -/
theorem resumed_halted (hs : s.Sound) (hlisted : ∀ t ∈ tasks, t ∈ s.tasks)
    (hallow : ∀ t ∈ tasks, (node t).allowFailure = (s.node t).allowFailure) {pre post : List TaskId} {f : TaskId}
    (hsplit : tasks = pre ++ f :: post) (hlost : s.Unallowed f) (hpre : ∀ t ∈ pre, ¬ s.Unallowed t) (workers flow : Bool)
    (stored : Option (List TaskId)) (order : TaskId → Nat) (labels : List String) (parked : List TaskId) :
    (resumed node tasks workers flow s.saved stored order labels parked).failed = true ∧
      RestoredUpTo s node tasks (pre ++ [f]) (resumed node tasks workers flow s.saved stored order labels parked) := by
  have hbegin : ∀ pending, RestoredUpTo s node tasks []
      ({ node, tasks, workers, flow, pending, order, labels, parked } : Run) :=
    fun _ => ⟨rfl, rfl, rfl, rfl, rfl, rfl, fun _ => same_refl _, fun _ => rfl, fun _ => rfl⟩
  have hmem : ∀ {t}, t ∈ pre → t ∈ tasks := fun ht => hsplit ▸ List.mem_append_left _ ht
  have hf : f ∈ tasks := hsplit ▸ List.mem_append_right _ List.mem_cons_self
  have hall : ∀ pending, RestoredUpTo s node tasks (pre ++ [f]) (tasks.foldl (Run.restoreTask s.saved)
      ({ node, tasks, workers, flow, pending, order, labels, parked } : Run)) ∧ (tasks.foldl (Run.restoreTask s.saved)
        ({ node, tasks, workers, flow, pending, order, labels, parked } : Run)).failed = true := by
    intro pending
    obtain ⟨hup, hcalm⟩ := RestoredUpTo.restoreTasks hs (fun t ht => hlisted t (hmem ht)) (fun t ht => hallow t (hmem ht))
      hpre (hbegin pending) rfl
    obtain ⟨hhalt, hfailed⟩ := hup.restoreTask hcalm hs (hlisted f hf) (hallow f hf)
    rw [decide_eq_true hlost] at hfailed
    have hfold : ∀ y : Run, tasks.foldl (Run.restoreTask s.saved) y =
        post.foldl (Run.restoreTask s.saved) ((pre.foldl (Run.restoreTask s.saved) y).restoreTask s.saved f) := by
      intro y
      conv_lhs => rw [hsplit, List.foldl_append, List.foldl_cons]
    rw [hfold, restoreTasks_failed s.saved hfailed post]
    exact ⟨hhalt, hfailed⟩
  unfold resumed
  simp only []
  rw [if_pos (hall _).2]
  exact ⟨(hall _).2, (hall _).1⟩

theorem resumed_calm (hs : s.Sound) (hlisted : ∀ t ∈ tasks, t ∈ s.tasks)
    (hallow : ∀ t ∈ tasks, (node t).allowFailure = (s.node t).allowFailure) (hallowed : ∀ t ∈ tasks, ¬ s.Unallowed t)
    (workers flow : Bool) (stored : Option (List TaskId)) (order : TaskId → Nat) (labels : List String)
    (parked : List TaskId) : (resumed node tasks workers flow s.saved stored order labels parked).failed = false := by
  have hbegin : ∀ pending, RestoredUpTo s node tasks []
      ({ node, tasks, workers, flow, pending, order, labels, parked } : Run) :=
    fun _ => ⟨rfl, rfl, rfl, rfl, rfl, rfl, fun _ => same_refl _, fun _ => rfl, fun _ => rfl⟩
  have hall := fun pending => (RestoredUpTo.restoreTasks hs hlisted hallow hallowed (hbegin pending) rfl).2
  unfold resumed
  simp only []
  rw [if_neg (Bool.eq_false_iff.mp (hall _))]
  exact (markUnrecorded_failed _).trans (hall _)

/-! ### What is reported again -/

/-- What a run is resumed with: the graph that is built again, or the one that is still registered, with the statuses that its
tasks have come to. -/
inductive ResumedGraph where
  | rebuilt
  | registered
  deriving DecidableEq

def ResumedGraph.nodes : ResumedGraph → (TaskId → TaskNode) → Run → TaskId → TaskNode
  | .rebuilt, node, _ => node
  | .registered, _, s => s.node

/-- The task at which the restoration ends the run, and which is all that is named as failed. -/
def haltedAt (node : TaskId → TaskNode) (tasks : List TaskId) (saved : TaskId → Option SavedTask) : Option TaskId :=
  tasks.find? fun t => (saved t).any (fun task => task.state = .failed) && !(node t).allowFailure

/-- A resumed run ends at once, and reports what the first one has reported. -/
structure ResumesAlike (s s' : Run) (names : List TaskId) : Prop where
  failed : s'.failed = true
  starts : ∀ acts, (s'.run acts).starts = []
  keys : ∀ t, t ∈ s'.tasks ↔ t ∈ s.tasks
  statuses : ∀ t ∈ s.tasks, s'.reported t = s.reported t
  steps : ∀ t ∈ s'.tasks, s'.stepResult t = s.stepResult t
  names : names = s.failedNames

/-- One task has failed that was not allowed to, and what is listed after it has come to nothing that is not in the graph. -/
structure HaltsCleanly (s : Run) (graph : ResumedGraph) (tasks pre : List TaskId) (f : TaskId) (post : List TaskId) : Prop where
  split : tasks = pre ++ f :: post
  lost : s.Unallowed f
  alone : ∀ t ∈ pre ++ post, ¬ s.Unallowed t
  before : ∀ t ∈ pre, s.reported t ≠ .abandoned
  after : ∀ t ∈ post, t ∉ pre → s.results t = none ∧
    (graph = .rebuilt → (s.node t).status ≠ .failed ∧ s.reported t ≠ .abandoned)

/-- No mapped step has been expanded, and no task is reported as skipped. -/
structure Repeatable (s : Run) (graph : ResumedGraph) (tasks : List TaskId) : Prop where
  unmapped : s.tasks = tasks
  unskipped : ∀ t ∈ tasks, s.reported t ≠ .skipped
  halts : ∃ pre f post, s.HaltsCleanly graph tasks pre f post

theorem same_symm {node node' : TaskNode} (h : node.Same node') : node'.Same node := by
  unfold TaskNode.Same at *
  rw [h]

theorem ResumedGraph.same (graph : ResumedGraph) (h : Grown node tasks s) (ht : t ∈ tasks) :
    (s.node t).Same (graph.nodes node s t) := by
  cases graph with
  | rebuilt => exact same_symm (h.same t ht)
  | registered => exact same_refl _

theorem status_of_abandoned (h : s.reported t = .abandoned) : (s.node t).status = .running := by
  unfold Run.reported at h
  split_ifs at h with _ _ _ _ _ hrunning
  exact hrunning

theorem status_of_failed (h : s.reported t = .failed) : (s.node t).status = .failed := by
  unfold Run.reported at h
  split_ifs at h with _ hfailed
  exact (Run.mem_failedIds.mp hfailed).2

theorem reported_failed (ht : t ∈ s.tasks) (hresult : s.results t = none) (hstatus : (s.node t).status = .failed) :
    s.reported t = .failed := by
  unfold Run.reported
  rw [if_neg (not_not.mpr hresult), if_pos (Run.mem_failedIds.mpr ⟨ht, hstatus⟩)]

theorem restoredStatus_ne_running (status : TaskStatus) : restoredStatus status ≠ .running := by
  cases status <;> exact nofun

theorem restoredStatus_failed (status : TaskStatus) : restoredStatus status = .failed ↔ status = .failed := by
  cases status <;> simp [restoredStatus]

theorem exists_first (h : ∃ t ∈ tasks, s.Unallowed t) :
    ∃ pre f post, tasks = pre ++ f :: post ∧ s.Unallowed f ∧ ∀ t ∈ pre, ¬ s.Unallowed t := by
  obtain ⟨t, ht, hlost⟩ := h
  have hsome : (tasks.find? fun t => decide (s.Unallowed t)).isSome :=
    List.find?_isSome.mpr ⟨t, ht, decide_eq_true hlost⟩
  obtain ⟨f, hf⟩ := Option.isSome_iff_exists.mp hsome
  obtain ⟨hlost, pre, post, hsplit, hpre⟩ := List.find?_eq_some_iff_append.mp hf
  refine ⟨pre, f, post, hsplit, of_decide_eq_true hlost, fun t ht hu => ?_⟩
  have hno := hpre t ht
  rw [decide_eq_true hu] at hno
  cases hno

theorem haltedAt_eq (hlisted : ∀ t ∈ tasks, t ∈ s.tasks)
    (hallow : ∀ t ∈ tasks, (node t).allowFailure = (s.node t).allowFailure) {pre post : List TaskId} {f : TaskId}
    (hsplit : tasks = pre ++ f :: post) (hlost : s.Unallowed f) (hpre : ∀ t ∈ pre, ¬ s.Unallowed t) :
    haltedAt node tasks s.saved = some f := by
  have htest : ∀ t ∈ tasks, ((s.saved t).any (fun task => task.state = .failed) && !(node t).allowFailure) =
      decide (s.Unallowed t) := by
    intro t ht
    have hsaved : s.saved t = some ⟨(s.node t).status, (s.node t).attempts, s.results t⟩ := if_pos (hlisted t ht)
    rw [hsaved, hallow t ht, Option.any_some]
    refine Bool.eq_iff_iff.mpr (Iff.trans ?_ decide_eq_true_iff.symm)
    simp [Unallowed]
  unfold haltedAt
  apply List.find?_eq_some_iff_append.mpr
  refine ⟨?_, pre, post, hsplit, fun t ht => ?_⟩
  · rw [htest f (hsplit ▸ List.mem_append_right _ List.mem_cons_self)]
    exact decide_eq_true hlost
  · rw [htest t (hsplit ▸ List.mem_append_left _ ht), decide_eq_false (hpre t ht)]
    rfl

theorem failedNames_eq (hindex : ∀ t ∈ s.tasks, (s.node t).eachIndex = none) {pre post : List TaskId} {f : TaskId}
    (hsplit : s.tasks = pre ++ f :: post) (hlost : s.Unallowed f) (hpre : ∀ t ∈ pre, ¬ s.Unallowed t) :
    s.failedNames = f :: post.filter fun t => s.Unallowed t := by
  have htest : s.failedNames = s.tasks.filter fun t => s.Unallowed t := by
    unfold Run.failedNames
    apply List.filter_congr
    intro t ht
    exact decide_eq_decide.mpr ⟨fun h => h.2, fun h => ⟨hindex t ht, h⟩⟩
  have hnil : pre.filter (fun t => s.Unallowed t) = [] := List.filter_eq_nil_iff.mpr fun t ht hu =>
    hpre t ht (of_decide_eq_true hu)
  rw [htest, hsplit, List.filter_append, hnil, List.nil_append]
  exact List.filter_cons_of_pos (decide_eq_true hlost)

theorem Grown.unexpanded_iff (h : Grown node tasks s) (hunrun : Unrun node tasks) :
    s.expanded = [] ↔ ∀ t ∈ s.tasks, t ∈ tasks := by
  constructor
  · intro hnil t ht
    rw [h.listed, hnil, List.flatMap_nil, List.append_nil] at ht
    exact ht
  · intro hall
    apply List.eq_nil_iff_forall_not_mem.mpr
    intro p hp
    obtain ⟨source, items, hexpansion⟩ := h.expansion p hp
    have hpos : 0 < items.length := List.length_pos_iff.mpr hexpansion.nonempty
    have hmem : (⟨p.1.task, some 0⟩ : TaskId) ∈ p.2 := by
      rw [hexpansion.instances]
      exact mem_instanceIds.mpr ⟨rfl, 0, hpos, rfl⟩
    have hlisted := ((h.sound.parents p hp).2.2.2.2 _ hmem).listed
    exact absurd (hunrun.2 _ (hall _ hlisted)).2 nofun

section resumed

variable {graph : ResumedGraph} {pre post : List TaskId} {f : TaskId}

/-- What is restored up to the failed task is all that there is, if nothing after it has come to anything. -/
theorem HaltsCleanly.mirrors (h : s.HaltsCleanly graph tasks pre f post) (hg : Grown node tasks s) (hunrun : Unrun node tasks)
    (htasks : s.tasks = tasks) (hx : RestoredUpTo s (graph.nodes node s) tasks (pre ++ [f]) s') : Mirrors s s' := by
  have hafter : ∀ t ∈ s.tasks, t ∉ pre ++ [f] → t ∈ post ∧ t ∉ pre := by
    intro t ht hout
    obtain ⟨hpre, hf⟩ := not_or.mp (mt mem_append_singleton.mpr hout)
    rw [htasks, h.split] at ht
    rcases List.mem_append.mp ht with ht | ht
    · exact absurd ht hpre
    · exact ⟨(List.mem_cons.mp ht).resolve_left hf, hpre⟩
  refine ⟨hx.tasks.trans htasks.symm, fun t ht => ?_, ?_, fun t ht => ?_, hx.skipped⟩
  · exact same_trans (graph.same hg (htasks ▸ ht)) (hx.same t)
  · funext t
    rw [hx.results t]
    split
    · rfl
    · next hout =>
        by_cases ht : t ∈ s.tasks
        · obtain ⟨hpost, hpre⟩ := hafter t ht hout
          exact (h.after t hpost hpre).1.symm
        · have hnone : (s.view t).result = none := (hg.sound.unlisted ht).2.2.1
          exact hnone.symm
  · rw [hx.status t]
    split
    · exact restoredStatus_failed _
    · next hout =>
        obtain ⟨hpost, hpre⟩ := hafter t ht hout
        have hkept := (h.after t hpost hpre).2
        cases graph with
        | registered => exact Iff.rfl
        | rebuilt =>
            have hpending : ((ResumedGraph.rebuilt.nodes node s) t).status = .pending := (hunrun.1 t).1
            rw [hpending]
            exact ⟨nofun, fun hf => absurd hf (hkept rfl).1⟩

theorem Repeatable.alike (hr : s.Repeatable graph tasks) (hg : Grown node tasks s) (hunrun : Unrun node tasks) (workers flow : Bool)
    (stored : Option (List TaskId)) (order : TaskId → Nat) (labels : List String) (parked : List TaskId) :
    ResumesAlike s (resumed (graph.nodes node s) tasks workers flow s.saved stored order labels parked)
      (haltedAt (graph.nodes node s) tasks s.saved).toList := by
  obtain ⟨htasks, hunskipped, pre, f, post, h⟩ := hr
  have hlisted : ∀ t ∈ tasks, t ∈ s.tasks := fun t ht => htasks ▸ ht
  have hallow : ∀ t ∈ tasks, ((graph.nodes node s) t).allowFailure = (s.node t).allowFailure := by
    intro t ht
    rw [graph.same hg ht]
  have hpre : ∀ t ∈ pre, ¬ s.Unallowed t := fun t ht => h.alone t (List.mem_append_left _ ht)
  obtain ⟨hfailed, hx⟩ := resumed_halted hg.sound hlisted hallow h.split h.lost hpre workers flow stored order labels parked
  have hm := h.mirrors hg hunrun htasks hx
  have hpassed : ¬ s.Passed s.closure := by
    intro hp
    obtain ⟨t, ht, hskipped⟩ := hp.reported
    exact hunskipped t (htasks ▸ ht) hskipped
  have hf : f ∈ s.tasks := by
    rw [htasks, h.split]
    exact List.mem_append_right _ List.mem_cons_self
  have hsome : s.failedIds ≠ [] := List.ne_nil_of_mem (Run.mem_failedIds.mpr ⟨hf, h.lost.1⟩)
  have hunexpanded : s.expanded = [] := (hg.unexpanded_iff hunrun).mpr fun t ht => htasks ▸ ht
  refine ⟨hfailed, fun acts => ?_, fun t => ?_, fun t ht => ?_, fun t ht => ?_, ?_⟩
  · rw [starts_of_idle (fun thread => congrFun hx.frames thread) hx.running acts]
    exact hx.starts
  · rw [hm.tasks]
  · rcases hm.reported hpassed hsome ht with ⟨hsame, -⟩ | ⟨hold, hnew⟩
    · exact hsame
    · rw [hold, hnew, hx.status t]
      have hrunning : ∀ {u}, s.reported u ≠ .abandoned → s.reported u = (if (s.node u).status = .running then .abandoned
          else .cancelled) → (s.node u).status ≠ .running := by
        intro u hne heq hrunning
        rw [if_pos hrunning] at heq
        exact hne heq
      by_cases hmem : t ∈ pre ++ [f]
      · rw [if_pos hmem, if_neg (restoredStatus_ne_running _), if_neg]
        rcases mem_append_singleton.mp hmem with hpre | rfl
        · exact hrunning (h.before t hpre) hold
        · rw [h.lost.1]
          decide
      · rw [if_neg hmem]
        obtain ⟨hpre, hne⟩ := not_or.mp (mt mem_append_singleton.mpr hmem)
        have hpost : t ∈ post := by
          rw [htasks, h.split] at ht
          exact (List.mem_cons.mp ((List.mem_append.mp ht).resolve_left hpre)).resolve_left hne
        have hkept := (h.after t hpost hpre).2
        cases graph with
        | registered => rfl
        | rebuilt =>
            have hpending : ((ResumedGraph.rebuilt.nodes node s) t).status = .pending := (hunrun.1 t).1
            rw [hpending, if_neg (by decide), if_neg (hrunning (hkept rfl).2 hold)]
  · have hnone : ¬ (t ∈ s.skipped ∧ (s.node t).status = .skipped ∧ s.results t = none) := by
      rintro ⟨hskipped, hstatus, hresult⟩
      have hmem : t ∈ s.closure.skipped := (skipped_or_cut s).1 t hskipped
      refine hpassed ⟨t, htasks ▸ hx.tasks ▸ ht, hresult, ?_, hmem⟩
      rw [hstatus]
      decide
    unfold stepResult
    rw [hx.expanded, hunexpanded, hm.results, hx.skipped]
    simp only [List.find?_nil]
    cases hresult : s.results t with
    | some v => rfl
    | none =>
        have hskip : ¬ (t ∈ s.skipped ∧ (s.node t).status = .skipped) := fun hand => hnone ⟨hand.1, hand.2, hresult⟩
        have hnil : ¬ (t ∈ ([] : List TaskId) ∧
            ((resumed (graph.nodes node s) tasks workers flow s.saved stored order labels parked).node t).status = .skipped) :=
          fun hand => List.not_mem_nil hand.1
        simp only [if_neg hskip, if_neg hnil]
  · have hindex : ∀ t ∈ s.tasks, (s.node t).eachIndex = none := by
      intro t ht
      rw [hg.same t (htasks ▸ ht)]
      exact (hunrun.2 t (htasks ▸ ht)).1
    have hrest : post.filter (fun t => s.Unallowed t) = [] := List.filter_eq_nil_iff.mpr fun t ht hu =>
      h.alone t (List.mem_append_right _ ht) (of_decide_eq_true hu)
    rw [haltedAt_eq hlisted hallow h.split h.lost hpre, failedNames_eq hindex (htasks.trans h.split) h.lost hpre, hrest]
    rfl

theorem ResumesAlike.repeatable (hg : Grown node tasks s) (hunrun : Unrun node tasks) (workers flow : Bool)
    (stored : Option (List TaskId)) (order : TaskId → Nat) (labels : List String) (parked : List TaskId)
    (h : ResumesAlike s (resumed (graph.nodes node s) tasks workers flow s.saved stored order labels parked)
      (haltedAt (graph.nodes node s) tasks s.saved).toList) : s.Repeatable graph tasks := by
  have hlisted : ∀ t ∈ tasks, t ∈ s.tasks := by
    intro t ht
    rw [hg.listed]
    exact List.mem_append_left _ ht
  have hallow : ∀ t ∈ tasks, ((graph.nodes node s) t).allowFailure = (s.node t).allowFailure := by
    intro t ht
    rw [graph.same hg ht]
  have hlost : ∃ t ∈ tasks, s.Unallowed t := by
    by_contra hnone
    have hcalm := resumed_calm hg.sound hlisted hallow (fun t ht hu => hnone ⟨t, ht, hu⟩) workers flow stored order labels parked
    exact absurd (hcalm.symm.trans h.failed) (by decide)
  obtain ⟨pre, f, post, hsplit, hf, hpre⟩ := exists_first hlost
  obtain ⟨-, hx⟩ := resumed_halted hg.sound hlisted hallow hsplit hf hpre workers flow stored order labels parked
  have hunexpanded : s.expanded = [] := by
    apply (hg.unexpanded_iff hunrun).mpr
    intro t ht
    have hkey := (h.keys t).mpr ht
    rw [hx.tasks] at hkey
    exact hkey
  have htasks : s.tasks = tasks := by
    rw [hg.listed, hunexpanded, List.flatMap_nil, List.append_nil]
  have hindex : ∀ t ∈ s.tasks, (s.node t).eachIndex = none := by
    intro t ht
    rw [hg.same t (htasks ▸ ht)]
    exact (hunrun.2 t (htasks ▸ ht)).1
  have halone : ∀ t ∈ post, ¬ s.Unallowed t := by
    have hnames := h.names
    rw [haltedAt_eq hlisted hallow hsplit hf hpre, failedNames_eq hindex (htasks.trans hsplit) hf hpre] at hnames
    have hrest : post.filter (fun t => s.Unallowed t) = [] := (List.cons.inj hnames).2.symm
    exact fun t ht hu => List.filter_eq_nil_iff.mp hrest t ht (decide_eq_true hu)
  refine ⟨htasks, fun t ht => ?_, pre, f, post, hsplit, hf, fun t ht => ?_, fun t ht => ?_, fun t ht hout => ?_⟩
  · rw [← h.statuses t (hlisted t ht)]
    exact not_reported_skipped hx.skipped t
  · exact (List.mem_append.mp ht).elim (hpre t) (halone t)
  · have hmem : t ∈ tasks := hsplit ▸ List.mem_append_left _ ht
    rw [← h.statuses t (hlisted t hmem)]
    intro habandoned
    have hrunning := status_of_abandoned habandoned
    rw [hx.status t, if_pos (mem_append_singleton.mpr (.inl ht))] at hrunning
    exact restoredStatus_ne_running _ hrunning
  · have hmem : t ∈ tasks := hsplit ▸ List.mem_append_right _ (List.mem_cons_of_mem _ ht)
    have hafter : t ∉ pre ++ [f] := by
      intro hin
      rcases mem_append_singleton.mp hin with hin | rfl
      · exact hout hin
      · exact halone _ ht hf
    have hresult : s.results t = none := by
      have hsteps := h.steps t (by rw [hx.tasks]; exact hmem)
      have hrestored := hx.results t
      rw [if_neg hafter] at hrestored
      have hnil : ¬ (t ∈ ([] : List TaskId) ∧
          ((resumed (graph.nodes node s) tasks workers flow s.saved stored order labels parked).node t).status = .skipped) :=
        fun hand => List.not_mem_nil hand.1
      unfold stepResult at hsteps
      rw [hx.expanded, hunexpanded, hx.skipped] at hsteps
      simp only [List.find?_nil, hrestored, if_neg hnil] at hsteps
      by_contra hne
      obtain ⟨v, hv⟩ := Option.ne_none_iff_exists'.mp hne
      rw [hv] at hsteps
      cases hsteps
    refine ⟨hresult, ?_⟩
    rintro rfl
    have hstatus := hx.status t
    rw [if_neg hafter] at hstatus
    have hpending := hstatus.trans (hunrun.1 t).1
    have hsame := h.statuses t (hlisted t hmem)
    refine ⟨fun hfailed => ?_, fun habandoned => ?_⟩
    · rw [reported_failed (hlisted t hmem) hresult hfailed] at hsame
      exact absurd (hpending.symm.trans (status_of_failed hsame)) (by decide)
    · rw [habandoned] at hsame
      exact absurd (hpending.symm.trans (status_of_abandoned hsame)) (by decide)

end resumed

/-- Two steps that depend on nothing, of which the first raises and the second returns. -/
def brokenActs : List Act :=
  [.turn 0 false, .turn 0 false, .turn 0 false, .turn 0 false, .ends 0 0 .raised false, .ends 0 1 (.returned (.atom 7)) false,
    .turn 0 false, .turn 0 false]

def brokenRun : Run := (fresh (fun _ => {}) [⟨0, none⟩, ⟨1, none⟩] false true).run brokenActs

end Run

end Nodus.Orchestration
