import Mathlib.Data.List.Perm.Subperm
import Nodus.TaskReport

/-! The classification of the tasks that have not run, in whatever order the tasks and their dependencies are listed. -/

namespace Nodus.Orchestration

/-- The tasks that are classified so. -/
def Closure.members (closure : Closure) : Reported → List TaskId
  | .upstreamFailed => closure.blocked
  | .skipped => closure.skipped
  | .omitted => closure.omitted
  | .completed | .failed | .cancelled | .abandoned | .other _ => []

namespace Run

variable {s s' : Run} {t u dep : TaskId} {closure : Closure} {r : Reported}

/-! ### What a task is due to be reported -/

/-- What a dependency that has come to something, or has been skipped by its guard, says of a task that has not run. -/
def charge (s : Run) (t dep : TaskId) : Option Reported :=
  if dep ∈ s.failedIds ∧ .failed ∉ (s.node t).onStates then some .upstreamFailed
  else if dep ∈ s.skipped ∧ .skipped ∉ (s.node t).onStates then some .skipped
  else if (s.results dep).isSome ∧ .completed ∉ (s.node t).onStates then some .omitted
  else none

/-- A chain of tasks that have not run leads to a dependency that says so. -/
inductive Due (s : Run) : TaskId → Reported → Prop
  | charged {t dep : TaskId} {r : Reported} (ht : t ∈ s.tasks) (hleft : s.Left t) (hdep : dep ∈ (s.node t).dependencies)
      (h : s.charge t dep = some r) : s.Due t r
  | inherited {t dep : TaskId} {r : Reported} (ht : t ∈ s.tasks) (hleft : s.Left t)
      (hdep : dep ∈ (s.node t).dependencies) (h : s.Due dep r) (hon : r = .skipped → .skipped ∉ (s.node t).onStates) :
      s.Due t r

theorem Due.mem (h : s.Due t r) : t ∈ s.tasks := by
  cases h with
  | charged ht => exact ht
  | inherited ht => exact ht

theorem Due.left (h : s.Due t r) : s.Left t := by
  cases h with
  | charged _ hleft => exact hleft
  | inherited _ hleft => exact hleft

theorem Left.not_failed (h : s.Left t) : t ∉ s.failedIds := fun hf => h.2.1 (mem_failedIds.mp hf).2

theorem classify_members (s : Run) (closure : Closure) (t : TaskId) : s.classify closure t = closure ∧
      (s.Placed closure t ∨ ∀ dep ∈ (s.node t).dependencies, s.blame closure t dep = none) ∨
    ¬ s.Placed closure t ∧ ∃ dep ∈ (s.node t).dependencies, ∃ r, s.blame closure t dep = some r ∧
      ∀ q u, u ∈ (s.classify closure t).members q ↔ u ∈ closure.members q ∨ q = r ∧ u = t := by
  rcases classify_cases s closure t with hsame | ⟨hnot, dep, hdep, ⟨hblame, hnew⟩ | ⟨hblame, hnew⟩ | ⟨hblame, hnew⟩⟩
  · exact .inl hsame
  · refine .inr ⟨hnot, dep, hdep, _, hblame, fun q u => ?_⟩
    rw [hnew]
    cases q <;> simp [Closure.members, or_comm]
  · refine .inr ⟨hnot, dep, hdep, _, hblame, fun q u => ?_⟩
    rw [hnew]
    cases q <;> simp [Closure.members, or_comm]
  · refine .inr ⟨hnot, dep, hdep, _, hblame, fun q u => ?_⟩
    rw [hnew]
    cases q <;> simp [Closure.members, or_comm]

theorem placed_of_member (h : t ∈ closure.members r) : s.Placed closure t := by
  cases r with
  | upstreamFailed => exact .inr (.inr (.inl h))
  | omitted => exact .inr (.inr (.inr (.inl h)))
  | skipped => exact .inr (.inr (.inr (.inr h)))
  | _ => cases h

theorem member_of_placed (hleft : s.Left t) (h : s.Placed closure t) : ∃ r, t ∈ closure.members r := by
  rcases h with hresult | hfailed | hm | hm | hm
  · exact absurd hleft.1 hresult
  · exact absurd hfailed hleft.not_failed
  · exact ⟨.upstreamFailed, hm⟩
  · exact ⟨.omitted, hm⟩
  · exact ⟨.skipped, hm⟩

/-- Where a dependency puts a task, it says so by what it has come to, or it has itself been put there. -/
theorem blame_cases (hbase : ∀ t ∈ s.skipped, t ∈ closure.skipped) (h : s.blame closure t dep = some r) :
    s.charge t dep = some r ∨
      dep ∈ closure.members r ∧ (r = .skipped → dep ∉ s.skipped ∧ .skipped ∉ (s.node t).onStates) := by
  unfold blame at h
  unfold charge
  split_ifs at h with hblocked hskipped homitted
  · obtain rfl := Option.some_inj.mp h
    rcases hblocked with hm | hfailed
    · exact .inr ⟨hm, nofun⟩
    · exact .inl (if_pos hfailed)
  · obtain rfl := Option.some_inj.mp h
    rw [if_neg fun hfailed => hblocked (.inr hfailed)]
    by_cases hguard : dep ∈ s.skipped
    · exact .inl (if_pos ⟨hguard, hskipped.2⟩)
    · exact .inr ⟨hskipped.1, fun _ => ⟨hguard, hskipped.2⟩⟩
  · obtain rfl := Option.some_inj.mp h
    rcases homitted with hm | hresult
    · exact .inr ⟨hm, nofun⟩
    · left
      rw [if_neg fun hfailed => hblocked (.inr hfailed), if_neg fun hguard => hskipped ⟨hbase dep hguard.1, hguard.2⟩]
      exact if_pos hresult

theorem blame_of_charge (hbase : ∀ t ∈ s.skipped, t ∈ closure.skipped) (h : s.charge t dep = some r) :
    s.blame closure t dep ≠ none := by
  unfold charge at h
  unfold blame
  split_ifs at h with hfailed hskipped hresult
  · rw [if_pos (.inr hfailed)]
    exact Option.some_ne_none _
  · by_cases hblocked : dep ∈ closure.blocked ∨ dep ∈ s.failedIds ∧ .failed ∉ (s.node t).onStates
    · rw [if_pos hblocked]
      exact Option.some_ne_none _
    · rw [if_neg hblocked, if_pos ⟨hbase dep hskipped.1, hskipped.2⟩]
      exact Option.some_ne_none _
  · split_ifs with hblocked hother hlast
    · exact Option.some_ne_none _
    · exact Option.some_ne_none _
    · exact Option.some_ne_none _
    · exact absurd (.inr hresult) hlast

theorem blame_of_member (h : dep ∈ closure.members r) (hon : r = .skipped → .skipped ∉ (s.node t).onStates) :
    s.blame closure t dep ≠ none := by
  unfold blame
  split_ifs with hblocked hskipped homitted
  · exact Option.some_ne_none _
  · exact Option.some_ne_none _
  · exact Option.some_ne_none _
  · exfalso
    cases r with
    | upstreamFailed => exact hblocked (.inl h)
    | skipped => exact hskipped ⟨h, hon rfl⟩
    | omitted => exact homitted (.inl h)
    | _ => cases h

/-! ### The passes -/

/-- Every task is in one class at most, and is due to be there. -/
structure Classified (s : Run) (closure : Closure) : Prop where
  base : ∀ t ∈ s.skipped, t ∈ closure.skipped
  due : ∀ r t, t ∈ closure.members r → t ∈ s.skipped ∧ r = .skipped ∨ s.Due t r
  once : ∀ r q t, t ∈ closure.members r → t ∈ closure.members q → r = q

theorem classified_base (s : Run) : s.Classified { skipped := s.skipped } := by
  have hskipped : ∀ r t, t ∈ ({ skipped := s.skipped } : Closure).members r → t ∈ s.skipped ∧ r = .skipped := by
    intro r t ht
    cases r with
    | skipped => exact ⟨ht, rfl⟩
    | _ => exact absurd ht List.not_mem_nil
  exact ⟨fun _ ht => ht, fun r t ht => .inl (hskipped r t ht),
    fun r q t hr hq => (hskipped r t hr).2.trans (hskipped q t hq).2.symm⟩

theorem Classified.classify (h : s.Classified closure) (ht : t ∈ s.tasks) : s.Classified (s.classify closure t) := by
  rcases classify_members s closure t with ⟨hsame, -⟩ | ⟨hnot, dep, hdep, r, hblame, hmembers⟩
  · rw [hsame]
    exact h
  · have hdue : s.Due t r := by
      have hleft := left_of_not_placed ht hnot h.base
      rcases blame_cases h.base hblame with hcharge | ⟨hm, hon⟩
      · exact .charged ht hleft hdep hcharge
      · rcases h.due r dep hm with ⟨hguard, hr⟩ | hdue
        · exact absurd hguard (hon hr).1
        · exact .inherited ht hleft hdep hdue fun hr => (hon hr).2
    have hfresh : ∀ q, t ∉ closure.members q := fun q hq => hnot (placed_of_member hq)
    constructor
    · intro u hu
      exact (hmembers .skipped u).mpr (.inl (h.base u hu))
    · intro q u hu
      rcases (hmembers q u).mp hu with hold | ⟨rfl, rfl⟩
      · exact h.due q u hold
      · exact .inr hdue
    · intro q q' u hu hu'
      rcases (hmembers q u).mp hu with hold | ⟨rfl, rfl⟩
      · rcases (hmembers q' u).mp hu' with hold' | ⟨rfl, rfl⟩
        · exact h.once q q' u hold hold'
        · exact absurd hold (hfresh q)
      · rcases (hmembers q' u).mp hu' with hold' | ⟨rfl, -⟩
        · exact absurd hold' (hfresh q')
        · rfl

theorem classified_closure (s : Run) : s.Classified s.closure := by
  rw [closure_eq]
  exact Passes.passes_keep (fun _ _ ht h => h.classify ht) (classified_base s) _

/-- No task is due to be reported in two ways. -/
def Unmixed (s : Run) : Prop := ∀ t r q, s.Due t r → s.Due t q → r = q

theorem Classified.due_of_left (h : s.Classified closure) (hleft : s.Left t) (ht : t ∈ closure.members r) : s.Due t r := by
  rcases h.due r t ht with ⟨hguard, -⟩ | hdue
  · exact absurd hguard hleft.2.2
  · exact hdue

theorem member_of_due (hunmixed : s.Unmixed) (h : s.Due t r) : t ∈ s.closure.members r := by
  have hclassified := classified_closure s
  -- A task that some dependency puts somewhere is in some class, and it is due to be there.
  have hplaced : ∀ {t dep r}, s.Due t r → dep ∈ (s.node t).dependencies → s.blame s.closure t dep ≠ none →
      t ∈ s.closure.members r := by
    intro t dep r hdue hdep hblame
    rcases closure_fixed s hdue.mem with hplaced | hnone
    · obtain ⟨q, hq⟩ := member_of_placed hdue.left hplaced
      rw [hunmixed t r q hdue (hclassified.due_of_left hdue.left hq)]
      exact hq
    · exact absurd (hnone dep hdep) hblame
  induction h with
  | charged ht hleft hdep hcharge =>
      exact hplaced (.charged ht hleft hdep hcharge) hdep (blame_of_charge hclassified.base hcharge)
  | inherited ht hleft hdep hdue hon ih =>
      exact hplaced (.inherited ht hleft hdep hdue hon) hdep (blame_of_member ih hon)

theorem reported_of_member (hleft : s.Left t) (h : t ∈ s.closure.members r) : s.reported t = r := by
  have honce := (classified_closure s).once
  unfold reported
  rw [if_neg (not_not.mpr hleft.1), if_neg hleft.not_failed]
  cases r with
  | upstreamFailed => exact if_pos h
  | skipped =>
      have hblocked : t ∉ s.closure.blocked := fun hb => absurd (honce .skipped .upstreamFailed t h hb) (by decide)
      rw [if_neg hblocked]
      exact if_pos h
  | omitted =>
      have hblocked : t ∉ s.closure.blocked := fun hb => absurd (honce .omitted .upstreamFailed t h hb) (by decide)
      have hskipped : t ∉ s.closure.skipped := fun hs => absurd (honce .omitted .skipped t h hs) (by decide)
      rw [if_neg hblocked, if_neg hskipped]
      exact if_pos h
  | _ => cases h

theorem reported_of_not_member (hleft : s.Left t) (h : ∀ r, t ∉ s.closure.members r) : s.reported t =
    if (s.node t).status = .running then .abandoned else if s.failedIds ≠ [] then .cancelled else .other (s.node t).status := by
  have hblocked : t ∉ s.closure.blocked := h .upstreamFailed
  have hskipped : t ∉ s.closure.skipped := h .skipped
  have homitted : t ∉ s.closure.omitted := h .omitted
  unfold reported
  rw [if_neg (not_not.mpr hleft.1), if_neg hleft.not_failed, if_neg hblocked, if_neg hskipped, if_neg homitted]

/-! ### Other orders -/

/-- The same run, with its tasks and the dependencies of each of them listed in another order. -/
structure Reordered (s s' : Run) : Prop where
  tasks : s'.tasks.Perm s.tasks
  dependencies : ∀ t, (s'.node t).dependencies.Perm (s.node t).dependencies
  node : ∀ t, s'.node t = { s.node t with dependencies := (s'.node t).dependencies }
  results : s'.results = s.results
  skipped : s'.skipped = s.skipped

theorem Reordered.onStates (h : Reordered s s') (t : TaskId) : (s'.node t).onStates = (s.node t).onStates := by
  rw [h.node t]

theorem Reordered.status (h : Reordered s s') (t : TaskId) : (s'.node t).status = (s.node t).status := by
  rw [h.node t]

theorem Reordered.mem_failedIds (h : Reordered s s') : t ∈ s'.failedIds ↔ t ∈ s.failedIds := by
  rw [Run.mem_failedIds, Run.mem_failedIds, h.tasks.mem_iff, h.status]

theorem Reordered.left (h : Reordered s s') : s'.Left t ↔ s.Left t := by
  unfold Left
  rw [h.results, h.skipped, h.status]

theorem Reordered.charge (h : Reordered s s') (t dep : TaskId) : s'.charge t dep = s.charge t dep := by
  unfold Run.charge
  simp only [h.mem_failedIds, h.onStates, h.skipped, h.results]

theorem Reordered.symm (h : Reordered s s') : Reordered s' s where
  tasks := h.tasks.symm
  dependencies t := (h.dependencies t).symm
  node t := by
    rw [h.node t]
  results := h.results.symm
  skipped := h.skipped.symm

theorem Reordered.due (h : Reordered s s') (hdue : s.Due t r) : s'.Due t r := by
  induction hdue with
  | charged ht hleft hdep hcharge =>
      refine .charged (h.tasks.mem_iff.mpr ht) (h.left.mpr hleft) ((h.dependencies _).mem_iff.mpr hdep) ?_
      rw [h.charge]
      exact hcharge
  | inherited ht hleft hdep _ hon ih =>
      refine .inherited (h.tasks.mem_iff.mpr ht) (h.left.mpr hleft) ((h.dependencies _).mem_iff.mpr hdep) ih fun hr => ?_
      rw [h.onStates]
      exact hon hr

theorem Reordered.due_iff (h : Reordered s s') : s'.Due t r ↔ s.Due t r := ⟨h.symm.due, h.due⟩

/-- What is reported does not depend on the order of the tasks and of their dependencies. -/
def OrderFree (s : Run) : Prop := ∀ s', Reordered s s' → ∀ t ∈ s.tasks, s'.reported t = s.reported t

/-- A task that has not run and has a dependency that has failed, and it does not accept this, or one that is reported as
`upstream_failed`, is reported so. -/
def FailureDominates (s : Run) : Prop :=
  ∀ t ∈ s.tasks, s.results t = none → (s.node t).status ≠ .failed →
    (∃ dep ∈ (s.node t).dependencies, dep ∈ s.failedIds ∧ .failed ∉ (s.node t).onStates ∨ s.reported dep = .upstreamFailed) →
      s.reported t = .upstreamFailed

/-- What is reported of the tasks that have come to something, or have been skipped by their guards. -/
theorem reported_of_not_left (ht : t ∈ s.tasks) (h : ¬ s.Left t) : s.reported t =
    if s.results t ≠ none then .completed else if (s.node t).status = .failed then .failed else .skipped := by
  have hclassified := classified_closure s
  have hfailed : t ∈ s.failedIds ↔ (s.node t).status = .failed := by
    rw [mem_failedIds, and_iff_right ht]
  unfold reported
  simp only [hfailed]
  by_cases hresult : s.results t ≠ none
  · rw [if_pos hresult, if_pos hresult]
  by_cases hstatus : (s.node t).status = .failed
  · rw [if_neg hresult, if_neg hresult, if_pos hstatus, if_pos hstatus]
  have hskipped : t ∈ s.skipped := by
    by_contra hguard
    exact h ⟨not_not.mp hresult, hstatus, hguard⟩
  have hmember : t ∈ s.closure.members .skipped := hclassified.base t hskipped
  have hblocked : t ∉ s.closure.blocked :=
    fun hb => absurd (hclassified.once .skipped .upstreamFailed t hmember hb) (by decide)
  rw [if_neg hresult, if_neg hresult, if_neg hstatus, if_neg hstatus, if_neg hblocked]
  exact if_pos hmember

theorem Reordered.unmixed (h : Reordered s s') (hunmixed : s.Unmixed) : s'.Unmixed := by
  intro t r q hr hq
  exact hunmixed t r q (h.due_iff.mp hr) (h.due_iff.mp hq)

theorem not_member_of_not_due (hleft : s.Left t) (h : ∀ r, ¬ s.Due t r) (r : Reported) : t ∉ s.closure.members r :=
  fun hm => h r ((classified_closure s).due_of_left hleft hm)

theorem Reordered.failedIds_ne_nil (h : Reordered s s') : s'.failedIds ≠ [] ↔ s.failedIds ≠ [] := by
  rw [Ne, Ne, List.eq_nil_iff_forall_not_mem, List.eq_nil_iff_forall_not_mem]
  exact not_congr (forall_congr' fun _ => not_congr h.mem_failedIds)

theorem Unmixed.orderFree (h : s.Unmixed) : s.OrderFree := by
  intro s' hs t ht
  by_cases hleft : s.Left t
  · by_cases hdue : ∃ r, s.Due t r
    · obtain ⟨r, hr⟩ := hdue
      calc s'.reported t = r := reported_of_member (hs.left.mpr hleft) (member_of_due (hs.unmixed h) (hs.due hr))
        _ = s.reported t := (reported_of_member hleft (member_of_due h hr)).symm
    · have hnone : ∀ r, ¬ s.Due t r := fun r hr => hdue ⟨r, hr⟩
      have hnone' : ∀ r, ¬ s'.Due t r := fun r hr => hnone r (hs.due_iff.mp hr)
      rw [reported_of_not_member (hs.left.mpr hleft) (not_member_of_not_due (hs.left.mpr hleft) hnone'),
        reported_of_not_member hleft (not_member_of_not_due hleft hnone)]
      simp only [hs.status, hs.failedIds_ne_nil]
  · rw [reported_of_not_left (hs.tasks.mem_iff.mpr ht) fun hleft' => hleft (hs.left.mp hleft'), reported_of_not_left ht hleft]
    simp only [hs.status, hs.results]

/-- No task that a guard has skipped depends on one that has failed, unless it accepts this, or is due to be reported so. -/
def GuardsAsked (s : Run) : Prop :=
  ∀ t ∈ s.tasks, s.results t = none → (s.node t).status ≠ .failed → t ∈ s.skipped → ∀ dep ∈ (s.node t).dependencies,
    ¬ (dep ∈ s.failedIds ∧ .failed ∉ (s.node t).onStates) ∧ ¬ s.Due dep .upstreamFailed

theorem due_of_reported (h : s.reported t = .upstreamFailed) : s.Due t .upstreamFailed := by
  unfold reported at h
  split_ifs at h with hresult hfailed hblocked
  rcases (classified_closure s).due .upstreamFailed t hblocked with ⟨-, hskipped⟩ | hdue
  · cases hskipped
  · exact hdue

theorem Unmixed.failureDominates (h : s.Unmixed) (hguards : s.GuardsAsked) : s.FailureDominates := by
  intro t ht hresult hstatus ⟨dep, hdep, hbad⟩
  by_cases hguard : t ∈ s.skipped
  · obtain ⟨hfailed, hdue⟩ := hguards t ht hresult hstatus hguard dep hdep
    rcases hbad with hbad | hbad
    · exact absurd hbad hfailed
    · exact absurd (due_of_reported hbad) hdue
  · have hleft : s.Left t := ⟨hresult, hstatus, hguard⟩
    have hdue : s.Due t .upstreamFailed := by
      rcases hbad with hbad | hbad
      · exact .charged ht hleft hdep (if_pos hbad)
      · exact .inherited ht hleft hdep (due_of_reported hbad) nofun
    exact reported_of_member hleft (member_of_due h hdue)

/-! ### Orders in which a task is reported as it is due to be -/

/-- The tasks of the list, in its order, each have a dependency that puts them where they are due to be. -/
structure Leads (s : Run) (r : Reported) (chain : List TaskId) : Prop where
  nodup : chain.Nodup
  tasks : ∀ u ∈ chain, u ∈ s.tasks ∧ s.Left u
  via : ∀ before u after, chain = before ++ u :: after → ∃ dep ∈ (s.node u).dependencies,
    s.charge u dep = some r ∨ dep ∈ before ∧ (r = .skipped → .skipped ∉ (s.node u).onStates)

theorem Leads.concat {chain : List TaskId} (h : s.Leads r chain) (hnew : t ∉ chain) (ht : t ∈ s.tasks) (hleft : s.Left t)
    (hdep : dep ∈ (s.node t).dependencies)
    (hvia : s.charge t dep = some r ∨ dep ∈ chain ∧ (r = .skipped → .skipped ∉ (s.node t).onStates)) :
    s.Leads r (chain ++ [t]) := by
  constructor
  · rw [← List.concat_eq_append]
    exact List.Nodup.concat hnew h.nodup
  · intro u hu
    rcases List.mem_append.mp hu with hu | hu
    · exact h.tasks u hu
    · obtain rfl := List.mem_singleton.mp hu
      exact ⟨ht, hleft⟩
  · intro before u after heq
    rcases List.eq_nil_or_concat after with rfl | ⟨rest, last, rfl⟩
    · obtain ⟨rfl, hu⟩ := List.append_inj' heq rfl
      obtain rfl := (List.cons.inj hu).1
      exact ⟨dep, hdep, hvia⟩
    · apply h.via before u rest
      have hlast : chain ++ [t] = (before ++ u :: rest) ++ [last] := by
        rw [heq, List.concat_eq_append, List.append_assoc, List.cons_append]
      exact (List.append_inj' hlast rfl).1

theorem exists_leads_of_due (h : s.Due t r) : ∃ chain, s.Leads r chain ∧ t ∈ chain := by
  induction h with
  | @charged t dep r ht hleft hdep hcharge =>
      have hnil : s.Leads r [] := ⟨List.nodup_nil, by simp, by simp⟩
      exact ⟨[] ++ [t], hnil.concat List.not_mem_nil ht hleft hdep (.inl hcharge), List.mem_singleton_self t⟩
  | @inherited t dep r ht hleft hdep hdue hon ih =>
      obtain ⟨chain, hchain, hmem⟩ := ih
      by_cases hold : t ∈ chain
      · exact ⟨chain, hchain, hold⟩
      · exact ⟨chain ++ [t], hchain.concat hold ht hleft hdep (.inr ⟨hmem, hon⟩),
          List.mem_append_right chain (List.mem_singleton_self t)⟩

theorem blame_range (h : s.blame closure t dep = some r) : r = .upstreamFailed ∨ r = .skipped ∨ r = .omitted := by
  unfold blame at h
  split_ifs at h
  · exact .inl (Option.some_inj.mp h).symm
  · exact .inr (.inl (Option.some_inj.mp h).symm)
  · exact .inr (.inr (Option.some_inj.mp h).symm)

theorem Due.range (h : s.Due t r) : r = .upstreamFailed ∨ r = .skipped ∨ r = .omitted := by
  induction h with
  | charged _ _ _ hcharge =>
      unfold charge at hcharge
      split_ifs at hcharge
      · exact .inl (Option.some_inj.mp hcharge).symm
      · exact .inr (.inl (Option.some_inj.mp hcharge).symm)
      · exact .inr (.inr (Option.some_inj.mp hcharge).symm)
  | inherited _ _ _ _ _ ih => exact ih

theorem classify_first (hnot : ¬ s.Placed closure t) {rest : List TaskId} (hdeps : (s.node t).dependencies = dep :: rest)
    (hblame : s.blame closure t dep = some r) (q : Reported) (u : TaskId) :
    u ∈ (s.classify closure t).members q ↔ u ∈ closure.members q ∨ q = r ∧ u = t := by
  have hfind : (s.node t).dependencies.findSome? (s.blame closure t) = some r := by
    rw [hdeps, List.findSome?_cons, hblame]
  unfold classify
  rw [if_neg hnot, hfind]
  rcases blame_range hblame with rfl | rfl | rfl <;> cases q <;> simp [Closure.members, or_comm]

/-- So far the tasks of the list have been put where they are due to be, and nothing else has. -/
def Filled (s : Run) (r : Reported) (before : List TaskId) (closure : Closure) : Prop :=
  ∀ q u, u ∈ closure.members q ↔ q = .skipped ∧ u ∈ s.skipped ∨ q = r ∧ u ∈ before

theorem Filled.blame {before : List TaskId} (h : s.Filled r before closure) (hleft : ∀ u ∈ before, s.Left u)
    (hr : r = .upstreamFailed ∨ r = .skipped ∨ r = .omitted)
    (hvia : s.charge t dep = some r ∨ dep ∈ before ∧ (r = .skipped → .skipped ∉ (s.node t).onStates)) :
    s.blame closure t dep = some r := by
  have hblocked : dep ∈ closure.blocked ↔ r = .upstreamFailed ∧ dep ∈ before := by
    simpa [Closure.members, eq_comm] using h .upstreamFailed dep
  have hskipped : dep ∈ closure.skipped ↔ dep ∈ s.skipped ∨ r = .skipped ∧ dep ∈ before := by
    simpa [Closure.members, eq_comm] using h .skipped dep
  have homitted : dep ∈ closure.omitted ↔ r = .omitted ∧ dep ∈ before := by
    simpa [Closure.members, eq_comm] using h .omitted dep
  have hnot : dep ∈ before → dep ∉ s.failedIds ∧ dep ∉ s.skipped := fun hm => ⟨(hleft dep hm).not_failed, (hleft dep hm).2.2⟩
  unfold Run.blame
  rcases hvia with hcharge | ⟨hm, hon⟩
  · unfold charge at hcharge
    split_ifs at hcharge with hfailed hguard hresult
    · obtain rfl := Option.some_inj.mp hcharge
      exact if_pos (.inr hfailed)
    · obtain rfl := Option.some_inj.mp hcharge
      rw [if_neg fun hb => hb.elim (fun hb => absurd (hblocked.mp hb).1 (by decide)) hfailed]
      exact if_pos ⟨hskipped.mpr (.inl hguard.1), hguard.2⟩
    · obtain rfl := Option.some_inj.mp hcharge
      rw [if_neg fun hb => hb.elim (fun hb => absurd (hblocked.mp hb).1 (by decide)) hfailed,
        if_neg fun hs => (hskipped.mp hs.1).elim (fun hs' => hguard ⟨hs', hs.2⟩) fun hs' => absurd hs'.1 (by decide)]
      exact if_pos (.inr hresult)
  · obtain ⟨hfailed, hguard⟩ := hnot hm
    rcases hr with rfl | rfl | rfl
    · exact if_pos (.inl (hblocked.mpr ⟨rfl, hm⟩))
    · rw [if_neg fun hb => hb.elim (fun hb => absurd (hblocked.mp hb).1 (by decide)) fun hf => hfailed hf.1]
      exact if_pos ⟨hskipped.mpr (.inr ⟨rfl, hm⟩), hon rfl⟩
    · rw [if_neg fun hb => hb.elim (fun hb => absurd (hblocked.mp hb).1 (by decide)) fun hf => hfailed hf.1,
        if_neg fun hs => (hskipped.mp hs.1).elim hguard fun hs' => absurd hs'.1 (by decide)]
      exact if_pos (.inl (homitted.mpr ⟨rfl, hm⟩))

theorem Filled.classify {before rest : List TaskId} (h : s.Filled r before closure) (hleft : ∀ u ∈ before, s.Left u)
    (hr : r = .upstreamFailed ∨ r = .skipped ∨ r = .omitted) (ht : s.Left t) (hnew : t ∉ before)
    (hdeps : (s.node t).dependencies = dep :: rest)
    (hvia : s.charge t dep = some r ∨ dep ∈ before ∧ (r = .skipped → .skipped ∉ (s.node t).onStates)) :
    s.Filled r (before ++ [t]) (s.classify closure t) := by
  have hnot : ¬ s.Placed closure t := by
    intro hplaced
    obtain ⟨q, hq⟩ := member_of_placed ht hplaced
    rcases (h q t).mp hq with ⟨-, hguard⟩ | ⟨-, hold⟩
    · exact ht.2.2 hguard
    · exact hnew hold
  intro q u
  rw [classify_first hnot hdeps (h.blame hleft hr hvia), h q u, List.mem_append, List.mem_singleton]
  tauto

theorem member_classify (h : t ∈ closure.members r) (u : TaskId) : t ∈ (s.classify closure u).members r := by
  rcases classify_members s closure u with ⟨hsame, -⟩ | ⟨-, dep, -, q, -, hmembers⟩
  · rw [hsame]
    exact h
  · exact (hmembers r t).mpr (.inl h)

theorem member_pass (h : t ∈ closure.members r) (tasks : List TaskId) : t ∈ (tasks.foldl s.classify closure).members r := by
  induction tasks generalizing closure with
  | nil => exact h
  | cons u tasks ih => exact ih (member_classify h u)

/-- The tasks of the list come first, and with each of them the dependency that puts it where it is due to be. -/
def lead (s : Run) (chain : List TaskId) (via : TaskId → TaskId) : Run :=
  { s with
    tasks := chain ++ s.tasks.diff chain
    node := fun u => if u ∈ chain then
        { s.node u with dependencies := via u :: (s.node u).dependencies.erase (via u) } else s.node u }

theorem lead_node (s : Run) (chain : List TaskId) (via : TaskId → TaskId) (u : TaskId) :
    (s.lead chain via).node u = if u ∈ chain then
      { s.node u with dependencies := via u :: (s.node u).dependencies.erase (via u) } else s.node u := rfl

theorem reordered_lead {chain : List TaskId} {via : TaskId → TaskId} (hchain : s.Leads r chain)
    (hvia : ∀ u ∈ chain, via u ∈ (s.node u).dependencies) : Reordered s (s.lead chain via) := by
  constructor
  · have hsub : chain.Subperm s.tasks := List.subperm_of_subset hchain.nodup fun u hu => (hchain.tasks u hu).1
    exact List.subperm_append_diff_self_of_count_le (List.subperm_ext_iff.mp hsub)
  · intro u
    rw [lead_node]
    split_ifs with hu
    · exact (List.perm_cons_erase (hvia u hu)).symm
    · exact List.Perm.refl _
  · intro u
    rw [lead_node]
    split_ifs with hu <;> rfl
  · rfl
  · rfl

theorem Leads.filled {chain : List TaskId} {via : TaskId → TaskId} (h : s.Leads r chain)
    (hr : r = .upstreamFailed ∨ r = .skipped ∨ r = .omitted) (hs : Reordered s (s.lead chain via))
    (hvia : ∀ before u after, chain = before ++ u :: after →
      s.charge u (via u) = some r ∨ via u ∈ before ∧ (r = .skipped → .skipped ∉ (s.node u).onStates))
    (before : List TaskId) (hbefore : before.IsPrefix chain) :
    (s.lead chain via).Filled r before (before.foldl (s.lead chain via).classify { skipped := s.skipped }) := by
  induction before using List.reverseRecOn with
  | nil =>
      intro q u
      cases q <;> simp [Closure.members, lead]
  | append_singleton before u ih =>
      obtain ⟨after, hafter⟩ := hbefore
      have hsplit : chain = before ++ u :: after := by
        rw [← hafter, List.append_assoc, List.singleton_append]
      have hnew : u ∉ before := by
        have hnodup := h.nodup
        rw [hsplit] at hnodup
        exact fun hu => (List.disjoint_of_nodup_append hnodup) hu List.mem_cons_self
      have hmem : u ∈ chain := hsplit ▸ List.mem_append_right before List.mem_cons_self
      have hleft : ∀ w ∈ before, (s.lead chain via).Left w := by
        intro w hw
        exact hs.left.mpr (h.tasks w (hsplit ▸ List.mem_append_left _ hw)).2
      have hdeps : ((s.lead chain via).node u).dependencies = via u :: (s.node u).dependencies.erase (via u) := by
        rw [lead_node, if_pos hmem]
      rw [List.foldl_append]
      apply (ih ⟨u :: after, hsplit.symm⟩).classify hleft hr (hs.left.mpr (h.tasks u hmem).2) hnew hdeps
      rw [hs.charge, hs.onStates]
      exact hvia before u after hsplit

theorem exists_reported_of_due (h : s.Due t r) : ∃ s', Reordered s s' ∧ s'.reported t = r := by
  obtain ⟨chain, hchain, hmem⟩ := exists_leads_of_due h
  have hexists : ∀ u, ∃ dep, u ∈ chain → dep ∈ (s.node u).dependencies ∧ ∀ before after, chain = before ++ u :: after →
      s.charge u dep = some r ∨ dep ∈ before ∧ (r = .skipped → .skipped ∉ (s.node u).onStates) := by
    intro u
    by_cases hu : u ∈ chain
    · obtain ⟨before, after, hsplit⟩ := List.append_of_mem hu
      obtain ⟨dep, hdep, hvia⟩ := hchain.via before u after hsplit
      refine ⟨dep, fun _ => ⟨hdep, fun before' after' hsplit' => ?_⟩⟩
      have hnodup := hchain.nodup
      rw [hsplit, List.nodup_append] at hnodup
      have hnot : u ∉ before := fun hu => hnodup.2.2 u hu u List.mem_cons_self rfl
      have hnot' : u ∉ after := (List.nodup_cons.mp hnodup.2.1).1
      have hboth : before ++ u :: after = before' ++ u :: after' := hsplit.symm.trans hsplit'
      rw [← ((List.append_cons_inj_of_notMem hnot hnot').mp hboth).1]
      exact hvia
    · exact ⟨u, fun hu' => absurd hu' hu⟩
  choose via hvia using hexists
  have hs := reordered_lead hchain fun u hu => (hvia u hu).1
  have hfilled : (s.lead chain via).Filled r chain (chain.foldl (s.lead chain via).classify { skipped := s.skipped }) := by
    apply hchain.filled h.range hs _ chain (List.prefix_refl chain)
    intro before u after hsplit
    exact (hvia u (hsplit ▸ List.mem_append_right before List.mem_cons_self)).2 before after hsplit
  have hfirst : t ∈ ((s.lead chain via).tasks.foldl (s.lead chain via).classify { skipped := s.skipped }).members r := by
    have htasks : (s.lead chain via).tasks = chain ++ s.tasks.diff chain := rfl
    rw [htasks, List.foldl_append]
    exact member_pass ((hfilled r t).mpr (.inr ⟨rfl, hmem⟩)) _
  have hclosure : t ∈ (s.lead chain via).closure.members r := by
    have hne : (s.lead chain via).tasks ≠ [] := List.ne_nil_of_mem (hs.tasks.mem_iff.mpr h.mem)
    obtain ⟨n, hn⟩ := Nat.exists_eq_succ_of_ne_zero (List.length_pos_iff.mpr hne).ne'
    rw [closure_eq, hn, Function.iterate_succ_apply]
    exact Passes.passes_keep (P := fun closure : Closure => t ∈ closure.members r) (fun _ u _ h => member_classify h u)
      hfirst n
  exact ⟨s.lead chain via, hs, reported_of_member (hs.left.mpr h.left) hclosure⟩

/-- What is reported depends on the order in which the tasks and their dependencies are listed, or fails to put a failure
first, where a task that has not run is due to be reported in two ways. -/
theorem statuses_lawful_iff (s : Run) : s.OrderFree ∧ s.FailureDominates ↔ s.Unmixed ∧ s.GuardsAsked := by
  constructor
  · rintro ⟨horder, hfailure⟩
    have hreported : ∀ t r, s.Due t r → s.reported t = r := by
      intro t r hdue
      obtain ⟨s', hs, hr⟩ := exists_reported_of_due hdue
      exact (horder s' hs t hdue.mem).symm.trans hr
    refine ⟨fun t r q hr hq => (hreported t r hr).symm.trans (hreported t q hq), ?_⟩
    intro t ht hresult hstatus hguard dep hdep
    have hskipped : s.reported t = .skipped := by
      rw [reported_of_not_left ht fun hleft => hleft.2.2 hguard, if_neg (not_not.mpr hresult), if_neg hstatus]
    have hnot : ¬ (dep ∈ s.failedIds ∧ .failed ∉ (s.node t).onStates ∨ s.reported dep = .upstreamFailed) := by
      intro hbad
      have hupstream := hfailure t ht hresult hstatus ⟨dep, hdep, hbad⟩
      exact absurd (hskipped.symm.trans hupstream) (by decide)
    exact ⟨fun hfailed => hnot (.inl hfailed), fun hdue => hnot (.inr (hreported dep _ hdue))⟩
  · rintro ⟨hunmixed, hguards⟩
    exact ⟨hunmixed.orderFree, hunmixed.failureDominates hguards⟩

/-- The guard of the first task is not met, and the second fails. The third depends on both. -/
def mixedNode (t : TaskId) : TaskNode :=
  if t.task = 0 then { guard := some (.reached "never") }
  else if t.task = 2 then { dependencies := [⟨0, none⟩, ⟨1, none⟩] } else {}

/-- The run is over once the body of the second task has raised. -/
def mixedRun : Run :=
  (fresh mixedNode [⟨0, none⟩, ⟨1, none⟩, ⟨2, none⟩] false true).run
    [.turn 0 false, .turn 0 false, .turn 0 false, .turn 0 false, .turn 0 false, .ends 0 0 .raised false,
      .turn 0 false, .turn 0 false, .turn 0 false]

/-- The third task is reported as skipped although one that it depends on has failed. -/
theorem mixedRun_not_lawful : mixedRun.running = [] ∧ mixedRun.frames 0 = [] ∧ ¬ (mixedRun.OrderFree ∧ mixedRun.FailureDominates) := by
  refine ⟨by decide, by decide, fun h => ?_⟩
  have hupstream : mixedRun.reported ⟨2, none⟩ = .upstreamFailed :=
    h.2 ⟨2, none⟩ (by decide) (by decide) (by decide) ⟨⟨1, none⟩, by decide, .inl (by decide)⟩
  have hskipped : mixedRun.reported ⟨2, none⟩ = .skipped := by decide
  exact absurd (hskipped.symm.trans hupstream) (by decide)

end Run

end Nodus.Orchestration
