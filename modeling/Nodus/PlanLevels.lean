import Mathlib.Algebra.BigOperators.Group.Finset.Basic
import Mathlib.Algebra.GroupWithZero.Nat
import Mathlib.Algebra.Order.BigOperators.Group.Finset
import Mathlib.Data.Finite.Prod
import Mathlib.Data.Fintype.Card
import Mathlib.Data.List.Nodup
import Mathlib.Logic.Relation
import Mathlib.Order.WellFounded

/-! The levels of a plan: rounds of the tasks whose dependencies are all in earlier rounds, found by counting edges. -/

namespace Nodus.PlanLevels

open Relation

variable {α : Type} [DecidableEq α]

/-- The order in which a set of task ids is iterated over. -/
structure SetOrder (α : Type) where
  list : Finset α → List α
  nodup : ∀ s, (list s).Nodup
  mem : ∀ s a, a ∈ list s ↔ a ∈ s

/-- A list of tasks, by their ids, which may name a task twice, with the dependencies of each. -/
structure Plan (α : Type) where
  tasks : List α
  dependencies : α → List α

namespace Plan

variable (p : Plan α)

/-- The edges into a task, one for each occurrence. -/
def indegree (taskId : α) : Nat :=
  (p.tasks.map fun task => if task = taskId then (p.dependencies task).length else 0).sum

/-- `indegree[nxt] -= 1`, and not below zero. -/
def decrement (indegree : α → Nat) (nxt : α) : α → Nat := Function.update indegree nxt (indegree nxt - 1)

/-- What the end of a task takes from the tasks that depend on it. -/
def release (indegree : α → Nat) (taskId : α) : α → Nat :=
  (p.tasks.filter (· = taskId)).foldl
    (fun indegree depTask => (p.tasks.filter (depTask ∈ p.dependencies ·)).foldl decrement indegree) indegree

/-- The tasks that remain with no edge into them. -/
def level (order : SetOrder α) (remaining : Finset α) (indegree : α → Nat) : List α :=
  (order.list remaining).filter (indegree · = 0)

omit [DecidableEq α] in
theorem mem_level {order : SetOrder α} {remaining : Finset α} {indegree : α → Nat} {task : α} :
    task ∈ level order remaining indegree ↔ task ∈ remaining ∧ indegree task = 0 := by
  simp [level, order.mem]

/-- The `while` loop. -/
def levelsFrom (order : SetOrder α) (remaining : Finset α) (indegree : α → Nat) : List (List α) :=
  let ready := level order remaining indegree
  if _h : ready = [] then []
  else ready :: levelsFrom order (remaining \ ready.toFinset) (ready.foldl p.release indegree)
termination_by remaining.card
decreasing_by
  obtain ⟨a, ha⟩ := List.exists_mem_of_ne_nil _ _h
  refine Finset.card_lt_card ⟨Finset.sdiff_subset, fun hsub => ?_⟩
  exact (Finset.mem_sdiff.mp (hsub (mem_level.mp ha).1)).2 (List.mem_toFinset.mpr ha)

/-- The `levels` of `plan_graph`. -/
def levels (order : SetOrder α) : List (List α) := p.levelsFrom order p.tasks.toFinset p.indegree

/-! ### What the counts say -/

/-- The occurrences in the list of the dependencies of a task that are among the given tasks. -/
def credit (done : Finset α) (task : α) : Nat := ∑ a ∈ (p.dependencies task).toFinset ∩ done, p.tasks.count a

/-- As many occurrences are done as the task has dependencies. -/
def Ready (done : Finset α) (task : α) : Prop := (p.dependencies task).length ≤ p.credit done task

variable {p}

theorem foldl_decrement (l : List α) (indegree : α → Nat) (task : α) :
    l.foldl decrement indegree task = indegree task - l.count task := by
  induction l generalizing indegree with
  | nil => simp
  | cons nxt rest ih =>
      rw [List.foldl_cons, ih]
      by_cases htask : task = nxt
      · subst htask
        simp only [decrement, Function.update_self, List.count_cons_self]
        omega
      · rw [decrement, Function.update_of_ne htask, List.count_cons_of_ne (Ne.symm htask)]

theorem foldl_release (l : List α) (nxts : List α) (indegree : α → Nat) (task : α) :
    l.foldl (fun indegree _ => nxts.foldl decrement indegree) indegree task = indegree task - l.length * nxts.count task := by
  induction l generalizing indegree with
  | nil => simp
  | cons head rest ih =>
      rw [List.foldl_cons, ih, foldl_decrement, List.length_cons, Nat.succ_mul]
      omega

theorem release_eq (indegree : α → Nat) (a task : α) : p.release indegree a task =
    indegree task - p.tasks.count task * if a ∈ p.dependencies task then p.tasks.count a else 0 := by
  have hconst : ∀ l : List α, (∀ x ∈ l, x = a) → ∀ indegree : α → Nat,
      l.foldl (fun indegree depTask => (p.tasks.filter (depTask ∈ p.dependencies ·)).foldl decrement indegree) indegree =
        l.foldl (fun indegree _ => (p.tasks.filter (a ∈ p.dependencies ·)).foldl decrement indegree) indegree := by
    intro l hl indegree
    apply List.foldl_ext
    intro indegree b hb
    rw [hl b hb]
  have hcount : (p.tasks.filter (· = a)).length = p.tasks.count a := by
    rw [← List.countP_eq_length_filter]
    rfl
  rw [release, hconst _ (by simp) indegree, foldl_release, hcount]
  by_cases hdep : a ∈ p.dependencies task
  · rw [if_pos hdep, List.count_filter (by simpa using hdep), Nat.mul_comm]
  · have hnot : task ∉ p.tasks.filter (a ∈ p.dependencies ·) := by simp [hdep]
    rw [if_neg hdep, List.count_eq_zero_of_not_mem hnot]
    omega

theorem indegree_eq (task : α) : p.indegree task = p.tasks.count task * (p.dependencies task).length := by
  unfold indegree
  induction p.tasks with
  | nil => simp
  | cons head rest ih =>
      rw [List.map_cons, List.sum_cons, ih]
      by_cases htask : head = task
      · subst htask
        rw [if_pos rfl, List.count_cons_self, Nat.succ_mul, Nat.add_comm]
      · rw [if_neg htask, List.count_cons_of_ne htask, Nat.zero_add]

theorem foldl_release_eq (done : List α) (hnodup : done.Nodup) (indegree : α → Nat) (task : α) :
    done.foldl p.release indegree task = indegree task - p.tasks.count task * p.credit done.toFinset task := by
  induction done generalizing indegree with
  | nil => simp [credit]
  | cons a rest ih =>
      obtain ⟨ha, hrest⟩ := List.nodup_cons.mp hnodup
      have hcredit : p.credit (a :: rest).toFinset task =
          (if a ∈ p.dependencies task then p.tasks.count a else 0) + p.credit rest.toFinset task := by
        unfold credit
        rw [List.toFinset_cons]
        by_cases hdep : a ∈ p.dependencies task
        · rw [if_pos hdep, Finset.inter_insert_of_mem (List.mem_toFinset.mpr hdep), Finset.sum_insert (fun h => ha (List.mem_toFinset.mp (Finset.mem_inter.mp h).2))]
        · rw [if_neg hdep, Finset.inter_insert_of_notMem (by simpa using hdep), Nat.zero_add]
      rw [List.foldl_cons, ih hrest, release_eq, hcredit, Nat.mul_add]
      omega

theorem credit_union {done level : Finset α} (hdisjoint : Disjoint done level) (task : α) :
    p.credit (done ∪ level) task = p.credit done task + p.credit level task := by
  unfold credit
  rw [Finset.inter_union_distrib_left, Finset.sum_union]
  exact Finset.disjoint_of_subset_left Finset.inter_subset_right
    (Finset.disjoint_of_subset_right Finset.inter_subset_right hdisjoint)

/-! ### Chains of dependencies -/

/-- There is a chain of so many dependencies below the task. -/
def HasChain (p : Plan α) : Nat → α → Prop
  | 0, _ => True
  | n + 1, task => ∃ d ∈ p.dependencies task, HasChain p n d

/-- The longest chain below the task has so many dependencies. -/
def Longest (p : Plan α) (n : Nat) (task : α) : Prop := p.HasChain n task ∧ ¬ p.HasChain (n + 1) task

def DependsOn (p : Plan α) (task d : α) : Prop := d ∈ p.dependencies task

/-- The task is on a cycle or depends on one. -/
def Behind (p : Plan α) (task : α) : Prop := ∃ u, ReflTransGen p.DependsOn task u ∧ TransGen p.DependsOn u u

/-- Every dependency is a task of the list. -/
def Closed (p : Plan α) : Prop := ∀ task ∈ p.tasks, ∀ d ∈ p.dependencies task, d ∈ p.tasks

omit [DecidableEq α] in
theorem HasChain.pred {n : Nat} {task : α} (h : p.HasChain (n + 1) task) : p.HasChain n task := by
  induction n generalizing task with
  | zero => trivial
  | succ n ih =>
      obtain ⟨d, hd, hchain⟩ := h
      exact ⟨d, hd, ih hchain⟩

omit [DecidableEq α] in
theorem HasChain.mono {n m : Nat} {task : α} (h : p.HasChain n task) (hle : m ≤ n) : p.HasChain m task := by
  induction hle with
  | refl => exact h
  | step _ ih => exact ih h.pred

omit [DecidableEq α] in
theorem Longest.lt_iff {n m : Nat} {task : α} (h : p.Longest n task) : n < m ↔ ¬ p.HasChain m task := by
  constructor
  · exact fun hlt hchain => h.2 (hchain.mono hlt)
  · intro hnot
    by_contra hle
    exact hnot (h.1.mono (Nat.le_of_not_lt hle))

omit [DecidableEq α] in
theorem exists_longest {n : Nat} {task : α} (h : ¬ p.HasChain n task) : ∃ m < n, p.Longest m task := by
  induction n with
  | zero => exact absurd trivial h
  | succ n ih =>
      by_cases hchain : p.HasChain n task
      · exact ⟨n, Nat.lt_succ_self n, hchain, h⟩
      · obtain ⟨m, hlt, hm⟩ := ih hchain
        exact ⟨m, Nat.lt_succ_of_lt hlt, hm⟩

omit [DecidableEq α] in
theorem Behind.step {task : α} (h : p.Behind task) : ∃ d ∈ p.dependencies task, p.Behind d := by
  obtain ⟨u, hreach, hcycle⟩ := h
  rcases ReflTransGen.cases_head hreach with rfl | ⟨d, hd, hrest⟩
  · obtain ⟨d, hd, hback⟩ := TransGen.head'_iff.mp hcycle
    exact ⟨d, hd, task, hback, hcycle⟩
  · exact ⟨d, hd, u, hrest, hcycle⟩

omit [DecidableEq α] in
theorem Behind.hasChain {task : α} (h : p.Behind task) (n : Nat) : p.HasChain n task := by
  induction n generalizing task with
  | zero => trivial
  | succ n ih =>
      obtain ⟨d, hd, hbehind⟩ := h.step
      exact ⟨d, hd, ih hbehind⟩

theorem exists_not_hasChain (hclosed : p.Closed) {task : α} (htask : task ∈ p.tasks) (h : ¬ p.Behind task) :
    ∃ n, ¬ p.HasChain n task := by
  let S := { a // a ∈ p.tasks.toFinset ∧ ¬ p.Behind a }
  let below : S → S → Prop := fun d a => TransGen p.DependsOn a.1 d.1
  have hfinite : Finite S := Finite.of_injective (fun a : S => (⟨a.1, a.2.1⟩ : p.tasks.toFinset)) fun a b hab => by
    apply Subtype.ext
    exact Subtype.mk.inj hab
  have htrans : IsTrans S below := ⟨fun a b c hab hbc => TransGen.trans hbc hab⟩
  have hirrefl : Std.Irrefl below := ⟨fun a hcycle => a.2.2 ⟨a.1, .refl, hcycle⟩⟩
  have hwf : WellFounded below := Finite.wellFounded_of_trans_of_irrefl below
  suffices hall : ∀ a : S, ∃ n, ¬ p.HasChain n a.1 from hall ⟨task, List.mem_toFinset.mpr htask, h⟩
  intro a
  induction a using hwf.induction with
  | _ a ih =>
      have hdeps : ∀ d ∈ p.dependencies a.1, ∃ n, ¬ p.HasChain n d := by
        intro d hd
        have hmem : d ∈ p.tasks := hclosed a.1 (List.mem_toFinset.mp a.2.1) d hd
        have hnot : ¬ p.Behind d := by
          rintro ⟨u, hreach, hcycle⟩
          exact a.2.2 ⟨u, .head hd hreach, hcycle⟩
        exact ih ⟨d, List.mem_toFinset.mpr hmem, hnot⟩ (.single hd)
      have hbound : ∀ l : List α, (∀ d ∈ l, ∃ n, ¬ p.HasChain n d) → ∃ n, ∀ d ∈ l, ¬ p.HasChain n d := by
        intro l
        induction l with
        | nil => exact fun _ => ⟨0, fun d hd => absurd hd List.not_mem_nil⟩
        | cons d rest ihl =>
            intro hl
            obtain ⟨n, hn⟩ := hl d List.mem_cons_self
            obtain ⟨m, hm⟩ := ihl fun e he => hl e (List.mem_cons_of_mem _ he)
            refine ⟨max n m, fun e he hchain => ?_⟩
            rcases List.mem_cons.mp he with rfl | he
            · exact hn (hchain.mono (Nat.le_max_left n m))
            · exact hm e he (hchain.mono (Nat.le_max_right n m))
      obtain ⟨n, hn⟩ := hbound _ hdeps
      exact ⟨n + 1, fun ⟨d, hd, hchain⟩ => hn d hd hchain⟩

/-! ### The rounds -/

/-- The rounds from the tasks that are done: each holds what is ready, and the last one leaves nothing ready. -/
inductive Rounds (p : Plan α) : Finset α → List (List α) → Prop where
  | stop {done : Finset α} : (∀ task ∈ p.tasks, task ∉ done → ¬ p.Ready done task) → Rounds p done []
  | round {done : Finset α} {level : List α} {rest : List (List α)} : level.Nodup →
      (∀ task, task ∈ level ↔ task ∈ p.tasks ∧ task ∉ done ∧ p.Ready done task) →
      Rounds p (done ∪ level.toFinset) rest → Rounds p done (level :: rest)

/-- The counts are those of the tasks that are done. -/
def Counts (p : Plan α) (done : Finset α) (indegree : α → Nat) : Prop :=
  ∀ task, indegree task = p.indegree task - p.tasks.count task * p.credit done task

theorem Counts.ready_iff {done : Finset α} {indegree : α → Nat} (h : p.Counts done indegree) {task : α} (htask : task ∈ p.tasks) :
    indegree task = 0 ↔ p.Ready done task := by
  have hpos : 0 < p.tasks.count task := List.count_pos_iff.mpr htask
  rw [h task, indegree_eq, ← Nat.mul_sub, Nat.mul_eq_zero, Ready, Nat.sub_eq_zero_iff_le]
  exact or_iff_right (Nat.ne_of_gt hpos)

theorem levelsFrom_rounds (order : SetOrder α) (done : Finset α) (indegree : α → Nat) (hcounts : p.Counts done indegree) :
    p.Rounds done (p.levelsFrom order (p.tasks.toFinset \ done) indegree) := by
  induction hcard : (p.tasks.toFinset \ done).card using Nat.strong_induction_on generalizing done indegree with
  | _ card ih =>
      subst hcard
      have hmem : ∀ task, task ∈ level order (p.tasks.toFinset \ done) indegree ↔
          task ∈ p.tasks ∧ task ∉ done ∧ p.Ready done task := by
        intro task
        rw [mem_level, Finset.mem_sdiff, List.mem_toFinset, and_assoc]
        refine and_congr_right fun htask => and_congr_right fun _ => hcounts.ready_iff htask
      rw [levelsFrom]
      by_cases hlevel : level order (p.tasks.toFinset \ done) indegree = []
      · rw [dif_pos hlevel]
        refine .stop fun task htask hdone hready => ?_
        have hin := (hmem task).mpr ⟨htask, hdone, hready⟩
        rw [hlevel] at hin
        exact List.not_mem_nil hin
      · rw [dif_neg hlevel]
        have hnodup : (level order (p.tasks.toFinset \ done) indegree).Nodup := (order.nodup _).filter _
        refine .round hnodup hmem ?_
        have hrest : (p.tasks.toFinset \ done) \ (level order (p.tasks.toFinset \ done) indegree).toFinset =
            p.tasks.toFinset \ (done ∪ (level order (p.tasks.toFinset \ done) indegree).toFinset) := by
          rw [sdiff_sdiff_left, Finset.sup_eq_union]
        simp only [hrest]
        refine ih _ ?_ _ _ ?_ rfl
        · obtain ⟨a, ha⟩ := List.exists_mem_of_ne_nil _ hlevel
          obtain ⟨htask, hdone, -⟩ := (hmem a).mp ha
          refine Finset.card_lt_card ⟨Finset.sdiff_subset_sdiff subset_rfl Finset.subset_union_left, fun hsub => ?_⟩
          have hin := hsub (Finset.mem_sdiff.mpr ⟨List.mem_toFinset.mpr htask, hdone⟩)
          exact (Finset.mem_sdiff.mp hin).2 (Finset.mem_union_right _ (List.mem_toFinset.mpr ha))
        · intro task
          rw [foldl_release_eq _ hnodup, hcounts task, credit_union, Nat.mul_add]
          · omega
          · rw [Finset.disjoint_right]
            exact fun a ha => ((hmem a).mp (List.mem_toFinset.mp ha)).2.1

theorem levels_rounds (p : Plan α) (order : SetOrder α) : p.Rounds ∅ (p.levels order) := by
  have h := levelsFrom_rounds (p := p) order ∅ p.indegree (fun task => by simp [credit])
  rwa [Finset.sdiff_empty] at h

omit [DecidableEq α] in
theorem mem_take_flatten {levels : List (List α)} {i : Nat} {task : α} :
    task ∈ (levels.take i).flatten ↔ ∃ j < i, ∃ level, levels[j]? = some level ∧ task ∈ level := by
  rw [List.mem_flatten]
  constructor
  · rintro ⟨level, hlevel, htask⟩
    obtain ⟨j, hj⟩ := List.mem_iff_getElem?.mp hlevel
    rw [List.getElem?_take] at hj
    split at hj
    · next hlt => exact ⟨j, hlt, level, hj, htask⟩
    · exact absurd hj nofun
  · rintro ⟨j, hlt, level, hget, htask⟩
    exact ⟨level, List.mem_iff_getElem?.mpr ⟨j, by rw [List.getElem?_take, if_pos hlt, hget]⟩, htask⟩

omit [DecidableEq α] in
theorem mem_flatten {levels : List (List α)} {task : α} :
    task ∈ levels.flatten ↔ ∃ (j : Nat) (level : List α), levels[j]? = some level ∧ task ∈ level := by
  rw [List.mem_flatten]
  constructor
  · rintro ⟨level, hlevel, htask⟩
    obtain ⟨j, hj⟩ := List.mem_iff_getElem?.mp hlevel
    exact ⟨j, level, hj, htask⟩
  · rintro ⟨j, level, hget, htask⟩
    exact ⟨level, List.mem_of_getElem? hget, htask⟩

/-- The tasks that are done after so many rounds. -/
def doneAfter (done : Finset α) (levels : List (List α)) (i : Nat) : Finset α := done ∪ (levels.take i).flatten.toFinset

theorem doneAfter_succ (done : Finset α) (level : List α) (rest : List (List α)) (i : Nat) :
    doneAfter done (level :: rest) (i + 1) = doneAfter (done ∪ level.toFinset) rest i := by
  simp only [doneAfter, List.take_succ_cons, List.flatten_cons, List.toFinset_append, Finset.union_assoc]

theorem mem_doneAfter {levels : List (List α)} {i : Nat} {task : α} :
    task ∈ doneAfter ∅ levels i ↔ ∃ j < i, ∃ level, levels[j]? = some level ∧ task ∈ level := by
  rw [doneAfter, Finset.empty_union, List.mem_toFinset, mem_take_flatten]

theorem Rounds.ready {done : Finset α} {levels : List (List α)} {i : Nat} {level : List α} {task : α} (h : p.Rounds done levels)
    (hlevel : levels[i]? = some level) (htask : task ∈ level) :
    task ∈ p.tasks ∧ task ∉ doneAfter done levels i ∧ p.Ready (doneAfter done levels i) task := by
  induction h generalizing i with
  | stop => exact absurd hlevel (by simp)
  | @round done first rest _ hmem _ ih =>
      cases i with
      | zero =>
          obtain rfl := Option.some.inj hlevel
          simpa [doneAfter] using (hmem task).mp htask
      | succ i =>
          rw [doneAfter_succ]
          exact ih hlevel

theorem Rounds.not_ready {done : Finset α} {levels : List (List α)} {i : Nat} {task : α} (h : p.Rounds done levels)
    (htask : task ∈ p.tasks) (hnot : task ∉ doneAfter done levels (i + 1)) : ¬ p.Ready (doneAfter done levels i) task := by
  induction h generalizing i with
  | stop hstop =>
      simp only [doneAfter, List.take_nil, List.flatten_nil, List.toFinset_nil, Finset.union_empty] at hnot ⊢
      exact hstop task htask hnot
  | @round done first rest _ hmem _ ih =>
      rw [doneAfter_succ] at hnot
      cases i with
      | zero =>
          simp only [doneAfter, List.take_zero, List.flatten_nil, List.toFinset_nil, Finset.union_empty, Finset.mem_union,
            List.mem_toFinset, not_or] at hnot ⊢
          exact fun hready => hnot.2 ((hmem task).mpr ⟨htask, hnot.1, hready⟩)
      | succ i =>
          rw [doneAfter_succ]
          exact ih hnot

theorem Rounds.nodup {done : Finset α} {levels : List (List α)} (h : p.Rounds done levels) :
    levels.flatten.Nodup ∧ ∀ task ∈ levels.flatten, task ∉ done := by
  induction h with
  | stop => exact ⟨List.nodup_nil, fun _ ht => absurd ht List.not_mem_nil⟩
  | @round done first rest hnodup hmem _ ih =>
      obtain ⟨hrest, hout⟩ := ih
      constructor
      · rw [List.flatten_cons, List.nodup_append]
        refine ⟨hnodup, hrest, fun a ha b hb => ?_⟩
        rintro rfl
        exact hout a hb (Finset.mem_union_right _ (List.mem_toFinset.mpr ha))
      · intro task htask
        rcases List.mem_append.mp htask with hfirst | hlater
        · exact ((hmem task).mp hfirst).2.1
        · exact fun hdone => hout task hlater (Finset.mem_union_left _ hdone)

/-! ### What a plan must say -/

/-- No task is on a cycle or behind one. -/
def Acyclic (p : Plan α) : Prop := ∀ task ∈ p.tasks, ¬ p.Behind task

/-- Each task is in one level, after its dependencies, and the number of the level is the length of the longest chain below it. -/
structure Levelled (p : Plan α) (levels : List (List α)) : Prop where
  once : levels.flatten.Nodup
  tasks : ∀ task, task ∈ levels.flatten ↔ task ∈ p.tasks
  earlier : ∀ (i : Nat) (level : List α), levels[i]? = some level → ∀ task ∈ level, ∀ d ∈ p.dependencies task,
    ∃ j < i, ∃ level', levels[j]? = some level' ∧ d ∈ level'
  longest : ∀ (i : Nat) (level : List α), levels[i]? = some level → ∀ task ∈ level, p.Longest i task

/-- The levels partition an acyclic list, and miss the tasks on or behind a cycle of another. -/
structure Lawful (p : Plan α) (levels : List (List α)) : Prop where
  levelled : p.Acyclic → p.Levelled levels
  missing : ¬ p.Acyclic → ∀ task ∈ p.tasks, task ∉ levels.flatten ↔ p.Behind task

/-- The dependency ends in time for one round less: a chain below the task is longer by two than the longest below it. -/
def Early (p : Plan α) (task d : α) : Prop := ∃ n, ¬ p.HasChain n d ∧ p.HasChain (n + 1) task

open Classical in
/-- The dependencies of each task off the cycles are in the list as often as the task names a dependency, and those that end early
are there less often, for each task of an acyclic list and each task behind a cycle. -/
structure Balanced (p : Plan α) : Prop where
  enough : ∀ task ∈ p.tasks, ¬ p.Behind task → (p.dependencies task).length ≤ ∑ d ∈ (p.dependencies task).toFinset, p.tasks.count d
  late : ∀ task ∈ p.tasks, p.dependencies task ≠ [] → p.Acyclic ∨ p.Behind task →
    ∑ d ∈ (p.dependencies task).toFinset.filter (p.Early task), p.tasks.count d < (p.dependencies task).length

/-! ### The levels of a balanced list -/

variable {levels : List (List α)}

theorem credit_le (done : Finset α) (task : α) : p.credit done task ≤ ∑ d ∈ (p.dependencies task).toFinset, p.tasks.count d :=
  Finset.sum_le_sum_of_subset Finset.inter_subset_left

theorem credit_of_subset {done : Finset α} {task : α} (h : ∀ d ∈ p.dependencies task, d ∈ done) :
    p.credit done task = ∑ d ∈ (p.dependencies task).toFinset, p.tasks.count d := by
  rw [credit, Finset.inter_eq_left.mpr fun d hd => h d (List.mem_toFinset.mp hd)]

theorem Balanced.not_ready {done : Finset α} {task : α} (h : p.Balanced) (htask : task ∈ p.tasks) (hdeps : p.dependencies task ≠ [])
    (hwhere : p.Acyclic ∨ p.Behind task) (hearly : ∀ d ∈ p.dependencies task, d ∈ done → p.Early task d) : ¬ p.Ready done task := by
  classical
  intro hready
  have hle : p.credit done task ≤ ∑ d ∈ (p.dependencies task).toFinset.filter (p.Early task), p.tasks.count d := by
    refine Finset.sum_le_sum_of_subset fun d hd => ?_
    obtain ⟨hdep, hdone⟩ := Finset.mem_inter.mp hd
    exact Finset.mem_filter.mpr ⟨hdep, hearly d (List.mem_toFinset.mp hdep) hdone⟩
  have hlate := h.late task htask hdeps hwhere
  exact absurd (hready.trans hle) (Nat.not_le.mpr (by convert hlate))

theorem Balanced.placed (h : p.Balanced) (hclosed : p.Closed) (hrounds : p.Rounds ∅ levels) {n : Nat} {task : α} (htask : task ∈ p.tasks)
    (hchain : ¬ p.HasChain n task) : task ∈ doneAfter ∅ levels n := by
  induction n generalizing task with
  | zero => exact absurd trivial hchain
  | succ n ih =>
      by_contra hnot
      have hdeps : ∀ d ∈ p.dependencies task, d ∈ doneAfter ∅ levels n :=
        fun d hd => ih (hclosed task htask d hd) fun hd' => hchain ⟨d, hd, hd'⟩
      have hbehind : ¬ p.Behind task := fun hb => hchain (hb.hasChain _)
      refine hrounds.not_ready htask hnot ?_
      rw [Ready, credit_of_subset hdeps]
      exact h.enough task htask hbehind

omit [DecidableEq α] in
theorem Behind.deps_ne_nil {task : α} (h : p.Behind task) : p.dependencies task ≠ [] := by
  obtain ⟨d, hd, -⟩ := h.step
  exact List.ne_nil_of_mem hd

theorem Balanced.missing (h : p.Balanced) (hclosed : p.Closed) (hrounds : p.Rounds ∅ levels) {task : α} (htask : task ∈ p.tasks) :
    task ∉ levels.flatten ↔ p.Behind task := by
  constructor
  · intro hnot
    by_contra hbehind
    obtain ⟨n, hn⟩ := exists_not_hasChain hclosed htask hbehind
    obtain ⟨j, -, level, hlevel, hmem⟩ := mem_doneAfter.mp (h.placed hclosed hrounds htask hn)
    exact hnot (mem_flatten.mpr ⟨j, level, hlevel, hmem⟩)
  · -- The first level that would hold one has only dependencies off the cycles before it.
    have hno : ∀ (i : Nat) (level : List α), levels[i]? = some level → ∀ u ∈ level, ¬ p.Behind u := by
      intro i
      induction i using Nat.strong_induction_on with
      | _ i ih =>
          intro level hlevel u hu hbehind
          obtain ⟨hin, -, hready⟩ := hrounds.ready hlevel hu
          refine h.not_ready hin hbehind.deps_ne_nil (.inr hbehind) (fun d hd hdone => ?_) hready
          obtain ⟨j, hj, level', hlevel', hd'⟩ := mem_doneAfter.mp hdone
          obtain ⟨n, hn⟩ := exists_not_hasChain hclosed (hclosed u hin d hd) (ih j hj level' hlevel' d hd')
          exact ⟨n, hn, hbehind.hasChain _⟩
    intro hbehind hmem
    obtain ⟨j, level, hlevel, hin⟩ := mem_flatten.mp hmem
    exact hno j level hlevel task hin hbehind

theorem Balanced.longest (h : p.Balanced) (hclosed : p.Closed) (hacyclic : p.Acyclic) (hrounds : p.Rounds ∅ levels) :
    ∀ (i : Nat) (level : List α), levels[i]? = some level → ∀ task ∈ level, p.Longest i task := by
  intro i
  induction i using Nat.strong_induction_on with
  | _ i ih =>
      intro level hlevel task htask
      obtain ⟨hin, hnew, hready⟩ := hrounds.ready hlevel htask
      constructor
      · by_contra hchain
        exact hnew (h.placed hclosed hrounds hin hchain)
      · intro hchain
        have hdeps : p.dependencies task ≠ [] := by
          obtain ⟨d, hd, -⟩ := hchain
          exact List.ne_nil_of_mem hd
        refine h.not_ready hin hdeps (.inl hacyclic) (fun d hd hdone => ⟨i, ?_, hchain⟩) hready
        obtain ⟨j, hj, level', hlevel', hd'⟩ := mem_doneAfter.mp hdone
        exact (ih j hj level' hlevel' d hd').lt_iff.mp hj

theorem Balanced.levelled (h : p.Balanced) (hclosed : p.Closed) (hacyclic : p.Acyclic) (hrounds : p.Rounds ∅ levels) :
    p.Levelled levels := by
  have hlongest := h.longest hclosed hacyclic hrounds
  refine ⟨hrounds.nodup.1, fun task => ⟨fun hmem => ?_, fun htask => ?_⟩, fun i level hlevel task htask d hd => ?_, hlongest⟩
  · obtain ⟨j, level, hlevel, hin⟩ := mem_flatten.mp hmem
    exact (hrounds.ready hlevel hin).1
  · by_contra hnot
    exact hacyclic task htask ((h.missing hclosed hrounds htask).mp hnot)
  · have hin := (hrounds.ready hlevel htask).1
    have hchain : ¬ p.HasChain i d := fun hchain => (hlongest i level hlevel task htask).2 ⟨d, hd, hchain⟩
    exact mem_doneAfter.mp (h.placed hclosed hrounds (hclosed task hin d hd) hchain)

/-! ### What lawful levels say of the list -/

theorem Lawful.placed (h : p.Lawful levels) {task : α} (htask : task ∈ p.tasks) (hbehind : ¬ p.Behind task) :
    ∃ (i : Nat) (level : List α), levels[i]? = some level ∧ task ∈ level := by
  apply mem_flatten.mp
  by_cases hacyclic : p.Acyclic
  · exact ((h.levelled hacyclic).tasks task).mpr htask
  · by_contra hnot
    exact hbehind ((h.missing hacyclic task htask).mp hnot)

theorem Lawful.balanced (h : p.Lawful levels) (hclosed : p.Closed) (hrounds : p.Rounds ∅ levels) : p.Balanced := by
  classical
  constructor
  · intro task htask hbehind
    obtain ⟨i, level, hlevel, hin⟩ := h.placed htask hbehind
    exact (hrounds.ready hlevel hin).2.2.trans (credit_le _ _)
  · intro task htask hdeps hwhere
    -- A round in which the task is not ready, and by which all that ends early is done.
    suffices hround : ∃ i, ¬ p.Ready (doneAfter ∅ levels i) task ∧
        ∀ d ∈ p.dependencies task, p.Early task d → d ∈ doneAfter ∅ levels i by
      obtain ⟨i, hnot, hearly⟩ := hround
      have hle : ∑ d ∈ (p.dependencies task).toFinset.filter (p.Early task), p.tasks.count d ≤ p.credit (doneAfter ∅ levels i) task := by
        refine Finset.sum_le_sum_of_subset fun d hd => ?_
        obtain ⟨hdep, hd'⟩ := Finset.mem_filter.mp hd
        exact Finset.mem_inter.mpr ⟨hdep, hearly d (List.mem_toFinset.mp hdep) hd'⟩
      have hlt := hle.trans_lt (Nat.not_le.mp hnot)
      convert hlt
    by_cases hacyclic : p.Acyclic
    · obtain ⟨i, level, hlevel, hin⟩ := h.placed htask (hacyclic task htask)
      have hlongest := (h.levelled hacyclic).longest i level hlevel task hin
      obtain ⟨d, hd⟩ := List.exists_mem_of_ne_nil _ hdeps
      have hpos : 0 < i := by
        by_contra hzero
        exact hlongest.2 ⟨d, hd, by rw [Nat.eq_zero_of_not_pos hzero]; trivial⟩
      obtain ⟨k, rfl⟩ := Nat.exists_eq_succ_of_ne_zero (Nat.ne_of_gt hpos)
      refine ⟨k, hrounds.not_ready htask (hrounds.ready hlevel hin).2.1, fun e he ⟨n, hn, hchain⟩ => ?_⟩
      have hetask := hclosed task htask e he
      obtain ⟨j, level', hlevel', he'⟩ := h.placed hetask (hacyclic e hetask)
      have hj : j < n := ((h.levelled hacyclic).longest j level' hlevel' e he').lt_iff.mpr hn
      have hle : n + 1 ≤ k + 1 := by
        by_contra hgt
        exact hlongest.2 (hchain.mono (Nat.lt_of_not_le hgt))
      exact mem_doneAfter.mpr ⟨j, by omega, level', hlevel', he'⟩
    · have hbehind : p.Behind task := hwhere.resolve_left hacyclic
      have hall : ∀ u, u ∈ doneAfter ∅ levels levels.length ↔ u ∈ levels.flatten := by
        intro u
        rw [doneAfter, List.take_length, Finset.empty_union, List.mem_toFinset]
      refine ⟨levels.length, hrounds.not_ready htask ?_, fun e he ⟨n, hn, _⟩ => ?_⟩
      · rw [doneAfter, List.take_of_length_le (Nat.le_succ _), Finset.empty_union, List.mem_toFinset]
        exact (h.missing hacyclic task htask).mpr hbehind
      · rw [hall]
        have hnot : ¬ p.Behind e := fun hb => hn (hb.hasChain n)
        exact mem_flatten.mpr (h.placed (hclosed task htask e he) hnot)

omit [DecidableEq α] in
theorem late_dependency (hclosed : p.Closed) {task : α} (htask : task ∈ p.tasks) (hdeps : p.dependencies task ≠ []) :
    ∃ d ∈ p.dependencies task, ¬ p.Early task d := by
  classical
  by_cases hbehind : p.Behind task
  · obtain ⟨d, hd, hb⟩ := hbehind.step
    exact ⟨d, hd, fun ⟨n, hn, _⟩ => hn (hb.hasChain n)⟩
  · obtain ⟨n, hn⟩ := exists_not_hasChain hclosed htask hbehind
    obtain ⟨m, -, hm, hlast⟩ := exists_longest hn
    obtain ⟨e, he⟩ := List.exists_mem_of_ne_nil _ hdeps
    obtain ⟨k, rfl⟩ : ∃ k, m = k + 1 := by
      cases m with
      | zero => exact absurd ⟨e, he, trivial⟩ hlast
      | succ k => exact ⟨k, rfl⟩
    obtain ⟨d, hd, hchain⟩ := hm
    refine ⟨d, hd, fun ⟨n, hn, hlong⟩ => hlast (hlong.mono ?_)⟩
    have hlt : k < n := by
      by_contra hge
      exact hn (hchain.mono (Nat.le_of_not_lt hge))
    omega

theorem sum_count (hnodup : p.tasks.Nodup) {s : Finset α} (hs : ∀ d ∈ s, d ∈ p.tasks) : ∑ d ∈ s, p.tasks.count d = s.card := by
  rw [Finset.card_eq_sum_ones]
  exact Finset.sum_congr rfl fun d hd => List.count_eq_one_of_mem hnodup (hs d hd)

theorem balanced_iff_names_once (hclosed : p.Closed) (hnodup : p.tasks.Nodup) :
    p.Balanced ↔ ∀ task ∈ p.tasks, ¬ p.Behind task → (p.dependencies task).Nodup := by
  classical
  have hsum : ∀ task ∈ p.tasks, ∑ d ∈ (p.dependencies task).toFinset, p.tasks.count d = (p.dependencies task).toFinset.card :=
    fun task htask => sum_count hnodup fun d hd => hclosed task htask d (List.mem_toFinset.mp hd)
  constructor
  · intro h task htask hbehind
    have henough := h.enough task htask hbehind
    rw [hsum task htask, List.card_toFinset] at henough
    exact List.dedup_eq_self.mp ((List.dedup_sublist _).eq_of_length_le henough)
  · intro h
    refine ⟨fun task htask hbehind => ?_, fun task htask hdeps _ => ?_⟩
    · rw [hsum task htask, List.toFinset_card_of_nodup (h task htask hbehind)]
    · obtain ⟨d, hd, hlate⟩ := late_dependency hclosed htask hdeps
      have hlt : ((p.dependencies task).toFinset.filter (p.Early task)).card < (p.dependencies task).toFinset.card := by
        refine Finset.card_lt_card ⟨Finset.filter_subset _ _, fun hsub => hlate ?_⟩
        exact (Finset.mem_filter.mp (hsub (List.mem_toFinset.mpr hd))).2
      have hle := hlt.trans_le (List.toFinset_card_le (p.dependencies task))
      rw [← sum_count hnodup fun e he =>
        hclosed task htask e (List.mem_toFinset.mp (Finset.mem_filter.mp he).1)] at hle
      convert hle

/-- The levels of a plan are lawful exactly for a balanced list. -/
theorem levels_lawful_iff (p : Plan α) (order : SetOrder α) (hclosed : p.Closed) : p.Lawful (p.levels order) ↔ p.Balanced := by
  have hrounds := p.levels_rounds order
  constructor
  · exact fun h => h.balanced hclosed hrounds
  · exact fun h => ⟨fun hacyclic => h.levelled hclosed hacyclic hrounds, fun _ task htask => h.missing hclosed hrounds htask⟩

/-! ### A dependency named twice -/

/-- A task, and one that names it twice. -/
def twice : Plan String := ⟨["task_1", "task_2"], fun task => if task = "task_2" then ["task_1", "task_1"] else []⟩

/-- Any order of iteration, such as that of `Finset.toList`. -/
noncomputable def anyOrder : SetOrder α := ⟨Finset.toList, Finset.nodup_toList, fun _ _ => Finset.mem_toList⟩

theorem twice_closed : twice.Closed := by
  intro task htask d hd
  simp only [twice] at hd
  split at hd
  · simp_all [twice]
  · exact absurd hd List.not_mem_nil

theorem twice_lawful_iff : twice.Lawful (twice.levels anyOrder) ↔ twice.Balanced := levels_lawful_iff twice anyOrder twice_closed

theorem twice_acyclic : twice.Acyclic := by
  intro task htask hbehind
  obtain ⟨d, hd, e, he, -⟩ := hbehind.hasChain 2
  have hd' : d = "task_1" := by
    simp only [twice] at hd
    split at hd <;> simp_all
  subst hd'
  simp [twice] at he

/-- The second task is in no level, in whatever order the ids are iterated over. -/
theorem twice_not_lawful : twice.Closed ∧ twice.Acyclic ∧ ∀ order, ¬ twice.Lawful (twice.levels order) := by
  refine ⟨twice_closed, twice_acyclic, fun order hlawful => ?_⟩
  have hmem : "task_2" ∈ twice.tasks := by decide
  have hbalanced := hlawful.balanced twice_closed (twice.levels_rounds order)
  have hnodup := (balanced_iff_names_once twice_closed (by decide)).mp hbalanced "task_2" hmem (twice_acyclic _ hmem)
  exact absurd hnodup (by decide)

end Plan

end Nodus.PlanLevels
