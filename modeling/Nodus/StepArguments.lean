import Nodus.TaskShapes
import Mathlib.Data.List.Sort

/-! What the parameters of a step are bound to. The lowering makes a parameter of every dependency of a step and adds
the steps it is only ordered after; the runner passes the results of all of them by position. -/

namespace Nodus.Orchestration

/-! The `STORE_ARG` of every parameter at the beginning of a function. -/

section stores

variable {N V : Type} [DecidableEq N]

/-- The locals after the `STORE_ARG` of every parameter, the last one first; each of them pops what was pushed last. -/
def storeArgs (params : List N) (args : List V) : N → Option V :=
  (params.reverse.zip args.reverse).foldl (fun locals p => Function.update locals p.1 (some p.2)) fun _ => none

/-- The slot of a name in a frame, if the names are defined one after the other. -/
def slotOf (names : List N) (name : N) : Nat := names.length - 1 - names.reverse.idxOf name

/-- The slots after the `STORE_ARG` of every parameter. -/
def storeSlots (slot : N → Nat) (params : List N) (args : List V) (nil : V) : Nat → V :=
  (params.reverse.zip args.reverse).foldl (fun slots p => Function.update slots (slot p.1) p.2) fun _ => nil

theorem foldr_update (pairs : List (N × V)) :
    pairs.foldr (fun p (locals : N → Option V) => Function.update locals p.1 (some p.2)) (fun _ => none) =
      fun name => pairs.lookup name := by
  induction pairs with
  | nil =>
      funext name
      exact List.lookup_nil.symm
  | cons p pairs ih =>
      funext name
      rw [List.foldr_cons, ih, List.lookup_cons]
      by_cases hname : name = p.1
      · rw [hname, Function.update_self, beq_self_eq_true]
      · rw [Function.update_of_ne hname, beq_false_of_ne hname]

theorem storeArgs_append {params : List N} {first args : List V} (h : args.length = params.length) :
    storeArgs params (first ++ args) = fun name => (params.zip args).lookup name := by
  have hlen : params.reverse.length = args.reverse.length := by rw [List.length_reverse, List.length_reverse, h]
  have hzip : params.reverse.zip (first ++ args).reverse = (params.zip args).reverse := by
    rw [List.reverse_append, ← List.append_nil params.reverse, List.zip_append hlen, List.zip_nil_left, List.append_nil]
    exact (List.reverse_zipWith h.symm).symm
  rw [storeArgs, hzip, List.foldl_reverse, foldr_update]

theorem lookup_zip {params : List N} {args : List V} {name : N} (hname : name ∈ params)
    (h : params.length ≤ args.length) : (params.zip args).lookup name = args[params.idxOf name]? := by
  induction params generalizing args with
  | nil => cases hname
  | cons p params ih =>
      cases args with
      | nil => cases h
      | cons v args =>
          rw [List.zip_cons_cons, List.lookup_cons]
          by_cases he : name = p
          · rw [he, beq_self_eq_true, List.idxOf_cons_self]
            rfl
          · rw [beq_false_of_ne he, List.idxOf_cons_ne _ (Ne.symm he), List.getElem?_cons_succ]
            exact ih ((List.mem_cons.mp hname).resolve_left he) (Nat.le_of_succ_le_succ h)

theorem idxOf_map {M : Type} [DecidableEq M] {f : N → M} {names : List N} {name : N} (hname : name ∈ names)
    (hf : ∀ other ∈ names, f other = f name → other = name) : (names.map f).idxOf (f name) = names.idxOf name := by
  induction names with
  | nil => cases hname
  | cons first names ih =>
      by_cases he : first = name
      · rw [he, List.map_cons, List.idxOf_cons_self, List.idxOf_cons_self]
      · have hne : f first ≠ f name := fun h => he (hf first List.mem_cons_self h)
        rw [List.map_cons, List.idxOf_cons_ne _ hne, List.idxOf_cons_ne _ he,
          ih ((List.mem_cons.mp hname).resolve_left (Ne.symm he)) fun other ho => hf other (List.mem_cons_of_mem _ ho)]

theorem getElem?_slotOf {names : List N} {name : N} (h : name ∈ names) : names[slotOf names name]? = some name := by
  have hlt : names.reverse.idxOf name < names.length := by
    rw [← @List.length_reverse _ names]
    exact List.idxOf_lt_length_of_mem (List.mem_reverse.mpr h)
  rw [slotOf, ← List.getElem?_reverse hlt]
  exact List.getElem?_idxOf (List.mem_reverse.mpr h)

theorem slotOf_injective {names : List N} {name other : N} (h : name ∈ names) (h' : other ∈ names)
    (he : slotOf names name = slotOf names other) : name = other := by
  have hget := getElem?_slotOf h
  rw [he, getElem?_slotOf h'] at hget
  exact (Option.some.inj hget).symm

theorem slotOf_lt {names : List N} {name : N} (h : name ∈ names) : slotOf names name < names.length := by
  have hlen : 0 < names.length := List.length_pos_of_mem h
  rw [slotOf]
  omega

theorem slotOf_append {params declares : List N} {name : N} (hd : name ∉ declares) :
    slotOf (params ++ declares) name = slotOf params name := by
  rw [slotOf, slotOf, List.reverse_append, List.idxOf_append_of_notMem (mt List.mem_reverse.mp hd), List.length_append,
    List.length_reverse]
  omega

/-- A name that is declared again has moved to another slot, and no other name has taken its old one. -/
theorem slotOf_moved {params declares : List N} {name other : N} (h : name ∈ params) (hd : name ∈ declares)
    (ho : other ∈ params) : slotOf (params ++ declares) other ≠ slotOf params name := by
  intro he
  have hmem : other ∈ params ++ declares := List.mem_append_left _ ho
  have hget := getElem?_slotOf hmem
  rw [he, List.getElem?_append_left (slotOf_lt h), getElem?_slotOf h] at hget
  rw [← Option.some.inj hget, slotOf, slotOf, List.reverse_append, List.length_append,
    List.idxOf_append_of_mem (List.mem_reverse.mpr hd)] at he
  have hlt : declares.reverse.idxOf name < declares.length := by
    rw [← @List.length_reverse _ declares]
    exact List.idxOf_lt_length_of_mem (List.mem_reverse.mpr hd)
  have hslot := slotOf_lt h
  rw [slotOf] at hslot
  omega

theorem storeSlots_eq {slot : N → Nat} {params : List N}
    (hslot : ∀ p ∈ params, ∀ q ∈ params, slot p = slot q → p = q) (args : List V) (nil : V) {name : N}
    (hname : name ∈ params) : storeSlots slot params args nil (slot name) = (storeArgs params args name).getD nil := by
  have hfold : ∀ (pairs : List (N × V)) (slots : Nat → V) (locals : N → Option V), (∀ p ∈ pairs, p.1 ∈ params) →
      slots (slot name) = (locals name).getD nil →
      pairs.foldl (fun (slots : Nat → V) p => Function.update slots (slot p.1) p.2) slots (slot name) =
        (pairs.foldl (fun (locals : N → Option V) p => Function.update locals p.1 (some p.2)) locals name).getD nil := by
    intro pairs
    induction pairs with
    | nil => exact fun _ _ _ h => h
    | cons p pairs ih =>
        intro slots locals hmem h
        refine ih _ _ (fun q hq => hmem q (List.mem_cons_of_mem _ hq)) ?_
        show Function.update slots (slot p.1) p.2 (slot name) = (Function.update locals p.1 (some p.2) name).getD nil
        by_cases he : name = p.1
        · rw [he, Function.update_self, Function.update_self]
          rfl
        · have hne : slot name ≠ slot p.1 := fun heq => he (hslot name hname p.1 (hmem p List.mem_cons_self) heq)
          rw [Function.update_of_ne hne, Function.update_of_ne he]
          exact h
  exact hfold _ _ _ (fun p hp => List.mem_reverse.mp (List.of_mem_zip hp).1) rfl

omit [DecidableEq N] in
theorem storeSlots_untouched {slot : N → Nat} {params : List N} {k : Nat} (hk : ∀ p ∈ params, slot p ≠ k)
    (args : List V) (nil : V) : storeSlots slot params args nil k = nil := by
  have hfold : ∀ (pairs : List (N × V)) (slots : Nat → V), (∀ p ∈ pairs, p.1 ∈ params) → slots k = nil →
      pairs.foldl (fun slots p => Function.update slots (slot p.1) p.2) slots k = nil := by
    intro pairs
    induction pairs with
    | nil => exact fun _ _ h => h
    | cons p pairs ih =>
        intro slots hmem h
        refine ih _ (fun q hq => hmem q (List.mem_cons_of_mem _ hq)) ?_
        show Function.update slots (slot p.1) p.2 k = nil
        rw [Function.update_of_ne (hk p.1 (hmem p List.mem_cons_self)).symm]
        exact h
  exact hfold _ _ (fun p hp => List.mem_reverse.mp (List.of_mem_zip hp).1) rfl

end stores

variable {N : Type} [LinearOrder N]

/-- `each var in source`. -/
structure Each (N : Type) where
  var : N
  source : N
  ne : var ≠ source

/-- A step as it is parsed, with the state cells its body reads and writes, and the names that are declared in it but not in
a function in it. The parser adds the source of `each` to the dependencies. -/
structure FlowStep (N : Type) where
  name : N
  deps : List N := []
  each : Option (Each N) := none
  compensates : Option N := none
  reads : List N := []
  writes : List N := []
  declares : List N := []
  source_mem : ∀ e ∈ each, e.source ∈ deps := by simp

/-- A workflow or a goal, with the cells that are declared `barrier: true`. -/
structure Flow (N : Type) where
  steps : List (FlowStep N)
  barriers : List N := []

namespace Flow

/-- The steps that are not compensation handlers. -/
def forward (flow : Flow N) : List (FlowStep N) := flow.steps.filter (·.compensates.isNone)

def writers (flow : Flow N) (cell : N) : List N := (flow.forward.filter (cell ∈ ·.writes)).map FlowStep.name

/-- The dependencies that a step declares. -/
def direct (flow : Flow N) (name : N) : List N := ((flow.forward.find? (·.name = name)).map FlowStep.deps).getD []

/-- `upstream`: the steps that have ended before a step runs. Without its memo, which matters to cyclic flows only. -/
def upstreamWithin (flow : Flow N) : Nat → List N → N → List N
  | 0, _, _ => []
  | depth + 1, seen, name =>
      if name ∈ seen then []
      else (flow.direct name).flatMap fun dep => dep :: flow.upstreamWithin depth (name :: seen) dep

def upstream (flow : Flow N) (name : N) : List N := flow.upstreamWithin (flow.forward.length + 1) [] name

/-- `_missing_writers`. -/
def missingWriters (flow : Flow N) (step : FlowStep N) (cell : N) : List N :=
  (flow.writers cell).filter fun writer => writer ∉ flow.upstream step.name ∧ writer ≠ step.name

/-- `_apply_barriers`: the steps a step is only ordered after. -/
def orderAfter (flow : Flow N) (step : FlowStep N) : List N :=
  ((step.reads.filter (· ∈ flow.barriers)).flatMap (flow.missingWriters step)).dedup.insertionSort (· ≤ ·)

/-- The dependencies of the task of a step, by the names of their steps. -/
def dependencies (flow : Flow N) (step : FlowStep N) : List N :=
  (flow.orderAfter step).foldl (fun nodes dep => if dep ∈ nodes then nodes else nodes ++ [dep]) step.deps

/-- How many edges a step has besides its dependencies. -/
def shift (flow : Flow N) (step : FlowStep N) : Nat := (flow.dependencies step).length - step.deps.length

end Flow

namespace FlowStep

/-- The parameter that stands for a dependency. -/
def param (step : FlowStep N) (dep : N) : N :=
  match step.each with
  | some each => if dep = each.source then each.var else dep
  | none => dep

/-- `fn_params`. -/
def fnParams (step : FlowStep N) : List N := step.deps.map step.param

end FlowStep

/-- The slots of a step's frame when its body begins. `STORE_ARG` finds the slot of a parameter by its name, in the table
of all names that the body declares, too. -/
def FlowStep.slots (step : FlowStep N) (args : List Value) : Nat → Value :=
  storeSlots (slotOf (step.fnParams ++ step.declares)) step.fnParams args .nil

/-- `workflow_to_graph`: the task of a step, with the options of the step. -/
def Flow.taskNode (flow : Flow N) (ids : N → TaskId) (step : FlowStep N) (options : TaskNode) : TaskNode :=
  { options with
    dependencies := (flow.dependencies step).map ids
    eachSource := step.each.map fun each => ids each.source
    eachIndex := none }

/-- The node of a task whose body is that of a step: its task, or an instance of it if it is a mapped one. -/
structure RunsStep (flow : Flow N) (ids : N → TaskId) (step : FlowStep N) (node : TaskNode) : Prop where
  dependencies : node.dependencies = (flow.dependencies step).map ids
  mapped : node.eachIndex.isSome = step.each.isSome
  place : ∀ each ∈ step.each, node.eachDepIndex = (flow.dependencies step).idxOf each.source

/-- What a dependency of a step has come to, or the item that stands for it. -/
def meant (ids : N → TaskId) (step : FlowStep N) (s : Run) (t : TaskId) (dep : N) : Value :=
  if ∃ each ∈ step.each, dep = each.source then (s.node t).eachValue else (s.results (ids dep)).getD .nil

/-- Every parameter is bound to what the dependency has come to that it stands for, by its name and in the slot that the
body reads it from. -/
def Binds (ids : N → TaskId) (step : FlowStep N) (s : Run) (t : TaskId) : Prop :=
  ∀ dep ∈ step.deps, storeArgs step.fnParams (s.args t) (step.param dep) = some (meant ids step s t dep) ∧
    step.slots (s.args t) (slotOf step.fnParams (step.param dep)) = meant ids step s t dep

/-- The edges the step has besides its dependencies do not move its arguments to other parameters. -/
def Aligned (flow : Flow N) (step : FlowStep N) : Prop :=
  match step.each with
  | none => ∀ dep ∈ step.deps, (flow.dependencies step)[step.deps.idxOf dep + flow.shift step]? = some dep
  | some each => flow.dependencies step = step.deps ∧ each.var ∉ step.deps

/-- No parameter is declared again in the body. -/
def Undeclared (step : FlowStep N) : Prop := ∀ dep ∈ step.deps, step.param dep ∉ step.declares

instance (step : FlowStep N) : Decidable (Undeclared step) := inferInstanceAs (Decidable (∀ dep ∈ _, _))

/-! The arguments of a step. -/

namespace Flow

variable {flow : Flow N} {step : FlowStep N}

theorem foldl_prefix (names nodes : List N) :
    nodes <+: names.foldl (fun nodes dep => if dep ∈ nodes then nodes else nodes ++ [dep]) nodes := by
  induction names generalizing nodes with
  | nil => exact List.prefix_refl nodes
  | cons name names ih =>
      rw [List.foldl_cons]
      split
      · exact ih nodes
      · exact (List.prefix_append nodes [name]).trans (ih _)

theorem deps_prefix (flow : Flow N) (step : FlowStep N) : step.deps <+: flow.dependencies step :=
  foldl_prefix (flow.orderAfter step) step.deps

theorem length_dependencies (flow : Flow N) (step : FlowStep N) :
    (flow.dependencies step).length = step.deps.length + flow.shift step := by
  have hle : step.deps.length ≤ (flow.dependencies step).length := (flow.deps_prefix step).length_le
  rw [shift]
  omega

theorem idxOf_dependencies {dep : N} (hdep : dep ∈ step.deps) :
    (flow.dependencies step).idxOf dep = step.deps.idxOf dep := by
  obtain ⟨more, hmore⟩ := flow.deps_prefix step
  rw [← hmore, List.idxOf_append_of_mem hdep]

theorem dependencies_eq (h : flow.shift step = 0) : flow.dependencies step = step.deps := by
  have hlen := flow.length_dependencies step
  exact ((flow.deps_prefix step).eq_of_length (by omega)).symm

end Flow

theorem length_args (s : Run) (t : TaskId) : (s.args t).length = (s.node t).dependencies.length := by
  unfold Run.args
  simp only []
  split
  · rw [List.length_set, List.length_map]
  · exact List.length_map _

namespace RunsStep

variable {flow : Flow N} {ids : N → TaskId} {step : FlowStep N} {s : Run} {t : TaskId}

theorem bound (h : RunsStep flow ids step (s.node t)) {dep : N} (hdep : dep ∈ step.deps)
    (halone : ∀ other ∈ step.deps, step.param other = step.param dep → other = dep) :
    storeArgs step.fnParams (s.args t) (step.param dep) = (s.args t)[step.deps.idxOf dep + flow.shift step]? := by
  have hlen : (s.args t).length = step.deps.length + flow.shift step := by
    rw [length_args, h.dependencies, List.length_map, flow.length_dependencies step]
  have hparams : step.fnParams.length = step.deps.length := List.length_map _
  have hdrop : ((s.args t).drop (flow.shift step)).length = step.fnParams.length := by
    rw [List.length_drop, hlen, hparams]
    omega
  have hmem : step.param dep ∈ step.fnParams := List.mem_map_of_mem hdep
  calc storeArgs step.fnParams (s.args t) (step.param dep)
      = storeArgs step.fnParams ((s.args t).take (flow.shift step) ++ (s.args t).drop (flow.shift step)) (step.param dep) := by
        rw [List.take_append_drop]
    _ = (step.fnParams.zip ((s.args t).drop (flow.shift step))).lookup (step.param dep) := by rw [storeArgs_append hdrop]
    _ = ((s.args t).drop (flow.shift step))[step.fnParams.idxOf (step.param dep)]? := lookup_zip hmem hdrop.ge
    _ = ((s.args t).drop (flow.shift step))[step.deps.idxOf dep]? := by rw [FlowStep.fnParams, idxOf_map hdep halone]
    _ = (s.args t)[step.deps.idxOf dep + flow.shift step]? := by rw [List.getElem?_drop, Nat.add_comm]

theorem args_plain (h : RunsStep flow ids step (s.node t)) (heach : step.each = none) :
    s.args t = (flow.dependencies step).map fun dep => (s.results (ids dep)).getD .nil := by
  have hindex : (s.node t).eachIndex.isSome = false := by rw [h.mapped, heach]; rfl
  rw [Run.args, hindex, h.dependencies, List.map_map]
  rfl

theorem args_mapped (h : RunsStep flow ids step (s.node t)) {each : Each N} (heach : step.each = some each) :
    s.args t = ((flow.dependencies step).map fun dep => (s.results (ids dep)).getD .nil).set (step.deps.idxOf each.source)
      (s.node t).eachValue := by
  have hindex : (s.node t).eachIndex.isSome = true := by rw [h.mapped, heach]; rfl
  rw [Run.args, if_pos hindex, h.dependencies, List.map_map, h.place each heach,
    Flow.idxOf_dependencies (step.source_mem each heach)]
  rfl

end RunsStep

namespace FlowStep

variable {step : FlowStep N}

theorem param_plain (heach : step.each = none) (dep : N) : step.param dep = dep := by rw [param, heach]

theorem param_source {each : Each N} (heach : step.each = some each) : step.param each.source = each.var := by
  rw [param, heach]
  exact if_pos rfl

theorem param_other {each : Each N} (heach : step.each = some each) {dep : N} (hdep : dep ≠ each.source) :
    step.param dep = dep := by
  rw [param, heach]
  exact if_neg hdep

theorem param_injective {each : Each N} (heach : step.each = some each) (hvar : each.var ∉ step.deps) {dep other : N}
    (hdep : dep ∈ step.deps) (hother : other ∈ step.deps) (h : step.param other = step.param dep) : other = dep := by
  by_cases hd : dep = each.source
  · by_cases ho : other = each.source
    · rw [hd, ho]
    · rw [hd, param_source heach, param_other heach ho] at h
      exact absurd (h ▸ hother) hvar
  · by_cases ho : other = each.source
    · rw [ho, param_source heach, param_other heach hd] at h
      exact absurd (h ▸ hdep) hvar
    · rwa [param_other heach hd, param_other heach ho] at h

end FlowStep

section meant

variable {ids : N → TaskId} {step : FlowStep N} {s : Run} {t : TaskId} {each : Each N}

theorem meant_plain (heach : step.each = none) (dep : N) : meant ids step s t dep = (s.results (ids dep)).getD .nil := by
  rw [meant, if_neg]
  rintro ⟨each, hmem, -⟩
  rw [heach] at hmem
  cases hmem

theorem meant_source (heach : step.each = some each) : meant ids step s t each.source = (s.node t).eachValue := by
  rw [meant, if_pos ⟨each, heach, rfl⟩]

theorem meant_other (heach : step.each = some each) {dep : N} (hdep : dep ≠ each.source) :
    meant ids step s t dep = (s.results (ids dep)).getD .nil := by
  rw [meant, if_neg]
  rintro ⟨each', hmem, rfl⟩
  rw [heach] at hmem
  exact hdep (Option.some.inj hmem ▸ rfl)

end meant

/-- The body reads a parameter that is not declared again from the slot that it is stored in. -/
theorem FlowStep.slots_undeclared {step : FlowStep N} (args : List Value) {dep : N} (hdep : dep ∈ step.deps)
    (h : step.param dep ∉ step.declares) :
    step.slots args (slotOf step.fnParams (step.param dep)) = (storeArgs step.fnParams args (step.param dep)).getD .nil := by
  have hmem : step.param dep ∈ step.fnParams := List.mem_map_of_mem hdep
  rw [slots, ← slotOf_append h]
  exact storeSlots_eq (fun p hp q hq => slotOf_injective (List.mem_append_left _ hp) (List.mem_append_left _ hq)) args .nil
    hmem

theorem FlowStep.slots_declared {step : FlowStep N} (args : List Value) {dep : N} (hdep : dep ∈ step.deps)
    (h : step.param dep ∈ step.declares) : step.slots args (slotOf step.fnParams (step.param dep)) = .nil :=
  storeSlots_untouched (fun _ hp => slotOf_moved (List.mem_map_of_mem hdep) h hp) args .nil

section aligned

variable {flow : Flow N} {ids : N → TaskId} {step : FlowStep N} {s : Run} {t : TaskId}

theorem aligned_plain (heach : step.each = none) :
    Aligned flow step ↔ ∀ dep ∈ step.deps, (flow.dependencies step)[step.deps.idxOf dep + flow.shift step]? = some dep := by
  unfold Aligned
  rw [heach]

theorem aligned_mapped {each : Each N} (heach : step.each = some each) :
    Aligned flow step ↔ flow.dependencies step = step.deps ∧ each.var ∉ step.deps := by
  unfold Aligned
  rw [heach]

theorem Aligned.bound (ha : Aligned flow step) (h : RunsStep flow ids step (s.node t)) {dep : N} (hdep : dep ∈ step.deps) :
    storeArgs step.fnParams (s.args t) (step.param dep) = some (meant ids step s t dep) := by
  cases heach : step.each with
  | none =>
      have halone : ∀ other ∈ step.deps, step.param other = step.param dep → other = dep := fun other _ heq => by
        rwa [step.param_plain heach, step.param_plain heach] at heq
      rw [h.bound hdep halone, h.args_plain heach, List.getElem?_map, (aligned_plain heach).mp ha dep hdep, meant_plain heach]
      rfl
  | some each =>
      obtain ⟨hdeps, hvar⟩ := (aligned_mapped heach).mp ha
      have hshift : flow.shift step = 0 := by rw [Flow.shift, hdeps, Nat.sub_self]
      have hlt : step.deps.idxOf dep < step.deps.length := List.idxOf_lt_length_of_mem hdep
      rw [h.bound hdep fun other ho => FlowStep.param_injective heach hvar hdep ho, h.args_mapped heach, hshift, hdeps,
        Nat.add_zero]
      by_cases hd : dep = each.source
      · rw [hd, meant_source heach, List.getElem?_set_self]
        rw [List.length_map, ← hd]
        exact hlt
      · have hne : step.deps.idxOf each.source ≠ step.deps.idxOf dep := fun heq =>
          hd (List.idxOf_inj (step.source_mem each heach) |>.mp heq).symm
        rw [meant_other heach hd, List.getElem?_set_ne hne, List.getElem?_map, List.getElem?_idxOf hdep]
        rfl

theorem Aligned.binds (ha : Aligned flow step) (hu : Undeclared step) (h : RunsStep flow ids step (s.node t)) :
    Binds ids step s t := by
  intro dep hdep
  have hbound := ha.bound h hdep
  refine ⟨hbound, ?_⟩
  rw [step.slots_undeclared _ hdep (hu dep hdep), hbound]
  rfl

/-- A run in which a task is a step, or an instance of it, and has what its parameters are to be bound to. -/
def sample (flow : Flow N) (ids : N → TaskId) (step : FlowStep N) (results : TaskId → Option Value) (item : Value) : Run where
  node _ :=
    { dependencies := (flow.dependencies step).map ids
      eachIndex := step.each.map fun _ => 0
      eachDepIndex := (step.each.map fun each => (flow.dependencies step).idxOf each.source).getD 0
      eachValue := item }
  tasks := []
  pending := []
  results

theorem sample_runsStep (flow : Flow N) (ids : N → TaskId) (step : FlowStep N) (results : TaskId → Option Value) (item : Value) (t : TaskId) :
    RunsStep flow ids step ((sample flow ids step results item).node t) := by
  refine ⟨rfl, Option.isSome_map, fun each heach => ?_⟩
  show ((step.each.map fun each => (flow.dependencies step).idxOf each.source).getD 0) = _
  rw [heach]
  rfl

theorem undeclared_of_binds (h : ∀ (s : Run) (t : TaskId), RunsStep flow ids step (s.node t) → Binds ids step s t) :
    Undeclared step := by
  intro dep hdep hdeclared
  have hruns := sample_runsStep flow ids step (fun _ => some (.atom 1)) (.atom 1) (ids dep)
  have hslot := (h _ _ hruns dep hdep).2
  rw [step.slots_declared _ hdep hdeclared, meant] at hslot
  split at hslot
  · cases hslot
  · cases hslot

theorem aligned_of_binds (hids : Function.Injective ids)
    (h : ∀ (s : Run) (t : TaskId), RunsStep flow ids step (s.node t) → Binds ids step s t) : Aligned flow step := by
  cases heach : step.each with
  | none =>
      refine (aligned_plain heach).mpr fun dep hdep => ?_
      -- Only the dependency has this result.
      let results : TaskId → Option Value := fun t => if t = ids dep then some (.atom 1) else none
      have hruns := sample_runsStep flow ids step results .nil (ids dep)
      have hbound := (h _ _ hruns dep hdep).1
      have halone : ∀ other ∈ step.deps, step.param other = step.param dep → other = dep := fun other _ heq => by
        rwa [step.param_plain heach, step.param_plain heach] at heq
      rw [hruns.bound hdep halone, hruns.args_plain heach, List.getElem?_map, meant_plain heach] at hbound
      obtain ⟨other, hother, hvalue⟩ := Option.map_eq_some_iff.mp hbound
      have hmine : results (ids dep) = some (.atom 1) := if_pos rfl
      have hsame : other = dep := by
        by_contra hne
        have hnone : results (ids other) = none := if_neg fun heq => hne (hids heq)
        have hvalue : (results (ids other)).getD .nil = (results (ids dep)).getD .nil := hvalue
        rw [hnone, hmine] at hvalue
        cases hvalue
      rw [hother, hsame]
  | some each =>
      have hsource : each.source ∈ step.deps := step.source_mem each heach
      have hruns := sample_runsStep flow ids step (fun _ => none) (.atom 1) (ids each.source)
      have hbound := (h _ _ hruns each.source hsource).1
      have hvar : each.var ∉ step.deps := by
        intro hmem
        have hitem := hbound
        have hother := (h _ _ hruns each.var hmem).1
        rw [FlowStep.param_source heach, meant_source heach] at hitem
        rw [FlowStep.param_other heach each.ne, hitem, meant_other heach each.ne] at hother
        cases hother
      refine (aligned_mapped heach).mpr ⟨Flow.dependencies_eq ?_, hvar⟩
      by_contra hshift
      have hne : step.deps.idxOf each.source ≠ step.deps.idxOf each.source + flow.shift step := by omega
      rw [hruns.bound hsource fun other ho => FlowStep.param_injective heach hvar hsource ho, hruns.args_mapped heach,
        List.getElem?_set_ne hne, List.getElem?_map, meant_source heach] at hbound
      obtain ⟨other, -, hvalue⟩ := Option.map_eq_some_iff.mp hbound
      cases hvalue

theorem Aligned.same {barriers : List N} (ha : Aligned flow step) (ha' : Aligned { flow with barriers } step)
    (hu : Undeclared step) {s' : Run} {t' : TaskId} (h : RunsStep flow ids step (s.node t))
    (h' : RunsStep { flow with barriers } ids step (s'.node t')) (hresults : s'.results = s.results)
    (hitem : (s'.node t').eachValue = (s.node t).eachValue) {dep : N} (hdep : dep ∈ step.deps) :
    step.slots (s'.args t') (slotOf step.fnParams (step.param dep)) =
      step.slots (s.args t) (slotOf step.fnParams (step.param dep)) := by
  have hmeant : meant ids step s' t' dep = meant ids step s t dep := by rw [meant, meant, hresults, hitem]
  rw [((ha.binds hu h) dep hdep).2, ((ha'.binds hu h') dep hdep).2, hmeant]

end aligned

/-! The tasks of a run of a workflow. -/

section runs

variable {flow : Flow N} {ids : N → TaskId}

/-- The node of the task of a step, or of an instance. -/
def OfStep (flow : Flow N) (ids : N → TaskId) (node : TaskNode) : Prop :=
  ∃ step ∈ flow.forward, node.dependencies = (flow.dependencies step).map ids ∧
    (node.eachIndex = none ∧ node.eachSource = (step.each.map fun each => ids each.source) ∨
      node.eachSource = none ∧ RunsStep flow ids step node)

theorem ofStep_same {node node' : TaskNode} (h : node.Same node') (hn : OfStep flow ids node) : OfStep flow ids node' := by
  obtain ⟨step, hstep, hdeps, hplain | ⟨hsource, hruns⟩⟩ := hn
  · refine ⟨step, hstep, ?_, .inl ?_⟩
    · rw [h]
      exact hdeps
    · rw [h]
      exact hplain
  · refine ⟨step, hstep, ?_, .inr ⟨?_, ?_, ?_, ?_⟩⟩
    · rw [h]
      exact hdeps
    · rw [h]
      exact hsource
    · rw [h]
      exact hruns.dependencies
    · rw [h]
      exact hruns.mapped
    · rw [h]
      exact hruns.place

theorem ofStep_instance (hids : Function.Injective ids) {node : TaskNode} (hn : OfStep flow ids node) {source : TaskId}
    (hsource : node.eachSource = some source) (hmem : source ∈ node.dependencies) (index : Nat) (item : Value) :
    OfStep flow ids (Run.instanceNode node (node.dependencies.idxOf source) index item) := by
  obtain ⟨step, hstep, hdeps, ⟨-, heach⟩ | ⟨hnone, -⟩⟩ := hn
  · rw [hsource] at heach
    obtain ⟨each, hsome, rfl⟩ := Option.map_eq_some_iff.mp heach.symm
    have hin : each.source ∈ flow.dependencies step := (flow.deps_prefix step).subset (step.source_mem each hsome)
    refine ⟨step, hstep, hdeps, .inr ⟨rfl, hdeps, ?_, fun each' heach' => ?_⟩⟩
    · rw [hsome]
      rfl
    · have hsame : each' = each := Option.some.inj (heach'.symm.trans hsome)
      have hindex : node.dependencies.idxOf (ids each.source) = (flow.dependencies step).idxOf each.source := by
        rw [hdeps, idxOf_map hin fun other _ h => hids h]
      rw [hsame]
      exact hindex
  · rw [hnone] at hsource
    cases hsource

/-- Whatever happens in a run of a workflow, its tasks but for the mapped ones run the bodies of its steps. -/
theorem runsStep_of_run (hids : Function.Injective ids) {node : TaskId → TaskNode} {tasks : List TaskId}
    (hgraph : ∀ t ∈ tasks, ∃ step ∈ flow.forward, ∃ options, node t = flow.taskNode ids step options)
    (workers : Bool) (acts : List Act) :
    ∀ t ∈ ((Run.fresh node tasks workers true).run acts).tasks,
      ¬ (((Run.fresh node tasks workers true).run acts).node t).Mapped →
      ∃ step ∈ flow.forward, RunsStep flow ids step (((Run.fresh node tasks workers true).run acts).node t) := by
  have hstart : (Run.fresh node tasks workers true).Shaped fun _ node => OfStep flow ids node := by
    refine ⟨fun t ht => ?_, fun thread frame hframe t ht => ?_⟩
    · obtain ⟨step, hstep, options, hnode⟩ := hgraph t ht
      have hfresh : (Run.fresh node tasks workers true).node t = flow.taskNode ids step options := hnode
      rw [hfresh]
      exact ⟨step, hstep, rfl, .inl ⟨rfl, rfl⟩⟩
    · have hframe : frame ∈ if thread = 0 then [({} : Frame)] else [] := hframe
      split at hframe
      · rw [List.mem_singleton.mp hframe] at ht
        cases ht
      · cases hframe
  have hshaped := hstart.run (fun _ _ _ hsame h => ofStep_same hsame h)
    (fun _ _ _ h hsource hmem index item => ofStep_instance hids h hsource hmem index item) acts
  intro t ht hmapped
  obtain ⟨step, hstep, hdeps, ⟨hindex, hsource⟩ | ⟨-, hruns⟩⟩ := hshaped.tasks t ht
  · have hnone : step.each = none := by
      cases heach : step.each with
      | none => rfl
      | some each =>
          rw [heach] at hsource
          exact absurd ⟨hsource ▸ Option.some_ne_none _, hindex⟩ hmapped
    refine ⟨step, hstep, hdeps, ?_, fun each heach => ?_⟩
    · rw [hindex, hnone]
      rfl
    · rw [hnone] at heach
      cases heach
  · exact ⟨step, hstep, hruns⟩

end runs

/-- The bodies a run of a workflow starts are those of its steps. The parameters of a step are always bound to what they
are to be bound to if and only if its arguments are aligned and its body declares none of them again; then the body reads
the same through them with other barriers. -/
theorem parameters_bound (flow : Flow N) {ids : N → TaskId} (hids : Function.Injective ids) :
    (∀ (node : TaskId → TaskNode) (tasks : List TaskId) (workers : Bool) (acts : List Act),
      (∀ t ∈ tasks, ∃ step ∈ flow.forward, ∃ options, node t = flow.taskNode ids step options) →
      ∀ t ∈ ((Run.fresh node tasks workers true).run acts).tasks,
        ¬ (((Run.fresh node tasks workers true).run acts).node t).Mapped →
        ∃ step ∈ flow.forward, RunsStep flow ids step (((Run.fresh node tasks workers true).run acts).node t)) ∧
    ∀ step : FlowStep N,
      ((∀ (s : Run) (t : TaskId), RunsStep flow ids step (s.node t) → Binds ids step s t) ↔
        Aligned flow step ∧ Undeclared step) ∧
      (Aligned flow step ∧ Undeclared step → ∀ barriers, Aligned { flow with barriers } step →
        ∀ (s s' : Run) (t t' : TaskId), RunsStep flow ids step (s.node t) →
        RunsStep { flow with barriers } ids step (s'.node t') → s'.results = s.results →
        (s'.node t').eachValue = (s.node t).eachValue → ∀ dep ∈ step.deps,
          step.slots (s'.args t') (slotOf step.fnParams (step.param dep)) =
            step.slots (s.args t) (slotOf step.fnParams (step.param dep))) :=
  ⟨fun _ _ workers acts hgraph => runsStep_of_run hids hgraph workers acts, fun _ =>
    ⟨⟨fun h => ⟨aligned_of_binds hids h, undeclared_of_binds h⟩, fun ha _ _ h => ha.1.binds ha.2 h⟩,
      fun ha _ ha' _ _ _ _ h h' hresults hitem _ hdep => ha.1.same ha' ha.2 h h' hresults hitem hdep⟩⟩

/-! A barrier. -/

def stepId (name : Nat) : TaskId := ⟨name, none⟩

theorem stepId_injective : Function.Injective stepId := fun _ _ h => congrArg TaskId.task h

/-- Step 2 runs after step 0 and reads cell 0, which step 1 writes. -/
def report : FlowStep Nat where
  name := 2
  deps := [0]
  reads := [0]

def audit (barriers : List Nat) : Flow Nat where
  steps := [{ name := 0 }, { name := 1, writes := [0] }, report]
  barriers

theorem report_bound : Aligned (audit []) report ∧ Undeclared report ∧
    ∀ (s : Run) (t : TaskId), RunsStep (audit []) stepId report (s.node t) → Binds stepId report s t := by
  have haligned : Aligned (audit []) report ∧ Undeclared report := by
    refine ⟨(aligned_plain rfl).mpr (by decide), by decide⟩
  exact ⟨haligned.1, haligned.2, (((parameters_bound (audit []) stepId_injective).2 report).1).mpr haligned⟩

/-- The tasks of a flow whose steps have no options. -/
def Flow.start (flow : Flow Nat) : Run :=
  .fresh (fun t => ((flow.forward.find? (·.name = t.task)).map fun step => flow.taskNode stepId step {}).getD {})
    (flow.forward.map fun step => stepId step.name) false true

/-- Steps 0 and 1 have returned. -/
def auditRun (barriers : List Nat) : Run :=
  (audit barriers).start.run [.turn 0 false, .turn 0 false, .turn 0 false, .turn 0 false, .ends 0 0 (.returned (.atom 10)) false,
    .turn 0 false, .turn 0 false, .ends 0 1 (.returned (.atom 20)) false, .turn 0 false, .turn 0 false]

/-- If the cell is a barrier, step 2 is given what step 1 has returned for what step 0 has returned. -/
theorem barrier_shifts :
    ¬ ∀ (flow : Flow Nat) (acts : List Act), ∀ step ∈ flow.forward, stepId step.name ∈ (flow.start.run acts).starts →
      Binds stepId step (flow.start.run acts) (stepId step.name) := by
  intro h
  have hforward : report ∈ (audit [0]).forward := by simp [audit, Flow.forward, report]
  have hstarted : stepId report.name ∈ (auditRun [0]).starts := by decide
  have hbound := (h (audit [0]) _ report hforward hstarted 0 (by decide)).1
  have hgiven : storeArgs report.fnParams ((auditRun [0]).args (stepId 2)) 0 = some (.atom 20) := by decide
  exact absurd (hgiven.symm.trans hbound) (by decide)

end Nodus.Orchestration
