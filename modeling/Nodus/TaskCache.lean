import Mathlib.Data.List.Sort
import Mathlib.Logic.Function.Basic

/-! The cache of step results of a VM, which outlives the runs of its graphs. A step is looked up under a key of the arguments that it is
about to be called with, and its result is stored under a key that is made again of the results of its dependencies. -/

namespace Nodus.TaskCache

/-- The key of a map. -/
inductive MapKey where
  | str (s : String)
  | int (i : Int)
  | float (text : String)
  | bool (b : Bool)
  deriving DecidableEq, Repr

/-- `str(k)`. -/
def MapKey.text : MapKey → String
  | .str s => s
  | .int i => toString i
  | .float text => text
  | .bool b => if b then "True" else "False"

/-- A value of a program. A float is given by its text; `other` is a record, a function or anything else that has an identity, with
its `repr`. -/
inductive Value where
  | none
  | bool (b : Bool)
  | int (i : Int)
  | float (text : String)
  | str (s : String)
  | list (items : List Value)
  | dict (entries : List (MapKey × Value))
  | dataclass (name : String) (fields : List (String × Value))
  | other (id : Nat) (repr : String)

inductive Json where
  | null
  | bool (b : Bool)
  | int (i : Int)
  | float (text : String)
  | str (s : String)
  | arr (items : List Json)
  | obj (entries : List (String × Json))

/-- `d[key] = v`. -/
def assign (key : String) (v : Json) : List (String × Json) → List (String × Json)
  | [] => [(key, v)]
  | e :: rest => if e.1 = key then (key, v) :: rest else e :: assign key v rest

/-- A dict as it is written, with its keys sorted. -/
def Json.dict (entries : List (String × Json)) : Json :=
  .obj ((entries.foldl (fun done e => assign e.1 e.2 done) []).mergeSort fun a b => decide (a.1 ≤ b.1))

mutual

/-- `_serialize_value`. -/
def serialize : Value → Json
  | .none => .null
  | .bool b => .bool b
  | .int i => .int i
  | .float text => .float text
  | .str s => .str s
  | .list items => .arr (serializeAll items)
  | .dict entries => .dict (serializeEntries entries)
  | .dataclass name fields => .dict (("__dataclass__", .str name) :: serializeFields fields)
  | .other _ repr => .str repr

def serializeAll : List Value → List Json
  | [] => []
  | v :: rest => serialize v :: serializeAll rest

def serializeEntries : List (MapKey × Value) → List (String × Json)
  | [] => []
  | (k, v) :: rest => (k.text, serialize v) :: serializeEntries rest

def serializeFields : List (String × Value) → List (String × Json)
  | [] => []
  | (name, v) :: rest => (name, serialize v) :: serializeFields rest

end

abbrev TaskId := Nat

abbrev Key := String

/-- The function of a step. Closures of one function share its name, and so may functions of different modules. -/
structure StepFn where
  id : Nat
  typeName : String
  name : Option String
  deriving DecidableEq, Repr

/-- What the cache reads of a task. An instance of a mapped step has the slot that its item takes. -/
structure Task where
  fn : StepFn
  dependencies : List TaskId
  each : Option (Nat × Value) := none
  cache : Bool := true
  cacheKey : Option Key := none

abbrev Results := TaskId → Option Value

/-- What a step is called with: a dependency that has no result gives `nil`. -/
def arguments (results : Results) (task : Task) : List Value :=
  let args := task.dependencies.map fun d => (results d).getD .none
  match task.each with
  | some (slot, item) => if slot < args.length then args.set slot item else args
  | none => args

section

variable (digest : Json → Key)

/-- `_default_cache_key`. -/
def defaultCacheKey (task : Task) (values : List Value) : Key :=
  digest (.obj [("deps", .arr (serializeAll values)), ("fn", .str task.fn.typeName),
    ("fn_name", match task.fn.name with | some name => .str name | none => .null)])

/-- A `cache_key` that is set; the empty string is none. -/
def Task.explicitKey (task : Task) : Option Key := task.cacheKey.filter fun key => decide (key ≠ "")

/-- The key that a step is looked up under. -/
def lookupKey (task : Task) (args : List Value) : Key := task.explicitKey.getD (defaultCacheKey digest task args)

/-- The key that the result of a step is stored under, where `none` is a `KeyError`: a dependency has no result. -/
def storeKey (results : Results) (task : Task) : Option Key :=
  match task.explicitKey with
  | some key => some key
  | none => (task.dependencies.mapM results).map (defaultCacheKey digest task)

/-! ### The runs on one VM -/

/-- A step that has been started. -/
structure Execution where
  id : TaskId
  task : Task
  args : List Value

/-- A step function has returned a value for its arguments. -/
structure Return where
  fn : StepFn
  args : List Value
  value : Value

/-- A step that the cache has answered, with all that had been returned by then. -/
structure Answer where
  task : Task
  args : List Value
  value : Value
  earlier : List Return

/-- A result was stored, or the store raised. -/
structure Store where
  execution : Execution
  key : Option Key

/-- A VM, with what has been returned, answered and stored on it. -/
structure Vm where
  taskCache : Key → Option Value := fun _ => none
  results : Results := fun _ => none
  running : List Execution := []
  returned : List Return := []
  answers : List Answer := []
  stores : List Store := []

/-- Anything may come between the steps: other steps, a resumed run, the run of another graph. -/
inductive Event where
  | others (results : Results)
  | spawn (id : TaskId) (task : Task)
  | finish (i : Nat) (value : Value)

namespace Vm

/-- What the cache has for a step. -/
def hit (st : Vm) (task : Task) : Option Value :=
  if task.cache then st.taskCache (lookupKey digest task (arguments st.results task)) else none

/-- `spawn_task`: the step is answered or started. -/
def spawn (st : Vm) (id : TaskId) (task : Task) : Vm :=
  match st.hit digest task with
  | some value =>
      { st with
        results := Function.update st.results id (some value)
        answers := ⟨task, arguments st.results task, value, st.returned⟩ :: st.answers }
  | none => { st with running := st.running ++ [⟨id, task, arguments st.results task⟩] }

/-- A step returns; its result is set, and stored where the step is cached. -/
def finish (st : Vm) (i : Nat) (value : Value) : Vm :=
  match st.running[i]? with
  | none => st
  | some e =>
      let st := { st with
        running := st.running.eraseIdx i
        results := Function.update st.results e.id (some value)
        returned := ⟨e.task.fn, e.args, value⟩ :: st.returned }
      if e.task.cache then
        match storeKey digest st.results e.task with
        | some key => { st with taskCache := Function.update st.taskCache key (some value), stores := ⟨e, some key⟩ :: st.stores }
        | none => { st with stores := ⟨e, none⟩ :: st.stores }
      else st

def step (st : Vm) : Event → Vm
  | .others results => { st with results }
  | .spawn id task => st.spawn digest id task
  | .finish i value => st.finish digest i value

def run (st : Vm) (events : List Event) : Vm := events.foldl (step digest) st

/-- Every answer without a `cache_key` is a value that the same function returned earlier for the same arguments, and every result has
been stored under the key of its lookup. -/
structure Sound (st : Vm) : Prop where
  answers : ∀ a ∈ st.answers, a.task.explicitKey = none → ⟨a.task.fn, a.args, a.value⟩ ∈ a.earlier
  stores : ∀ s ∈ st.stores, s.key = some (lookupKey digest s.execution.task s.execution.args)

/-- A lookup without a `cache_key` comes upon no store of another function or of other arguments, and where a step without one ends,
its dependencies have results that are written as its arguments. -/
def Meets (st : Vm) : Event → Prop
  | .others _ => True
  | .spawn _ task => task.cache → task.explicitKey = none →
      ∀ s ∈ st.stores, s.key = some (lookupKey digest task (arguments st.results task)) →
        s.execution.task.fn = task.fn ∧ s.execution.args = arguments st.results task
  | .finish i value => ∀ e, st.running[i]? = some e → e.task.cache → e.task.explicitKey = none →
      ∃ values, e.task.dependencies.mapM (Function.update st.results e.id (some value)) = some values ∧
        serializeAll values = serializeAll e.args

def MeetsAll (st : Vm) : List Event → Prop
  | [] => True
  | event :: events => st.Meets digest event ∧ (st.step digest event).MeetsAll events

end Vm

end

section

variable {digest : Json → Key}

theorem storeKey_eq_lookupKey {results : Results} {task : Task} {args values : List Value} (hvalues : task.dependencies.mapM results = some values)
    (hsame : serializeAll values = serializeAll args) : storeKey digest results task = some (lookupKey digest task args) := by
  rw [storeKey, lookupKey]
  cases task.explicitKey with
  | some key => rfl
  | none => simp [hvalues, defaultCacheKey, hsame]

namespace Vm

variable {st : Vm}

/-- What is cached has been stored under its key, and was returned for the arguments of the store. -/
structure Backed (st : Vm) : Prop where
  cached : ∀ key value, st.taskCache key = some value →
    ∃ s ∈ st.stores, s.key = some key ∧ ⟨s.execution.task.fn, s.execution.args, value⟩ ∈ st.returned

theorem spawn_sound {id : TaskId} {task : Task} (hback : st.Backed) (hsound : st.Sound digest) (hmeets : st.Meets digest (.spawn id task)) :
    (st.spawn digest id task).Backed ∧ (st.spawn digest id task).Sound digest := by
  rw [spawn]
  cases hhit : st.hit digest task with
  | none => exact ⟨⟨hback.cached⟩, hsound.answers, hsound.stores⟩
  | some value =>
      refine ⟨⟨hback.cached⟩, fun a ha hkey => ?_, hsound.stores⟩
      rcases List.mem_cons.mp ha with rfl | ha
      · -- The value has been stored under the key of this lookup, by an execution of the same function with the same arguments.
        have hcache : task.cache = true := by
          by_contra hno
          rw [hit, if_neg hno] at hhit
          cases hhit
        rw [hit, if_pos hcache] at hhit
        obtain ⟨s, hs, hskey, hreturned⟩ := hback.cached _ _ hhit
        obtain ⟨hfn, hargs⟩ := hmeets hcache hkey s hs hskey
        rw [hfn, hargs] at hreturned
        exact hreturned
      · exact hsound.answers a ha hkey

theorem finish_sound {i : Nat} {value : Value} (hback : st.Backed) (hsound : st.Sound digest) (hmeets : st.Meets digest (.finish i value)) :
    (st.finish digest i value).Backed ∧ (st.finish digest i value).Sound digest := by
  unfold finish
  split
  · exact ⟨hback, hsound⟩
  · next e hrunning =>
      have hkept : ∀ key v, st.taskCache key = some v → ∃ s ∈ st.stores, s.key = some key ∧
          ⟨s.execution.task.fn, s.execution.args, v⟩ ∈ (⟨e.task.fn, e.args, value⟩ :: st.returned : List Return) := by
        intro key v hv
        obtain ⟨s, hs, hkey, hreturned⟩ := hback.cached key v hv
        exact ⟨s, hs, hkey, List.mem_cons_of_mem _ hreturned⟩
      by_cases hcache : e.task.cache
      · have hkey : storeKey digest (Function.update st.results e.id (some value)) e.task = some (lookupKey digest e.task e.args) := by
          cases hexplicit : e.task.explicitKey with
          | some key => simp [storeKey, lookupKey, hexplicit]
          | none =>
              obtain ⟨values, hvalues, hsame⟩ := hmeets e hrunning hcache hexplicit
              exact storeKey_eq_lookupKey hvalues hsame
        simp only [if_pos hcache, hkey]
        refine ⟨⟨fun key v hv => ?_⟩, hsound.answers, fun s hs => ?_⟩
        · by_cases hk : key = lookupKey digest e.task e.args
          · subst hk
            obtain rfl : value = v := by simpa using hv
            exact ⟨_, List.mem_cons_self, rfl, List.mem_cons_self⟩
          · obtain ⟨s, hs, hskey, hreturned⟩ := hkept key v (by simpa [hk] using hv)
            exact ⟨s, List.mem_cons_of_mem _ hs, hskey, hreturned⟩
        · rcases List.mem_cons.mp hs with rfl | hs
          · rfl
          · exact hsound.stores s hs
      · simp only [if_neg hcache]
        exact ⟨⟨hkept⟩, hsound.answers, hsound.stores⟩

theorem step_sound (event : Event) (hback : st.Backed) (hsound : st.Sound digest) (hmeets : st.Meets digest event) :
    (st.step digest event).Backed ∧ (st.step digest event).Sound digest := by
  cases event with
  | others results => exact ⟨⟨hback.cached⟩, hsound.answers, hsound.stores⟩
  | spawn id task => exact spawn_sound hback hsound hmeets
  | finish i value => exact finish_sound hback hsound hmeets

theorem run_sound (events : List Event) (hback : st.Backed) (hsound : st.Sound digest) (hmeets : st.MeetsAll digest events) :
    (st.run digest events).Sound digest := by
  induction events generalizing st with
  | nil => exact hsound
  | cons event events ih =>
      obtain ⟨hback', hsound'⟩ := step_sound event hback hsound hmeets.1
      exact ih hback' hsound' hmeets.2

def double : StepFn := ⟨0, "FunctionInfo", some "double"⟩

/-- A step, another that takes its result, and the same again. -/
def doubled : List Event :=
  [.spawn 1 { fn := double, dependencies := [] }, .finish 0 (.int 1), .spawn 2 { fn := double, dependencies := [1] }, .finish 0 (.int 2)]

/-- A digest that tells the two apart. -/
def countDeps : Json → Key
  | .obj ((_, .arr values) :: _) => toString values.length
  | _ => ""

/-- After a step that failed, one that tolerates it. -/
def afterFailure : List Event := [.spawn 2 { fn := double, dependencies := [1] }, .finish 0 (.int 0)]

/-- Two closures of one function, as of a function that returns what was captured. -/
def namesakes : List Event :=
  [.spawn 1 { fn := ⟨0, "FunctionInfo", some "__anon_1"⟩, dependencies := [] }, .finish 0 (.int 1),
    .spawn 2 { fn := ⟨1, "FunctionInfo", some "__anon_1"⟩, dependencies := [] }]

end Vm

end

end Nodus.TaskCache
