import Nodus.Compiler

/-! Compound assignments `t op= e`: how often the parts of the target run, and what is written where. The compiled code of an
expression is run node by node, each node after those whose values it takes. -/

namespace Nodus.CompoundAssignment

/-- What `parse_assignment` makes of `t op= e`. -/
def desugar (op : BinOp) (e : Expr) : Expr → Option Expr
  | .var name => some (.compoundAssign name op e)
  | .index seq idx => some (.indexAssign seq idx (.bin op (.index seq idx) e))
  | .attr obj name => some (.fieldAssign obj name (.bin op (.attr obj name) e))
  | _ => none

/-- The nodes of an expression whose code runs in every execution of it, in that order. An expression that is no variable, index,
field, operator or assignment of these, as a call, is one node with all that is in it. -/
def nodes : Expr → List Expr
  | .index seq idx => nodes seq ++ (nodes idx ++ [.index seq idx])
  | .attr obj name => nodes obj ++ [.attr obj name]
  | .bin op a b => nodes a ++ (nodes b ++ [.bin op a b])
  | .unary op a => nodes a ++ [.unary op a]
  | .indexAssign seq idx value => nodes seq ++ (nodes idx ++ (nodes value ++ [.indexAssign seq idx value]))
  | .fieldAssign obj name value => nodes obj ++ (nodes value ++ [.fieldAssign obj name value])
  | .compoundAssign name op value => .var name :: (nodes value ++ [.bin op (.var name) value, .compoundAssign name op value])
  | e => [e]

/-- The nodes of the sub-expressions of a target. -/
def parts : Expr → List Expr
  | .index seq idx => nodes seq ++ nodes idx
  | .attr obj _ => nodes obj
  | _ => []

/-! ### The compiled code -/

/-- A store, and the load that leaves the value on the stack. -/
inductive StoreLoad : Instr → Instr → Prop
  | upvalue (i : Option Nat) : StoreLoad (.storeUpvalue i) (.loadUpvalue i)
  | slot (i : Nat) : StoreLoad (.storeLocalIdx i) (.loadLocalIdx i)
  | name (n : Name) : StoreLoad (.store n) (.load n)

/-- The code of a node of its own. A field of an imported module is loaded by one instruction, without its module. -/
inductive Emits : Expr → Compiler → Compiler → Prop
  | index (seq idx : Expr) (c : Compiler) : Emits (.index seq idx) c (c.emit (.data .index))
  | attr (obj : Expr) (name : Name) (c : Compiler) : Emits (.attr obj name) c (c.emit (.data (.loadField name)))
  | bin (op : BinOp) (a b : Expr) (c : Compiler) : Emits (.bin op a b) c (c.emit (.data (.binary op)))
  | unary (op : UnaryOp) (a : Expr) (c : Compiler) :
      Emits (.unary op a) c (c.emit (.data (match op with | .bang => .not | .minus => .neg)))
  | indexAssign (seq idx value : Expr) (c : Compiler) : Emits (.indexAssign seq idx value) c (c.emit (.data .indexSet))
  | fieldAssign (obj : Expr) (name : Name) (value : Expr) (c : Compiler) :
      Emits (.fieldAssign obj name value) c (c.emit (.data (.storeField name)))
  | compoundAssign (name : Name) (op : BinOp) (value : Expr) {c c' : Compiler} {store load : Instr} : StoreLoad store load →
      c'.code = c.code ++ [store, load] → Emits (.compoundAssign name op value) c c'
  | whole {e : Expr} {c c' : Compiler} : nodes e = [e] → Compiler.compileExpr e c = .ok c' → Emits e c c'
  | module (aliasName : Name) {c : Compiler} : (c.moduleAliases.lookup aliasName).isSome → Emits (.var aliasName) c c
  | member (aliasName name : Name) {c : Compiler} {resolved : Name} : c.resolveModuleName aliasName name = .ok resolved →
      Emits (.attr (.var aliasName) name) c (c.emit (.load resolved))

/-- The code of nodes, one after the other. A name that is assigned may be defined before. -/
inductive Compiles : List Expr → Compiler → Compiler → Prop
  | nil (c : Compiler) : Compiles [] c c
  | cons {e : Expr} {es : List Expr} {c c₁ c' : Compiler} : Emits e c c₁ → Compiles es c₁ c' → Compiles (e :: es) c c'
  | define {es : List Expr} {c c' : Compiler} (name : Name) : Compiles es (c.assignTarget name).2 c' → Compiles es c c'

theorem Compiles.append {es es' : List Expr} {c c₁ c' : Compiler} (h : Compiles es c c₁) (h' : Compiles es' c₁ c') :
    Compiles (es ++ es') c c' := by
  induction h with
  | nil => exact h'
  | cons he _ ih => exact .cons he (ih h')
  | define name _ ih => exact .define name (ih h')

theorem Compiles.one {e : Expr} {c c' : Compiler} (h : Emits e c c') : Compiles [e] c c' := .cons h (.nil c')

section

open Compiler

variable {c c' : Compiler}

theorem compiles_attr {obj : Expr} {name : Name} (ih : ∀ {c c'}, compileExpr obj c = .ok c' → Compiles (nodes obj) c c')
    (h : compileExpr (.attr obj name) c = .ok c') : Compiles (nodes obj ++ [.attr obj name]) c c' := by
  have hplain : ∀ c', (do let c ← compileExpr obj c; pure (c.emit (.data (.loadField name)))) = .ok c' →
      Compiles (nodes obj ++ [.attr obj name]) c c' := by
    intro c' h
    obtain ⟨c₁, hobj, hok⟩ := bind_ok h
    obtain rfl := Except.ok.inj hok
    exact (ih hobj).append (.one (.attr ..))
  by_cases hvar : ∃ aliasName, obj = .var aliasName
  · obtain ⟨aliasName, rfl⟩ := hvar
    rw [compileExpr] at h
    split at h
    · rename_i halias
      obtain ⟨resolved, hresolved, hok⟩ := bind_ok h
      obtain rfl := Except.ok.inj hok
      exact .cons (.module aliasName halias) (.one (.member aliasName name hresolved))
    · exact hplain c' h
  · rw [compileExpr] at h
    · exact hplain c' h
    · exact fun aliasName hobj => hvar ⟨aliasName, hobj⟩

theorem compiles_compound {name : Name} {op : BinOp} {value : Expr}
    (ih : ∀ {c c'}, compileExpr value c = .ok c' → Compiles (nodes value) c c')
    (h : compileExpr (.compoundAssign name op value) c = .ok c') :
    Compiles (.var name :: (nodes value ++ [.bin op (.var name) value, .compoundAssign name op value])) c c' := by
  rw [compileExpr, compileAssign] at h
  obtain ⟨c₃, hvalue, hstore⟩ := bind_ok h
  obtain ⟨c₁, hvar, hrest⟩ := bind_ok hvalue
  obtain ⟨c₂, hbody, hbin⟩ := bind_ok hrest
  obtain rfl := Except.ok.inj hbin
  refine .define name (.cons (.whole rfl ?_) ((ih hbody).append (.cons (.bin ..) (.one ?_))))
  · rw [compileExpr]
    exact hvar
  · -- Whatever the name resolves to, one store and one load follow the value.
    have hpair : ∀ {store load : Instr} (d : Compiler), StoreLoad store load → Quiet (c₂.emit (.data (.binary op))) d →
        Emits (.compoundAssign name op value) (c₂.emit (.data (.binary op))) ((d.emit store).emit load) := by
      intro store load d hpair hquiet
      refine .compoundAssign name op value hpair ?_
      simp [hquiet.code]
    have hresolve := quiet_resolveNameIn (c₂.emit (.data (.binary op))) name fun info => [info.qualified]
    simp only [raiseSyntax] at hstore
    repeat' split at hstore
    all_goals cases hstore
    · exact hpair _ (.upvalue _) (.refl _)
    · exact hpair _ (.slot _) hresolve
    · exact hpair _ (.name _) hresolve
    · exact hpair _ (.name _) hresolve

theorem compiles (e : Expr) (h : Compiler.compileExpr e c = .ok c') : Compiles (nodes e) c c' := by
  fun_induction nodes e generalizing c c' with
  | case1 seq idx ihs ihi =>
      rw [compileExpr] at h
      obtain ⟨c₁, hseq, hrest⟩ := bind_ok h
      obtain ⟨c₂, hidx, hok⟩ := bind_ok hrest
      obtain rfl := Except.ok.inj hok
      exact (ihs hseq).append ((ihi hidx).append (.one (.index ..)))
  | case2 obj name ih => exact compiles_attr ih h
  | case3 op a b iha ihb =>
      simp only [compileExpr] at h
      obtain ⟨c₁, ha, hrest⟩ := bind_ok h
      obtain ⟨c₂, hb, hok⟩ := bind_ok hrest
      obtain rfl := Except.ok.inj hok
      exact (iha ha).append ((ihb hb).append (.one (.bin ..)))
  | case4 op a ih =>
      simp only [compileExpr] at h
      obtain ⟨c₁, ha, hok⟩ := bind_ok h
      obtain rfl := Except.ok.inj hok
      exact (ih ha).append (.one (.unary ..))
  | case5 seq idx value ihs ihi ihv =>
      simp only [compileExpr] at h
      obtain ⟨c₁, hseq, hrest⟩ := bind_ok h
      obtain ⟨c₂, hidx, hrest⟩ := bind_ok hrest
      obtain ⟨c₃, hvalue, hok⟩ := bind_ok hrest
      obtain rfl := Except.ok.inj hok
      exact (ihs hseq).append ((ihi hidx).append ((ihv hvalue).append (.one (.indexAssign ..))))
  | case6 obj name value iho ihv =>
      simp only [compileExpr] at h
      obtain ⟨c₁, hobj, hrest⟩ := bind_ok h
      obtain ⟨c₂, hvalue, hok⟩ := bind_ok hrest
      obtain rfl := Except.ok.inj hok
      exact (iho hobj).append ((ihv hvalue).append (.one (.fieldAssign ..)))
  | case7 name op value ih => exact compiles_compound ih h
  | case8 e h₁ h₂ h₃ h₄ h₅ h₆ h₇ => exact .one (.whole (by rw [nodes] <;> assumption) h)

end

/-! ### Execution -/

variable {V M : Type}

/-- What the instructions do with values and the memory, where `none` is that they raise. A write gives the value that it leaves on
the stack. -/
structure Meaning (V M : Type) where
  load : Name → M → Option V
  store : Name → V → M → Option (V × M)
  readIndex : V → V → M → Option V
  writeIndex : V → V → V → M → Option (V × M)
  readField : Name → V → M → Option V
  writeField : Name → V → V → M → Option (V × M)
  binary : BinOp → V → V → M → Option V
  unary : UnaryOp → V → M → Option V
  /-- Any other expression, with what it calls. -/
  whole : Expr → M → Option (V × M)

/-- The memory, the operand stack and the nodes that have been evaluated. -/
structure Running (V M : Type) where
  memory : M
  stack : List V := []
  evaluated : List Expr := []

namespace Meaning

variable (sem : Meaning V M)

/-- What the code of a node leaves of the memory and the stack. -/
def act (m : M) : Expr → List V → Option (M × List V)
  | .var name, stack => (sem.load name m).map fun v => (m, v :: stack)
  | .index _ _, idx :: seq :: stack => (sem.readIndex seq idx m).map fun v => (m, v :: stack)
  | .attr _ name, obj :: stack => (sem.readField name obj m).map fun v => (m, v :: stack)
  | .bin op _ _, b :: a :: stack => (sem.binary op a b m).map fun v => (m, v :: stack)
  | .unary op _, a :: stack => (sem.unary op a m).map fun v => (m, v :: stack)
  | .indexAssign _ _ _, value :: idx :: seq :: stack => (sem.writeIndex seq idx value m).map fun r => (r.2, r.1 :: stack)
  | .fieldAssign _ name _, value :: obj :: stack => (sem.writeField name obj value m).map fun r => (r.2, r.1 :: stack)
  | .compoundAssign name _ _, value :: stack => (sem.store name value m).map fun r => (r.2, r.1 :: stack)
  | .index _ _, _ | .attr _ _, _ | .bin _ _ _, _ | .unary _ _, _ | .indexAssign _ _ _, _ | .fieldAssign _ _ _, _
  | .compoundAssign _ _ _, _ => none
  | e, stack => (sem.whole e m).map fun r => (r.2, r.1 :: stack)

def step (st : Running V M) (e : Expr) : Option (Running V M) :=
  (sem.act st.memory e st.stack).map fun (m, stack) => ⟨m, stack, st.evaluated ++ [e]⟩

/-- The code of nodes is run in order. -/
def run (es : List Expr) (st : Running V M) : Option (Running V M) := es.foldlM sem.step st

/-- The value of an expression, and the memory after it. -/
def eval : Expr → M → Option (V × M)
  | .var name, m => (sem.load name m).map fun v => (v, m)
  | .index seq idx, m => do
      let (s, m) ← eval seq m
      let (i, m) ← eval idx m
      (sem.readIndex s i m).map fun v => (v, m)
  | .attr obj name, m => do
      let (o, m) ← eval obj m
      (sem.readField name o m).map fun v => (v, m)
  | .bin op a b, m => do
      let (x, m) ← eval a m
      let (y, m) ← eval b m
      (sem.binary op x y m).map fun v => (v, m)
  | .unary op a, m => do
      let (x, m) ← eval a m
      (sem.unary op x m).map fun v => (v, m)
  | .indexAssign seq idx value, m => do
      let (s, m) ← eval seq m
      let (i, m) ← eval idx m
      let (v, m) ← eval value m
      sem.writeIndex s i v m
  | .fieldAssign obj name value, m => do
      let (o, m) ← eval obj m
      let (v, m) ← eval value m
      sem.writeField name o v m
  | .compoundAssign name op value, m => do
      let old ← sem.load name m
      let (v, m) ← eval value m
      let new ← sem.binary op old v m
      sem.store name new m
  | e, m => sem.whole e m

section

variable {sem}

theorem run_append (es es' : List Expr) (st : Running V M) : sem.run (es ++ es') st = (sem.run es st).bind (sem.run es') :=
  List.foldlM_append ..

theorem run_cons (e : Expr) (es : List Expr) (st : Running V M) : sem.run (e :: es) st = (sem.step st e).bind (sem.run es) :=
  List.foldlM_cons ..

theorem run_one (e : Expr) (st : Running V M) : sem.run [e] st = sem.step st e := by
  rw [run_cons]
  exact Option.bind_fun_some _

end

/-- Running the code of an expression evaluates each of its nodes once and leaves its value on the stack. -/
theorem run_nodes (e : Expr) (m : M) (stack : List V) (evaluated : List Expr) :
    sem.run (nodes e) ⟨m, stack, evaluated⟩ = (sem.eval e m).map fun r => ⟨r.2, r.1 :: stack, evaluated ++ nodes e⟩ := by
  fun_induction nodes e generalizing m stack evaluated with
  | case1 seq idx ihs ihi =>
      rw [run_append, ihs, eval]
      cases sem.eval seq m with
      | none => rfl
      | some s =>
          simp only [Option.map_some, Option.bind_some, Option.bind_eq_bind]
          rw [run_append, ihi]
          cases sem.eval idx s.2 with
          | none => rfl
          | some i => simp [run_one, step, act, Function.comp_def]
  | case2 obj name ih =>
      rw [run_append, ih, eval]
      cases sem.eval obj m with
      | none => rfl
      | some o => simp [run_one, step, act, Function.comp_def]
  | case3 op a b iha ihb =>
      rw [run_append, iha, eval]
      cases sem.eval a m with
      | none => rfl
      | some x =>
          simp only [Option.map_some, Option.bind_some, Option.bind_eq_bind]
          rw [run_append, ihb]
          cases sem.eval b x.2 with
          | none => rfl
          | some y => simp [run_one, step, act, Function.comp_def]
  | case4 op a ih =>
      rw [run_append, ih, eval]
      cases sem.eval a m with
      | none => rfl
      | some x => simp [run_one, step, act, Function.comp_def]
  | case5 seq idx value ihs ihi ihv =>
      rw [run_append, ihs, eval]
      cases sem.eval seq m with
      | none => rfl
      | some s =>
          simp only [Option.map_some, Option.bind_some, Option.bind_eq_bind]
          rw [run_append, ihi]
          cases sem.eval idx s.2 with
          | none => rfl
          | some i =>
              simp only [Option.map_some, Option.bind_some]
              rw [run_append, ihv]
              cases sem.eval value i.2 with
              | none => rfl
              | some v => simp [run_one, step, act, Function.comp_def]
  | case6 obj name value iho ihv =>
      rw [run_append, iho, eval]
      cases sem.eval obj m with
      | none => rfl
      | some o =>
          simp only [Option.map_some, Option.bind_some, Option.bind_eq_bind]
          rw [run_append, ihv]
          cases sem.eval value o.2 with
          | none => rfl
          | some v => simp [run_one, step, act, Function.comp_def]
  | case7 name op value ih =>
      rw [run_cons, step, act, eval]
      cases sem.load name m with
      | none => rfl
      | some old =>
          simp only [Option.map_some, Option.bind_some, Option.bind_eq_bind]
          rw [run_append, ih]
          cases sem.eval value m with
          | none => rfl
          | some v =>
              simp only [Option.map_some, Option.bind_some]
              rw [run_cons, step, act]
              cases sem.binary op old v.1 v.2 with
              | none => rfl
              | some new => simp [run_one, step, act, Function.comp_def]
  | case8 e h₁ h₂ h₃ h₄ h₅ h₆ h₇ =>
      rw [run_one, step]
      cases e with
      | var name =>
          rw [act, eval, Option.map_map, Option.map_map]
          rfl
      | index => exact (h₁ _ _ rfl).elim
      | attr => exact (h₂ _ _ rfl).elim
      | bin => exact (h₃ _ _ _ rfl).elim
      | unary => exact (h₄ _ _ rfl).elim
      | indexAssign => exact (h₅ _ _ _ rfl).elim
      | fieldAssign => exact (h₆ _ _ _ rfl).elim
      | compoundAssign => exact (h₇ _ _ _ rfl).elim
      | _ => exact Option.map_map ..

end Meaning

/-! ### The target -/

/-- What a target denotes. -/
inductive Place (V : Type) where
  | variable (name : Name)
  | element (seq idx : V)
  | field (obj : V) (name : Name)

namespace Meaning

variable (sem : Meaning V M)

/-- The sub-expressions of a target are evaluated. -/
def locate : Expr → M → Option (Place V × M)
  | .var name, m => some (.variable name, m)
  | .index seq idx, m => do
      let (s, m) ← sem.eval seq m
      let (i, m) ← sem.eval idx m
      return (.element s i, m)
  | .attr obj name, m => do
      let (o, m) ← sem.eval obj m
      return (.field o name, m)
  | _, _ => none

def read (m : M) : Place V → Option V
  | .variable name => sem.load name m
  | .element seq idx => sem.readIndex seq idx m
  | .field obj name => sem.readField name obj m

def write (v : V) (m : M) : Place V → Option (V × M)
  | .variable name => sem.store name v m
  | .element seq idx => sem.writeIndex seq idx v m
  | .field obj name => sem.writeField name obj v m

/-- The place is found once; its old value, the operand, and the new value. -/
def once (t : Expr) (op : BinOp) (e : Expr) (m : M) : Option (V × M) := do
  let (place, m) ← sem.locate t m
  let old ← sem.read m place
  let (v, m) ← sem.eval e m
  let new ← sem.binary op old v m
  sem.write new m place

/-- The place that is written is found first, and the one that is read after it. -/
def twice (t : Expr) (op : BinOp) (e : Expr) (m : M) : Option (V × M) := do
  let (place, m) ← sem.locate t m
  let (source, m) ← sem.locate t m
  let old ← sem.read m source
  let (v, m) ← sem.eval e m
  let new ← sem.binary op old v m
  sem.write new m place

/-- An execution evaluates each sub-expression of the target once, reads the target once and evaluates the operand once, and the
place that the target denotes is updated. -/
def Lawful (t : Expr) (op : BinOp) (e stmt : Expr) : Prop :=
  ∀ m st, sem.run (nodes stmt) { memory := m } = some st →
    st.evaluated.Perm (parts t ++ t :: (nodes e ++ [.bin op t e, stmt])) ∧ (sem.once t op e m).map Prod.snd = some st.memory

theorem eval_variable (name : Name) (op : BinOp) (e : Expr) (m : M) :
    sem.eval (.compoundAssign name op e) m = sem.once (.var name) op e m := rfl

theorem eval_element (seq idx : Expr) (op : BinOp) (e : Expr) (m : M) :
    sem.eval (.indexAssign seq idx (.bin op (.index seq idx) e)) m = sem.twice (.index seq idx) op e m := by
  simp [eval, twice, locate, read, write, Option.bind_assoc, Option.bind_map, Function.comp_def]

theorem eval_field (obj : Expr) (name : Name) (op : BinOp) (e : Expr) (m : M) :
    sem.eval (.fieldAssign obj name (.bin op (.attr obj name) e)) m = sem.twice (.attr obj name) op e m := by
  simp [eval, twice, locate, read, write, Option.bind_assoc, Option.bind_map, Function.comp_def]

/-- Where the target denotes the same place again, and nothing else has come of it, the old value is that of the place. -/
theorem twice_eq_once {t : Expr} {op : BinOp} {e : Expr} {m : M}
    (h : ∀ place m', sem.locate t m = some (place, m') → sem.locate t m' = some (place, m')) : sem.twice t op e m = sem.once t op e m := by
  rw [twice, once]
  cases hplace : sem.locate t m with
  | none => rfl
  | some r => simp [h r.1 r.2 hplace]

end Meaning

/-- A variable is read once, its operand is evaluated once, and it is written. The sub-expressions of an index and of a field are
compiled twice: those of the place that is written run first, those of the place that is read after them, and the operand runs once. -/
theorem compound_assignment (sem : Meaning V M) {t : Expr} {op : BinOp} {e stmt : Expr} (h : desugar op e t = some stmt) :
    (∀ c c', Compiler.compileExpr stmt c = .ok c' → Compiles (nodes stmt) c c') ∧
      (∀ name, t = .var name → ∀ m, sem.run (nodes stmt) { memory := m } =
        (sem.once t op e m).map fun r => ⟨r.2, [r.1], parts t ++ t :: (nodes e ++ [.bin op t e, stmt])⟩) ∧
      ((∀ name, t ≠ .var name) → ∀ m, sem.run (nodes stmt) { memory := m } =
        (sem.twice t op e m).map fun r => ⟨r.2, [r.1], parts t ++ (parts t ++ t :: (nodes e ++ [.bin op t e, stmt]))⟩) ∧
      ∀ m, (∀ place m', sem.locate t m = some (place, m') → sem.locate t m' = some (place, m')) →
        sem.twice t op e m = sem.once t op e m := by
  refine ⟨fun c c' => compiles stmt, ?_, ?_, fun m => sem.twice_eq_once⟩
  · rintro name rfl m
    obtain rfl := Option.some.inj h
    rw [sem.run_nodes, sem.eval_variable]
    simp [nodes, parts]
  · intro hvar m
    cases t with
    | var name => exact absurd rfl (hvar name)
    | index seq idx =>
        obtain rfl := Option.some.inj h
        rw [sem.run_nodes, sem.eval_element]
        simp [nodes, parts]
    | attr obj name =>
        obtain rfl := Option.some.inj h
        rw [sem.run_nodes, sem.eval_field]
        simp [nodes, parts]
    | _ => exact absurd h nofun

/-! ### A target that counts -/

/-- `next()` gives the boxes of a list in turn; the memory is the number of calls and what the boxes hold. -/
def boxes : Meaning Nat (Nat × List Nat) where
  load _ _ := none
  store _ _ _ := none
  readIndex box _ m := m.2[box]?
  writeIndex box _ v m := some (v, (m.1, m.2.set box v))
  readField _ _ _ := none
  writeField _ _ _ _ := none
  binary _ a b _ := some (a + b)
  unary _ _ _ := none
  whole e m := match e with
    | .call _ _ => some (m.1, (m.1 + 1, m.2))
    | .int n => some (n.toNat, m)
    | _ => none

def nextBox : Expr := .call (.var "next") []

/-- `next()[0] += 1`. -/
def bump : Expr := .indexAssign nextBox (.int 0) (.bin .add (.index nextBox (.int 0)) (.int 1))

theorem bump_runs : desugar .add (.int 1) (.index nextBox (.int 0)) = some bump ∧
    boxes.run (nodes bump) { memory := (0, [10, 20]) } = (boxes.twice (.index nextBox (.int 0)) .add (.int 1) (0, [10, 20])).map fun r =>
      ⟨r.2, [r.1], [nextBox, .int 0, nextBox, .int 0, .index nextBox (.int 0), .int 1,
        .bin .add (.index nextBox (.int 0)) (.int 1), bump]⟩ :=
  ⟨rfl, (compound_assignment boxes (show desugar .add (.int 1) (.index nextBox (.int 0)) = some bump from rfl)).2.2.1 nofun (0, [10, 20])⟩

/-- `next` is called twice, and the first box holds one more than the second. -/
theorem bump_not_lawful : desugar .add (.int 1) (.index nextBox (.int 0)) = some bump ∧
    (boxes.run (nodes bump) { memory := (0, [10, 20]) }).map Running.memory = some (2, [21, 20]) ∧
    (boxes.once (.index nextBox (.int 0)) .add (.int 1) (0, [10, 20])).map Prod.snd = some (1, [11, 20]) ∧
    ¬ boxes.Lawful (.index nextBox (.int 0)) .add (.int 1) bump := by
  refine ⟨rfl, rfl, rfl, fun hlawful => ?_⟩
  have hperm := (hlawful (0, [10, 20]) _ rfl).1.length_eq
  exact absurd hperm (by decide)

end Nodus.CompoundAssignment
