import Nodus.Syntax

/-! The instruction set and the function table entries the compiler emits. Opcodes that pop a fixed
number of operands, compute, and push one result are the constructor `data`, one `DataOp` for each;
every other opcode is a constructor of `Instr` under its own name. -/

namespace Nodus

/-- The constants a `PUSH_CONST` can carry: `None`, `bool`, `int`, `float` and `str`. -/
inductive Const where
  | nil
  | bool (b : Bool)
  | int (n : Int)
  | num (f : Float)
  | str (s : String)

/-- Opcodes of the shape "pop the operands, compute, push one result". -/
inductive DataOp where
  /-- `ADD`, `SUB`, `MUL`, `DIV`, `MOD`, `EQ`, `NE`, `LT`, `GT`, `LE`, `GE`. -/
  | binary (op : BinOp)
  | toBool
  | not
  | neg
  | buildList (count : Nat)
  | buildMap (count : Nat)
  | buildRecord (count : Nat)
  | buildModule (count : Nat)
  | index
  | indexSet
  | loadField (name : Name)
  | storeField (name : Name)
  deriving DecidableEq, Repr

/-- How many operands a data opcode pops. -/
def DataOp.arity : DataOp → Nat
  | .binary _ => 2
  | .toBool | .not | .neg => 1
  | .buildList count => count
  | .buildMap count | .buildRecord count | .buildModule count => 2 * count
  | .index => 2
  | .indexSet => 3
  | .loadField _ => 1
  | .storeField _ => 2

/-- A jump operand, `none` until it is patched. -/
abbrev Target := Option Nat

inductive Instr where
  | pushConst (v : Const)
  | frameSize (n : Nat)
  | load (name : Name)
  | loadLocalIdx (slot : Nat)
  | loadUpvalue (index : Option Nat)
  | store (name : Name)
  | storeLocalIdx (slot : Nat)
  | resetLocalIdx (slot : Nat)
  | storeUpvalue (index : Option Nat)
  | storeArg (name : Name)
  | pop
  | data (op : DataOp)
  | jump (target : Target)
  | jumpIfFalse (target : Target)
  | jumpIfTrue (target : Target)
  | getIter
  | iterNext (target : Target)
  /-- `fin` is `none` for a `SETUP_TRY` emitted with one operand. -/
  | setupTry (handler : Target) (fin : Option Target)
  | popTry
  | finallyEnd
  | call (name : Name) (argCount : Nat)
  | callValue (argCount : Nat)
  | makeClosure (name : Name)
  | callMethod (name : Name) (argCount : Nat)
  | throw
  | yield
  | ret
  | halt

/-- A captured variable of a function: a local of the enclosing function, or one of its upvalues. -/
structure Upvalue where
  name : Name
  isLocal : Bool
  index : Option Nat
  deriving DecidableEq, Repr

structure FunctionInfo where
  name : Name
  params : List Name
  addr : Nat
  upvalues : List Upvalue
  displayName : Name
  localSlots : List (Name × Nat) := []
  stepOwner : Option String := none
  paramTypes : List (Option String) := []
  returnType : Option String := none
  deriving DecidableEq, Repr

/-- Assigns a key of an insertion-ordered dictionary: in place if present, else at the end. -/
def dictSet {α : Type} (key : Name) (value : α) : List (Name × α) → List (Name × α)
  | [] => [(key, value)]
  | (k, v) :: rest => if k = key then (k, value) :: rest else (k, v) :: dictSet key value rest

@[simp] theorem lookup_dictSet_self {α : Type} (key : Name) (value : α) (d : List (Name × α)) :
    (dictSet key value d).lookup key = some value := by
  induction d with
  | nil => simp [dictSet]
  | cons p d ih =>
      obtain ⟨k, v⟩ := p
      by_cases h : k = key
      · simp [dictSet, h]
      · have hne : (key == k) = false := by simpa using fun e => h e.symm
        simp [dictSet, h, List.lookup_cons, hne, ih]

theorem lookup_dictSet_of_ne {α : Type} {key key' : Name} (value : α) (d : List (Name × α))
    (hne : key' ≠ key) : (dictSet key value d).lookup key' = d.lookup key' := by
  induction d with
  | nil => simp [dictSet, hne]
  | cons p d ih =>
      obtain ⟨k, v⟩ := p
      by_cases h : k = key
      · subst h
        have hk : (key' == k) = false := by simpa using hne
        simp [dictSet, List.lookup_cons, hk]
      · simp only [dictSet, h, if_false, List.lookup_cons, ih]

/-- How many operands an instruction takes off the stack when it falls through. -/
def Instr.pops : Instr → Nat
  | .store _ | .storeLocalIdx _ | .storeUpvalue _ | .storeArg _ | .pop | .getIter | .iterNext _
  | .jumpIfFalse _ | .jumpIfTrue _ | .throw | .yield | .ret => 1
  | .data op => op.arity
  | .call _ argCount => argCount
  | .callValue argCount | .callMethod _ argCount => argCount + 1
  | _ => 0

/-- How many operands an instruction leaves in their place when it falls through. -/
def Instr.pushes : Instr → Nat
  | .pushConst _ | .load _ | .loadLocalIdx _ | .loadUpvalue _ | .data _ | .getIter | .call _ _
  | .callValue _ | .callMethod _ _ | .makeClosure _ => 1
  | .iterNext _ => 2
  | _ => 0

/-- The `finally` addresses of the `SETUP_TRY`s with the given handler. -/
def finallyOf (code : List Instr) (handler : Nat) : List Nat :=
  code.filterMap fun i => match i with
    | .setupTry (some h) (some (some f)) => if h = handler then some f else none
    | _ => none

/-- The control edges from the instruction at `pc`: how many operands it leaves, and where it goes.
`SETUP_TRY` has an edge to the handler, which is entered with the error on the stack, and one to the
`finally` block. A `POP_TRY` goes to the `finally` block of the `try` whose handler it stands before. -/
def edges (code : List Instr) (pc : Nat) : Instr → List (Nat × Nat)
  | .jump t => t.toList.map (0, ·)
  | .jumpIfFalse t | .jumpIfTrue t => (0, pc + 1) :: t.toList.map (0, ·)
  | .iterNext t => (2, pc + 1) :: t.toList.map (0, ·)
  | .setupTry handler fin =>
      (0, pc + 1) :: (handler.toList.map (1, ·) ++ (fin.bind id).toList.map (0, ·))
  | .popTry =>
      match finallyOf code (pc + 1) with
      | [] => [(0, pc + 1)]
      | fs => fs.map (0, ·)
  | .throw | .ret | .halt => []
  | i => [(i.pushes, pc + 1)]

end Nodus
