import Nodus.Bytecode

/-! Lexical scope tracking. The chain of live scopes is a list, innermost first, that ends in the
module scope; a scope that is left is dropped, as nothing refers to it afterwards. Resolving a name
can record an upvalue in the function scopes it passes, so every resolution returns the table. -/

namespace Nodus

inductive ScopeKind where
  | module
  | function
  | block
  deriving DecidableEq, Repr

inductive SymbolScope where
  | global
  | local
  | upvalue
  deriving DecidableEq, Repr

structure Symbol where
  name : Name
  scope : SymbolScope
  index : Option Nat := none
  isFunction : Bool := false
  deriving DecidableEq, Repr

structure Scope where
  kind : ScopeKind
  symbols : List (Name × Symbol) := []
  upvalues : List Upvalue := []
  localSlotCounter : Nat := 0
  allLocalSlots : List (Name × Nat) := []
  deriving DecidableEq, Repr

structure SymbolTable where
  scopes : List Scope := [{ kind := .module }]
  allSymbols : List Name := []
  deriving DecidableEq, Repr

/-- Applies `f` to the innermost function scope of a chain, if there is one. -/
def modifyFunctionScope (f : Scope → Scope) : List Scope → List Scope
  | [] => []
  | s :: rest => if s.kind = .function then f s :: rest else s :: modifyFunctionScope f rest

namespace Scope

/-- Binds `symbol` in this scope, in place of an earlier symbol of the same name. -/
def bind (s : Scope) (symbol : Symbol) : Scope :=
  { s with symbols := dictSet symbol.name symbol s.symbols }

/-- Gives the next local slot of a function scope to `name`. -/
def allocate (s : Scope) (name : Name) : Scope :=
  { s with
    allLocalSlots := dictSet name s.localSlotCounter s.allLocalSlots
    localSlotCounter := s.localSlotCounter + 1 }

/-- `_add_upvalue`: the upvalue symbol of a function scope for a captured symbol, recorded once. -/
def addUpvalue (s : Scope) (symbol : Symbol) (isLocal : Bool) : Symbol × Scope :=
  match s.symbols.lookup symbol.name with
  | some known =>
      if known.scope = .upvalue then (known, s) else record
  | none => record
where
  record : Symbol × Scope :=
    let upSymbol : Symbol :=
      { name := symbol.name, scope := .upvalue, index := some s.upvalues.length }
    (upSymbol, { s with
      upvalues := s.upvalues ++ [{ name := symbol.name, isLocal, index := symbol.index }]
      symbols := dictSet symbol.name upSymbol s.symbols })

end Scope

/-- `_current_function_scope`. -/
def currentFunctionScope (scopes : List Scope) : Option Scope :=
  scopes.find? (·.kind = .function)

/-- The first global symbol named `name` along a chain. -/
def findGlobal (name : Name) : List Scope → Option Symbol
  | [] => none
  | s :: rest =>
      match s.symbols.lookup name with
      | some symbol => if symbol.scope = .global then some symbol else findGlobal name rest
      | none => findGlobal name rest

/-- What `_resolve_upvalue_in` finds outside a function: a global, or a variable to capture. -/
inductive Outer where
  | global (symbol : Symbol)
  | capture (symbol : Symbol) (isLocal : Bool)

/-- The walk of `_resolve_upvalue_in` over the scopes `chain` outside a function scope. Without an
enclosing function only globals are found. Otherwise the scopes up to the enclosing function are
searched, and a miss there recurses outward from it, which makes the enclosing function itself
capture the variable first. -/
def resolveOuter (name : Name) (chain : List Scope) : Option Outer × List Scope :=
  if (currentFunctionScope chain).isSome then walk chain
  else ((findGlobal name chain).map .global, chain)
where
  walk : List Scope → Option Outer × List Scope
    | [] => (none, [])
    | s :: rest =>
        match s.symbols.lookup name with
        | some symbol =>
            if symbol.scope = .global then (some (.global symbol), s :: rest)
            else
              (some (.capture symbol (!(s.kind = .function && symbol.scope = .upvalue))), s :: rest)
        | none =>
            if s.kind = .function then
              let (found, rest') :=
                if (currentFunctionScope rest).isSome then walk rest
                else ((findGlobal name rest).map .global, rest)
              match found with
              | none => (none, s :: rest')
              | some (.global symbol) => (some (.global symbol), s :: rest')
              | some (.capture symbol isLocal) =>
                  let (up, s') := s.addUpvalue symbol isLocal
                  (some (.capture up false), s' :: rest')
            else
              let (found, rest') := walk rest
              (found, s :: rest')

/-- `resolve_local`: the innermost binding of `name` inside the current function. -/
def resolveLocal (name : Name) : List Scope → Option Symbol
  | [] => none
  | s :: rest =>
      match s.symbols.lookup name with
      | some symbol => some symbol
      | none => if s.kind = .function ∨ s.kind = .module then none else resolveLocal name rest

/-- `resolve_upvalue` over a scope chain: the current function captures what lies outside it. -/
def resolveUpvalue (name : Name) : List Scope → Option Symbol × List Scope
  | [] => (none, [])
  | s :: rest =>
      if s.kind = .function then
        let (found, rest') := resolveOuter name rest
        match found with
        | none => (none, s :: rest')
        | some (.global symbol) => (some symbol, s :: rest')
        | some (.capture symbol isLocal) =>
            let (up, s') := s.addUpvalue symbol isLocal
            (some up, s' :: rest')
      else
        let (found, rest') := resolveUpvalue name rest
        (found, s :: rest')

namespace SymbolTable

def enterScope (t : SymbolTable) (kind : ScopeKind) : SymbolTable :=
  { t with scopes := { kind } :: t.scopes }

def exitScope (t : SymbolTable) : SymbolTable :=
  match t.scopes with
  | _ :: parent :: rest => { t with scopes := parent :: rest }
  | _ => t

/-- `define`: a global at module scope; else a local, with a slot when inside a function. -/
def define (t : SymbolTable) (name : Name) (isFunction : Bool) : SymbolTable :=
  match t.scopes with
  | [] => t
  | current :: rest =>
      let allSymbols := name :: t.allSymbols
      if current.kind = .module then
        { scopes := current.bind { name, scope := .global, isFunction } :: rest, allSymbols }
      else
        let index := (currentFunctionScope t.scopes).map (·.localSlotCounter)
        let bound := current.bind { name, scope := .local, index, isFunction } :: rest
        { scopes := modifyFunctionScope (·.allocate name) bound, allSymbols }

def defineFunction (t : SymbolTable) (name : Name) : SymbolTable := t.define name true

def isDefinedAnywhere (t : SymbolTable) (name : Name) : Bool := t.allSymbols.contains name

def isDefinedInModule (t : SymbolTable) (name : Name) : Bool :=
  match t.scopes.getLast? with
  | some s => (s.symbols.lookup name).isSome
  | none => false

/-- `resolve`: a local, else an upvalue or a global. -/
def resolve (t : SymbolTable) (name : Name) : Option Symbol × SymbolTable :=
  match resolveLocal name t.scopes with
  | some symbol => (some symbol, t)
  | none =>
      let (symbol, scopes) := resolveUpvalue name t.scopes
      (symbol, { scopes, allSymbols := if symbol.any (·.scope = .upvalue) then name :: t.allSymbols
                                       else t.allSymbols })

def inFunctionScope (t : SymbolTable) : Bool := t.scopes.any (·.kind = .function)

def inNestedScope (t : SymbolTable) : Bool :=
  t.scopes.any fun s => s.kind = .function || s.kind = .block

/-- `is_uncapturable_top_level_local`: a local of a top-level block outside every function. -/
def isUncapturableTopLevelLocal (t : SymbolTable) (name : Name) : Bool :=
  t.inFunctionScope &&
    (afterLastFunction t.scopes).any fun s =>
      (s.symbols.lookup name).any (·.scope = .local)
where
  afterLastFunction : List Scope → List Scope
    | [] => []
    | s :: rest =>
        if rest.any (·.kind = .function) then afterLastFunction rest
        else if s.kind = .function then rest else s :: rest

end SymbolTable

end Nodus
