import Nodus.HostCalls
import Nodus.JsonValues
import Nodus.RecordEquality

set_option linter.all false

/-! The traversals of values that the language has: conversion to a string, equality, `json_stringify` and `copy`. -/

namespace Nodus.ValueTraversals

open Copies JsonText HostCalls RecordEquality
open JsonValues (Stringified)

inductive Scalar (F : Type) where
  | nil
  | bool (b : Bool)
  | int (n : Int)
  | float (x : F)
  | str (s : Text)
  deriving DecidableEq

abbrev Val (F : Type) := Copies.Value (Scalar F)

inductive HostException where
  /-- `RecursionError`. -/
  | recursion
  /-- `ValueError`, of an integer with too many digits. -/
  | value
  /-- `OverflowError`, of an integer that is no float. -/
  | overflow
  /-- `KeyError`. -/
  | key (name : String)
  deriving DecidableEq, Repr

/-- `str` of an exception. -/
def HostException.message : HostException → Text
  | .recursion => text "maximum recursion depth exceeded"
  | .value => text "Exceeds the limit (4300 digits) for integer string conversion"
  | .overflow => text "int too large to convert to float"
  | .key name => text ("'" ++ name ++ "'")

inductive Raised where
  /-- `LangRuntimeError`. -/
  | lang (kind : String) (message : Text)
  /-- `HostFunctionError`. -/
  | hostFunction
  /-- `_JsonTypeError`. -/
  | jsonType (nodusType : String)
  | host (exception : HostException)
  deriving DecidableEq

/-- The heap, the memo of `copy`, and `_STRUCTURAL_EQ_CHANGE_WARNED`. -/
structure Store (F K : Type) where
  copying : Copying (Scalar F) K
  warned : Bool

/-- What the host does with what the traversals do not look into. -/
structure Platform (F K : Type) where
  /-- `str` of a float. -/
  floatText : F → Text
  /-- The integer that a float is. -/
  whole : F → Option Int
  /-- `float` of an integer. -/
  ofInt : Int → Option F
  sameFloat : F → F → Bool
  /-- `==` of the host language on scalars and on handles. -/
  leaves : Leaves (Scalar F)
  /-- A key is a string or a number. -/
  ofKey : K → Scalar F
  /-- The text of a function, a module, a channel, a coroutine or a task. -/
  handleText : Address → Text
  floats : Floats F
  /-- The depth that `json.dumps` allows. -/
  dumpsDepth : Nat

/-- The functions that call each other, with their arguments. -/
inductive Call (F : Type) where
  | valueToString (v : Val F) (quoteStrings : Bool)
  | toJsonValue (v : Val F)
  /-- `==`. -/
  | hostEq (v w : Val F)
  /-- `Record.__eq__`. -/
  | recordEq (a b : Address)
  | structuralEq (v w : Val F) (seen : Seen)
  | clone (path : Text) (v : Val F)
  deriving DecidableEq

abbrev Answer (F : Type) : Call F → Type
  | .valueToString _ _ => Text
  | .toJsonValue _ => JsonText.Json F
  | .hostEq _ _ => Bool
  | .recordEq _ _ => Bool
  | .structuralEq _ _ _ => Bool × Seen
  | .clone _ _ => Val F

variable {F K : Type} [DecidableEq F] [DecidableEq K]

abbrev Code (F K X : Type) := Body (Call F) (Answer F) Raised (Store F K) X

/-- What is at an address. -/
def load {X : Type} (a : Address) (next : Option (Object (Scalar F) K) → Code F K X) : Code F K X := .get fun store => next store.copying.heap[a]?

/-! ### The calls -/

def callValueToString (v : Val F) (quoteStrings : Bool) : Code F K Text := .invoke (Call.valueToString v quoteStrings)

def callToJsonValue (v : Val F) : Code F K (JsonText.Json F) := .invoke (Call.toJsonValue v)

def callHostEq (v w : Val F) : Code F K Bool := .invoke (Call.hostEq v w)

def callRecordEq (a b : Address) : Code F K Bool := .invoke (Call.recordEq a b)

def callStructuralEq (v w : Val F) (seen : Seen) : Code F K (Bool × Seen) := .invoke (Call.structuralEq v w seen)

def callClone (path : Text) (v : Val F) : Code F K (Val F) := .invoke (Call.clone path v)

def raiseHost {X : Type} (e : HostException) : Code F K X := .raise (.host e)

def ofHost {X : Type} : Except HostException X → Code F K X
  | .ok x => .pure x
  | .error e => raiseHost e

/-! ### Conversion to a string -/

/-- `str`. -/
def strOf (p : Platform F K) : Scalar F → Except HostException Text
  | .nil => .ok (text "None")
  | .bool b => .ok (text (if b then "True" else "False"))
  | .int n => if (decimal n.natAbs).length ≤ maxStrDigits then .ok (intText n) else .error .value
  | .float x => .ok (p.floatText x)
  | .str s => .ok s

/-- `escape_string`. -/
def escapeString (s : Text) : Text :=
  s.flatMap fun c => if c = 92 then [92, 92] else if c = 34 then [92, 34] else if c = 10 then [92, 110] else if c = 9 then [92, 116] else [c]

def scalarText (p : Platform F K) (quoteStrings : Bool) : Scalar F → Except HostException Text
  | .nil => .ok (text "nil")
  | .bool b => .ok (text (if b then "true" else "false"))
  | .str s => .ok (if quoteStrings then 34 :: (escapeString s ++ [34]) else s)
  | s => strOf p s

/-- The parts with a comma between them. -/
def commas (parts : List Text) : Text := (text ", ").intercalate parts

/-- A key and a value. -/
def entryText (key : Scalar F) (v : Val F) : Code F K Text :=
  (callValueToString (.scalar key) true).bind fun keyText =>
    (callValueToString v true).bind fun valueText => .pure (keyText ++ text ": " ++ valueText)

/-- The message of an error, when it is a string. -/
def errorMessage (kind : String) (fields : List (String × Val F)) : Option Text :=
  if kind = "error" then
    match fields.lookup "message" with
    | some (.scalar (.str message)) => some message
    | _ => none
  else none

/-- `value_to_string`. -/
def valueToStringCode (p : Platform F K) (v : Val F) (quoteStrings : Bool) : Code F K Text :=
  match v with
  | .scalar s => ofHost (scalarText p quoteStrings s)
  | .ref a => load a fun
      | some (.list items) =>
          (Body.collect (fun v => callValueToString v true) items).bind fun parts => .pure (text "[" ++ commas parts ++ text "]")
      | some (.map entries) =>
          (Body.collect (fun e => entryText (p.ofKey e.1) e.2) entries).bind fun parts => .pure (text "\x7b" ++ commas parts ++ text "\x7d")
      | some (.record kind fields) =>
          match errorMessage kind fields with
          | some message => .pure message
          | none =>
              (Body.collect (fun e => entryText (.str (text e.1)) e.2) fields).bind fun parts =>
                .pure (text "record \x7b" ++ commas parts ++ text "\x7d")
      | _ => .pure (p.handleText a)

/-! ### `json_stringify` -/

/-- `d[key] = j`. -/
def putEntry (key : Text) (j : JsonText.Json F) : List (Text × JsonText.Json F) → List (Text × JsonText.Json F)
  | [] => [(key, j)]
  | e :: rest => if e.1 = key then (key, j) :: rest else e :: putEntry key j rest

/-- A loop over the entries of a dict comprehension. -/
def jsonEntries {J : Type} (keyText : J → Except HostException Text) (entries : List (J × Val F)) : Code F K (List (Text × JsonText.Json F)) :=
  Body.foldl (fun done e => (ofHost (keyText e.1)).bind fun key => (callToJsonValue e.2).bind fun j => .pure (putEntry key j done))
    [] entries

/-- `to_json_value`. -/
def toJsonValueCode (p : Platform F K) : Val F → Code F K (JsonText.Json F)
  | .scalar .nil => .pure .null
  | .scalar (.bool b) => .pure (.bool b)
  | .scalar (.int n) => .pure (.int n)
  | .scalar (.float x) => .pure ((p.whole x).elim (.float x) .int)
  | .scalar (.str s) => .pure (.str s)
  | .ref a => load a fun
      | some (.list items) => (Body.collect (callToJsonValue) items).bind fun items => .pure (.arr items)
      | some (.map entries) => (jsonEntries (fun key => strOf p (p.ofKey key)) entries).bind fun entries => .pure (.obj entries)
      | some (.record _ fields) => (jsonEntries (fun name => .ok (text name)) fields).bind fun entries => .pure (.obj entries)
      | some (.handle kind) => .raise (.jsonType kind)
      | none => .raise (.jsonType "unknown")

/-- `json_stringify`. -/
def jsonStringifyCode (p : Platform F K) (v : Val F) : Code F K Stringified :=
  Body.handle
    (fun
      | .jsonType nodusType =>
          .pure (.error "type_error" ("cannot serialize to JSON: value of type " ++ nodusType ++ " is not JSON-compatible"))
      | _ => .pure (.error "internal_error" "unexpected internal error in json.stringify"))
    ((callToJsonValue v).bind fun j => (dumps p.floats p.dumpsDepth j).elim (raiseHost .recursion) fun t => .pure (.text t))

/-! ### Equality -/

/-- A loop that compares one pair after the other. -/
def allPairs {J : Type} (f : J → Code F K Bool) (pairs : List J) : Code F K Bool :=
  (Body.allOf (fun (_ : Unit) pair => (f pair).bind fun b => .pure (b, ())) () pairs).bind fun r => .pure r.1

/-- What is the same object is equal in a list or a dict. -/
def sameOrEq (v w : Val F) : Code F K Bool := if v = w then .pure true else callHostEq v w

/-- What two datetimes or two durations are compared by. -/
def fieldsEq (name : String) (xs ys : List (String × Val F)) : Code F K Bool :=
  match xs.lookup name, ys.lookup name with
  | some v, some w => callHostEq v w
  | _, _ => raiseHost (.key name)

/-- `==` of the host language. -/
def hostEqCode (p : Platform F K) : Val F → Val F → Code F K Bool
  | .scalar s, .scalar t => .pure (p.leaves.scalar s t)
  | .scalar _, .ref _ => .pure false
  | .ref _, .scalar _ => .pure false
  | .ref a, .ref b => load a fun x => load b fun y =>
      match x, y with
      | some (.record _ _), some (.record _ _) => callRecordEq a b
      | some (.list xs), some (.list ys) =>
          if xs.length = ys.length then allPairs (fun pair => sameOrEq pair.1 pair.2) (xs.zip ys) else .pure false
      | some (.map xs), some (.map ys) =>
          if xs.length = ys.length then allPairs (fun e => (ys.lookup e.1).elim (.pure false) fun w => sameOrEq e.2 w) xs else .pure false
      | some (.handle _), some (.handle _) =>
          if a = b then .pure true else (p.leaves.handle a b).elim (raiseHost .recursion) .pure
      | _, _ => .pure false

/-- Whether the records are equal but for their identity. A structure that is too deep counts as one that is not. -/
def divergent (a b : Address) : Code F K Bool :=
  Body.handle (fun e => if e = .host .recursion then .pure false else .raise e)
    ((callStructuralEq (.ref a) (.ref b) []).bind fun r => .pure r.1)

/-- `Record.__eq__` of two records. -/
def recordEqCode (a b : Address) : Code F K Bool :=
  load a fun x => load b fun y =>
    match x, y with
    | some x, some y =>
        match measured x y with
        | some (name, xs, ys) => fieldsEq name xs ys
        | none =>
            if a = b then .pure true
            else .get fun store =>
              if store.warned then .pure false
              else (divergent a b).bind fun
                | true => .get fun store => .set { store with warned := true } (.pure false)
                | false => .pure false
    | _, _ => .pure false

local instance lawfulBEqPair : LawfulBEq (Address × Address) := inferInstance

/-- `structural_eq`, with the pairs of containers that have been met. -/
def structuralEqCode (p : Platform F K) (v w : Val F) (seen : Seen) : Code F K (Bool × Seen) :=
  if v = w then .pure (true, seen)
  else match v, w with
    | .scalar s, .scalar t => .pure (p.leaves.scalar s t, seen)
    | .ref a, .ref b => load a fun x => load b fun y =>
        match x, y with
        | some x, some y =>
            if IsContainer x && IsContainer y then
              if (a, b) ∈ seen then .pure (true, seen)
              else
                match measured x y, parts x y with
                | some (name, xs, ys), _ => (fieldsEq name xs ys).bind fun r => .pure (r, (a, b) :: seen)
                | none, some pairs => Body.allOf (fun seen pair => callStructuralEq pair.1 pair.2 seen) ((a, b) :: seen) pairs
                | none, none => .pure (false, (a, b) :: seen)
            else if !IsContainer x && !IsContainer y then
              (p.leaves.handle a b).elim (raiseHost .recursion) fun r => .pure (r, seen)
            else .pure (false, seen)
        | _, _ => .pure (false, seen)
    | .scalar _, .ref _ => .pure (false, seen)
    | .ref _, .scalar _ => .pure (false, seen)

/-- The float that a number is compared as. -/
def asFloat (p : Platform F K) : Val F → Option (Except HostException F)
  | .scalar (.int n) => some ((p.ofInt n).elim (.error .overflow) .ok)
  | .scalar (.float x) => some (.ok x)
  | _ => none

def asBool : Val F → Option Bool
  | .scalar (.bool b) => some b
  | _ => none

/-- `_nodus_eq`. -/
def nodusEqCode (p : Platform F K) (v w : Val F) : Code F K Bool :=
  match asFloat p v, asFloat p w with
  | some x, some y => (ofHost x).bind fun x => (ofHost y).bind fun y => .pure (p.sameFloat x y)
  | _, _ =>
      match asBool v, asBool w with
      | some a, some b => .pure (a == b)
      | none, none => callHostEq v w
      | _, _ => .pure false

/-! ### `copy` -/

def copyMessage (path : Text) (kind : String) : Text :=
  let place := if path = [] then text ("a " ++ kind) else text "the value at " ++ path
  text "copy(x) cannot copy " ++ place ++ (if path = [] then [] else text (" (" ++ kind ++ ")")) ++
    text "; a function, method, channel, coroutine or task has no meaningful copy"

/-- The loop over the parts of a container, each with its place and its path: they are cloned in turn and put into the copy. -/
def fillCode (out : Address) (parts : List (Copies.Slot K × Except HostException Text × Val F)) : Code F K (Val F) :=
  Body.foldl
    (fun copied part => (ofHost part.2.1).bind fun path => (callClone path part.2.2).bind fun c =>
      .get fun store => .set { store with copying := store.copying.put out part.1 c } (.pure copied))
    (.ref out) parts

/-- A new container is made and filled. -/
def enterCode (a : Address) (object : Object (Scalar F) K) (parts : List (Copies.Slot K × Except HostException Text × Val F)) : Code F K (Val F) :=
  .get fun store => .set { store with copying := store.copying.enter a object } (fillCode store.copying.heap.length parts)

/-- `clone`. -/
def cloneCode (p : Platform F K) (path : Text) : Val F → Code F K (Val F)
  | .scalar s => .pure (.scalar s)
  | .ref a => .get fun store =>
      match store.copying.memo a with
      | some b => .pure (.ref b)
      | none => load a fun
          | some (.list items) =>
              enterCode a (.list []) (items.mapIdx fun index item => (.item, .ok (path ++ text ("[" ++ toString index ++ "]")), item))
          | some (.map entries) =>
              enterCode a (.map []) (entries.map fun e =>
                (.key e.1, (strOf p (p.ofKey e.1)).map fun key => path ++ text "[\x22" ++ key ++ text "\x22]", e.2))
          | some (.record kind fields) =>
              enterCode a (.record kind []) (fields.map fun e =>
                (.field e.1, .ok (if path = [] then text e.1 else path ++ text "." ++ text e.1), e.2))
          | some (.handle kind) => .raise (.lang "type" (copyMessage path kind))
          | none => .raise (.lang "type" (copyMessage path "unknown"))

/-! ### The instructions -/

/-- What each function does. -/
def program (p : Platform F K) : (c : Call F) → Code F K (Answer F c)
  | .valueToString v quoteStrings => valueToStringCode p v quoteStrings
  | .toJsonValue v => toJsonValueCode p v
  | .hostEq v w => hostEqCode p v w
  | .recordEq a b => recordEqCode a b
  | .structuralEq v w seen => structuralEqCode p v w seen
  | .clone path v => cloneCode p path v

/-- A traversal that a program can ask for. -/
inductive Traversal (F : Type) where
  /-- `str(v)`, `print(v)`, and a value in an interpolated string. -/
  | str (v : Val F)
  /-- `throw v`. -/
  | throw (v : Val F)
  /-- `v == w` and `v != w`. -/
  | eq (v w : Val F)
  | jsonStringify (v : Val F)
  | copy (v : Val F)

inductive Result (F : Type) where
  | text (t : Text)
  | bool (b : Bool)
  | json (s : Stringified)
  | value (v : Val F)

def Traversal.code (p : Platform F K) : Traversal F → Code F K (Result F)
  | .str v => (callValueToString v false).bind fun t => .pure (.text t)
  | .throw (.scalar (.str s)) => .raise (.lang "thrown" s)
  | .throw v => (callValueToString v false).bind fun message => .raise (.lang "thrown" message)
  | .eq v w => (nodusEqCode p v w).bind fun b => .pure (.bool b)
  | .jsonStringify v => (jsonStringifyCode p v).bind fun s => .pure (.json s)
  | .copy v => .get fun store => .set { store with copying := { store.copying with memo := fun _ => none } }
      ((callClone [] v).bind fun c => .pure (.value c))

/-- One instruction of `execute`: what the host raises becomes an error of the language. -/
def execute (p : Platform F K) (t : Traversal F) : Code F K (Result F) :=
  Body.handle
    (fun
      | .host e => .raise (.lang "runtime" e.message)
      | .jsonType nodusType => .raise (.lang "runtime" (text nodusType))
      | e => .raise e)
    (t.code p)

/-- A value or an error of the language. -/
def Returned {X : Type} (r : Except Raised X) : Prop := (∃ x, r = .ok x) ∨ ∃ kind message, r = .error (.lang kind message)

/-! ### What is raised -/

/-- No host function of an embedder has a part in it. -/
def OwnFault (e : Raised) : Prop := e ≠ .hostFunction

/-- Whatever the calls raise, it is no exception of a host function. -/
def Tame {X : Type} (code : Code F K X) : Prop := Sat (fun _ => HostCalls.Raises OwnFault) (.host .recursion) (HostCalls.Raises OwnFault) code

section Tame

variable {X Y J : Type} {p : Platform F K}

omit [DecidableEq F] [DecidableEq K]

theorem tame_pure (x : X) : Tame (.pure x : Code F K X) := Sat.return x

theorem tame_raise {e : Raised} (h : OwnFault e) : Tame (.raise e : Code F K X) := Sat.raise h

theorem tame_raiseHost (e : HostException) : Tame (raiseHost e : Code F K X) := tame_raise nofun

theorem tame_ofHost (r : Except HostException X) : Tame (ofHost r : Code F K X) := by
  cases r with
  | ok x => exact tame_pure x
  | error e => exact tame_raiseHost e

theorem tame_elim {r : Option Y} {other : Code F K X} {f : Y → Code F K X} (hother : Tame other) (hf : ∀ y, Tame (f y)) :
    Tame (r.elim other f) := by
  cases r with
  | none => exact hother
  | some y => exact hf y

theorem tame_ite {c : Prop} [Decidable c] {code code' : Code F K X} (h : Tame code) (h' : Tame code') : Tame (if c then code else code') := by
  split
  · exact h
  · exact h'

theorem tame_invoke (c : Call F) : Tame (.invoke c : Code F K (Answer F c)) :=
  Sat.invoke (fun _ hr => hr) fun _ he => Except.error.inj he ▸ nofun

theorem Tame.bind {code : Code F K X} {f : X → Code F K Y} (h : Tame code) (hf : ∀ x, Tame (f x)) : Tame (code.bind f) := h.next hf

theorem Tame.bind_pure {code : Code F K X} (h : Tame code) (f : X → Y) : Tame (code.bind fun x => .pure (f x)) := h.bind fun x => tame_pure (f x)

theorem tame_load {a : Address} {next : Option (Object (Scalar F) K) → Code F K X} (h : ∀ object, Tame (next object)) : Tame (load a next) :=
  fun store => h store.copying.heap[a]?

theorem tame_get {next : Store F K → Code F K X} (h : ∀ store, Tame (next store)) : Tame (.get next) := h

theorem tame_set {store : Store F K} {code : Code F K X} (h : Tame code) : Tame (.set store code) := h

theorem tame_collect {f : J → Code F K X} (h : ∀ j, Tame (f j)) (js : List J) : Tame (Body.collect f js) := Sat.collect h js

theorem tame_foldl {f : X → J → Code F K X} (h : ∀ x j, Tame (f x j)) (x : X) (js : List J) : Tame (Body.foldl f x js) := Sat.foldl h x js

theorem tame_allOf {f : Y → J → Code F K (Bool × Y)} (h : ∀ y j, Tame (f y j)) (y : Y) (js : List J) : Tame (Body.allOf f y js) :=
  Sat.allOf h y js

theorem Tame.handle {code : Code F K X} {handler : Raised → Code F K X} (h : Tame code) (hhandler : ∀ e, OwnFault e → Tame (handler e)) :
    Tame (Body.handle handler code) :=
  Sat.handle h (fun x _ => fun _ he => absurd he nofun) fun e he => hhandler e (he e rfl)

theorem tame_entryText (key : Scalar F) (v : Val F) : Tame (entryText key v : Code F K Text) :=
  (tame_invoke _).bind fun _ => (tame_invoke _).bind_pure _

theorem tame_valueToString (v : Val F) (quoteStrings : Bool) : Tame (valueToStringCode p v quoteStrings) := by
  cases v with
  | scalar s => exact tame_ofHost _
  | ref a =>
      rw [valueToStringCode]
      refine tame_load fun object => ?_
      split
      · exact (tame_collect (fun v => tame_invoke (Call.valueToString v true)) _).bind_pure _
      · exact (tame_collect (fun e => tame_entryText _ _) _).bind_pure _
      · split
        · exact tame_pure _
        · exact (tame_collect (fun e => tame_entryText _ _) _).bind_pure _
      · exact tame_pure _

theorem tame_jsonEntries {keyText : J → Except HostException Text} (entries : List (J × Val F)) :
    Tame (jsonEntries keyText entries : Code F K (List (Text × JsonText.Json F))) :=
  tame_foldl (fun _ _ => (tame_ofHost _).bind fun _ => (tame_invoke _).bind_pure _) [] entries

theorem tame_toJsonValue (v : Val F) : Tame (toJsonValueCode p v) := by
  cases v with
  | scalar s => cases s <;> exact tame_pure _
  | ref a =>
      rw [toJsonValueCode]
      refine tame_load fun object => ?_
      split
      · exact (tame_collect (fun v => tame_invoke (Call.toJsonValue v)) _).bind_pure _
      · exact (tame_jsonEntries _).bind_pure _
      · exact (tame_jsonEntries _).bind_pure _
      · exact tame_raise nofun
      · exact tame_raise nofun

theorem tame_jsonStringify (v : Val F) : Tame (jsonStringifyCode p v) := by
  refine Tame.handle ((tame_invoke _).bind fun j => tame_elim (tame_raiseHost _) fun t => tame_pure _) fun e _ => ?_
  split
  · exact tame_pure _
  · exact tame_pure _

theorem tame_allPairs {f : J → Code F K Bool} (h : ∀ j, Tame (f j)) (js : List J) : Tame (allPairs f js) :=
  (tame_allOf (fun _ j => (h j).bind_pure _) () js).bind_pure _

theorem tame_fieldsEq (name : String) (xs ys : List (String × Val F)) : Tame (fieldsEq name xs ys : Code F K Bool) := by
  unfold fieldsEq
  split
  · exact tame_invoke _
  · exact tame_raiseHost _

end Tame

section TameEquality

variable {p : Platform F K}

theorem tame_sameOrEq (v w : Val F) : Tame (sameOrEq v w : Code F K Bool) := tame_ite (tame_pure _) (tame_invoke _)

theorem tame_hostEq (v w : Val F) : Tame (hostEqCode p v w) := by
  unfold hostEqCode
  split
  · exact tame_pure _
  · exact tame_pure _
  · exact tame_pure _
  · refine tame_load fun x => tame_load fun y => ?_
    split
    · exact tame_invoke _
    · exact tame_ite (tame_allPairs (fun pair => tame_sameOrEq _ _) _) (tame_pure _)
    · exact tame_ite (tame_allPairs (fun e => tame_elim (tame_pure _) fun w => tame_sameOrEq _ _) _) (tame_pure _)
    · exact tame_ite (tame_pure _) (tame_elim (tame_raiseHost _) tame_pure)
    · exact tame_pure _

theorem tame_divergent (a b : Address) : Tame (divergent a b : Code F K Bool) :=
  Tame.handle ((tame_invoke _).bind_pure _) fun _ he => tame_ite (tame_pure _) (tame_raise he)

theorem tame_recordEq (a b : Address) : Tame (recordEqCode a b : Code F K Bool) := by
  refine tame_load fun x => tame_load fun y => ?_
  split
  · split
    · exact tame_fieldsEq _ _ _
    · refine tame_ite (tame_pure _) (tame_get fun store => tame_ite (tame_pure _) ((tame_divergent a b).bind fun r => ?_))
      split
      · exact tame_get fun store => tame_set (tame_pure _)
      · exact tame_pure _
  · exact tame_pure _

theorem tame_structuralEq (v w : Val F) (seen : Seen) : Tame (structuralEqCode p v w seen) := by
  unfold structuralEqCode
  refine tame_ite (tame_pure _) ?_
  split
  · exact tame_pure _
  · refine tame_load fun x => tame_load fun y => ?_
    split
    · refine tame_ite (tame_ite (tame_pure _) ?_) (tame_ite (tame_elim (tame_raiseHost _) fun r => tame_pure _) (tame_pure _))
      split
      · exact (tame_fieldsEq _ _ _).bind_pure _
      · exact tame_allOf (fun seen pair => tame_invoke _) _ _
      · exact tame_pure _
    · exact tame_pure _
  · exact tame_pure _
  · exact tame_pure _

theorem tame_nodusEq (v w : Val F) : Tame (nodusEqCode p v w) := by
  unfold nodusEqCode
  split
  · exact (tame_ofHost _).bind fun x => (tame_ofHost _).bind_pure _
  · split
    · exact tame_pure _
    · exact tame_invoke _
    · exact tame_pure _

theorem tame_enter (a : Address) (object : Object (Scalar F) K) (parts : List (Copies.Slot K × Except HostException Text × Val F)) :
    Tame (enterCode a object parts) :=
  tame_get fun store => tame_set (tame_foldl (fun _ part =>
    (tame_ofHost _).bind fun path => (tame_invoke _).bind fun c => tame_get fun store => tame_set (tame_pure _)) _ parts)

theorem tame_clone (path : Text) (v : Val F) : Tame (cloneCode p path v) := by
  cases v with
  | scalar s => exact tame_pure _
  | ref a =>
      refine tame_get fun store => ?_
      split
      · exact tame_pure _
      · refine tame_load fun object => ?_
        split
        · exact tame_enter _ _ _
        · exact tame_enter _ _ _
        · exact tame_enter _ _ _
        · exact tame_raise nofun
        · exact tame_raise nofun

theorem tame_program (p : Platform F K) (c : Call F) : Tame (program p c) := by
  cases c with
  | valueToString v quoteStrings => exact tame_valueToString v quoteStrings
  | toJsonValue v => exact tame_toJsonValue v
  | hostEq v w => exact tame_hostEq v w
  | recordEq a b => exact tame_recordEq a b
  | structuralEq v w seen => exact tame_structuralEq v w seen
  | clone path v => exact tame_clone path v

theorem tame_code (p : Platform F K) (t : Traversal F) : Tame (t.code p) := by
  cases t with
  | str v => exact (tame_invoke _).bind_pure _
  | throw v =>
      unfold Traversal.code
      split
      · exact (tame_invoke _).bind_pure _
      · exact tame_raise nofun
      · exact (tame_invoke _).bind fun message => tame_raise nofun
      · exact (tame_nodusEq _ _).bind_pure _
      · exact (tame_jsonStringify _).bind_pure _
      · exact tame_get fun store => tame_set ((tame_invoke _).bind_pure _)
  | eq v w => exact (tame_nodusEq v w).bind_pure _
  | jsonStringify v => exact (tame_jsonStringify v).bind_pure _
  | copy v => exact tame_get fun store => tame_set ((tame_invoke _).bind_pure _)

end TameEquality

theorem execute_returned (p : Platform F K) (t : Traversal F) :
    Sat (fun _ => HostCalls.Raises OwnFault) (.host .recursion) Returned (execute p t) := by
  refine Sat.handle (tame_code p t) (fun x _ => .inl ⟨x, rfl⟩) fun e he => ?_
  cases e with
  | lang kind message => exact .inr ⟨kind, message, rfl⟩
  | hostFunction => exact absurd rfl (he _ rfl)
  | jsonType nodusType => exact .inr ⟨_, _, rfl⟩
  | host e => exact .inr ⟨_, _, rfl⟩

end Nodus.ValueTraversals
