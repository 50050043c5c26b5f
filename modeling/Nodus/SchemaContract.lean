import Mathlib.Data.List.Forall2
import Mathlib.Data.List.Nodup
import Nodus.AssocList

/-! The two validators of schemas: the one of the runtime, and the one that the packages share. -/

namespace Nodus.SchemaContract

/-- A key of a map: a string, or another value that has a hash. -/
inductive Key where
  | str (s : String)
  | other (n : Nat)
  deriving DecidableEq

inductive Value where
  | nil
  | bool (b : Bool)
  | int (n : Int)
  /-- A float, by its bits. -/
  | float (bits : UInt64)
  | str (s : String)
  | list (items : List Value)
  | map (entries : List (Key × Value))
  | record (fields : List (Key × Value))
  | function

abbrev Entries := List (Key × Value)

/-- The host: the hash of a value, if it has one, and its texts. -/
structure Host where
  key : Value → Option Key
  ofKey : Key → Value
  /-- `str`. -/
  display : Value → String
  repr : Value → String
  key_ofKey : ∀ k, key (ofKey k) = some k
  ofKey_str : ∀ s, ofKey (.str s) = .str s

/-- An exception of the host. -/
inductive Fault where
  | typeError
  | attributeError
  deriving DecidableEq

abbrev Result (α : Type) := Except Fault α

namespace Value

/-- Whether a value is true for the host. -/
def truthy : Value → Bool
  | nil => false
  | bool b => b
  | int n => n ≠ 0
  | float bits => bits ≠ 0 && bits ≠ 0x8000000000000000
  | str s => s ≠ ""
  | list items => !items.isEmpty
  | map entries => !entries.isEmpty
  | record _ => true
  | function => true

/-- `v == s`, for a string `s`. -/
def isStr : Value → String → Bool
  | str t, s => t = s
  | _, _ => false

/-- `type(v).__name__`. -/
def typeName : Value → String
  | nil => "NoneType"
  | bool _ => "bool"
  | int _ => "int"
  | float _ => "float"
  | str _ => "str"
  | list _ => "list"
  | map _ => "dict"
  | record _ => "Record"
  | function => "Closure"

end Value

open Value

/-- `as_dict`. -/
def asDict : Value → Option Entries
  | .record fields => some fields
  | .map entries => some entries
  | _ => none

/-- `d.get(name)`. -/
def get (d : Entries) (name : String) : Option Value := d.lookup (.str name)

/-- `v or default`, of what may not be there. -/
def orElse (v : Option Value) (default : Value) : Value :=
  match v with
  | some v => if v.truthy then v else default
  | none => default

section Host

variable (host : Host)

/-- The values that a loop goes through. -/
def iterate : Value → Result (List Value)
  | .list items => .ok items
  | .str s => .ok (s.toList.map fun c => .str c.toString)
  | .map entries => .ok (entries.map fun e => host.ofKey e.1)
  | _ => .error .typeError

/-- The value of `v` in a map, if `v` is a key of it. -/
def member (v : Value) (d : Entries) : Result (Option Value) :=
  match host.key v with
  | some k => .ok (d.lookup k)
  | none => .error .typeError

/-- A name in a table of names. -/
def named (table : List (String × String)) : Key → Option String
  | .str s => table.lookup s
  | .other _ => none

/-! ### Normalising -/

/-- The fields of a simple form: what each declares, and the names, which are required. -/
def simpleFields (spec : Key → Value → Result (Except String Entries)) : Entries → Result (Except String (Entries × List Value))
  | [] => .ok (.ok ([], []))
  | (name, typeName) :: rest =>
      (spec name typeName).bind fun declared =>
        match declared with
        | .error text => .ok (.error text)
        | .ok declared => (simpleFields spec rest).map (Except.map fun fields => ((name, .map declared) :: fields.1, host.ofKey name :: fields.2))

/-- The normal form of a simple form. -/
def objectSchema (fields : Entries × List Value) : Entries :=
  [(.str "type", .str "object"), (.str "properties", .map fields.1), (.str "required", .list fields.2)]

/-- `NODUS_TO_JSON_TYPE`. -/
def nodusToJsonType : List (String × String) :=
  [("string", "string"), ("int", "integer"), ("float", "number"), ("bool", "boolean"), ("map", "object"), ("record", "object"),
    ("list", "array"), ("nil", "null")]

/-- `UNSCHEMABLE_TYPES`. -/
def unschemableTypes : List (String × String) := [("function", "a function value does not cross a tool boundary")]

/-- What a parameter of a simple form declares. -/
def runtimeSpec (paramName : Key) (typeName : Value) : Result (Except String Entries) :=
  if typeName.isStr "any" then .ok (.ok [])
  else match host.key typeName with
    | none => .error .typeError
    | some k =>
        match named nodusToJsonType k with
        | some jsonType => .ok (.ok [(.str "type", .str jsonType)])
        | none =>
            let name := host.display (host.ofKey paramName)
            match named unschemableTypes k with
            | some reason =>
                .ok (.error ("type '" ++ host.display typeName ++ "' cannot appear in a tool schema for parameter '" ++ name ++ "': " ++ reason))
            | none => .ok (.error ("unknown type '" ++ host.display typeName ++ "' for parameter '" ++ name ++
                "' (allowed: bool, float, int, list, map, nil, record, string, any)"))

/-- `normalize_runtime_schema`. -/
def normalizeRuntimeSchema (schema : Value) : Result (Except String Entries) :=
  if !schema.truthy then .ok (.ok [])
  else match asDict schema with
    | none => .ok (.error "schema must be a map")
    | some d =>
        if ((get d "type").getD .nil).isStr "object" then
          -- The form of JSON Schema.
          let propsRaw := (asDict (orElse (get d "properties") (.map []))).getD []
          let props := propsRaw.map fun p => (p.1, Value.map ((asDict p.2).getD []))
          (iterate host (orElse (get d "required") (.list []))).map fun req =>
            .ok ([(.str "type", .str "object"), (.str "properties", .map props)] ++ if req.isEmpty then [] else [(.str "required", .list req)])
        else (simpleFields host (runtimeSpec host) d).map (Except.map objectSchema)

/-- `SIMPLE_TYPE_ALIASES`. -/
def simpleTypeAliases : List (String × String) :=
  [("string", "string"), ("str", "string"), ("int", "integer"), ("integer", "integer"), ("float", "number"), ("number", "number"),
    ("bool", "boolean"), ("boolean", "boolean"), ("map", "object"), ("dict", "object"), ("object", "object"), ("list", "array"),
    ("array", "array"), ("nil", "null"), ("null", "null"), ("any", "any")]

/-- What a field of a simple form declares for the packages. -/
def sharedSpec : Key → Value → Result (Except String Entries)
  | .other _, _ => .ok (.error "schema field names must be strings")
  | .str fieldName, .str typeName =>
      match simpleTypeAliases.lookup typeName with
      | none => .ok (.error ("unknown type '" ++ typeName ++ "' for parameter '" ++ fieldName ++ "' (allowed: string, str, int, integer, float, " ++
          "number, bool, boolean, map, dict, object, list, array, nil, null, any)"))
      | some canonical => .ok (.ok (if canonical = "any" then [] else [(.str "type", .str canonical)]))
  | .str fieldName, _ => .ok (.error ("schema type for parameter '" ++ fieldName ++ "' must be a string"))

/-- `normalize_schema`. -/
def normalizeSchema (schema : Value) : Result (Except String Entries) :=
  if !schema.truthy then .ok (.ok [])
  else match schema with
    | .map d =>
        if ((get d "type").getD .nil).isStr "object" then .ok (.ok d)
        else (simpleFields host sharedSpec d).map (Except.map objectSchema)
    | _ => .ok (.error "schema must be a map")

/-! ### Validating -/

/-- `check_json_type`. -/
def checkJsonType (val expected : Value) (key : String) : Option String :=
  let fails (text : String) (ok : Bool) : Option String := if ok then none else some ("argument '" ++ key ++ "' must be " ++ text)
  if expected.isStr "string" then fails "a string" (val matches .str _)
  else if expected.isStr "integer" then fails "an integer" (val matches .int _)
  else if expected.isStr "number" then fails "a number" (val matches .int _ | .float _)
  else if expected.isStr "boolean" then fails "a boolean" (val matches .bool _)
  else if expected.isStr "object" then fails "a map" (val matches .map _ | .record _)
  else if expected.isStr "array" then fails "a list" (val matches .list _)
  else if expected.isStr "null" then fails "nil" (val matches .nil)
  else none

/-- The first required argument that is missing. -/
def missingArgument (args : Entries) : List Value → Result (Option String)
  | [] => .ok none
  | req :: rest => (member host req args).bind fun present =>
      match present with
      | none => .ok (some ("missing required argument: '" ++ host.display req ++ "'"))
      | some _ => missingArgument args rest

/-- The check of an argument against what is declared for it. -/
def checkArgument (props : Entries) (key : Key) (val : Value) : Result (Option String) :=
  match props.lookup key with
  | none => .ok none
  | some (.map prop) =>
      match get prop "type" with
      | none => .ok none
      | some expected => .ok (checkJsonType val expected (host.display (host.ofKey key)))
  | some _ => .error .typeError

/-- The first argument that is not of its type. -/
def wrongArgument (props : Entries) : Entries → Result (Option String)
  | [] => .ok none
  | (key, val) :: rest => (checkArgument host props key val).bind fun err =>
      match err with
      | some err => .ok (some err)
      | none => wrongArgument props rest

/-- `validate_args`. -/
def validateArgs (args : Value) (schema : Entries) : Result (Option String) :=
  if schema.isEmpty || !((get schema "type").getD .nil).isStr "object" then .ok none
  else match (if args matches .nil then some [] else asDict args) with
    | none => .ok (some "args must be a map")
    | some argsD =>
        (iterate host ((get schema "required").getD (.list []))).bind fun required =>
          (missingArgument host argsD required).bind fun missing =>
            match missing, (get schema "properties").getD (.map []) with
            | some err, _ => .ok (some err)
            | none, .map props => wrongArgument host props argsD
            | none, _ => .error .typeError

/-- `JSON_TYPE_TO_PYTHON`: the names of the types. A boolean is asked for apart, so that it is neither an integer nor a number. -/
def jsonTypeToPython : List (String × List String) :=
  [("string", ["str"]), ("integer", ["int"]), ("number", ["int", "float"]), ("boolean", ["bool"]), ("object", ["dict"]), ("array", ["list"]),
    ("null", ["NoneType"])]

/-- The required fields that are missing or nil. -/
def missingFields (payload : Entries) : List Value → Result (List String)
  | [] => .ok []
  | field :: rest => (member host field payload).bind fun value =>
      (missingFields payload rest).map fun errors =>
        match value with
        | none => ("Missing required field: " ++ host.repr field) :: errors
        | some .nil => ("Missing required field: " ++ host.repr field) :: errors
        | some _ => errors

/-- The error about a field, if there is one. -/
def fieldError (payload : Entries) (name : Key) (spec : Value) : Result (List String) :=
  match payload.lookup name, spec with
  | some actual, .map spec =>
      let expected := (get spec "type").getD .nil
      if !expected.truthy then .ok []
      else match host.key expected with
        | none => .error .typeError
        | some (.str jsonType) =>
            match jsonTypeToPython.lookup jsonType with
            | none => .ok []
            | some expectedTypes =>
                .ok (if actual.typeName ∈ expectedTypes then []
                  else ["Field " ++ host.repr (host.ofKey name) ++ ": expected type " ++ host.repr expected ++ ", got " ++
                    host.repr (.str actual.typeName)])
        | some (.other _) => .ok []
  | _, _ => .ok []

/-- The errors about the types of the fields. -/
def wrongFields (payload : Entries) : Entries → Result (List String)
  | [] => .ok []
  | (name, spec) :: rest => (fieldError host payload name spec).bind fun err => (wrongFields payload rest).map (err ++ ·)

/-- `validate_payload`. -/
def validatePayload (schema : Entries) (payload : Value) : Result (List String) :=
  if schema.isEmpty then .ok []
  else match payload with
    | .map payload =>
        (iterate host (orElse (get schema "required") (.list []))).bind fun required =>
          (missingFields host payload required).bind fun missing =>
            match orElse (get schema "properties") (.map []) with
            | .map properties => (wrongFields host payload properties).map (missing ++ ·)
            | _ => .error .attributeError
    | payload => .ok ["Payload must be a dict, got " ++ host.repr (.str payload.typeName)]

end Host

/-! ### The declared meaning -/

/-- The value is of a declared type. An integer is also a float. -/
def HasType (v : Value) (typeName : String) : Prop :=
  typeName = "any" ∨
    match v with
    | .nil => typeName = "nil"
    | .bool _ => typeName = "bool"
    | .int _ => typeName = "int" ∨ typeName = "float"
    | .float _ => typeName = "float"
    | .str _ => typeName = "string"
    | .list _ => typeName = "list"
    | .map _ => typeName = "map"
    | .record _ => typeName = "map"
    | .function => False

/-- The same without the records of the runtime, which the packages do not know. -/
def HasPlainType (v : Value) (typeName : String) : Prop := HasType v typeName ∧ ¬ (typeName = "map" ∧ ∃ fields, v = .record fields)

/-- A simple form as a value. -/
def simpleForm (fields : List (String × String)) : Value := .map (fields.map fun f => (.str f.1, .str f.2))

/-- Every declared field is there, with a value of its type. -/
def Conforms (hasType : Value → String → Prop) (fields : List (String × String)) (payload : Entries) : Prop :=
  ∀ f ∈ fields, ∃ v, get payload f.1 = some v ∧ hasType v f.2

section Fields

variable {host : Host} {fields : List (String × String)} {spec : Key → Value → Result (Except String Entries)} {props : Entries}
  {req : List Value} {payload : Entries}

theorem simpleFields_ok (h : simpleFields host spec (fields.map fun f => (.str f.1, .str f.2)) = .ok (.ok (props, req))) :
    List.Forall₂ (fun f p => p.1 = Key.str f.1 ∧ ∃ declared, spec (.str f.1) (.str f.2) = .ok (.ok declared) ∧ p.2 = .map declared) fields props ∧
      req = fields.map fun f => .str f.1 := by
  induction fields generalizing props req with
  | nil =>
      obtain ⟨rfl, rfl⟩ := Prod.mk.inj (Except.ok.inj (Except.ok.inj h))
      exact ⟨.nil, rfl⟩
  | cons f fields ih =>
      rw [List.map_cons, simpleFields] at h
      cases hspec : spec (.str f.1) (.str f.2) with
      | error fault =>
          rw [hspec] at h
          cases h
      | ok declared =>
          cases declared with
          | error text =>
              rw [hspec] at h
              cases h
          | ok declared =>
              rw [hspec] at h
              cases hrest : simpleFields host spec (fields.map fun f => (.str f.1, .str f.2)) with
              | error fault =>
                  rw [Except.bind, hrest] at h
                  cases h
              | ok result =>
                  cases result with
                  | error text =>
                      rw [Except.bind, hrest] at h
                      cases h
                  | ok result =>
                      rw [Except.bind, hrest] at h
                      obtain ⟨rfl, rfl⟩ := Prod.mk.inj (Except.ok.inj (Except.ok.inj h))
                      obtain ⟨hprops, hreq⟩ := ih hrest
                      refine ⟨.cons ⟨rfl, declared, hspec, rfl⟩ hprops, ?_⟩
                      rw [hreq, host.ofKey_str]
                      rfl

theorem exists_of_forall₂ {A B : Type} {R : A → B → Prop} {as : List A} {bs : List B} (h : List.Forall₂ R as bs) {a : A} (ha : a ∈ as) :
    ∃ b ∈ bs, R a b := by
  induction h with
  | nil => cases ha
  | cons hab _ ih =>
      rcases List.mem_cons.mp ha with rfl | ha
      · exact ⟨_, List.mem_cons_self, hab⟩
      · obtain ⟨b, hb, hrel⟩ := ih ha
        exact ⟨b, List.mem_cons_of_mem _ hb, hrel⟩

theorem lookup_declared (hnames : (fields.map Prod.fst).Nodup)
    (h : List.Forall₂ (fun f p => p.1 = Key.str f.1 ∧ ∃ declared, spec (.str f.1) (.str f.2) = .ok (.ok declared) ∧ p.2 = .map declared)
      fields props) :
    (props.map Prod.fst).Nodup ∧
      ∀ p, p ∈ props ↔ ∃ f ∈ fields, ∃ declared, spec (.str f.1) (.str f.2) = .ok (.ok declared) ∧ p = (.str f.1, .map declared) := by
  have hkeys : props.map Prod.fst = (fields.map Prod.fst).map Key.str := by
    clear hnames
    induction h with
    | nil => rfl
    | cons hp _ ih => rw [List.map_cons, List.map_cons, List.map_cons, hp.1, ih]
  refine ⟨hkeys ▸ List.Nodup.map (fun _ _ => Key.str.inj) hnames, fun p => ?_⟩
  clear hnames hkeys
  induction h with
  | nil => simp only [List.not_mem_nil, false_and, exists_false]
  | @cons f p' fields props hp _ ih =>
      obtain ⟨hkey, declared, hspec, hvalue⟩ := hp
      rw [List.mem_cons, ih]
      constructor
      · rintro (rfl | ⟨g, hg, hrest⟩)
        · exact ⟨f, List.mem_cons_self, declared, hspec, Prod.ext hkey hvalue⟩
        · exact ⟨g, List.mem_cons_of_mem _ hg, hrest⟩
      · rintro ⟨g, hg, declared', hspec', rfl⟩
        rcases List.mem_cons.mp hg with rfl | hg
        · obtain rfl := Except.ok.inj (Except.ok.inj (hspec.symm.trans hspec'))
          exact .inl (Prod.ext hkey.symm hvalue.symm)
        · exact .inr ⟨g, hg, declared', hspec', rfl⟩

theorem member_str (s : String) (d : Entries) : member host (.str s) d = .ok (get d s) := by
  have hkey : host.key (.str s) = some (.str s) := by
    have h := host.key_ofKey (.str s)
    rwa [host.ofKey_str] at h
  rw [member, hkey]
  rfl

theorem missingArgument_iff (host : Host) : missingArgument host payload (fields.map fun f => .str f.1) = .ok none ↔ ∀ f ∈ fields, (get payload f.1).isSome := by
  induction fields with
  | nil => exact ⟨fun _ f hf => absurd hf List.not_mem_nil, fun _ => rfl⟩
  | cons f fields ih =>
      rw [List.map_cons, missingArgument, member_str, List.forall_mem_cons]
      cases hget : get payload f.1 with
      | none => exact ⟨nofun, fun h => absurd h.1 Bool.false_ne_true⟩
      | some v => exact ih.trans (and_iff_right rfl).symm

theorem wrongArgument_iff (args : Entries) :
    wrongArgument host props args = .ok none ↔ ∀ e ∈ args, checkArgument host props e.1 e.2 = .ok none := by
  induction args with
  | nil => exact ⟨fun _ e he => absurd he List.not_mem_nil, fun _ => rfl⟩
  | cons e args ih =>
      rw [wrongArgument, List.forall_mem_cons, ← ih]
      cases checkArgument host props e.1 e.2 with
      | error fault => exact ⟨nofun, fun h => absurd h.1 nofun⟩
      | ok err =>
          cases err with
          | none => exact (and_iff_right rfl).symm
          | some err => exact ⟨nofun, fun h => absurd h.1 nofun⟩

theorem missingFields_iff (host : Host) : missingFields host payload (fields.map fun f => .str f.1) = .ok [] ↔
    ∀ f ∈ fields, ∃ v, get payload f.1 = some v ∧ v ≠ .nil := by
  induction fields with
  | nil => exact ⟨fun _ f hf => absurd hf List.not_mem_nil, fun _ => rfl⟩
  | cons f fields ih =>
      rw [List.map_cons, missingFields, member_str, List.forall_mem_cons, ← ih, Except.bind]
      cases missingFields host payload (fields.map fun f => .str f.1) with
      | error fault => exact ⟨nofun, fun h => absurd h.2 nofun⟩
      | ok errors =>
          cases hget : get payload f.1 with
          | none => exact ⟨nofun, fun h => absurd h.1 fun hv => Option.some_ne_none _ hv.choose_spec.1.symm⟩
          | some v =>
              cases v with
              | nil => exact ⟨nofun, fun h => absurd h.1 fun ⟨v, hv, hne⟩ => hne (Option.some.inj hv).symm⟩
              | _ => exact ⟨fun h => ⟨⟨_, rfl, nofun⟩, h⟩, fun h => h.2⟩

theorem wrongFields_iff : wrongFields host payload props = .ok [] ↔ ∀ p ∈ props, fieldError host payload p.1 p.2 = .ok [] := by
  induction props with
  | nil => exact ⟨fun _ e he => absurd he List.not_mem_nil, fun _ => rfl⟩
  | cons p props ih =>
      rw [wrongFields, List.forall_mem_cons, ← ih]
      cases fieldError host payload p.1 p.2 with
      | error fault => exact ⟨nofun, fun h => absurd h.1 nofun⟩
      | ok err =>
          rw [Except.bind]
          cases wrongFields host payload props with
          | error fault => exact ⟨nofun, fun h => absurd h.2 nofun⟩
          | ok errors =>
              constructor
              · intro h
                obtain ⟨rfl, rfl⟩ := List.append_eq_nil_iff.mp (Except.ok.inj h)
                exact ⟨rfl, rfl⟩
              · rintro ⟨h, h'⟩
                rw [Except.ok.inj h, Except.ok.inj h']
                rfl

end Fields

section Types

variable {host : Host} {typeName fieldName jsonType : String} {declared shared : Entries}

theorem key_str (s : String) : host.key (.str s) = some (.str s) := by
  have h := host.key_ofKey (.str s)
  rwa [host.ofKey_str] at h

theorem runtimeSpec_ok (h : runtimeSpec host (.str fieldName) (.str typeName) = .ok (.ok declared)) :
    (typeName = "any" ∧ declared = []) ∨ ∃ jsonType, (typeName, jsonType) ∈ nodusToJsonType ∧ declared = [(.str "type", .str jsonType)] := by
  rw [runtimeSpec] at h
  split at h
  · rename_i hany
    exact .inl ⟨of_decide_eq_true hany, (Except.ok.inj (Except.ok.inj h)).symm⟩
  · rw [key_str] at h
    dsimp only at h
    split at h
    · rename_i jsonType hlookup
      exact .inr ⟨jsonType, AssocList.mem_of_lookup hlookup, (Except.ok.inj (Except.ok.inj h)).symm⟩
    · split at h <;> cases h

theorem sharedSpec_ok (h : sharedSpec (.str fieldName) (.str typeName) = .ok (.ok shared)) :
    ∃ canonical, (typeName, canonical) ∈ simpleTypeAliases ∧ shared = if canonical = "any" then [] else [(.str "type", .str canonical)] := by
  rw [sharedSpec] at h
  split at h
  · cases h
  · rename_i canonical hlookup
    exact ⟨canonical, AssocList.mem_of_lookup hlookup, (Except.ok.inj (Except.ok.inj h)).symm⟩

/-- The type names that both accept, with the types of JSON Schema that both take them for. -/
def commonTypes : List (String × String) :=
  [("string", "string"), ("int", "integer"), ("float", "number"), ("bool", "boolean"), ("map", "object"), ("list", "array"), ("nil", "null")]

theorem commonTypes_mem : ∀ p ∈ nodusToJsonType, ∀ q ∈ simpleTypeAliases, p.1 = q.1 → p ∈ commonTypes ∧ q.2 = p.2 ∧ q.2 ≠ "any" := by decide

theorem accepted_cases (h : runtimeSpec host (.str fieldName) (.str typeName) = .ok (.ok declared))
    (h' : sharedSpec (.str fieldName) (.str typeName) = .ok (.ok shared)) :
    (typeName = "any" ∧ declared = [] ∧ shared = []) ∨
      ∃ jsonType, (typeName, jsonType) ∈ commonTypes ∧ declared = [(.str "type", .str jsonType)] ∧ shared = [(.str "type", .str jsonType)] := by
  obtain ⟨canonical, hshared, rfl⟩ := sharedSpec_ok h'
  rcases runtimeSpec_ok h with ⟨rfl, rfl⟩ | ⟨jsonType, hruntime, rfl⟩
  · have hany : ∀ q ∈ simpleTypeAliases, q.1 = "any" → q.2 = "any" := by decide
    exact .inl ⟨rfl, rfl, if_pos (hany _ hshared rfl)⟩
  · obtain ⟨hmem, hsame, hne⟩ := commonTypes_mem _ hruntime _ hshared rfl
    dsimp only at hsame hne
    exact .inr ⟨jsonType, hmem, rfl, by rw [if_neg hne, hsame]⟩

theorem checkJsonType_iff (hmem : (typeName, jsonType) ∈ commonTypes) (v : Value) (key : String) :
    checkJsonType v (.str jsonType) key = none ↔ HasType v typeName := by
  simp only [commonTypes, List.mem_cons, Prod.mk.injEq, List.not_mem_nil, or_false] at hmem
  rcases hmem with ⟨rfl, rfl⟩ | ⟨rfl, rfl⟩ | ⟨rfl, rfl⟩ | ⟨rfl, rfl⟩ | ⟨rfl, rfl⟩ | ⟨rfl, rfl⟩ | ⟨rfl, rfl⟩
  all_goals cases v <;> simp [checkJsonType, isStr, HasType]

theorem checkArgument_iff {props : Entries} {key : Key} {v : Value} (h : runtimeSpec host (.str fieldName) (.str typeName) = .ok (.ok declared))
    (h' : sharedSpec (.str fieldName) (.str typeName) = .ok (.ok shared)) (hlookup : props.lookup key = some (.map declared)) :
    checkArgument host props key v = .ok none ↔ HasType v typeName := by
  rw [checkArgument, hlookup]
  rcases accepted_cases h h' with ⟨rfl, rfl, -⟩ | ⟨jsonType, hmem, rfl, -⟩
  · exact ⟨fun _ => .inl rfl, fun _ => rfl⟩
  · exact ⟨fun hcheck => (checkJsonType_iff hmem v _).mp (Except.ok.inj hcheck), fun htype => congrArg Except.ok ((checkJsonType_iff hmem v _).mpr htype)⟩

theorem typeName_iff (hmem : (typeName, jsonType) ∈ commonTypes) (v : Value) :
    ∃ expectedTypes, jsonTypeToPython.lookup jsonType = some expectedTypes ∧ (v.typeName ∈ expectedTypes ↔ HasPlainType v typeName) := by
  simp only [commonTypes, List.mem_cons, Prod.mk.injEq, List.not_mem_nil, or_false] at hmem
  rcases hmem with ⟨rfl, rfl⟩ | ⟨rfl, rfl⟩ | ⟨rfl, rfl⟩ | ⟨rfl, rfl⟩ | ⟨rfl, rfl⟩ | ⟨rfl, rfl⟩ | ⟨rfl, rfl⟩
  all_goals
    refine ⟨_, rfl, ?_⟩
    cases v <;> simp [Value.typeName, HasPlainType, HasType]

theorem fieldError_iff {payload : Entries} {name : Key} {v : Value} (h : runtimeSpec host (.str fieldName) (.str typeName) = .ok (.ok declared))
    (h' : sharedSpec (.str fieldName) (.str typeName) = .ok (.ok shared)) (hlookup : payload.lookup name = some v) :
    fieldError host payload name (.map shared) = .ok [] ↔ HasPlainType v typeName := by
  simp only [fieldError, hlookup]
  rcases accepted_cases h h' with ⟨rfl, -, rfl⟩ | ⟨jsonType, hmem, -, rfl⟩
  · exact ⟨fun _ => ⟨.inl rfl, by simp⟩, fun _ => rfl⟩
  · obtain ⟨expectedTypes, hexpected, hiff⟩ := typeName_iff hmem v
    have htruthy : (Value.str jsonType).truthy = true := by
      have hall : ∀ p ∈ commonTypes, p.2 ≠ "" := by decide
      exact decide_eq_true (hall _ hmem)
    have hget : (get [(.str "type", .str jsonType)] "type").getD .nil = .str jsonType := rfl
    simp only [hget, htruthy, key_str, hexpected, Bool.not_true, Bool.false_eq_true, if_false]
    rw [← hiff]
    split
    · rename_i hmem'
      exact ⟨fun _ => hmem', fun _ => rfl⟩
    · rename_i hnot
      exact ⟨nofun, fun hmem' => absurd hmem' hnot⟩

end Types

section Validators

variable {host : Host} {fields : List (String × String)} {runtime shared payload : Entries}

theorem not_jsonSchema (hform : ("type", "object") ∉ fields) :
    ((get (fields.map fun f => (Key.str f.1, Value.str f.2)) "type").getD .nil).isStr "object" = false := by
  cases hget : get (fields.map fun f => (Key.str f.1, Value.str f.2)) "type" with
  | none => rfl
  | some v =>
      obtain ⟨⟨name, typeName⟩, hf, heq⟩ := List.mem_map.mp (AssocList.mem_of_lookup hget)
      obtain ⟨hname, rfl⟩ := Prod.mk.inj heq
      obtain rfl := Key.str.inj hname
      refine decide_eq_false fun htype => ?_
      dsimp only at htype
      exact hform (htype ▸ hf)

theorem truthy_simpleForm (f : String × String) (fields : List (String × String)) : (simpleForm (f :: fields)).truthy = true := rfl

theorem normalized_ok {f : String × String} {spec : Key → Value → Result (Except String Entries)}
    (h : (simpleFields host spec ((f :: fields).map fun f => (.str f.1, .str f.2))).map (Except.map objectSchema) = .ok (.ok runtime)) :
    ∃ props req, simpleFields host spec ((f :: fields).map fun f => (.str f.1, .str f.2)) = .ok (.ok (props, req)) ∧
      runtime = objectSchema (props, req) := by
  cases hfields : simpleFields host spec ((f :: fields).map fun f => (.str f.1, .str f.2)) with
  | error fault =>
      rw [hfields] at h
      cases h
  | ok result =>
      cases result with
      | error text =>
          rw [hfields] at h
          cases h
      | ok result =>
          rw [hfields] at h
          exact ⟨_, _, rfl, (Except.ok.inj (Except.ok.inj h)).symm⟩

theorem runtime_ok {f : String × String} (hform : ("type", "object") ∉ f :: fields)
    (h : normalizeRuntimeSchema host (simpleForm (f :: fields)) = .ok (.ok runtime)) :
    ∃ props req, simpleFields host (runtimeSpec host) ((f :: fields).map fun f => (.str f.1, .str f.2)) = .ok (.ok (props, req)) ∧
      runtime = objectSchema (props, req) := by
  rw [normalizeRuntimeSchema, truthy_simpleForm, simpleForm] at h
  simp only [Bool.not_true, Bool.false_eq_true, if_false, asDict, not_jsonSchema hform] at h
  exact normalized_ok h

theorem shared_ok {f : String × String} (hform : ("type", "object") ∉ f :: fields)
    (h : normalizeSchema host (simpleForm (f :: fields)) = .ok (.ok shared)) :
    ∃ props req, simpleFields host sharedSpec ((f :: fields).map fun f => (.str f.1, .str f.2)) = .ok (.ok (props, req)) ∧
      shared = objectSchema (props, req) := by
  simp only [normalizeSchema, truthy_simpleForm, Bool.not_true, Bool.false_eq_true, if_false] at h
  simp only [simpleForm, not_jsonSchema hform, Bool.false_eq_true, if_false] at h
  exact normalized_ok h

theorem validateArgs_iff (props : Entries) (payload : Entries) :
    validateArgs host (.map payload) (objectSchema (props, fields.map fun f => .str f.1)) = .ok none ↔
      (∀ f ∈ fields, (get payload f.1).isSome) ∧ ∀ e ∈ payload, checkArgument host props e.1 e.2 = .ok none := by
  rw [← missingArgument_iff host, ← wrongArgument_iff]
  change ((missingArgument host payload (fields.map fun f => .str f.1)).bind fun missing => _) = _ ↔ _
  cases missingArgument host payload (fields.map fun f => .str f.1) with
  | error fault => exact ⟨nofun, fun h => absurd h.1 nofun⟩
  | ok missing =>
      cases missing with
      | none => exact ⟨fun h => ⟨rfl, h⟩, fun h => h.2⟩
      | some err => exact ⟨nofun, fun h => absurd h.1 nofun⟩

theorem validatePayload_iff {f : String × String} (props : Entries) (hprops : props ≠ []) (payload : Entries) :
    validatePayload host (objectSchema (props, (f :: fields).map fun f => .str f.1)) (.map payload) = .ok [] ↔
      (∀ g ∈ f :: fields, ∃ v, get payload g.1 = some v ∧ v ≠ .nil) ∧ ∀ p ∈ props, fieldError host payload p.1 p.2 = .ok [] := by
  rw [← missingFields_iff host, ← wrongFields_iff]
  have horElse : orElse (get (objectSchema (props, (f :: fields).map fun f => .str f.1)) "properties") (.map []) = .map props := by
    cases props with
    | nil => exact absurd rfl hprops
    | cons p props => rfl
  change ((missingFields host payload ((f :: fields).map fun f => .str f.1)).bind fun missing => _) = _ ↔ _
  rw [horElse]
  change ((missingFields host payload ((f :: fields).map fun f => .str f.1)).bind fun missing =>
    (wrongFields host payload props).map (missing ++ ·)) = _ ↔ _
  cases missingFields host payload ((f :: fields).map fun f => .str f.1) with
  | error fault => exact ⟨nofun, fun h => absurd h.1 nofun⟩
  | ok missing =>
      rw [Except.bind]
      cases wrongFields host payload props with
      | error fault => exact ⟨nofun, fun h => absurd h.2 nofun⟩
      | ok errors =>
          constructor
          · intro h
            obtain ⟨rfl, rfl⟩ := List.append_eq_nil_iff.mp (Except.ok.inj h)
            exact ⟨rfl, rfl⟩
          · rintro ⟨h, h'⟩
            rw [Except.ok.inj h, Except.ok.inj h']
            rfl

/-- A simple form that both accept: the runtime accepts the payloads that conform to it, and so do the packages if no declared field is
nil, except that they know no records. -/
theorem validators_agree (host : Host) (fields : List (String × String)) (hnames : (fields.map Prod.fst).Nodup)
    (hform : ("type", "object") ∉ fields) (runtime shared : Entries) (hruntime : normalizeRuntimeSchema host (simpleForm fields) = .ok (.ok runtime))
    (hshared : normalizeSchema host (simpleForm fields) = .ok (.ok shared)) (payload : Entries) (hkeys : (payload.map Prod.fst).Nodup) :
    (validateArgs host (.map payload) runtime = .ok none ↔ Conforms HasType fields payload) ∧
      ((∀ f ∈ fields, get payload f.1 ≠ some .nil) →
        (validatePayload host shared (.map payload) = .ok [] ↔ Conforms HasPlainType fields payload)) := by
  cases fields with
  | nil =>
      obtain rfl := Except.ok.inj (Except.ok.inj hruntime)
      obtain rfl := Except.ok.inj (Except.ok.inj hshared)
      exact ⟨⟨fun _ f hf => absurd hf List.not_mem_nil, fun _ => rfl⟩, fun _ => ⟨fun _ f hf => absurd hf List.not_mem_nil, fun _ => rfl⟩⟩
  | cons f fields =>
      obtain ⟨props, req, hfields, rfl⟩ := runtime_ok hform hruntime
      obtain ⟨props', req', hfields', rfl⟩ := shared_ok hform hshared
      obtain ⟨hdeclared, rfl⟩ := simpleFields_ok hfields
      obtain ⟨hdeclared', rfl⟩ := simpleFields_ok hfields'
      obtain ⟨hdistinct, hmem⟩ := lookup_declared hnames hdeclared
      obtain ⟨hdistinct', hmem'⟩ := lookup_declared hnames hdeclared'
      -- What the two have made of a field.
      have hspecs : ∀ g ∈ f :: fields, (∃ declared, runtimeSpec host (.str g.1) (.str g.2) = .ok (.ok declared) ∧
          props.lookup (.str g.1) = some (.map declared)) ∧
          ∃ declared, sharedSpec (.str g.1) (.str g.2) = .ok (.ok declared) ∧ ((Key.str g.1, Value.map declared) ∈ props') := by
        intro g hg
        obtain ⟨p, hp, hkey, declared, hspec, hvalue⟩ := exists_of_forall₂ hdeclared hg
        obtain ⟨p', hp', hkey', declared', hspec', hvalue'⟩ := exists_of_forall₂ hdeclared' hg
        refine ⟨⟨declared, hspec, ?_⟩, declared', hspec', ?_⟩
        · exact AssocList.lookup_of_mem hdistinct ((hmem _).mpr ⟨g, hg, declared, hspec, rfl⟩)
        · exact (hmem' _).mpr ⟨g, hg, declared', hspec', rfl⟩
      refine ⟨(validateArgs_iff props payload).trans ⟨?_, ?_⟩, fun hpresent => (validatePayload_iff props' ?_ payload).trans ⟨?_, ?_⟩⟩
      · rintro ⟨hthere, hchecked⟩ g hg
        obtain ⟨v, hv⟩ := Option.isSome_iff_exists.mp (hthere g hg)
        obtain ⟨⟨declared, hspec, hlookup⟩, declared', hspec', -⟩ := hspecs g hg
        exact ⟨v, hv, (checkArgument_iff hspec hspec' hlookup).mp (hchecked _ (AssocList.mem_of_lookup hv))⟩
      · intro hconforms
        refine ⟨fun g hg => ?_, fun e he => ?_⟩
        · obtain ⟨v, hv, -⟩ := hconforms g hg
          exact Option.isSome_iff_exists.mpr ⟨v, hv⟩
        · cases hlookup : props.lookup e.1 with
          | none => rw [checkArgument, hlookup]
          | some spec =>
              obtain ⟨g, hg, declared, hspec, heq⟩ := (hmem _).mp (AssocList.mem_of_lookup hlookup)
              obtain ⟨hkey, rfl⟩ := Prod.mk.inj heq
              obtain ⟨v, hv, htype⟩ := hconforms g hg
              obtain ⟨-, declared', hspec', -⟩ := hspecs g hg
              have hget : get payload g.1 = some e.2 := by
                rw [get, ← hkey]
                exact AssocList.lookup_of_mem hkeys he
              have hvalue : v = e.2 := Option.some.inj (hv.symm.trans hget)
              exact (checkArgument_iff hspec hspec' hlookup).mpr (hvalue ▸ htype)
      · cases hdeclared' with
        | cons => exact List.cons_ne_nil _ _
      · rintro ⟨hthere, hchecked⟩ g hg
        obtain ⟨v, hv, -⟩ := hthere g hg
        obtain ⟨⟨declared, hspec, -⟩, declared', hspec', hp⟩ := hspecs g hg
        exact ⟨v, hv, (fieldError_iff hspec hspec' hv).mp (hchecked _ hp)⟩
      · intro hconforms
        refine ⟨fun g hg => ?_, fun p hp => ?_⟩
        · obtain ⟨v, hv, -⟩ := hconforms g hg
          exact ⟨v, hv, fun hnil => hpresent g hg (hv.trans (congrArg some hnil))⟩
        · obtain ⟨g, hg, declared', hspec', rfl⟩ := (hmem' _).mp hp
          obtain ⟨v, hv, htype⟩ := hconforms g hg
          obtain ⟨⟨declared, hspec, -⟩, -⟩ := hspecs g hg
          exact (fieldError_iff hspec hspec' hv).mpr htype

end Validators

/-- A host that knows the hashes of strings and of integers, and writes strings as they are. -/
def plainHost : Host where
  key
    | .str s => some (.str s)
    | .int n => some (.other n.toNat)
    | _ => none
  ofKey
    | .str s => .str s
    | .other n => .int n
  display v := match v with
    | .str s => s
    | v => v.typeName
  repr v := match v with
    | .str s => "'" ++ s ++ "'"
    | v => v.typeName
  key_ofKey k := by cases k <;> rfl
  ofKey_str _ := rfl

/-- A simple form with a field `type`, and a payload that conforms to it. -/
theorem payload_accepted : ∃ runtime shared, normalizeRuntimeSchema plainHost (simpleForm [("x", "int"), ("type", "map")]) = .ok (.ok runtime) ∧
    normalizeSchema plainHost (simpleForm [("x", "int"), ("type", "map")]) = .ok (.ok shared) ∧
    validateArgs plainHost (.map [(.str "type", .map []), (.str "x", .int 1)]) runtime = .ok none ∧
    validatePayload plainHost shared (.map [(.str "type", .map []), (.str "x", .int 1)]) = .ok [] := by
  obtain ⟨hargs, hpayload⟩ := validators_agree plainHost [("x", "int"), ("type", "map")] (by decide) (by decide) _ _ rfl rfl
    [(.str "type", .map []), (.str "x", .int 1)] (by decide)
  have hconforms : Conforms HasType [("x", "int"), ("type", "map")] [(.str "type", .map []), (.str "x", .int 1)] := by
    intro f hf
    simp only [List.mem_cons, List.not_mem_nil, or_false] at hf
    rcases hf with rfl | rfl
    · exact ⟨.int 1, rfl, .inr (.inl rfl)⟩
    · exact ⟨.map [], rfl, .inr rfl⟩
  refine ⟨_, _, rfl, rfl, hargs.mpr hconforms, (hpayload fun f hf => ?_).mpr fun f hf => ?_⟩
  · simp only [List.mem_cons, List.not_mem_nil, or_false] at hf
    rcases hf with rfl | rfl <;> rintro ⟨⟩
  · obtain ⟨v, hv, htype⟩ := hconforms f hf
    refine ⟨v, hv, htype, ?_⟩
    simp only [List.mem_cons, List.not_mem_nil, or_false] at hf
    rcases hf with rfl | rfl
    · exact fun h => absurd h.1 (by decide)
    · rintro ⟨-, record, rfl⟩
      cases hv

/-- A field with the name `type` and the type `object` makes the rest of the declared types void for both; and the two disagree about a
record. -/
theorem object_field_ignored :
    (∃ runtime shared, normalizeRuntimeSchema plainHost (simpleForm [("type", "object"), ("x", "int")]) = .ok (.ok runtime) ∧
      normalizeSchema plainHost (simpleForm [("type", "object"), ("x", "int")]) = .ok (.ok shared) ∧
      validateArgs plainHost (.map []) runtime = .ok none ∧ validatePayload plainHost shared (.map []) = .ok [] ∧
      ¬ Conforms HasType [("type", "object"), ("x", "int")] []) ∧
    ∃ runtime shared, normalizeRuntimeSchema plainHost (simpleForm [("x", "map")]) = .ok (.ok runtime) ∧
      normalizeSchema plainHost (simpleForm [("x", "map")]) = .ok (.ok shared) ∧
      validateArgs plainHost (.map [(.str "x", .record [])]) runtime = .ok none ∧
      validatePayload plainHost shared (.map [(.str "x", .record [])]) = .ok ["Field 'x': expected type 'object', got 'Record'"] :=
  ⟨⟨_, _, rfl, rfl, rfl, rfl, fun h => absurd (h ("x", "int") (by decide)) nofun⟩, _, _, rfl, rfl, rfl, rfl⟩

end Nodus.SchemaContract
