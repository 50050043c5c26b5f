import Nodus.Compiler

/-! The bytecode cache on disk: a compiled module as a payload of primitive Python values, and the file
a payload is written to. `marshal` and SHA-256 are parameters. -/

namespace Nodus

/-- The Python values a cache payload is made of. -/
inductive Py where
  | const (c : Const)
  | list (items : List Py)
  | tuple (items : List Py)
  | dict (items : List (Py × Py))

namespace Py

def str (s : String) : Py := .const (.str s)

def int (n : Nat) : Py := .const (.int n)

/-- The value of a string key. -/
def find (key : String) : List (Py × Py) → Option Py
  | [] => none
  | (.const (.str k), v) :: rest => if k = key then some v else find key rest
  | _ :: rest => find key rest

def asList : Py → Option (List Py)
  | .list items => some items
  | _ => none

def asDict : Py → Option (List (Py × Py))
  | .dict items => some items
  | _ => none

def asStr : Py → Option String
  | .const (.str s) => some s
  | _ => none

/-- A non-negative `int`. Addresses and slots are never negative. -/
def asNat : Py → Option Nat
  | .const (.int n) => n.toNat?
  | _ => none

/-- `None`, or a string. -/
def ofOption : Option String → Py
  | none => .const .nil
  | some s => str s

/-- `None`, or an index. -/
def ofIndex : Option Nat → Py
  | none => .const .nil
  | some n => int n

end Py

/-- Conversions of values that are not of the type asked for: `str(v)` and `bool(v)`, and `int(v)`,
`list(v)` and `dict(v)`, which may raise. -/
structure Conversions where
  str : Py → String
  bool : Py → Bool
  int : Py → Option Nat
  list : Py → Option (List Py)
  dict : Py → Option (List (Py × Py))

/-- A compiled module. The code, the symbol table and the metadata are dictionaries of primitive
values; locations are triples. -/
structure ModuleBytecode where
  code : List (Py × Py)
  functions : List (Name × FunctionInfo)
  constants : List Py := []
  codeLocs : List (Py × Py × Py) := []
  symbolTable : List (Py × Py) := []
  moduleMetadata : List (Py × Py) := []
  unknownTypeNames : List (List (Py × Py)) := []

/-! Writing. -/

def upvaluePayload (u : Upvalue) : Py :=
  .dict [(.str "name", .str u.name), (.str "is_local", .const (.bool u.isLocal)),
    (.str "index", .ofIndex u.index)]

def functionPayload (fn : FunctionInfo) : List (Py × Py) := [
  (.str "name", .str fn.name),
  (.str "params", .list (fn.params.map .str)),
  (.str "addr", .int fn.addr),
  (.str "upvalues", .list (fn.upvalues.map upvaluePayload)),
  (.str "display_name", .str fn.displayName),
  (.str "local_slots", .dict (fn.localSlots.map fun p => (.str p.1, .int p.2))),
  (.str "step_owner", .ofOption fn.stepOwner)]

def toCachePayload (m : ModuleBytecode) : List (Py × Py) := [
  (.str "code", .dict m.code),
  (.str "functions", .dict (m.functions.map fun p => (.str p.1, .dict (functionPayload p.2)))),
  (.str "constants", .list m.constants),
  (.str "code_locs", .list (m.codeLocs.map fun l => .list [l.1, l.2.1, l.2.2])),
  (.str "symbol_table", .dict m.symbolTable),
  (.str "module_metadata", .dict m.moduleMetadata),
  (.str "unknown_type_names", .list (m.unknownTypeNames.map .dict))]

/-! Reading. An entry of another type than expected is skipped, replaced by a default, or converted;
the result is `none` if a conversion raises. -/

section read

variable (conv : Conversions)

def readStr (v : Py) : String := v.asStr.getD (conv.str v)

def readList (v : Py) : Option (List Py) := v.asList <|> conv.list v

def readDict (v : Py) : Option (List (Py × Py)) := v.asDict <|> conv.dict v

def readBool : Py → Bool
  | .const (.bool b) => b
  | .list items => !items.isEmpty
  | v => conv.bool v

/-- `v or []`, then `list`. -/
def readListOr (v : Py) : Option (List Py) := if readBool conv v then readList conv v else some []

def readUpvalue (v : Py) : Option Upvalue :=
  v.asDict.map fun item => {
    name := readStr conv ((Py.find "name" item).getD (.str ""))
    isLocal := readBool conv ((Py.find "is_local" item).getD (.const (.bool false)))
    index := (Py.find "index" item).bind Py.asNat }

def readLocalSlots (v : Py) : List (Name × Nat) :=
  (v.asDict.getD []).foldl (fun slots item =>
    match item.1.asStr, item.2.asNat with
    | some name, some slot => dictSet name slot slots
    | _, _ => slots) []

def readFunction (key : Name) (raw : List (Py × Py)) : Option FunctionInfo := do
  let params ← readList conv ((Py.find "params" raw).getD (.list []))
  let rawAddr := (Py.find "addr" raw).getD (.int 0)
  let addr ← rawAddr.asNat <|> conv.int rawAddr
  pure {
    name := readStr conv ((Py.find "name" raw).getD (.str key))
    params := params.filterMap Py.asStr
    addr
    upvalues := (((Py.find "upvalues" raw).bind Py.asList).getD []).filterMap (readUpvalue conv)
    displayName := readStr conv ((Py.find "display_name" raw).getD (.str key))
    localSlots := readLocalSlots ((Py.find "local_slots" raw).getD (.dict []))
    stepOwner := (Py.find "step_owner" raw).bind Py.asStr }

/-- The function table, in the order of the payload. -/
def readFunctions : List (Py × Py) → List (Name × FunctionInfo) → Option (List (Name × FunctionInfo))
  | [], functions => some functions
  | item :: rest, functions =>
      match item.1.asStr, item.2.asDict with
      | some key, some raw => do
          let info ← readFunction conv key raw
          readFunctions rest (dictSet key info functions)
      | _, _ => readFunctions rest functions

def readLoc : Py → Option (Py × Py × Py)
  | .list [path, line, col] | .tuple [path, line, col] => some (path, line, col)
  | _ => none

def fromCachePayload (payload : List (Py × Py)) : Option ModuleBytecode := do
  let functions ← readFunctions conv (((Py.find "functions" payload).bind Py.asDict).getD []) []
  let constants ← readList conv ((Py.find "constants" payload).getD (.list []))
  let symbolTable ← readDict conv ((Py.find "symbol_table" payload).getD (.dict []))
  let moduleMetadata ← readDict conv ((Py.find "module_metadata" payload).getD (.dict []))
  let names ← readListOr conv ((Py.find "unknown_type_names" payload).getD (.list []))
  pure {
    code := ((Py.find "code" payload).bind Py.asDict).getD []
    functions
    constants
    codeLocs := (((Py.find "code_locs" payload).bind Py.asList).getD []).filterMap readLoc
    symbolTable
    moduleMetadata
    unknownTypeNames := names.filterMap Py.asDict }

end read

/-! The file. -/

/-- `marshal` and `hashlib.sha256`. -/
structure Codec where
  dumps : List (Py × Py) → List UInt8
  loads : List UInt8 → Option Py
  sha256 : List UInt8 → List UInt8

/-- What the Python documentation promises of the two: `marshal` reads back the values it wrote, and a
digest has 32 bytes. -/
structure Codec.Lawful (k : Codec) (payload : List (Py × Py)) : Prop where
  loads_dumps : k.loads (k.dumps payload) = some (.dict payload)
  length_sha256 : ∀ body, (k.sha256 body).length = 32

/-- `b"NDSC"`. -/
def cacheMagic : List UInt8 := [0x4e, 0x44, 0x53, 0x43]

def formatVersion : UInt8 := 0x01

def headerSize : Nat := 37

def encodeCacheFile (k : Codec) (payload : List (Py × Py)) : List UInt8 :=
  let body := k.dumps payload
  cacheMagic ++ [formatVersion] ++ k.sha256 body ++ body

def decodeCacheFile (k : Codec) (data : List UInt8) : Option (List (Py × Py)) :=
  if data.length < headerSize then none
  else if data.take 4 ≠ cacheMagic then none
  else if (data.drop 4).take 1 ≠ [formatVersion] then none
  else if k.sha256 (data.drop headerSize) ≠ (data.drop 5).take 32 then none
  else (k.loads (data.drop headerSize)).bind Py.asDict

/-- The header of the bytes names the format, and its checksum is that of the body. -/
def HeaderMatches (k : Codec) (data : List UInt8) : Prop :=
  ∃ body, data = cacheMagic ++ [formatVersion] ++ k.sha256 body ++ body

/-- What an entry was compiled by and from: the running version of the package, the absolute path of the
module, its modification time, and the digest of its bytes (`None` if it cannot be read). -/
structure Stamp where
  compilerVersion : String
  modulePath : String
  mtimeNs : Nat
  sourceSha256 : Option String
  deriving DecidableEq

/-- `NODUS_BYTECODE_VERSION`. -/
def nodusBytecodeVersion : Nat := 4

def cacheEntry (st : Stamp) (m : ModuleBytecode) : List (Py × Py) := [
  (.str "cache_version", .int nodusBytecodeVersion),
  (.str "compiler_version", .str st.compilerVersion),
  (.str "module_path", .str st.modulePath),
  (.str "mtime_ns", .int st.mtimeNs),
  (.str "source_sha256", .ofOption st.sourceSha256),
  (.str "module_bytecode", .dict (toCachePayload m))]

/-- The value of the key is the string. -/
def hasStr (key value : String) (payload : List (Py × Py)) : Bool :=
  (Py.find key payload).bind Py.asStr == some value

def hasInt (key : String) (value : Nat) (payload : List (Py × Py)) : Bool :=
  (Py.find key payload).bind Py.asNat == some value

/-- The key is absent or `None`. -/
def hasNone (key : String) (payload : List (Py × Py)) : Bool :=
  match Py.find key payload with
  | none | some (.const .nil) => true
  | _ => false

def isValidCachePayload (st : Stamp) (payload : List (Py × Py)) : Bool :=
  hasInt "cache_version" nodusBytecodeVersion payload
    && hasStr "compiler_version" st.compilerVersion payload
    && hasStr "module_path" st.modulePath payload
    && hasInt "mtime_ns" st.mtimeNs payload
    && match st.sourceSha256 with
      | some digest => hasStr "source_sha256" digest payload
      | none => hasNone "source_sha256" payload

/-- The bytes `write_cached_bytecode` leaves on disk. -/
def writeCachedBytecode (k : Codec) (st : Stamp) (m : ModuleBytecode) : List UInt8 :=
  encodeCacheFile k (cacheEntry st m)

/-- What `load_cached_bytecode` makes of the bytes on disk; `none` is a miss. -/
def loadCachedBytecode (conv : Conversions) (k : Codec) (st : Stamp) (data : List UInt8) :
    Option ModuleBytecode := do
  let payload ← decodeCacheFile k data
  if isValidCachePayload st payload then
    let raw ← (Py.find "module_bytecode" payload).bind Py.asDict
    fromCachePayload conv raw
  else none

/-- What reading the file of a module back gives, its source unchanged. -/
def readBack (conv : Conversions) (k : Codec) (st : Stamp) (m : ModuleBytecode) : Option ModuleBytecode :=
  loadCachedBytecode conv k st (writeCachedBytecode k st m)

/-- A Python dictionary has each key once. -/
structure ModuleBytecode.KeysUnique (m : ModuleBytecode) : Prop where
  functions : (m.functions.map Prod.fst).Nodup
  localSlots : ∀ p ∈ m.functions, (p.2.localSlots.map Prod.fst).Nodup

/-- What the payload keeps of a function. -/
def FunctionInfo.untyped (fn : FunctionInfo) : FunctionInfo := { fn with paramTypes := [], returnType := none }

section read

variable (conv : Conversions)

@[simp] theorem asNat_int (n : Nat) : (Py.int n).asNat = some n := rfl

@[simp] theorem asStr_str (s : String) : (Py.str s).asStr = some s := rfl

@[simp] theorem find_cons_str (key k : String) (v : Py) (rest : List (Py × Py)) :
    Py.find key ((.str k, v) :: rest) = if k = key then some v else Py.find key rest := rfl

@[simp] theorem asList_list (items : List Py) : (Py.list items).asList = some items := rfl

@[simp] theorem asDict_dict (items : List (Py × Py)) : (Py.dict items).asDict = some items := rfl

@[simp] theorem readStr_str (s : String) : readStr conv (.str s) = s := rfl

@[simp] theorem readList_list (items : List Py) : readList conv (.list items) = some items := rfl

@[simp] theorem readDict_dict (items : List (Py × Py)) : readDict conv (.dict items) = some items := rfl

theorem readListOr_list (items : List Py) : readListOr conv (.list items) = some items := by
  cases items <;> rfl

theorem filterMap_map_of_forall {α β : Type} {f : α → β} {g : β → Option α} (xs : List α)
    (hg : ∀ x, g (f x) = some x) : (xs.map f).filterMap g = xs := by
  rw [List.filterMap_map, show g ∘ f = some from funext hg, List.filterMap_some]

theorem dictSet_append {α : Type} {key : Name} {value : α} {d : List (Name × α)}
    (hk : key ∉ d.map Prod.fst) : dictSet key value d = d ++ [(key, value)] := by
  induction d with
  | nil => rfl
  | cons p d ih =>
      simp only [List.map_cons, List.mem_cons, not_or] at hk
      have hne : ¬ p.1 = key := fun he => hk.1 he.symm
      simp only [dictSet, hne, if_false, ih hk.2, List.cons_append]

theorem readUpvalue_payload (u : Upvalue) : readUpvalue conv (upvaluePayload u) = some u := by
  obtain ⟨name, isLocal, index⟩ := u
  cases index <;> rfl

theorem readLocalSlots_payload {slots : List (Name × Nat)} (hu : (slots.map Prod.fst).Nodup) :
    readLocalSlots (.dict (slots.map fun p => (.str p.1, .int p.2))) = slots := by
  suffices hs : ∀ done rest : List (Name × Nat), ((done ++ rest).map Prod.fst).Nodup →
      (rest.map fun p => (Py.str p.1, Py.int p.2)).foldl (fun slots item =>
        match item.1.asStr, item.2.asNat with
        | some name, some slot => dictSet name slot slots
        | _, _ => slots) done = done ++ rest from hs [] slots hu
  intro done rest
  induction rest generalizing done with
  | nil => simp
  | cons p rest ih =>
      intro hn
      have hnot : p.1 ∉ done.map Prod.fst := by
        simp only [List.map_append, List.map_cons, List.nodup_append, List.mem_cons] at hn
        intro hmem
        exact hn.2.2 p.1 hmem p.1 (.inl rfl) rfl
      simp only [List.map_cons, List.foldl_cons, asStr_str, asNat_int]
      rw [dictSet_append hnot, ih (done ++ [(p.1, p.2)]) (by simpa using hn)]
      simp

theorem readFunction_payload (key : Name) {fn : FunctionInfo} (hu : (fn.localSlots.map Prod.fst).Nodup) :
    readFunction conv key (functionPayload fn) = some fn.untyped := by
  have hparams : (fn.params.map Py.str).filterMap Py.asStr = fn.params :=
    filterMap_map_of_forall fn.params asStr_str
  have hups : (fn.upvalues.map upvaluePayload).filterMap (readUpvalue conv) = fn.upvalues :=
    filterMap_map_of_forall fn.upvalues (readUpvalue_payload conv)
  have howner : (Py.ofOption fn.stepOwner).asStr = fn.stepOwner := by
    cases fn.stepOwner <;> rfl
  have hslots := readLocalSlots_payload hu
  unfold readFunction
  rw [show Py.find "params" (functionPayload fn) = some _ by simp [functionPayload]; rfl,
    show Py.find "addr" (functionPayload fn) = some _ by simp [functionPayload]; rfl,
    show Py.find "name" (functionPayload fn) = some _ by simp [functionPayload]; rfl,
    show Py.find "upvalues" (functionPayload fn) = some _ by simp [functionPayload]; rfl,
    show Py.find "display_name" (functionPayload fn) = some _ by simp [functionPayload]; rfl,
    show Py.find "local_slots" (functionPayload fn) = some _ by simp [functionPayload]; rfl,
    show Py.find "step_owner" (functionPayload fn) = some _ by simp [functionPayload]; rfl]
  simp only [Option.getD_some, Option.bind_some, Option.bind_eq_bind, readList_list, asList_list, readStr_str,
    asNat_int, hparams, hups, howner, hslots]
  rfl

theorem readFunctions_payload {fns : List (Name × FunctionInfo)} (hu : (fns.map Prod.fst).Nodup)
    (hs : ∀ p ∈ fns, (p.2.localSlots.map Prod.fst).Nodup) :
    readFunctions conv (fns.map fun p => (.str p.1, .dict (functionPayload p.2))) [] =
      some (fns.map fun p => (p.1, p.2.untyped)) := by
  suffices ha : ∀ (done : List (Name × FunctionInfo)) (rest : List (Name × FunctionInfo)),
      (done.map Prod.fst ++ rest.map Prod.fst).Nodup →
      (∀ p ∈ rest, (p.2.localSlots.map Prod.fst).Nodup) →
      readFunctions conv (rest.map fun p => (.str p.1, .dict (functionPayload p.2))) done =
        some (done ++ rest.map fun p => (p.1, p.2.untyped)) from ha [] fns (by simpa using hu) hs
  intro done rest
  induction rest generalizing done with
  | nil => simp [readFunctions]
  | cons p rest ih =>
      intro hn hslots
      have hnot : p.1 ∉ done.map Prod.fst := by
        simp only [List.map_cons, List.nodup_append, List.mem_cons] at hn
        intro hmem
        exact hn.2.2 p.1 hmem p.1 (.inl rfl) rfl
      have hread := readFunction_payload conv p.1 (hslots p List.mem_cons_self)
      simp only [List.map_cons, readFunctions, asStr_str, asDict_dict, hread, Option.bind_eq_bind,
        Option.bind_some]
      rw [dictSet_append hnot, ih (done ++ [(p.1, p.2.untyped)]) (by simpa using hn)
        fun q hq => hslots q (List.mem_cons_of_mem p hq)]
      simp

theorem fromCachePayload_payload {m : ModuleBytecode} (hu : m.KeysUnique) :
    fromCachePayload conv (toCachePayload m) =
      some { m with functions := m.functions.map fun p => (p.1, p.2.untyped) } := by
  have hlocs : (m.codeLocs.map fun l => Py.list [l.1, l.2.1, l.2.2]).filterMap readLoc = m.codeLocs :=
    filterMap_map_of_forall m.codeLocs fun _ => rfl
  have htypes : (m.unknownTypeNames.map Py.dict).filterMap Py.asDict = m.unknownTypeNames :=
    filterMap_map_of_forall m.unknownTypeNames asDict_dict
  have hfns := readFunctions_payload conv hu.functions hu.localSlots
  unfold fromCachePayload
  rw [show Py.find "functions" (toCachePayload m) = some _ by simp [toCachePayload]; rfl,
    show Py.find "constants" (toCachePayload m) = some _ by simp [toCachePayload]; rfl,
    show Py.find "symbol_table" (toCachePayload m) = some _ by simp [toCachePayload]; rfl,
    show Py.find "module_metadata" (toCachePayload m) = some _ by simp [toCachePayload]; rfl,
    show Py.find "unknown_type_names" (toCachePayload m) = some _ by simp [toCachePayload]; rfl,
    show Py.find "code" (toCachePayload m) = some _ by simp [toCachePayload]; rfl,
    show Py.find "code_locs" (toCachePayload m) = some _ by simp [toCachePayload]; rfl]
  simp only [Option.getD_some, Option.bind_some, Option.bind_eq_bind, asDict_dict, asList_list, readList_list,
    readDict_dict, readListOr_list, hfns, hlocs, htypes]
  rfl

end read

theorem decodeCacheFile_encode {k : Codec} {payload : List (Py × Py)} (hk : k.Lawful payload) :
    decodeCacheFile k (encodeCacheFile k payload) = some payload := by
  have hlen := hk.length_sha256 (k.dumps payload)
  have htake : (k.sha256 (k.dumps payload) ++ k.dumps payload).take 32 = k.sha256 (k.dumps payload) := by
    rw [← hlen]
    exact List.take_left
  have hdrop : (k.sha256 (k.dumps payload) ++ k.dumps payload).drop 32 = k.dumps payload := by
    rw [← hlen]
    exact List.drop_left
  have hbody : (encodeCacheFile k payload).drop headerSize = k.dumps payload := by
    simpa [encodeCacheFile, cacheMagic, headerSize] using hdrop
  have hsum : ((encodeCacheFile k payload).drop 5).take 32 = k.sha256 (k.dumps payload) := by
    simpa [encodeCacheFile, cacheMagic] using htake
  have hsize : ¬ (encodeCacheFile k payload).length < headerSize := by
    simp only [encodeCacheFile, cacheMagic, headerSize, List.length_append, List.length_cons,
      List.length_nil, hlen]
    omega
  have hmagic : (encodeCacheFile k payload).take 4 = cacheMagic := by
    simp [encodeCacheFile, cacheMagic]
  have hversion : ((encodeCacheFile k payload).drop 4).take 1 = [formatVersion] := by
    simp [encodeCacheFile, cacheMagic]
  simp only [decodeCacheFile, hsize, hmagic, hversion, hsum, hbody, ne_eq, not_true_eq_false, if_false,
    hk.loads_dumps, Option.bind_some, asDict_dict]

theorem headerMatches_of_decode {k : Codec} {data : List UInt8} {payload : List (Py × Py)}
    (hd : decodeCacheFile k data = some payload) : HeaderMatches k data := by
  unfold decodeCacheFile at hd
  split at hd
  · cases hd
  · split at hd
    · cases hd
    · rename_i hmagic
      split at hd
      · cases hd
      · rename_i hversion
        split at hd
        · cases hd
        · rename_i hsum
          simp only [ne_eq, Decidable.not_not] at hmagic hversion hsum
          refine ⟨data.drop headerSize, ?_⟩
          rw [← hmagic, ← hversion, hsum]
          have h₁ : data.drop 4 = (data.drop 4).take 1 ++ data.drop 5 := by
            rw [show data.drop 5 = (data.drop 4).drop 1 by rw [List.drop_drop], List.take_append_drop]
          have h₂ : data.drop 5 = (data.drop 5).take 32 ++ data.drop headerSize := by
            rw [show data.drop headerSize = (data.drop 5).drop 32 by rw [List.drop_drop]; rfl,
              List.take_append_drop]
          calc data = data.take 4 ++ data.drop 4 := (List.take_append_drop 4 data).symm
            _ = data.take 4 ++ ((data.drop 4).take 1 ++ data.drop 5) := by rw [← h₁]
            _ = data.take 4 ++ ((data.drop 4).take 1 ++
                  ((data.drop 5).take 32 ++ data.drop headerSize)) := by rw [← h₂]
            _ = _ := by simp only [List.append_assoc]

theorem untyped_eq_iff {fn : FunctionInfo} : fn.untyped = fn ↔ fn.paramTypes = [] ∧ fn.returnType = none := by
  obtain ⟨name, params, addr, upvalues, displayName, localSlots, stepOwner, paramTypes, returnType⟩ := fn
  simp only [FunctionInfo.untyped, FunctionInfo.mk.injEq, true_and]
  constructor
  · rintro ⟨rfl, rfl⟩
    exact ⟨rfl, rfl⟩
  · rintro ⟨rfl, rfl⟩
    exact ⟨rfl, rfl⟩

theorem isValidCachePayload_entry (st : Stamp) (m : ModuleBytecode) :
    isValidCachePayload st (cacheEntry st m) = true := by
  have hver : hasInt "cache_version" nodusBytecodeVersion (cacheEntry st m) = true := by
    simp [hasInt, cacheEntry]
  have hcomp : hasStr "compiler_version" st.compilerVersion (cacheEntry st m) = true := by
    simp [hasStr, cacheEntry]
  have hpath : hasStr "module_path" st.modulePath (cacheEntry st m) = true := by
    simp [hasStr, cacheEntry]
  have htime : hasInt "mtime_ns" st.mtimeNs (cacheEntry st m) = true := by
    simp [hasInt, cacheEntry]
  have hsum : Py.find "source_sha256" (cacheEntry st m) = some (Py.ofOption st.sourceSha256) := by
    simp [cacheEntry]
  rw [isValidCachePayload, hver, hcomp, hpath, htime]
  cases hs : st.sourceSha256 with
  | none => simp [hasNone, hsum, hs, Py.ofOption]
  | some digest => simp [hasStr, hsum, hs, Py.ofOption]

theorem readBack_eq {conv : Conversions} {k : Codec} {st : Stamp} {m : ModuleBytecode}
    (hk : k.Lawful (cacheEntry st m)) (hu : m.KeysUnique) :
    readBack conv k st m = some { m with functions := m.functions.map fun p => (p.1, p.2.untyped) } := by
  have hfind : Py.find "module_bytecode" (cacheEntry st m) = some (.dict (toCachePayload m)) := by
    simp [cacheEntry]
  rw [readBack, loadCachedBytecode, writeCachedBytecode, decodeCacheFile_encode hk]
  simp only [Option.bind_eq_bind, Option.bind_some, isValidCachePayload_entry, if_true, hfind, asDict_dict,
    fromCachePayload_payload conv hu]

/-- A module survives the cache if and only if none of its functions has a parameter or declares a return
type; bytes whose header or checksum does not match are rejected. -/
theorem readBack_eq_iff {conv : Conversions} {k : Codec} {st : Stamp} {m : ModuleBytecode}
    (hk : k.Lawful (cacheEntry st m)) (hu : m.KeysUnique) :
    (readBack conv k st m = some m ∧ ∀ data, ¬ HeaderMatches k data → decodeCacheFile k data = none) ↔
      ∀ p ∈ m.functions, p.2.paramTypes = [] ∧ p.2.returnType = none := by
  have hrejects : ∀ data, ¬ HeaderMatches k data → decodeCacheFile k data = none := by
    intro data hh
    cases hd : decodeCacheFile k data with
    | none => rfl
    | some payload => exact absurd (headerMatches_of_decode hd) hh
  have hback := @readBack_eq conv k st m hk hu
  have hmap : (m.functions.map fun p => (p.1, p.2.untyped)) = m.functions ↔
      ∀ p ∈ m.functions, p.2.untyped = p.2 := by
    have hid : m.functions.map id = m.functions := List.map_id _
    constructor
    · intro he p hp
      exact (Prod.ext_iff.mp ((List.map_inj_left.mp (he.trans hid.symm)) p hp)).2
    · intro hall
      refine Eq.trans (List.map_congr_left fun p hp => ?_) hid
      exact Prod.ext rfl (hall p hp)
  rw [hback, and_iff_left hrejects, Option.some.injEq]
  constructor
  · intro he p hp
    exact untyped_eq_iff.mp (hmap.mp (congrArg ModuleBytecode.functions he) p hp)
  · intro hall
    rw [hmap.mpr fun p hp => untyped_eq_iff.mpr (hall p hp)]

/-- A codec of one payload: the bytes stand for it. -/
def Codec.single (payload : List (Py × Py)) : Codec where
  dumps _ := [0x7b]
  loads _ := some (.dict payload)
  sha256 _ := List.replicate 32 0

theorem lawful_single (payload : List (Py × Py)) : (Codec.single payload).Lawful payload := by
  constructor
  · rfl
  · intro body
    simp [Codec.single]

/-- Conversions that raise where they may. -/
def Conversions.strict : Conversions where
  str _ := ""
  bool _ := true
  int _ := none
  list _ := none
  dict _ := none

/-- The stamp of a module `m.nd`. -/
def sampleStamp : Stamp := ⟨"5.15.0", "/p/m.nd", 1000, some "00"⟩

def instrPayload (op : String) (operands : List Py) : Py := .tuple (.str op :: operands)

/-- The module of a program, with the instructions as the payload has them. -/
def compiledModule (program : Program) (instructions : List Py) : ModuleBytecode where
  code := [(.str "bytecode_version", .int 4), (.str "instructions", .list instructions)]
  functions :=
    match Compiler.compileProgram program (Compiler.start program none [] []) with
    | .ok c => c.functions
    | .error _ => []

/-- `fn f() { return nil }`. -/
def plainModule : ModuleBytecode :=
  compiledModule ⟨none, [.fnDef "f" [] (.block [.returnStmt none]) none none]⟩
    [instrPayload "JUMP" [.int 6], instrPayload "FRAME_SIZE" [.int 0],
      instrPayload "PUSH_CONST" [.const .nil], instrPayload "RETURN" [],
      instrPayload "PUSH_CONST" [.const .nil], instrPayload "RETURN" [], instrPayload "HALT" []]

theorem plainModule_functions : plainModule.functions =
    [("f", { name := "f", params := [], addr := 1, upvalues := [], displayName := "f" })] := by
  rfl

theorem keysUnique_plainModule : plainModule.KeysUnique := by
  constructor
  · rw [plainModule_functions]
    decide
  · rw [plainModule_functions]
    simp

theorem plainModule_readBack :
    readBack .strict (.single (cacheEntry sampleStamp plainModule)) sampleStamp plainModule =
      some plainModule := by
  have hplain : ∀ p ∈ plainModule.functions, p.2.paramTypes = [] ∧ p.2.returnType = none := by
    rw [plainModule_functions]
    simp
  exact ((readBack_eq_iff (lawful_single _) keysUnique_plainModule).mpr hplain).1

/-- `fn f(x) { return x }`. -/
def typedModule : ModuleBytecode :=
  compiledModule ⟨none, [.fnDef "f" [⟨"x", none⟩] (.block [.returnStmt (some (.var "x"))]) none none]⟩
    [instrPayload "JUMP" [.int 7], instrPayload "FRAME_SIZE" [.int 1], instrPayload "STORE_ARG" [.str "x"],
      instrPayload "LOAD_LOCAL_IDX" [.int 0], instrPayload "RETURN" [],
      instrPayload "PUSH_CONST" [.const .nil], instrPayload "RETURN" [], instrPayload "HALT" []]

theorem typedModule_not_readBack :
    readBack .strict (.single (cacheEntry sampleStamp typedModule)) sampleStamp typedModule ≠
      some typedModule := by
  have hfns : typedModule.functions = [("f",
      { name := "f", params := ["x"], addr := 1, upvalues := [], displayName := "f",
        localSlots := [("x", 0)], paramTypes := [none] })] := rfl
  have hu : typedModule.KeysUnique := by
    constructor
    · rw [hfns]
      decide
    · rw [hfns]
      simp
  rw [readBack_eq (lawful_single _) hu]
  intro he
  have hf := congrArg ModuleBytecode.functions (Option.some.inj he)
  rw [hfns] at hf
  revert hf
  decide

end Nodus
