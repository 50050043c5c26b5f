import Nodus.CallNames

/-! `@exactly_once`: the envelope the compiler puts around an annotated function, the effect store it asks, and
the calls of such functions that run interleaved on one VM. -/

namespace Nodus

/-! ### The action id of a call -/

/-- The key of a map. -/
inductive DatumKey where
  | str (s : String)
  | int (n : Int)
  | num (f : Float)

/-- An argument, as far as `json.dumps` sees it. An object that is not a container of the language is known by
what `str` makes of it; a container that contains itself cannot be dumped. -/
inductive Datum where
  | nil
  | bool (b : Bool)
  | int (n : Int)
  | num (f : Float)
  | str (s : String)
  | list (items : List Datum)
  | map (items : List (DatumKey × Datum))
  | object (id : Nat) (text : String)
  | circular

inductive Json where
  | null
  | bool (b : Bool)
  | int (n : Int)
  | num (f : Float)
  | str (s : String)
  | arr (items : List Json)
  | obj (items : List (String × Json))

/-- `repr` of a float, and the SHA-256 of the canonical dump of an action. -/
structure Hashing where
  floatRepr : Float → String
  digest : String → Json → String → String

namespace Hashing

variable (h : Hashing)

/-- How `json.dumps` writes a key. -/
def dumpKey : DatumKey → String
  | .str s => s
  | .int n => toString n
  | .num f => h.floatRepr f

mutual

/-- `json.loads(json.dumps(..., default=str))`; `none` if it raises. -/
def dump : Datum → Option Json
  | .nil => some .null
  | .bool b => some (.bool b)
  | .int n => some (.int n)
  | .num f => some (.num f)
  | .str s => some (.str s)
  | .list items => (dumpItems items).map .arr
  | .map items => (dumpEntries [] items).map .obj
  | .object _ text => some (.str text)
  | .circular => none

def dumpItems : List Datum → Option (List Json)
  | [] => some []
  | d :: ds => do
      let j ← dump d
      let js ← dumpItems ds
      pure (j :: js)

/-- Of the entries whose keys are written alike the last one stays. -/
def dumpEntries (acc : List (String × Json)) : List (DatumKey × Datum) → Option (List (String × Json))
  | [] => some acc
  | (k, d) :: rest => do
      let j ← dump d
      dumpEntries (dictSet (h.dumpKey k) j acc) rest

end

/-- `effect_action_id`: a payload that cannot be dumped counts as empty. -/
def effectActionId (actionType : String) (payload : List (DatumKey × Datum)) (scope : String) : String :=
  h.digest actionType ((h.dump (.map payload)).getD (.obj [])) scope

end Hashing

/-! ### The envelope -/

/-- The statements of the lowered body of an annotated function. -/
inductive EnvelopeStmt where
  | actionId | resolve | guard | pending | body | complete | ret
  deriving DecidableEq, Repr

def envelope : List EnvelopeStmt := [.actionId, .resolve, .guard, .pending, .body, .complete, .ret]

/-- The body with its last expression returned. -/
def returnLast : List Stmt → List Stmt
  | [] => []
  | [.exprStmt e] => [.returnStmt (some e)]
  | s :: ss => s :: returnLast ss

def bodyStmts : Stmt → List Stmt
  | .block stmts => stmts
  | s => [s]

/-- The code of a statement of the envelope. -/
def EnvelopeStmt.toStmt (name : Name) (params : List Param) (body : Stmt) : EnvelopeStmt → Stmt
  | .actionId => .letDecl "__nodus_aid" (builtinCall "effect_action_id"
      [.str name, .mapLit (params.map fun p => (.str p.name, .var p.name)), .str "default"])
  | .resolve => .letDecl "__nodus_st" (builtinCall "effect_resolve" [.var "__nodus_aid"])
  | .guard => .ifElse (.attr (.var "__nodus_st") "done")
      (.block [.returnStmt (some (.attr (.attr (.var "__nodus_st") "cached") "result"))]) none
  | .pending => .exprStmt (builtinCall "effect_pending" [.var "__nodus_aid", .str ""])
  | .body => .letDecl "__nodus_res"
      (.call (.fnExpr [] (.block (returnLast (bodyStmts body))) none none) [])
  | .complete => .exprStmt (builtinCall "effect_complete"
      [.var "__nodus_aid", .str "success", .mapLit [(.str "result", .var "__nodus_res")]])
  | .ret => .returnStmt (some (.var "__nodus_res"))

/-- `_lower_exactly_once`. -/
def lowerExactlyOnce (name : Name) (params : List Param) (body : Stmt) (returnType : Option String) : Stmt :=
  .fnDef name params (.block (envelope.map (·.toStmt name params body))) returnType none

/-! ### The effect store -/

structure EffectRecord where
  status : String
  inputHash : String
  result : Option (List (String × Datum)) := none

abbrev EffectStore := List (String × EffectRecord)

namespace EffectStore

/-- `resolve`: whether the action was completed, and with what. -/
def resolve (store : EffectStore) (aid : String) : Option (Option (List (String × Datum))) :=
  match store.lookup aid with
  | some r => if r.status = "success" then some r.result else none
  | none => none

def pending (store : EffectStore) (aid inputHash : String) : EffectStore :=
  if (store.lookup aid).isSome then store else dictSet aid { status := "pending", inputHash } store

def complete (store : EffectStore) (aid status : String) (result : Option (List (String × Datum))) : EffectStore :=
  match store.lookup aid with
  | some r => dictSet aid { r with status, result } store
  | none => store

theorem lookup_pending {store : EffectStore} {aid inputHash key : String} {r : EffectRecord}
    (hr : (store.pending aid inputHash).lookup key = some r) :
    store.lookup key = some r ∨ r.status = "pending" := by
  unfold pending at hr
  split at hr
  · exact .inl hr
  · by_cases hk : key = aid
    · subst hk
      rw [lookup_dictSet_self] at hr
      cases hr
      exact .inr rfl
    · rw [lookup_dictSet_of_ne _ _ hk] at hr
      exact .inl hr

theorem lookup_pending_of_some {store : EffectStore} {aid inputHash key : String} {r : EffectRecord}
    (hr : store.lookup key = some r) : (store.pending aid inputHash).lookup key = some r := by
  unfold pending
  split
  · exact hr
  · rename_i hnone
    have hk : key ≠ aid := by
      rintro rfl
      rw [hr] at hnone
      exact hnone rfl
    rw [lookup_dictSet_of_ne _ _ hk, hr]

theorem isSome_lookup_pending (store : EffectStore) (aid inputHash : String) :
    ((store.pending aid inputHash).lookup aid).isSome := by
  unfold pending
  split
  · assumption
  · rw [lookup_dictSet_self]
    rfl

theorem lookup_complete_self {store : EffectStore} {aid status : String}
    {result : Option (List (String × Datum))} (hs : (store.lookup aid).isSome) :
    ∃ r, (store.complete aid status result).lookup aid = some r ∧ r.status = status ∧ r.result = result := by
  obtain ⟨r, hr⟩ := Option.isSome_iff_exists.mp hs
  refine ⟨{ r with status, result }, ?_, rfl, rfl⟩
  simp only [complete, hr, lookup_dictSet_self]

theorem lookup_complete_of_ne {store : EffectStore} {aid status key : String}
    {result : Option (List (String × Datum))} (hk : key ≠ aid) :
    (store.complete aid status result).lookup key = store.lookup key := by
  unfold complete
  split
  · exact lookup_dictSet_of_ne _ _ hk
  · rfl

end EffectStore

/-! ### Calls -/

/-- An annotated function: which one it is, its bare name, and its parameters. -/
structure OnceFn where
  id : Nat
  name : Name
  params : List Name
  deriving DecidableEq, Repr

/-- How far a call is in the envelope. -/
inductive Stage where
  | entered
  | identified
  | resolved (answer : Option (Option (List (String × Datum))))
  | missed
  | marked
  | running
  | ran (res : Datum)
  | completed (res : Datum)
  | answered (res : Datum)
  | returned (res : Datum)
  | raised

structure OnceCall where
  fn : OnceFn
  args : List Datum
  stage : Stage := .entered

/-- The id that `__nodus_aid` is set to. -/
def OnceCall.aid (h : Hashing) (c : OnceCall) : String :=
  h.effectActionId c.fn.name ((c.fn.params.map .str).zip c.args) "default"

/-- The VM, as far as the envelopes go: its effect store and the calls made on it. -/
structure OnceWorld where
  store : EffectStore := []
  calls : List OnceCall := []

/-- What happens next: a call is made, a call goes on to the next statement of its envelope, its body ends, it is
left by an error or a cancellation, or the program uses the store itself. -/
inductive OnceAction where
  | call (fn : OnceFn) (args : List Datum)
  | advance (i : Nat)
  | bodyReturns (i : Nat) (res : Datum)
  | raises (i : Nat)
  | directPending (aid inputHash : String)
  | directComplete (aid status : String) (result : Option (List (String × Datum)))

namespace OnceWorld

variable (h : Hashing)

def setStage (w : OnceWorld) (i : Nat) (c : OnceCall) (stage : Stage) : OnceWorld :=
  { w with calls := w.calls.set i { c with stage } }

/-- The next statement of the envelope of call `i`. -/
def advance (w : OnceWorld) (i : Nat) (c : OnceCall) : OnceWorld :=
  match c.stage with
  | .entered => w.setStage i c .identified
  | .identified => w.setStage i c (.resolved (w.store.resolve (c.aid h)))
  | .resolved none => w.setStage i c .missed
  | .resolved (some cached) =>
      match cached.bind (·.lookup "result") with
      | some res => w.setStage i c (.answered res)
      | none => w.setStage i c .raised
  | .missed => { w.setStage i c .marked with store := w.store.pending (c.aid h) "" }
  | .marked => w.setStage i c .running
  | .ran res =>
      { w.setStage i c (.completed res) with
        store := w.store.complete (c.aid h) "success" (some [("result", res)]) }
  | .completed res => w.setStage i c (.returned res)
  | .running | .answered _ | .returned _ | .raised => w

/-- One step; a call that is not there or not that far stays as it is. -/
def step (w : OnceWorld) : OnceAction → OnceWorld
  | .call fn args => { w with calls := w.calls ++ [{ fn := fn, args := args }] }
  | .advance i =>
      match w.calls[i]? with
      | some c => w.advance h i c
      | none => w
  | .bodyReturns i res =>
      match w.calls[i]? with
      | some c =>
          match c.stage with
          | .running => w.setStage i c (.ran res)
          | _ => w
      | none => w
  | .raises i =>
      match w.calls[i]? with
      | some c =>
          match c.stage with
          | .completed _ | .answered _ | .returned _ | .raised => w
          | _ => w.setStage i c .raised
      | none => w
  | .directPending aid inputHash => { w with store := w.store.pending aid inputHash }
  | .directComplete aid status result => { w with store := w.store.complete aid status result }

end OnceWorld

/-- The statements of the envelope that are left; the body is left until it has returned. -/
def Stage.rest : Stage → List EnvelopeStmt
  | .entered => envelope
  | .identified => [.resolve, .guard, .pending, .body, .complete, .ret]
  | .resolved _ => [.guard, .pending, .body, .complete, .ret]
  | .missed => [.pending, .body, .complete, .ret]
  | .marked | .running => [.body, .complete, .ret]
  | .ran _ => [.complete, .ret]
  | .completed _ => [.ret]
  | .answered _ | .returned _ | .raised => []

/-! ### Careful runs -/

namespace Stage

/-- The call has looked its id up, found nothing, and not completed yet. -/
def inFlight : Stage → Bool
  | .resolved none | .missed | .marked | .running | .ran _ => true
  | _ => false

/-- The id of the call has a record, unless the program interferes. -/
def isMarked : Stage → Bool
  | .marked | .running | .ran _ => true
  | _ => false

/-- What the body of a completed call returned. -/
def result : Stage → Option Datum
  | .completed res | .returned res => some res
  | _ => none

end Stage

/-- The calls are of the same function, with equal arguments. -/
def OnceCall.Matches (same : List Datum → List Datum → Prop) (c c' : OnceCall) : Prop :=
  c.fn = c'.fn ∧ same c.args c'.args

namespace OnceWorld

variable {h : Hashing} {same : List Datum → List Datum → Prop} {w w' : OnceWorld}

/-- A step the envelope is made for: ids tell calls apart exactly if they do not match, no call looks its id up
while one with the same id is in flight, and the program leaves the store alone. -/
def Careful (h : Hashing) (same : List Datum → List Datum → Prop) (w : OnceWorld) : OnceAction → Prop
  | .call fn args => ∀ c ∈ w.calls,
      (c.aid h = OnceCall.aid h { fn := fn, args := args } ↔ c.Matches same { fn := fn, args := args }) ∧
      (c.aid h = OnceCall.aid h { fn := fn, args := args } ↔ OnceCall.Matches same { fn := fn, args := args } c)
  | .advance i => ∀ c, w.calls[i]? = some c → c.stage = .identified →
      ∀ c' ∈ w.calls, c'.stage.inFlight = true → c'.aid h ≠ c.aid h
  | .bodyReturns _ _ | .raises _ => True
  | .directPending _ _ | .directComplete _ _ _ => False

/-- A call with this id has completed with this result. -/
def Completed (h : Hashing) (w : OnceWorld) (aid : String) (res : Datum) : Prop :=
  ∃ (j : Nat) (c : OnceCall), w.calls[j]? = some c ∧ c.aid h = aid ∧ c.stage.result = some res

/-- The invariant of careful runs. -/
structure Inv (h : Hashing) (same : List Datum → List Datum → Prop) (w : OnceWorld) : Prop where
  ids : ∀ {i j : Nat} {c c' : OnceCall}, i ≠ j → w.calls[i]? = some c → w.calls[j]? = some c' →
    (c.aid h = c'.aid h ↔ c.Matches same c')
  recorded : ∀ {aid : String} {r : EffectRecord}, w.store.lookup aid = some r → r.status = "success" →
    ∃ res, w.Completed h aid res ∧ r.result = some [("result", res)]
  kept : ∀ {aid : String} {res : Datum}, w.Completed h aid res →
    ∃ r, w.store.lookup aid = some r ∧ r.status = "success"
  marked : ∀ {i : Nat} {c : OnceCall}, w.calls[i]? = some c → c.stage.isMarked = true →
    (w.store.lookup (c.aid h)).isSome
  alone : ∀ {i j : Nat} {c c' : OnceCall}, i ≠ j → w.calls[i]? = some c → w.calls[j]? = some c' →
    c.stage.inFlight = true → c'.stage.inFlight = true → c.aid h ≠ c'.aid h
  unanswered : ∀ {i : Nat} {c : OnceCall} {r : EffectRecord}, w.calls[i]? = some c → c.stage.inFlight = true →
    w.store.lookup (c.aid h) = some r → r.status ≠ "success"
  hit : ∀ {i : Nat} {c : OnceCall} {cached : Option (List (String × Datum))}, w.calls[i]? = some c →
    c.stage = .resolved (some cached) → ∃ res, w.Completed h (c.aid h) res ∧ cached = some [("result", res)]
  answered : ∀ {i : Nat} {c : OnceCall} {res : Datum}, w.calls[i]? = some c → c.stage = .answered res →
    w.Completed h (c.aid h) res

theorem inv_empty : Inv h same {} where
  ids _ hc := nomatch hc
  recorded hr := nomatch hr
  kept hc := by
    obtain ⟨j, c, hc, -⟩ := hc
    cases hc
  marked hc := nomatch hc
  alone _ hc := nomatch hc
  unanswered hc := nomatch hc
  hit hc := nomatch hc
  answered hc := nomatch hc

section moves

variable {i : Nat} {c : OnceCall} {s : Stage} {st : EffectStore}

/-- The world after call `i` has come to stage `s`, with the store as it is then. -/
def moved (w : OnceWorld) (i : Nat) (c : OnceCall) (s : Stage) (st : EffectStore) : OnceWorld :=
  { w.setStage i c s with store := st }

theorem moved_self (hc : w.calls[i]? = some c) : (w.moved i c s st).calls[i]? = some { c with stage := s } := by
  obtain ⟨hlt, -⟩ := List.getElem?_eq_some_iff.mp hc
  exact List.getElem?_set_self hlt

theorem moved_other {j : Nat} (hj : j ≠ i) : (w.moved i c s st).calls[j]? = w.calls[j]? :=
  List.getElem?_set_ne (Ne.symm hj)

theorem moved_get {j : Nat} {c' : OnceCall} (hc : w.calls[i]? = some c)
    (hj : (w.moved i c s st).calls[j]? = some c') :
    j = i ∧ c' = { c with stage := s } ∨ j ≠ i ∧ w.calls[j]? = some c' := by
  by_cases he : j = i
  · subst he
    rw [moved_self hc] at hj
    exact .inl ⟨rfl, (Option.some.inj hj).symm⟩
  · rw [moved_other he] at hj
    exact .inr ⟨he, hj⟩

theorem completed_moved {aid : String} {res : Datum} (hc : w.calls[i]? = some c)
    (hkeep : ∀ r, c.stage.result = some r → s.result = some r) (hd : w.Completed h aid res) :
    (w.moved i c s st).Completed h aid res := by
  obtain ⟨j, c', hj, haid, hres⟩ := hd
  by_cases he : j = i
  · subst he
    cases hc.symm.trans hj
    exact ⟨j, _, moved_self hc, haid, hkeep res hres⟩
  · exact ⟨j, c', (moved_other he).trans hj, haid, hres⟩

theorem completed_of_moved {aid : String} {res : Datum} (hc : w.calls[i]? = some c)
    (hd : (w.moved i c s st).Completed h aid res) :
    aid = c.aid h ∧ s.result = some res ∨ w.Completed h aid res := by
  obtain ⟨j, c', hj, haid, hres⟩ := hd
  obtain ⟨rfl, rfl⟩ | ⟨-, hj⟩ := moved_get hc hj
  · exact .inl ⟨haid.symm, hres⟩
  · exact .inr ⟨j, c', hj, haid, hres⟩

theorem Inv.ids_moved (hi : Inv h same w) (hc : w.calls[i]? = some c) {j k : Nat} {c₁ c₂ : OnceCall} (hne : j ≠ k)
    (h₁ : (w.moved i c s st).calls[j]? = some c₁) (h₂ : (w.moved i c s st).calls[k]? = some c₂) :
    c₁.aid h = c₂.aid h ↔ c₁.Matches same c₂ := by
  obtain ⟨rfl, rfl⟩ | ⟨-, hj⟩ := moved_get hc h₁
  · obtain ⟨rfl, rfl⟩ | ⟨-, hk⟩ := moved_get hc h₂
    · exact absurd rfl hne
    · have := hi.ids hne hc hk
      exact this
  · obtain ⟨rfl, rfl⟩ | ⟨-, hk⟩ := moved_get hc h₂
    · have := hi.ids hne hj hc
      exact this
    · exact hi.ids hne hj hk

/-- A move that leaves the store alone. A call may come into flight only if its id is free and not answered, and
hold an answer only if a call with its id has completed. -/
theorem Inv.moved_stage (hi : Inv h same w) (hc : w.calls[i]? = some c)
    (hres : c.stage.result = s.result)
    (hflight : s.inFlight = true → c.stage.inFlight = true ∨
      ((∀ c' ∈ w.calls, c'.stage.inFlight = true → c'.aid h ≠ c.aid h) ∧
        ∀ r, w.store.lookup (c.aid h) = some r → r.status ≠ "success"))
    (hmark : s.isMarked = true → c.stage.isMarked = true)
    (hhit : ∀ cached, s = .resolved (some cached) →
      ∃ res, w.Completed h (c.aid h) res ∧ cached = some [("result", res)])
    (hans : ∀ res, s = .answered res → w.Completed h (c.aid h) res) :
    Inv h same (w.moved i c s w.store) := by
  have hkeep : ∀ r, c.stage.result = some r → s.result = some r := fun r hr => hres ▸ hr
  have hfree : s.inFlight = true → ∀ j c', j ≠ i → w.calls[j]? = some c' → c'.stage.inFlight = true →
      c'.aid h ≠ c.aid h := by
    intro hs j c' hj hc' hf
    obtain hf' | ⟨hfree, -⟩ := hflight hs
    · exact hi.alone hj hc' hc hf hf'
    · exact hfree c' (List.mem_of_getElem? hc') hf
  refine ⟨hi.ids_moved hc, ?_, ?_, ?_, ?_, ?_, ?_, ?_⟩
  · intro aid r hr hsucc
    obtain ⟨res, hd, hrr⟩ := hi.recorded hr hsucc
    exact ⟨res, completed_moved hc hkeep hd, hrr⟩
  · intro aid res hd
    obtain ⟨rfl, hsr⟩ | hd := completed_of_moved hc hd
    · exact hi.kept ⟨i, c, hc, rfl, hres ▸ hsr⟩
    · exact hi.kept hd
  · intro j c' hj hm
    obtain ⟨rfl, rfl⟩ | ⟨-, hj⟩ := moved_get hc hj
    · have := hi.marked hc (hmark hm)
      exact this
    · exact hi.marked hj hm
  · intro j k c₁ c₂ hne h₁ h₂ hf₁ hf₂
    obtain ⟨rfl, rfl⟩ | ⟨hj, hj'⟩ := moved_get hc h₁
    · obtain ⟨rfl, rfl⟩ | ⟨hk, hk'⟩ := moved_get hc h₂
      · exact absurd rfl hne
      · exact Ne.symm (hfree hf₁ k c₂ hk hk' hf₂)
    · obtain ⟨rfl, rfl⟩ | ⟨-, hk'⟩ := moved_get hc h₂
      · exact hfree hf₂ j c₁ hj hj' hf₁
      · exact hi.alone hne hj' hk' hf₁ hf₂
  · intro j c' r hj hf hr
    obtain ⟨rfl, rfl⟩ | ⟨-, hj⟩ := moved_get hc hj
    · obtain hf' | ⟨-, hno⟩ := hflight hf
      · exact hi.unanswered hc hf' hr
      · exact hno r hr
    · exact hi.unanswered hj hf hr
  · intro j c' cached hj hs
    obtain ⟨rfl, rfl⟩ | ⟨-, hj⟩ := moved_get hc hj
    · obtain ⟨res, hd, hcached⟩ := hhit cached hs
      exact ⟨res, completed_moved hc hkeep hd, hcached⟩
    · obtain ⟨res, hd, hcached⟩ := hi.hit hj hs
      exact ⟨res, completed_moved hc hkeep hd, hcached⟩
  · intro j c' res hj hs
    obtain ⟨rfl, rfl⟩ | ⟨-, hj⟩ := moved_get hc hj
    · exact completed_moved hc hkeep (hans res hs)
    · exact completed_moved hc hkeep (hi.answered hj hs)

theorem Inv.moved_pending (hi : Inv h same w) (hc : w.calls[i]? = some c) (hs : c.stage = .missed) :
    Inv h same (w.moved i c .marked (w.store.pending (c.aid h) "")) := by
  have hkeep : ∀ r, c.stage.result = some r → Stage.marked.result = some r := by
    rw [hs]
    exact fun r hr => hr
  have hflight : c.stage.inFlight = true := by rw [hs]; rfl
  refine ⟨hi.ids_moved hc, ?_, ?_, ?_, ?_, ?_, ?_, ?_⟩
  · intro aid r hr hsucc
    obtain hr | hpending := EffectStore.lookup_pending hr
    · obtain ⟨res, hd, hrr⟩ := hi.recorded hr hsucc
      exact ⟨res, completed_moved hc hkeep hd, hrr⟩
    · rw [hpending] at hsucc
      exact absurd hsucc (by decide)
  · intro aid res hd
    obtain ⟨-, hres⟩ | hd := completed_of_moved hc hd
    · cases hres
    · obtain ⟨r, hr, hsucc⟩ := hi.kept hd
      exact ⟨r, EffectStore.lookup_pending_of_some hr, hsucc⟩
  · intro j c' hj hm
    obtain ⟨rfl, rfl⟩ | ⟨-, hj⟩ := moved_get hc hj
    · exact EffectStore.isSome_lookup_pending _ _ _
    · obtain ⟨r, hr⟩ := Option.isSome_iff_exists.mp (hi.marked hj hm)
      exact Option.isSome_iff_exists.mpr ⟨r, EffectStore.lookup_pending_of_some hr⟩
  · intro j k c₁ c₂ hne h₁ h₂ hf₁ hf₂
    obtain ⟨rfl, rfl⟩ | ⟨-, hj⟩ := moved_get hc h₁
    · obtain ⟨rfl, rfl⟩ | ⟨-, hk⟩ := moved_get hc h₂
      · exact absurd rfl hne
      · have := hi.alone hne hc hk hflight hf₂
        exact this
    · obtain ⟨rfl, rfl⟩ | ⟨-, hk⟩ := moved_get hc h₂
      · have := hi.alone hne hj hc hf₁ hflight
        exact this
      · exact hi.alone hne hj hk hf₁ hf₂
  · intro j c' r hj hf hr hsucc
    obtain hold | hpending := EffectStore.lookup_pending hr
    · obtain ⟨rfl, rfl⟩ | ⟨-, hj'⟩ := moved_get hc hj
      · exact hi.unanswered hc hflight hold hsucc
      · exact hi.unanswered hj' hf hold hsucc
    · rw [hpending] at hsucc
      exact absurd hsucc (by decide)
  · intro j c' cached hj hcached
    obtain ⟨rfl, rfl⟩ | ⟨-, hj⟩ := moved_get hc hj
    · cases hcached
    · obtain ⟨res, hd, hres⟩ := hi.hit hj hcached
      exact ⟨res, completed_moved hc hkeep hd, hres⟩
  · intro j c' res hj hans
    obtain ⟨rfl, rfl⟩ | ⟨-, hj⟩ := moved_get hc hj
    · cases hans
    · exact completed_moved hc hkeep (hi.answered hj hans)

theorem Inv.moved_complete (hi : Inv h same w) (hc : w.calls[i]? = some c) {res : Datum} (hs : c.stage = .ran res) :
    Inv h same (w.moved i c (.completed res)
      (w.store.complete (c.aid h) "success" (some [("result", res)]))) := by
  have hkeep : ∀ r, c.stage.result = some r → (Stage.completed res).result = some r := by
    rw [hs]
    exact fun r hr => nomatch hr
  have hflight : c.stage.inFlight = true := by rw [hs]; rfl
  have hmark : (w.store.lookup (c.aid h)).isSome := hi.marked hc (by rw [hs]; rfl)
  obtain ⟨new, hnew, hstatus, hresult⟩ : ∃ r, (w.store.complete (c.aid h) "success"
      (some [("result", res)])).lookup (c.aid h) = some r ∧ _ := EffectStore.lookup_complete_self hmark
  have hdone : (w.moved i c (.completed res) (w.store.complete (c.aid h) "success"
      (some [("result", res)]))).Completed h (c.aid h) res := ⟨i, _, moved_self hc, rfl, rfl⟩
  refine ⟨hi.ids_moved hc, ?_, ?_, ?_, ?_, ?_, ?_, ?_⟩
  · intro aid r hr hsucc
    by_cases he : aid = c.aid h
    · subst he
      cases hnew.symm.trans hr
      exact ⟨res, hdone, hresult⟩
    · have hr' := (EffectStore.lookup_complete_of_ne he).symm.trans hr
      obtain ⟨res', hd, hrr⟩ := hi.recorded hr' hsucc
      exact ⟨res', completed_moved hc hkeep hd, hrr⟩
  · intro aid res' hd
    by_cases he : aid = c.aid h
    · subst he
      exact ⟨new, hnew, hstatus⟩
    · obtain ⟨rfl, -⟩ | hd := completed_of_moved hc hd
      · exact absurd rfl he
      · obtain ⟨r, hr, hsucc⟩ := hi.kept hd
        exact ⟨r, (EffectStore.lookup_complete_of_ne he).trans hr, hsucc⟩
  · intro j c' hj hm
    by_cases he : c'.aid h = c.aid h
    · rw [he]
      exact Option.isSome_iff_exists.mpr ⟨new, hnew⟩
    · obtain ⟨rfl, rfl⟩ | ⟨-, hj⟩ := moved_get hc hj
      · cases hm
      · have := hi.marked hj hm
        rwa [← EffectStore.lookup_complete_of_ne he] at this
  · intro j k c₁ c₂ hne h₁ h₂ hf₁ hf₂
    obtain ⟨rfl, rfl⟩ | ⟨-, hj⟩ := moved_get hc h₁
    · cases hf₁
    · obtain ⟨rfl, rfl⟩ | ⟨-, hk⟩ := moved_get hc h₂
      · cases hf₂
      · exact hi.alone hne hj hk hf₁ hf₂
  · intro j c' r hj hf hr
    obtain ⟨rfl, rfl⟩ | ⟨hne, hj⟩ := moved_get hc hj
    · cases hf
    · have he : c'.aid h ≠ c.aid h := hi.alone hne hj hc hf hflight
      exact hi.unanswered hj hf ((EffectStore.lookup_complete_of_ne he).symm.trans hr)
  · intro j c' cached hj hcached
    obtain ⟨rfl, rfl⟩ | ⟨-, hj⟩ := moved_get hc hj
    · cases hcached
    · obtain ⟨res', hd, hres⟩ := hi.hit hj hcached
      exact ⟨res', completed_moved hc hkeep hd, hres⟩
  · intro j c' res' hj hans
    obtain ⟨rfl, rfl⟩ | ⟨-, hj⟩ := moved_get hc hj
    · cases hans
    · exact completed_moved hc hkeep (hi.answered hj hans)

end moves

theorem Inv.called (hi : Inv h same w) {fn : OnceFn} {args : List Datum} (hcare : w.Careful h same (.call fn args)) :
    Inv h same { w with calls := w.calls ++ [{ fn := fn, args := args }] } := by
  have hget : ∀ {j : Nat} {c : OnceCall}, (w.calls ++ [{ fn := fn, args := args }])[j]? = some c →
      w.calls[j]? = some c ∨ j = w.calls.length ∧ c = { fn := fn, args := args } := by
    intro j c hj
    by_cases hlt : j < w.calls.length
    · rw [List.getElem?_append_left hlt] at hj
      exact .inl hj
    · rw [List.getElem?_append_right (Nat.le_of_not_lt hlt), List.getElem?_singleton] at hj
      split at hj
      · cases hj
        exact .inr ⟨by omega, rfl⟩
      · cases hj
  have hmono : ∀ {aid : String} {res : Datum}, w.Completed h aid res →
      ({ w with calls := w.calls ++ [{ fn := fn, args := args }] } : OnceWorld).Completed h aid res := by
    rintro aid res ⟨j, c, hj, haid, hres⟩
    obtain ⟨hlt, -⟩ := List.getElem?_eq_some_iff.mp hj
    exact ⟨j, c, (List.getElem?_append_left hlt).trans hj, haid, hres⟩
  refine ⟨?_, ?_, ?_, ?_, ?_, ?_, ?_, ?_⟩
  · intro i j c c' hne h₁ h₂
    obtain h₁ | ⟨rfl, rfl⟩ := hget h₁
    · obtain h₂ | ⟨rfl, rfl⟩ := hget h₂
      · exact hi.ids hne h₁ h₂
      · exact (hcare c (List.mem_of_getElem? h₁)).1
    · obtain h₂ | ⟨rfl, rfl⟩ := hget h₂
      · exact eq_comm.trans (hcare c' (List.mem_of_getElem? h₂)).2
      · exact absurd rfl hne
  · intro aid r hr hsucc
    obtain ⟨res, hd, hrr⟩ := hi.recorded hr hsucc
    exact ⟨res, hmono hd, hrr⟩
  · rintro aid res ⟨j, c, hj, haid, hres⟩
    obtain hj | ⟨rfl, rfl⟩ := hget hj
    · exact hi.kept ⟨j, c, hj, haid, hres⟩
    · cases hres
  · intro j c hj hm
    obtain hj | ⟨rfl, rfl⟩ := hget hj
    · exact hi.marked hj hm
    · cases hm
  · intro i j c c' hne h₁ h₂ hf₁ hf₂
    obtain h₁ | ⟨rfl, rfl⟩ := hget h₁
    · obtain h₂ | ⟨rfl, rfl⟩ := hget h₂
      · exact hi.alone hne h₁ h₂ hf₁ hf₂
      · cases hf₂
    · cases hf₁
  · intro j c r hj hf hr
    obtain hj | ⟨rfl, rfl⟩ := hget hj
    · exact hi.unanswered hj hf hr
    · cases hf
  · intro j c cached hj hs
    obtain hj | ⟨rfl, rfl⟩ := hget hj
    · obtain ⟨res, hd, hcached⟩ := hi.hit hj hs
      exact ⟨res, hmono hd, hcached⟩
    · cases hs
  · intro j c res hj hs
    obtain hj | ⟨rfl, rfl⟩ := hget hj
    · exact hmono (hi.answered hj hs)
    · cases hs

theorem Inv.resolve_hit (hi : Inv h same w) {aid : String} {cached : Option (List (String × Datum))}
    (hr : w.store.resolve aid = some cached) : ∃ res, w.Completed h aid res ∧ cached = some [("result", res)] := by
  unfold EffectStore.resolve at hr
  split at hr
  · rename_i r hl
    split at hr
    · rename_i hsucc
      cases hr
      exact hi.recorded hl hsucc
    · cases hr
  · cases hr

theorem resolve_none {store : EffectStore} {aid : String} {r : EffectRecord} (hr : store.resolve aid = none)
    (hl : store.lookup aid = some r) : r.status ≠ "success" := by
  intro hsucc
  simp [EffectStore.resolve, hl, hsucc] at hr

theorem Inv.advance (hi : Inv h same w) {i : Nat} {c : OnceCall} (hc : w.calls[i]? = some c)
    (hcare : c.stage = .identified → ∀ c' ∈ w.calls, c'.stage.inFlight = true → c'.aid h ≠ c.aid h) :
    Inv h same (w.advance h i c) := by
  unfold OnceWorld.advance
  split
  · rename_i hs
    exact hi.moved_stage hc (by rw [hs]; rfl) (fun hf => nomatch hf) (fun hm => nomatch hm)
      (fun _ he => nomatch he) (fun _ he => nomatch he)
  · rename_i hs
    refine hi.moved_stage hc (by rw [hs]; rfl) (fun hf => .inr ⟨hcare hs, fun r hr => ?_⟩) (fun hm => nomatch hm)
      (fun cached he => ?_) (fun _ he => nomatch he)
    · cases hres : w.store.resolve (c.aid h) with
      | none => exact resolve_none hres hr
      | some cached =>
          rw [hres] at hf
          cases hf
    · injection he with he
      exact hi.resolve_hit he
  · rename_i hs
    exact hi.moved_stage hc (by rw [hs]; rfl) (fun _ => .inl (by rw [hs]; rfl)) (fun hm => nomatch hm)
      (fun _ he => nomatch he) (fun _ he => nomatch he)
  · rename_i cached hs
    obtain ⟨res, hd, hcached⟩ := hi.hit hc hs
    subst hcached
    refine hi.moved_stage hc (by rw [hs]; rfl) (fun hf => nomatch hf) (fun hm => nomatch hm)
      (fun _ he => nomatch he) (fun res' he => ?_)
    injection he with he
    subst he
    exact hd
  · rename_i hs
    exact hi.moved_pending hc hs
  · rename_i hs
    exact hi.moved_stage hc (by rw [hs]; rfl) (fun _ => .inl (by rw [hs]; rfl)) (fun _ => by rw [hs]; rfl)
      (fun _ he => nomatch he) (fun _ he => nomatch he)
  · rename_i res hs
    exact hi.moved_complete hc hs
  · rename_i res hs
    exact hi.moved_stage hc (by rw [hs]; rfl) (fun hf => nomatch hf) (fun hm => nomatch hm)
      (fun _ he => nomatch he) (fun _ he => nomatch he)
  all_goals exact hi

theorem Inv.step (hi : Inv h same w) {a : OnceAction} (hcare : w.Careful h same a) : Inv h same (w.step h a) := by
  cases a with
  | call fn args => exact hi.called hcare
  | advance i =>
      simp only [OnceWorld.step]
      split
      · rename_i c hc
        exact hi.advance hc (hcare c hc)
      · exact hi
  | bodyReturns i res =>
      simp only [OnceWorld.step]
      split
      · rename_i c hc
        split
        · rename_i hs
          exact hi.moved_stage hc (by rw [hs]; rfl) (fun _ => .inl (by rw [hs]; rfl)) (fun _ => by rw [hs]; rfl)
            (fun _ he => nomatch he) (fun _ he => nomatch he)
        · exact hi
      · exact hi
  | raises i =>
      simp only [OnceWorld.step]
      split
      · rename_i c hc
        have hraised : c.stage.result = none → Inv h same (w.moved i c .raised w.store) := fun hres =>
          hi.moved_stage hc hres (fun hf => nomatch hf) (fun hm => nomatch hm) (fun _ he => nomatch he)
            (fun _ he => nomatch he)
        split
        all_goals first | exact hi | skip
        refine hraised ?_
        cases hs : c.stage <;> simp_all [Stage.result]
      · exact hi
  | directPending aid inputHash => exact hcare.elim
  | directComplete aid status result => exact hcare.elim

theorem answered_of_step {a : OnceAction} {i : Nat} {c' : OnceCall} {res : Datum}
    (hc' : (w.step h a).calls[i]? = some c') (hs : c'.stage = .answered res) :
    w.calls[i]? = some c' ∨ ∃ c cached, w.calls[i]? = some c ∧ c.stage = .resolved (some cached) ∧
      cached.bind (·.lookup "result") = some res ∧ c' = { c with stage := .answered res } := by
  have hmoved : ∀ {j : Nat} {c : OnceCall} {s : Stage} {st : EffectStore}, w.calls[j]? = some c →
      (w.moved j c s st).calls[i]? = some c' → (s = .answered res → ∃ cached,
        c.stage = .resolved (some cached) ∧ cached.bind (·.lookup "result") = some res) →
      w.calls[i]? = some c' ∨ ∃ c cached, w.calls[i]? = some c ∧ c.stage = .resolved (some cached) ∧
        cached.bind (·.lookup "result") = some res ∧ c' = { c with stage := .answered res } := by
    intro j c s st hc hget hans
    obtain ⟨rfl, rfl⟩ | ⟨-, hget⟩ := moved_get hc hget
    · obtain ⟨cached, hcs, hl⟩ := hans hs
      have hse : s = .answered res := hs
      exact .inr ⟨c, cached, hc, hcs, hl, by rw [hse]⟩
    · exact .inl hget
  cases a with
  | call fn args =>
      simp only [OnceWorld.step] at hc'
      rw [List.getElem?_append] at hc'
      split at hc'
      · exact .inl hc'
      · rw [List.getElem?_singleton] at hc'
        split at hc'
        · cases hc'
          cases hs
        · cases hc'
  | advance j =>
      simp only [OnceWorld.step] at hc'
      split at hc'
      · rename_i c hc
        unfold OnceWorld.advance at hc'
        split at hc'
        · exact hmoved hc hc' fun he => nomatch he
        · exact hmoved hc hc' fun he => nomatch he
        · exact hmoved hc hc' fun he => nomatch he
        · rename_i cached hcs
          split at hc'
          · rename_i res' hl
            refine hmoved hc hc' fun he => ⟨cached, hcs, ?_⟩
            injection he with he
            rw [hl, he]
          · exact hmoved hc hc' fun he => nomatch he
        · exact hmoved hc hc' fun he => nomatch he
        · exact hmoved hc hc' fun he => nomatch he
        · exact hmoved hc hc' fun he => nomatch he
        · exact hmoved hc hc' fun he => nomatch he
        all_goals exact .inl hc'
      · exact .inl hc'
  | bodyReturns j res' =>
      simp only [OnceWorld.step] at hc'
      split at hc'
      · rename_i c hc
        split at hc'
        · exact hmoved hc hc' fun he => nomatch he
        · exact .inl hc'
      · exact .inl hc'
  | raises j =>
      simp only [OnceWorld.step] at hc'
      split at hc'
      · rename_i c hc
        split at hc'
        all_goals first | exact .inl hc' | exact hmoved hc hc' fun he => nomatch he
      · exact .inl hc'
  | directPending aid inputHash => exact .inl hc'
  | directComplete aid status result => exact .inl hc'

/-- A careful step of the VM. -/
def CarefulStep (h : Hashing) (same : List Datum → List Datum → Prop) (w w' : OnceWorld) : Prop :=
  ∃ a, w.Careful h same a ∧ w' = w.step h a

/-- Call `i` begins to execute its body. -/
def EntersBody (w w' : OnceWorld) (i : Nat) (c : OnceCall) : Prop :=
  w.calls[i]? = some c ∧ c.stage = .marked ∧ w'.calls[i]? = some { c with stage := .running }

theorem inv_run {tr : Nat → OnceWorld} {n : Nat} (h0 : tr 0 = {}) (hr : Trace.Run (CarefulStep h same) tr n) :
    ∀ k, k ≤ n → Inv h same (tr k) := by
  have hi : Inv h same (tr 0) := by
    rw [h0]
    exact inv_empty
  intro k hk
  refine hr.keeps (P := fun _ w => Inv h same w) hi (fun j _ _ hj hs => ?_) k (Nat.zero_le k) hk
  obtain ⟨a, hcare, hw⟩ := hs
  rw [hw]
  exact hj.step hcare

end OnceWorld

/-! ### Runs -/

/-- Ids that are the bare name of the function: enough to tell the functions of one module apart. -/
def nameHashing : Hashing where
  floatRepr _ := ""
  digest actionType _ _ := actionType

/-- `@exactly_once fn work()` of two modules. -/
def firstWork : OnceFn := ⟨0, "work", []⟩

def secondWork : OnceFn := ⟨1, "work", []⟩

/-- The VM after some steps. -/
def onceRun (actions : List OnceAction) : OnceWorld := actions.foldl (·.step nameHashing) {}

/-- A call of `firstWork` that returns 1. -/
def firstCall : List OnceAction :=
  [.call firstWork [], .advance 0, .advance 0, .advance 0, .advance 0, .advance 0, .bodyReturns 0 (.int 1),
    .advance 0, .advance 0]

/-- The same function called twice, one call after the other. -/
def calledTwice : List OnceAction :=
  firstCall ++ [.call firstWork [], .advance 1, .advance 1, .advance 1]

theorem careful_advance {h : Hashing} {same : List Datum → List Datum → Prop} {w : OnceWorld} {i : Nat}
    {c : OnceCall} (hc : w.calls[i]? = some c) (hs : c.stage ≠ .identified) : w.Careful h same (.advance i) := by
  intro c' hc' hs'
  cases hc.symm.trans hc'
  exact absurd hs' hs

theorem calledTwice_careful :
    Trace.Run (OnceWorld.CarefulStep nameHashing Eq) (fun k => onceRun (calledTwice.take k)) 13 := by
  have hfirst : (onceRun (calledTwice.take 9)).calls = [⟨firstWork, [], .returned (.int 1)⟩] := rfl
  have hsecond : (onceRun (calledTwice.take 11)).calls =
      [⟨firstWork, [], .returned (.int 1)⟩, ⟨firstWork, [], .identified⟩] := rfl
  intro k hk
  match k, hk with
  | 0, _ => exact ⟨.call firstWork [], (fun c hc => nomatch hc), rfl⟩
  | 1, _ => exact ⟨.advance 0, careful_advance rfl nofun, rfl⟩
  | 2, _ =>
      refine ⟨.advance 0, fun c hc hs c' hc' hf => ?_, rfl⟩
      cases List.mem_singleton.mp hc'
      cases hf
  | 3, _ => exact ⟨.advance 0, careful_advance rfl nofun, rfl⟩
  | 4, _ => exact ⟨.advance 0, careful_advance rfl nofun, rfl⟩
  | 5, _ => exact ⟨.advance 0, careful_advance rfl nofun, rfl⟩
  | 6, _ => exact ⟨.bodyReturns 0 (.int 1), trivial, rfl⟩
  | 7, _ => exact ⟨.advance 0, careful_advance rfl nofun, rfl⟩
  | 8, _ => exact ⟨.advance 0, careful_advance rfl nofun, rfl⟩
  | 9, _ =>
      refine ⟨.call firstWork [], fun c hc => ?_, rfl⟩
      dsimp only at hc
      rw [hfirst] at hc
      cases List.mem_singleton.mp hc
      exact ⟨⟨fun _ => ⟨rfl, rfl⟩, fun _ => rfl⟩, ⟨fun _ => ⟨rfl, rfl⟩, fun _ => rfl⟩⟩
  | 10, _ => exact ⟨.advance 1, careful_advance rfl nofun, rfl⟩
  | 11, _ =>
      refine ⟨.advance 1, fun c hc hs c' hc' hf => ?_, rfl⟩
      dsimp only at hc'
      rw [hsecond] at hc'
      simp only [List.mem_cons, List.not_mem_nil, or_false] at hc'
      obtain rfl | rfl := hc'
      · cases hf
      · cases hf
  | 12, _ => exact ⟨.advance 1, careful_advance rfl (by rintro ⟨⟩), rfl⟩

end Nodus
