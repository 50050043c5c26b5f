import Nodus.Binary64
import Nodus.JsonText

set_option linter.all false

/-! The builtins `json_parse` and `json_stringify`, and the equality of the language on what they give. -/

namespace Nodus.JsonValues

open JsonText

/-- A float: an integer, or another one. -/
inductive Double (F : Type) where
  | whole (n : Int)
  | other (x : F)
  deriving DecidableEq

inductive Value (F : Type) where
  | nil
  | bool (b : Bool)
  | int (n : Int)
  | float (x : Double F)
  | str (s : Text)
  | list (items : List (Value F))
  | map (entries : List (Text × Value F))
  | record (fields : List (Text × Value F))
  /-- A function, a channel, a coroutine, a task or a module. -/
  | handle (typeName : String)

variable {F : Type}

/-- The nested calls that the host allows in each conversion. -/
structure Limits where
  toJson : Nat
  dumps : Nat
  loads : Nat
  fromJson : Nat

/-! ### Writing -/

inductive ToJsonFault where
  /-- `RecursionError`. -/
  | recursion
  /-- `_JsonTypeError`. -/
  | type (nodusType : String)
  deriving DecidableEq, Repr

/-- `to_json_value`. -/
def toJsonValue : Nat → Value F → Except ToJsonFault (Json (Double F))
  | 0, _ => .error .recursion
  | _ + 1, .nil => .ok .null
  | _ + 1, .bool b => .ok (.bool b)
  | _ + 1, .int n => .ok (.int n)
  | _ + 1, .float (.whole n) => .ok (.int n)
  | _ + 1, .float (.other x) => .ok (.float (.other x))
  | _ + 1, .str s => .ok (.str s)
  | depth + 1, .list items => (items.mapM (toJsonValue depth)).map .arr
  | depth + 1, .map entries => (entries.mapM fun e => (toJsonValue depth e.2).map (e.1, ·)).map .obj
  | depth + 1, .record fields => (fields.mapM fun e => (toJsonValue depth e.2).map (e.1, ·)).map .obj
  | _ + 1, .handle typeName => .error (.type typeName)

inductive Stringified where
  | text (t : Text)
  /-- An error as a value. -/
  | error (kind message : String)
  deriving DecidableEq

/-- `json_stringify`. -/
def jsonStringify (floats : Floats (Double F)) (limits : Limits) (v : Value F) : Stringified :=
  match toJsonValue limits.toJson v with
  | .error (.type nodusType) => .error "type_error" ("cannot serialize to JSON: value of type " ++ nodusType ++ " is not JSON-compatible")
  | .error .recursion => .error "internal_error" "unexpected internal error in json.stringify"
  | .ok j =>
      match dumps floats limits.dumps j with
      | some t => .text t
      | none => .error "internal_error" "unexpected internal error in json.stringify"

/-! ### Reading -/

/-- What is raised outside the error handling. -/
inductive HostFault where
  /-- `RecursionError`. -/
  | recursion
  /-- `OverflowError`. -/
  | overflow
  deriving DecidableEq, Repr

/-- `from_json_value`. -/
def fromJsonValue : Nat → Json (Double F) → Except HostFault (Value F)
  | 0, _ => .error .recursion
  | _ + 1, .null => .ok .nil
  | _ + 1, .bool b => .ok (.bool b)
  | _ + 1, .int n => (Binary64.ofInt n).elim (.error .overflow) fun x => .ok (.float (.whole x))
  | _ + 1, .float x => .ok (.float x)
  | _ + 1, .str s => .ok (.str s)
  | depth + 1, .arr items => (items.mapM (fromJsonValue depth)).map .list
  | depth + 1, .obj entries => (entries.mapM fun e => (fromJsonValue depth e.2).map (e.1, ·)).map .map

inductive Parsed (F : Type) where
  | value (v : Value F)
  /-- An error as a value. -/
  | error (kind : String)
  | raises (fault : HostFault)

/-- `json_parse` of a string. -/
def jsonParse (floats : Floats (Double F)) (limits : Limits) (t : Text) : Parsed F :=
  match loads floats limits.loads t with
  | .error .decode => .error "parse_error"
  | .error _ => .error "internal_error"
  | .ok j =>
      match fromJsonValue limits.fromJson j with
      | .ok v => .value v
      | .error fault => .raises fault

/-! ### Equality -/

/-- The number that a value is for the host language. -/
def numeric : Value F → Option (Double F)
  | .bool b => some (.whole (cond b 1 0))
  | .int n => some (.whole n)
  | .float x => some x
  | _ => none

/-- `==` of two numbers. -/
def sameNumber (same : F → F → Bool) : Double F → Double F → Bool
  | .whole m, .whole n => m == n
  | .other x, .other y => same x y
  | _, _ => false

/-- `all(…)` over a loop that may raise. -/
def allOf {A : Type} (f : A → Option Bool) : List A → Option Bool
  | [] => some true
  | a :: rest => (f a).bind fun b => if b then allOf f rest else some false

/-- `==` of the host language, where `eq` is `==` on what the values hold. Two records and two handles are different objects. -/
def hostEqWith (same : F → F → Bool) (eq : Value F → Value F → Option Bool) : Value F → Value F → Option Bool
  | .nil, .nil => some true
  | .str s, .str t => some (s == t)
  | .list xs, .list ys => if xs.length = ys.length then allOf (fun p => eq p.1 p.2) (xs.zip ys) else some false
  | .map xs, .map ys =>
      if xs.length = ys.length then allOf (fun e => (ys.lookup e.1).elim (some false) (eq e.2)) xs else some false
  | v, w =>
      match numeric v, numeric w with
      | some x, some y => some (sameNumber same x y)
      | _, _ => some false

/-- `==` of the host language with the depth that it allows, where `none` is that it raises. -/
def hostEq (same : F → F → Bool) : Nat → Value F → Value F → Option Bool
  | 0 => hostEqWith same fun _ _ => none
  | depth + 1 => hostEqWith same (hostEq same depth)

/-- `float(x)` of an integer or a float, where `none` is that there is no such float. -/
def toFloat : Value F → Option (Option (Double F))
  | .int n => some ((Binary64.ofInt n).map .whole)
  | .float x => some (some x)
  | _ => none

/-- `_nodus_eq`, where `none` is that it raises. -/
def nodusEq (same : F → F → Bool) (depth : Nat) (v w : Value F) : Option Bool :=
  match toFloat v, toFloat w with
  | some x, some y => x.bind fun x => y.map fun y => sameNumber same x y
  | _, _ =>
      match v, w with
      | .bool a, .bool b => some (a == b)
      | .bool _, _ => some false
      | _, .bool _ => some false
      | v, w => hostEq same depth v w

/-- Two values are equal in the language. -/
def Equal (same : F → F → Bool) (v w : Value F) : Prop := ∃ depth, nodusEq same depth v w = some true

/-! ### What the round trip should do -/

/-- The value is made of nil, booleans, integers, strings, lists, maps and records, with each key once. -/
inductive Storable : Value F → Prop where
  | nil : Storable .nil
  | bool (b : Bool) : Storable (.bool b)
  | int (n : Int) : Storable (.int n)
  | str (s : Text) : Storable (.str s)
  | list {items : List (Value F)} (h : ∀ v ∈ items, Storable v) : Storable (.list items)
  | map {entries : List (Text × Value F)} (hkeys : (entries.map Prod.fst).Nodup) (h : ∀ e ∈ entries, Storable e.2) : Storable (.map entries)
  | record {fields : List (Text × Value F)} (hkeys : (fields.map Prod.fst).Nodup) (h : ∀ e ∈ fields, Storable e.2) : Storable (.record fields)

/-- The second value has the map of its fields in the place of each record of the first. -/
inductive Maps : Value F → Value F → Prop where
  | nil : Maps .nil .nil
  | bool (b : Bool) : Maps (.bool b) (.bool b)
  | int (n : Int) : Maps (.int n) (.int n)
  | str (s : Text) : Maps (.str s) (.str s)
  | list {xs ys : List (Value F)} (hlength : xs.length = ys.length) (h : ∀ p ∈ xs.zip ys, Maps p.1 p.2) : Maps (.list xs) (.list ys)
  | map {xs ys : List (Text × Value F)} (hkeys : xs.map Prod.fst = ys.map Prod.fst) (h : ∀ p ∈ xs.zip ys, Maps p.1.2 p.2.2) :
      Maps (.map xs) (.map ys)
  | record {xs ys : List (Text × Value F)} (hkeys : xs.map Prod.fst = ys.map Prod.fst) (h : ∀ p ∈ xs.zip ys, Maps p.1.2 p.2.2) :
      Maps (.record xs) (.map ys)

/-- The value is written, what is read back is equal to it, and is written in the same way. -/
def RoundTrips (floats : Floats (Double F)) (same : F → F → Bool) (limits : Limits) (v : Value F) : Prop :=
  ∃ t w, jsonStringify floats limits v = .text t ∧ jsonParse floats limits t = .value w ∧ (∃ p, Maps v p ∧ Equal same w p) ∧
    jsonStringify floats limits w = .text t

/-- Each integer in the value is a double. -/
inductive Exact : Value F → Prop where
  | nil : Exact .nil
  | bool (b : Bool) : Exact (.bool b)
  | int {n : Int} (h : Binary64.ofInt n = some n) : Exact (.int n)
  | str (s : Text) : Exact (.str s)
  | list {items : List (Value F)} (h : ∀ v ∈ items, Exact v) : Exact (.list items)
  | map {entries : List (Text × Value F)} (h : ∀ e ∈ entries, Exact e.2) : Exact (.map entries)
  | record {fields : List (Text × Value F)} (h : ∀ e ∈ fields, Exact e.2) : Exact (.record fields)

def IsScalar : Value F → Bool
  | .list _ => false
  | .map _ => false
  | .record _ => false
  | _ => true

/-- Lists, maps and records are nested so deep at most, when a value that is none of them counts for as much as `leaf`. -/
inductive Nested (leaf : Nat) : Nat → Value F → Prop where
  | scalar {n : Nat} {v : Value F} (hleaf : leaf ≤ n) (hv : IsScalar v) : Nested leaf n v
  | list {n : Nat} {items : List (Value F)} (h : ∀ v ∈ items, Nested leaf n v) : Nested leaf (n + 1) (.list items)
  | map {n : Nat} {entries : List (Text × Value F)} (h : ∀ e ∈ entries, Nested leaf n e.2) : Nested leaf (n + 1) (.map entries)
  | record {n : Nat} {fields : List (Text × Value F)} (h : ∀ e ∈ fields, Nested leaf n e.2) : Nested leaf (n + 1) (.record fields)

/-- The host allows all the nested calls. -/
structure Shallow (limits : Limits) (v : Value F) : Prop where
  toJson : Nested 1 limits.toJson v
  dumps : Nested 0 limits.dumps v
  loads : Nested 0 limits.loads v
  fromJson : Nested 1 limits.fromJson v

/-! ### The conversions -/

section Conversions

theorem mapM_eq_ok {A B E : Type} {f : A → Except E B} {l : List A} {r : List B} :
    l.mapM f = .ok r ↔ List.Forall₂ (fun a b => f a = .ok b) l r := by
  induction l generalizing r with
  | nil =>
      rw [List.mapM_nil, List.forall₂_nil_left_iff]
      exact ⟨fun h => (Except.ok.inj h).symm, fun h => congrArg Except.ok h.symm⟩
  | cons a l ih =>
      rw [List.mapM_cons, List.forall₂_cons_left_iff]
      cases ha : f a with
      | error fault =>
          constructor
          · exact fun h => absurd h nofun
          · rintro ⟨b, _, hb, _⟩
            exact absurd hb nofun
      | ok b =>
          cases hl : l.mapM f with
          | error fault =>
              constructor
              · exact fun h => absurd h nofun
              · rintro ⟨_, rest, _, hrest, _⟩
                exact absurd (hl.symm.trans (ih.mpr hrest)) nofun
          | ok rest =>
              constructor
              · intro h
                exact ⟨b, rest, rfl, ih.mp hl, (Except.ok.inj h).symm⟩
              · rintro ⟨b', rest', hb, hrest, rfl⟩
                obtain rfl := Except.ok.inj hb
                obtain rfl := Except.ok.inj (hl.symm.trans (ih.mpr hrest))
                rfl

theorem map_eq_ok {A B E : Type} {f : A → B} {x : Except E A} {b : B} : x.map f = .ok b ↔ ∃ a, x = .ok a ∧ f a = b := by
  cases x with
  | error e => exact ⟨fun h => absurd h nofun, fun ⟨_, h, _⟩ => absurd h nofun⟩
  | ok a =>
      constructor
      · exact fun h => ⟨a, rfl, Except.ok.inj h⟩
      · rintro ⟨a', h, rfl⟩
        rw [Except.ok.inj h]
        rfl

theorem mapM_entries {A B E : Type} {f : A → Except E B} {l : List (Text × A)} {r : List (Text × B)} :
    (l.mapM fun e => (f e.2).map (e.1, ·)) = .ok r ↔ List.Forall₂ (fun e e' => e.1 = e'.1 ∧ f e.2 = .ok e'.2) l r := by
  rw [mapM_eq_ok]
  constructor
  · refine List.Forall₂.imp fun e e' h => ?_
    obtain ⟨b, hb, rfl⟩ := map_eq_ok.mp h
    exact ⟨rfl, hb⟩
  · refine List.Forall₂.imp fun e e' h => ?_
    exact map_eq_ok.mpr ⟨e'.2, h.2, Prod.ext h.1 rfl⟩

section Lists

variable {A B C D : Type} {as : List A} {bs : List B} {cs : List C}

theorem forall_iff_of_forall₂ {p : A → Prop} {q : B → Prop} (h : List.Forall₂ (fun a b => p a ↔ q b) as bs) : (∀ a ∈ as, p a) ↔ ∀ b ∈ bs, q b := by
  induction h with
  | nil => exact iff_of_true (fun a ha => absurd ha List.not_mem_nil) fun b hb => absurd hb List.not_mem_nil
  | cons hab _ ih => rw [List.forall_mem_cons, List.forall_mem_cons, hab, ih]

theorem forall_left {p : A → Prop} (h : List.Forall₂ (fun a _ => p a) as bs) : ∀ a ∈ as, p a := by
  induction h with
  | nil => exact fun a ha => absurd ha List.not_mem_nil
  | cons ha _ ih => exact List.forall_mem_cons.mpr ⟨ha, ih⟩

theorem forall_right {q : B → Prop} (h : List.Forall₂ (fun _ b => q b) as bs) : ∀ b ∈ bs, q b := by
  induction h with
  | nil => exact fun b hb => absurd hb List.not_mem_nil
  | cons hb _ ih => exact List.forall_mem_cons.mpr ⟨hb, ih⟩

theorem keys_of_forall₂ {as : List (Text × A)} {bs : List (Text × B)} {R : Text × A → Text × B → Prop}
    (h : List.Forall₂ (fun a b => a.1 = b.1 ∧ R a b) as bs) : as.map Prod.fst = bs.map Prod.fst := by
  induction h with
  | nil => rfl
  | cons hab _ ih => rw [List.map_cons, List.map_cons, hab.1, ih]

theorem forall₂_with {R : A → B → Prop} {p : A → Prop} {q : B → Prop} (h : List.Forall₂ R as bs) (ha : ∀ a ∈ as, p a) (hb : ∀ b ∈ bs, q b) :
    List.Forall₂ (fun a b => p a ∧ q b ∧ R a b) as bs := by
  induction h with
  | nil => exact .nil
  | cons hab _ ih =>
      rw [List.forall_mem_cons] at ha hb
      exact .cons ⟨ha.1, hb.1, hab⟩ (ih ha.2 hb.2)

theorem exists_lists {R : A → B → Prop} (S₁ : B → C → Prop) (S₂ : C → B → Prop) (S₃ : A → D → Prop) (S₄ : C → D → Prop)
    (h : List.Forall₂ R as bs) (hR : ∀ a b, R a b → ∃ c d, S₁ b c ∧ S₂ c b ∧ S₃ a d ∧ S₄ c d) :
    ∃ cs ds, List.Forall₂ S₁ bs cs ∧ List.Forall₂ S₂ cs bs ∧ List.Forall₂ S₃ as ds ∧ List.Forall₂ S₄ cs ds := by
  induction h with
  | nil => exact ⟨[], [], .nil, .nil, .nil, .nil⟩
  | cons hab _ ih =>
      obtain ⟨cs, ds, h₁, h₂, h₃, h₄⟩ := ih
      obtain ⟨c, d, hc₁, hc₂, hc₃, hc₄⟩ := hR _ _ hab
      exact ⟨c :: cs, d :: ds, .cons hc₁ h₁, .cons hc₂ h₂, .cons hc₃ h₃, .cons hc₄ h₄⟩

theorem exists_chain {R₁ : A → B → Prop} {R₂ : B → C → Prop} {R₃ : C → B → Prop} (h₁ : List.Forall₂ R₁ as bs) (h₂ : List.Forall₂ R₂ bs cs)
    (h₃ : List.Forall₂ R₃ cs bs) {a : A} (ha : a ∈ as) : ∃ b c, R₁ a b ∧ R₂ b c ∧ R₃ c b := by
  induction h₁ generalizing cs with
  | nil => exact absurd ha List.not_mem_nil
  | cons hab _ ih =>
      cases h₂ with
      | cons hbc hrest =>
          cases h₃ with
          | cons hcb hrest' =>
              rcases List.mem_cons.mp ha with rfl | ha
              · exact ⟨_, _, hab, hbc, hcb⟩
              · exact ih hrest hrest' ha

end Lists

section Nesting

variable {leaf n : Nat}

theorem nested_list {items : List (Value F)} : Nested leaf n (.list items) ↔ ∃ k, n = k + 1 ∧ ∀ v ∈ items, Nested leaf k v := by
  constructor
  · intro h
    cases h with
    | scalar _ hv => exact absurd hv Bool.false_ne_true
    | list h => exact ⟨_, rfl, h⟩
  · rintro ⟨k, rfl, h⟩
    exact .list h

theorem nested_map {entries : List (Text × Value F)} : Nested leaf n (.map entries) ↔ ∃ k, n = k + 1 ∧ ∀ e ∈ entries, Nested leaf k e.2 := by
  constructor
  · intro h
    cases h with
    | scalar _ hv => exact absurd hv Bool.false_ne_true
    | map h => exact ⟨_, rfl, h⟩
  · rintro ⟨k, rfl, h⟩
    exact .map h

theorem nested_record {fields : List (Text × Value F)} : Nested leaf n (.record fields) ↔ ∃ k, n = k + 1 ∧ ∀ e ∈ fields, Nested leaf k e.2 := by
  constructor
  · intro h
    cases h with
    | scalar _ hv => exact absurd hv Bool.false_ne_true
    | record h => exact ⟨_, rfl, h⟩
  · rintro ⟨k, rfl, h⟩
    exact .record h

theorem nests_arr {items : List (Json (Double F))} : Nests leaf n (.arr items) ↔ ∃ k, n = k + 1 ∧ ∀ j ∈ items, Nests leaf k j := by
  constructor
  · intro h
    cases h with
    | scalar _ hj => exact absurd hj Bool.false_ne_true
    | arr h => exact ⟨_, rfl, h⟩
  · rintro ⟨k, rfl, h⟩
    exact .arr h

theorem nests_obj {entries : List (Text × Json (Double F))} : Nests leaf n (.obj entries) ↔ ∃ k, n = k + 1 ∧ ∀ e ∈ entries, Nests leaf k e.2 := by
  constructor
  · intro h
    cases h with
    | scalar _ hj => exact absurd hj Bool.false_ne_true
    | obj h => exact ⟨_, rfl, h⟩
  · rintro ⟨k, rfl, h⟩
    exact .obj h

theorem nested_scalar {v : Value F} {j : Json (Double F)} (hv : IsScalar v) (hj : j.IsScalar) : Nested leaf n v ↔ Nests leaf n j := by
  constructor
  · intro h
    cases h with
    | scalar hleaf => exact .scalar hleaf hj
    | _ => exact absurd hv Bool.false_ne_true
  · intro h
    cases h with
    | scalar hleaf => exact .scalar hleaf hv
    | _ => exact absurd hj Bool.false_ne_true

end Nesting

/-- What comes of a conversion of a value to JSON. -/
structure Converted (n : Nat) (v : Value F) (j : Json (Double F)) : Prop where
  plain : Plain j
  within : Nested 1 n v
  nested : ∀ leaf m, Nested leaf m v ↔ Nests leaf m j

theorem Converted.scalar {n : Nat} {v : Value F} {j : Json (Double F)} (hplain : Plain j) (hv : IsScalar v) (hj : j.IsScalar) : Converted (n + 1) v j :=
  ⟨hplain, .scalar (Nat.succ_le_succ (Nat.zero_le n)) hv, fun _ _ => nested_scalar hv hj⟩

theorem converted {n : Nat} {v : Value F} {j : Json (Double F)} (hv : Storable v) (h : toJsonValue n v = .ok j) : Converted n v j := by
  induction n generalizing v j with
  | zero => exact absurd h nofun
  | succ n ih =>
      -- The fields of a record are converted as the entries of a map.
      have hentries : ∀ {entries : List (Text × Value F)} {j : Json (Double F)}, (entries.map Prod.fst).Nodup → (∀ e ∈ entries, Storable e.2) →
          (entries.mapM fun e => (toJsonValue n e.2).map (e.1, ·)).map .obj = .ok j →
          ∃ js, j = .obj js ∧ Plain j ∧ (∀ e ∈ entries, Nested 1 n e.2) ∧
            ∀ leaf m, (∀ e ∈ entries, Nested leaf m e.2) ↔ ∀ e ∈ js, Nests leaf m e.2 := by
        intro entries j hkeys hall h
        obtain ⟨js, hjs, rfl⟩ := map_eq_ok.mp h
        have hconverted := ((List.forall₂_and_left (p := fun e : Text × Value F => Storable e.2) _ _).mpr ⟨hall, mapM_entries.mp hjs⟩).imp
          fun e e' h => (⟨h.2.1, ih h.1 h.2.2⟩ : e.1 = e'.1 ∧ Converted n e.2 e'.2)
        refine ⟨js, rfl, .obj ?_ ?_, ?_, fun leaf m => forall_iff_of_forall₂ (hconverted.imp fun e e' h => h.2.nested leaf m)⟩
        · rwa [← keys_of_forall₂ hconverted]
        · exact forall_right (hconverted.imp fun e e' h => h.2.plain)
        · exact forall_left (hconverted.imp fun e e' h => h.2.within)
      cases hv with
      | nil => exact Except.ok.inj h ▸ .scalar .null rfl rfl
      | bool b => exact Except.ok.inj h ▸ .scalar (.bool b) rfl rfl
      | int k => exact Except.ok.inj h ▸ .scalar (.int k) rfl rfl
      | str s => exact Except.ok.inj h ▸ .scalar (.str s) rfl rfl
      | @list items hall =>
          rw [toJsonValue] at h
          obtain ⟨js, hjs, rfl⟩ := map_eq_ok.mp h
          have hconverted := ((List.forall₂_and_left (p := Storable) _ _).mpr ⟨hall, mapM_eq_ok.mp hjs⟩).imp fun v j h => ih h.1 h.2
          refine ⟨.arr ?_, .list ?_, fun leaf m => ?_⟩
          · exact forall_right (hconverted.imp fun v j h => h.plain)
          · exact forall_left (hconverted.imp fun v j h => h.within)
          · rw [nested_list, nests_arr]
            exact exists_congr fun k => and_congr_right fun _ => forall_iff_of_forall₂ (hconverted.imp fun v j h => h.nested leaf k)
      | map hkeys hall =>
          rw [toJsonValue] at h
          obtain ⟨js, rfl, hplain, hwithin, hnested⟩ := hentries hkeys hall h
          refine ⟨hplain, .map hwithin, fun leaf m => ?_⟩
          rw [nested_map, nests_obj]
          exact exists_congr fun k => and_congr_right fun _ => hnested leaf k
      | record hkeys hall =>
          rw [toJsonValue] at h
          obtain ⟨js, rfl, hplain, hwithin, hnested⟩ := hentries hkeys hall h
          refine ⟨hplain, .record hwithin, fun leaf m => ?_⟩
          rw [nested_record, nests_obj]
          exact exists_congr fun k => and_congr_right fun _ => hnested leaf k

theorem exists_mapM {A B E : Type} {f : A → Except E B} {l : List A} (h : ∀ a ∈ l, ∃ b, f a = .ok b) : ∃ r, l.mapM f = .ok r := by
  induction l with
  | nil => exact ⟨[], rfl⟩
  | cons a l ih =>
      obtain ⟨b, hb⟩ := h a List.mem_cons_self
      obtain ⟨r, hr⟩ := ih fun a ha => h a (List.mem_cons_of_mem _ ha)
      exact ⟨b :: r, by rw [List.mapM_cons, hb, hr]; rfl⟩

theorem exists_toJson {n : Nat} {v : Value F} (hv : Storable v) (h : Nested 1 n v) : ∃ j, toJsonValue n v = .ok j := by
  induction n generalizing v with
  | zero =>
      cases h with
      | scalar hleaf => exact absurd hleaf (by decide)
  | succ n ih =>
      have hentries : ∀ {entries : List (Text × Value F)}, (∀ e ∈ entries, Storable e.2) → (∀ e ∈ entries, Nested 1 n e.2) →
          ∃ js, (entries.mapM fun e => (toJsonValue n e.2).map (e.1, ·)) = .ok js := by
        intro entries hall hnested
        refine exists_mapM fun e he => ?_
        obtain ⟨j, hj⟩ := ih (hall e he) (hnested e he)
        exact ⟨(e.1, j), map_eq_ok.mpr ⟨j, hj, rfl⟩⟩
      cases hv with
      | nil => exact ⟨_, rfl⟩
      | bool b => exact ⟨_, rfl⟩
      | int k => exact ⟨_, rfl⟩
      | str s => exact ⟨_, rfl⟩
      | list hall =>
          obtain ⟨k, hk, hnested⟩ := nested_list.mp h
          obtain rfl := Nat.succ.inj hk
          obtain ⟨js, hjs⟩ := exists_mapM fun v hv => ih (hall v hv) (hnested v hv)
          exact ⟨.arr js, by rw [toJsonValue, hjs]; rfl⟩
      | map _ hall =>
          obtain ⟨k, hk, hnested⟩ := nested_map.mp h
          obtain rfl := Nat.succ.inj hk
          obtain ⟨js, hjs⟩ := hentries hall hnested
          exact ⟨.obj js, by rw [toJsonValue, hjs]; rfl⟩
      | record _ hall =>
          obtain ⟨k, hk, hnested⟩ := nested_record.mp h
          obtain rfl := Nat.succ.inj hk
          obtain ⟨js, hjs⟩ := hentries hall hnested
          exact ⟨.obj js, by rw [toJsonValue, hjs]; rfl⟩

theorem fromJson_ok {n : Nat} {j : Json (Double F)} {w : Value F} (h : fromJsonValue n j = .ok w) :
    Nests 1 n j ∧ (Plain j → ∀ m j', toJsonValue m w = .ok j' → Plain j') := by
  induction n generalizing j w with
  | zero => exact absurd h nofun
  | succ n ih =>
      have hleaf : 1 ≤ n + 1 := Nat.succ_le_succ (Nat.zero_le n)
      cases j with
      | null =>
          obtain rfl := Except.ok.inj h
          refine ⟨.scalar hleaf rfl, fun _ m j' hj' => ?_⟩
          cases m with
          | zero => exact absurd hj' nofun
          | succ m => exact Except.ok.inj hj' ▸ .null
      | bool b =>
          obtain rfl := Except.ok.inj h
          refine ⟨.scalar hleaf rfl, fun _ m j' hj' => ?_⟩
          cases m with
          | zero => exact absurd hj' nofun
          | succ m => exact Except.ok.inj hj' ▸ .bool b
      | int k =>
          rw [fromJsonValue] at h
          cases hk : Binary64.ofInt k with
          | none =>
              rw [hk] at h
              exact absurd h nofun
          | some x =>
              rw [hk] at h
              obtain rfl := Except.ok.inj h
              refine ⟨.scalar hleaf rfl, fun _ m j' hj' => ?_⟩
              cases m with
              | zero => exact absurd hj' nofun
              | succ m => exact Except.ok.inj hj' ▸ .int x
      | float x => exact ⟨.scalar hleaf rfl, fun hplain => by cases hplain⟩
      | str s =>
          obtain rfl := Except.ok.inj h
          refine ⟨.scalar hleaf rfl, fun _ m j' hj' => ?_⟩
          cases m with
          | zero => exact absurd hj' nofun
          | succ m => exact Except.ok.inj hj' ▸ .str s
      | arr items =>
          rw [fromJsonValue] at h
          obtain ⟨ws, hws, rfl⟩ := map_eq_ok.mp h
          have hitems := (mapM_eq_ok.mp hws).imp fun j w h => ih h
          refine ⟨.arr (forall_left (hitems.imp fun j w h => h.1)), fun hplain m j' hj' => ?_⟩
          cases hplain with
          | arr hall =>
              cases m with
              | zero => exact absurd hj' nofun
              | succ m =>
                  rw [toJsonValue] at hj'
                  obtain ⟨js', hjs', rfl⟩ := map_eq_ok.mp hj'
                  have hwritten := (List.forall₂_and_left (p := Plain) _ _).mpr ⟨hall, hitems⟩
                  refine .arr (forall_right ((List.forall₂_and_left _ _).mpr ⟨forall_right (hwritten.imp fun j w h => h.2.2 h.1), mapM_eq_ok.mp hjs'⟩ |>.imp ?_))
                  exact fun w j' h => h.1 m j' h.2
      | obj entries =>
          rw [fromJsonValue] at h
          obtain ⟨ws, hws, rfl⟩ := map_eq_ok.mp h
          have hkeyed := mapM_entries.mp hws
          have hentries := hkeyed.imp fun e e' h => ih h.2
          refine ⟨.obj (forall_left (hentries.imp fun e e' h => h.1)), fun hplain m j' hj' => ?_⟩
          cases hplain with
          | obj hkeys hall =>
              cases m with
              | zero => exact absurd hj' nofun
              | succ m =>
                  rw [toJsonValue] at hj'
                  obtain ⟨js', hjs', rfl⟩ := map_eq_ok.mp hj'
                  have hwritten := (List.forall₂_and_left (p := fun e : Text × Json (Double F) => Plain e.2) _ _).mpr ⟨hall, hentries⟩
                  have hkeyed' := mapM_entries.mp hjs'
                  refine .obj ?_ (forall_right ((List.forall₂_and_left _ _).mpr ⟨forall_right (hwritten.imp fun j w h => h.2.2 h.1), hkeyed'⟩ |>.imp ?_))
                  · rwa [← keys_of_forall₂ hkeyed', ← keys_of_forall₂ hkeyed]
                  · exact fun e e' h => h.1 m e'.2 h.2.2

theorem exact_of_written {n m k : Nat} {v w : Value F} {j : Json (Double F)} (hv : Storable v) (hj : toJsonValue n v = .ok j)
    (hw : fromJsonValue m j = .ok w) (hj' : toJsonValue k w = .ok j) : Exact v := by
  induction n generalizing m k v w j with
  | zero => exact absurd hj nofun
  | succ n ih =>
      have hentries : ∀ {entries : List (Text × Value F)} {j : Json (Double F)}, (∀ e ∈ entries, Storable e.2) →
          (entries.mapM fun e => (toJsonValue n e.2).map (e.1, ·)).map .obj = .ok j → fromJsonValue m j = .ok w → toJsonValue k w = .ok j →
          ∀ e ∈ entries, Exact e.2 := by
        intro entries j hall hj hw hj' e he
        obtain ⟨js, hjs, rfl⟩ := map_eq_ok.mp hj
        cases m with
        | zero => exact absurd hw nofun
        | succ m =>
            rw [fromJsonValue] at hw
            obtain ⟨ws, hws, rfl⟩ := map_eq_ok.mp hw
            cases k with
            | zero => exact absurd hj' nofun
            | succ k =>
                rw [toJsonValue] at hj'
                obtain ⟨js', hjs', heq⟩ := map_eq_ok.mp hj'
                obtain rfl := Json.obj.inj heq
                obtain ⟨e', e'', h₁, h₂, h₃⟩ := exists_chain (mapM_entries.mp hjs) (mapM_entries.mp hws) (mapM_entries.mp hjs') he
                exact ih (hall e he) h₁.2 h₂.2 h₃.2
      cases hv with
      | nil => exact .nil
      | bool b => exact .bool b
      | str s => exact .str s
      | int x =>
          obtain rfl := Except.ok.inj hj
          cases m with
          | zero => exact absurd hw nofun
          | succ m =>
              rw [fromJsonValue] at hw
              cases hx : Binary64.ofInt x with
              | none =>
                  rw [hx] at hw
                  exact absurd hw nofun
              | some y =>
                  rw [hx] at hw
                  obtain rfl := Except.ok.inj hw
                  cases k with
                  | zero => exact absurd hj' nofun
                  | succ k =>
                      obtain rfl := Json.int.inj (Except.ok.inj hj')
                      exact .int hx
      | list hall =>
          rw [toJsonValue] at hj
          obtain ⟨js, hjs, rfl⟩ := map_eq_ok.mp hj
          cases m with
          | zero => exact absurd hw nofun
          | succ m =>
              rw [fromJsonValue] at hw
              obtain ⟨ws, hws, rfl⟩ := map_eq_ok.mp hw
              cases k with
              | zero => exact absurd hj' nofun
              | succ k =>
                  rw [toJsonValue] at hj'
                  obtain ⟨js', hjs', heq⟩ := map_eq_ok.mp hj'
                  obtain rfl := Json.arr.inj heq
                  refine .list fun v hv => ?_
                  obtain ⟨j, w, h₁, h₂, h₃⟩ := exists_chain (mapM_eq_ok.mp hjs) (mapM_eq_ok.mp hws) (mapM_eq_ok.mp hjs') hv
                  exact ih (hall v hv) h₁ h₂ h₃
      | map hkeys hall =>
          rw [toJsonValue] at hj
          exact .map (hentries hall hj hw hj')
      | record hkeys hall =>
          rw [toJsonValue] at hj
          exact .record (hentries hall hj hw hj')

end Conversions

/-! ### What is read back -/

section Reading

variable {same : F → F → Bool}

theorem allOf_true {A : Type} {f : A → Option Bool} {l : List A} (h : ∀ a ∈ l, f a = some true) : allOf f l = some true := by
  induction l with
  | nil => rfl
  | cons a l ih =>
      rw [allOf, h a List.mem_cons_self]
      exact ih fun a ha => h a (List.mem_cons_of_mem _ ha)

theorem lookup_of_mem {A : Type} {l : List (Text × A)} (hkeys : (l.map Prod.fst).Nodup) {e : Text × A} (h : e ∈ l) : l.lookup e.1 = some e.2 := by
  induction l with
  | nil => exact absurd h List.not_mem_nil
  | cons d l ih =>
      rw [List.map_cons, List.nodup_cons] at hkeys
      rcases List.mem_cons.mp h with rfl | h
      · exact List.lookup_cons_self
      · have hne : e.1 ≠ d.1 := fun heq => hkeys.1 (heq ▸ List.mem_map_of_mem (f := Prod.fst) h)
        rw [List.lookup_cons, beq_false_of_ne hne]
        exact ih hkeys.2 h

theorem hostEq_lists {depth : Nat} {ws ps : List (Value F)} (h : List.Forall₂ (fun w p => hostEq same depth w p = some true) ws ps) :
    hostEq same (depth + 1) (.list ws) (.list ps) = some true := by
  obtain ⟨hlength, hall⟩ := List.forall₂_iff_zip.mp h
  show (if ws.length = ps.length then _ else _) = some true
  rw [if_pos hlength]
  exact allOf_true fun p hp => hall hp

theorem hostEq_maps {depth : Nat} {ws ps : List (Text × Value F)} (hkeys : (ws.map Prod.fst).Nodup)
    (h : List.Forall₂ (fun w p => w.1 = p.1 ∧ hostEq same depth w.2 p.2 = some true) ws ps) :
    hostEq same (depth + 1) (.map ws) (.map ps) = some true := by
  have hkeys' : (ps.map Prod.fst).Nodup := keys_of_forall₂ h ▸ hkeys
  show (if ws.length = ps.length then _ else _) = some true
  rw [if_pos h.length_eq]
  refine allOf_true fun w hw => ?_
  obtain ⟨p, hp, hsame, heq⟩ := exists_of_mem h hw
  rw [hsame, lookup_of_mem hkeys' hp]
  exact heq

/-- What has become of an exact value. -/
structure ReadBack (same : F → F → Bool) (n m : Nat) (v : Value F) (j : Json (Double F)) (w p : Value F) : Prop where
  read : fromJsonValue m j = .ok w
  written : toJsonValue n w = .ok j
  maps : Maps v p
  equal : hostEq same n w p = some true
  same : nodusEq same n w p = some true

theorem readBack (same : F → F → Bool) {n m : Nat} {v : Value F} {j : Json (Double F)} (hv : Storable v) (hexact : Exact v) (hj : toJsonValue n v = .ok j)
    (hnests : Nests 1 m j) : ∃ w p, ReadBack same n m v j w p := by
  induction n generalizing m v j with
  | zero => exact absurd hj nofun
  | succ n ih =>
      have hentries : ∀ {entries : List (Text × Value F)} {m : Nat} {js : List (Text × Json (Double F))}, (entries.map Prod.fst).Nodup →
          (∀ e ∈ entries, Storable e.2 ∧ Exact e.2) → (entries.mapM fun e => (toJsonValue n e.2).map (e.1, ·)) = .ok js →
          (∀ e ∈ js, Nests 1 m e.2) → ∃ ws ps : List (Text × Value F), fromJsonValue (m + 1) (.obj js) = .ok (.map ws) ∧
            toJsonValue (n + 1) (.map ws) = .ok (.obj js) ∧ entries.map Prod.fst = ps.map Prod.fst ∧ (∀ p ∈ entries.zip ps, Maps p.1.2 p.2.2) ∧
            hostEq same (n + 1) (.map ws) (.map ps) = some true := by
        intro entries m js hkeys hall hjs hnests
        have hpairs := forall₂_with (p := fun e : Text × Value F => Storable e.2 ∧ Exact e.2) (q := fun e : Text × Json (Double F) => Nests 1 m e.2)
          (mapM_entries.mp hjs) hall hnests
        obtain ⟨ws, ps, hread, hwritten, hmaps, hequal⟩ := exists_lists
          (fun e' c : Text × _ => e'.1 = c.1 ∧ fromJsonValue m e'.2 = .ok c.2) (fun c e' : Text × _ => c.1 = e'.1 ∧ toJsonValue n c.2 = .ok e'.2)
          (fun e d : Text × _ => e.1 = d.1 ∧ Maps e.2 d.2) (fun c d : Text × _ => c.1 = d.1 ∧ hostEq same n c.2 d.2 = some true)
          hpairs fun e e' h => by
            obtain ⟨w, p, hback⟩ := ih h.1.1 h.1.2 h.2.2.2 h.2.1
            exact ⟨(e.1, w), (e.1, p), ⟨h.2.2.1.symm, hback.read⟩, ⟨h.2.2.1, hback.written⟩, ⟨rfl, hback.maps⟩, ⟨rfl, hback.equal⟩⟩
        have hkeysw : (ws.map Prod.fst).Nodup := by
          rwa [← keys_of_forall₂ hread, ← keys_of_forall₂ (mapM_entries.mp hjs)]
        refine ⟨ws, ps, ?_, ?_, keys_of_forall₂ hmaps, fun p hp => ((List.forall₂_iff_zip.mp hmaps).2 hp).2, hostEq_maps hkeysw hequal⟩
        · rw [fromJsonValue, mapM_entries.mpr hread]
          rfl
        · rw [toJsonValue, mapM_entries.mpr hwritten]
          rfl
      cases hv with
      | nil =>
          obtain rfl := Except.ok.inj hj
          cases hnests with
          | @scalar m _ hleaf =>
              obtain ⟨m, rfl⟩ := Nat.exists_eq_add_of_le' hleaf
              exact ⟨.nil, .nil, rfl, rfl, .nil, rfl, rfl⟩
      | bool b =>
          obtain rfl := Except.ok.inj hj
          cases hnests with
          | @scalar m _ hleaf =>
              obtain ⟨m, rfl⟩ := Nat.exists_eq_add_of_le' hleaf
              exact ⟨.bool b, .bool b, rfl, rfl, .bool b, by cases b <;> rfl, by cases b <;> rfl⟩
      | str s =>
          obtain rfl := Except.ok.inj hj
          cases hnests with
          | @scalar m _ hleaf =>
              obtain ⟨m, rfl⟩ := Nat.exists_eq_add_of_le' hleaf
              exact ⟨.str s, .str s, rfl, rfl, .str s, congrArg some (beq_self_eq_true s), congrArg some (beq_self_eq_true s)⟩
      | int k =>
          obtain rfl := Except.ok.inj hj
          cases hexact with
          | int hk =>
              cases hnests with
              | @scalar m _ hleaf =>
                  obtain ⟨m, rfl⟩ := Nat.exists_eq_add_of_le' hleaf
                  refine ⟨.float (.whole k), .int k, ?_, rfl, .int k, congrArg some (beq_self_eq_true k), ?_⟩
                  · rw [fromJsonValue, hk]
                    rfl
                  · simp only [nodusEq, toFloat, hk, Option.map_some, Option.bind_some]
                    exact congrArg some (beq_self_eq_true k)
      | list hall =>
          rw [toJsonValue] at hj
          obtain ⟨js, hjs, rfl⟩ := map_eq_ok.mp hj
          obtain ⟨k, rfl, hnested⟩ := nests_arr.mp hnests
          cases hexact with
          | list hexact =>
              have hpairs := forall₂_with (mapM_eq_ok.mp hjs) (fun v hv => And.intro (hall v hv) (hexact v hv)) hnested
              obtain ⟨ws, ps, hread, hwritten, hmaps, hequal⟩ := exists_lists _ _ _ _ hpairs fun v j h => by
                obtain ⟨w, p, hback⟩ := ih h.1.1 h.1.2 h.2.2 h.2.1
                exact ⟨w, p, hback.read, hback.written, hback.maps, hback.equal⟩
              refine ⟨.list ws, .list ps, ?_, ?_, .list hmaps.length_eq fun p hp => (List.forall₂_iff_zip.mp hmaps).2 hp, hostEq_lists hequal, hostEq_lists hequal⟩
              · rw [fromJsonValue, mapM_eq_ok.mpr hread]
                rfl
              · rw [toJsonValue, mapM_eq_ok.mpr hwritten]
                rfl
      | map hkeys hall =>
          rw [toJsonValue] at hj
          obtain ⟨js, hjs, rfl⟩ := map_eq_ok.mp hj
          obtain ⟨k, rfl, hnested⟩ := nests_obj.mp hnests
          cases hexact with
          | map hexact =>
              obtain ⟨ws, ps, hread, hwritten, hsame, hmaps, hequal⟩ := hentries hkeys (fun e he => ⟨hall e he, hexact e he⟩) hjs hnested
              exact ⟨.map ws, .map ps, hread, hwritten, .map hsame hmaps, hequal, hequal⟩
      | record hkeys hall =>
          rw [toJsonValue] at hj
          obtain ⟨js, hjs, rfl⟩ := map_eq_ok.mp hj
          obtain ⟨k, rfl, hnested⟩ := nests_obj.mp hnests
          cases hexact with
          | record hexact =>
              obtain ⟨ws, ps, hread, hwritten, hsame, hmaps, hequal⟩ := hentries hkeys (fun e he => ⟨hall e he, hexact e he⟩) hjs hnested
              exact ⟨.map ws, .map ps, hread, hwritten, .record hsame hmaps, hequal, hequal⟩

theorem exists_texts {A : Type} {f : A → Option Text} {l : List A} (h : ∀ a ∈ l, ∃ t, f a = some t) : ∃ ts, l.mapM f = some ts := by
  induction l with
  | nil => exact ⟨[], rfl⟩
  | cons a l ih =>
      obtain ⟨t, ht⟩ := h a List.mem_cons_self
      obtain ⟨ts, hts⟩ := ih fun a ha => h a (List.mem_cons_of_mem _ ha)
      exact ⟨t :: ts, by rw [List.mapM_cons, ht, hts]; rfl⟩

theorem length_decimal_exact {k : Int} (h : Binary64.ofInt k = some k) : (decimal k.natAbs).length ≤ maxStrDigits := by
  have hsmall : k.natAbs < 2 ^ 1024 := by
    have hbelow : k.natAbs < Binary64.overflow := by
      apply Nat.lt_of_not_le
      intro hle
      exact absurd (h.symm.trans (Binary64.ofInt_eq_none.mpr hle)) nofun
    refine hbelow.trans_le ?_
    unfold Binary64.overflow
    exact Nat.sub_le _ _
  have hgrow : ∀ b ≤ maxStrDigits, 2 ^ b ≤ 10 ^ maxStrDigits := fun b hb =>
    (Nat.pow_le_pow_left (by decide) b).trans (Nat.pow_le_pow_right (by decide) hb)
  exact length_decimal_le (by decide) (hsmall.trans_le (hgrow _ (by decide)))

theorem exists_dumps (floats : Floats (Double F)) {n m : Nat} {v : Value F} {j : Json (Double F)} (hv : Storable v) (hexact : Exact v)
    (hj : toJsonValue n v = .ok j) (hnests : Nests 0 m j) : ∃ t, dumps floats m j = some t := by
  induction n generalizing m v j with
  | zero => exact absurd hj nofun
  | succ n ih =>
      have hentries : ∀ {entries : List (Text × Value F)} {m : Nat} {js : List (Text × Json (Double F))}, (∀ e ∈ entries, Storable e.2 ∧ Exact e.2) →
          (entries.mapM fun e => (toJsonValue n e.2).map (e.1, ·)) = .ok js → (∀ e ∈ js, Nests 0 m e.2) → ∃ t, dumps floats (m + 1) (.obj js) = some t := by
        intro entries m js hall hjs hnested
        have hpairs := forall₂_with (p := fun e : Text × Value F => Storable e.2 ∧ Exact e.2) (q := fun e : Text × Json (Double F) => Nests 0 m e.2)
          (mapM_entries.mp hjs) hall hnested
        obtain ⟨ts, hts⟩ := exists_texts (forall_right (hpairs.imp fun e e' h =>
          (ih h.1.1 h.1.2 h.2.2.2 h.2.1).elim fun t ht => ⟨_, Option.map_eq_some_iff.mpr ⟨t, ht, rfl⟩⟩))
        exact ⟨_, by rw [dumps, hts]; rfl⟩
      cases hv with
      | nil =>
          obtain rfl := Except.ok.inj hj
          exact ⟨_, by rw [dumps]⟩
      | bool b =>
          obtain rfl := Except.ok.inj hj
          cases b
          · exact ⟨_, by rw [dumps]⟩
          · exact ⟨_, by rw [dumps]⟩
      | str s =>
          obtain rfl := Except.ok.inj hj
          exact ⟨_, by rw [dumps]⟩
      | int k =>
          obtain rfl := Except.ok.inj hj
          cases hexact with
          | int hk => exact ⟨_, by rw [dumps, if_pos (length_decimal_exact hk)]⟩
      | list hall =>
          rw [toJsonValue] at hj
          obtain ⟨js, hjs, rfl⟩ := map_eq_ok.mp hj
          obtain ⟨k, rfl, hnested⟩ := nests_arr.mp hnests
          cases hexact with
          | list hexact =>
              have hpairs := forall₂_with (mapM_eq_ok.mp hjs) (fun v hv => And.intro (hall v hv) (hexact v hv)) hnested
              obtain ⟨ts, hts⟩ := exists_texts (forall_right (hpairs.imp fun v j h => ih (m := k) (v := v) (j := j) h.1.1 h.1.2 h.2.2 h.2.1))
              exact ⟨_, by rw [dumps, hts]; rfl⟩
      | map hkeys hall =>
          rw [toJsonValue] at hj
          obtain ⟨js, hjs, rfl⟩ := map_eq_ok.mp hj
          obtain ⟨k, rfl, hnested⟩ := nests_obj.mp hnests
          cases hexact with
          | map hexact => exact hentries (fun e he => ⟨hall e he, hexact e he⟩) hjs hnested
      | record hkeys hall =>
          rw [toJsonValue] at hj
          obtain ⟨js, hjs, rfl⟩ := map_eq_ok.mp hj
          obtain ⟨k, rfl, hnested⟩ := nests_obj.mp hnests
          cases hexact with
          | record hexact => exact hentries (fun e he => ⟨hall e he, hexact e he⟩) hjs hnested

end Reading

/-! ### The round trip -/

section RoundTrip

variable {floats : Floats (Double F)} {same : F → F → Bool} {limits : Limits} {v : Value F} {t : Text}

theorem jsonStringify_text : jsonStringify floats limits v = .text t ↔ ∃ j, toJsonValue limits.toJson v = .ok j ∧ dumps floats limits.dumps j = some t := by
  unfold jsonStringify
  constructor
  · intro h
    split at h
    · cases h
    · cases h
    · rename_i j hj
      split at h
      · rename_i t' ht
        obtain rfl := Stringified.text.inj h
        exact ⟨j, hj, ht⟩
      · cases h
  · rintro ⟨j, hj, ht⟩
    simp only [hj, ht]

theorem jsonParse_value {w : Value F} :
    jsonParse floats limits t = .value w ↔ ∃ j, loads floats limits.loads t = .ok j ∧ fromJsonValue limits.fromJson j = .ok w := by
  unfold jsonParse
  constructor
  · intro h
    split at h
    · cases h
    · cases h
    · rename_i j hj
      split at h
      · rename_i w' hw
        obtain rfl := Parsed.value.inj h
        exact ⟨j, hj, hw⟩
      · cases h
  · rintro ⟨j, hj, hw⟩
    simp only [hj, hw]

theorem tree_of_roundTrips (hv : Storable v) (h : RoundTrips floats same limits v) :
    ∃ t j w, toJsonValue limits.toJson v = .ok j ∧ dumps floats limits.dumps j = some t ∧ loads floats limits.loads t = .ok j ∧
      fromJsonValue limits.fromJson j = .ok w ∧ toJsonValue limits.toJson w = .ok j := by
  obtain ⟨t, w, hwrite, hparse, -, hwrite'⟩ := h
  obtain ⟨j, hj, ht⟩ := jsonStringify_text.mp hwrite
  obtain ⟨j', hj', hw⟩ := jsonParse_value.mp hparse
  obtain ⟨j'', hj'', ht'⟩ := jsonStringify_text.mp hwrite'
  have hconverted := converted hv hj
  have hloads : Nests 0 limits.loads j := by
    by_contra hdeep
    obtain ⟨fault, hfault⟩ := loads_error (n := limits.loads) hconverted.plain ht hdeep
    exact absurd (hfault.symm.trans hj') nofun
  obtain rfl := Except.ok.inj (((loads_dumps_iff hconverted.plain ht).mpr hloads).symm.trans hj')
  obtain ⟨-, hplain⟩ := fromJson_ok hw
  obtain rfl := dumps_inj hconverted.plain (hplain hconverted.plain _ _ hj'') ht ht'
  exact ⟨t, j, w, hj, ht, hj', hw, hj''⟩

theorem exact_of_roundTrips (hv : Storable v) (h : RoundTrips floats same limits v) : Exact v := by
  obtain ⟨t, j, w, hj, -, -, hw, hj'⟩ := tree_of_roundTrips hv h
  exact exact_of_written hv hj hw hj'

theorem shallow_of_roundTrips (hv : Storable v) (h : RoundTrips floats same limits v) : Shallow limits v := by
  obtain ⟨t, j, w, hj, ht, hloads, hw, -⟩ := tree_of_roundTrips hv h
  have hconverted := converted hv hj
  refine ⟨hconverted.within, ?_, ?_, ?_⟩
  · exact (hconverted.nested 0 _).mpr (nests_of_dumps ht)
  · exact (hconverted.nested 0 _).mpr ((loads_dumps_iff hconverted.plain ht).mp hloads)
  · exact (hconverted.nested 1 _).mpr (fromJson_ok hw).1

/-- The floats without a fraction. -/
def wholeFloats : Floats (Double Empty) where
  repr
    | .whole n => intText n ++ text ".0"
    | .other x => x.elim
  read t := .whole (readDecimal (t.takeWhile isDigit))

def ordinary : Limits := ⟨900, 900, 900, 900⟩

theorem nested_ordinary (leaf : Nat) (hleaf : leaf ≤ 1) : Nested leaf 900 (.record [(text "ids", .list [.int 1, .nil])] : Value Empty) := by
  refine .record fun e he => ?_
  obtain rfl := List.mem_singleton.mp he
  refine .list fun v hv => .scalar (hleaf.trans (by decide)) ?_
  rcases List.mem_cons.mp hv with rfl | hv
  · rfl
  · obtain rfl := List.mem_singleton.mp hv
    rfl

end RoundTrip

end Nodus.JsonValues
