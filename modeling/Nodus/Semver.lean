import Mathlib.Data.List.Sort
import Mathlib.Data.Prod.Lex

/-! Versions and version ranges, as the manifests and the registries write them. -/

namespace Nodus.Packages

abbrev Text := List Char

/-- What the standard library says of characters and of digits: `str.strip`, `str.isdigit` and `int`. There are digits that
`int` does not read. -/
structure TextTables where
  isSpace : Char → Bool
  isDigit : Char → Bool
  int : Text → Option Nat

structure Version where
  major : Nat
  minor : Nat := 0
  patch : Nat := 0
  deriving DecidableEq, Repr

namespace Version

/-- The fields are compared in the order in which they are declared. -/
def key (v : Version) : Nat ×ₗ Nat ×ₗ Nat := toLex (v.major, toLex (v.minor, v.patch))

theorem key_injective : Function.Injective key := by
  rintro ⟨a, b, c⟩ ⟨a', b', c'⟩ h
  have hkeys : (a, toLex (b, c)) = (a', toLex (b', c')) := toLex.injective h
  obtain ⟨rfl, hrest⟩ := Prod.mk.inj hkeys
  obtain ⟨rfl, rfl⟩ := Prod.mk.inj (toLex.injective hrest)
  rfl

instance : LinearOrder Version := LinearOrder.lift' key key_injective

end Version

section Parsing

variable (tables : TextTables)

def strip (text : Text) : Text :=
  ((text.dropWhile tables.isSpace).reverse.dropWhile tables.isSpace).reverse

/-- `int` of a part that `isdigit` accepts. -/
def digits (part : Text) : Option Nat := if part ≠ [] ∧ part.all tables.isDigit then tables.int part else none

/-- `Version.parse`. Missing parts are zero. -/
def Version.parse (text : Text) : Option Version := do
  let values ← ((strip tables text).splitOn '.').mapM (digits tables)
  match values with
  | [major] => some ⟨major, 0, 0⟩
  | [major, minor] => some ⟨major, minor, 0⟩
  | [major, minor, patch] => some ⟨major, minor, patch⟩
  | _ => none

inductive Operator where
  | eq
  | gt
  | ge
  | lt
  | le
  deriving DecidableEq, Repr

structure Comparator where
  op : Operator
  version : Version
  deriving DecidableEq, Repr

def Comparator.matches (c : Comparator) (value : Version) : Bool :=
  match c.op with
  | .eq => value = c.version
  | .gt => c.version < value
  | .ge => c.version ≤ value
  | .lt => value < c.version
  | .le => value ≤ c.version

abbrev VersionRange := List Comparator

def VersionRange.matches (range : VersionRange) (value : Version) : Bool := range.all (·.matches value)

/-- `_caret_upper`. -/
def caretUpper (base : Version) : Version :=
  if 0 < base.major then ⟨base.major + 1, 0, 0⟩
  else if 0 < base.minor then ⟨0, base.minor + 1, 0⟩
  else ⟨0, 0, base.patch + 1⟩

/-- The operator that a comparator starts with, and what follows it. -/
def operator : Text → Operator × Text
  | '>' :: '=' :: rest => (.ge, rest)
  | '<' :: '=' :: rest => (.le, rest)
  | '>' :: rest => (.gt, rest)
  | '<' :: rest => (.lt, rest)
  | '=' :: '=' :: rest => (.eq, rest)
  | part => (.eq, part)

def Comparator.parse (part : Text) : Option Comparator :=
  (Version.parse tables (strip tables (operator part).2)).map (⟨(operator part).1, ·⟩)

/-- `VersionRange.parse`. -/
def VersionRange.parse (text : Text) : Option VersionRange :=
  match strip tables text with
  | '^' :: rest => (Version.parse tables rest).map fun base => [⟨.ge, base⟩, ⟨.lt, caretUpper base⟩]
  | '~' :: rest => (Version.parse tables rest).map fun base => [⟨.ge, base⟩, ⟨.lt, ⟨base.major, base.minor + 1, 0⟩⟩]
  | raw =>
      match ((raw.splitOn ',').map (strip tables)).filter (· ≠ []) with
      | [] => none
      | parts => parts.mapM (Comparator.parse tables)

/-- `_matches_requirement`. Texts that are not versions are compared as they are. -/
def matchesRequirement (requirement version : Text) : Bool :=
  match VersionRange.parse tables requirement, Version.parse tables version with
  | some range, some value => range.matches value
  | _, _ => version = requirement

end Parsing

/-- The first of those with the highest version: `sort` keeps the order of equal ones, also when it reverses the others. -/
def highest {α : Type} (candidates : List (Version × α)) : Option (Version × α) :=
  (candidates.insertionSort fun a b => b.1 ≤ a.1).head?

theorem highest_spec {α : Type} {candidates : List (Version × α)} {best : Version × α} (h : highest candidates = some best) :
    best ∈ candidates ∧ ∀ c ∈ candidates, c.1 ≤ best.1 := by
  unfold highest at h
  have hsorted : (candidates.insertionSort fun a b => b.1 ≤ a.1).Pairwise fun a b => b.1 ≤ a.1 := by
    have htotal : Std.Total fun a b : Version × α => b.1 ≤ a.1 := ⟨fun a b => le_total b.1 a.1⟩
    have htrans : IsTrans (Version × α) fun a b => b.1 ≤ a.1 := ⟨fun _ _ _ hab hbc => hbc.trans hab⟩
    exact List.pairwise_insertionSort _ candidates
  have hmem : ∀ c, c ∈ candidates.insertionSort (fun a b => b.1 ≤ a.1) ↔ c ∈ candidates :=
    fun c => (List.perm_insertionSort _ candidates).mem_iff
  cases hlist : candidates.insertionSort fun a b => b.1 ≤ a.1 with
  | nil =>
      rw [hlist] at h
      cases h
  | cons first rest =>
      rw [hlist] at h hsorted hmem
      obtain rfl : first = best := Option.some.inj h
      refine ⟨(hmem first).mp List.mem_cons_self, fun c hc => ?_⟩
      rcases List.mem_cons.mp ((hmem c).mpr hc) with rfl | hrest
      · exact le_refl _
      · exact List.rel_of_pairwise_cons hsorted hrest

theorem highest_eq_none {α : Type} {candidates : List (Version × α)} : highest candidates = none ↔ candidates = [] := by
  unfold highest
  rw [List.head?_eq_none_iff]
  constructor
  · intro h
    have hperm := List.perm_insertionSort (fun a b : Version × α => b.1 ≤ a.1) candidates
    rw [h] at hperm
    exact hperm.symm.eq_nil
  · rintro rfl
    rfl

end Nodus.Packages
