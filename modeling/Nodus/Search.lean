import Mathlib.Algebra.BigOperators.Group.Finset.Basic
import Mathlib.Algebra.Order.BigOperators.Group.Finset
import Mathlib.Data.List.Basic
import Mathlib.Logic.Relation

/-! A search through a graph with a stack of the items that are still to be looked at. -/

namespace Search

variable {α : Type} [DecidableEq α] {next : α → List α}

/-- The items that have been seen when the stack is empty. The latest item on the stack is the first to be looked at. -/
def search (next : α → List α) : Nat → List α → List α → List α
  | 0, _, seen => seen
  | _ + 1, [], seen => seen
  | fuel + 1, a :: stack, seen =>
      if a ∈ seen then search next fuel stack seen else search next fuel ((next a).reverse ++ stack) (a :: seen)

/-- How many items the stack can still get. -/
def cost (next : α → List α) (items : Finset α) (stack seen : List α) : Nat :=
  stack.length + ∑ a ∈ items with a ∉ seen, (next a).length

end Search
