import Mathlib.Data.List.Basic
import Mathlib.Logic.Function.Basic

/-! Clients that share a cell. An operation reads the cell, and writes it as a whole if it writes anything. Either it holds a lock
from its read to its write, or the operations of other clients can come between the two. -/

namespace Interleaving

variable {ι σ Op : Type} [DecidableEq ι]

/-- The operations on a cell: what one writes that has read a value, and whether it holds the lock. -/
structure Operations (σ Op : Type) where
  write : Op → σ → Option σ
  locked : Op → Bool

/-- An operation that nothing comes between. -/
def Operations.apply (ops : Operations σ Op) (op : Op) (cell : σ) : σ := (ops.write op cell).getD cell

/-- One operation after the other. -/
def Operations.serial (ops : Operations σ Op) (cell : σ) (order : List (ι × Op)) : σ :=
  order.foldl (fun cell p => ops.apply p.2 cell) cell

/-- The cell with its clients. -/
structure Shared (ι σ Op : Type) where
  cell : σ
  /-- What a client is still to do. -/
  todo : ι → List Op
  /-- What a client is about to write, with what it has read for it. -/
  writing : ι → Option (σ × σ) := fun _ => none
  /-- The operations that are done, in the order of their writes, or of their reads if they write nothing. -/
  done : List (ι × Op) := []

namespace Shared

variable {ops : Operations σ Op} {s : Shared ι σ Op}

/-- The first operation of a client is done. -/
def complete (s : Shared ι σ Op) (c : ι) (op : Op) (cell : σ) : Shared ι σ Op :=
  { cell
    todo := Function.update s.todo c (s.todo c).tail
    writing := Function.update s.writing c none
    done := s.done ++ [(c, op)] }

/-- A client goes on: it reads or it writes, or both if it holds the lock. -/
def step (ops : Operations σ Op) (s : Shared ι σ Op) (c : ι) : Shared ι σ Op :=
  match s.todo c with
  | [] => s
  | op :: _ =>
      match s.writing c with
      | some (_, written) => s.complete c op written
      | none =>
          match ops.write op s.cell with
          | none => s.complete c op s.cell
          | some written =>
              if ops.locked op then s.complete c op written
              else { s with writing := Function.update s.writing c (some (s.cell, written)) }

/-- Clients go on in any order. -/
def run (ops : Operations σ Op) (s : Shared ι σ Op) (schedule : List ι) : Shared ι σ Op := schedule.foldl (step ops) s

/-- If the client is about to write, the cell is what it has read. -/
def Undisturbed (s : Shared ι σ Op) (c : ι) : Prop := ∀ p ∈ s.writing c, p.1 = s.cell

instance [DecidableEq σ] (s : Shared ι σ Op) (c : ι) : Decidable (s.Undisturbed c) :=
  inferInstanceAs (Decidable (∀ p ∈ s.writing c, _))

/-- Every write of a run finds what has been read for it. -/
def AllUndisturbed (ops : Operations σ Op) (s : Shared ι σ Op) : List ι → Prop
  | [] => True
  | c :: schedule => s.Undisturbed c ∧ (s.step ops c).AllUndisturbed ops schedule

/-- What the client has done, its operations in their order. -/
def doneBy (s : Shared ι σ Op) (c : ι) : List Op := (s.done.filter (·.1 = c)).map Prod.snd

/-- What is known of a run from a cell with what its clients are to do. -/
structure Sequential (ops : Operations σ Op) (cell : σ) (programs : ι → List Op) (s : Shared ι σ Op) : Prop where
  result : s.cell = ops.serial cell s.done
  programs : ∀ c, s.doneBy c ++ s.todo c = programs c
  written : ∀ c, ∀ p ∈ s.writing c, ∃ op rest, s.todo c = op :: rest ∧ ops.write op p.1 = some p.2

theorem sequential_start (ops : Operations σ Op) (cell : σ) (programs : ι → List Op) :
    Sequential ops cell programs { cell, todo := programs } :=
  ⟨rfl, fun _ => rfl, fun _ _ hp => nomatch hp⟩

theorem doneBy_complete (s : Shared ι σ Op) (c : ι) (op : Op) (cell : σ) (c' : ι) :
    (s.complete c op cell).doneBy c' = s.doneBy c' ++ if c = c' then [op] else [] := by
  unfold doneBy complete
  rw [List.filter_append, List.map_append]
  congr 1
  by_cases h : c = c'
  · rw [if_pos h, List.filter_cons_of_pos (by simpa using h)]
    rfl
  · rw [if_neg h, List.filter_cons_of_neg (by simpa using h)]
    rfl

variable {cell : σ} {programs : ι → List Op}

theorem Sequential.complete (h : Sequential ops cell programs s) {c : ι} {op : Op} {rest : List Op}
    (htodo : s.todo c = op :: rest) {written : σ} (hwritten : written = ops.apply op s.cell) :
    Sequential ops cell programs (s.complete c op written) where
  result := by
    show written = ops.serial cell (s.done ++ [(c, op)])
    rw [hwritten, h.result]
    unfold Operations.serial
    rw [List.foldl_append]
    rfl
  programs c' := by
    rw [doneBy_complete]
    show _ ++ Function.update s.todo c (s.todo c).tail c' = programs c'
    by_cases hc : c = c'
    · subst hc
      rw [if_pos rfl, Function.update_self, ← h.programs c, htodo, List.append_assoc]
      rfl
    · rw [if_neg hc, Function.update_of_ne (Ne.symm hc), List.append_nil]
      exact h.programs c'
  written c' p hp := by
    have hp : p ∈ Function.update s.writing c none c' := hp
    by_cases hc : c' = c
    · subst hc
      rw [Function.update_self] at hp
      cases hp
    · rw [Function.update_of_ne hc] at hp
      show ∃ op rest, Function.update s.todo c (s.todo c).tail c' = op :: rest ∧ _
      rw [Function.update_of_ne hc]
      exact h.written c' p hp

theorem step_cases (h : Sequential ops cell programs s) {c : ι} (hc : s.Undisturbed c) :
    s.step ops c = s ∨ (∃ op rest, s.todo c = op :: rest ∧ s.step ops c = s.complete c op (ops.apply op s.cell)) ∨
      ∃ op rest written, s.todo c = op :: rest ∧ ops.write op s.cell = some written ∧
        s.step ops c = { s with writing := Function.update s.writing c (some (s.cell, written)) } := by
  unfold step
  split
  · exact .inl rfl
  · next op rest htodo =>
      split
      · next seen written hwriting =>
          obtain ⟨op', rest', htodo', hwrite⟩ := h.written c (seen, written) hwriting
          obtain rfl : op = op' := (List.cons.inj (htodo.symm.trans htodo')).1
          have hsame : seen = s.cell := hc (seen, written) hwriting
          refine .inr (.inl ⟨op, rest, htodo, ?_⟩)
          unfold Operations.apply
          rw [← hsame, hwrite]
          rfl
      · split
        · next hwrite =>
            refine .inr (.inl ⟨op, rest, htodo, ?_⟩)
            unfold Operations.apply
            rw [hwrite]
            rfl
        · next written hwrite =>
            split
            · refine .inr (.inl ⟨op, rest, htodo, ?_⟩)
              unfold Operations.apply
              rw [hwrite]
              rfl
            · exact .inr (.inr ⟨op, rest, written, htodo, hwrite, rfl⟩)

theorem Sequential.step (h : Sequential ops cell programs s) {c : ι} (hc : s.Undisturbed c) :
    Sequential ops cell programs (s.step ops c) := by
  rcases step_cases h hc with he | ⟨op, rest, htodo, he⟩ | ⟨op, rest, written, htodo, hwrite, he⟩
  · rw [he]
    exact h
  · rw [he]
    exact h.complete htodo rfl
  · rw [he]
    refine ⟨h.result, h.programs, fun c' p hp => ?_⟩
    have hp : p ∈ Function.update s.writing c (some (s.cell, written)) c' := hp
    by_cases hcc : c' = c
    · subst hcc
      rw [Function.update_self] at hp
      obtain rfl := Option.some.inj hp
      exact ⟨op, rest, htodo, hwrite⟩
    · rw [Function.update_of_ne hcc] at hp
      exact h.written c' p hp

/-- If nothing comes between the reads and the writes, every run comes to what its operations come to one after the other. -/
theorem Sequential.run (h : Sequential ops cell programs s) (schedule : List ι) (hs : s.AllUndisturbed ops schedule) :
    Sequential ops cell programs (s.run ops schedule) := by
  induction schedule generalizing s with
  | nil => exact h
  | cons c schedule ih => exact ih (h.step hs.1) hs.2

/-- A step of a run is taken in a state that is reached and in which nothing has come between. -/
theorem allUndisturbed_append {schedule schedule' : List ι} (hs : s.AllUndisturbed ops (schedule ++ schedule')) :
    s.AllUndisturbed ops schedule ∧ (s.run ops schedule).AllUndisturbed ops schedule' := by
  induction schedule generalizing s with
  | nil => exact ⟨trivial, hs⟩
  | cons c schedule ih =>
      obtain ⟨hrest, hlast⟩ := ih hs.2
      exact ⟨⟨hs.1, hrest⟩, hlast⟩

/-- There is an order of the operations that are done, the operations of a client as it does them, in which they come to the
same one after the other. -/
def Serializable (ops : Operations σ Op) (cell : σ) (s : Shared ι σ Op) (programs : ι → List Op) : Prop :=
  ∃ order : List (ι × Op), (∀ c, (order.filter (·.1 = c)).map Prod.snd ++ s.todo c = programs c) ∧
    s.cell = ops.serial cell order

theorem Sequential.serializable (h : Sequential ops cell programs s) : Serializable ops cell s programs :=
  ⟨s.done, h.programs, h.result⟩

end Shared

end Interleaving
