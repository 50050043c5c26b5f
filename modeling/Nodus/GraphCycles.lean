import Mathlib.Algebra.BigOperators.Group.Finset.Basic
import Mathlib.Algebra.GroupWithZero.Nat
import Mathlib.Algebra.Order.BigOperators.Group.Finset
import Mathlib.Data.List.Chain
import Mathlib.Data.List.Nodup
import Mathlib.Logic.Relation

/-! Cycles of a map of dependencies, found by an iterative depth-first search with three colours. -/

namespace Nodus.GraphCycles

open Relation

inductive Colour where
  | white
  | grey
  | black
  deriving DecidableEq, Repr

/-- A dictionary from the nodes to their dependencies. -/
structure Adjacency (α : Type) where
  entries : List (α × List α)
  nodup : (entries.map Prod.fst).Nodup

variable {α : Type} [DecidableEq α]

namespace Adjacency

def keys (g : Adjacency α) : List α := g.entries.map Prod.fst

/-- The dependencies of a node, none if it is not a key. -/
def deps (g : Adjacency α) (node : α) : List α := ((g.entries.find? (·.1 = node)).map Prod.snd).getD []

/-- An edge of the graph between its keys. -/
def Edge (g : Adjacency α) (u v : α) : Prop := u ∈ g.keys ∧ v ∈ g.keys ∧ v ∈ g.deps u

end Adjacency

structure Search (α : Type) where
  colour : α → Colour := fun _ => .white
  path : List α := []
  /-- The nodes that are open with the number of dependencies looked at, the last one first. -/
  stack : List (α × Nat) := []

/-- One turn of the inner loop: a cycle, or the search goes on. -/
def Search.step (g : Adjacency α) (s : Search α) : List α ⊕ Search α :=
  match s.stack with
  | [] => .inr s
  | (node, index) :: rest =>
      match (g.deps node)[index]? with
      | some dep =>
          let stack := (node, index + 1) :: rest
          match s.colour dep with
          | .grey => .inl (s.path.drop (s.path.idxOf dep))
          | .white =>
              if dep ∈ g.keys then
                .inr { colour := Function.update s.colour dep .grey, path := s.path ++ [dep], stack := (dep, 0) :: stack }
              else .inr { s with stack := stack }
          | .black => .inr { s with stack := stack }
      | none => .inr { colour := Function.update s.colour node .black, path := s.path.dropLast, stack := rest }

/-- The inner loop, for as many turns at most. -/
def explore (g : Adjacency α) : Nat → Search α → Option (List α ⊕ Search α)
  | fuel, s =>
      if s.stack = [] then some (.inr s)
      else
        match fuel with
        | 0 => none
        | fuel + 1 =>
            match s.step g with
            | .inl cycle => some (.inl cycle)
            | .inr s' => explore g fuel s'

/-- The outer loop. -/
def detectFrom (g : Adjacency α) (fuel : Nat) : List α → Search α → Option (Option (List α))
  | [], _ => some none
  | root :: rest, s =>
      if s.colour root ≠ .white then detectFrom g fuel rest s
      else
        match explore g fuel
          { colour := Function.update s.colour root .grey, path := s.path ++ [root], stack := [(root, 0)] } with
        | none => none
        | some (.inl cycle) => some (some cycle)
        | some (.inr s') => detectFrom g fuel rest s'

/-- `detect_cycle`, when no inner loop takes more turns. -/
def detectCycle (g : Adjacency α) (fuel : Nat) : Option (Option (List α)) := detectFrom g fuel g.keys {}

/-! ### The invariant -/

variable {g : Adjacency α} {s s' : Search α} {u v node dep : α}

/-- The dependencies of which only the last one looked at may still be open. -/
def Scanned (g : Adjacency α) (colour : α → Colour) : Option α → List (α × Nat) → Prop
  | _, [] => True
  | none, (u, index) :: rest =>
      (∀ i < index, ∀ d ∈ (g.deps u)[i]?, d ∈ g.keys → colour d = .black) ∧ Scanned g colour (some u) rest
  | some above, (u, index) :: rest =>
      (∃ last, index = last + 1 ∧ (g.deps u)[last]? = some above ∧
        ∀ i < last, ∀ d ∈ (g.deps u)[i]?, d ∈ g.keys → colour d = .black) ∧ Scanned g colour (some u) rest

structure Searching (g : Adjacency α) (s : Search α) : Prop where
  keys : ∀ u, s.colour u ≠ .white → u ∈ g.keys
  path : s.path = (s.stack.map Prod.fst).reverse
  grey : ∀ u, s.colour u = .grey ↔ u ∈ s.path
  nodup : s.path.Nodup
  scanned : Scanned g s.colour none s.stack
  /-- From a node that is closed there is no way to a cycle. -/
  black : ∀ u, s.colour u = .black → Acc (fun d u => g.Edge u d) u

theorem Scanned.mono {colour colour' : α → Colour} {above : Option α} {stack : List (α × Nat)} (h : Scanned g colour above stack)
    (hblack : ∀ u, colour u = .black → colour' u = .black) : Scanned g colour' above stack := by
  induction stack generalizing above with
  | nil => cases above <;> trivial
  | cons entry rest ih =>
      cases above with
      | none => exact ⟨fun i hi d hd hkey => hblack d (h.1 i hi d hd hkey), ih h.2⟩
      | some above =>
          obtain ⟨⟨last, hindex, hlast, hbefore⟩, hrest⟩ := h
          exact ⟨⟨last, hindex, hlast, fun i hi d hd hkey => hblack d (hbefore i hi d hd hkey)⟩, ih hrest⟩

theorem Scanned.close {colour : α → Colour} {above : α} {stack : List (α × Nat)} (h : Scanned g colour (some above) stack)
    (hblack : colour above = .black) : Scanned g colour none stack := by
  cases stack with
  | nil => trivial
  | cons entry rest =>
      obtain ⟨⟨last, hindex, hlast, hbefore⟩, hrest⟩ := h
      refine ⟨fun i hi d hd hkey => ?_, hrest⟩
      rcases Nat.lt_succ_iff_lt_or_eq.mp (hindex ▸ hi) with hlt | rfl
      · exact hbefore i hlt d hd hkey
      · rw [hlast] at hd
        obtain rfl := Option.some.inj hd
        exact hblack

theorem Scanned.chain {colour : α → Colour} {above : Option α} {stack : List (α × Nat)} (h : Scanned g colour above stack) :
    (above.toList ++ stack.map Prod.fst).IsChain (fun v u => v ∈ g.deps u) := by
  induction stack generalizing above with
  | nil => cases above <;> simp
  | cons entry rest ih =>
      obtain ⟨u, index⟩ := entry
      cases above with
      | none => exact ih h.2
      | some above =>
          obtain ⟨⟨last, _, hlast, _⟩, hrest⟩ := h
          exact .cons_cons (List.mem_of_getElem? hlast) (ih hrest)

theorem Scanned.advance {colour : α → Colour} {index : Nat} {rest : List (α × Nat)} (h : Scanned g colour none ((u, index) :: rest))
    (hdep : (g.deps u)[index]? = some dep) (hblack : dep ∈ g.keys → colour dep = .black) :
    Scanned g colour none ((u, index + 1) :: rest) := by
  refine ⟨fun i hi d hd hkey => ?_, h.2⟩
  rcases Nat.lt_succ_iff_lt_or_eq.mp hi with hlt | rfl
  · exact h.1 i hlt d hd hkey
  · rw [hdep] at hd
    obtain rfl := Option.some.inj hd
    exact hblack hkey

theorem Scanned.push {colour : α → Colour} {index : Nat} {rest : List (α × Nat)} (h : Scanned g colour none ((u, index) :: rest))
    (hdep : (g.deps u)[index]? = some dep) : Scanned g colour none ((dep, 0) :: (u, index + 1) :: rest) :=
  ⟨fun _ hi => absurd hi (Nat.not_lt_zero _), ⟨index, rfl, hdep, h.1⟩, h.2⟩

/-! ### A cycle -/

/-- Distinct nodes, each with an edge to the next and the last one with an edge to the first. -/
structure IsCycle (g : Adjacency α) (cycle : List α) : Prop where
  nonempty : cycle ≠ []
  nodup : cycle.Nodup
  chain : cycle.IsChain g.Edge
  closes : ∀ first ∈ cycle.head?, ∀ last ∈ cycle.getLast?, g.Edge last first

omit [DecidableEq α] in
theorem transGen_of_chain {r : α → α → Prop} {first : α} {rest : List α} (hchain : (first :: rest).IsChain r)
    (hcloses : r ((first :: rest).getLast (List.cons_ne_nil _ _)) first) : TransGen r first first :=
  TransGen.tail' (List.relationReflTransGen_of_exists_isChain_cons rest hchain rfl) hcloses

theorem IsCycle.cyclic {cycle : List α} (h : IsCycle g cycle) : ∃ u, TransGen g.Edge u u := by
  cases cycle with
  | nil => exact absurd rfl h.nonempty
  | cons first rest =>
      have hlast : (first :: rest).getLast (List.cons_ne_nil _ _) ∈ (first :: rest).getLast? := by
        rw [List.getLast?_eq_getLast_of_ne_nil (List.cons_ne_nil _ _)]
        rfl
      exact ⟨first, transGen_of_chain h.chain (h.closes first rfl _ hlast)⟩

/-! ### One turn -/

/-- The nodes not yet met with their dependencies, and what is left to look at. -/
def Search.left (g : Adjacency α) (s : Search α) : Nat :=
  ∑ u ∈ g.keys.toFinset.filter (s.colour · = .white), ((g.deps u).length + 2) +
    (s.stack.map fun entry => (g.deps entry.1).length - entry.2 + 1).sum

theorem Searching.chain (h : Searching g s) : s.path.IsChain g.Edge := by
  have hall : ∀ u ∈ s.path, u ∈ g.keys := by
    intro u hu
    apply h.keys
    rw [(h.grey u).mpr hu]
    decide
  have hchain : s.path.IsChain (fun u v => v ∈ g.deps u) := by
    rw [h.path, List.isChain_reverse]
    exact h.scanned.chain
  exact hchain.imp_of_mem_imp fun u v hu hv hdep => ⟨hall u hu, hall v hv, hdep⟩

theorem Searching.cycle {index : Nat} {rest : List (α × Nat)} (h : Searching g s) (hstack : s.stack = (node, index) :: rest)
    (hdep : (g.deps node)[index]? = some dep) (hgrey : s.colour dep = .grey) :
    IsCycle g (s.path.drop (s.path.idxOf dep)) := by
  have hmem : dep ∈ s.path := (h.grey dep).mp hgrey
  have hlt : s.path.idxOf dep < s.path.length := List.idxOf_lt_length_of_mem hmem
  have hpath : s.path = (rest.map Prod.fst).reverse ++ [node] := by
    rw [h.path, hstack]
    simp
  have hnode : s.colour node = .grey := (h.grey node).mpr (by simp [hpath])
  refine ⟨?_, h.nodup.sublist (List.drop_sublist _ _), h.chain.drop _, ?_⟩
  · simpa using hlt
  · intro first hfirst last hlast
    have hhead : (s.path.drop (s.path.idxOf dep)).head? = some dep := by
      rw [List.head?_drop, List.getElem?_eq_getElem hlt, List.getElem_idxOf]
    have hend : (s.path.drop (s.path.idxOf dep)).getLast? = some node := by
      rw [List.getLast?_drop, if_neg (Nat.not_le.mpr hlt), hpath]
      simp
    rw [hhead] at hfirst
    rw [hend] at hlast
    obtain rfl := Option.some.inj hfirst
    obtain rfl := Option.some.inj hlast
    refine ⟨h.keys _ ?_, h.keys _ ?_, List.mem_of_getElem? hdep⟩
    · rw [hnode]; decide
    · rw [hgrey]; decide

theorem filter_opened {colour : α → Colour} (hwhite : colour dep = .white) :
    g.keys.toFinset.filter (Function.update colour dep .grey · = .white) =
      (g.keys.toFinset.filter (colour · = .white)).erase dep := by
  ext u
  by_cases hu : u = dep
  · subst hu; simp
  · simp [hu]

theorem filter_closed {colour : α → Colour} (hgrey : colour node = .grey) :
    g.keys.toFinset.filter (Function.update colour node .black · = .white) = g.keys.toFinset.filter (colour · = .white) := by
  ext u
  by_cases hu : u = node
  · subst hu; simp [hgrey]
  · simp [Function.update_of_ne hu]

theorem Searching.open {stack : List (α × Nat)} (h : Searching g s) (hkey : u ∈ g.keys) (hwhite : s.colour u = .white)
    (hnodes : stack.map Prod.fst = s.stack.map Prod.fst)
    (hscanned : ∀ colour, (∀ v, s.colour v = .black → colour v = .black) → Scanned g colour none ((u, 0) :: stack)) :
    Searching g { colour := Function.update s.colour u .grey, path := s.path ++ [u], stack := (u, 0) :: stack } := by
  have hother : ∀ v, s.colour v ≠ .white → v ≠ u := by
    rintro v hv rfl
    exact hv hwhite
  constructor
  · intro v hv
    by_cases hvu : v = u
    · exact hvu ▸ hkey
    · exact h.keys v (by simpa [Function.update_of_ne hvu] using hv)
  · simp [h.path, hnodes]
  · intro v
    by_cases hvu : v = u
    · subst hvu; simp
    · simp only [Function.update_of_ne hvu, List.mem_append, List.mem_singleton, hvu, or_false]
      exact h.grey v
  · rw [List.nodup_append]
    refine ⟨h.nodup, List.nodup_singleton u, ?_⟩
    intro v hv w hw
    obtain rfl := List.mem_singleton.mp hw
    apply hother
    rw [(h.grey v).mpr hv]
    decide
  · apply hscanned
    intro v hv
    exact (Function.update_of_ne (hother v (by rw [hv]; decide)) _ _).trans hv
  · intro v hv
    by_cases hvu : v = u
    · subst hvu; simp at hv
    · exact h.black v (by simpa [Function.update_of_ne hvu] using hv)

theorem Searching.close {index : Nat} {rest : List (α × Nat)} (h : Searching g s) (hstack : s.stack = (node, index) :: rest)
    (hend : (g.deps node)[index]? = none) :
    Searching g { colour := Function.update s.colour node .black, path := s.path.dropLast, stack := rest } := by
  have hpath : s.path = (rest.map Prod.fst).reverse ++ [node] := by
    rw [h.path, hstack]
    simp
  have hgrey : s.colour node = .grey := (h.grey node).mpr (by simp [hpath])
  have hscanned := h.scanned
  rw [hstack] at hscanned
  have hlast : node ∉ (rest.map Prod.fst).reverse := by
    have hnodup := h.nodup
    rw [hpath, List.nodup_append] at hnodup
    intro hmem
    exact hnodup.2.2 node hmem node (List.mem_singleton_self node) rfl
  have hblack : ∀ v, s.colour v = .black → Function.update s.colour node .black v = .black := by
    intro v hv
    by_cases hvn : v = node
    · subst hvn; simp
    · rwa [Function.update_of_ne hvn]
  constructor
  · intro v hv
    by_cases hvn : v = node
    · subst hvn
      exact h.keys v (by rw [hgrey]; decide)
    · exact h.keys v (by simpa [Function.update_of_ne hvn] using hv)
  · simp [hpath]
  · intro v
    have hold := h.grey v
    rw [hpath] at hold
    simp only [hpath, List.dropLast_concat]
    by_cases hvn : v = node
    · subst hvn
      simpa using hlast
    · simp only [Function.update_of_ne hvn]
      simpa [hvn] using hold
  · exact h.nodup.sublist (List.dropLast_sublist _)
  · exact (hscanned.2.mono hblack).close (by simp)
  · intro v hv
    by_cases hvn : v = node
    · subst hvn
      constructor
      rintro d ⟨_, hkey, hdep⟩
      obtain ⟨i, hi, rfl⟩ := List.getElem_of_mem hdep
      have hindex : (g.deps v).length ≤ index := List.getElem?_eq_none_iff.mp hend
      exact h.black _ (hscanned.1 i (by omega) _ (List.getElem?_eq_getElem hi) hkey)
    · exact h.black v (by simpa [Function.update_of_ne hvn] using hv)

theorem sum_opened {colour : α → Colour} (hkey : dep ∈ g.keys) (hwhite : colour dep = .white) :
    ∑ u ∈ g.keys.toFinset.filter (Function.update colour dep .grey · = .white), ((g.deps u).length + 2) +
        ((g.deps dep).length + 2) = ∑ u ∈ g.keys.toFinset.filter (colour · = .white), ((g.deps u).length + 2) := by
  rw [filter_opened hwhite]
  exact Finset.sum_erase_add _ _ (by simp [hkey, hwhite])

/-- A turn finds a cycle or comes closer to the end. -/
structure Nearer (g : Adjacency α) (s s' : Search α) : Prop where
  searching : Searching g s'
  left : s'.left g < s.left g
  met : ∀ u, s.colour u ≠ .white → s'.colour u ≠ .white

theorem Search.step_cases {index : Nat} {rest : List (α × Nat)} (hstack : s.stack = (node, index) :: rest) :
    (∃ dep, (g.deps node)[index]? = some dep ∧ s.colour dep = .grey ∧ s.step g = .inl (s.path.drop (s.path.idxOf dep))) ∨
    (∃ dep, (g.deps node)[index]? = some dep ∧ dep ∈ g.keys ∧ s.colour dep = .white ∧
      s.step g = .inr { colour := Function.update s.colour dep .grey, path := s.path ++ [dep],
                        stack := (dep, 0) :: (node, index + 1) :: rest }) ∨
    (∃ dep, (g.deps node)[index]? = some dep ∧ s.colour dep ≠ .grey ∧ (dep ∈ g.keys → s.colour dep = .black) ∧
      s.step g = .inr { s with stack := (node, index + 1) :: rest }) ∨
    ((g.deps node)[index]? = none ∧
      s.step g = .inr { colour := Function.update s.colour node .black, path := s.path.dropLast, stack := rest }) := by
  cases hdep : (g.deps node)[index]? with
  | none => exact .inr (.inr (.inr ⟨rfl, by simp [step, hstack, hdep]⟩))
  | some dep =>
      cases hcolour : s.colour dep with
      | grey => exact .inl ⟨dep, rfl, hcolour, by simp [step, hstack, hdep, hcolour]⟩
      | black => exact .inr (.inr (.inl ⟨dep, rfl, by simp [hcolour], fun _ => hcolour, by simp [step, hstack, hdep, hcolour]⟩))
      | white =>
          by_cases hkey : dep ∈ g.keys
          · exact .inr (.inl ⟨dep, rfl, hkey, hcolour, by simp [step, hstack, hdep, hcolour, hkey]⟩)
          · exact .inr (.inr (.inl ⟨dep, rfl, by simp [hcolour], fun h => absurd h hkey, by simp [step, hstack, hdep, hcolour, hkey]⟩))

theorem update_met {colour : α → Colour} {value : Colour} (hvalue : value ≠ .white) (u : α) (hu : colour u ≠ .white) :
    Function.update colour v value u ≠ .white := by
  by_cases huv : u = v
  · subst huv
    simpa using hvalue
  · simpa [Function.update_of_ne huv] using hu

theorem Searching.step (h : Searching g s) (hopen : s.stack ≠ []) :
    (∃ cycle, s.step g = .inl cycle ∧ IsCycle g cycle) ∨ ∃ s', s.step g = .inr s' ∧ Nearer g s s' := by
  obtain ⟨⟨node, index⟩, rest, hstack⟩ := List.exists_cons_of_ne_nil hopen
  have hscanned := h.scanned
  rw [hstack] at hscanned
  rcases Search.step_cases (g := g) hstack with ⟨dep, hdep, hgrey, hstep⟩ | ⟨dep, hdep, hkey, hwhite, hstep⟩ |
    ⟨dep, hdep, hgrey, hblack, hstep⟩ | ⟨hend, hstep⟩
  · exact .inl ⟨_, hstep, h.cycle hstack hdep hgrey⟩
  · refine .inr ⟨_, hstep, h.open hkey hwhite (by simp [hstack]) (fun colour hmono => (hscanned.push hdep).mono hmono), ?_,
      update_met (by decide)⟩
    have hsum := sum_opened hkey hwhite
    have hlt : index < (g.deps node).length := (List.getElem?_eq_some_iff.mp hdep).1
    simp only [Search.left, hstack, List.map_cons, List.sum_cons]
    omega
  · have hlt : index < (g.deps node).length := (List.getElem?_eq_some_iff.mp hdep).1
    refine .inr ⟨_, hstep, ⟨h.keys, ?_, h.grey, h.nodup, hscanned.advance hdep hblack, h.black⟩, ?_, fun u hu => hu⟩
    · simp [h.path, hstack]
    · simp only [Search.left, hstack, List.map_cons, List.sum_cons]
      omega
  · refine .inr ⟨_, hstep, h.close hstack hend, ?_, update_met (by decide)⟩
    have hnode : s.colour node = .grey := (h.grey node).mpr (by simp [h.path, hstack])
    simp only [Search.left, hstack, filter_closed hnode, List.map_cons, List.sum_cons]
    omega

/-! ### The loops -/

theorem explore_done (hstack : s.stack = []) (fuel : Nat) : explore g fuel s = some (.inr s) := by
  unfold explore
  exact if_pos hstack

theorem explore_succ (hstack : s.stack ≠ []) (fuel : Nat) :
    explore g (fuel + 1) s = (s.step g).elim (fun cycle => some (.inl cycle)) (explore g fuel) := by
  rw [explore, if_neg hstack]
  cases s.step g <;> rfl

theorem Search.left_pos (hstack : s.stack ≠ []) : 0 < s.left g := by
  obtain ⟨entry, rest, hentries⟩ := List.exists_cons_of_ne_nil hstack
  simp only [left, hentries, List.map_cons, List.sum_cons]
  omega

theorem explore_spec (h : Searching g s) :
    ∃ outcome, (∀ fuel ≥ s.left g, explore g fuel s = some outcome) ∧
      ((∃ cycle, outcome = .inl cycle ∧ IsCycle g cycle) ∨
        ∃ s', outcome = .inr s' ∧ Searching g s' ∧ s'.stack = [] ∧ s'.left g ≤ s.left g ∧
          ∀ u, s.colour u ≠ .white → s'.colour u ≠ .white) := by
  induction hleft : s.left g using Nat.strong_induction_on generalizing s with
  | _ left ih =>
      subst hleft
      by_cases hstack : s.stack = []
      · exact ⟨.inr s, fun fuel _ => explore_done hstack fuel, .inr ⟨s, rfl, h, hstack, le_rfl, fun _ hu => hu⟩⟩
      · have hpos : 0 < s.left g := Search.left_pos hstack
        rcases h.step hstack with ⟨cycle, hstep, hcycle⟩ | ⟨s', hstep, hnearer⟩
        · refine ⟨.inl cycle, fun fuel hfuel => ?_, .inl ⟨cycle, rfl, hcycle⟩⟩
          obtain ⟨fuel, rfl⟩ := Nat.exists_eq_succ_of_ne_zero (by omega : fuel ≠ 0)
          rw [explore_succ hstack, hstep]
          rfl
        · obtain ⟨outcome, hrun, hend⟩ := ih _ hnearer.left hnearer.searching rfl
          have hlt := hnearer.left
          refine ⟨outcome, fun fuel hfuel => ?_, hend.imp_right ?_⟩
          · obtain ⟨fuel, rfl⟩ := Nat.exists_eq_succ_of_ne_zero (by omega : fuel ≠ 0)
            rw [explore_succ hstack, hstep]
            exact hrun fuel (by omega)
          · rintro ⟨s'', rfl, hsearch, hempty, hle, hmet⟩
            exact ⟨s'', rfl, hsearch, hempty, hle.trans hlt.le, fun u hu => hmet u (hnearer.met u hu)⟩

theorem Searching.closed (h : Searching g s) (hstack : s.stack = []) (hu : s.colour u ≠ .white) : s.colour u = .black := by
  have hnot : s.colour u ≠ .grey := by
    intro hgrey
    have hmem := (h.grey u).mp hgrey
    simp [h.path, hstack] at hmem
  cases hcolour : s.colour u with
  | white => exact absurd hcolour hu
  | grey => exact absurd hcolour hnot
  | black => rfl

theorem Searching.root (h : Searching g s) (hstack : s.stack = []) (hkey : u ∈ g.keys) (hwhite : s.colour u = .white) :
    Searching g { colour := Function.update s.colour u .grey, path := s.path ++ [u], stack := [(u, 0)] } :=
  h.open hkey hwhite (by simp [hstack]) fun _ _ => ⟨fun _ hi => absurd hi (Nat.not_lt_zero _), trivial⟩

theorem left_root (hkey : u ∈ g.keys) (hwhite : s.colour u = .white) :
    Search.left g { colour := Function.update s.colour u .grey, path := s.path ++ [u], stack := [(u, 0)] } ≤ s.left g := by
  have hsum := sum_opened hkey hwhite
  simp only [Search.left, List.map_cons, List.map_nil, List.sum_cons, List.sum_nil]
  omega

theorem detectFrom_spec {roots : List α} (hroots : ∀ u ∈ roots, u ∈ g.keys) (h : Searching g s) (hstack : s.stack = []) :
    ∃ result, (∀ fuel ≥ s.left g, detectFrom g fuel roots s = some result) ∧ (∀ cycle, result = some cycle → IsCycle g cycle) ∧
      (result = none → ∀ u, u ∈ roots ∨ s.colour u ≠ .white → Acc (fun d u => g.Edge u d) u) := by
  induction roots generalizing s with
  | nil =>
      refine ⟨none, fun _ _ => rfl, nofun, fun _ u hu => ?_⟩
      rcases hu with hmem | hmet
      · exact absurd hmem List.not_mem_nil
      · exact h.black u (h.closed hstack hmet)
  | cons root rest ih =>
      have hrest : ∀ u ∈ rest, u ∈ g.keys := fun u hu => hroots u (List.mem_cons_of_mem _ hu)
      by_cases hmet : s.colour root ≠ .white
      · obtain ⟨result, hrun, hcycle, hnone⟩ := ih hrest h hstack
        refine ⟨result, fun fuel hfuel => ?_, hcycle, fun hresult u hu => hnone hresult u ?_⟩
        · rw [detectFrom, if_pos hmet]
          exact hrun fuel hfuel
        · rcases hu with hmem | hu
          · rcases List.mem_cons.mp hmem with rfl | hmem
            · exact .inr hmet
            · exact .inl hmem
          · exact .inr hu
      · have hkey : root ∈ g.keys := hroots root List.mem_cons_self
        have hwhite : s.colour root = .white := not_not.mp hmet
        obtain ⟨outcome, hexplore, hend⟩ := explore_spec (h.root hstack hkey hwhite)
        have hle := left_root hkey hwhite
        rcases hend with ⟨cycle, rfl, hcycle⟩ | ⟨s', rfl, hsearch, hempty, hleft, hkeep⟩
        · refine ⟨some cycle, fun fuel hfuel => ?_, ?_, nofun⟩
          · rw [detectFrom, if_neg hmet, hexplore fuel (by omega)]
          · rintro _ ⟨rfl⟩
            exact hcycle
        · obtain ⟨result, hrun, hcycle, hnone⟩ := ih hrest hsearch hempty
          refine ⟨result, fun fuel hfuel => ?_, hcycle, fun hresult u hu => hnone hresult u ?_⟩
          · rw [detectFrom, if_neg hmet, hexplore fuel (by omega)]
            exact hrun fuel (by omega)
          · rcases hu with hmem | hu
            · rcases List.mem_cons.mp hmem with rfl | hmem
              · exact .inr (hkeep u (by simp))
              · exact .inl hmem
            · exact .inr (hkeep u (update_met (by decide) u hu))

theorem searching_start : Searching g {} where
  keys u hu := absurd rfl hu
  path := rfl
  grey u := by simp
  nodup := List.nodup_nil
  scanned := trivial
  black u hu := by simp at hu

theorem not_transGen_of_acc (h : Acc (fun d u => g.Edge u d) u) : ¬ TransGen g.Edge u u := by
  intro hcycle
  induction h with
  | intro u _ ih =>
      obtain ⟨v, hedge, hback⟩ := TransGen.head'_iff.mp hcycle
      exact ih v hedge (TransGen.tail' hback hedge)

/-- The search ends for every map. It finds nothing exactly when there is no cycle among the keys, and what it finds is one. -/
theorem detectCycle_exact (g : Adjacency α) :
    ∃ result, (∃ turns, ∀ fuel ≥ turns, detectCycle g fuel = some result) ∧ (result = none ↔ ∀ u, ¬ TransGen g.Edge u u) ∧
      ∀ cycle, result = some cycle → IsCycle g cycle := by
  obtain ⟨result, hrun, hcycle, hnone⟩ := detectFrom_spec (fun u hu => hu) searching_start (g := g) rfl
  refine ⟨result, ⟨_, hrun⟩, ⟨fun hresult u hback => ?_, fun hacyclic => ?_⟩, hcycle⟩
  · obtain ⟨v, hedge, _⟩ := TransGen.head'_iff.mp hback
    exact not_transGen_of_acc (hnone hresult u (.inl hedge.1)) hback
  · cases result with
    | none => rfl
    | some cycle =>
        obtain ⟨u, hback⟩ := (hcycle cycle rfl).cyclic
        exact absurd hback (hacyclic u)

end Nodus.GraphCycles
