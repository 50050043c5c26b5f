import Mathlib.Data.Finset.Max
import Nodus.WriteConflicts

/-! Which updates of a cell are lost, and when the report at the end of a run says so. -/

namespace Nodus.Orchestration

open Ancestors Relation

variable {K V : Type} [LinearOrder K] {t a b : TaskId} {key : K}

/-! ### What the steps do -/

namespace CellAct

/-- The task that writes a cell. -/
def writer (key : K) : CellAct K V → Option TaskId
  | .write t k _ | .openForWrite t k _ | .fold t k _ => if k = key then some t else none
  | .read _ _ | .change _ _ _ => none

/-- A task assigns to a cell, or to a part of it, and this is what it holds then. -/
def leaves (t : TaskId) (key : K) : CellAct K V → Option V
  | .write u k v | .openForWrite u k v => if u = t ∧ k = key then some v else none
  | .read _ _ | .fold _ _ _ | .change _ _ _ => none

/-- A task reads a cell, as it does to assign to a part of it. -/
def Reads (t : TaskId) (key : K) : CellAct K V → Prop
  | .read u k | .openForWrite u k _ => u = t ∧ k = key
  | .write _ _ _ | .fold _ _ _ | .change _ _ _ => False

end CellAct

/-- The tasks that have written a cell, in the order of their first writes. -/
def writersOf (acts : List (CellAct K V)) (key : K) : List TaskId := TrackedWrites.distinct (acts.filterMap (CellAct.writer key))

/-- A task has read a cell before it has written it. -/
def ReadFirst (acts : List (CellAct K V)) (t : TaskId) (key : K) : Prop :=
  ∃ before act after, acts = before ++ act :: after ∧ act.Reads t key ∧ ∀ earlier ∈ before, earlier.leaves t key = none

/-- What a task has made of a cell by its last write. -/
def lastWritten (acts : List (CellAct K V)) (t : TaskId) (key : K) : Option V := (acts.filterMap (CellAct.leaves t key)).getLast?

/-- Two tasks that have written a cell have lost an update of it if nothing orders them. -/
def Loses (same : V → V → Option Bool) (acts : List (CellAct K V)) (key : K) (a b : TaskId) : Prop :=
  ReadFirst acts a key ∨ ReadFirst acts b key ∨
    ¬ ∃ v w, lastWritten acts a key = some v ∧ lastWritten acts b key = some w ∧ same v w = some true

/-- What is recorded of them says so. -/
def Suspected (same : V → V → Option Bool) (acts : List (CellAct K V)) (x : TrackedWrites K V) (key : K) (a b : TaskId) : Prop :=
  ReadFirst acts a key ∨ ReadFirst acts b key ∨
    ¬ ∃ v w, x.writtenValues key a = some v ∧ x.writtenValues key b = some w ∧ same v w = some true

namespace TrackedWrites

variable {cells : K → V} {acts : List (CellAct K V)} {x : TrackedWrites K V} {act : CellAct K V}

theorem run_append (acts acts' : List (CellAct K V)) : x.run (acts ++ acts') = (x.run acts).run acts' := List.foldl_append ..

theorem writes_getItem : (x.getItem t key).writes = x.writes ∧ (x.getItem t key).keys = x.keys ∧
    (x.getItem t key).writtenValues = x.writtenValues := by
  unfold getItem
  split
  · exact ⟨rfl, rfl, rfl⟩
  · exact ⟨rfl, rfl, rfl⟩

theorem writes_perform (key : K) : (x.perform act).writes key = x.writes key ++ (act.writer key).toList := by
  have hnote : ∀ {x : TrackedWrites K V} {t k}, (x.note t k).writes key = x.writes key ++ (if k = key then some t else none).toList := by
    intro x t k
    unfold note
    by_cases hk : k = key
    · subst hk
      simp
    · simp [hk, Function.update_of_ne (Ne.symm hk)]
  cases act with
  | write t k v => exact hnote
  | read t k =>
      show (x.getItem t k).writes key = _
      rw [writes_getItem.1]
      exact (List.append_nil _).symm
  | openForWrite t k changed =>
      show ((x.getItem t k).note t k).writes key = _
      rw [hnote, writes_getItem.1]
      rfl
  | fold t k folded => exact hnote
  | change t k v => exact (List.append_nil _).symm

theorem writes_run (acts : List (CellAct K V)) : (x.run acts).writes key = x.writes key ++ acts.filterMap (CellAct.writer key) := by
  induction acts generalizing x with
  | nil => exact (List.append_nil _).symm
  | cons act acts ih =>
      show ((x.perform act).run acts).writes key = _
      rw [ih, writes_perform, List.append_assoc]
      cases h : act.writer key with
      | none => rw [List.filterMap_cons_none h]; rfl
      | some t => rw [List.filterMap_cons_some h]; rfl

/-- The cells that have been written are listed, once. -/
structure Listed (x : TrackedWrites K V) : Prop where
  mem : ∀ key, key ∈ x.keys ↔ x.writes key ≠ []
  nodup : x.keys.Nodup

theorem Listed.note (h : x.Listed) (t : TaskId) (key : K) : (x.note t key).Listed := by
  constructor
  · intro k
    unfold TrackedWrites.note
    by_cases hk : k = key
    · subst hk
      by_cases hmem : k ∈ x.keys
      · simp [hmem]
      · simp [hmem]
    · by_cases hmem : key ∈ x.keys
      · simp [hmem, hk, h.mem k]
      · simp [hmem, hk, h.mem k]
  · unfold TrackedWrites.note
    by_cases hmem : key ∈ x.keys
    · simpa [hmem] using h.nodup
    · simp only [hmem, if_false]
      refine List.nodup_append.mpr ⟨h.nodup, List.nodup_singleton _, fun k hk k' hk' => ?_⟩
      rintro rfl
      rw [List.mem_singleton.mp hk'] at hk
      exact hmem hk

omit [LinearOrder K] in
theorem Listed.congr {y : TrackedWrites K V} (h : x.Listed) (hkeys : y.keys = x.keys) (hwrites : y.writes = x.writes) : y.Listed :=
  ⟨fun key => by rw [hkeys, hwrites]; exact h.mem key, hkeys ▸ h.nodup⟩

theorem Listed.perform (h : x.Listed) (act : CellAct K V) : (x.perform act).Listed := by
  cases act with
  | write t k v => exact (h.note t k).congr rfl rfl
  | read t k => exact h.congr writes_getItem.2.1 writes_getItem.1
  | openForWrite t k changed => exact ((h.congr writes_getItem.2.1 writes_getItem.1).note t k).congr rfl rfl
  | fold t k folded => exact (h.note t k).congr rfl rfl
  | change t k v => exact h.congr rfl rfl

theorem Listed.run (h : x.Listed) (acts : List (CellAct K V)) : (x.run acts).Listed := by
  induction acts generalizing x with
  | nil => exact h
  | cons act acts ih => exact ih (h.perform act)

omit [LinearOrder K] in
theorem listed_start (cells : K → V) : ({ cells } : TrackedWrites K V).Listed :=
  ⟨fun _ => ⟨fun hkey => absurd hkey List.not_mem_nil, fun hne => absurd rfl hne⟩, List.nodup_nil⟩

theorem writtenValues_perform (key : K) (t : TaskId) :
    (x.perform act).writtenValues key t = none ↔ x.writtenValues key t = none ∧ act.leaves t key = none := by
  have hset : ∀ {x : TrackedWrites K V} {u k v}, (x.setItem u k v).writtenValues key t = none ↔
      x.writtenValues key t = none ∧ (if u = t ∧ k = key then some v else none) = none := by
    intro x u k v
    unfold setItem record note
    by_cases hk : k = key
    · subst hk
      by_cases hu : u = t
      · subst hu
        simp
      · simp [hu, Function.update_of_ne (Ne.symm hu)]
    · simp [hk, Function.update_of_ne (Ne.symm hk)]
  cases act with
  | write u k v => exact hset
  | read u k =>
      show (x.getItem u k).writtenValues key t = none ↔ _
      rw [writes_getItem.2.2]
      exact ⟨fun h => ⟨h, rfl⟩, fun h => h.1⟩
  | openForWrite u k changed =>
      show ((x.getItem u k).setItem u k ((x.getItem u k).cells k)).writtenValues key t = none ↔ _
      rw [hset, writes_getItem.2.2]
      refine and_congr_right fun _ => ?_
      show _ ↔ (if u = t ∧ k = key then some changed else none) = none
      split
      · exact ⟨nofun, nofun⟩
      · exact Iff.rfl
  | fold u k folded => exact ⟨fun h => ⟨h, rfl⟩, fun h => h.1⟩
  | change u k v =>
      show (x.record u k ((x.writtenValues k u).map fun _ => v)).writtenValues key t = none ↔ x.writtenValues key t = none ∧ none = none
      unfold record
      by_cases hk : k = key
      · subst hk
        by_cases hu : u = t
        · subst hu
          simp
        · simp [Function.update_of_ne (Ne.symm hu)]
      · simp [Function.update_of_ne (Ne.symm hk)]

theorem mem_getItem (key : K) (t u : TaskId) (k : K) : t ∈ (x.getItem u k).readsBeforeWrite key ↔
    t ∈ x.readsBeforeWrite key ∨ (u = t ∧ k = key) ∧ x.writtenValues key t = none := by
  unfold getItem
  split
  · next hnone =>
      by_cases hk : k = key
      · subst hk
        simp only [Function.update_self, List.mem_cons]
        rw [or_comm]
        refine or_congr_right ⟨?_, fun h => h.1.1.symm⟩
        rintro rfl
        exact ⟨⟨rfl, trivial⟩, hnone⟩
      · simp [Function.update_of_ne (Ne.symm hk), hk]
  · next hsome =>
      constructor
      · exact .inl
      · rintro (h | ⟨⟨rfl, rfl⟩, hnone⟩)
        · exact h
        · rw [hsome] at hnone
          cases hnone

theorem readsBeforeWrite_perform (key : K) (t : TaskId) : t ∈ (x.perform act).readsBeforeWrite key ↔
    t ∈ x.readsBeforeWrite key ∨ act.Reads t key ∧ x.writtenValues key t = none := by
  cases act with
  | write u k v => exact (or_iff_left fun h => h.1.elim).symm
  | read u k => exact mem_getItem key t u k
  | openForWrite u k changed => exact mem_getItem key t u k
  | fold u k folded => exact (or_iff_left fun h => h.1.elim).symm
  | change u k v => exact (or_iff_left fun h => h.1.elim).symm

theorem readFirst_concat : ReadFirst (acts ++ [act]) t key ↔
    ReadFirst acts t key ∨ act.Reads t key ∧ ∀ earlier ∈ acts, earlier.leaves t key = none := by
  constructor
  · rintro ⟨before, read, after, hsplit, hread, hbefore⟩
    rcases List.eq_nil_or_concat after with rfl | ⟨after, last, rfl⟩
    · obtain ⟨rfl, hlast⟩ := List.append_inj' hsplit rfl
      obtain rfl := List.singleton_inj.mp hlast
      exact .inr ⟨hread, hbefore⟩
    · have hsplit' : acts ++ [act] = (before ++ read :: after) ++ [last] := by
        rw [hsplit, List.append_assoc, List.cons_append, List.concat_eq_append]
      exact .inl ⟨before, read, after, (List.append_inj' hsplit' rfl).1, hread, hbefore⟩
  · rintro (⟨before, read, after, rfl, hread, hbefore⟩ | ⟨hread, hbefore⟩)
    · exact ⟨before, read, after ++ [act], by rw [List.append_assoc, List.cons_append], hread, hbefore⟩
    · exact ⟨acts, act, [], rfl, hread, hbefore⟩

theorem recorded_run (cells : K → V) (acts : List (CellAct K V)) (key : K) (t : TaskId) :
    ((({ cells } : TrackedWrites K V).run acts).writtenValues key t = none ↔ ∀ act ∈ acts, act.leaves t key = none) ∧
      (t ∈ (({ cells } : TrackedWrites K V).run acts).readsBeforeWrite key ↔ ReadFirst acts t key) := by
  induction acts using List.reverseRecOn with
  | nil =>
      refine ⟨⟨fun _ _ hact => absurd hact List.not_mem_nil, fun _ => rfl⟩, fun h => absurd h List.not_mem_nil, ?_⟩
      rintro ⟨before, act, after, hsplit, -⟩
      exact absurd hsplit.symm (List.append_ne_nil_of_right_ne_nil _ (List.cons_ne_nil _ _))
  | append_singleton acts act ih =>
      obtain ⟨hwritten, hreads⟩ := ih
      have hrun : ({ cells } : TrackedWrites K V).run (acts ++ [act]) = (({ cells } : TrackedWrites K V).run acts).perform act :=
        run_append acts [act]
      rw [hrun, writtenValues_perform, readsBeforeWrite_perform, readFirst_concat, hwritten, hreads, List.forall_mem_append,
        List.forall_mem_singleton]
      exact ⟨Iff.rfl, Iff.rfl⟩

theorem mem_distinct {ids : List TaskId} : t ∈ distinct ids ↔ t ∈ ids := by
  unfold distinct
  rw [List.mem_reverse, List.mem_dedup, List.mem_reverse]

end TrackedWrites

/-! ### The pairs -/

/-- Nothing remembered, the first pair of writers that is not ordered. -/
def pairOf (deps : TaskId → List TaskId) (fuel : Nat) (x : TrackedWrites K V) (key : K) : Option (TaskId × TaskId) :=
  (firstPair deps fuel (TrackedWrites.distinct (x.writes key)) fun _ => none).1

section Pairs

variable {deps : TaskId → List TaskId} {fuel : Nat} {same : V → V → Option Bool} {x : TrackedWrites K V}

theorem allRight_nothing : AllRight deps fun _ => none := fun _ _ h => absurd h nofun

omit [LinearOrder K] in
theorem pairOf_iff (hdepth : ∀ t ∈ x.writes key, Shallow deps fuel t) {pair : TaskId × TaskId} {memo : Memo TaskId}
    (hmemo : AllRight deps memo) : (firstPair deps fuel (TrackedWrites.distinct (x.writes key)) memo).1 = some pair ↔
      First deps (TrackedWrites.distinct (x.writes key)) pair.1 pair.2 := by
  obtain ⟨-, hnone, hsome⟩ := firstPair_spec (fun t ht => hdepth t (TrackedWrites.mem_distinct.mp ht)) hmemo
  refine ⟨hsome pair, fun hfirst => ?_⟩
  cases hpair : (firstPair deps fuel (TrackedWrites.distinct (x.writes key)) memo).1 with
  | none => exact absurd (hnone hpair) hfirst.not_pairwise
  | some pair' =>
      obtain ⟨ha, hb⟩ := (hsome pair' hpair).unique hfirst
      exact congrArg some (Prod.ext ha hb)

omit [LinearOrder K] in
theorem conflictsFrom_eq (hdepth : ∀ key, ∀ t ∈ x.writes key, Shallow deps fuel t) (keys : List K) {memo : Memo TaskId}
    (hmemo : AllRight deps memo) : conflictsFrom deps fuel same x keys memo =
      keys.filterMap fun key => (pairOf deps fuel x key).map (conflictOf same x key) := by
  induction keys generalizing memo with
  | nil => rfl
  | cons key rest ih =>
      have hshallow : ∀ t ∈ TrackedWrites.distinct (x.writes key), Shallow deps fuel t :=
        fun t ht => hdepth key t (TrackedWrites.mem_distinct.mp ht)
      have hpair : (firstPair deps fuel (TrackedWrites.distinct (x.writes key)) memo).1 = pairOf deps fuel x key := by
        apply Option.ext
        intro pair
        unfold pairOf
        rw [pairOf_iff (hdepth key) hmemo, pairOf_iff (hdepth key) allRight_nothing]
      obtain ⟨hmemo', -⟩ := firstPair_spec hshallow hmemo
      unfold conflictsFrom
      simp only []
      split
      · next hlength =>
          rw [ih hmemo, List.filterMap_cons_none]
          cases hsome : pairOf deps fuel x key with
          | none => rfl
          | some pair =>
              obtain ⟨hsub, -⟩ := ((pairOf_iff (hdepth key) allRight_nothing).mp hsome).spec
              have hlength' := hsub.length_le
              simp only [List.length_cons, List.length_nil] at hlength'
              omega
      · cases hresult : firstPair deps fuel (TrackedWrites.distinct (x.writes key)) memo with
        | mk answer memo' =>
            rw [hresult] at hpair hmemo'
            cases answer with
            | none =>
                rw [List.filterMap_cons_none]
                · exact ih hmemo'
                · rw [← hpair]
                  rfl
            | some pair =>
                rw [List.filterMap_cons_some]
                · exact congrArg _ (ih hmemo')
                · rw [← hpair]
                  rfl

end Pairs

/-! ### What is reported -/

/-- The cells and the pairs of tasks that a report names. -/
def WriteReport.reports (report : WriteReport K) : List (K × TaskId × TaskId) :=
  report.warnings.map (fun warning => (warning.key, warning.tasks)) ++ report.error.toList

section Reports

variable {policies : K → Option MergePolicy} {same : V → V → Option Bool} {x : TrackedWrites K V}
  {pairs : K → Option (TaskId × TaskId)}

/-- A cell that is declared to be written once is an error. -/
def Raises (policies : K → Option MergePolicy) (pairs : K → Option (TaskId × TaskId)) (key : K) : Prop :=
  policies key = some .once ∧ pairs key ≠ none

/-- A pair is reported for its cell. -/
def Fires (policies : K → Option MergePolicy) (same : V → V → Option Bool) (x : TrackedWrites K V) (key : K) (pair : TaskId × TaskId) :
    Prop :=
  policies key = some .once ∨ policies key = none ∧ (conflictOf same x key pair).lostUpdate = true

omit [LinearOrder K] in
theorem report_once {conflict : WriteConflict K} (rest : List (WriteConflict K)) (h : policies conflict.key = some .once) :
    reportConflicts policies (conflict :: rest) = { error := some (conflict.key, conflict.tasks) } := by
  rw [reportConflicts, h]

omit [LinearOrder K] in
theorem report_declared {conflict : WriteConflict K} (rest : List (WriteConflict K)) {policy : MergePolicy}
    (h : policies conflict.key = some policy) (hne : policy ≠ .once) :
    reportConflicts policies (conflict :: rest) = reportConflicts policies rest := by
  rw [reportConflicts, h]
  cases policy with
  | once => exact absurd rfl hne
  | any | sum | append | union => rfl

omit [LinearOrder K] in
theorem report_kept {conflict : WriteConflict K} (rest : List (WriteConflict K)) (h : policies conflict.key = none)
    (hlost : conflict.lostUpdate = false) : reportConflicts policies (conflict :: rest) = reportConflicts policies rest := by
  rw [reportConflicts, h]
  simp only [hlost, Bool.false_eq_true, if_false]

omit [LinearOrder K] in
theorem report_lost {conflict : WriteConflict K} (rest : List (WriteConflict K)) (h : policies conflict.key = none)
    (hlost : conflict.lostUpdate = true) :
    (reportConflicts policies (conflict :: rest)).reports = (conflict.key, conflict.tasks) :: (reportConflicts policies rest).reports ∧
      (reportConflicts policies (conflict :: rest)).error = (reportConflicts policies rest).error := by
  rw [reportConflicts, h]
  simp only [hlost, if_true]
  exact ⟨rfl, trivial⟩

variable (policies same x pairs) in
theorem reports_iff {keys : List K} (hkeys : keys.Pairwise (· < ·)) (key : K) (pair : TaskId × TaskId) :
    ((key, pair) ∈ (reportConflicts policies (keys.filterMap fun key => (pairs key).map (conflictOf same x key))).reports ↔
      key ∈ keys ∧ pairs key = some pair ∧ Fires policies same x key pair ∧ ∀ k ∈ keys, k < key → ¬ Raises policies pairs k) ∧
    ((reportConflicts policies (keys.filterMap fun key => (pairs key).map (conflictOf same x key))).error = some (key, pair) ↔
      key ∈ keys ∧ pairs key = some pair ∧ policies key = some .once ∧ ∀ k ∈ keys, k < key → ¬ Raises policies pairs k) := by
  induction keys with
  | nil =>
      constructor
      · exact ⟨fun h => absurd h List.not_mem_nil, fun h => absurd h.1 List.not_mem_nil⟩
      · exact ⟨nofun, fun h => absurd h.1 List.not_mem_nil⟩
  | cons first keys ih =>
      obtain ⟨hfirst, hrest⟩ := List.pairwise_cons.mp hkeys
      obtain ⟨hreports, herror⟩ := ih hrest
      -- A cell that is passed over changes nothing.
      have hskip : ∀ {P : K → TaskId × TaskId → Prop}, ¬ Raises policies pairs first →
          (¬ (pairs first = some pair ∧ P first pair)) →
          ((key ∈ first :: keys ∧ pairs key = some pair ∧ P key pair ∧ ∀ k ∈ first :: keys, k < key → ¬ Raises policies pairs k) ↔
            key ∈ keys ∧ pairs key = some pair ∧ P key pair ∧ ∀ k ∈ keys, k < key → ¬ Raises policies pairs k) := by
        intro P hquiet hno
        rw [List.forall_mem_cons]
        constructor
        · rintro ⟨hmem, hpair, hp, -, hbefore⟩
          rcases List.mem_cons.mp hmem with rfl | hmem
          · exact absurd ⟨hpair, hp⟩ hno
          · exact ⟨hmem, hpair, hp, hbefore⟩
        · rintro ⟨hmem, hpair, hp, hbefore⟩
          exact ⟨List.mem_cons_of_mem _ hmem, hpair, hp, fun _ => hquiet, hbefore⟩
      cases hpairs : pairs first with
      | none =>
          have hquiet : ¬ Raises policies pairs first := fun h => h.2 hpairs
          have hno : ∀ {P : Prop}, ¬ (pairs first = some pair ∧ P) := fun h => absurd (hpairs.symm.trans h.1) nofun
          rw [List.filterMap_cons_none (by rw [hpairs]; rfl), hskip hquiet hno,
            hskip (P := fun key _ => policies key = some .once) hquiet hno]
          exact ⟨hreports, herror⟩
      | some found =>
          rw [List.filterMap_cons_some (b := conflictOf same x first found) (by rw [hpairs]; rfl)]
          have hbefore : ∀ k ∈ first :: keys, k < first → ¬ Raises policies pairs k := by
            refine List.forall_mem_cons.mpr ⟨fun hlt => absurd hlt (lt_irrefl _), fun k hk hlt => ?_⟩
            exact absurd (hlt.trans (hfirst k hk)) (lt_irrefl _)
          have hsame : pairs first = some pair ↔ pair = found := by
            rw [hpairs]
            exact ⟨fun h => (Option.some.inj h).symm, fun h => h ▸ rfl⟩
          cases hpolicy : policies first with
          | some policy =>
              by_cases honce : policy = .once
              · subst honce
                have hraises : Raises policies pairs first := ⟨hpolicy, hpairs ▸ Option.some_ne_none found⟩
                have hstop : ∀ {P : K → TaskId × TaskId → Prop}, P first found →
                    ((key ∈ first :: keys ∧ pairs key = some pair ∧ P key pair ∧
                      ∀ k ∈ first :: keys, k < key → ¬ Raises policies pairs k) ↔ key = first ∧ pair = found) := by
                  intro P hp
                  constructor
                  · rintro ⟨hmem, hpair, -, hquiet⟩
                    rcases List.mem_cons.mp hmem with rfl | hmem
                    · exact ⟨rfl, hsame.mp hpair⟩
                    · exact absurd hraises (hquiet first List.mem_cons_self (hfirst key hmem))
                  · rintro ⟨rfl, rfl⟩
                    exact ⟨List.mem_cons_self, hpairs, hp, hbefore⟩
                rw [report_once _ hpolicy, hstop (.inl hpolicy), hstop (P := fun key _ => policies key = some .once) hpolicy]
                constructor
                · show (key, pair) ∈ [(first, found)] ↔ _
                  rw [List.mem_singleton, Prod.mk.injEq]
                · show some (first, found) = some (key, pair) ↔ _
                  rw [Option.some.injEq, Prod.mk.injEq, eq_comm, eq_comm (a := found)]
              · have hquiet : ¬ Raises policies pairs first :=
                  fun h => honce (Option.some.inj (hpolicy.symm.trans h.1))
                rw [report_declared _ hpolicy honce, hskip hquiet, hskip (P := fun key _ => policies key = some .once) hquiet]
                · exact ⟨hreports, herror⟩
                · exact fun h => honce (Option.some.inj (hpolicy.symm.trans h.2))
                · rintro ⟨-, h | ⟨h, -⟩⟩
                  · exact honce (Option.some.inj (hpolicy.symm.trans h))
                  · exact absurd (hpolicy.symm.trans h) nofun
          | none =>
              have hquiet : ¬ Raises policies pairs first := fun h => absurd (hpolicy.symm.trans h.1) nofun
              have hnotOnce : ¬ (pairs first = some pair ∧ policies first = some .once) := fun h => absurd (hpolicy.symm.trans h.2) nofun
              cases hlost : (conflictOf same x first found).lostUpdate with
              | false =>
                  rw [report_kept _ hpolicy hlost, hskip hquiet, hskip (P := fun key _ => policies key = some .once) hquiet hnotOnce]
                  · exact ⟨hreports, herror⟩
                  · rintro ⟨hpair, h | ⟨-, h⟩⟩
                    · exact absurd (hpolicy.symm.trans h) nofun
                    · rw [hsame.mp hpair, hlost] at h
                      cases h
              | true =>
                  obtain ⟨hcons, herror'⟩ := report_lost (keys.filterMap fun key => (pairs key).map (conflictOf same x key)) hpolicy hlost
                  rw [hcons, herror', hskip (P := fun key _ => policies key = some .once) hquiet hnotOnce, List.mem_cons, hreports]
                  refine ⟨?_, herror⟩
                  constructor
                  · rintro (hhead | ⟨hmem, hpair, hfires, hrest⟩)
                    · obtain ⟨rfl, rfl⟩ := Prod.mk.inj hhead
                      exact ⟨List.mem_cons_self, hpairs, .inr ⟨hpolicy, hlost⟩, hbefore⟩
                    · exact ⟨List.mem_cons_of_mem _ hmem, hpair, hfires, List.forall_mem_cons.mpr ⟨fun _ => hquiet, hrest⟩⟩
                  · rintro ⟨hmem, hpair, hfires, hrest⟩
                    rcases List.mem_cons.mp hmem with rfl | hmem
                    · exact .inl (Prod.ext rfl (hsame.mp hpair))
                    · exact .inr ⟨hmem, hpair, hfires, (List.forall_mem_cons.mp hrest).2⟩

end Reports

/-! ### Lost updates -/

namespace Run

/-- A task runs after another one: it depends on it, or it is a mapped step of which the other is an instance. -/
def Precedes (s : Run) (a b : TaskId) : Prop := a ∈ s.dependenciesOf b ∨ ∃ p ∈ s.expanded, p.1 = b ∧ a ∈ p.2

/-- The graph does not order two tasks. -/
def Independent (s : Run) (a b : TaskId) : Prop := ¬ TransGen s.Precedes a b ∧ ¬ TransGen s.Precedes b a

theorem Independent.unordered {s : Run} (h : s.Independent a b) : ¬ Ancestors.Ordered s.dependenciesOf a b := by
  rintro (habove | habove)
  · exact h.2 (TransGen.mono (fun _ _ hd => Or.inl hd) _ _ habove)
  · exact h.1 (TransGen.mono (fun _ _ hd => Or.inl hd) _ _ habove)

end Run

section Updates

variable (s : Run) (same : V → V → Option Bool) (policies : K → Option MergePolicy) (acts : List (CellAct K V))

/-- Two tasks, the first to write before the other, that nothing orders and that have lost an update of a cell. -/
def LostUpdate (key : K) (a b : TaskId) : Prop := [a, b].Sublist (writersOf acts key) ∧ s.Independent a b ∧ Loses same acts key a b

/-- What is to be reported of a cell: an update that is lost, if nothing is declared of how writes combine, and any two writers that
nothing orders if it is declared to be written once. -/
def Reportable (key : K) : Prop :=
  policies key = none ∧ (∃ a b, LostUpdate s same acts key a b) ∨
    policies key = some .once ∧ ∃ a b, [a, b].Sublist (writersOf acts key) ∧ s.Independent a b

/-- A report names the cells that are to be reported, up to an error, and no pair that the graph orders. -/
structure LawfulReport (report : WriteReport K) : Prop where
  apart : ∀ p ∈ report.reports, s.Independent p.2.1 p.2.2
  exact : ∀ key, (∀ p, report.error = some p → key ≤ p.1) →
    ((∃ pair, (key, pair) ∈ report.reports) ↔ Reportable s same policies acts key)

/-- A cell that is declared to be written once has two writers neither of which depends on the other. -/
def Clashes (key : K) : Prop := policies key = some .once ∧ ∃ a b, First s.dependenciesOf (writersOf acts key) a b

/-- The first two writers neither of which depends on the other tell of all the others. If the cell is undeclared and what is recorded
of the two says that an update is lost, then nothing orders them, and one is; and if it does not say so, none is. -/
def FirstTells (x : TrackedWrites K V) (key : K) : Prop :=
  ∀ a b, First s.dependenciesOf (writersOf acts key) a b →
    (policies key = some .once → s.Independent a b) ∧
    (policies key = none → (Suspected same acts x key a b → s.Independent a b ∧ ∃ c d, LostUpdate s same acts key c d) ∧
      (¬ Suspected same acts x key a b → ∀ c d, ¬ LostUpdate s same acts key c d))

variable {s same policies acts} {cells : K → V} {fuel : Nat}

theorem writersOf_eq (cells : K → V) (acts : List (CellAct K V)) (key : K) :
    TrackedWrites.distinct ((({ cells } : TrackedWrites K V).run acts).writes key) = writersOf acts key := by
  rw [TrackedWrites.writes_run]
  rfl

theorem lostUpdate_iff (key : K) (pair : TaskId × TaskId) :
    (conflictOf same (({ cells } : TrackedWrites K V).run acts) key pair).lostUpdate = true ↔
      Suspected same acts (({ cells } : TrackedWrites K V).run acts) key pair.1 pair.2 := by
  have hreads : ∀ t, t ∈ (({ cells } : TrackedWrites K V).run acts).readsBeforeWrite key ↔ ReadFirst acts t key :=
    fun t => (TrackedWrites.recorded_run cells acts key t).2
  have hagree : writersAgree same ((({ cells } : TrackedWrites K V).run acts).writtenValues key) pair.1 pair.2 = true ↔
      ∃ v w, (({ cells } : TrackedWrites K V).run acts).writtenValues key pair.1 = some v ∧
        (({ cells } : TrackedWrites K V).run acts).writtenValues key pair.2 = some w ∧ same v w = some true := by
    unfold writersAgree
    cases (({ cells } : TrackedWrites K V).run acts).writtenValues key pair.1 with
    | none => exact ⟨nofun, fun ⟨_, _, h, _⟩ => absurd h nofun⟩
    | some v =>
        cases (({ cells } : TrackedWrites K V).run acts).writtenValues key pair.2 with
        | none => exact ⟨nofun, fun ⟨_, _, _, h, _⟩ => absurd h nofun⟩
        | some w =>
            rw [decide_eq_true_iff]
            exact ⟨fun h => ⟨v, w, rfl, rfl, h⟩, fun ⟨_, _, hv, hw, h⟩ => by
              obtain rfl := Option.some.inj hv
              obtain rfl := Option.some.inj hw
              exact h⟩
  have hmodify : [pair.1, pair.2].filter (· ∈ (({ cells } : TrackedWrites K V).run acts).readsBeforeWrite key) ≠ [] ↔
      ReadFirst acts pair.1 key ∨ ReadFirst acts pair.2 key := by
    rw [← hreads, ← hreads, Ne, List.filter_eq_nil_iff]
    simp only [List.mem_cons, List.not_mem_nil, or_false, forall_eq_or_imp, forall_eq, decide_eq_true_eq, not_and_or, not_not]
  unfold conflictOf Suspected
  simp only [Bool.or_eq_true, decide_eq_true_iff, hmodify, Bool.not_eq_true', or_assoc]
  rw [← hagree, Bool.not_eq_true]

theorem exists_least {keys : List K} {P : K → Prop} {k : K} (hk : k ∈ keys) (hP : P k) :
    ∃ m ∈ keys, P m ∧ ∀ j ∈ keys, P j → m ≤ j := by
  classical
  have hne : (keys.toFinset.filter P).Nonempty := ⟨k, Finset.mem_filter.mpr ⟨List.mem_toFinset.mpr hk, hP⟩⟩
  obtain ⟨m, hm, hmin⟩ := Finset.exists_min_image _ id hne
  obtain ⟨hmem, hPm⟩ := Finset.mem_filter.mp hm
  exact ⟨m, List.mem_toFinset.mp hmem, hPm, fun j hj hPj => hmin j (Finset.mem_filter.mpr ⟨List.mem_toFinset.mpr hj, hPj⟩)⟩

/-- The report of a run names the cells of which an update has been lost, and no others, exactly if for each of them the first two
writers neither of which depends on the other tell of all. -/
theorem report_lawful_iff (s : Run) (same : V → V → Option Bool) (policies : K → Option MergePolicy) (cells : K → V)
    (acts : List (CellAct K V)) (fuel : Nat) (hdepth : ∀ key, ∀ t ∈ writersOf acts key, Shallow s.dependenciesOf fuel t) :
    LawfulReport s same policies acts (s.reportWriteConflicts fuel same policies (({ cells } : TrackedWrites K V).run acts)) ↔
      ∀ key, (∀ k < key, ¬ Clashes s policies acts k) →
        FirstTells s same policies acts (({ cells } : TrackedWrites K V).run acts) key := by
  -- What is recorded at the end, and the pairs that the search finds.
  have hwriters := writersOf_eq cells acts
  have hlost := @lostUpdate_iff K V _ same acts cells
  have hlisted := (TrackedWrites.listed_start cells).run acts
  unfold Run.reportWriteConflicts concurrentWriteConflicts
  generalize ({ cells } : TrackedWrites K V).run acts = x at hwriters hlost hlisted ⊢
  have hdepth' : ∀ key, ∀ t ∈ x.writes key, Shallow s.dependenciesOf fuel t :=
    fun key t ht => hdepth key t (hwriters key ▸ TrackedWrites.mem_distinct.mpr ht)
  rw [conflictsFrom_eq hdepth' _ allRight_nothing]
  have hpair : ∀ key pair, pairOf s.dependenciesOf fuel x key = some pair ↔
      First s.dependenciesOf (writersOf acts key) pair.1 pair.2 :=
    fun key pair => hwriters key ▸ pairOf_iff (hdepth' key) allRight_nothing
  have hclash : ∀ key, Raises policies (pairOf s.dependenciesOf fuel x) key ↔ Clashes s policies acts key := by
    intro key
    refine and_congr_right fun _ => ?_
    rw [Option.ne_none_iff_exists']
    exact ⟨fun ⟨pair, h⟩ => ⟨pair.1, pair.2, (hpair key pair).mp h⟩, fun ⟨a, b, h⟩ => ⟨(a, b), (hpair key (a, b)).mpr h⟩⟩
  have hkeys : (x.keys.insertionSort (· ≤ ·)).Pairwise (· < ·) := by
    have hsorted := List.pairwise_insertionSort (· ≤ ·) x.keys
    have hnodup := (List.perm_insertionSort (· ≤ ·) x.keys).nodup_iff.mpr hlisted.nodup
    exact (hsorted.and hnodup).imp fun h => lt_of_le_of_ne h.1 h.2
  have hmem : ∀ {key pair}, pairOf s.dependenciesOf fuel x key = some pair → key ∈ x.keys.insertionSort (· ≤ ·) := by
    intro key pair h
    rw [(List.perm_insertionSort (· ≤ ·) x.keys).mem_iff, hlisted.mem]
    have hsub := ((hpair key pair).mp h).spec.1
    rw [← hwriters key] at hsub
    have hwrote := TrackedWrites.mem_distinct.mp (hsub.subset List.mem_cons_self)
    exact List.ne_nil_of_mem hwrote
  have hquiet : ∀ key, (∀ k ∈ x.keys.insertionSort (· ≤ ·), k < key → ¬ Raises policies (pairOf s.dependenciesOf fuel x) k) ↔
      ∀ k < key, ¬ Clashes s policies acts k := by
    intro key
    constructor
    · intro h k hk hc
      have hraises := (hclash k).mpr hc
      obtain ⟨pair, hpair'⟩ := Option.ne_none_iff_exists'.mp hraises.2
      exact h k (hmem hpair') hk hraises
    · exact fun h k _ hk hraises => h k hk ((hclash k).mp hraises)
  have hreports := fun key pair => (reports_iff policies same x (pairOf s.dependenciesOf fuel x) hkeys key pair).1
  have herror := fun key pair => (reports_iff policies same x (pairOf s.dependenciesOf fuel x) hkeys key pair).2
  generalize reportConflicts policies _ = report at hreports herror ⊢
  have hnamed : ∀ key pair, (key, pair) ∈ report.reports ↔ First s.dependenciesOf (writersOf acts key) pair.1 pair.2 ∧
      (policies key = some .once ∨ policies key = none ∧ Suspected same acts x key pair.1 pair.2) ∧
        ∀ k < key, ¬ Clashes s policies acts k := by
    intro key pair
    rw [hreports, hquiet, hpair, ← hlost]
    exact ⟨fun h => h.2, fun h => ⟨hmem ((hpair key pair).mpr h.1), h⟩⟩
  -- No error comes before a cell exactly if no cell before it is one.
  have hupto : ∀ key, (∀ p, report.error = some p → key ≤ p.1) ↔ ∀ k < key, ¬ Clashes s policies acts k := by
    intro key
    constructor
    · intro h k hk hc
      obtain ⟨pair, hpair'⟩ := Option.ne_none_iff_exists'.mp ((hclash k).mpr hc).2
      obtain ⟨m, -, hm, hleast⟩ := exists_least (P := Clashes s policies acts) (hmem hpair') hc
      obtain ⟨found, hfound⟩ := Option.ne_none_iff_exists'.mp ((hclash m).mpr hm).2
      have hbefore : ∀ j ∈ x.keys.insertionSort (· ≤ ·), j < m → ¬ Raises policies (pairOf s.dependenciesOf fuel x) j :=
        fun j hj hlt hraises => not_lt.mpr (hleast j hj ((hclash j).mp hraises)) hlt
      have hle := h (m, found) ((herror m found).mpr ⟨hmem hfound, hfound, hm.1, hbefore⟩)
      exact absurd ((hle.trans (hleast k (hmem hpair') hc)).trans_lt hk) (lt_irrefl _)
    · intro h p hp
      obtain ⟨-, hpairs, honce, -⟩ := (herror p.1 p.2).mp hp
      by_contra hlt
      exact h p.1 (not_le.mp hlt) ((hclash p.1).mp ⟨honce, hpairs ▸ Option.some_ne_none p.2⟩)
  constructor
  · intro hlawful key hkey a b hfirst
    constructor
    · exact fun honce => hlawful.apart (key, (a, b)) ((hnamed key (a, b)).mpr ⟨hfirst, .inl honce, hkey⟩)
    · intro hnone
      have hexact := hlawful.exact key ((hupto key).mpr hkey)
      constructor
      · intro hsuspected
        have hin := (hnamed key (a, b)).mpr ⟨hfirst, .inr ⟨hnone, hsuspected⟩, hkey⟩
        refine ⟨hlawful.apart _ hin, ?_⟩
        rcases hexact.mp ⟨(a, b), hin⟩ with ⟨-, hlost'⟩ | ⟨honce, -⟩
        · exact hlost'
        · exact absurd (hnone.symm.trans honce) nofun
      · intro hunsuspected c d hlost'
        obtain ⟨pair, hin⟩ := hexact.mpr (.inl ⟨hnone, c, d, hlost'⟩)
        obtain ⟨hfirst', hfires, -⟩ := (hnamed key pair).mp hin
        obtain ⟨rfl, rfl⟩ := hfirst.unique hfirst'
        rcases hfires with honce | ⟨-, hsuspected⟩
        · exact absurd (hnone.symm.trans honce) nofun
        · exact hunsuspected hsuspected
  · intro htells
    have hfinds : ∀ {key c d}, [c, d].Sublist (writersOf acts key) → s.Independent c d →
        ∃ pair : TaskId × TaskId, First s.dependenciesOf (writersOf acts key) pair.1 pair.2 := by
      intro key c d hsub hapart
      cases hsome : pairOf s.dependenciesOf fuel x key with
      | some pair => exact ⟨pair, (hpair key pair).mp hsome⟩
      | none =>
          have hpairwise := (firstPair_spec (fun t ht => hdepth' key t (TrackedWrites.mem_distinct.mp ht)) allRight_nothing).2.1 hsome
          rw [hwriters key] at hpairwise
          exact absurd (List.rel_of_pairwise_cons (hpairwise.sublist hsub) (List.mem_singleton_self d)) hapart.unordered
    constructor
    · rintro ⟨key, pair⟩ hin
      obtain ⟨hfirst, hfires, hkey⟩ := (hnamed key pair).mp hin
      obtain ⟨honce, hnone⟩ := htells key hkey _ _ hfirst
      rcases hfires with hpolicy | ⟨hpolicy, hsuspected⟩
      · exact honce hpolicy
      · exact ((hnone hpolicy).1 hsuspected).1
    · intro key hupto'
      have hkey := (hupto key).mp hupto'
      constructor
      · rintro ⟨pair, hin⟩
        obtain ⟨hfirst, hfires, -⟩ := (hnamed key pair).mp hin
        obtain ⟨honce, hnone⟩ := htells key hkey _ _ hfirst
        rcases hfires with hpolicy | ⟨hpolicy, hsuspected⟩
        · exact .inr ⟨hpolicy, pair.1, pair.2, hfirst.spec.1, honce hpolicy⟩
        · exact .inl ⟨hpolicy, ((hnone hpolicy).1 hsuspected).2⟩
      · rintro (⟨hpolicy, c, d, hlost'⟩ | ⟨hpolicy, c, d, hsub, hapart⟩)
        · obtain ⟨pair, hfirst⟩ := hfinds hlost'.1 hlost'.2.1
          obtain ⟨-, hnone⟩ := htells key hkey _ _ hfirst
          by_cases hsuspected : Suspected same acts x key pair.1 pair.2
          · exact ⟨pair, (hnamed key pair).mpr ⟨hfirst, .inr ⟨hpolicy, hsuspected⟩, hkey⟩⟩
          · exact absurd hlost' ((hnone hpolicy).2 hsuspected c d)
        · obtain ⟨pair, hfirst⟩ := hfinds hsub hapart
          exact ⟨pair, (hnamed key pair).mpr ⟨hfirst, .inl hpolicy, hkey⟩⟩

end Updates

/-! ### Three writers -/

/-- Three steps that depend on nothing. -/
def threeSteps : Run := Run.fresh (fun _ => {}) [⟨0, none⟩, ⟨1, none⟩, ⟨2, none⟩] false true

/-- The first two write the same, and the third writes something else. -/
def threeWrites : List (CellAct Nat Nat) := [.write ⟨0, none⟩ 0 1, .write ⟨1, none⟩ 0 1, .write ⟨2, none⟩ 0 2]

theorem shallow_three (key : Nat) : ∀ t ∈ writersOf threeWrites key, Shallow threeSteps.dependenciesOf 1 t := by
  intro t _ d hd
  unfold Run.dependenciesOf threeSteps Run.fresh at hd
  split at hd
  · exact absurd hd List.not_mem_nil
  · exact absurd hd List.not_mem_nil

theorem three_lawful_iff : LawfulReport threeSteps (fun v w => some (decide (v = w))) (fun _ => none) threeWrites
    (threeSteps.reportWriteConflicts 1 (fun v w => some (decide (v = w))) (fun _ => none)
      (({ cells := fun _ => 0 } : TrackedWrites Nat Nat).run threeWrites)) ↔
      ∀ key, (∀ k < key, ¬ Clashes threeSteps (fun _ => none) threeWrites k) →
        FirstTells threeSteps (fun v w => some (decide (v = w))) (fun _ => none) threeWrites
          (({ cells := fun _ => 0 } : TrackedWrites Nat Nat).run threeWrites) key :=
  report_lawful_iff threeSteps (fun v w => some (decide (v = w))) (fun _ => none) (fun _ => 0) threeWrites 1 shallow_three

/-- Nothing is reported, though the first step and the third have written different values. -/
theorem three_not_lawful : ¬ LawfulReport threeSteps (fun v w => some (decide (v = w))) (fun _ => none) threeWrites
    (threeSteps.reportWriteConflicts 1 (fun v w => some (decide (v = w))) (fun _ => none)
      (({ cells := fun _ => 0 } : TrackedWrites Nat Nat).run threeWrites)) := by
  intro h
  have hnothing : threeSteps.reportWriteConflicts 1 (fun v w => some (decide (v = w))) (fun _ => none)
      (({ cells := fun _ => 0 } : TrackedWrites Nat Nat).run threeWrites) = {} := by decide
  rw [hnothing] at h
  have hnone : ∀ a b, ¬ threeSteps.Precedes a b := by
    rintro a b (hd | ⟨p, hp, -⟩)
    · unfold Run.dependenciesOf threeSteps Run.fresh at hd
      split at hd
      · exact absurd hd List.not_mem_nil
      · exact absurd hd List.not_mem_nil
    · exact absurd hp List.not_mem_nil
  have hindependent : threeSteps.Independent ⟨0, none⟩ ⟨2, none⟩ :=
    ⟨fun h => (TransGen.tail'_iff.mp h).elim fun c hc => hnone _ _ hc.2, fun h => (TransGen.tail'_iff.mp h).elim fun c hc => hnone _ _ hc.2⟩
  have hlost : LostUpdate threeSteps (fun v w => some (decide (v = w))) threeWrites 0 ⟨0, none⟩ ⟨2, none⟩ := by
    refine ⟨by decide, hindependent, .inr (.inr ?_)⟩
    rintro ⟨v, w, hv, hw, hsame⟩
    obtain rfl : 1 = v := Option.some.inj hv
    obtain rfl : 2 = w := Option.some.inj hw
    exact absurd hsame (by decide)
  obtain ⟨pair, hpair⟩ := (h.exact 0 nofun).mpr (.inl ⟨rfl, _, _, hlost⟩)
  exact absurd hpair List.not_mem_nil

end Nodus.Orchestration
