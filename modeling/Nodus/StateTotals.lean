import Nodus.StateRuns

/-! What a folded cell comes to: what it held at first and what the attempts that have ended contributed to it, in the order
in which they ended. -/

namespace Nodus.Orchestration

section state

variable {K V : Type} {values : Values V} {key : K} {init : Cell V}

/-! ### The contributions of one attempt -/

/-- A record has one entry for every cell that has been contributed to. -/
structure Entries (contributions : List (K × List (Cell V))) : Prop where
  nodup : (contributions.map Prod.fst).Nodup
  nonempty : ∀ p ∈ contributions, p.2 ≠ []

theorem entries_nil : Entries ([] : List (K × List (Cell V))) := ⟨List.nodup_nil, fun p hp => by cases hp⟩

variable [DecidableEq K]

/-- What has been contributed to a cell. -/
def contributedTo (key : K) (made : List (K × Cell V)) : List (Cell V) := (made.filter (·.1 = key)).map Prod.snd

/-- What a record holds for a cell. -/
def recordedFor (key : K) (contributions : List (K × List (Cell V))) : List (Cell V) :=
  ((contributions.find? (·.1 = key)).map Prod.snd).getD []

theorem mem_keys_addContribution {k : K} {value : Cell V} {contributions : List (K × List (Cell V))} :
    k ∈ (addContribution key value contributions).map Prod.fst ↔ k = key ∨ k ∈ contributions.map Prod.fst := by
  induction contributions with
  | nil => simp [addContribution]
  | cons p rest ih =>
      obtain ⟨k', contributed⟩ := p
      unfold addContribution
      split
      · next he =>
          subst he
          simp
      · rw [List.map_cons, List.mem_cons, ih, List.map_cons, List.mem_cons]
        exact or_left_comm

theorem Entries.add {contributions : List (K × List (Cell V))} (h : Entries contributions) (key : K) (value : Cell V) :
    Entries (addContribution key value contributions) := by
  induction contributions with
  | nil =>
      refine ⟨List.nodup_singleton key, fun p hp => ?_⟩
      rw [List.mem_singleton.mp hp]
      exact List.cons_ne_nil value []
  | cons p rest ih =>
      obtain ⟨k, contributed⟩ := p
      obtain ⟨hk, hrest⟩ := List.nodup_cons.mp h.nodup
      have hadd := ih ⟨hrest, fun p hp => h.nonempty p (List.mem_cons_of_mem _ hp)⟩
      unfold addContribution
      split
      · next he =>
          refine ⟨h.nodup, fun p hp => ?_⟩
          rcases List.mem_cons.mp hp with rfl | hp
          · exact List.append_ne_nil_of_right_ne_nil contributed (List.cons_ne_nil value [])
          · exact h.nonempty p (List.mem_cons_of_mem _ hp)
      · next hne =>
          refine ⟨List.nodup_cons.mpr ⟨fun hmem => ?_, hadd.nodup⟩, fun p hp => ?_⟩
          · exact (mem_keys_addContribution.mp hmem).elim hne hk
          · rcases List.mem_cons.mp hp with rfl | hp
            · exact h.nonempty _ List.mem_cons_self
            · exact hadd.nonempty p hp

theorem recordedFor_add (key k : K) (value : Cell V) (contributions : List (K × List (Cell V))) :
    recordedFor k (addContribution key value contributions) =
      recordedFor k contributions ++ contributedTo k [(key, value)] := by
  induction contributions with
  | nil =>
      by_cases hk : key = k
      · simp [addContribution, recordedFor, contributedTo, hk]
      · simp [addContribution, recordedFor, contributedTo, hk]
  | cons p rest ih =>
      obtain ⟨k', contributed⟩ := p
      unfold addContribution
      split
      · next he =>
          subst he
          by_cases hk : k' = k
          · simp [recordedFor, contributedTo, hk]
          · simp [recordedFor, contributedTo, hk]
      · next hne =>
          by_cases hk : k' = k
          · have hother : ¬ key = k := fun he => hne (hk.trans he.symm)
            simp [recordedFor, contributedTo, hk, hother]
          · have hskip : ∀ l : List (K × List (Cell V)), recordedFor k ((k', contributed) :: l) = recordedFor k l := by
              intro l
              unfold recordedFor
              rw [List.find?_cons_of_neg (by simpa using hk)]
            rw [hskip, hskip]
            exact ih

theorem contributedTo_append (key : K) (made made' : List (K × Cell V)) :
    contributedTo key (made ++ made') = contributedTo key made ++ contributedTo key made' := by
  unfold contributedTo
  rw [List.filter_append, List.map_append]

/-! ### The end of an attempt -/

/-- What an attempt has contributed to a cell is folded into it. -/
def foldBlock (values : Values V) (merge : MergePolicy) (base : Cell V) : List (Cell V) → Option (Cell V)
  | [] => some base
  | contributed => foldContributions values merge base contributed

/-- So is what one attempt after the other has contributed. -/
def foldBlocks (values : Values V) (merge : MergePolicy) (base : Cell V) (blocks : List (List (Cell V))) : Option (Cell V) :=
  blocks.foldlM (foldBlock values merge) base

theorem foldBlock_of_ne_nil {merge : MergePolicy} {base : Cell V} {block : List (Cell V)} (h : block ≠ []) :
    foldBlock values merge base block = foldContributions values merge base block := by
  cases block with
  | nil => exact absurd rfl h
  | cons value block => rfl

theorem recordedFor_cons_self (key : K) (contributed : List (Cell V)) (rest : List (K × List (Cell V))) :
    recordedFor key ((key, contributed) :: rest) = contributed := by
  simp [recordedFor]

theorem recordedFor_cons_ne {k : K} (h : k ≠ key) (contributed : List (Cell V)) (rest : List (K × List (Cell V))) :
    recordedFor key ((k, contributed) :: rest) = recordedFor key rest := by
  unfold recordedFor
  rw [List.find?_cons_of_neg (by simpa using h)]

theorem recordedFor_not_mem {contributions : List (K × List (Cell V))} (h : key ∉ contributions.map Prod.fst) :
    recordedFor key contributions = [] := by
  induction contributions with
  | nil => rfl
  | cons p rest ih =>
      obtain ⟨hne, hrest⟩ := not_or.mp (mt List.mem_cons.mpr h)
      exact (recordedFor_cons_ne (Ne.symm hne) p.2 rest).trans (ih hrest)

/-- If all folds go through, every cell holds what it held with what has been contributed to it. -/
theorem foldAll_spec (policies : K → MergePolicy) {contributions : List (K × List (Cell V))} (h : Entries contributions)
    (cells : K → Cell V) (hfold : ∀ p ∈ contributions, Foldable values (policies p.1) (cells p.1) p.2) :
    (foldAll values policies cells contributions).2 = true ∧
      ∀ key, foldBlock values (policies key) (cells key) (recordedFor key contributions) =
        some ((foldAll values policies cells contributions).1 key) := by
  induction contributions generalizing cells with
  | nil => exact ⟨rfl, fun _ => rfl⟩
  | cons p rest ih =>
      obtain ⟨k, contributed⟩ := p
      obtain ⟨hk, hrest⟩ := List.nodup_cons.mp h.nodup
      obtain ⟨folded, hfolded⟩ := Option.ne_none_iff_exists'.mp
        (foldContributions_ne_none (hfold (k, contributed) List.mem_cons_self))
      have hstep : foldAll values policies cells ((k, contributed) :: rest) =
          foldAll values policies (Function.update cells k folded) rest := by
        rw [foldAll, hfolded]
      obtain ⟨hall, hcells⟩ := ih ⟨hrest, fun p hp => h.nonempty p (List.mem_cons_of_mem _ hp)⟩
        (Function.update cells k folded) fun p hp => by
          have hmem : p.1 ∈ rest.map Prod.fst := List.mem_map_of_mem hp
          have hne : p.1 ≠ k := fun he => hk (he ▸ hmem)
          rw [Function.update_of_ne hne]
          exact hfold p (List.mem_cons_of_mem _ hp)
      rw [hstep]
      refine ⟨hall, fun key => ?_⟩
      by_cases he : k = key
      · subst he
        have hlast := hcells k
        rw [recordedFor_not_mem hk, Function.update_self] at hlast
        rw [recordedFor_cons_self, foldBlock_of_ne_nil (h.nonempty _ List.mem_cons_self), hfolded]
        exact hlast
      · have hlast := hcells key
        rw [Function.update_of_ne (Ne.symm he)] at hlast
        rw [recordedFor_cons_ne he]
        exact hlast

/-! ### What holds of a cell while the steps run -/

namespace Tracked

variable {x : Tracked K V} {run : Run} {flights : List (Nat × TaskId)}

/-- The records of the attempts that are under way hold what they have contributed, and the cell what those have contributed
that have ended. -/
structure Tallied (values : Values V) (key : K) (init : Cell V) (flights : List (Nat × TaskId)) (spawned : Nat)
    (x : Tracked K V) : Prop where
  opened : ∀ p ∈ flights, ∃ writes, x.steps p.2 = some writes ∧ Entries writes.contributions ∧
    recordedFor key writes.contributions = contributedTo key (x.made p.1)
  closed : ∀ t, t ∉ flights.map Prod.snd → ∀ writes, x.steps t = some writes → writes.contributions = []
  unmade : ∀ f, spawned ≤ f → x.made f = []
  checked : ∀ f, ∀ p ∈ x.made f, checkContribution values (x.policies p.1) p.2 = true
  ended : ∀ p ∈ x.ended, p.1 < spawned ∧ p.1 ∉ flights.map Prod.fst
  once : (x.ended.map Prod.fst).Nodup
  folded : foldBlocks values (x.policies key) init (x.ended.map fun p => contributedTo key (x.made p.1)) = some (x.cells key)

theorem Tallied.begin (h : x.Tallied values key init flights x.run.spawned) {t : TaskId} (ht : t ∉ flights.map Prod.snd) :
    (x.beginStep t).Tallied values key init flights x.run.spawned where
  opened p hp := by
    have hne : p.2 ≠ t := fun he => ht (he ▸ List.mem_map_of_mem hp)
    obtain ⟨writes, hwrites, hentries⟩ := h.opened p hp
    exact ⟨writes, (Function.update_of_ne hne _ _).trans hwrites, hentries⟩
  closed u hu writes hwrites := by
    have hwrites : Function.update x.steps t (some {}) u = some writes := hwrites
    by_cases hut : u = t
    · rw [hut, Function.update_self] at hwrites
      rw [← Option.some.inj hwrites]
    · rw [Function.update_of_ne hut] at hwrites
      exact h.closed u hu writes hwrites
  unmade := h.unmade
  checked := h.checked
  ended := h.ended
  once := h.once
  folded := h.folded

theorem Tallied.launch {spawned : Nat} (h : x.Tallied values key init flights spawned) {t : TaskId}
    (ht : t ∉ flights.map Prod.snd) : (x.beginStep t).Tallied values key init ((spawned, t) :: flights) (spawned + 1) where
  opened p hp := by
    rcases List.mem_cons.mp hp with rfl | hp
    · refine ⟨{}, Function.update_self _ _ _, entries_nil, ?_⟩
      show [] = contributedTo key (x.made spawned)
      rw [h.unmade spawned (Nat.le_refl _)]
      rfl
    · have hne : p.2 ≠ t := fun he => ht (he ▸ List.mem_map_of_mem hp)
      obtain ⟨writes, hwrites, hentries⟩ := h.opened p hp
      exact ⟨writes, (Function.update_of_ne hne _ _).trans hwrites, hentries⟩
  closed u hu writes hwrites := by
    obtain ⟨hut, hu⟩ := not_or.mp (mt List.mem_cons.mpr hu)
    rw [show (x.beginStep t).steps u = x.steps u from Function.update_of_ne hut _ _] at hwrites
    exact h.closed u hu writes hwrites
  unmade f hf := h.unmade f (Nat.le_of_succ_le hf)
  checked := h.checked
  ended f hf := by
    obtain ⟨hlt, hnot⟩ := h.ended f hf
    refine ⟨Nat.lt_succ_of_lt hlt, fun hmem => ?_⟩
    exact (List.mem_cons.mp hmem).elim hlt.ne hnot
  once := h.once
  folded := h.folded

theorem Tallied.set_run {spawned : Nat} (h : x.Tallied values key init flights spawned) (run : Run) :
    { x with run }.Tallied values key init flights spawned :=
  ⟨h.opened, h.closed, h.unmade, h.checked, h.ended, h.once, h.folded⟩

omit [DecidableEq K] in
theorem follow_run (x : Tracked K V) (run : Run) : (x.follow run).run = run := by
  unfold Tracked.follow
  split
  · rfl
  · rfl

theorem Tallied.follow (h : x.Tallied values key init flights x.run.spawned) (hs : run.Sound)
    (hnext : x.run.started run = none ∧ run.running = flights ∧ run.spawned = x.run.spawned ∨
      ∃ t, x.run.started run = some t ∧
        (run.running = flights ∧ run.spawned = x.run.spawned ∧ run.results t ≠ none ∨
          run.running = (x.run.spawned, t) :: flights ∧ run.spawned = x.run.spawned + 1)) :
    (x.follow run).Tallied values key init run.running run.spawned := by
  unfold Tracked.follow
  rcases hnext with ⟨hstarted, hrunning, hspawned⟩ | ⟨t, hstarted, ⟨hrunning, hspawned, hresult⟩ | ⟨hrunning, hspawned⟩⟩
  · rw [hstarted, hrunning, hspawned]
    exact h.set_run run
  · have ht : t ∉ flights.map Prod.snd := fun hmem => hresult (hs.of_running (hrunning ▸ hmem)).2.2.1
    rw [hstarted, hrunning, hspawned]
    exact (h.begin ht).set_run run
  · have hflights := hs.apart.flights
    rw [hrunning] at hflights
    rw [hstarted, hrunning, hspawned]
    exact (h.launch (List.nodup_cons.mp hflights).1).set_run run

/-- The record of an attempt that ends can be folded. -/
def Combines (values : Values V) (x : Tracked K V) (t : TaskId) : Prop :=
  ∀ writes, x.steps t = some writes → ∀ p ∈ writes.contributions, Foldable values (x.policies p.1) (x.cells p.1) p.2

theorem Tallied.close (h : x.Tallied values key init x.run.running x.run.spawned) (hs : x.run.Sound) {t : TaskId} {flight : Nat}
    (htask : x.run.taskOf flight = some t) (hfold : x.Combines values t) :
    (x.endStep values t).2 = true ∧ { (x.endStep values t).1 with ended := x.ended ++ [(flight, t)] }.Tallied values key init
      (x.run.pop flight).running x.run.spawned := by
  have hmem := Run.mem_of_taskOf htask
  have hflight : flight ∈ x.run.running.map Prod.fst := List.mem_map_of_mem hmem
  obtain ⟨writes, hwrites, hentries, hrecorded⟩ := h.opened (flight, t) hmem
  obtain ⟨hall, hcells⟩ := foldAll_spec x.policies hentries x.cells (hfold writes hwrites)
  have hstep : x.endStep values t = ({ x with
      steps := Function.update x.steps t none
      cells := (foldAll values x.policies x.cells writes.contributions).1 },
      (foldAll values x.policies x.cells writes.contributions).2) := by
    unfold Tracked.endStep
    rw [hwrites]
  rw [hstep]
  have hpop : ∀ p ∈ (x.run.pop flight).running, p ∈ x.run.running ∧ p.2 ≠ t := by
    intro p hp
    refine ⟨(List.mem_filter.mp hp).1, fun he => Run.not_mem_pop hs.apart hmem ?_⟩
    exact he ▸ List.mem_map_of_mem hp
  refine ⟨hall, fun p hp => ?_, fun u hu w hw => ?_, h.unmade, h.checked, fun f hf => ?_, ?_, ?_⟩
  · obtain ⟨hold, hne⟩ := hpop p hp
    obtain ⟨w, hw, hp'⟩ := h.opened p hold
    exact ⟨w, (Function.update_of_ne hne _ _).trans hw, hp'⟩
  · have hw : Function.update x.steps t none u = some w := hw
    by_cases hut : u = t
    · rw [hut, Function.update_self] at hw
      cases hw
    · rw [Function.update_of_ne hut] at hw
      exact h.closed u (fun hrunning => hu ((hs.apart.mem_pop hmem).mpr ⟨hrunning, hut⟩)) w hw
  · rcases List.mem_append.mp hf with hf | hf
    · obtain ⟨hlt, hnot⟩ := h.ended f hf
      refine ⟨hlt, fun hrunning => hnot ?_⟩
      obtain ⟨p, hp, he⟩ := List.mem_map.mp hrunning
      rw [← he]
      exact List.mem_map_of_mem (List.mem_filter.mp hp).1
    · rw [List.mem_singleton.mp hf]
      refine ⟨hs.apart.numbered (flight, t) hmem, fun hrunning => ?_⟩
      obtain ⟨p, hp, he⟩ := List.mem_map.mp hrunning
      exact of_decide_eq_true (List.mem_filter.mp hp).2 he
  · show ((x.ended ++ [(flight, t)]).map Prod.fst).Nodup
    rw [List.map_append]
    refine List.nodup_append.mpr ⟨h.once, List.nodup_singleton flight, fun f hf g hg => ?_⟩
    obtain ⟨p, hp, rfl⟩ := List.mem_map.mp hf
    rw [List.mem_singleton.mp hg]
    intro he
    exact (h.ended p hp).2 (he ▸ hflight)
  · show foldBlocks values (x.policies key) init ((x.ended ++ [(flight, t)]).map fun p => contributedTo key (x.made p.1)) = _
    have hlast := hcells key
    rw [hrecorded] at hlast
    unfold foldBlocks at *
    have hbefore := h.folded
    unfold foldBlocks at hbefore
    rw [List.map_append, List.foldlM_append, hbefore]
    show (foldBlock values (x.policies key) (x.cells key) (contributedTo key (x.made flight))).bind some = _
    rw [Option.bind_fun_some]
    exact hlast

theorem Tallied.contribute (h : x.Tallied values key init x.run.running x.run.spawned) (hs : x.run.Sound) (flight : Nat)
    (k : K) (value : Cell V) :
    (x.contribute values flight k value).Tallied values key init x.run.running x.run.spawned := by
  unfold Tracked.contribute
  split
  · exact h
  · next t htask =>
      have hmem := Run.mem_of_taskOf htask
      obtain ⟨writes, hwrites, hentries, hrecorded⟩ := h.opened (flight, t) hmem
      rw [hwrites]
      simp only []
      split
      · next hchecked =>
          -- Nothing changes for the other attempts.
          have hothers : ∀ f, f ≠ flight → Function.update x.made flight (x.made flight ++ [(k, value)]) f = x.made f :=
            fun f hf => Function.update_of_ne hf _ _
          have hpast : ∀ p ∈ x.ended, p.1 ≠ flight := by
            intro p hp he
            exact (h.ended p hp).2 (he ▸ List.mem_map_of_mem hmem)
          refine ⟨fun p hp => ?_, fun u hu w hw => ?_, fun f hf => ?_, fun f p hp => ?_, h.ended, h.once, ?_⟩
          · by_cases he : p.1 = flight
            · have hpt : p.2 = t := hs.apart.eq_of_number hmem (he ▸ hp)
              refine ⟨⟨addContribution k value writes.contributions⟩, ?_, hentries.add k value, ?_⟩
              · rw [hpt]
                exact Function.update_self _ _ _
              · show recordedFor key (addContribution k value writes.contributions) = contributedTo key
                  (Function.update x.made flight (x.made flight ++ [(k, value)]) p.1)
                rw [he, Function.update_self, recordedFor_add, hrecorded, contributedTo_append]
            · have hpt : p.2 ≠ t := by
                intro hpt
                exact he (congrArg Prod.fst (List.inj_on_of_nodup_map hs.apart.flights hp hmem hpt))
              obtain ⟨w, hw, hw', hrec⟩ := h.opened p hp
              refine ⟨w, (Function.update_of_ne hpt _ _).trans hw, hw', hrec.trans ?_⟩
              show _ = contributedTo key (Function.update x.made flight (x.made flight ++ [(k, value)]) p.1)
              rw [hothers p.1 he]
          · have hut : u ≠ t := by
              rintro rfl
              exact hu (List.mem_map_of_mem hmem)
            have hw : Function.update x.steps t (some ⟨addContribution k value writes.contributions⟩) u = some w := hw
            rw [Function.update_of_ne hut] at hw
            exact h.closed u hu w hw
          · have hne : f ≠ flight := by
              rintro rfl
              exact absurd (hs.apart.numbered _ hmem) (Nat.not_lt.mpr hf)
            exact (hothers f hne).trans (h.unmade f hf)
          · have hp : p ∈ Function.update x.made flight (x.made flight ++ [(k, value)]) f := hp
            by_cases he : f = flight
            · rw [he, Function.update_self] at hp
              rcases List.mem_append.mp hp with hp | hp
              · exact h.checked flight p hp
              · rw [List.mem_singleton.mp hp]
                exact hchecked
            · rw [hothers f he] at hp
              exact h.checked f p hp
          · have hsame : (x.ended.map fun p => contributedTo key
                (Function.update x.made flight (x.made flight ++ [(k, value)]) p.1)) =
                  x.ended.map fun p => contributedTo key (x.made p.1) :=
              List.map_congr_left fun p hp => by rw [hothers p.1 (hpast p hp)]
            show foldBlocks values (x.policies key) init (x.ended.map fun p => contributedTo key
              (Function.update x.made flight (x.made flight ++ [(k, value)]) p.1)) = _
            rw [hsame]
            exact h.folded
      · exact h

theorem Tallied.set_cell {spawned : Nat} (h : x.Tallied values key init flights spawned) {k : K} (hk : k ≠ key)
    (value : Cell V) :
    { x with cells := Function.update x.cells k value }.Tallied values key init flights spawned := by
  refine ⟨h.opened, h.closed, h.unmade, h.checked, h.ended, h.once, ?_⟩
  show _ = some (Function.update x.cells k value key)
  rw [Function.update_of_ne hk.symm]
  exact h.folded

theorem Tallied.changeWrites {spawned : Nat} (h : x.Tallied values key init flights spawned) (t : TaskId) {k : K}
    (hk : k ≠ key) (i : Nat) (items : List V) :
    (x.changeWrites t k i items).Tallied values key init flights spawned := by
  unfold Tracked.changeWrites
  split
  · exact h
  · next writes hwrites =>
      let change : K × List (Cell V) → K × List (Cell V) := fun p => if p.1 = k then (p.1, p.2.modify i (relist items)) else p
      have hfst : ∀ p, (change p).1 = p.1 := by
        intro p
        show (if p.1 = k then (p.1, p.2.modify i (relist items)) else p).1 = p.1
        split
        · rfl
        · rfl
      have hkeys : ∀ l : List (K × List (Cell V)), (l.map change).map Prod.fst = l.map Prod.fst := by
        intro l
        rw [List.map_map]
        exact List.map_congr_left fun p _ => hfst p
      have hentries : ∀ l, Entries l → Entries (l.map change) := by
        intro l hl
        refine ⟨(hkeys l).symm ▸ hl.nodup, fun p hp => ?_⟩
        obtain ⟨q, hq, rfl⟩ := List.mem_map.mp hp
        show (if q.1 = k then (q.1, q.2.modify i (relist items)) else q).2 ≠ []
        split
        · intro hnil
          have hlength : (q.2.modify i (relist items)).length = 0 := congrArg List.length hnil
          rw [List.length_modify] at hlength
          exact hl.nonempty q hq (List.length_eq_zero_iff.mp hlength)
        · exact hl.nonempty q hq
      have hrecorded : ∀ l, recordedFor key (l.map change) = recordedFor key l := by
        intro l
        induction l with
        | nil => rfl
        | cons p l ih =>
            by_cases hp : p.1 = key
            · have hsame : change p = p := if_neg fun he => hk (he.symm.trans hp)
              rw [List.map_cons, hsame]
              subst hp
              rw [recordedFor_cons_self, recordedFor_cons_self]
            · have hp' : (change p).1 ≠ key := (hfst p).symm ▸ hp
              rw [List.map_cons]
              exact (recordedFor_cons_ne hp' _ _).trans (ih.trans (recordedFor_cons_ne hp _ _).symm)
      refine ⟨fun p hp => ?_, fun u hu w hw => ?_, h.unmade, h.checked, h.ended, h.once, h.folded⟩
      · obtain ⟨w, hw, hw', hrec⟩ := h.opened p hp
        by_cases hpt : p.2 = t
        · have hsame : writes = w := Option.some.inj (hwrites.symm.trans (hpt ▸ hw))
          refine ⟨⟨writes.contributions.map change⟩, ?_, hentries _ (hsame ▸ hw'), ?_⟩
          · rw [hpt]
            exact Function.update_self _ _ _
          · rw [hrecorded, hsame]
            exact hrec
        · exact ⟨w, (Function.update_of_ne hpt _ _).trans hw, hw', hrec⟩
      · have hw : Function.update x.steps t (some ⟨writes.contributions.map change⟩) u = some w := hw
        by_cases hut : u = t
        · rw [hut, Function.update_self] at hw
          rw [← Option.some.inj hw]
          show writes.contributions.map change = []
          rw [h.closed t (hut ▸ hu) writes hwrites]
          rfl
        · rw [Function.update_of_ne hut] at hw
          exact h.closed u hu w hw

theorem Tallied.mark (h : x.Tallied values key init x.run.running x.run.spawned) (flight : Nat) (label : String)
    (hcrashed : x.run.crashed = false) :
    (x.mark values flight label).Tallied values key init (x.mark values flight label).run.running
      (x.mark values flight label).run.spawned := by
  unfold Tracked.mark
  split
  · exact h
  · split
    · exact h
    · split
      · have hrun : x.run.perform (.checkpoint label) = { x.run with labels := label :: x.run.labels } := by
          unfold Run.perform
          rw [if_neg (Bool.eq_false_iff.mp hcrashed)]
        simp only [hrun]
        exact ⟨h.opened, h.closed, h.unmade, h.checked, h.ended, h.once, h.folded⟩
      · exact h

/-- A step of a run fits, what an attempt that ends has contributed can be folded, no attempt that has contributed anything is
ended by a cancellation, and no list that has been contributed to the cell is changed in its place. -/
def Proper (values : Values V) (key : K) (x : Tracked K V) : StateAct K V → Prop
  | .act act => x.run.Fits act ∧
      match act with
      | .ends _ flight _ _ => ∀ t, x.run.taskOf flight = some t → x.Combines values t
      | .turn thread cancelled => x.run.Unwinds thread cancelled →
          ∀ p ∈ x.run.running, ∀ writes, x.steps p.2 = some writes → writes.contributions = []
      | .checkpoint _ | .cached _ _ => True
  | .changeWrites _ k _ _ | .changeCell k _ | .write k _ => k ≠ key
  | .contribute _ _ _ | .checkpoint _ _ => True

/-- What is known of a run in every state of it. -/
structure Known (values : Values V) (key : K) (init : Cell V) (x : Tracked K V) : Prop where
  sound : x.run.Sound
  tallied : x.Tallied values key init x.run.running x.run.spawned

theorem Known.endAttempt (h : x.Known values key init) (hcrashed : x.run.crashed = false) {t : TaskId}
    {thread flight : Nat} {ending : Ending} {swept : Bool} (htask : x.run.taskOf flight = some t)
    (hfits : x.run.Fits (.ends thread flight ending swept)) (hfold : x.Combines values t) :
    (x.endAttempt values t thread flight ending swept).Known values key init := by
  obtain ⟨hall, hclosed⟩ := h.tallied.close h.sound htask hfold
  have hsound := h.sound.perform _ hfits
  have hperform : x.run.perform (.ends thread flight ending swept) = x.run.ends thread flight ending swept := by
    unfold Run.perform
    rw [if_neg (Bool.eq_false_iff.mp hcrashed)]
  unfold Tracked.endAttempt
  simp only [hall, if_true]
  have hrun : (x.endStep values t).1.run = x.run := by
    unfold Tracked.endStep
    split
    · rfl
    · rfl
  have hspawns := (Run.spawns_ends htask thread ending swept).started
  rw [hperform] at hsound ⊢
  generalize hy : { (x.endStep values t).1 with ended := x.ended ++ [(flight, t)] } = y at hclosed ⊢
  have hyrun : y.run = x.run := by
    rw [← hy]
    exact hrun
  rw [← hyrun] at hclosed hspawns
  have hlast := hclosed.follow hsound (hyrun ▸ hspawns)
  refine ⟨?_, ?_⟩
  · rw [follow_run]
    exact hsound
  · rw [follow_run]
    exact hlast

theorem Known.follow (h : x.Known values key init) (hs : run.Sound) (hspawns : Run.Spawns x.run run) :
    (x.follow run).Known values key init := by
  have hlast := h.tallied.follow hs hspawns.started
  refine ⟨?_, ?_⟩
  · rw [follow_run]
    exact hs
  · rw [follow_run]
    exact hlast

theorem Known.unwind (h : x.Known values key init) (hs : run.Sound) (hrunning : run.running = [])
    (hspawned : run.spawned = x.run.spawned) (hstarts : run.starts = x.run.starts)
    (hempty : ∀ p ∈ x.run.running, ∀ writes, x.steps p.2 = some writes → writes.contributions = []) :
    (x.follow run).Known values key init := by
  have hstarted : x.run.started run = none := by
    unfold Run.started
    rw [hstarts, if_pos rfl]
  unfold Tracked.follow
  rw [hstarted]
  refine ⟨hs, ?_⟩
  show { x with run }.Tallied values key init run.running run.spawned
  rw [hrunning, hspawned]
  have ht := h.tallied
  refine ⟨fun p hp => absurd hp List.not_mem_nil, fun t _ writes hwrites => ?_, ht.unmade, ht.checked,
    fun f hf => ⟨(ht.ended f hf).1, List.not_mem_nil⟩, ht.once, ht.folded⟩
  by_cases hmem : t ∈ x.run.running.map Prod.snd
  · obtain ⟨p, hp, rfl⟩ := List.mem_map.mp hmem
    exact hempty p hp writes hwrites
  · exact ht.closed t hmem writes hwrites

theorem Known.perform (h : x.Known values key init) {act : StateAct K V} (hproper : x.Proper values key act) :
    (x.perform values act).Known values key init := by
  unfold Tracked.perform
  split
  · exact h
  · next hcrashed =>
      have hcrashed : x.run.crashed = false := Bool.eq_false_iff.mpr hcrashed
      have hperform : ∀ act, x.run.perform act = _ := fun act => if_neg (Bool.eq_false_iff.mp hcrashed)
      cases act with
      | act act =>
          cases act with
          | ends thread flight ending swept =>
              simp only []
              split
              · exact h
              · next t htask => exact h.endAttempt hcrashed htask hproper.1 (hproper.2 t htask)
          | turn thread cancelled =>
              simp only []
              have hsound := h.sound.perform _ hproper.1
              rw [hperform] at hsound ⊢
              rcases Run.spawns_turn x.run thread cancelled with hspawns | ⟨hunwinds, hrunning, hspawned, hstarts⟩
              · exact h.follow hsound hspawns
              · exact h.unwind hsound hrunning hspawned hstarts (hproper.2 hunwinds)
          | checkpoint label =>
              simp only []
              have hsound := h.sound.perform _ hproper.1
              rw [hperform] at hsound ⊢
              exact h.follow hsound (.idle rfl rfl rfl)
          | cached k v =>
              simp only []
              have hsound := h.sound.perform _ hproper.1
              rw [hperform] at hsound ⊢
              exact h.follow hsound (.idle rfl rfl rfl)
      | contribute flight k value =>
          have hrun : (x.contribute values flight k value).run = x.run := by
            unfold Tracked.contribute
            split
            · rfl
            · split
              · rfl
              · split
                · rfl
                · rfl
          refine ⟨hrun ▸ h.sound, ?_⟩
          simp only [hrun]
          exact h.tallied.contribute h.sound flight k value
      | write k value => exact ⟨h.sound, h.tallied.set_cell hproper value⟩
      | changeWrites t k i items =>
          have hrun : (x.changeWrites t k i items).run = x.run := by
            unfold Tracked.changeWrites
            split
            · rfl
            · rfl
          refine ⟨hrun ▸ h.sound, ?_⟩
          simp only [hrun]
          exact h.tallied.changeWrites t hproper i items
      | changeCell k items => exact ⟨h.sound, h.tallied.set_cell hproper _⟩
      | checkpoint flight label =>
          have hsound : (x.mark values flight label).run.Sound := by
            unfold Tracked.mark
            split
            · exact h.sound
            · split
              · exact h.sound
              · split
                · exact h.sound.perform (.checkpoint label) trivial
                · exact h.sound
          exact ⟨hsound, h.tallied.mark flight label hcrashed⟩

/-- Every step of a run is proper. -/
def AllProper (values : Values V) (key : K) (x : Tracked K V) : List (StateAct K V) → Prop
  | [] => True
  | act :: acts => x.Proper values key act ∧ (x.perform values act).AllProper values key acts

theorem Known.track (h : x.Known values key init) (acts : List (StateAct K V)) (hproper : x.AllProper values key acts) :
    (x.track values acts).Known values key init := by
  induction acts generalizing x with
  | nil => exact h
  | cons act acts ih => exact ih (h.perform hproper.1) hproper.2

/-! ### What a cell comes to -/

/-- The cell of a policy holds what it held at first and what all attempts that have ended have contributed, each of them
once. -/
structure Totals (values : Values V) (key : K) (init : Cell V) (x : Tracked K V) : Prop where
  once : (x.ended.map Prod.fst).Nodup
  sum : x.policies key = .sum → ∀ n, init = .int n → ∀ ns : Nat → List Int,
    (∀ p ∈ x.ended, contributedTo key (x.made p.1) = (ns p.1).map .int) →
      x.cells key = .int (n + (x.ended.map fun p => (ns p.1).sum).sum)
  append : x.policies key = .append → ∀ items, init = .list items →
    x.cells key = .list (items ++ x.ended.flatMap fun p => (contributedTo key (x.made p.1)).flatMap Cell.items)
  union : x.policies key = .union → SameElements values (x.cells key).items
    (init.items ++ x.ended.flatMap fun p => (contributedTo key (x.made p.1)).flatMap Cell.items)

theorem foldBlocks_cons {merge : MergePolicy} {base result : Cell V} {block : List (Cell V)} {blocks : List (List (Cell V))} :
    foldBlocks values merge base (block :: blocks) = some result ↔
      ∃ folded, foldBlock values merge base block = some folded ∧ foldBlocks values merge folded blocks = some result := by
  unfold foldBlocks
  rw [List.foldlM_cons]
  exact Option.bind_eq_some_iff

theorem foldBlocks_sum {A : Type} (n : Int) (fs : List A) (block : A → List (Cell V)) (ns : A → List Int)
    (hints : ∀ f ∈ fs, block f = (ns f).map .int) {result : Cell V}
    (h : foldBlocks values .sum (.int n) (fs.map block) = some result) :
    result = .int (n + (fs.map fun f => (ns f).sum).sum) := by
  induction fs generalizing n with
  | nil =>
      rw [← Option.some.inj h]
      simp
  | cons f fs ih =>
      obtain ⟨folded, hfolded, hrest⟩ := foldBlocks_cons.mp h
      have hblock : folded = .int (n + (ns f).sum) := by
        rw [hints f List.mem_cons_self] at hfolded
        cases hns : ns f with
        | nil =>
            rw [hns] at hfolded
            rw [← Option.some.inj hfolded]
            simp
        | cons m ms =>
            rw [hns, foldBlock_of_ne_nil (by simp)] at hfolded
            exact Option.some.inj (hfolded.symm.trans (addAll_ints n (m :: ms)))
      rw [hblock] at hrest
      have hlast := ih (n + (ns f).sum) (fun g hg => hints g (List.mem_cons_of_mem _ hg)) hrest
      rw [hlast, List.map_cons, List.sum_cons, Int.add_assoc]

theorem exists_lists (values : Values V) {merge : MergePolicy} {contributed : List (Cell V)} (hmerge : merge = .append ∨ merge = .union)
    (h : ∀ value ∈ contributed, checkContribution values merge value = true) :
    contributed = (contributed.map Cell.items).map .list := by
  rw [List.map_map]
  refine (List.map_id contributed).symm.trans (List.map_congr_left fun value hvalue => ?_)
  have hchecked := h value hvalue
  cases value with
  | list items => rfl
  | nil => rcases hmerge with rfl | rfl <;> cases hchecked
  | int n => rcases hmerge with rfl | rfl <;> cases hchecked
  | other v => rcases hmerge with rfl | rfl <;> cases hchecked

theorem foldBlocks_append (items : List V) (blocks : List (List (Cell V)))
    (hlists : ∀ block ∈ blocks, block = (block.map Cell.items).map .list) {result : Cell V}
    (h : foldBlocks values .append (.list items) blocks = some result) :
    result = .list (items ++ blocks.flatMap fun block => block.flatMap Cell.items) := by
  induction blocks generalizing items with
  | nil =>
      rw [← Option.some.inj h]
      simp
  | cons block blocks ih =>
      obtain ⟨folded, hfolded, hrest⟩ := foldBlocks_cons.mp h
      have hblock : folded = .list (items ++ block.flatMap Cell.items) := by
        by_cases hne : block = []
        · rw [hne] at hfolded ⊢
          rw [← Option.some.inj hfolded]
          simp
        · rw [foldBlock_of_ne_nil hne, hlists block List.mem_cons_self] at hfolded
          rw [List.flatMap_def]
          exact Option.some.inj (hfolded.symm.trans (addAll_lists items _))
      rw [hblock] at hrest
      have hlast := ih _ (fun b hb => hlists b (List.mem_cons_of_mem _ hb)) hrest
      rw [hlast, List.flatMap_cons, List.append_assoc]

theorem foldBlocks_union {base result : Cell V} (blocks : List (List (Cell V)))
    (h : foldBlocks values .union base blocks = some result) :
    SameElements values result.items (base.items ++ blocks.flatMap fun block => block.flatMap Cell.items) := by
  induction blocks generalizing base with
  | nil =>
      rw [← Option.some.inj h, List.flatMap_nil, List.append_nil]
      exact sameElements_refl _
  | cons block blocks ih =>
      obtain ⟨folded, hfolded, hrest⟩ := foldBlocks_cons.mp h
      have hblock : SameElements values folded.items (base.items ++ block.flatMap Cell.items) := by
        by_cases hne : block = []
        · rw [hne] at hfolded ⊢
          rw [← Option.some.inj hfolded, List.flatMap_nil, List.append_nil]
          exact sameElements_refl _
        · rw [foldBlock_of_ne_nil hne] at hfolded
          exact fold_union hfolded
      rw [List.flatMap_cons, ← List.append_assoc]
      exact (ih hrest).trans (hblock.append_right _)

theorem Known.totals (h : x.Known values key init) : x.Totals values key init := by
  have hlists : x.policies key = .append ∨ x.policies key = .union →
      ∀ block ∈ x.ended.map (fun p => contributedTo key (x.made p.1)), block = (block.map Cell.items).map .list := by
    intro hpolicy block hblock
    obtain ⟨q, -, rfl⟩ := List.mem_map.mp hblock
    refine exists_lists values hpolicy fun value hvalue => ?_
    obtain ⟨p, hp, rfl⟩ := List.mem_map.mp hvalue
    obtain ⟨hmade, hkey⟩ := List.mem_filter.mp hp
    rw [← of_decide_eq_true hkey]
    exact h.tallied.checked q.1 p hmade
  have hfolded := h.tallied.folded
  refine ⟨h.tallied.once, fun hpolicy n hinit ns hints => ?_, fun hpolicy items hinit => ?_, fun hpolicy => ?_⟩
  · rw [hpolicy, hinit] at hfolded
    exact foldBlocks_sum n x.ended _ (fun p => ns p.1) hints hfolded
  · rw [hpolicy, hinit] at hfolded
    rw [foldBlocks_append items _ (hlists (.inl hpolicy)) hfolded, List.flatMap_map]
  · rw [hpolicy] at hfolded
    have hall := foldBlocks_union _ hfolded
    rwa [List.flatMap_map] at hall

/-- A run of a workflow, up to the first call of `schedule_ready`. -/
def fresh (node : TaskId → TaskNode) (tasks : List TaskId) (workers : Bool) (policies : K → MergePolicy)
    (durable : K → Bool) (cells : K → Cell V) : Tracked K V :=
  { run := Run.fresh node tasks workers true, policies, durable, cells }

theorem known_fresh {node : TaskId → TaskNode} {tasks : List TaskId} (hunrun : Run.Unrun node tasks) (workers : Bool)
    (policies : K → MergePolicy) (durable : K → Bool) (cells : K → Cell V) :
    (fresh node tasks workers policies durable cells).Known values key (cells key) where
  sound := hunrun.fresh workers true
  tallied := by
    refine ⟨fun p hp => absurd hp List.not_mem_nil, fun t _ writes hwrites => ?_, fun _ _ => rfl,
      fun f p hp => absurd hp List.not_mem_nil, fun f hf => absurd hf List.not_mem_nil, List.nodup_nil, rfl⟩
    cases hwrites

/-- Numbers and nothing else. -/
def plainValues : Values Nat where
  isFloat _ := false
  incomparable _ := false
  plus
    | .int m, .int n => some (.int (m + n))
    | _, _ => none
  plus_numeric {a b} ha hb := by
    cases a with
    | int m =>
        cases b with
        | int n => exact ⟨.int (m + n), rfl, trivial⟩
        | nil => exact hb.elim
        | list items => exact hb.elim
        | other v => exact absurd hb Bool.false_ne_true
    | nil => exact ha.elim
    | list items => exact ha.elim
    | other v => exact absurd ha Bool.false_ne_true
  eq v w := some (decide (v = w))
  eq_trans {u v w} huv hvw := by
    rw [Option.some.injEq, decide_eq_true_iff] at *
    exact huv.trans hvw

/-- The total is `true`, the log `false`. -/
def totalPolicies : Bool → MergePolicy
  | true => .sum
  | false => .append

def totalCells (log : Cell Nat) : Bool → Cell Nat
  | true => .int 0
  | false => log

def totalRun (log : Cell Nat) : Tracked Bool Nat :=
  fresh (fun _ => { allowFailure := true }) [⟨0, none⟩] true totalPolicies (fun _ => true) (totalCells log)

end Tracked

end state

end Nodus.Orchestration
