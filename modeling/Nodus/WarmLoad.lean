import Nodus.ColdBuild
import Nodus.Paired

/-! A load with a cache beside a load without one: as long as the entries that stand in for modules are what
the files build to, the two execute the same modules in the same order. -/

namespace Nodus.Loading

open PosixPath Walks Paired

variable {Ast Code X : Type}

namespace Loader

variable {F : Front Ast Code} {site : Site Ast} {C : Path → Prop}

/-- Metadata in the loader's memo is what the files build to; `C` holds of the modules that were found in
the cache. -/
structure MemoOk (F : Front Ast Code) (site : Site Ast) (C : Path → Prop) (p : Path)
    (metadata : ModuleMetadata Ast) : Prop where
  builds : F.Builds site p
  record : F.localRecord site p = .ok metadata.toMetadataRecord
  parsed : ∀ parsed, metadata.parsed = some parsed → F.parseModule site p = .ok parsed
  cached : metadata.parsed = none → C p

def MemoSound (F : Front Ast Code) (site : Site Ast) (C : Path → Prop)
    (memo : List (Path × ModuleMetadata Ast)) : Prop :=
  ∀ p metadata, memo.lookup p = some metadata → MemoOk F site C p metadata

/-- A cache entry is what the files build and compile to. -/
structure EntryOk (F : Front Ast Code) (site : Site Ast) (C : Path → Prop) (p : Path)
    (entry : CacheEntry Code) : Prop where
  builds : F.Builds site p
  record : F.localRecord site p = .ok entry.metadata
  compiled : ∀ parsed, F.parseModule site p = .ok parsed →
    F.compile p parsed entry.metadata.importNames = .ok entry.code
  cached : C p

/-- Every entry the load could use is right. -/
def UsableSound (F : Front Ast Code) (site : Site Ast) (C : Path → Prop)
    (st : LoaderState Ast Code X) : Prop :=
  ∀ p entry, Reaches (F.importsOf site) site.root p → F.usable site st p = some entry →
    EntryOk F site C p entry

theorem memoSound_nil : MemoSound F site C [] := fun _ _ h => nomatch h

theorem MemoSound.cons {memo : List (Path × ModuleMetadata Ast)} {p : Path} {metadata : ModuleMetadata Ast}
    (hm : MemoSound F site C memo) (hp : MemoOk F site C p metadata) :
    MemoSound F site C ((p, metadata) :: memo) := by
  intro q md hq
  rw [List.lookup_cons] at hq
  by_cases he : q = p
  · subst he
    simp only [beq_self_eq_true, Option.some.injEq] at hq
    exact hq ▸ hp
  · rw [show (q == p) = false by simpa using he] at hq
    exact hm q md hq

/-- A state with another memo and stack. -/
abbrev withMemo (st : LoaderState Ast Code X) (memo : List (Path × ModuleMetadata Ast))
    (stack : List Path) : LoaderState Ast Code X :=
  { st with metadata := memo, metadataStack := stack }

theorem usable_withMemo (st : LoaderState Ast Code X) (memo : List (Path × ModuleMetadata Ast))
    (stack : List Path) (p : Path) : F.usable site (withMemo st memo stack) p = F.usable site st p := rfl

/-- What the metadata of `p` ends in: the memo has grown soundly and nothing else has changed. -/
def BuiltFrom (F : Front Ast Code) (site : Site Ast) (C : Path → Prop) (st : LoaderState Ast Code X)
    (stack : List Path) (st' : LoaderState Ast Code X) : Prop :=
  ∃ memo, st' = withMemo st memo stack ∧ MemoSound F site C memo

section Loops

variable {J E : LoaderState Ast Code X → Prop} {f : Path → Loader Ast Code X (List Name)}
  {g : Path → Except LoadError (List Name)} {st : LoaderState Ast Code X}

theorem bindImports_follows {specs : List ImportSpec} (acc : List Name) (hE : ∀ s, J s → E s)
    (h : ∀ spec ∈ specs, ∀ s, J s →
      FollowsAt (fun a b s' => a = b ∧ J s') E (f spec.resolvedPath) (g spec.resolvedPath) s)
    (hj : J st) :
    FollowsAt (fun a b s' => a = b ∧ J s') E (bindImports F.builtin f specs acc)
      (bindImports F.builtin g specs acc) st := by
  induction specs generalizing acc st with
  | nil => exact ⟨rfl, hj⟩
  | cons spec specs ih =>
      simp only [bindImports]
      refine (h spec List.mem_cons_self st hj).bind fun a b s hb hab => ?_
      obtain ⟨rfl, hs⟩ := hab
      have hbound : FollowsAt (fun x y s' => x = y ∧ J s') E
          (MonadExcept.ofExcept (spec.bound F.builtin a) : Loader Ast Code X (List Name))
          (spec.bound F.builtin a) s := follows_ofExcept (fun _ _ => ⟨rfl, hs⟩) (hE s hs)
      have hlift : (MonadExcept.ofExcept (spec.bound F.builtin a) : Except LoadError (List Name)) =
          spec.bound F.builtin a := by
        cases spec.bound F.builtin a <;> rfl
      rw [hlift]
      refine hbound.bind fun x y s' _ hxy => ?_
      obtain ⟨rfl, hs'⟩ := hxy
      exact ih _ (fun sp hsp => h sp (List.mem_cons_of_mem _ hsp)) hs'

theorem checkReexports_follows {specs : List ExportFromSpec} (hE : ∀ s, J s → E s)
    (h : ∀ spec ∈ specs, ∀ s, J s →
      FollowsAt (fun a b s' => a = b ∧ J s') E (f spec.resolvedPath) (g spec.resolvedPath) s)
    (hj : J st) :
    FollowsAt (fun _ _ s' => J s') E (checkReexports f specs) (checkReexports g specs) st := by
  induction specs generalizing st with
  | nil => exact hj
  | cons spec specs ih =>
      simp only [checkReexports]
      refine (h spec List.mem_cons_self st hj).bind fun a b s hb hab => ?_
      obtain ⟨rfl, hs⟩ := hab
      have hcheck : FollowsAt (fun _ _ s' => J s') E
          (MonadExcept.ofExcept (spec.check a) : Loader Ast Code X PUnit) (spec.check a) s :=
        follows_ofExcept (fun _ _ => hs) (hE s hs)
      have hlift : (MonadExcept.ofExcept (spec.check a) : Except LoadError PUnit) = spec.check a := by
        cases spec.check a <;> rfl
      rw [hlift]
      exact hcheck.bind fun _ _ s' _ hs' => ih (fun sp hsp => h sp (List.mem_cons_of_mem _ hsp)) hs'

theorem assemble_follows {pr : Prepared Ast} (hE : ∀ s, J s → E s)
    (h : ∀ d ∈ pr.dependencies, ∀ s, J s → FollowsAt (fun a b s' => a = b ∧ J s') E (f d) (g d) s)
    (hj : J st) :
    FollowsAt (fun a b s' => a = b ∧ J s') E (pr.assemble F.builtin f) (pr.assemble F.builtin g) st := by
  unfold Prepared.assemble
  have himports := bindImports_follows (F := F) [] hE
    (fun spec hs => h _ (List.mem_append_left _ (List.mem_map_of_mem hs))) hj
  refine himports.bind fun a b s _ hab => ?_
  obtain ⟨rfl, hs⟩ := hab
  have hreexports := checkReexports_follows hE
    (fun spec hs => h _ (List.mem_append_right _ (List.mem_map_of_mem hs))) hs
  exact hreexports.bind fun _ _ s' _ hs' => ⟨rfl, hs'⟩

end Loops

theorem not_reaches_stack {p : Path} {stack : List Path} (h : F.Builds site p)
    (hchain : ∀ a ∈ stack, ∃ d, d ∈ F.importsOf site a ∧ Reaches (F.importsOf site) d p) :
    ∀ a ∈ stack, ¬ Reaches (F.importsOf site) p a := by
  intro a ha hpa
  obtain ⟨d, hd, hdp⟩ := hchain a ha
  cases hpa with
  | refl _ => exact h.acyclic ⟨d, hd, hdp⟩
  | @step _ e _ _ he hea => exact h.acyclic ⟨e, he, hea.trans ((Reaches.edge hd).trans hdp)⟩

theorem onMetadataStack_follows {α β : Type} {Q : α → β → LoaderState Ast Code X → Prop} {p : Path}
    {E : LoaderState Ast Code X → Prop} {c : Loader Ast Code X α} {r : Except LoadError β}
    {st : LoaderState Ast Code X}
    (h : FollowsAt (fun a b st' => Q a b { st' with metadataStack := st'.metadataStack.erase p })
      (fun st' => E { st' with metadataStack := st'.metadataStack.erase p }) c r
      { st with metadataStack := p :: st.metadataStack }) :
    FollowsAt Q E (onMetadataStack p c) r st := by
  unfold FollowsAt onMetadataStack at *
  cases hc : c { st with metadataStack := p :: st.metadataStack } with
  | ok a st' =>
      rw [hc] at h
      cases r with
      | ok b => exact h
      | error e => exact h.elim
  | error e st' =>
      rw [hc] at h
      cases r with
      | ok b => exact h.elim
      | error e' => exact h

section Cases

attribute [local simp] buildMetadata loadOrCompile

variable {fuel : Nat} {p : Path} {st : LoaderState Ast Code X}

theorem buildMetadata_memo {metadata : ModuleMetadata Ast} (h : st.metadata.lookup p = some metadata) :
    buildMetadata F site (fuel + 1) p st = .ok metadata st := by
  simp [h]

theorem buildMetadata_circular (h : st.metadata.lookup p = none) (hp : p ∈ st.metadataStack) :
    buildMetadata F site (fuel + 1) p st = .error (.circularImport (cycleOf st.metadataStack p)) st := by
  simp [h, hp]

theorem buildMetadata_cached {entry : CacheEntry Code} (h : st.metadata.lookup p = none)
    (hp : p ∉ st.metadataStack) (hu : F.usable site st p = some entry) :
    buildMetadata F site (fuel + 1) p st =
      onMetadataStack p (keep p { entry.metadata with parsed := none }) st := by
  simp [h, hp, hu]

theorem loadOrCompile_cached {metadata : ModuleMetadata Ast} {entry : CacheEntry Code}
    (hu : F.usable site st p = some entry) : loadOrCompile F site p metadata st = .ok entry.code st := by
  simp [hu]

theorem loadOrCompile_unparsed {metadata : ModuleMetadata Ast} (hu : F.usable site st p = none)
    (hp : metadata.parsed = none) : loadOrCompile F site p metadata st = .error (.notAvailable p) st := by
  simp [hu, hp]

theorem loadOrCompile_error {metadata : ModuleMetadata Ast} {parsed : ParsedModule Ast} {message : String}
    (hu : F.usable site st p = none) (hp : metadata.parsed = some parsed)
    (hc : F.compile p parsed metadata.importNames = .error message) :
    loadOrCompile F site p metadata st = .error (.compileError message) st := by
  simp [hu, hp, hc]

theorem loadOrCompile_compiled {metadata : ModuleMetadata Ast} {parsed : ParsedModule Ast} {code : Code}
    (hu : F.usable site st p = none) (hp : metadata.parsed = some parsed)
    (hc : F.compile p parsed metadata.importNames = .ok code) :
    loadOrCompile F site p metadata st =
      .ok code (recordCompiled F site p code metadata.toMetadataRecord st) := by
  simp [hu, hp, hc]

theorem buildMetadata_parsed (h : st.metadata.lookup p = none) (hp : p ∉ st.metadataStack)
    (hu : F.usable site st p = none) :
    buildMetadata F site (fuel + 1) p st =
      onMetadataStack p (parsedMetadata F site (buildMetadata F site fuel) p) st := by
  simp [h, hp, hu]

end Cases

/-- The metadata a loader builds is what the files build to, and it fails where they do not build. -/
theorem buildMetadata_follows {st : LoaderState Ast Code X} (hu : UsableSound F site C st) (fuel : Nat)
    (stack : List Path) {memo : List (Path × ModuleMetadata Ast)} {p : Path}
    (hroot : Reaches (F.importsOf site) site.root p)
    (hchain : ∀ a ∈ stack, ∃ d, d ∈ F.importsOf site a ∧ Reaches (F.importsOf site) d p)
    (hroom : room site.paths stack < fuel) (hm : MemoSound F site C memo) :
    FollowsAt (fun metadata record st' => metadata.toMetadataRecord = record ∧ MemoOk F site C p metadata ∧
        BuiltFrom F site C st stack st')
      (fun st' => st'.vm = st.vm) (buildMetadata F site fuel p) (F.buildsTo site fuel stack p)
      (withMemo st memo stack) := by
  induction fuel generalizing p stack memo with
  | zero => omega
  | succ fuel ih =>
      -- a module that is known to build builds to its record here too
      have hbuilt : ∀ metadata, MemoOk F site C p metadata →
          F.buildsTo site (fuel + 1) stack p = .ok metadata.toMetadataRecord := by
        intro metadata hok
        rw [Front.buildsTo_of_builds hok.builds (not_reaches_stack hok.builds hchain) hroom]
        exact hok.record
      cases hl : memo.lookup p with
      | some metadata =>
          have hok := hm p metadata hl
          unfold FollowsAt
          rw [hbuilt metadata hok, buildMetadata_memo hl]
          exact ⟨rfl, hok, memo, rfl, hm⟩
      | none =>
          by_cases hp : p ∈ stack
          · unfold FollowsAt
            rw [buildMetadata_circular hl hp, Front.buildsTo, if_pos hp]
            exact ⟨rfl, rfl⟩
          cases hue : F.usable site (withMemo st memo stack) p with
          | some entry =>
              have he := hu p entry hroot hue
              have hok : MemoOk F site C p { entry.metadata with parsed := none } :=
                ⟨he.builds, he.record, fun _ h => (Option.some_ne_none _ h.symm).elim, fun _ => he.cached⟩
              unfold FollowsAt
              rw [buildMetadata_cached hl hp hue, hbuilt _ hok]
              refine ⟨rfl, hok, (p, _) :: memo, ?_, hm.cons hok⟩
              simp [withMemo]
          | none =>
              have hsplit : F.buildsTo site (fuel + 1) stack p = F.prepare site p >>= fun pr =>
                  (pr.assemble F.builtin fun d => (F.buildsTo site fuel (p :: stack) d).map (·.exports)) >>=
                    fun record => pure record := by
                rw [Front.buildsTo, if_neg hp]
                simp only [bind_pure]
              unfold FollowsAt
              rw [buildMetadata_parsed hl hp hue]
              refine onMetadataStack_follows ?_
              unfold parsedMetadata
              have hprepare : FollowsAt (fun a b s => a = b ∧ BuiltFrom F site C st (p :: stack) s)
                  (fun s => s.vm = st.vm)
                  (MonadExcept.ofExcept (F.prepare site p) : Loader Ast Code X (Prepared Ast)) (F.prepare site p)
                  (withMemo st memo (p :: stack)) :=
                follows_ofExcept (fun _ _ => ⟨rfl, memo, rfl, hm⟩) rfl
              rw [hsplit]
              refine hprepare.bind fun pr _ s hpr hs => ?_
              obtain ⟨rfl, hs⟩ := hs
              have hdeps : F.importsOf site p = pr.dependencies := by rw [Front.importsOf, hpr]
              have hlt := room_cons_lt (Front.mem_paths_of_parsed (Front.prepare_parsed hpr)) hp
              refine (assemble_follows (F := F) (J := BuiltFrom F site C st (p :: stack))
                (fun s hs => ?_) (fun d hd s hs => ?_) hs).bind fun record _ s' hrecord hs' => ?_
              · obtain ⟨memo', rfl, _⟩ := hs
                rfl
              · obtain ⟨memo', rfl, hm'⟩ := hs
                have hd' : d ∈ F.importsOf site p := by
                  rw [hdeps]
                  exact hd
                have hchain' : ∀ a ∈ p :: stack, ∃ e, e ∈ F.importsOf site a ∧
                    Reaches (F.importsOf site) e d := by
                  intro a ha
                  rcases List.mem_cons.mp ha with rfl | ha
                  · exact ⟨d, hd', Reaches.refl d⟩
                  · obtain ⟨e, he, hep⟩ := hchain a ha
                    exact ⟨e, he, hep.trans (Reaches.edge hd')⟩
                refine (ih (p :: stack) (hroot.trans (Reaches.edge hd')) hchain' (by omega) hm').map
                  fun metadata record s' hs' => ?_
                exact ⟨congrArg MetadataRecord.exports hs'.1, hs'.2.2⟩
              · obtain ⟨rfl, memo', rfl, hm'⟩ := hs'
                have hto : F.buildsTo site (fuel + 1) stack p = .ok record := by
                  rw [hsplit]
                  exact Front.bind_eq_ok.mpr ⟨pr, hpr, Front.bind_eq_ok.mpr ⟨record, hrecord, rfl⟩⟩
                obtain ⟨hb, hlocal⟩ := Front.builds_of_buildsTo hto
                have hok : MemoOk F site C p { record with parsed := some pr.parsed } := by
                  refine ⟨hb, hlocal, fun parsed h => ?_, fun h => (Option.some_ne_none _ h).elim⟩
                  cases h
                  exact Front.prepare_parsed hpr
                refine ⟨rfl, hok, (p, _) :: memo', ?_, hm'.cons hok⟩
                simp [withMemo]

section Drift

variable {start : Store Code} {st : LoaderState Ast Code X} {p q : Path}

/-- The dependency graph finds the module fresh. -/
def Fresh (site : Site Ast) (start : Store Code) (p : Path) : Prop :=
  ∀ q, Reaches (Front.graphNext start.graph) p q → Front.UpToDate site.files start.graph [] q

/-- The module is fresh, but its cache entry is missing or of another text. -/
structure Lacking (F : Front Ast Code) (site : Site Ast) (start : Store Code) (p : Path) : Prop where
  fresh : Fresh site start p
  noEntry : F.loadCachedBytecode site (some start) p = none

/-- The entry that stands in for a module when the load begins. -/
def startEntry (F : Front Ast Code) (site : Site Ast) (start : Store Code) (p : Path) :
    Option (CacheEntry Code) :=
  F.usable site ({ store := some start, vm := () } : LoaderState Ast Code Unit) p

/-- Only the modules recompiled in this load have new nodes and entries. -/
structure Drift (start : Store Code) (recompiled : List Path) (store : Store Code) : Prop where
  graph : ∀ q, q ∉ recompiled → store.graph.lookup q = start.graph.lookup q
  cache : ∀ q, q ∉ recompiled → store.cache q = start.cache q

theorem usable_eq_some {store : Store Code} (hs : st.store = some store) {entry : CacheEntry Code} :
    F.usable site st p = some entry ↔ Front.sourceIsTheFile site p = true ∧
      (∀ q, Reaches (Front.graphNext store.graph) p q →
        Front.UpToDate site.files store.graph st.recompiled q) ∧
      F.loadCachedBytecode site (some store) p = some entry := by
  have hauth : Front.cacheIsAuthoritative site st p = true ↔ Front.sourceIsTheFile site p = true ∧
      ∀ q, Reaches (Front.graphNext store.graph) p q →
        Front.UpToDate site.files store.graph st.recompiled q := by
    unfold Front.cacheIsAuthoritative Front.canSkipReprocessing
    rw [hs, Bool.and_eq_true, Bool.not_eq_eq_eq_not, Bool.not_true, Front.not_stale_iff]
  unfold Front.usable
  rw [hs]
  by_cases hc : Front.cacheIsAuthoritative site st p = true
  · rw [if_pos hc]
    exact ⟨fun h => ⟨(hauth.mp hc).1, (hauth.mp hc).2, h⟩, fun h => h.2.2⟩
  · rw [if_neg hc]
    exact ⟨fun h => (nomatch h), fun h => absurd (hauth.mpr ⟨h.1, h.2.1⟩) hc⟩

theorem startEntry_eq_some {entry : CacheEntry Code} :
    startEntry F site start p = some entry ↔ Front.sourceIsTheFile site p = true ∧ Fresh site start p ∧
      F.loadCachedBytecode site (some start) p = some entry :=
  usable_eq_some rfl

theorem loadCached_congr {store : Store Code} (h : store.cache p = start.cache p) :
    F.loadCachedBytecode site (some store) p = F.loadCachedBytecode site (some start) p := by
  simp only [Front.loadCachedBytecode, Option.bind_eq_bind, Option.bind_some, h]

variable {store : Store Code}

theorem graphNext_congr (h : store.graph.lookup p = start.graph.lookup p) :
    Front.graphNext store.graph p = Front.graphNext start.graph p := by
  unfold Front.graphNext
  rw [h]

theorem startEntry_of_usable (hs : st.store = some store) (hd : Drift start st.recompiled store)
    {entry : CacheEntry Code} (h : F.usable site st p = some entry) : startEntry F site start p = some entry := by
  obtain ⟨hsource, hfresh, he⟩ := (usable_eq_some hs).mp h
  have hself := (hfresh p (Reaches.refl p)).notRecompiled
  refine startEntry_eq_some.mpr ⟨hsource, fun q hq => ?_, ?_⟩
  · have hq' : Reaches (Front.graphNext store.graph) p q := by
      -- the walk in the old graph is one in the new graph, which agrees with it on fresh modules
      refine hq.closed (P := Reaches (Front.graphNext store.graph) p) (fun x y hx hy => ?_) (Reaches.refl p)
      rw [← graphNext_congr (hd.graph x (hfresh x hx).notRecompiled)] at hy
      exact hx.trans (Reaches.edge hy)
    have hup := hfresh q hq'
    refine ⟨by simp, ?_⟩
    rw [← hd.graph q hup.notRecompiled]
    exact hup.mtimeRecorded
  · rw [← loadCached_congr (hd.cache p hself)]
    exact he

theorem recompiled_of_unusable (hs : st.store = some store) (hd : Drift start st.recompiled store)
    (hp : p ∉ st.recompiled) {entry : CacheEntry Code} (h : startEntry F site start p = some entry) (hn : F.usable site st p = none) :
    ∃ q, q ∈ st.recompiled ∧ Reaches (Front.graphNext start.graph) p q := by
  obtain ⟨hsource, hfresh, he⟩ := startEntry_eq_some.mp h
  apply Classical.byContradiction
  intro hnone
  have hnot : ∀ q, Reaches (Front.graphNext start.graph) p q → q ∉ st.recompiled :=
    fun q hq hqr => hnone ⟨q, hqr, hq⟩
  have hu : F.usable site st p = some entry := by
    refine (usable_eq_some hs).mpr ⟨hsource, fun q hq => ?_, ?_⟩
    · have hq' : Reaches (Front.graphNext start.graph) p q := by
        refine hq.closed (P := Reaches (Front.graphNext start.graph) p) (fun x y hx hy => ?_) (Reaches.refl p)
        rw [graphNext_congr (hd.graph x (hnot x hx))] at hy
        exact hx.trans (Reaches.edge hy)
      refine ⟨hnot q hq', ?_⟩
      rw [hd.graph q (hnot q hq')]
      exact (hfresh q hq').mtimeRecorded
    · rw [loadCached_congr (hd.cache p hp)]
      exact he
  rw [hu] at hn
  exact nomatch hn

theorem lookup_filter_ne {α : Type} {l : List (Path × α)} (h : q ≠ p) :
    (l.filter (·.1 ≠ p)).lookup q = l.lookup q := by
  induction l with
  | nil => rfl
  | cons x l ih =>
      by_cases hx : x.1 = p
      · rw [List.filter_cons_of_neg (by simp [hx]), ih]
        have hq : (q == x.1) = false := by simpa [hx] using h
        rw [List.lookup_cons, hq]
      · rw [List.filter_cons_of_pos (by simp [hx]), List.lookup_cons, List.lookup_cons, ih]

theorem drift_recordCompiled (F : Front Ast Code) (site : Site Ast) (p : Path) (hs : st.store = some store)
    (hd : Drift start st.recompiled store) (code : Code) (record : MetadataRecord) :
    ∃ store', (recordCompiled F site p code record st).store = some store' ∧
      Drift start (recordCompiled F site p code record st).recompiled store' := by
  unfold recordCompiled
  by_cases hsource : Front.sourceIsTheFile site p = true
  · rw [if_pos hsource, hs]
    cases hf : site.file p with
    | none =>
        refine ⟨store, rfl, fun q hq => hd.graph q ?_, fun q hq => hd.cache q ?_⟩
        · exact fun h => hq (List.mem_cons_of_mem _ h)
        · exact fun h => hq (List.mem_cons_of_mem _ h)
    | some file =>
        refine ⟨written F store p file code record, rfl, fun q hq => ?_, fun q hq => ?_⟩
        · simp only [List.mem_cons, not_or] at hq
          simp only [written, List.lookup_cons, show (q == p) = false by simpa using hq.1]
          exact (lookup_filter_ne hq.1).trans (hd.graph q hq.2)
        · simp only [List.mem_cons, not_or] at hq
          funext mtime
          simp only [written]
          rw [if_neg fun h => hq.1 h.1, hd.cache q hq.2]
  · rw [if_neg hsource]
    exact ⟨store, hs, hd⟩

end Drift

section Growth

variable {α β : Type} {R : Runtime Code X} {r : LoaderState Ast Code X → LoaderState Ast Code X → Prop}

theorem respects_assemble (hrefl : ∀ st, r st st) (htrans : ∀ {a b c}, r a b → r b c → r a c)
    {f : Path → Loader Ast Code X (List Name)} (hf : ∀ d, Respects r (f d)) (pr : Prepared Ast) :
    Respects r (pr.assemble F.builtin f) := by
  have hbind : ∀ specs acc, Respects r (bindImports F.builtin f specs acc) := by
    intro specs
    induction specs with
    | nil => exact fun acc => hrefl
    | cons spec specs ih =>
        exact fun acc => (hf _).bind htrans fun _ => (respects_ofExcept hrefl _).bind htrans fun _ => ih _
  have hcheck : ∀ specs, Respects r (checkReexports f specs) := by
    intro specs
    induction specs with
    | nil => exact hrefl
    | cons spec specs ih =>
        exact (hf _).bind htrans fun _ => (respects_ofExcept hrefl _).bind htrans fun _ => ih
  exact (hbind _ _).bind htrans fun _ => (hcheck _).bind htrans fun _ => hrefl

theorem record_of_assemble {f : Path → Loader Ast Code X (List Name)} {pr : Prepared Ast} {record : MetadataRecord}
    {st st' : LoaderState Ast Code X} (h : pr.assemble F.builtin f st = .ok record st') :
    ∃ names, record = pr.record names := by
  unfold Prepared.assemble at h
  rw [bind_apply] at h
  split at h
  · rw [bind_apply] at h
    split at h
    · cases h
      exact ⟨_, rfl⟩
    · cases h
  · cases h

/-- What building metadata respects, and what is respected while the metadata of one module is being built. -/
structure Building (F : Front Ast Code) (site : Site Ast) (r : LoaderState Ast Code X → LoaderState Ast Code X → Prop)
    (inner : Path → LoaderState Ast Code X → LoaderState Ast Code X → Prop) : Prop where
  refl : ∀ st, r st st
  trans : ∀ {a b c}, r a b → r b c → r a c
  innerTrans : ∀ {p a b c}, inner p a b → inner p b c → inner p a c
  inside : ∀ {p a b}, r a b → inner p a b
  cached : ∀ {p st entry}, F.usable site st p = some entry →
    inner p st { st with metadata := (p, { entry.metadata with parsed := none }) :: st.metadata }
  parsed : ∀ {p st pr}, F.prepare site p = .ok pr → ∀ names parsed,
    inner p st { st with metadata := (p, { pr.record names with parsed := parsed }) :: st.metadata }
  leave : ∀ {p st st'}, st.metadata.lookup p = none → p ∉ st.metadataStack →
    inner p { st with metadataStack := p :: st.metadataStack } st' →
    r st { st' with metadataStack := st'.metadataStack.erase p }

theorem Building.onMetadataStack {inner : Path → LoaderState Ast Code X → LoaderState Ast Code X → Prop}
    (h : Building F site r inner) {p : Path} {st : LoaderState Ast Code X} {c : Loader Ast Code X α}
    (hl : st.metadata.lookup p = none) (hp : p ∉ st.metadataStack)
    (hc : inner p { st with metadataStack := p :: st.metadataStack }
      (last c { st with metadataStack := p :: st.metadataStack })) :
    r st (last (onMetadataStack p c) st) := by
  have hleave := h.leave hl hp hc
  unfold last at hleave ⊢
  unfold Loader.onMetadataStack
  cases hr : c { st with metadataStack := p :: st.metadataStack } with
  | ok a st' => rw [hr] at hleave; exact hleave
  | error e st' => rw [hr] at hleave; exact hleave

/-- Metadata is taken from the memo or the cache, or built from a module's source and the metadata of what the module
imports. -/
theorem Building.buildMetadata {inner : Path → LoaderState Ast Code X → LoaderState Ast Code X → Prop}
    (h : Building F site r inner) (fuel : Nat) (p : Path) :
    Respects r (Loader.buildMetadata F site fuel p : Loader Ast Code X (ModuleMetadata Ast)) := by
  induction fuel generalizing p with
  | zero => exact h.refl
  | succ fuel ih =>
      have hparsed : Respects (inner p) (parsedMetadata F site (Loader.buildMetadata F site fuel) p :
          Loader Ast Code X (ModuleMetadata Ast)) := by
        have hexports : ∀ d, Respects r (do
            let metadata ← Loader.buildMetadata F site fuel d
            pure metadata.exports : Loader Ast Code X (List Name)) := fun d => (ih d).bind h.trans fun _ => h.refl
        unfold parsedMetadata
        refine Respects.bind_of_ok h.innerTrans (respects_ofExcept (fun st => h.inside (h.refl st)) _) ?_
        intro pr s s' hpr
        have hprepare : F.prepare site p = .ok pr := by
          cases hq : F.prepare site p with
          | ok a => rw [hq] at hpr; cases hpr; rfl
          | error e => rw [hq] at hpr; cases hpr
        have hassemble : Respects (inner p) (pr.assemble F.builtin fun d => do
            let metadata ← Loader.buildMetadata F site fuel d
            pure metadata.exports : Loader Ast Code X MetadataRecord) :=
          fun st => h.inside (respects_assemble h.refl h.trans hexports pr st)
        refine Respects.bind_of_ok (r := inner p) h.innerTrans hassemble ?_ s'
        intro record t t' hrecord
        obtain ⟨names, rfl⟩ := record_of_assemble hrecord
        exact h.parsed hprepare names _
      intro st
      cases hl : st.metadata.lookup p with
      | some metadata =>
          rewrite [last_of_ok (buildMetadata_memo hl)]
          exact h.refl st
      | none =>
          by_cases hp : p ∈ st.metadataStack
          · unfold last
            rewrite [buildMetadata_circular hl hp]
            exact h.refl st
          cases hu : F.usable site st p with
          | some entry =>
              have hkept := h.onMetadataStack (c := keep p { entry.metadata with parsed := none }) hl hp (h.cached hu)
              unfold last at hkept ⊢
              rw [buildMetadata_cached hl hp hu]
              exact hkept
          | none =>
              have hkept := h.onMetadataStack hl hp (hparsed _)
              unfold last at hkept ⊢
              rw [buildMetadata_parsed hl hp hu]
              exact hkept

/-- A relation between states that is carried along the steps of a load. -/
structure Carried (r : LoaderState Ast Code X → LoaderState Ast Code X → Prop) : Prop where
  refl : ∀ st, r st st
  trans : ∀ {a b c}, r a b → r b c → r a c
  vm : ∀ st vm, r st { st with vm := vm }

namespace Carried

theorem bind (h : Carried r) {c : Loader Ast Code X α} {k : α → Loader Ast Code X β} (hc : Respects r c)
    (hk : ∀ a, Respects r (k a)) : Respects r (c >>= k) :=
  Respects.bind h.trans hc hk

theorem pure (h : Carried r) (a : α) : Respects r (Pure.pure a : Loader Ast Code X α) := h.refl

theorem onVm (h : Carried r) (act : EStateM String X PUnit) : Respects r (onVm act : Loader Ast Code X PUnit) := by
  intro st
  unfold last Loader.onVm
  cases act st.vm with
  | ok a vm => exact h.vm st vm
  | error e vm => exact h.vm st vm

variable {sub : Path → Loader Ast Code X PUnit}

theorem resolveImportBindings (h : Carried r) (hsub : ∀ d, Respects r (sub d)) (p : Path) (specs : List ImportSpec) :
    Respects r (resolveImportBindings R sub p specs) := by
  induction specs with
  | nil => exact h.pure _
  | cons spec specs ih => exact h.bind (hsub _) fun _ => h.bind (h.onVm _) fun _ => ih

theorem buildExport (h : Carried r) (hsub : ∀ d, Respects r (sub d)) (p : Path) (record : MetadataRecord)
    (name : Name) : Respects r (buildExport R sub p record name) := by
  intro st
  by_cases hg : (R.hasGlobal st.vm p name || record.defs.contains name) = true
  · unfold last Loader.buildExport
    rw [if_pos hg]
    exact h.onVm _ st
  · unfold last Loader.buildExport
    rw [if_neg hg]
    cases record.exportFromSpecs.find? fun spec => spec.names.contains name with
    | none => exact h.refl st
    | some spec =>
        by_cases hs : (record.importSpecs.map ImportSpec.resolvedPath).contains spec.resolvedPath = true
        · simp only [if_pos hs]
          exact h.bind (h.pure _) (fun _ => h.onVm _) st
        · simp only [if_neg hs]
          exact h.bind (hsub _) (fun _ => h.onVm _) st

theorem buildExports (h : Carried r) (hsub : ∀ d, Respects r (sub d)) (p : Path) (record : MetadataRecord)
    (names : List Name) : Respects r (buildExports R sub p record names) := by
  induction names with
  | nil => exact h.pure _
  | cons name names ih => exact h.bind (h.buildExport hsub p record name) fun _ => ih

theorem rest (h : Carried r) (hsub : ∀ d, Respects r (sub d)) (p : Path) (code : Code)
    (metadata : ModuleMetadata Ast) (auto : Bool) :
    Respects r (do
      Loader.resolveImportBindings R sub p metadata.importSpecs
      Loader.onVm (R.execute p code auto metadata.externs)
      Loader.buildExports R sub p metadata.toMetadataRecord metadata.exports) :=
  h.bind (h.resolveImportBindings hsub p _) fun _ => h.bind (h.onVm _) fun _ => h.buildExports hsub p _ _

theorem loadModule (h : Carried r) (hmetadata : ∀ p, Respects r (buildMetadata F site (site.paths.length + 1) p))
    (hcompile : ∀ p metadata, Respects r (loadOrCompile F site p metadata))
    (hregister : ∀ p, Respects r (register p))
    (hstack : ∀ {p : Path} {c : Loader Ast Code X PUnit}, Respects r c → Respects r (onLoadingStack p c))
    (fuel : Nat) (p : Path) (auto : Bool) : Respects r (loadModule F site R fuel p auto) := by
  induction fuel generalizing p auto with
  | zero => exact h.refl
  | succ fuel ih =>
      intro st
      by_cases hm : p ∈ st.modules
      · unfold last Loader.loadModule
        rewrite [if_pos hm]
        exact h.refl st
      by_cases hl : p ∈ st.loadingStack
      · unfold last Loader.loadModule
        rewrite [if_neg hm, if_pos hl]
        exact h.refl st
      unfold last Loader.loadModule
      rw [if_neg hm, if_neg hl]
      refine hstack ?_ st
      exact h.bind (hmetadata p) fun _ => h.bind (hcompile p _) fun _ => h.bind (hregister p) fun _ =>
        h.rest (fun d => ih d false) p _ _ _

end Carried

theorem recordCompiled_modules (p : Path) (code : Code) (record : MetadataRecord)
    (st : LoaderState Ast Code X) : (recordCompiled F site p code record st).modules = st.modules := by
  unfold recordCompiled
  by_cases h : Front.sourceIsTheFile site p = true
  · rw [if_pos h]
  · rw [if_neg h]

theorem respects_loadOrCompile (hrefl : ∀ st, r st st)
    (hrecord : ∀ p code record st, r st (recordCompiled F site p code record st)) (p : Path)
    (metadata : ModuleMetadata Ast) : Respects r (loadOrCompile F site p metadata : Loader Ast Code X Code) := by
  intro st
  unfold last
  cases hu : F.usable site st p with
  | some entry =>
      rewrite [loadOrCompile_cached hu]
      exact hrefl st
  | none =>
      cases hp : metadata.parsed with
      | none =>
          rewrite [loadOrCompile_unparsed hu hp]
          exact hrefl st
      | some parsed =>
          cases hc : F.compile p parsed metadata.importNames with
          | error message =>
              rewrite [loadOrCompile_error hu hp hc]
              exact hrefl st
          | ok code =>
              rewrite [loadOrCompile_compiled hu hp hc]
              exact hrecord p code _ st

/-- The list of loaded modules only grows. -/
def Grows {α : Type} (c : Loader Ast Code X α) : Prop := ∀ st, st.modules <:+ (last c st).modules

theorem carried_modules : Carried fun st st' : LoaderState Ast Code X => st.modules <:+ st'.modules :=
  ⟨fun _ => List.suffix_rfl, List.IsSuffix.trans, fun _ _ => List.suffix_rfl⟩

theorem grows_onVm (act : EStateM String X PUnit) : Grows (onVm act : Loader Ast Code X PUnit) :=
  carried_modules.onVm act

theorem Grows.bind {c : Loader Ast Code X α} {k : α → Loader Ast Code X β} (hc : Grows c)
    (hk : ∀ a, Grows (k a)) : Grows (c >>= k) :=
  carried_modules.bind hc hk

theorem grows_loadOrCompile (p : Path) (metadata : ModuleMetadata Ast) :
    Grows (loadOrCompile F site p metadata : Loader Ast Code X Code) := by
  refine respects_loadOrCompile (r := fun st st' => st.modules <:+ st'.modules) (fun _ => List.suffix_rfl) ?_ p metadata
  intro q code record st
  rewrite [recordCompiled_modules]
  exact List.suffix_rfl

theorem grows_onLoadingStack {p : Path} {c : Loader Ast Code X α} (h : Grows c) :
    Grows (onLoadingStack p c) := by
  intro st
  have hc := h { st with loadingStack := p :: st.loadingStack }
  unfold last at hc ⊢
  unfold onLoadingStack
  cases hr : c { st with loadingStack := p :: st.loadingStack } with
  | ok a st' => rw [hr] at hc; exact hc
  | error e st' => rw [hr] at hc; exact hc

theorem building_modules : Building F site (fun st st' : LoaderState Ast Code X => st.modules <:+ st'.modules)
    fun _ st st' => st.modules <:+ st'.modules where
  refl _ := List.suffix_rfl
  trans := List.IsSuffix.trans
  innerTrans := List.IsSuffix.trans
  inside := id
  cached _ := List.suffix_rfl
  parsed _ _ _ := List.suffix_rfl
  leave _ _ h := h

theorem grows_buildMetadata (fuel : Nat) (p : Path) :
    Grows (buildMetadata F site fuel p : Loader Ast Code X (ModuleMetadata Ast)) :=
  building_modules.buildMetadata fuel p

theorem grows_loadModule (fuel : Nat) (p : Path) (auto : Bool) : Grows (loadModule F site R fuel p auto) :=
  carried_modules.loadModule (grows_buildMetadata _) grows_loadOrCompile (fun _ _ => List.suffix_cons _ _)
    grows_onLoadingStack fuel p auto

end Growth

end Loader

end Nodus.Loading
