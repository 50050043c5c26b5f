import Nodus.WarmLoad

/-! A load with a cache and a load without one, module by module. -/

namespace Nodus.Loading.Loader

open PosixPath Walks Paired

variable {Ast Code X : Type} {F : Front Ast Code} {site : Site Ast} {start : Store Code} {R : Runtime Code X}

/-- A cache entry can stand in for the module when the load begins. -/
def Cached (F : Front Ast Code) (site : Site Ast) (start : Store Code) (p : Path) : Prop :=
  ∃ entry, startEntry F site start p = some entry

/-- Every entry below the root that can be used when the load begins is what the files build to. -/
def StartSound (F : Front Ast Code) (site : Site Ast) (start : Store Code) : Prop :=
  ∀ p entry, Reaches (F.importsOf site) site.root p → startEntry F site start p = some entry →
    EntryOk F site (Cached F site start) p entry

/-- A module with a cache entry is not loaded after one that it imports and whose entry is lacking. -/
def Safe (F : Front Ast Code) (site : Site Ast) (start : Store Code) (loaded : List Path) (p : Path) : Prop :=
  Cached F site start p → ∀ q ∈ loaded, Reaches (Front.graphNext start.graph) p q →
    ¬ Lacking F site start q

/-- Every module was safe to load after the ones before it. -/
def SafeOrder (F : Front Ast Code) (site : Site Ast) (start : Store Code) (modules : List Path) : Prop :=
  ∀ p loaded, p :: loaded <:+ modules → Safe F site start loaded p

theorem SafeOrder.suffix {modules modules' : List Path} (h : SafeOrder F site start modules')
    (hs : modules <:+ modules') : SafeOrder F site start modules :=
  fun p loaded hp => h p loaded (hp.trans hs)

/-- A load with the store `start` and a load without one, at the same point. -/
structure Rel (F : Front Ast Code) (site : Site Ast) (start : Store Code)
    (st t : LoaderState Ast Code X) : Prop where
  modules : st.modules = t.modules
  loadingStack : st.loadingStack = t.loadingStack
  vm : st.vm = t.vm
  stack : st.metadataStack = []
  coldStack : t.metadataStack = []
  coldStore : t.store = none
  memo : MemoSound F site (Cached F site start) st.metadata
  coldMemo : MemoSound F site (fun _ => False) t.metadata
  drift : ∃ store, st.store = some store ∧ Drift start st.recompiled store
  recompiled : ∀ q ∈ st.recompiled, q ∈ st.modules
  /-- A fresh module is recompiled only on account of one whose entry was lacking. -/
  tracked : ∀ q ∈ st.recompiled, Fresh site start q →
    ∃ q₀ ∈ st.modules, Reaches (Front.graphNext start.graph) q q₀ ∧ Lacking F site start q₀

variable {st t : LoaderState Ast Code X} {p : Path}

theorem usable_cold (h : t.store = none) : F.usable site t p = none := by
  unfold Front.usable Front.cacheIsAuthoritative Front.canSkipReprocessing
  rw [h]
  simp

theorem Rel.usableSound (hs : StartSound F site start) (h : Rel F site start st t) :
    UsableSound F site (Cached F site start) st := by
  obtain ⟨store, hstore, hd⟩ := h.drift
  exact fun p entry hroot hu => hs p entry hroot (startEntry_of_usable hstore hd hu)

theorem eq_withMemo (h : st.metadataStack = []) : withMemo st st.metadata [] = st := by
  unfold withMemo
  rw [← h]

theorem Rel.withMemo (h : Rel F site start st t) {memo memo' : List (Path × ModuleMetadata Ast)}
    (hm : MemoSound F site (Cached F site start) memo) (hm' : MemoSound F site (fun _ => False) memo') :
    Rel F site start (withMemo st memo []) (Loader.withMemo t memo' []) :=
  { h with stack := rfl, coldStack := rfl, memo := hm, coldMemo := hm' }

theorem Rel.withVm (h : Rel F site start st t) (vm : X) :
    Rel F site start { st with vm := vm } { t with vm := vm } :=
  { h with vm := rfl }

theorem Rel.withLoadingStack (h : Rel F site start st t) (stack : List Path) :
    Rel F site start { st with loadingStack := stack } { t with loadingStack := stack } :=
  { h with loadingStack := rfl }

theorem buildMetadata_agree (hs : StartSound F site start) (h : Rel F site start st t)
    (hroot : Reaches (F.importsOf site) site.root p) :
    AgreeAt (fun mw mc st' t' => mw.toMetadataRecord = mc.toMetadataRecord ∧
        MemoOk F site (Cached F site start) p mw ∧ MemoOk F site (fun _ => False) p mc ∧
        Rel F site start st' t' ∧ st'.modules = st.modules)
      (fun st' t' => st'.vm = t'.vm)
      (buildMetadata F site (site.paths.length + 1) p) (buildMetadata F site (site.paths.length + 1) p) st t := by
  have hroom := room_le_length site.paths []
  have hcold : UsableSound F site (fun _ => False) t := by
    intro q entry _ hq
    rw [usable_cold h.coldStore] at hq
    exact nomatch hq
  have hw := buildMetadata_follows (h.usableSound hs) (site.paths.length + 1) [] hroot
    (fun a ha => by simp at ha) (by omega) h.memo
  have hc := buildMetadata_follows hcold (site.paths.length + 1) [] hroot
    (fun a ha => by simp at ha) (by omega) h.coldMemo
  rw [eq_withMemo h.stack] at hw
  rw [eq_withMemo h.coldStack] at hc
  refine (hw.agree hc).mono (fun mw mc st' t' _ _ hq => ?_) fun st' t' he => ?_
  · obtain ⟨record, _, ⟨hmw, hokw, memo, rfl, hm⟩, hmc, hokc, memo', rfl, hm'⟩ := hq
    exact ⟨hmw.trans hmc.symm, hokw, hokc, h.withMemo hm hm', rfl⟩
  · exact he.1.trans (h.vm.trans he.2.symm)

theorem recordCompiled_cases (F : Front Ast Code) (site : Site Ast) (p : Path) (code : Code)
    (record : MetadataRecord) (st : LoaderState Ast Code X) :
    ∃ store recompiled, recordCompiled F site p code record st =
        { st with store := store, recompiled := recompiled } ∧
      (recompiled = st.recompiled ∨ recompiled = p :: st.recompiled ∧ Front.sourceIsTheFile site p = true) ∧
      (st.store = none → store = none) := by
  unfold recordCompiled
  by_cases hsource : Front.sourceIsTheFile site p = true
  · rw [if_pos hsource]
    refine ⟨_, p :: st.recompiled, rfl, .inr ⟨rfl, hsource⟩, fun h => ?_⟩
    rw [h]
  · rw [if_neg hsource]
    exact ⟨st.store, st.recompiled, rfl, .inl rfl, id⟩

theorem Rel.register (h : Rel F site start st t) (p : Path) :
    Rel F site start { st with modules := p :: st.modules } { t with modules := p :: t.modules } :=
  { h with
    modules := congrArg (p :: ·) h.modules
    recompiled := fun q hq => List.mem_cons_of_mem _ (h.recompiled q hq)
    tracked := fun q hq hf => by
      obtain ⟨q₀, hq₀, hreach, hlack⟩ := h.tracked q hq hf
      exact ⟨q₀, List.mem_cons_of_mem _ hq₀, hreach, hlack⟩ }

/-- A fresh module without a usable entry leads to one whose entry was lacking when the load began. -/
theorem Rel.lacking_of_unusable (h : Rel F site start st t) (hp : p ∉ st.modules)
    (hsource : Front.sourceIsTheFile site p = true) (hfresh : Fresh site start p)
    (hu : F.usable site st p = none) :
    ∃ q₀, q₀ ∈ p :: st.modules ∧ Reaches (Front.graphNext start.graph) p q₀ ∧ Lacking F site start q₀ := by
  obtain ⟨store, hstore, hd⟩ := h.drift
  cases he : F.loadCachedBytecode site (some start) p with
  | none => exact ⟨p, List.mem_cons_self, Reaches.refl p, hfresh, he⟩
  | some entry =>
      have hentry := startEntry_eq_some.mpr ⟨hsource, hfresh, he⟩
      obtain ⟨q, hq, hreach⟩ := recompiled_of_unusable hstore hd (fun hr => hp (h.recompiled p hr)) hentry hu
      obtain ⟨q₀, hq₀, hreach₀, hlack⟩ := h.tracked q hq fun x hx => hfresh x (hreach.trans hx)
      exact ⟨q₀, List.mem_cons_of_mem _ hq₀, hreach.trans hreach₀, hlack⟩

section Compile

variable {mw mc : ModuleMetadata Ast}

theorem Rel.compiled (h : Rel F site start st t) (hp : p ∉ st.modules) (hu : F.usable site st p = none)
    (code code' : Code) (record record' : MetadataRecord) :
    Rel F site start
      { recordCompiled F site p code record st with modules := p :: st.modules }
      { recordCompiled F site p code' record' t with modules := p :: t.modules } := by
  obtain ⟨store, hstore, hd⟩ := h.drift
  obtain ⟨store', hstore', hd'⟩ := drift_recordCompiled F site p hstore hd code record
  obtain ⟨s₁, r₁, heq, hr, _⟩ := recordCompiled_cases F site p code record st
  obtain ⟨s₂, r₂, heq', _, hnone⟩ := recordCompiled_cases F site p code' record' t
  rw [heq] at hstore' hd'
  rw [heq, heq']
  have hreg := h.register p
  refine { hreg with
    coldStore := hnone h.coldStore
    drift := ⟨store', hstore', hd'⟩
    recompiled := fun q hq => ?_
    tracked := fun q hq hf => ?_ }
  · rcases hr with rfl | ⟨rfl, _⟩
    · exact hreg.recompiled q hq
    · rcases List.mem_cons.mp hq with rfl | hq
      · exact List.mem_cons_self
      · exact hreg.recompiled q hq
  · rcases hr with rfl | ⟨rfl, hsource⟩
    · exact hreg.tracked q hq hf
    · rcases List.mem_cons.mp hq with rfl | hq
      · exact h.lacking_of_unusable hp hsource hf hu
      · exact hreg.tracked q hq hf

theorem loadOrCompile_agree (hs : StartSound F site start) (h : Rel F site start st t)
    (hroot : Reaches (F.importsOf site) site.root p) (hp : p ∉ st.modules)
    (hw : MemoOk F site (Cached F site start) p mw) (hc : MemoOk F site (fun _ => False) p mc)
    (hsame : mw.toMetadataRecord = mc.toMetadataRecord) (hsafe : Safe F site start st.modules p) :
    AgreeAt (fun c c' st' t' => c = c' ∧ st'.modules = st.modules ∧ t'.modules = t.modules ∧
        Rel F site start { st' with modules := p :: st.modules } { t' with modules := p :: t.modules })
      (fun st' t' => st'.vm = t'.vm)
      (loadOrCompile F site p mw) (loadOrCompile F site p mc) st t := by
  have hcold : F.usable site t p = none := usable_cold h.coldStore
  cases hpc : mc.parsed with
  | none => exact (hc.cached hpc).elim
  | some parsed =>
  have hparsed := hc.parsed parsed hpc
  cases hu : F.usable site st p with
  | some entry =>
      have he := h.usableSound hs p entry hroot hu
      have hrec : entry.metadata = mc.toMetadataRecord :=
        Except.ok.inj (he.record.symm.trans hc.record)
      have hcomp : F.compile p parsed mc.importNames = .ok entry.code := by
        rw [← hrec]
        exact he.compiled parsed hparsed
      unfold AgreeAt
      rw [loadOrCompile_cached hu, loadOrCompile_compiled hcold hpc hcomp]
      obtain ⟨s₂, r₂, heq, _, hnone⟩ :=
        recordCompiled_cases F site p entry.code mc.toMetadataRecord t
      rw [heq]
      exact ⟨rfl, rfl, rfl, { h.register p with coldStore := hnone h.coldStore }⟩
  | none =>
      cases hpw : mw.parsed with
      | none =>
          obtain ⟨entry, hentry⟩ := hw.cached hpw
          obtain ⟨hsource, hfresh, hload⟩ := startEntry_eq_some.mp hentry
          obtain ⟨q₀, hq₀, hreach, hlack⟩ := h.lacking_of_unusable hp hsource hfresh hu
          rcases List.mem_cons.mp hq₀ with rfl | hq₀
          · rw [hlack.noEntry] at hload
            exact nomatch hload
          · exact absurd hlack (hsafe ⟨entry, hentry⟩ q₀ hq₀ hreach)
      | some parsedw =>
          have heq : parsedw = parsed := Except.ok.inj ((hw.parsed parsedw hpw).symm.trans hparsed)
          rw [heq] at hpw
          have hnames : mw.importNames = mc.importNames := congrArg MetadataRecord.importNames hsame
          unfold AgreeAt
          cases hcomp : F.compile p parsed mc.importNames with
          | error message =>
              rw [loadOrCompile_error hu hpw (hnames ▸ hcomp), loadOrCompile_error hcold hpc hcomp]
              exact ⟨rfl, h.vm⟩
          | ok code =>
              rw [loadOrCompile_compiled hu hpw (hnames ▸ hcomp), loadOrCompile_compiled hcold hpc hcomp]
              exact ⟨rfl, recordCompiled_modules _ _ _ _, recordCompiled_modules _ _ _ _,
                h.compiled hp hu code code _ _⟩

end Compile

/-- The two loads agree on a computation, and go on side by side. -/
abbrev Agrees {α : Type} (F : Front Ast Code) (site : Site Ast) (start : Store Code)
    (c d : Loader Ast Code X α) (st t : LoaderState Ast Code X) : Prop :=
  AgreeAt (fun a b st' t' => a = b ∧ Rel F site start st' t') (fun st' t' => st'.vm = t'.vm) c d st t

section Loops

variable {sub : Path → Loader Ast Code X PUnit}

theorem safeOrder_first {α β : Type} {c : Loader Ast Code X α} {k : α → Loader Ast Code X β}
    (hk : ∀ a, Grows (k a)) (h : SafeOrder F site start (last (c >>= k) t).modules) :
    SafeOrder F site start (last c t).modules := by
  cases hr : c t with
  | ok a t' =>
      rw [last_bind_ok hr] at h
      rw [last_of_ok hr]
      exact h.suffix (hk a t')
  | error e t' =>
      unfold last at h ⊢
      rw [bind_error hr] at h
      rw [hr]
      exact h

theorem onVm_agree (h : Rel F site start st t) (act : EStateM String X PUnit) :
    Agrees F site start (onVm act) (onVm act) st t := by
  unfold Agrees AgreeAt onVm
  rw [h.vm]
  cases act t.vm with
  | ok a vm => exact ⟨rfl, h.withVm vm⟩
  | error message vm => exact ⟨rfl, rfl⟩

/-- What the two loads do with every module below the root. -/
structure SubAgree (F : Front Ast Code) (site : Site Ast) (start : Store Code)
    (sub : Path → Loader Ast Code X PUnit) : Prop where
  grows : ∀ d, Grows (sub d)
  agree : ∀ d st t, Reaches (F.importsOf site) site.root d → Rel F site start st t →
    SafeOrder F site start (last (sub d) t).modules → Agrees F site start (sub d) (sub d) st t

theorem resolveImportBindings_agree (hsub : SubAgree F site start sub) {specs : List ImportSpec}
    (hroot : ∀ spec ∈ specs, Reaches (F.importsOf site) site.root spec.resolvedPath)
    (h : Rel F site start st t)
    (hsafe : SafeOrder F site start (last (resolveImportBindings R sub p specs) t).modules) :
    Agrees F site start (resolveImportBindings R sub p specs) (resolveImportBindings R sub p specs) st t := by
  induction specs generalizing st t with
  | nil => exact ⟨rfl, h⟩
  | cons spec specs ih =>
      have hrest := carried_modules.resolveImportBindings (R := R) hsub.grows p specs
      refine (hsub.agree _ st t (hroot spec List.mem_cons_self) h
        (safeOrder_first (fun _ => (grows_onVm _).bind fun _ => hrest) hsafe)).bind fun _ _ st₁ t₁ _ ht₁ h₁ => ?_
      refine (onVm_agree h₁.2 _).bind fun _ _ st₂ t₂ _ ht₂ h₂ => ?_
      refine ih (fun s hs => hroot s (List.mem_cons_of_mem _ hs)) h₂.2 ?_
      have hlast : last (resolveImportBindings R sub p (spec :: specs)) t =
          last (resolveImportBindings R sub p specs) t₂ := by
        rw [resolveImportBindings, last_bind_ok ht₁, last_bind_ok ht₂]
      rw [← hlast]
      exact hsafe

section Export

variable {record : MetadataRecord} {name : Name}

theorem buildExport_own (hg : (R.hasGlobal st.vm p name || record.defs.contains name) = true) :
    buildExport R sub p record name st = onVm (R.bindExport p name none) st := by
  rw [buildExport, if_pos hg]

theorem buildExport_absent (hg : (R.hasGlobal st.vm p name || record.defs.contains name) ≠ true)
    (hf : (record.exportFromSpecs.find? fun spec => spec.names.contains name) = none) :
    buildExport R sub p record name st = .ok () st := by
  rw [buildExport, if_neg hg, hf]

theorem buildExport_imported {spec : ExportFromSpec}
    (hg : (R.hasGlobal st.vm p name || record.defs.contains name) ≠ true)
    (hf : (record.exportFromSpecs.find? fun spec => spec.names.contains name) = some spec)
    (hs : (record.importSpecs.map ImportSpec.resolvedPath).contains spec.resolvedPath = true) :
    buildExport R sub p record name st = onVm (R.bindExport p name (some spec.resolvedPath)) st := by
  rw [buildExport, if_neg hg, hf]
  simp only [if_pos hs]
  rfl

theorem buildExport_loaded {spec : ExportFromSpec}
    (hg : (R.hasGlobal st.vm p name || record.defs.contains name) ≠ true)
    (hf : (record.exportFromSpecs.find? fun spec => spec.names.contains name) = some spec)
    (hs : (record.importSpecs.map ImportSpec.resolvedPath).contains spec.resolvedPath ≠ true) :
    buildExport R sub p record name st =
      (sub spec.resolvedPath >>= fun _ => onVm (R.bindExport p name (some spec.resolvedPath))) st := by
  rw [buildExport, if_neg hg, hf]
  simp only [if_neg hs]

theorem buildExport_agree (hsub : SubAgree F site start sub)
    (hroot : ∀ spec ∈ record.exportFromSpecs, Reaches (F.importsOf site) site.root spec.resolvedPath)
    (h : Rel F site start st t)
    (hsafe : SafeOrder F site start (last (buildExport R sub p record name) t).modules) :
    Agrees F site start (buildExport R sub p record name) (buildExport R sub p record name) st t := by
  unfold Agrees AgreeAt
  by_cases hg : (R.hasGlobal t.vm p name || record.defs.contains name) = true
  · have hg' : (R.hasGlobal st.vm p name || record.defs.contains name) = true := h.vm ▸ hg
    rw [buildExport_own hg, buildExport_own hg']
    exact onVm_agree h _
  have hg' : (R.hasGlobal st.vm p name || record.defs.contains name) ≠ true := h.vm ▸ hg
  cases hf : record.exportFromSpecs.find? fun spec => spec.names.contains name with
  | none =>
      rw [buildExport_absent hg hf, buildExport_absent hg' hf]
      exact ⟨rfl, h⟩
  | some spec =>
      by_cases hs : (record.importSpecs.map ImportSpec.resolvedPath).contains spec.resolvedPath = true
      · rw [buildExport_imported hg hf hs, buildExport_imported hg' hf hs]
        exact onVm_agree h _
      · unfold last at hsafe
        rw [buildExport_loaded hg hf hs] at hsafe
        rw [buildExport_loaded hg hf hs, buildExport_loaded hg' hf hs]
        have hspec := hroot spec (List.mem_of_find?_eq_some hf)
        exact (hsub.agree _ st t hspec h (safeOrder_first (fun _ => grows_onVm _) hsafe)).bind
          fun _ _ st₁ t₁ _ _ h₁ => onVm_agree h₁.2 _

end Export

theorem buildExports_agree (hsub : SubAgree F site start sub) {record : MetadataRecord} {names : List Name}
    (hroot : ∀ spec ∈ record.exportFromSpecs, Reaches (F.importsOf site) site.root spec.resolvedPath)
    (h : Rel F site start st t)
    (hsafe : SafeOrder F site start (last (buildExports R sub p record names) t).modules) :
    Agrees F site start (buildExports R sub p record names) (buildExports R sub p record names) st t := by
  induction names generalizing st t with
  | nil => exact ⟨rfl, h⟩
  | cons name names ih =>
      have hrest := carried_modules.buildExports (R := R) hsub.grows p record names
      refine (buildExport_agree hsub hroot h (safeOrder_first (fun _ => hrest) hsafe)).bind
        fun _ _ st₁ t₁ _ ht₁ h₁ => ih h₁.2 ?_
      rw [buildExports, last_bind_ok ht₁] at hsafe
      exact hsafe

theorem register_apply (p : Path) (st : LoaderState Ast Code X) :
    register p st = .ok () { st with modules := p :: st.modules } := rfl

theorem MemoOk.reaches {C : Path → Prop} {metadata : ModuleMetadata Ast} (h : MemoOk F site C p metadata)
    (hroot : Reaches (F.importsOf site) site.root p) :
    (∀ spec ∈ metadata.importSpecs, Reaches (F.importsOf site) site.root spec.resolvedPath) ∧
      ∀ spec ∈ metadata.exportFromSpecs, Reaches (F.importsOf site) site.root spec.resolvedPath := by
  obtain ⟨pr, names, _, hrec, _, hdeps⟩ := Front.localRecord_eq_ok h.record
  rw [hrec]
  refine ⟨fun spec hs => hroot.trans (Reaches.edge ?_), fun spec hs => hroot.trans (Reaches.edge ?_)⟩
  · rw [hdeps]
    exact List.mem_append_left _ (List.mem_map_of_mem hs)
  · rw [hdeps]
    exact List.mem_append_right _ (List.mem_map_of_mem hs)

theorem safe_of_safeOrder (hs : StartSound F site start) (hsub : ∀ d, Grows (sub d))
    {mc : ModuleMetadata Ast} {auto : Bool} (hcold : t.store = none)
    (hroot : Reaches (F.importsOf site) site.root p) (hc : MemoOk F site (fun _ => False) p mc)
    (hsafe : SafeOrder F site start (last (loadOrCompile F site p mc >>= fun code => register p >>= fun _ =>
      resolveImportBindings R sub p mc.importSpecs >>= fun _ =>
      onVm (R.execute p code auto mc.externs) >>= fun _ =>
      buildExports R sub p mc.toMetadataRecord mc.exports) t).modules) :
    Safe F site start t.modules p := by
  intro hcached
  obtain ⟨entry, hentry⟩ := hcached
  have he := hs p entry hroot hentry
  cases hpc : mc.parsed with
  | none => exact (hc.cached hpc).elim
  | some parsed =>
      have hrec : entry.metadata = mc.toMetadataRecord := Except.ok.inj (he.record.symm.trans hc.record)
      have hcomp : F.compile p parsed mc.importNames = .ok entry.code := by
        rw [← hrec]
        exact he.compiled parsed (hc.parsed parsed hpc)
      rw [last_bind_ok (loadOrCompile_compiled (usable_cold hcold) hpc hcomp),
        last_bind_ok (register_apply p _)] at hsafe
      have hgrow := carried_modules.rest (R := R) hsub p entry.code mc auto
        { recordCompiled F site p entry.code mc.toMetadataRecord t with
          modules := p :: (recordCompiled F site p entry.code mc.toMetadataRecord t).modules }
      rw [recordCompiled_modules] at hgrow
      rw [recordCompiled_modules] at hsafe
      exact hsafe p t.modules hgrow ⟨entry, hentry⟩

theorem loadNew_agree (hs : StartSound F site start) (hsub : SubAgree F site start sub) {auto : Bool}
    (hroot : Reaches (F.importsOf site) site.root p) (h : Rel F site start st t) (hp : p ∉ st.modules)
    (hsafe : SafeOrder F site start (last (loadNew F site R sub p auto) t).modules) :
    Agrees F site start (loadNew F site R sub p auto) (loadNew F site R sub p auto) st t := by
  unfold loadNew at hsafe ⊢
  refine (buildMetadata_agree hs h hroot).bind fun mw mc st₁ t₁ _ ht₁ h₁ => ?_
  obtain ⟨hsame, hw, hc, h₁, hmod⟩ := h₁
  rw [last_bind_ok ht₁] at hsafe
  rw [hsame]
  have hnext : Safe F site start st₁.modules p := by
    rw [h₁.modules]
    exact safe_of_safeOrder hs hsub.grows h₁.coldStore hroot hc hsafe
  have hp₁ : p ∉ st₁.modules := by
    rw [hmod]
    exact hp
  refine (loadOrCompile_agree hs h₁ hroot hp₁ hw hc hsame hnext).bind fun code _ st₂ t₂ _ ht₂ h₂ => ?_
  obtain ⟨rfl, hm, hm', h₂⟩ := h₂
  rw [← hm, ← hm'] at h₂
  rw [last_bind_ok ht₂, last_bind_ok (register_apply p t₂)] at hsafe
  have hreg : AgreeAt (fun _ _ st' t' => st' = { st₂ with modules := p :: st₂.modules } ∧
      t' = { t₂ with modules := p :: t₂.modules }) (fun st' t' => st'.vm = t'.vm)
      (register p : Loader Ast Code X PUnit) (register p) st₂ t₂ := ⟨rfl, rfl⟩
  refine hreg.bind fun _ _ st₃ t₃ _ _ h₃ => ?_
  obtain ⟨rfl, rfl⟩ := h₃
  obtain ⟨himports, hreexports⟩ := hc.reaches hroot
  have hrest := carried_modules.buildExports (R := R) hsub.grows p mc.toMetadataRecord mc.exports
  refine (resolveImportBindings_agree hsub himports h₂
    (safeOrder_first (fun _ => (grows_onVm _).bind fun _ => hrest) hsafe)).bind fun _ _ st₄ t₄ _ ht₄ h₄ => ?_
  rw [last_bind_ok ht₄] at hsafe
  refine (onVm_agree h₄.2 _).bind fun _ _ st₅ t₅ _ ht₅ h₅ => ?_
  rw [last_bind_ok ht₅] at hsafe
  exact buildExports_agree hsub hreexports h₅.2 hsafe

end Loops

theorem onLoadingStack_agree {α : Type} {c d : Loader Ast Code X α}
    (h : Agrees F site start c d { st with loadingStack := p :: st.loadingStack }
      { t with loadingStack := p :: t.loadingStack }) :
    Agrees F site start (onLoadingStack p c) (onLoadingStack p d) st t := by
  unfold Agrees AgreeAt onLoadingStack at *
  cases hc : c { st with loadingStack := p :: st.loadingStack } with
  | ok a st' =>
      cases hd : d { t with loadingStack := p :: t.loadingStack } with
      | ok b t' =>
          rw [hc, hd] at h
          refine ⟨h.1, ?_⟩
          rw [h.2.loadingStack]
          exact h.2.withLoadingStack _
      | error e t' => rw [hc, hd] at h; exact h.elim
  | error e st' =>
      cases hd : d { t with loadingStack := p :: t.loadingStack } with
      | ok b t' => rw [hc, hd] at h; exact h.elim
      | error e' t' => rw [hc, hd] at h; exact h

theorem last_onLoadingStack {α : Type} (c : Loader Ast Code X α) :
    (last (onLoadingStack p c) t).modules = (last c { t with loadingStack := p :: t.loadingStack }).modules := by
  unfold last onLoadingStack
  cases c { t with loadingStack := p :: t.loadingStack } with
  | ok a t' => rfl
  | error e t' => rfl

section Modules

variable {fuel : Nat} {auto : Bool}

theorem loadModule_loaded (h : p ∈ st.modules) : loadModule F site R (fuel + 1) p auto st = .ok () st := by
  simp only [loadModule, h, if_true]

theorem loadModule_circular (h : p ∉ st.modules) (hl : p ∈ st.loadingStack) :
    loadModule F site R (fuel + 1) p auto st = .error (.circularImport (cycleOf st.loadingStack p)) st := by
  simp only [loadModule, h, hl, if_true, if_false]

theorem loadModule_new (h : p ∉ st.modules) (hl : p ∉ st.loadingStack) :
    loadModule F site R (fuel + 1) p auto st =
      onLoadingStack p (loadNew F site R (fun d => loadModule F site R fuel d false) p auto) st := by
  simp only [loadModule, h, hl, if_false]

theorem loadModule_agree (hs : StartSound F site start) (hroot : Reaches (F.importsOf site) site.root p)
    (h : Rel F site start st t)
    (hsafe : SafeOrder F site start (last (loadModule F site R fuel p auto) t).modules) :
    Agrees F site start (loadModule F site R fuel p auto) (loadModule F site R fuel p auto) st t := by
  induction fuel generalizing p auto st t with
  | zero => exact ⟨rfl, h.vm⟩
  | succ fuel ih =>
      unfold Agrees AgreeAt
      by_cases hm : p ∈ t.modules
      · have hm' : p ∈ st.modules := h.modules ▸ hm
        rw [loadModule_loaded hm, loadModule_loaded hm']
        exact ⟨rfl, h⟩
      have hm' : p ∉ st.modules := h.modules ▸ hm
      by_cases hl : p ∈ t.loadingStack
      · have hl' : p ∈ st.loadingStack := h.loadingStack ▸ hl
        rw [loadModule_circular hm hl, loadModule_circular hm' hl', h.loadingStack]
        exact ⟨rfl, h.vm⟩
      have hl' : p ∉ st.loadingStack := h.loadingStack ▸ hl
      have hsub : SubAgree F site start (fun d => loadModule F site R fuel d false) :=
        ⟨fun d => grows_loadModule fuel d false, fun d st t hd hrel hsafe => ih hd hrel hsafe⟩
      have hlast : (last (loadModule F site R (fuel + 1) p auto) t).modules =
          (last (loadNew F site R (fun d => loadModule F site R fuel d false) p auto)
            { t with loadingStack := p :: t.loadingStack }).modules := by
        rw [← last_onLoadingStack]
        unfold last
        rw [loadModule_new hm hl]
      rw [loadModule_new hm hl, loadModule_new hm' hl']
      rw [hlast] at hsafe
      refine onLoadingStack_agree (loadNew_agree hs hsub hroot ?_ hm' hsafe)
      rw [h.loadingStack]
      exact h.withLoadingStack _

end Modules

end Nodus.Loading.Loader
