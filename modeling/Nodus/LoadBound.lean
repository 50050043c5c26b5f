import Nodus.Lockstep

/-! The recursion bounds of the model are never reached: a load ends in one of the source's own errors or
returns. -/

namespace Nodus.Loading.Loader

open PosixPath Walks Paired

variable {Ast Code X : Type} {F : Front Ast Code} {site : Site Ast} {R : Runtime Code X}
  {st : LoaderState Ast Code X} {p : Path} {fuel : Nat} {auto : Bool}

/-- Metadata is kept of modules of the site only. -/
def MemoPaths (site : Site Ast) (st : LoaderState Ast Code X) : Prop :=
  ∀ q ∈ st.metadata.map Prod.fst, q ∈ site.paths

/-- Keeps to modules of the site, or fails with one of the source's errors. -/
abbrev Real {α : Type} (site : Site Ast) (c : Loader Ast Code X α) (st : LoaderState Ast Code X) : Prop :=
  Sat (fun _ st' => MemoPaths site st') (fun e _ => e ≠ .bound) c st

theorem bind_eq_error {α β : Type} {x : Except LoadError α} {k : α → Except LoadError β} {e : LoadError}
    (h : x >>= k = .error e) : x = .error e ∨ ∃ a, k a = .error e := by
  cases x with
  | ok a => exact .inr ⟨a, h⟩
  | error e' => exact .inl (by cases h; rfl)

theorem mapM_error {α β : Type} {f : α → Except LoadError β} {l : List α} {e : LoadError}
    (h : l.mapM f = .error e) : ∃ a, f a = .error e := by
  induction l with
  | nil => exact nomatch h
  | cons a l ih =>
      rw [List.mapM_cons] at h
      obtain h | ⟨_, h⟩ := bind_eq_error h
      · exact ⟨a, h⟩
      · obtain h | ⟨_, h⟩ := bind_eq_error h
        · exact ih h
        · exact nomatch h

theorem resolveImport_error {importPath : Path} {e : LoadError}
    (h : F.resolveImport site importPath p = .error e) : e ≠ .bound := by
  unfold Front.resolveImport at h
  split at h
  · exact nomatch h
  · cases h
    exact fun h => nomatch h

theorem map_error {α β : Type} {f : α → β} {x : Except LoadError α} {e : LoadError}
    (h : x.map f = .error e) : x = .error e := by
  cases x with
  | ok a => exact nomatch h
  | error e' => cases h; rfl

theorem prepare_error {e : LoadError} (h : F.prepare site p = .error e) : e ≠ .bound := by
  unfold Front.prepare at h
  obtain h | ⟨_, h⟩ := bind_eq_error h
  · unfold Front.parseModule at h
    split at h
    · cases h
      exact fun h => nomatch h
    · split at h
      · exact nomatch h
      · cases h
        exact fun h => nomatch h
  obtain h | ⟨_, h⟩ := bind_eq_error h
  · obtain ⟨_, h⟩ := mapM_error h
    exact resolveImport_error (map_error h)
  obtain h | ⟨_, h⟩ := bind_eq_error h
  · obtain ⟨_, h⟩ := mapM_error h
    exact resolveImport_error (map_error h)
  · exact nomatch h

theorem bound_error {spec : ImportSpec} {exports : List Name} {e : LoadError}
    (h : spec.bound F.builtin exports = .error e) : e ≠ .bound := by
  unfold ImportSpec.bound at h
  simp only at h
  split at h
  · split at h
    · cases h
      exact fun h => nomatch h
    · split at h
      · cases h
        exact fun h => nomatch h
      · exact nomatch h
  · split at h
    · exact nomatch h
    · exact nomatch h

theorem check_error {spec : ExportFromSpec} {exports : List Name} {e : LoadError}
    (h : spec.check exports = .error e) : e ≠ .bound := by
  unfold ExportFromSpec.check at h
  simp only at h
  split at h
  · cases h
    exact fun h => nomatch h
  · exact nomatch h

section Metadata

variable {f : Path → Loader Ast Code X (List Name)} {I : LoaderState Ast Code X → Prop}

/-- A computation keeps `I`, or fails with one of the source's errors. -/
abbrev Keeps {α : Type} (I : LoaderState Ast Code X → Prop) (c : Loader Ast Code X α)
    (st : LoaderState Ast Code X) : Prop :=
  Sat (fun _ st' => I st') (fun e _ => e ≠ .bound) c st

theorem bindImports_keeps {specs : List ImportSpec} (acc : List Name)
    (h : ∀ spec ∈ specs, ∀ st, I st → Keeps I (f spec.resolvedPath) st) (hi : I st) :
    Keeps I (bindImports F.builtin f specs acc) st := by
  induction specs generalizing acc st with
  | nil => exact hi
  | cons spec specs ih =>
      refine (h spec List.mem_cons_self st hi).bind fun exports st₁ _ h₁ => ?_
      have hbound : Keeps I (MonadExcept.ofExcept (spec.bound F.builtin exports) :
          Loader Ast Code X (List Name)) st₁ := sat_ofExcept (fun _ _ => h₁) fun _ he => bound_error he
      exact hbound.bind fun names st₂ _ h₂ => ih _ (fun s hs => h s (List.mem_cons_of_mem _ hs)) h₂

theorem checkReexports_keeps {specs : List ExportFromSpec}
    (h : ∀ spec ∈ specs, ∀ st, I st → Keeps I (f spec.resolvedPath) st) (hi : I st) :
    Keeps I (checkReexports f specs) st := by
  induction specs generalizing st with
  | nil => exact hi
  | cons spec specs ih =>
      refine (h spec List.mem_cons_self st hi).bind fun exports st₁ _ h₁ => ?_
      have hcheck : Keeps I (MonadExcept.ofExcept (spec.check exports) : Loader Ast Code X PUnit) st₁ :=
        sat_ofExcept (fun _ _ => h₁) fun _ he => check_error he
      exact hcheck.bind fun _ st₂ _ h₂ => ih (fun s hs => h s (List.mem_cons_of_mem _ hs)) h₂

theorem assemble_keeps {pr : Prepared Ast} (h : ∀ d, ∀ st, I st → Keeps I (f d) st) (hi : I st) :
    Keeps I (pr.assemble F.builtin f) st := by
  refine (bindImports_keeps (F := F) [] (fun spec _ => h _) hi).bind fun names st₁ _ h₁ => ?_
  exact (checkReexports_keeps (fun spec _ => h _) h₁).bind fun _ st₂ _ h₂ => h₂

end Metadata

theorem mem_paths_of_usable {entry : CacheEntry Code} (h : F.usable site st p = some entry) :
    p ∈ site.paths := by
  unfold Front.usable at h
  split at h
  · unfold Front.loadCachedBytecode at h
    simp only [Option.bind_eq_bind, Option.bind_eq_some_iff] at h
    obtain ⟨_, _, file, hfile, _⟩ := h
    exact List.mem_cons_of_mem _ (Front.mem_keys_of_lookup hfile)
  · exact nomatch h

theorem buildMetadata_keeps (hroom : room site.paths st.metadataStack < fuel) (hm : MemoPaths site st) :
    Keeps (fun st' => st'.metadataStack = st.metadataStack ∧ MemoPaths site st' ∧ p ∈ site.paths)
      (buildMetadata F site fuel p : Loader Ast Code X (ModuleMetadata Ast)) st := by
  induction fuel generalizing p st with
  | zero => omega
  | succ fuel ih =>
      unfold Keeps Sat
      cases hl : st.metadata.lookup p with
      | some metadata =>
          rw [buildMetadata_memo hl]
          exact ⟨rfl, hm, hm p (Front.mem_keys_of_lookup hl)⟩
      | none =>
          by_cases hp : p ∈ st.metadataStack
          · rw [buildMetadata_circular hl hp]
            exact fun h => nomatch h
          cases hu : F.usable site st p with
          | some entry =>
              rw [buildMetadata_cached hl hp hu]
              have hpath := mem_paths_of_usable hu
              exact ⟨List.erase_cons_head _ _, List.forall_mem_cons.mpr ⟨hpath, hm⟩, hpath⟩
          | none =>
              rw [buildMetadata_parsed hl hp hu]
              have hparsed : Keeps (fun st' => st'.metadataStack = p :: st.metadataStack ∧
                    MemoPaths site st' ∧ p ∈ site.paths)
                  (parsedMetadata F site (buildMetadata F site fuel) p :
                    Loader Ast Code X (ModuleMetadata Ast))
                  { st with metadataStack := p :: st.metadataStack } := by
                have hprepare : Sat (fun pr st' => F.prepare site p = .ok pr ∧
                      st'.metadataStack = p :: st.metadataStack ∧ MemoPaths site st') (fun e _ => e ≠ .bound)
                    (MonadExcept.ofExcept (F.prepare site p) : Loader Ast Code X (Prepared Ast))
                    { st with metadataStack := p :: st.metadataStack } :=
                  sat_ofExcept (fun pr hpr => ⟨hpr, rfl, hm⟩) fun _ he => prepare_error he
                refine hprepare.bind fun pr st₁ _ h₁ => ?_
                have hpath := Front.mem_paths_of_parsed (Front.prepare_parsed h₁.1)
                have hlt := room_cons_lt hpath hp
                refine (assemble_keeps (F := F)
                  (I := fun s => s.metadataStack = p :: st.metadataStack ∧ MemoPaths site s)
                  (fun d st₂ h₂ => ?_) h₁.2).bind fun record st₃ _ h₃ => ?_
                · refine (ih (p := d) ?_ h₂.2).bind fun metadata st₃ _ h₃ => ⟨h₃.1.trans h₂.1, h₃.2.1⟩
                  rw [h₂.1]
                  omega
                · exact ⟨h₃.1, List.forall_mem_cons.mpr ⟨hpath, h₃.2⟩, hpath⟩
              unfold Keeps Sat at hparsed
              unfold onMetadataStack
              cases hc : parsedMetadata F site (buildMetadata F site fuel) p
                  { st with metadataStack := p :: st.metadataStack } with
              | ok metadata st' =>
                  rw [hc] at hparsed
                  obtain ⟨hstack, hm', hpath⟩ := hparsed
                  refine ⟨?_, hm', hpath⟩
                  simp only [hstack]
                  exact List.erase_cons_head _ _
              | error e st' => rw [hc] at hparsed; exact hparsed

theorem real_onVm (act : EStateM String X PUnit) (hm : MemoPaths site st) : Real site (onVm act) st := by
  unfold Real Sat onVm
  cases act st.vm with
  | ok a vm => exact hm
  | error message vm => exact fun h => nomatch h

theorem real_loadOrCompile (metadata : ModuleMetadata Ast) (hm : MemoPaths site st) :
    Real site (loadOrCompile F site p metadata) st := by
  unfold Real Sat
  cases hu : F.usable site st p with
  | some entry => rw [loadOrCompile_cached hu]; exact hm
  | none =>
      cases hp : metadata.parsed with
      | none => rw [loadOrCompile_unparsed hu hp]; exact fun h => nomatch h
      | some parsed =>
          cases hc : F.compile p parsed metadata.importNames with
          | error message => rw [loadOrCompile_error hu hp hc]; exact fun h => nomatch h
          | ok code =>
              rw [loadOrCompile_compiled hu hp hc]
              obtain ⟨_, _, heq, _, _⟩ := recordCompiled_cases F site p code metadata.toMetadataRecord st
              rw [heq]
              exact hm

section Modules

variable {sub : Path → Loader Ast Code X PUnit} {n : Nat}

/-- Loading a module works as long as fewer than `n` modules are left. -/
structure SubReal (site : Site Ast) (sub : Path → Loader Ast Code X PUnit) (n : Nat) : Prop where
  grows : ∀ d, Grows (sub d)
  real : ∀ d st, room site.paths st.modules < n → MemoPaths site st → Real site (sub d) st

theorem room_of_grows {α : Type} {c : Loader Ast Code X α} {a : α} {st' : LoaderState Ast Code X}
    (hg : Grows c) (hc : c st = .ok a st') (h : room site.paths st.modules < n) :
    room site.paths st'.modules < n := by
  have hsuffix := hg st
  rw [last_of_ok hc] at hsuffix
  exact Nat.lt_of_le_of_lt (room_mono _ fun x hx => hsuffix.subset hx) h

theorem resolveImportBindings_real (hsub : SubReal site sub n) (specs : List ImportSpec)
    (h : room site.paths st.modules < n) (hm : MemoPaths site st) :
    Real site (resolveImportBindings R sub p specs) st := by
  induction specs generalizing st with
  | nil => exact hm
  | cons spec specs ih =>
      refine (hsub.real _ st h hm).bind fun _ st₁ h₁ hm₁ => (real_onVm _ hm₁).bind fun _ st₂ h₂ hm₂ => ?_
      exact ih (room_of_grows (grows_onVm _) h₂ (room_of_grows (hsub.grows _) h₁ h)) hm₂

theorem buildExport_real (hsub : SubReal site sub n) (record : MetadataRecord) (name : Name)
    (h : room site.paths st.modules < n) (hm : MemoPaths site st) :
    Real site (buildExport R sub p record name) st := by
  unfold Real Sat
  by_cases hg : (R.hasGlobal st.vm p name || record.defs.contains name) = true
  · rw [buildExport_own hg]
    exact real_onVm _ hm
  cases hf : record.exportFromSpecs.find? fun spec => spec.names.contains name with
  | none => rw [buildExport_absent hg hf]; exact hm
  | some spec =>
      by_cases hs : (record.importSpecs.map ImportSpec.resolvedPath).contains spec.resolvedPath = true
      · rw [buildExport_imported hg hf hs]
        exact real_onVm _ hm
      · rw [buildExport_loaded hg hf hs]
        exact (hsub.real _ st h hm).bind fun _ st₁ _ hm₁ => real_onVm _ hm₁

theorem buildExports_real (hsub : SubReal site sub n) (record : MetadataRecord) (names : List Name)
    (h : room site.paths st.modules < n) (hm : MemoPaths site st) :
    Real site (buildExports R sub p record names) st := by
  induction names generalizing st with
  | nil => exact hm
  | cons name names ih =>
      refine (buildExport_real hsub record name h hm).bind fun _ st₁ h₁ hm₁ => ih ?_ hm₁
      exact room_of_grows (carried_modules.buildExport hsub.grows p record name) h₁ h

theorem loadNew_real (hsub : SubReal site sub n) (h : room site.paths st.modules < n + 1)
    (hp : p ∉ st.modules) (hm : MemoPaths site st) : Real site (loadNew F site R sub p auto) st := by
  have hroom := room_le_length site.paths st.metadataStack
  refine (buildMetadata_keeps (by omega) hm).bind fun metadata st₁ h₁ hm₁ => ?_
  refine (real_loadOrCompile metadata hm₁.2.1).bind fun code st₂ h₂ hm₂ => ?_
  have hreg : Sat (fun _ st' => st' = { st₂ with modules := p :: st₂.modules }) (fun e _ => e ≠ LoadError.bound)
      (register p : Loader Ast Code X PUnit) st₂ := rfl
  refine hreg.bind fun _ st₃ _ h₃ => ?_
  have hlt : room site.paths st₃.modules < n := by
    have hgrown : st.modules <:+ st₂.modules := by
      have hg₁ : st.modules <:+ (last (buildMetadata F site (site.paths.length + 1) p) st).modules :=
        grows_buildMetadata _ _ _
      have hg₂ : st₁.modules <:+ (last (loadOrCompile F site p metadata) st₁).modules :=
        grows_loadOrCompile _ _ _
      rw [last_of_ok h₁] at hg₁
      rw [last_of_ok h₂] at hg₂
      exact hg₁.trans hg₂
    have hdrop := room_cons_lt hm₁.2.2 hp
    have hle : room site.paths st₃.modules ≤ room site.paths (p :: st.modules) := by
      rw [h₃]
      refine room_mono _ fun x hx => ?_
      rcases List.mem_cons.mp hx with rfl | hx
      · exact List.mem_cons_self
      · exact List.mem_cons_of_mem _ (hgrown.subset hx)
    omega
  have hm₃ : MemoPaths site st₃ := by
    rw [h₃]
    exact hm₂
  refine (resolveImportBindings_real hsub _ hlt hm₃).bind fun _ st₄ h₄ hm₄ => ?_
  have hlt₄ := room_of_grows (carried_modules.resolveImportBindings hsub.grows _ _) h₄ hlt
  refine (real_onVm _ hm₄).bind fun _ st₅ h₅ hm₅ => ?_
  exact buildExports_real hsub _ _ (room_of_grows (grows_onVm _) h₅ hlt₄) hm₅

theorem loadModule_real (h : room site.paths st.modules < fuel) (hm : MemoPaths site st) :
    Real site (loadModule F site R fuel p auto) st := by
  induction fuel generalizing p auto st with
  | zero => omega
  | succ fuel ih =>
      have hsub : SubReal site (fun d => loadModule F site R fuel d false) fuel :=
        ⟨fun d => grows_loadModule fuel d false, fun d st hd hm => ih hd hm⟩
      unfold Real Sat
      by_cases hp : p ∈ st.modules
      · rw [loadModule_loaded hp]
        exact hm
      by_cases hl : p ∈ st.loadingStack
      · rw [loadModule_circular hp hl]
        exact fun h => nomatch h
      rw [loadModule_new hp hl]
      have hnew : Real site (loadNew F site R (fun d => loadModule F site R fuel d false) p auto)
          { st with loadingStack := p :: st.loadingStack } := loadNew_real hsub h hp hm
      unfold Real Sat at hnew
      unfold onLoadingStack
      cases hc : loadNew F site R (fun d => loadModule F site R fuel d false) p auto
          { st with loadingStack := p :: st.loadingStack } with
      | ok a st' => rw [hc] at hnew; exact hnew
      | error e st' => rw [hc] at hnew; exact hnew

theorem load_ne_bound (store : Option (Store Code)) (st : LoaderState Ast Code X) :
    load F site R store ≠ .error .bound st := by
  intro h
  have hroom := room_le_length site.paths []
  have hreal : Real site (loadModule F site R (site.paths.length + 1) site.root site.autoRunMain)
      { store := store, vm := R.start } := loadModule_real (Nat.lt_succ_of_le hroom) fun q hq => nomatch hq
  unfold load at h
  unfold Real Sat at hreal
  rw [h] at hreal
  exact hreal rfl

end Modules

end Nodus.Loading.Loader
