import Nodus.ModuleLoader

/-! What a load without cache and dependency graph builds, as a function of the files alone, and what the
dependency graph's staleness test decides. -/

namespace Nodus.Loading

open PosixPath Walks

variable {Ast Code X : Type}

namespace Front

section Staleness

variable {files : List (Path × SourceFile)} {graph : List (Path × DependencyNode)} {recompiled : List Path}

/-- The modules a node of the graph records as imported. -/
def graphNext (graph : List (Path × DependencyNode)) (p : Path) : List Path :=
  match graph.lookup p with
  | some node => node.importedModules
  | none => []

/-- The module's own part of the staleness test. -/
structure UpToDate (files : List (Path × SourceFile)) (graph : List (Path × DependencyNode))
    (recompiled : List Path) (p : Path) : Prop where
  notRecompiled : p ∉ recompiled
  mtimeRecorded : ∃ node file, graph.lookup p = some node ∧ files.lookup p = some file ∧
    file.mtime = node.lastCompiledMtime

theorem mem_keys_of_lookup {α : Type} {l : List (Path × α)} {p : Path} {v : α} (h : l.lookup p = some v) :
    p ∈ l.map Prod.fst := by
  obtain ⟨l₁, l₂, rfl, _⟩ := List.lookup_eq_some_iff.mp h
  simp

theorem isModuleStale_succ (fuel : Nat) {seen : List Path} {p : Path} (hp : p ∉ seen) :
    isModuleStale files graph recompiled (fuel + 1) seen p = false ↔
      UpToDate files graph recompiled p ∧
        ∀ d ∈ graphNext graph p, d ∉ recompiled ∧
          isModuleStale files graph recompiled fuel (p :: seen) d = false := by
  rw [isModuleStale, if_neg hp]
  by_cases hr : p ∈ recompiled
  · rw [if_pos hr]
    exact ⟨fun h => (nomatch h), fun h => absurd hr h.1.notRecompiled⟩
  rw [if_neg hr]
  cases hg : graph.lookup p with
  | none =>
      refine ⟨fun h => by simp at h, fun h => ?_⟩
      obtain ⟨node, _, hnode, _⟩ := h.1.mtimeRecorded
      rw [hg] at hnode
      cases hnode
  | some node =>
      cases hf : files.lookup p with
      | none =>
          refine ⟨fun h => by simp at h, fun h => ?_⟩
          obtain ⟨_, file, _, hfile, _⟩ := h.1.mtimeRecorded
          rw [hf] at hfile
          cases hfile
      | some file =>
          have hnext : graphNext graph p = node.importedModules := by rw [graphNext, hg]
          simp only [hnext]
          by_cases hm : file.mtime = node.lastCompiledMtime
          · rw [if_neg (by simp [hm])]
            have hup : UpToDate files graph recompiled p := ⟨hr, node, file, hg, hf, hm⟩
            simp only [List.any_eq_false, Bool.or_eq_true, decide_eq_true_eq, not_or, Bool.not_eq_true]
            exact ⟨fun h => ⟨hup, h⟩, fun h => h.2⟩
          · rw [if_pos hm]
            refine ⟨fun h => (nomatch h), fun h => absurd ?_ hm⟩
            obtain ⟨node', file', hnode, hfile, heq⟩ := h.1.mtimeRecorded
            rw [hg] at hnode
            rw [hf] at hfile
            cases hnode
            cases hfile
            exact heq

theorem upToDate_of_not_stale {fuel : Nat} {seen : List Path} {p q : Path}
    (h : isModuleStale files graph recompiled fuel seen p = false)
    (hq : Avoiding (graphNext graph) seen p q) : UpToDate files graph recompiled q := by
  induction fuel generalizing seen p with
  | zero => exact nomatch h
  | succ fuel ih =>
      obtain ⟨hup, hdeps⟩ := (isModuleStale_succ fuel hq.start_notMem).mp h
      obtain rfl | ⟨d, hd, hdq⟩ := hq.cut_start
      · exact hup
      · exact ih (hdeps d hd).2 hdq

theorem not_stale_of_upToDate {fuel : Nat} {seen : List Path} {p : Path}
    (hroom : room (graph.map Prod.fst) seen < fuel) (hseen : ∀ a ∈ seen, a ∉ recompiled)
    (h : ∀ q, Avoiding (graphNext graph) seen p q → UpToDate files graph recompiled q) :
    isModuleStale files graph recompiled fuel seen p = false := by
  induction fuel generalizing seen p with
  | zero => omega
  | succ fuel ih =>
      by_cases hp : p ∈ seen
      · rw [isModuleStale, if_pos hp]
      have hup := h p (.refl hp)
      obtain ⟨node, _, hnode, _⟩ := hup.mtimeRecorded
      have hlt := room_cons_lt (mem_keys_of_lookup hnode) hp
      refine (isModuleStale_succ fuel hp).mpr ⟨hup, fun d hd => ⟨?_, ?_⟩⟩
      · by_cases hds : d ∈ seen
        · exact hseen d hds
        · exact (h d (.step hp hd (.refl hds))).notRecompiled
      · refine ih (by omega) ?_ fun q hq => ?_
        · intro a ha
          rcases List.mem_cons.mp ha with rfl | ha
          · exact hup.notRecompiled
          · exact hseen a ha
        · exact h q (.step hp hd (hq.mono fun x hx => List.mem_cons_of_mem _ hx))

/-- `_is_module_stale` finds a module fresh when it and everything the graph leads to from it has the
recorded modification time and was not recompiled. -/
theorem not_stale_iff {p : Path} :
    isModuleStale files graph recompiled (graph.length + 1) [] p = false ↔
      ∀ q, Reaches (graphNext graph) p q → UpToDate files graph recompiled q := by
  refine ⟨fun h q hq => upToDate_of_not_stale h hq, fun h => ?_⟩
  have hroom := room_le_length (graph.map Prod.fst) []
  rw [List.length_map] at hroom
  exact not_stale_of_upToDate (by omega) (fun a ha => by simp at ha) h

end Staleness

section Cold

variable (F : Front Ast Code) (site : Site Ast)

/-- The modules a module imports or re-exports from. -/
def importsOf (p : Path) : List Path :=
  match F.prepare site p with
  | .ok pr => pr.dependencies
  | .error _ => []

def exportsOf (p : Path) : Except LoadError (List Name) := (F.parseModule site p).map (·.exports)

/-- The metadata of a module, from its own text and the exports of what it imports. -/
def localRecord (p : Path) : Except LoadError MetadataRecord := do
  let pr ← F.prepare site p
  pr.assemble F.builtin (F.exportsOf site)

/-- The module and everything it imports has metadata, and the imports do not run in a circle. -/
inductive Builds : Path → Prop where
  | intro {p : Path} {record : MetadataRecord} (hr : F.localRecord site p = .ok record)
      (hd : ∀ d ∈ F.importsOf site p, Builds d) : Builds p

/-- `_build_metadata` without a memo, a cache or a graph, below the modules on `stack`. -/
def buildsTo : Nat → List Path → Path → Except LoadError MetadataRecord
  | 0, _, _ => .error .bound
  | fuel + 1, stack, p =>
      if p ∈ stack then .error (.circularImport (Loader.cycleOf stack p))
      else do
        let pr ← F.prepare site p
        pr.assemble F.builtin fun d => (buildsTo fuel (p :: stack) d).map (·.exports)

end Cold

section Assemble

variable {builtin : Name → Bool} {f g : Path → Except LoadError (List Name)}

theorem bindImports_congr {specs : List ImportSpec} {acc : List Name}
    (h : ∀ spec ∈ specs, f spec.resolvedPath = g spec.resolvedPath) :
    bindImports builtin f specs acc = bindImports builtin g specs acc := by
  induction specs generalizing acc with
  | nil => rfl
  | cons spec specs ih =>
      simp only [bindImports]
      rw [h spec List.mem_cons_self]
      congr 1
      funext exports
      congr 1
      funext names
      exact ih fun s hs => h s (List.mem_cons_of_mem _ hs)

theorem checkReexports_congr {specs : List ExportFromSpec}
    (h : ∀ spec ∈ specs, f spec.resolvedPath = g spec.resolvedPath) :
    checkReexports f specs = checkReexports g specs := by
  induction specs with
  | nil => rfl
  | cons spec specs ih =>
      simp only [checkReexports]
      rw [h spec List.mem_cons_self]
      congr 1
      funext exports
      congr 1
      funext _
      exact ih fun s hs => h s (List.mem_cons_of_mem _ hs)

theorem assemble_congr {pr : Prepared Ast} (h : ∀ d ∈ pr.dependencies, f d = g d) :
    pr.assemble builtin f = pr.assemble builtin g := by
  unfold Prepared.assemble
  rw [bindImports_congr fun spec hs => h _ (List.mem_append_left _ (List.mem_map_of_mem hs)),
    checkReexports_congr fun spec hs => h _ (List.mem_append_right _ (List.mem_map_of_mem hs))]

theorem bind_eq_ok {α β : Type} {x : Except LoadError α} {k : α → Except LoadError β} {b : β} :
    x >>= k = .ok b ↔ ∃ a, x = .ok a ∧ k a = .ok b := by
  cases x with
  | ok a => exact ⟨fun h => ⟨a, rfl, h⟩, fun ⟨_, ha, hk⟩ => by cases ha; exact hk⟩
  | error e => exact ⟨fun h => (nomatch h), fun ⟨_, ha, _⟩ => (nomatch ha)⟩

theorem exports_of_bindImports {specs : List ImportSpec} {acc names : List Name}
    (h : bindImports builtin f specs acc = .ok names) :
    ∀ spec ∈ specs, ∃ exports, f spec.resolvedPath = .ok exports := by
  induction specs generalizing acc with
  | nil => exact fun spec hs => absurd hs (by simp)
  | cons spec specs ih =>
      simp only [bindImports] at h
      obtain ⟨exports, hexports, h⟩ := bind_eq_ok.mp h
      obtain ⟨_, _, h⟩ := bind_eq_ok.mp h
      intro s hs
      rcases List.mem_cons.mp hs with rfl | hs
      · exact ⟨exports, hexports⟩
      · exact ih h s hs

theorem exports_of_checkReexports {specs : List ExportFromSpec} (h : checkReexports f specs = .ok ()) :
    ∀ spec ∈ specs, ∃ exports, f spec.resolvedPath = .ok exports := by
  induction specs with
  | nil => exact fun spec hs => absurd hs (by simp)
  | cons spec specs ih =>
      simp only [checkReexports] at h
      obtain ⟨exports, hexports, h⟩ := bind_eq_ok.mp h
      obtain ⟨_, _, h⟩ := bind_eq_ok.mp h
      intro s hs
      rcases List.mem_cons.mp hs with rfl | hs
      · exact ⟨exports, hexports⟩
      · exact ih h s hs

theorem assemble_eq_ok {pr : Prepared Ast} {record : MetadataRecord} (h : pr.assemble builtin f = .ok record) :
    (∃ names, record = pr.record names) ∧ ∀ d ∈ pr.dependencies, ∃ exports, f d = .ok exports := by
  unfold Prepared.assemble at h
  obtain ⟨names, hnames, h⟩ := bind_eq_ok.mp h
  obtain ⟨_, hchecked, h⟩ := bind_eq_ok.mp h
  refine ⟨⟨names, (Except.ok.inj h).symm⟩, fun d hd => ?_⟩
  rcases List.mem_append.mp hd with hd | hd
  · obtain ⟨spec, hs, rfl⟩ := List.mem_map.mp hd
    exact exports_of_bindImports hnames spec hs
  · obtain ⟨spec, hs, rfl⟩ := List.mem_map.mp hd
    exact exports_of_checkReexports hchecked spec hs

end Assemble

section Cold

variable {F : Front Ast Code} {site : Site Ast} {p : Path} {record : MetadataRecord}

theorem prepare_parsed {pr : Prepared Ast} (h : F.prepare site p = .ok pr) :
    F.parseModule site p = .ok pr.parsed := by
  unfold prepare at h
  obtain ⟨parsed, hparsed, h⟩ := bind_eq_ok.mp h
  obtain ⟨_, _, h⟩ := bind_eq_ok.mp h
  obtain ⟨_, _, h⟩ := bind_eq_ok.mp h
  cases h
  exact hparsed

theorem mem_paths_of_parsed {parsed : ParsedModule Ast} (h : F.parseModule site p = .ok parsed) :
    p ∈ site.paths := by
  by_cases hp : p = site.root
  · rw [hp]
    exact List.mem_cons_self
  unfold parseModule Site.text at h
  rw [if_neg hp] at h
  cases hf : site.file p with
  | none => rw [hf] at h; exact nomatch h
  | some file => exact List.mem_cons_of_mem _ (mem_keys_of_lookup hf)

theorem localRecord_eq_ok (h : F.localRecord site p = .ok record) :
    ∃ pr names, F.prepare site p = .ok pr ∧ record = pr.record names ∧
      F.exportsOf site p = .ok record.exports ∧ F.importsOf site p = pr.dependencies := by
  unfold localRecord at h
  obtain ⟨pr, hpr, h⟩ := bind_eq_ok.mp h
  obtain ⟨⟨names, rfl⟩, _⟩ := assemble_eq_ok h
  refine ⟨pr, names, hpr, rfl, ?_, ?_⟩
  · rw [exportsOf, prepare_parsed hpr]
    rfl
  · rw [importsOf, hpr]

theorem Builds.exists_record (h : F.Builds site p) : ∃ record, F.localRecord site p = .ok record := by
  cases h with
  | intro hr _ => exact ⟨_, hr⟩

theorem Builds.import {d : Path} (h : F.Builds site p) (hd : d ∈ F.importsOf site p) : F.Builds site d := by
  cases h with
  | intro _ h => exact h d hd

theorem Builds.reaches {q : Path} (h : F.Builds site p) (hq : Reaches (F.importsOf site) p q) :
    F.Builds site q :=
  hq.closed (fun _ _ hx hy => hx.import hy) h

theorem Builds.acyclic (h : F.Builds site p) :
    ¬ ∃ d, d ∈ F.importsOf site p ∧ Reaches (F.importsOf site) d p := by
  induction h with
  | @intro p _ _ _ ih =>
      rintro ⟨d, hd, hdp⟩
      cases hdp with
      | refl _ => exact ih p hd ⟨p, hd, Reaches.refl p⟩
      | @step _ e _ _ he hep => exact ih d hd ⟨e, he, hep.trans (Reaches.edge hd)⟩

theorem prepare_of_builds (h : F.Builds site p) : ∃ pr, F.prepare site p = .ok pr ∧
    F.localRecord site p = pr.assemble F.builtin (F.exportsOf site) ∧ F.importsOf site p = pr.dependencies := by
  obtain ⟨record, hr⟩ := h.exists_record
  obtain ⟨pr, names, hpr, _, _, hdeps⟩ := localRecord_eq_ok hr
  refine ⟨pr, hpr, ?_, hdeps⟩
  rw [localRecord, hpr]
  rfl

theorem exportsOf_eq_map (h : F.Builds site p) :
    F.exportsOf site p = (F.localRecord site p).map (·.exports) := by
  obtain ⟨record, hr⟩ := h.exists_record
  obtain ⟨_, _, _, _, hexports, _⟩ := localRecord_eq_ok hr
  rw [hexports, hr]
  rfl

theorem buildsTo_of_builds {fuel : Nat} {stack : List Path} (h : F.Builds site p)
    (hstack : ∀ a ∈ stack, ¬ Reaches (F.importsOf site) p a) (hroom : room site.paths stack < fuel) :
    F.buildsTo site fuel stack p = F.localRecord site p := by
  induction fuel generalizing p stack with
  | zero => omega
  | succ fuel ih =>
      obtain ⟨pr, hpr, hlocal, hdeps⟩ := prepare_of_builds h
      have hp : p ∉ stack := fun hp => hstack p hp (Reaches.refl p)
      have hlt := room_cons_lt (mem_paths_of_parsed (prepare_parsed hpr)) hp
      rw [buildsTo, if_neg hp, hpr, hlocal]
      refine assemble_congr fun d hd => ?_
      have hd' : d ∈ F.importsOf site p := by
        rw [hdeps]
        exact hd
      rw [ih (h.import hd') ?_ (by omega), exportsOf_eq_map (h.import hd')]
      intro a ha
      rcases List.mem_cons.mp ha with rfl | ha
      · exact fun hda => h.acyclic ⟨d, hd', hda⟩
      · exact fun hda => hstack a ha ((Reaches.edge hd').trans hda)

theorem builds_of_buildsTo {fuel : Nat} {stack : List Path} (h : F.buildsTo site fuel stack p = .ok record) :
    F.Builds site p ∧ F.localRecord site p = .ok record := by
  induction fuel generalizing p stack record with
  | zero => exact nomatch h
  | succ fuel ih =>
      rw [buildsTo] at h
      by_cases hp : p ∈ stack
      · rw [if_pos hp] at h
        exact nomatch h
      rw [if_neg hp] at h
      obtain ⟨pr, hpr, h⟩ := bind_eq_ok.mp h
      have hdeps : F.importsOf site p = pr.dependencies := by rw [importsOf, hpr]
      have hbuilds : ∀ d ∈ pr.dependencies, F.Builds site d ∧
          F.exportsOf site d = (F.buildsTo site fuel (p :: stack) d).map (·.exports) := by
        intro d hd
        obtain ⟨exports, hexports⟩ := (assemble_eq_ok h).2 d hd
        cases hr : F.buildsTo site fuel (p :: stack) d with
        | error e => rw [hr] at hexports; exact nomatch hexports
        | ok r =>
            obtain ⟨hb, hl⟩ := ih hr
            refine ⟨hb, ?_⟩
            rw [exportsOf_eq_map hb, hl]
      have hlocal : F.localRecord site p = .ok record := by
        rw [localRecord, hpr, ← h]
        exact assemble_congr fun d hd => (hbuilds d hd).2
      refine ⟨.intro hlocal fun d hd => ?_, hlocal⟩
      rw [hdeps] at hd
      exact (hbuilds d hd).1

end Cold

end Front

end Nodus.Loading
