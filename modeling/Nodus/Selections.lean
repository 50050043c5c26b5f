import Nodus.Requirements

/-! Which versions are selected, and when a resolution is what its requirements ask for. -/

namespace Nodus.Packages

open PosixPath

namespace World

variable {w : World} {spec : DependencySpec} {name : Text}

/-! ### Versions -/

theorem mapM_keyed {α β : Type} {f : α → Option β} {l : List α} {keyed : List (β × α)}
    (h : l.mapM (fun a => (f a).map (·, a)) = some keyed) : keyed.map Prod.snd = l ∧ ∀ x ∈ keyed, f x.2 = some x.1 := by
  induction l generalizing keyed with
  | nil =>
      rw [List.mapM_nil] at h
      obtain rfl := Option.some.inj h
      exact ⟨rfl, fun _ hx => absurd hx List.not_mem_nil⟩
  | cons a l ih =>
      rw [List.mapM_cons] at h
      obtain ⟨x, hx, hrest⟩ := Option.bind_eq_some_iff.mp h
      obtain ⟨b, hb, rfl⟩ := Option.map_eq_some_iff.mp hx
      obtain ⟨rest, hl, hcons⟩ := Option.bind_eq_some_iff.mp hrest
      obtain rfl := Option.some.inj hcons
      obtain ⟨hkeys, hall⟩ := ih hl
      exact ⟨congrArg (a :: ·) hkeys, List.forall_mem_cons.mpr ⟨hb, hall⟩⟩

theorem mapM_keyed_some {α β : Type} {f : α → Option β} {l : List α} (h : ∀ a ∈ l, f a ≠ none) :
    ∃ keyed, l.mapM (fun a => (f a).map (·, a)) = some keyed := by
  induction l with
  | nil => exact ⟨[], rfl⟩
  | cons a l ih =>
      obtain ⟨b, hb⟩ := Option.ne_none_iff_exists'.mp (h a List.mem_cons_self)
      obtain ⟨rest, hrest⟩ := ih fun x hx => h x (List.mem_cons_of_mem _ hx)
      refine ⟨(b, a) :: rest, ?_⟩
      rw [List.mapM_cons, hb, hrest]
      rfl

/-- The versions that there are of a package. -/
def available (w : World) (name : Text) : List Text :=
  match w.client with
  | none => (w.registry name).map RegistryPackage.version
  | some index => ((index name).getD []).map VersionEntry.version

/-- The highest of the versions that satisfy a requirement. -/
structure Best (w : World) (spec : DependencySpec) (version : Text) : Prop where
  available : version ∈ w.available spec.name
  satisfies : matchesRequirement w.tables spec.value version = true
  highest : ∃ v, Version.parse w.tables version = some v ∧ ∀ u ∈ w.available spec.name,
    matchesRequirement w.tables spec.value u = true → ∀ x, Version.parse w.tables u = some x → x ≤ v

theorem availableVersions_mem {candidates : List RegistryPackage} (h : w.availableVersions name = some candidates)
    (package : RegistryPackage) : package ∈ candidates ↔ package ∈ w.registry name := by
  obtain ⟨keyed, hkeyed, hsort⟩ := Option.bind_eq_some_iff.mp h
  obtain rfl := Option.some.inj hsort
  have hkeys := (mapM_keyed hkeyed).1
  rw [((List.perm_insertionSort _ keyed).map Prod.snd).mem_iff, hkeys]

theorem selectUnlocked_best (hclient : w.client = none) {package : RegistryPackage} (h : w.selectUnlocked spec = some package) :
    w.Best spec package.version := by
  obtain ⟨candidates, hcandidates, hrest⟩ := Option.bind_eq_some_iff.mp h
  obtain ⟨matching, hmatching, hbest⟩ := Option.bind_eq_some_iff.mp hrest
  obtain ⟨best, hhighest, rfl⟩ := Option.map_eq_some_iff.mp hbest
  obtain ⟨hmem, hmax⟩ := highest_spec hhighest
  obtain ⟨hkeys, hparse⟩ := mapM_keyed hmatching
  have hin : best.2 ∈ candidates.filter fun candidate => matchesRequirement w.tables spec.value candidate.version :=
    hkeys ▸ List.mem_map_of_mem hmem
  obtain ⟨hcandidate, hsatisfies⟩ := List.mem_filter.mp hin
  have hregistry : w.available spec.name = (w.registry spec.name).map RegistryPackage.version := by
    unfold available
    rw [hclient]
  refine ⟨?_, hsatisfies, best.1, hparse best hmem, fun u hu hmatch x hx => ?_⟩
  · rw [hregistry]
    exact List.mem_map_of_mem ((availableVersions_mem hcandidates _).mp hcandidate)
  · rw [hregistry] at hu
    obtain ⟨other, hother, rfl⟩ := List.mem_map.mp hu
    have hfiltered : other ∈ candidates.filter fun candidate => matchesRequirement w.tables spec.value candidate.version :=
      List.mem_filter.mpr ⟨(availableVersions_mem hcandidates _).mpr hother, hmatch⟩
    rw [← hkeys] at hfiltered
    obtain ⟨c, hc, rfl⟩ := List.mem_map.mp hfiltered
    have hsame : c.1 = x := Option.some.inj ((hparse c hc).symm.trans hx)
    exact hsame ▸ hmax c hc

theorem matches_of_parse {requirement version : Text} {range : VersionRange} {v : Version}
    (hrange : VersionRange.parse w.tables requirement = some range) (hv : Version.parse w.tables version = some v) :
    matchesRequirement w.tables requirement version = range.matches v := by
  unfold matchesRequirement
  rw [hrange, hv]

theorem resolveVersion_best {index : Text → Option (List VersionEntry)} (hclient : w.client = some index)
    {entries : List VersionEntry} (hentries : index spec.name = some entries) {entry : VersionEntry}
    (h : w.resolveVersion entries spec.value = some entry) : w.Best spec entry.version := by
  obtain ⟨range, hrange, hrest⟩ := Option.bind_eq_some_iff.mp h
  obtain ⟨best, hhighest, rfl⟩ := Option.map_eq_some_iff.mp hrest
  obtain ⟨hmem, hmax⟩ := highest_spec hhighest
  have hparsed : ∀ c, c ∈ (entries.filterMap fun entry => (Version.parse w.tables entry.version).map (·, entry)).filter
      (fun candidate => range.matches candidate.1) ↔
        c.2 ∈ entries ∧ Version.parse w.tables c.2.version = some c.1 ∧ range.matches c.1 = true := by
    intro c
    rw [List.mem_filter, List.mem_filterMap]
    constructor
    · rintro ⟨⟨entry, hentry, hc⟩, hmatch⟩
      obtain ⟨v, hv, rfl⟩ := Option.map_eq_some_iff.mp hc
      exact ⟨hentry, hv, hmatch⟩
    · rintro ⟨hentry, hv, hmatch⟩
      exact ⟨⟨c.2, hentry, by rw [hv]; rfl⟩, hmatch⟩
  obtain ⟨hentry, hv, hmatch⟩ := (hparsed best).mp hmem
  have hindex : w.available spec.name = entries.map VersionEntry.version := by
    unfold available
    rw [hclient]
    simp only [hentries, Option.getD_some]
  refine ⟨?_, (matches_of_parse hrange hv).trans hmatch, best.1, hv, fun u hu hsatisfies x hx => ?_⟩
  · rw [hindex]
    exact List.mem_map_of_mem hentry
  · rw [hindex] at hu
    obtain ⟨other, hother, rfl⟩ := List.mem_map.mp hu
    rw [matches_of_parse hrange hx] at hsatisfies
    exact hmax (x, other) ((hparsed (x, other)).mpr ⟨hother, hx, hsatisfies⟩)

/-- The texts of the versions, and of the requirement, can be read as far as a version that satisfies it is to be found. In the local
registry this goes for every such version, in the index of a remote one for some of them. -/
def Readable (w : World) (spec : DependencySpec) : Prop :=
  match w.client with
  | none => w.availableVersions spec.name ≠ none ∧ ∀ v ∈ w.available spec.name,
      matchesRequirement w.tables spec.value v = true → Version.parse w.tables v ≠ none
  | some _ => VersionRange.parse w.tables spec.value ≠ none ∧ ∃ v ∈ w.available spec.name,
      matchesRequirement w.tables spec.value v = true ∧ Version.parse w.tables v ≠ none

theorem selectUnlocked_some (hclient : w.client = none) (hsome : ∃ v ∈ w.available spec.name,
    matchesRequirement w.tables spec.value v = true) (hreadable : w.Readable spec) : w.selectUnlocked spec ≠ none := by
  have hregistry : w.available spec.name = (w.registry spec.name).map RegistryPackage.version := by
    unfold available
    rw [hclient]
  unfold Readable at hreadable
  rw [hclient] at hreadable
  obtain ⟨hkeys, hparse⟩ := hreadable
  obtain ⟨candidates, hcandidates⟩ := Option.ne_none_iff_exists'.mp hkeys
  obtain ⟨v, hv, hmatch⟩ := hsome
  rw [hregistry] at hv
  obtain ⟨package, hpackage, rfl⟩ := List.mem_map.mp hv
  obtain ⟨matching, hmatching⟩ := mapM_keyed_some (f := fun candidate => Version.parse w.tables candidate.version)
    (l := candidates.filter fun candidate => matchesRequirement w.tables spec.value candidate.version) (fun c hc => by
      obtain ⟨hmem, hsatisfies⟩ := List.mem_filter.mp hc
      apply hparse c.version _ hsatisfies
      rw [hregistry]
      exact List.mem_map_of_mem ((availableVersions_mem hcandidates c).mp hmem))
  have hversioned : w.versioned RegistryPackage.version
      (candidates.filter fun candidate => matchesRequirement w.tables spec.value candidate.version) = some matching := hmatching
  intro hnone
  unfold selectUnlocked at hnone
  rw [hcandidates] at hnone
  simp only [Option.bind_eq_bind, Option.bind_some, hversioned, Option.map_eq_none_iff, highest_eq_none] at hnone
  have hkeyed := (mapM_keyed hmatching).1
  rw [hnone, List.map_nil] at hkeyed
  have hin : package ∈ candidates.filter fun candidate => matchesRequirement w.tables spec.value candidate.version :=
    List.mem_filter.mpr ⟨(availableVersions_mem hcandidates package).mpr hpackage, hmatch⟩
  rw [← hkeyed] at hin
  exact List.not_mem_nil hin

theorem resolveVersion_some {index : Text → Option (List VersionEntry)} (hclient : w.client = some index)
    {entries : List VersionEntry} (hentries : index spec.name = some entries) (hreadable : w.Readable spec) :
    w.resolveVersion entries spec.value ≠ none := by
  have hindex : w.available spec.name = entries.map VersionEntry.version := by
    unfold available
    rw [hclient]
    simp only [hentries, Option.getD_some]
  unfold Readable at hreadable
  rw [hclient] at hreadable
  obtain ⟨hrange, v, hv, hmatch, hparse⟩ := hreadable
  obtain ⟨range, hrange⟩ := Option.ne_none_iff_exists'.mp hrange
  obtain ⟨x, hx⟩ := Option.ne_none_iff_exists'.mp hparse
  rw [hindex] at hv
  obtain ⟨entry, hentry, rfl⟩ := List.mem_map.mp hv
  rw [matches_of_parse hrange hx] at hmatch
  intro hnone
  unfold resolveVersion at hnone
  simp only [hrange, Option.bind_eq_bind, Option.bind_some, Option.map_eq_none_iff, highest_eq_none] at hnone
  have hin : (x, entry) ∈ (entries.filterMap fun entry => (Version.parse w.tables entry.version).map (·, entry)).filter
      (fun candidate => range.matches candidate.1) :=
    List.mem_filter.mpr ⟨List.mem_filterMap.mpr ⟨entry, hentry, by rw [hx]; rfl⟩, hmatch⟩
  rw [hnone] at hin
  exact List.not_mem_nil hin

/-- A requirement for which no version is selected is satisfied by none, exactly if the texts can be read where one satisfies it. -/
theorem unselected_iff (hjustified : w.Justified (.unselected spec)) (hlocked : w.locked spec.name = none) :
    (∀ v ∈ w.available spec.name, matchesRequirement w.tables spec.value v = false) ↔
      ((∃ v ∈ w.available spec.name, matchesRequirement w.tables spec.value v = true) → w.Readable spec) := by
  obtain ⟨hlocal, hremote⟩ := hjustified.2 hlocked
  constructor
  · rintro hnone ⟨v, hv, hmatch⟩
    rw [hnone v hv] at hmatch
    cases hmatch
  · intro hreadable v hv
    by_contra hmatch
    have hsome : ∃ v ∈ w.available spec.name, matchesRequirement w.tables spec.value v = true :=
      ⟨v, hv, Bool.eq_true_of_not_eq_false hmatch⟩
    cases hclient : w.client with
    | none => exact selectUnlocked_some hclient hsome (hreadable hsome) (hlocal hclient)
    | some index =>
        obtain ⟨entries, hentries, hnone⟩ := hremote index hclient
        exact resolveVersion_some hclient hentries (hreadable hsome) hnone

end World

end Nodus.Packages
