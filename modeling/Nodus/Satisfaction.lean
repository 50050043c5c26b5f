import Nodus.Selections
import Nodus.Traversal

/-! When the versions and the paths that a resolution comes to are what all the requirements ask for. -/

namespace Nodus.Packages

open PosixPath

namespace World

variable {w : World} {r r' : Resolution} {owner : Path} {spec : DependencySpec} {e : ResolveError} {c : Call} {p : ResolvedPackage}

/-! ### What can be selected can be read -/

theorem selectUnlocked_readable (hclient : w.client = none) {package : RegistryPackage} (h : w.selectUnlocked spec = some package) :
    w.Readable spec := by
  obtain ⟨candidates, hcandidates, hrest⟩ := Option.bind_eq_some_iff.mp h
  obtain ⟨matching, hmatching, -⟩ := Option.bind_eq_some_iff.mp hrest
  obtain ⟨hkeys, hparse⟩ := mapM_keyed hmatching
  unfold Readable available
  rw [hclient]
  refine ⟨hcandidates ▸ Option.some_ne_none candidates, fun v hv hmatch => ?_⟩
  obtain ⟨other, hother, rfl⟩ := List.mem_map.mp hv
  have hfiltered : other ∈ candidates.filter fun candidate => matchesRequirement w.tables spec.value candidate.version :=
    List.mem_filter.mpr ⟨(availableVersions_mem hcandidates _).mpr hother, hmatch⟩
  rw [← hkeys] at hfiltered
  obtain ⟨x, hx, rfl⟩ := List.mem_map.mp hfiltered
  exact hparse x hx ▸ Option.some_ne_none x.1

theorem resolveVersion_readable {index : Text → Option (List VersionEntry)} (hclient : w.client = some index)
    {entries : List VersionEntry} (hentries : index spec.name = some entries) {entry : VersionEntry}
    (h : w.resolveVersion entries spec.value = some entry) : w.Readable spec := by
  obtain ⟨havailable, hsatisfies, v, hv, -⟩ := resolveVersion_best hclient hentries h
  obtain ⟨range, hrange, -⟩ := Option.bind_eq_some_iff.mp h
  unfold Readable
  rw [hclient]
  exact ⟨hrange ▸ Option.some_ne_none range, entry.version, havailable, hsatisfies, hv ▸ Option.some_ne_none v⟩

theorem resolveVersion_constraint (hlocked : w.locked spec.name = none) (entries : List VersionEntry) :
    w.resolveVersion entries (w.constraint spec) = w.resolveVersion entries spec.value := by
  unfold constraint
  rw [hlocked]

theorem Chosen.best (h : w.Chosen p) (hkind : p.spec.kind = .version) (hlocked : w.locked p.spec.name = none) :
    w.Best p.spec p.version ∧ w.Readable p.spec := by
  cases hclient : w.client with
  | none =>
      obtain ⟨package, hpackage, hversion, -⟩ := h.unlocked hkind hclient hlocked
      exact ⟨hversion ▸ selectUnlocked_best hclient hpackage, selectUnlocked_readable hclient hpackage⟩
  | some index =>
      obtain ⟨entries, entry, hentries, hentry, hversion, -⟩ := h.remote index hkind hclient
      rw [resolveVersion_constraint hlocked] at hentry
      exact ⟨hversion ▸ resolveVersion_best hclient hentries hentry, resolveVersion_readable hclient hentries hentry⟩

theorem resolveSingle_fails (hkind : spec.kind = .version) (hlocked : w.locked spec.name = none)
    (h : w.resolveSingle owner spec r = (.error e, r')) :
    w.available spec.name = [] ∨ e = .unselected spec ∨ w.Readable spec := by
  unfold resolveSingle at h
  split at h
  · next hpath => exact absurd (hpath.symm.trans hkind) (by decide)
  · next index _ hclient =>
      split at h
      · next hentries =>
          refine .inl ?_
          unfold available
          rw [hclient]
          simp only [hentries, Option.getD_none, List.map_nil]
      · next entries hentries =>
          split at h
          · obtain ⟨he, -⟩ := Prod.mk.inj h
            exact .inr (.inl (Except.error.inj he).symm)
          · next entry hentry =>
              rw [resolveVersion_constraint hlocked] at hentry
              exact .inr (.inr (resolveVersion_readable hclient hentries hentry))
  · simp only [] at h
    split at h
    · obtain ⟨he, -⟩ := Prod.mk.inj h
      exact .inr (.inl (Except.error.inj he).symm)
    · obtain ⟨he, -⟩ := Prod.mk.inj h
      cases he

theorem resolveSingle_unselected {other : DependencySpec} (h : w.resolveSingle owner spec r = (.error (.unselected other), r')) :
    other = spec := by
  unfold resolveSingle at h
  split at h
  · simp only [] at h
    split at h
    · exact absurd (Prod.mk.inj h).1 nofun
    · exact absurd (Except.error.inj (Prod.mk.inj h).1) nofun
  · split at h
    · exact absurd (Except.error.inj (Prod.mk.inj h).1) nofun
    · split at h
      · obtain ⟨he, -⟩ := Prod.mk.inj h
        cases he
        rfl
      · split at h
        · exact absurd (Except.error.inj (Prod.mk.inj h).1) nofun
        · exact absurd (Prod.mk.inj h).1 nofun
  · simp only [] at h
    split at h
    · obtain ⟨he, -⟩ := Prod.mk.inj h
      cases he
      rfl
    · exact absurd (Prod.mk.inj h).1 nofun

/-! ### What a resolution is to be -/

def DependsOn (r : Resolution) (n d : Text) : Prop := ∃ p, r.packages n = some p ∧ d ∈ p.dependencies

/-- All requirements hold of the packages, which are listed in the order of their dependencies. -/
structure Satisfied (w : World) (r : Resolution) : Prop where
  versions : ∀ owner spec, w.Requires r owner spec → spec.kind = .version →
    ∃ p, r.packages spec.name = some p ∧ matchesRequirement w.tables spec.value p.version = true
  paths : ∀ owner spec, w.Requires r owner spec → spec.kind = .path →
    ∃ p, r.packages spec.name = some p ∧ p.path = resolvePath owner spec.value
  closed : ∀ n d, DependsOn r n d → r.packages d ≠ none
  listed : ∀ n, n ∈ r.installOrder ↔ r.packages n ≠ none
  once : r.installOrder.Nodup
  ordered : ∀ before n after, r.installOrder = before ++ n :: after → ∀ d, DependsOn r n d → d ∈ before
  acyclic : ∀ n, ¬ Relation.TransGen (DependsOn r) n n
  introduced : ∀ n p, r.packages n = some p → p.spec.name = n ∧ w.Requires r p.owner p.spec
  highest : ∀ n p, r.packages n = some p → p.spec.kind = .version → w.locked n = none → w.Best p.spec p.version

/-- What the outcome of a resolution is to be: one that fails to select a version has none to select. -/
def Lawful (w : World) : Except ResolveError (List Text) × Resolution → Prop
  | (.ok _, r) => w.Satisfied r
  | (.error e, _) => ∀ spec, e = .unselected spec → w.locked spec.name = none →
      ∀ v ∈ w.available spec.name, matchesRequirement w.tables spec.value v = false

theorem Lawful.satisfied {outcome : Except ResolveError (List Text) × Resolution} (h : w.Lawful outcome) {names : List Text}
    (hok : outcome.1 = .ok names) : w.Satisfied outcome.2 := by
  obtain ⟨result, r⟩ := outcome
  obtain rfl := hok
  exact h

/-- At a call, a path that is required for a name that has been resolved is the one it has been resolved to, and the version that is
locked is one that is required. -/
structure Call.Kept (w : World) (c : Call) : Prop where
  path : ∀ p, c.spec.kind = .path → c.resolution.packages c.spec.name = some p → p.path = resolvePath c.owner c.spec.value
  lock : ∀ index entries locked entry, c.spec.kind = .version → c.Fresh → w.client = some index → index c.spec.name = some entries →
    w.locked c.spec.name = some locked → locked.source = "registry".toList → w.resolveVersion entries locked.version = some entry →
      matchesRequirement w.tables c.spec.value entry.version = true

/-- At a call, the texts can be read as far as a version that satisfies the requirement is to be found, if there is one. -/
def Call.Legible (w : World) (c : Call) : Prop :=
  c.spec.kind = .version → c.Fresh → w.locked c.spec.name = none →
    (∃ v ∈ w.available c.spec.name, matchesRequirement w.tables c.spec.value v = true) → w.Readable c.spec

/-! ### The order -/

theorem Orderly.dependsOn (hr : w.Orderly r) {n d : Text} (h : DependsOn r n d) :
    ∃ p, r.packages n = some p ∧ ∃ spec ∈ p.specs, spec.name = d := by
  obtain ⟨p, hp, hd⟩ := h
  exact ⟨p, hp, (hr.dependencies n p hp d).mp hd⟩

theorem Orderly.before (hr : w.Orderly r) {before after : List Text} {n d : Text} (horder : r.installOrder = before ++ n :: after)
    (h : DependsOn r n d) : d ∈ before := by
  obtain ⟨p, hp, spec, hspec, rfl⟩ := hr.dependsOn h
  exact hr.ordered before n after horder p hp spec hspec

theorem Orderly.idxOf_lt (hr : w.Orderly r) {n d : Text} (h : DependsOn r n d) :
    r.installOrder.idxOf d < r.installOrder.idxOf n := by
  have hn : n ∈ r.installOrder := by
    obtain ⟨p, hp, -⟩ := h
    exact (hr.listed n).mpr (hp ▸ Option.some_ne_none p)
  obtain ⟨before, after, horder⟩ := List.append_of_mem hn
  have hd : d ∈ before := hr.before horder h
  have hnot : n ∉ before := by
    intro hmem
    have hnodup := hr.nodup
    rw [horder] at hnodup
    exact (List.nodup_append.mp hnodup).2.2 n hmem n List.mem_cons_self rfl
  rw [horder, List.idxOf_append_of_mem hd, List.idxOf_append_of_notMem hnot, List.idxOf_cons_self, Nat.add_zero]
  exact List.idxOf_lt_length_of_mem hd

theorem Orderly.acyclic (hr : w.Orderly r) (n : Text) : ¬ Relation.TransGen (DependsOn r) n n := by
  have hlt : ∀ {m d}, Relation.TransGen (DependsOn r) m d → r.installOrder.idxOf d < r.installOrder.idxOf m := by
    intro m d h
    induction h with
    | single h => exact hr.idxOf_lt h
    | tail _ h ih => exact (hr.idxOf_lt h).trans ih
  exact fun hcycle => Nat.lt_irrefl _ (hlt hcycle)

/-! ### The outcome -/

section Outcome

variable {fuel : Nat} {files : Files} {names : List Text}

theorem Call.introduces (hr : w.Orderly c.resolution) (hfresh : c.Fresh) {name : Text} (h : c.resolve w = (.ok name, r')) :
    ∃ p, r'.packages c.spec.name = some p ∧ p.owner = c.owner ∧ p.spec = c.spec := by
  rcases c.cases w with ⟨package, hpackage⟩ | ⟨e, -, he⟩ | ⟨e, r, -, -, he⟩ | ⟨package, r, -, -, -, he⟩ | ⟨package, specs, r, hopens⟩
  · rw [hfresh.1] at hpackage
    cases hpackage
  · exact absurd (Prod.mk.inj (h.symm.trans he)).1 nofun
  · exact absurd (Prod.mk.inj (h.symm.trans he)).1 nofun
  · exact absurd (Prod.mk.inj (h.symm.trans he)).1 nofun
  · obtain ⟨hname, howner, hspec, -⟩ := opens_spec hr hopens
    cases heach : resolveEach (w.resolveSpec c.fuel (c.visiting ++ [c.spec.name]) package.path) specs r with
    | mk outcome r₂ =>
        cases outcome with
        | error e => exact absurd (Prod.mk.inj (h.symm.trans (resolve_opens_error hopens heach))).1 nofun
        | ok names =>
            obtain ⟨-, rfl⟩ := Prod.mk.inj (h.symm.trans (resolve_opens_ok hopens heach))
            refine ⟨{ package with dependencies := names.insertionSort (· ≤ ·), specs }, ?_, howner, hspec⟩
            rw [← hname]
            exact Function.update_self ..

theorem Call.known_or_fresh {name : Text} (h : c.resolve w = (.ok name, r')) :
    (∃ p, c.resolution.packages c.spec.name = some p) ∨ c.Fresh := by
  rcases c.cases w with hpackage | ⟨e, -, he⟩ | ⟨e, r, hfresh, -⟩ | ⟨package, r, hfresh, -⟩ | ⟨package, specs, r, hopens⟩
  · exact .inl hpackage
  · exact absurd (Prod.mk.inj (h.symm.trans he)).1 nofun
  · exact .inr hfresh
  · exact .inr hfresh
  · exact .inr hopens.1

theorem kept_of_satisfied (h : w.resolveProject fuel files = (.ok names, r)) (hsatisfied : w.Satisfied r)
    (hcalls : w.ProjectCalls fuel files c) : c.Kept w := by
  obtain ⟨horderly, hrequires, name, r₁, hok, hkeeps⟩ := hcalls.ok h
  constructor
  · intro p hkind hp
    have hresolved : r₁.packages c.spec.name = some p := by
      rw [resolve_known hp] at hok
      split at hok
      · obtain ⟨-, rfl⟩ := Prod.mk.inj hok
        exact hp
      · exact absurd (Prod.mk.inj hok).1 nofun
    obtain ⟨q, hq, hpath⟩ := hsatisfied.paths _ _ hrequires hkind
    obtain rfl := Option.some.inj (hq.symm.trans (hkeeps _ _ hresolved))
    exact hpath
  · intro index entries locked entry hkind hfresh hclient hentries hlocked hsource hentry
    obtain ⟨p, hp, -, hspec⟩ := Call.introduces horderly hfresh hok
    have hfinal := hkeeps _ _ hp
    have hchosen := (((resolveProject_spec (w := w) fuel files).1 names r h).1.chosen _ _ hfinal).2
    obtain ⟨entries', entry', hentries', hentry', hversion, -⟩ := hchosen.remote index (hspec ▸ hkind) hclient
    rw [hspec] at hentries' hentry'
    obtain rfl := Option.some.inj (hentries.symm.trans hentries')
    have hconstraint : w.constraint c.spec = locked.version := by
      unfold constraint
      rw [hlocked]
      exact if_pos hsource
    rw [hconstraint] at hentry'
    obtain rfl := Option.some.inj (hentry.symm.trans hentry')
    obtain ⟨q, hq, hmatch⟩ := hsatisfied.versions _ _ hrequires hkind
    obtain rfl := Option.some.inj (hq.symm.trans hfinal)
    exact hversion ▸ hmatch

/-- The version of a package satisfies the requirement that has introduced it, if the lock does. -/
theorem Chosen.satisfies (hchosen : w.Chosen p) (hkind : p.spec.kind = .version)
    (hlock : ∀ index entries locked entry, w.client = some index → index p.spec.name = some entries →
      w.locked p.spec.name = some locked → locked.source = "registry".toList →
        w.resolveVersion entries locked.version = some entry → matchesRequirement w.tables p.spec.value entry.version = true) :
    matchesRequirement w.tables p.spec.value p.version = true := by
  cases hlocked : w.locked p.spec.name with
  | none => exact (hchosen.best hkind hlocked).1.satisfies
  | some locked =>
      cases hclient : w.client with
      | none =>
          obtain ⟨package, hpackage, hversion, -⟩ := hchosen.locked locked hkind hclient hlocked
          obtain ⟨candidates, -, hrest⟩ := Option.bind_eq_some_iff.mp hpackage
          obtain ⟨found, -, hif⟩ := Option.bind_eq_some_iff.mp hrest
          split at hif
          · next hvalid =>
              obtain rfl := Option.some.inj hif
              rw [hversion]
              have hvalidates := hvalid.2
              unfold validates at hvalidates
              rw [hkind] at hvalidates
              exact hvalidates
          · cases hif
      | some index =>
          obtain ⟨entries, entry, hentries, hentry, hversion, -⟩ := hchosen.remote index hkind hclient
          rw [hversion]
          by_cases hsource : locked.source = "registry".toList
          · apply hlock index entries locked entry hclient hentries hlocked hsource
            unfold constraint at hentry
            rw [hlocked] at hentry
            simp only [hsource, if_true] at hentry
            exact hentry
          · unfold constraint at hentry
            rw [hlocked] at hentry
            simp only [hsource, if_false] at hentry
            exact (resolveVersion_best hclient hentries hentry).satisfies

theorem validates_matches (hkind : spec.kind = .version) {version : Text} (h : w.validates spec version = true) :
    matchesRequirement w.tables spec.value version = true := by
  unfold validates at h
  rw [hkind] at h
  exact h

theorem satisfied_of_kept (h : w.resolveProject fuel files = (.ok names, r))
    (hkept : ∀ c, w.ProjectCalls fuel files c → c.Kept w) : w.Satisfied r := by
  obtain ⟨horderly, -, hintroduced⟩ := (resolveProject_spec (w := w) fuel files).1 names r h
  -- What a requirement has been resolved to, when it was its turn.
  have hturn : ∀ owner spec, w.Requires r owner spec → ∃ p, r.packages spec.name = some p ∧
      (spec.kind = .version → matchesRequirement w.tables spec.value p.version = true) ∧
      (spec.kind = .path → p.path = resolvePath owner spec.value) := by
    intro owner spec hrequires
    obtain ⟨c, hcalls, rfl, rfl⟩ := projectCalls_of_requires h hrequires
    obtain ⟨hc, -, name, r₁, hok, hkeeps⟩ := hcalls.ok h
    rcases Call.known_or_fresh hok with ⟨p, hp⟩ | hfresh
    · rw [resolve_known hp] at hok
      split at hok
      · next hvalid =>
          obtain ⟨-, rfl⟩ := Prod.mk.inj hok
          exact ⟨p, hkeeps _ _ hp, fun hkind => validates_matches hkind hvalid, fun hkind => (hkept c hcalls).path p hkind hp⟩
      · exact absurd (Prod.mk.inj hok).1 nofun
    · obtain ⟨p, hp, howner, hspec⟩ := Call.introduces hc hfresh hok
      have hfinal := hkeeps _ _ hp
      have hchosen := (horderly.chosen _ _ hfinal).2
      refine ⟨p, hfinal, fun hkind => ?_, fun hkind => ?_⟩
      · rw [← hspec]
        apply hchosen.satisfies (hspec ▸ hkind)
        rw [hspec]
        exact fun index entries locked entry => (hkept c hcalls).lock index entries locked entry hkind hfresh
      · rw [← howner, ← hspec]
        exact hchosen.path (hspec ▸ hkind)
  constructor
  · intro owner spec hrequires hkind
    obtain ⟨p, hp, hversion, -⟩ := hturn owner spec hrequires
    exact ⟨p, hp, hversion hkind⟩
  · intro owner spec hrequires hkind
    obtain ⟨p, hp, -, hpath⟩ := hturn owner spec hrequires
    exact ⟨p, hp, hpath hkind⟩
  · intro n d hd
    obtain ⟨p, hp, spec, hspec, rfl⟩ := horderly.dependsOn hd
    obtain ⟨q, hq, -⟩ := horderly.met n p hp spec hspec
    exact hq ▸ Option.some_ne_none q
  · exact horderly.listed
  · exact horderly.nodup
  · exact fun _ _ _ horder _ => horderly.before horder
  · exact horderly.acyclic
  · intro n p hp
    obtain ⟨hname, hchosen⟩ := horderly.chosen n p hp
    exact ⟨hchosen.name.symm.trans hname, hintroduced n p hp⟩
  · intro n p hp hkind hlocked
    obtain ⟨hname, hchosen⟩ := horderly.chosen n p hp
    have hn : p.spec.name = n := hchosen.name.symm.trans hname
    exact (hchosen.best hkind (hn ▸ hlocked)).1

/-- A resolution that fails to select a version has none, exactly if the texts can be read at all its calls. -/
theorem unselected_lawful_iff (h : w.resolveProject fuel files = (.error e, r)) :
    (∀ spec, e = .unselected spec → w.locked spec.name = none →
      ∀ v ∈ w.available spec.name, matchesRequirement w.tables spec.value v = false) ↔
        ∀ c, w.ProjectCalls fuel files c → c.Legible w := by
  constructor
  · rintro hnone c hcalls hkind hfresh hlocked ⟨v, hv, hmatch⟩
    cases hsingle : w.resolveSingle c.owner c.spec c.resolution with
    | mk outcome r₁ =>
        cases outcome with
        | ok package =>
            obtain ⟨hchosen, -, hspec⟩ := resolveSingle_ok hsingle
            rw [← hspec] at hkind hlocked ⊢
            exact (hchosen.best hkind hlocked).2
        | error e' =>
            rcases resolveSingle_fails hkind hlocked hsingle with hempty | rfl | hreadable
            · rw [hempty] at hv
              exact absurd hv List.not_mem_nil
            · have hfails := hcalls.error (resolve_unopened hfresh hsingle)
              obtain ⟨he, -⟩ := Prod.mk.inj (h.symm.trans hfails)
              rw [hnone c.spec (Except.error.inj he) hlocked v hv] at hmatch
              cases hmatch
            · exact hreadable
  · rintro hlegible spec rfl hlocked
    obtain ⟨c, hcalls, hfresh, hsingle⟩ := projectCalls_of_unselected h
    obtain rfl := resolveSingle_unselected hsingle
    have hjustified := resolveSingle_error hsingle
    exact (unselected_iff hjustified hlocked).mpr (hlegible c hcalls hjustified.1 hfresh hlocked)

/-- The outcome of a resolution is what it is to be exactly if, where it succeeds, every call resolves its name to the path and to a
version that are required, and, where it fails, the texts can be read at every call. -/
theorem resolution_lawful_iff (w : World) (fuel : Nat) (files : Files) : w.Lawful (w.resolveProject fuel files) ↔
    ((∃ names r, w.resolveProject fuel files = (.ok names, r)) → ∀ c, w.ProjectCalls fuel files c → c.Kept w) ∧
      ((∃ e r, w.resolveProject fuel files = (.error e, r)) → ∀ c, w.ProjectCalls fuel files c → c.Legible w) := by
  cases h : w.resolveProject fuel files with
  | mk outcome r =>
      cases outcome with
      | ok names =>
          constructor
          · intro hsatisfied
            exact ⟨fun _ c hcalls => kept_of_satisfied h hsatisfied hcalls, fun ⟨e, r', he⟩ => absurd (Prod.mk.inj he).1 nofun⟩
          · exact fun hkept => satisfied_of_kept h (hkept.1 ⟨names, r, rfl⟩)
      | error e =>
          have hiff := unselected_lawful_iff h
          constructor
          · intro hnone
            exact ⟨fun ⟨names, r', hok⟩ => absurd (Prod.mk.inj hok).1 nofun, fun _ => hiff.mp hnone⟩
          · exact fun hlegible => hiff.mpr (hlegible.2 ⟨e, r, rfl⟩)

end Outcome

/-! ### A lock that is not what is required -/

def asciiTables : TextTables where
  isSpace c := c = ' '
  isDigit c := c.isDigit
  int part := some (part.foldl (fun n c => 10 * n + (c.toNat - 48)) 0)

/-- The project requires the second version of a package of which the first one is locked. -/
def staleLock : World where
  tables := asciiTables
  root := "/p".toList
  dependencies := [⟨"a".toList, .version, "^2.0".toList⟩]
  locked name := if name = "a".toList then some ⟨"1.0.0".toList, "registry".toList⟩ else none
  registry _ := []
  client := some fun _ => some [⟨"1.0.0".toList, "u/a-1.tgz".toList, true, some fun _ => .absent⟩,
    ⟨"2.0.0".toList, "u/a-2.tgz".toList, true, some fun _ => .absent⟩]
  tmp := "/tmp/x".toList

theorem staleLock_unlawful : ¬ staleLock.Lawful (staleLock.resolveProject 1 fun _ => .absent) := by
  intro h
  have hok : (staleLock.resolveProject 1 fun _ => .absent).1 = .ok ["a".toList] := by decide
  have hversion : ((staleLock.resolveProject 1 fun _ => .absent).2.packages "a".toList).map ResolvedPackage.version =
      some "1.0.0".toList := by decide
  obtain ⟨p, hp, hmatch⟩ := (h.satisfied hok).versions staleLock.root ⟨"a".toList, .version, "^2.0".toList⟩
    (.inl ⟨rfl, List.mem_singleton_self _⟩) rfl
  rw [hp] at hversion
  rw [Option.some.inj hversion] at hmatch
  exact absurd hmatch (by decide)

end World

end Nodus.Packages
