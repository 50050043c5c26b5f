import Mathlib.Logic.Relation
import Nodus.Resolution

/-! What a resolution that succeeds has resolved. -/

namespace Nodus.Packages

open PosixPath

namespace World

variable {w : World} {r r' : Resolution} {p : ResolvedPackage} {owner : Path} {spec : DependencySpec}

/-! ### One requirement -/

/-- How a package has been chosen, by the requirement it was met with first. -/
structure Chosen (w : World) (p : ResolvedPackage) : Prop where
  name : p.name = p.spec.name
  path : p.spec.kind = .path → p.path = resolvePath p.owner p.spec.value
  remote : ∀ index, p.spec.kind = .version → w.client = some index → ∃ entries entry, index p.spec.name = some entries ∧
    w.resolveVersion entries (w.constraint p.spec) = some entry ∧ p.version = entry.version ∧ p.path = join w.stagingDir p.spec.name
  unlocked : p.spec.kind = .version → w.client = none → w.locked p.spec.name = none → ∃ package, w.selectUnlocked p.spec = some package ∧
    p.version = package.version ∧ p.path = package.path
  locked : ∀ locked, p.spec.kind = .version → w.client = none → w.locked p.spec.name = some locked → ∃ package,
    w.selectLocked p.spec locked = some package ∧ p.version = package.version ∧ p.path = package.path

/-- An error that says that no version can be selected comes from the selection. -/
def Justified (w : World) : ResolveError → Prop
  | .unselected spec => spec.kind = .version ∧ (w.locked spec.name = none →
      (w.client = none → w.selectUnlocked spec = none) ∧ ∀ index, w.client = some index →
        ∃ entries, index spec.name = some entries ∧ w.resolveVersion entries spec.value = none)
  | _ => True

theorem installPackage_frame (name : Text) (entry : VersionEntry) (r : Resolution) :
    (w.installPackage name entry r).2.packages = r.packages ∧ (w.installPackage name entry r).2.installOrder = r.installOrder := by
  unfold installPackage
  split
  · exact ⟨rfl, rfl⟩
  · simp only []
    split
    · exact ⟨rfl, rfl⟩
    · split
      · exact ⟨rfl, rfl⟩
      · exact ⟨rfl, rfl⟩

theorem resolveSingle_frame (owner : Path) (spec : DependencySpec) (r : Resolution) :
    (w.resolveSingle owner spec r).2.packages = r.packages ∧
      (w.resolveSingle owner spec r).2.installOrder = r.installOrder := by
  unfold resolveSingle
  split
  · simp only []
    split
    · exact ⟨rfl, rfl⟩
    · exact ⟨rfl, rfl⟩
  · split
    · exact ⟨rfl, rfl⟩
    · split
      · exact ⟨rfl, rfl⟩
      · next entry _ =>
          have hframe := installPackage_frame (w := w) spec.name entry r
          split
          · next h =>
              rw [h] at hframe
              exact hframe
          · next h =>
              rw [h] at hframe
              exact hframe
  · simp only []
    split
    · exact ⟨rfl, rfl⟩
    · exact ⟨rfl, rfl⟩

theorem resolveSingle_ok (h : w.resolveSingle owner spec r = (.ok p, r')) :
    w.Chosen p ∧ p.owner = owner ∧ p.spec = spec := by
  unfold resolveSingle at h
  split at h
  · next hkind =>
      simp only [] at h
      split at h
      · obtain ⟨hp, -⟩ := Prod.mk.inj h
        obtain rfl := Except.ok.inj hp
        refine ⟨⟨rfl, fun _ => rfl, ?_, ?_, ?_⟩, rfl, rfl⟩
        · exact fun _ hv => absurd (hkind.symm.trans hv) (by decide)
        · exact fun hv => absurd (hkind.symm.trans hv) (by decide)
        · exact fun _ hv => absurd (hkind.symm.trans hv) (by decide)
      · obtain ⟨hp, -⟩ := Prod.mk.inj h
        cases hp
  · next index hkind hclient =>
      split at h
      · obtain ⟨hp, -⟩ := Prod.mk.inj h
        cases hp
      · next entries hentries =>
          split at h
          · obtain ⟨hp, -⟩ := Prod.mk.inj h
            cases hp
          · next entry hentry =>
              split at h
              · obtain ⟨hp, -⟩ := Prod.mk.inj h
                cases hp
              · obtain ⟨hp, -⟩ := Prod.mk.inj h
                obtain rfl := Except.ok.inj hp
                refine ⟨⟨rfl, ?_, ?_, ?_, ?_⟩, rfl, rfl⟩
                · exact fun hpath => absurd (hkind.symm.trans hpath) (by decide)
                · intro index' _ hclient'
                  obtain rfl := Option.some.inj (hclient.symm.trans hclient')
                  exact ⟨entries, entry, hentries, hentry, rfl, rfl⟩
                · exact fun _ hnone => absurd (hclient.symm.trans hnone) nofun
                · exact fun _ _ hnone => absurd (hclient.symm.trans hnone) nofun
  · next hkind hclient =>
      simp only [] at h
      split at h
      · obtain ⟨hp, -⟩ := Prod.mk.inj h
        cases hp
      · next package hselected =>
          obtain ⟨hp, -⟩ := Prod.mk.inj h
          obtain rfl := Except.ok.inj hp
          refine ⟨⟨rfl, ?_, ?_, ?_, ?_⟩, rfl, rfl⟩
          · exact fun hpath => absurd (hkind.symm.trans hpath) (by decide)
          · exact fun _ _ hsome => absurd (hclient.symm.trans hsome) nofun
          · intro _ _ hnone
            rw [hnone] at hselected
            exact ⟨package, hselected, rfl, rfl⟩
          · intro locked _ _ hlocked
            rw [hlocked] at hselected
            simp only [] at hselected
            split at hselected
            · exact ⟨package, hselected, rfl, rfl⟩
            · cases hselected

theorem resolveSingle_error {e : ResolveError} (h : w.resolveSingle owner spec r = (.error e, r')) : w.Justified e := by
  unfold resolveSingle at h
  split at h
  · simp only [] at h
    split at h
    · obtain ⟨he, -⟩ := Prod.mk.inj h
      cases he
    · obtain ⟨he, -⟩ := Prod.mk.inj h
      obtain rfl := Except.error.inj he
      exact trivial
  · next index hkind hclient =>
      split at h
      · obtain ⟨he, -⟩ := Prod.mk.inj h
        obtain rfl := Except.error.inj he
        exact trivial
      · next entries hentries =>
          split at h
          · next hnone =>
              obtain ⟨he, -⟩ := Prod.mk.inj h
              obtain rfl := Except.error.inj he
              refine ⟨hkind, fun hlocked => ⟨fun hc => absurd (hclient.symm.trans hc) nofun, fun index' hclient' => ?_⟩⟩
              obtain rfl := Option.some.inj (hclient.symm.trans hclient')
              refine ⟨entries, hentries, ?_⟩
              unfold constraint at hnone
              rw [hlocked] at hnone
              exact hnone
          · split at h
            · obtain ⟨he, -⟩ := Prod.mk.inj h
              obtain rfl := Except.error.inj he
              exact trivial
            · obtain ⟨he, -⟩ := Prod.mk.inj h
              cases he
  · next hkind hclient =>
      simp only [] at h
      split at h
      · next hselected =>
          obtain ⟨he, -⟩ := Prod.mk.inj h
          obtain rfl := Except.error.inj he
          refine ⟨hkind, fun hlocked => ⟨fun _ => ?_, fun index hsome => absurd (hclient.symm.trans hsome) nofun⟩⟩
          rw [hlocked] at hselected
          exact hselected
      · obtain ⟨he, -⟩ := Prod.mk.inj h
        cases he

/-! ### The traversal -/

/-- A requirement has been met: it has introduced the package of its name, or the package is one that it accepts. -/
def Met (w : World) (r : Resolution) (owner : Path) (spec : DependencySpec) : Prop :=
  ∃ p, r.packages spec.name = some p ∧ (p.owner = owner ∧ p.spec = spec ∨ w.validates spec p.version = true)

/-- The packages so far. Each is listed after all that its manifest requires. -/
structure Orderly (w : World) (r : Resolution) : Prop where
  chosen : ∀ n p, r.packages n = some p → p.name = n ∧ w.Chosen p
  listed : ∀ n, n ∈ r.installOrder ↔ r.packages n ≠ none
  nodup : r.installOrder.Nodup
  met : ∀ n p, r.packages n = some p → ∀ spec ∈ p.specs, w.Met r p.path spec
  dependencies : ∀ n p, r.packages n = some p → ∀ d, d ∈ p.dependencies ↔ ∃ spec ∈ p.specs, spec.name = d
  ordered : ∀ before n after, r.installOrder = before ++ n :: after → ∀ p, r.packages n = some p →
    ∀ spec ∈ p.specs, spec.name ∈ before

/-- What is resolved stays resolved, and no name that is being resolved is resolved meanwhile. -/
structure Extends (visiting : List Text) (r r' : Resolution) : Prop where
  packages : ∀ n p, r.packages n = some p → r'.packages n = some p
  visiting : ∀ n ∈ visiting, r.packages n = none → r'.packages n = none

theorem Extends.refl (visiting : List Text) (r : Resolution) : Extends visiting r r := ⟨fun _ _ h => h, fun _ _ h => h⟩

theorem Extends.trans {visiting : List Text} {r'' : Resolution} (h : Extends visiting r r') (h' : Extends visiting r' r'') :
    Extends visiting r r'' :=
  ⟨fun n p hp => h'.packages n p (h.packages n p hp), fun n hn hnone => h'.visiting n hn (h.visiting n hn hnone)⟩

/-- A package has been introduced by what the manifest of another one requires. -/
def Descends (r : Resolution) (p : ResolvedPackage) : Prop := ∃ m q, r.packages m = some q ∧ p.owner = q.path ∧ p.spec ∈ q.specs

theorem Descends.extends {visiting : List Text} (h : Descends r p) (he : Extends visiting r r') : Descends r' p := by
  obtain ⟨m, q, hq, hrest⟩ := h
  exact ⟨m, q, he.packages m q hq, hrest⟩

/-- Every package that is new has been introduced by one of these requirements, or by what a manifest requires. -/
def Introduced (owner : Path) (specs : List DependencySpec) (r r' : Resolution) : Prop :=
  ∀ n p, r'.packages n = some p → r.packages n = some p ∨ (p.owner = owner ∧ p.spec ∈ specs) ∨ Descends r' p

theorem Met.extends {visiting : List Text} (h : w.Met r owner spec) (he : Extends visiting r r') : w.Met r' owner spec := by
  obtain ⟨p, hp, hcases⟩ := h
  exact ⟨p, he.packages _ p hp, hcases⟩

/-- What a call of `resolve_spec` does. -/
def Resolves (w : World) (visiting : List Text) (owner : Path) (spec : DependencySpec) (r : Resolution) :
    Except ResolveError Text × Resolution → Prop
  | (.ok name, r') => name = spec.name ∧ w.Orderly r' ∧ Extends visiting r r' ∧ w.Met r' owner spec ∧ Introduced owner [spec] r r'
  | (.error e, _) => w.Justified e

theorem resolveEach_spec (owner : Path) (visiting : List Text) {resolve : DependencySpec → Resolution → Except ResolveError Text × Resolution}
    (hresolve : ∀ spec r, w.Orderly r → w.Resolves visiting owner spec r (resolve spec r)) (specs : List DependencySpec)
    (hr : w.Orderly r) :
    (∀ names r', resolveEach resolve specs r = (.ok names, r') → names = specs.map DependencySpec.name ∧ w.Orderly r' ∧
      Extends visiting r r' ∧ (∀ spec ∈ specs, w.Met r' owner spec) ∧ Introduced owner specs r r') ∧
    ∀ e r', resolveEach resolve specs r = (.error e, r') → w.Justified e := by
  induction specs generalizing r with
  | nil =>
      refine ⟨fun names r' h => ?_, fun e r' h => ?_⟩
      · obtain ⟨hnames, rfl⟩ := Prod.mk.inj h
        obtain rfl := Except.ok.inj hnames
        exact ⟨rfl, hr, Extends.refl _ _, fun _ hspec => absurd hspec List.not_mem_nil, fun _ _ hp => .inl hp⟩
      · obtain ⟨he, -⟩ := Prod.mk.inj h
        cases he
  | cons spec rest ih =>
      have hfirst := hresolve spec r hr
      unfold resolveEach
      cases hresult : resolve spec r with
      | mk outcome r₁ =>
          rw [hresult] at hfirst
          cases outcome with
          | error e =>
              refine ⟨fun names r' h => ?_, fun e' r' h => ?_⟩
              · obtain ⟨he, -⟩ := Prod.mk.inj h
                cases he
              · obtain ⟨he, -⟩ := Prod.mk.inj h
                obtain rfl := Except.error.inj he
                exact hfirst
          | ok name =>
              obtain ⟨hname, horderly, hextends, hmet, hintroduced⟩ := hfirst
              obtain ⟨hok, herror⟩ := ih horderly
              cases hrest : resolveEach resolve rest r₁ with
              | mk outcome r₂ =>
                  cases outcome with
                  | error e =>
                      refine ⟨fun names r' h => ?_, fun e' r' h => ?_⟩
                      · simp only [hrest] at h
                        obtain ⟨he, -⟩ := Prod.mk.inj h
                        cases he
                      · simp only [hrest] at h
                        obtain ⟨he, -⟩ := Prod.mk.inj h
                        obtain rfl := Except.error.inj he
                        exact herror e r₂ hrest
                  | ok names₂ =>
                      obtain ⟨hnames, horderly₂, hextends₂, hmet₂, hintroduced₂⟩ := hok names₂ r₂ hrest
                      refine ⟨fun names r' h => ?_, fun e' r' h => ?_⟩
                      · simp only [hrest] at h
                        obtain ⟨hlist, rfl⟩ := Prod.mk.inj h
                        obtain rfl := Except.ok.inj hlist
                        refine ⟨by rw [hname, hnames]; rfl, horderly₂, hextends.trans hextends₂, fun other hother => ?_,
                          fun n p hp => ?_⟩
                        · rcases List.mem_cons.mp hother with rfl | hother
                          · exact hmet.extends hextends₂
                          · exact hmet₂ other hother
                        · rcases hintroduced₂ n p hp with hold | ⟨howner, hspec⟩ | hdescends
                          · rcases hintroduced n p hold with hold | ⟨howner, hspec⟩ | hdescends
                            · exact .inl hold
                            · exact .inr (.inl ⟨howner, List.mem_singleton.mp hspec ▸ List.mem_cons_self⟩)
                            · exact .inr (.inr (hdescends.extends hextends₂))
                          · exact .inr (.inl ⟨howner, List.mem_cons_of_mem _ hspec⟩)
                          · exact .inr (.inr hdescends)
                      · simp only [hrest] at h
                        obtain ⟨he, -⟩ := Prod.mk.inj h
                        cases he

theorem Orderly.add (hr : w.Orderly r) (hchosen : w.Chosen p) (hfresh : r.packages p.name = none) {specs : List DependencySpec}
    {names : List Text} (hnames : names = specs.map DependencySpec.name) (hmet : ∀ spec ∈ specs, w.Met r p.path spec) :
    w.Orderly { r with
      packages := Function.update r.packages p.name (some { p with dependencies := names.insertionSort (· ≤ ·), specs })
      installOrder := r.installOrder ++ [p.name] } := by
  have hother : ∀ {n q}, r.packages n = some q →
      Function.update r.packages p.name (some { p with dependencies := names.insertionSort (· ≤ ·), specs }) n = some q := by
    intro n q hq
    have hne : n ≠ p.name := by
      rintro rfl
      rw [hfresh] at hq
      cases hq
    rw [Function.update_of_ne hne]
    exact hq
  have hcases : ∀ {n q}, Function.update r.packages p.name
      (some { p with dependencies := names.insertionSort (· ≤ ·), specs }) n = some q →
        n = p.name ∧ q = { p with dependencies := names.insertionSort (· ≤ ·), specs } ∨ n ≠ p.name ∧ r.packages n = some q := by
    intro n q hq
    by_cases hn : n = p.name
    · subst hn
      rw [Function.update_self] at hq
      exact .inl ⟨rfl, (Option.some.inj hq).symm⟩
    · rw [Function.update_of_ne hn] at hq
      exact .inr ⟨hn, hq⟩
  have hkept : ∀ {owner spec}, w.Met r owner spec → w.Met { r with
      packages := Function.update r.packages p.name (some { p with dependencies := names.insertionSort (· ≤ ·), specs })
      installOrder := r.installOrder ++ [p.name] } owner spec := by
    rintro owner spec ⟨q, hq, hrest⟩
    exact ⟨q, hother hq, hrest⟩
  have hout : p.name ∉ r.installOrder := fun hmem => (hr.listed _).mp hmem hfresh
  constructor
  · intro n q hq
    rcases hcases hq with ⟨rfl, rfl⟩ | ⟨-, hq⟩
    · exact ⟨rfl, hchosen.name, hchosen.path, hchosen.remote, hchosen.unlocked, hchosen.locked⟩
    · exact hr.chosen n q hq
  · intro n
    show n ∈ r.installOrder ++ [p.name] ↔ Function.update r.packages p.name _ n ≠ none
    by_cases hn : n = p.name
    · subst hn
      rw [Function.update_self]
      simp
    · rw [Function.update_of_ne hn, ← hr.listed n]
      simp [hn]
  · exact List.nodup_append.mpr ⟨hr.nodup, List.nodup_singleton _, fun a ha b hb => by
      rintro rfl
      rw [List.mem_singleton.mp hb] at ha
      exact hout ha⟩
  · intro n q hq spec hspec
    rcases hcases hq with ⟨rfl, rfl⟩ | ⟨-, hq⟩
    · exact hkept (hmet spec hspec)
    · exact hkept (hr.met n q hq spec hspec)
  · intro n q hq d
    rcases hcases hq with ⟨rfl, rfl⟩ | ⟨-, hq⟩
    · show d ∈ names.insertionSort (· ≤ ·) ↔ _
      rw [(List.perm_insertionSort _ names).mem_iff, hnames, List.mem_map]
    · exact hr.dependencies n q hq d
  · intro before n after horder q hq spec hspec
    have horder : r.installOrder ++ [p.name] = before ++ n :: after := horder
    rcases hcases hq with ⟨rfl, rfl⟩ | ⟨hne, hq⟩
    · -- The name is new, so that it is the last one.
      obtain ⟨q, hq, -⟩ := hmet spec hspec
      have hlisted : spec.name ∈ r.installOrder := (hr.listed _).mpr (hq ▸ Option.some_ne_none q)
      rcases List.eq_nil_or_concat after with rfl | ⟨after', last, rfl⟩
      · have hbefore := (List.append_inj' horder rfl).1
        exact hbefore ▸ hlisted
      · have hsplit : r.installOrder ++ [p.name] = (before ++ p.name :: after') ++ [last] := by
          rw [horder]
          simp
        have hbefore := (List.append_inj' hsplit rfl).1
        exact absurd (hbefore ▸ List.mem_append_right _ List.mem_cons_self) hout
    · rcases List.eq_nil_or_concat after with rfl | ⟨after', last, rfl⟩
      · have hlast := (List.append_inj' horder rfl).2
        exact absurd (List.cons.inj hlast).1.symm hne
      · have hsplit : r.installOrder ++ [p.name] = (before ++ n :: after') ++ [last] := by
          rw [horder]
          simp
        exact hr.ordered before n after' (List.append_inj' hsplit rfl).1 q hq spec hspec

theorem resolveSpec_spec (fuel : Nat) (visiting : List Text) (owner : Path) (spec : DependencySpec) (r : Resolution)
    (hr : w.Orderly r) : w.Resolves visiting owner spec r (w.resolveSpec fuel visiting owner spec r) := by
  induction fuel generalizing visiting owner spec r with
  | zero => exact trivial
  | succ fuel ih =>
      unfold resolveSpec
      split
      · next package hpackage =>
          split
          · next hvalid =>
              exact ⟨(hr.chosen _ _ hpackage).1, hr, Extends.refl _ _, ⟨package, hpackage, .inr hvalid⟩, fun _ _ hp => .inl hp⟩
          · exact trivial
      · next hnone =>
          split
          · exact trivial
          · next hvisiting =>
              cases hsingle : w.resolveSingle owner spec r with
              | mk outcome r₁ =>
                  cases outcome with
                  | error e => exact resolveSingle_error hsingle
                  | ok package =>
                      obtain ⟨hchosen, howner, hspec⟩ := resolveSingle_ok hsingle
                      obtain ⟨hpackages, horder⟩ := resolveSingle_frame (w := w) owner spec r
                      rw [hsingle] at hpackages horder
                      have hname : package.name = spec.name := hchosen.name.trans (congrArg DependencySpec.name hspec)
                      have hr₁ : w.Orderly r₁ := by
                        obtain ⟨hc, hl, hn, hm, hd, ho⟩ := hr
                        unfold Met at hm
                        rw [← hpackages] at hc hl hm hd ho
                        rw [← horder] at hl hn ho
                        exact ⟨hc, hl, hn, hm, hd, ho⟩
                      simp only []
                      cases hspecs : loadDependencySpecs r₁.files package.path with
                      | none => exact trivial
                      | some specs =>
                          obtain ⟨hok, herror⟩ := resolveEach_spec package.path (visiting ++ [spec.name])
                            (fun other r hr => ih (visiting ++ [spec.name]) package.path other r hr) specs hr₁
                          simp only []
                          cases heach : resolveEach (w.resolveSpec fuel (visiting ++ [spec.name]) package.path) specs r₁ with
                          | mk outcome r₂ =>
                              cases outcome with
                              | error e => exact herror e r₂ heach
                              | ok names =>
                                  obtain ⟨hnames, hr₂, hextends, hmet, hintroduced⟩ := hok names r₂ heach
                                  have hnew : r₂.packages package.name = none := by
                                    apply hextends.visiting
                                    · rw [hname]
                                      exact List.mem_append_right _ List.mem_cons_self
                                    · rw [hpackages, hname]
                                      exact hnone
                                  have hadded : ∀ {n q}, r₂.packages n = some q → Function.update r₂.packages package.name
                                      (some { package with dependencies := names.insertionSort (· ≤ ·), specs }) n = some q := by
                                    intro n q hq
                                    rw [Function.update_of_ne]
                                    · exact hq
                                    · rintro rfl
                                      rw [hnew] at hq
                                      cases hq
                                  refine ⟨hname, hr₂.add hchosen hnew hnames hmet, ⟨fun n q hq => ?_, fun n hn hq => ?_⟩, ?_,
                                    fun n q hq => ?_⟩
                                  · exact hadded (hextends.packages n q (hpackages ▸ hq))
                                  · show Function.update r₂.packages package.name _ n = none
                                    rw [Function.update_of_ne]
                                    · exact hextends.visiting n (List.mem_append_left _ hn) (hpackages ▸ hq)
                                    · rintro rfl
                                      exact hvisiting (hname ▸ hn)
                                  · refine ⟨{ package with dependencies := names.insertionSort (· ≤ ·), specs }, ?_,
                                      .inl ⟨howner, hspec⟩⟩
                                    show Function.update r₂.packages package.name _ spec.name = _
                                    rw [← hname, Function.update_self]
                                  · have hq : Function.update r₂.packages package.name
                                        (some { package with dependencies := names.insertionSort (· ≤ ·), specs }) n = some q := hq
                                    by_cases hn : n = package.name
                                    · subst hn
                                      rw [Function.update_self] at hq
                                      obtain rfl := Option.some.inj hq
                                      exact .inr (.inl ⟨howner, List.mem_singleton.mpr hspec⟩)
                                    · rw [Function.update_of_ne hn] at hq
                                      rcases hintroduced n q hq with hold | ⟨hpath, hmem⟩ | ⟨m, parent, hparent, hrest⟩
                                      · exact .inl (hpackages ▸ hold)
                                      · refine .inr (.inr ⟨package.name,
                                          { package with dependencies := names.insertionSort (· ≤ ·), specs }, ?_, hpath, hmem⟩)
                                        exact Function.update_self _ _ _
                                      · exact .inr (.inr ⟨m, parent, hadded hparent, hrest⟩)

theorem prepare_empty (files : Files) :
    (w.prepare files).packages = (fun _ => none) ∧ (w.prepare files).installOrder = [] := by
  unfold prepare
  split
  · exact ⟨rfl, rfl⟩
  · exact ⟨rfl, rfl⟩

theorem orderly_prepare (files : Files) : w.Orderly (w.prepare files) := by
  have hnone := prepare_empty (w := w) files
  have hempty : ∀ {n p}, (w.prepare files).packages n ≠ some p := by
    intro n p hp
    rw [hnone.1] at hp
    cases hp
  refine ⟨fun n p hp => absurd hp hempty, fun n => ?_, ?_, fun n p hp => absurd hp hempty, fun n p hp => absurd hp hempty, ?_⟩
  · rw [hnone.1, hnone.2]
    exact ⟨fun hn => absurd hn List.not_mem_nil, fun hn => absurd rfl hn⟩
  · rw [hnone.2]
    exact List.nodup_nil
  · intro before n after horder
    rw [hnone.2] at horder
    exact absurd horder.symm (List.append_ne_nil_of_right_ne_nil _ (List.cons_ne_nil _ _))

/-- A requirement of the project, or of the manifest of a package. -/
def Requires (w : World) (r : Resolution) (owner : Path) (spec : DependencySpec) : Prop :=
  owner = w.root ∧ spec ∈ w.dependencies ∨ ∃ n p, r.packages n = some p ∧ owner = p.path ∧ spec ∈ p.specs

/-- A resolution of a project that succeeds has met all that is required, and nothing else; one that fails says why. -/
theorem resolveProject_spec (fuel : Nat) (files : Files) :
    (∀ names r, w.resolveProject fuel files = (.ok names, r) →
      w.Orderly r ∧ (∀ owner spec, w.Requires r owner spec → w.Met r owner spec) ∧
        ∀ n p, r.packages n = some p → w.Requires r p.owner p.spec) ∧
    ∀ e r, w.resolveProject fuel files = (.error e, r) → w.Justified e := by
  obtain ⟨hok, herror⟩ := resolveEach_spec w.root []
    (fun spec r hr => resolveSpec_spec (w := w) fuel [] w.root spec r hr) w.dependencies (orderly_prepare (w := w) files)
  refine ⟨fun names r h => ?_, herror⟩
  obtain ⟨-, horderly, -, hmet, hintroduced⟩ := hok names r h
  refine ⟨horderly, fun owner spec hrequires => ?_, fun n p hp => ?_⟩
  · rcases hrequires with ⟨rfl, hspec⟩ | ⟨n, p, hp, rfl, hspec⟩
    · exact hmet spec hspec
    · exact horderly.met n p hp spec hspec
  · rcases hintroduced n p hp with hold | hroot | ⟨m, q, hq, hrest⟩
    · rw [(prepare_empty files).1] at hold
      cases hold
    · exact .inl hroot
    · exact .inr ⟨m, q, hq, hrest⟩

end World

end Nodus.Packages
