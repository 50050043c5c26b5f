import Nodus.Requirements

/-! The calls of `resolve_spec` that the resolution of a project makes. -/

namespace Nodus.Packages

open PosixPath

namespace World

variable {w : World} {r r' : Resolution} {p : ResolvedPackage} {owner : Path} {spec : DependencySpec} {e : ResolveError}

/-! ### Requirements one after the other -/

section Each

variable {resolve : DependencySpec → Resolution → Except ResolveError Text × Resolution} {before after specs : List DependencySpec}

theorem resolveEach_cons_ok {names : List Text} : resolveEach resolve (spec :: specs) r = (.ok names, r') ↔
    ∃ name r₁ names₁, resolve spec r = (.ok name, r₁) ∧ resolveEach resolve specs r₁ = (.ok names₁, r') ∧ names = name :: names₁ := by
  rw [resolveEach]
  constructor
  · intro h
    cases hfirst : resolve spec r with
    | mk outcome r₁ =>
        rw [hfirst] at h
        cases outcome with
        | error e => exact absurd (Prod.mk.inj h).1 nofun
        | ok name =>
            simp only [] at h
            cases hrest : resolveEach resolve specs r₁ with
            | mk outcome r₂ =>
                rw [hrest] at h
                cases outcome with
                | error e => exact absurd (Prod.mk.inj h).1 nofun
                | ok names₁ =>
                    obtain ⟨hnames, rfl⟩ := Prod.mk.inj h
                    exact ⟨name, r₁, names₁, rfl, hrest, (Except.ok.inj hnames).symm⟩
  · rintro ⟨name, r₁, names₁, hfirst, hrest, rfl⟩
    rw [hfirst]
    simp only [hrest]

theorem resolveEach_cons_error : resolveEach resolve (spec :: specs) r = (.error e, r') ↔
    resolve spec r = (.error e, r') ∨
      ∃ name r₁, resolve spec r = (.ok name, r₁) ∧ resolveEach resolve specs r₁ = (.error e, r') := by
  rw [resolveEach]
  constructor
  · intro h
    cases hfirst : resolve spec r with
    | mk outcome r₁ =>
        rw [hfirst] at h
        cases outcome with
        | error e' =>
            obtain ⟨he, rfl⟩ := Prod.mk.inj h
            obtain rfl := Except.error.inj he
            exact .inl rfl
        | ok name =>
            simp only [] at h
            cases hrest : resolveEach resolve specs r₁ with
            | mk outcome r₂ =>
                rw [hrest] at h
                cases outcome with
                | error e' =>
                    obtain ⟨he, rfl⟩ := Prod.mk.inj h
                    obtain rfl := Except.error.inj he
                    exact .inr ⟨name, r₁, rfl, hrest⟩
                | ok names => cases (Prod.mk.inj h).1
  · rintro (h | ⟨name, r₁, hfirst, hrest⟩)
    · rw [h]
    · rw [hfirst]
      simp only [hrest]

theorem resolveEach_ok_at {names : List Text} (h : resolveEach resolve (before ++ spec :: after) r = (.ok names, r')) :
    ∃ names₁ r₁ name r₂ names₂, resolveEach resolve before r = (.ok names₁, r₁) ∧ resolve spec r₁ = (.ok name, r₂) ∧
      resolveEach resolve after r₂ = (.ok names₂, r') := by
  induction before generalizing r names with
  | nil =>
      obtain ⟨name, r₁, names₁, hfirst, hrest, -⟩ := resolveEach_cons_ok.mp h
      exact ⟨[], r, name, r₁, names₁, rfl, hfirst, hrest⟩
  | cons first before ih =>
      obtain ⟨name, r₁, names₁, hfirst, hrest, -⟩ := resolveEach_cons_ok.mp h
      obtain ⟨names₂, r₂, name', r₃, names₃, hbefore, hspec, hafter⟩ := ih hrest
      exact ⟨name :: names₂, r₂, name', r₃, names₃, resolveEach_cons_ok.mpr ⟨name, r₁, names₂, hfirst, hbefore, rfl⟩, hspec, hafter⟩

theorem resolveEach_error_at {names : List Text} {r₁ : Resolution} (hbefore : resolveEach resolve before r = (.ok names, r₁))
    (hspec : resolve spec r₁ = (.error e, r')) : resolveEach resolve (before ++ spec :: after) r = (.error e, r') := by
  induction before generalizing r names with
  | nil =>
      obtain ⟨-, rfl⟩ := Prod.mk.inj hbefore
      exact resolveEach_cons_error.mpr (.inl hspec)
  | cons first before ih =>
      obtain ⟨name, r₂, names₁, hfirst, hrest, -⟩ := resolveEach_cons_ok.mp hbefore
      exact resolveEach_cons_error.mpr (.inr ⟨name, r₂, hfirst, ih hrest⟩)

theorem resolveEach_error (h : resolveEach resolve specs r = (.error e, r')) : ∃ before spec after names r₁,
    specs = before ++ spec :: after ∧ resolveEach resolve before r = (.ok names, r₁) ∧ resolve spec r₁ = (.error e, r') := by
  induction specs generalizing r with
  | nil => exact absurd (Prod.mk.inj h).1 nofun
  | cons first specs ih =>
      rcases resolveEach_cons_error.mp h with hfirst | ⟨name, r₁, hfirst, hrest⟩
      · exact ⟨[], first, specs, [], r, rfl, rfl, hfirst⟩
      · obtain ⟨before, spec, after, names, r₂, rfl, hbefore, hspec⟩ := ih hrest
        exact ⟨first :: before, spec, after, name :: names, r₂, rfl,
          resolveEach_cons_ok.mpr ⟨name, r₁, names, hfirst, hbefore, rfl⟩, hspec⟩

end Each

/-! ### The calls -/

/-- A call of `resolve_spec`, of which as many may still follow one below the other. -/
structure Call where
  fuel : Nat
  visiting : List Text
  owner : Path
  spec : DependencySpec
  resolution : Resolution

def Call.resolve (w : World) (c : Call) : Except ResolveError Text × Resolution :=
  w.resolveSpec (c.fuel + 1) c.visiting c.owner c.spec c.resolution

/-- The name has not been resolved, and is not being resolved. -/
def Call.Fresh (c : Call) : Prop := c.resolution.packages c.spec.name = none ∧ c.spec.name ∉ c.visiting

/-- The call for a requirement of a manifest, when it is its turn. -/
def Turn (w : World) (fuel : Nat) (visiting : List Text) (owner : Path) (specs : List DependencySpec) (r : Resolution) (c : Call) :
    Prop :=
  c.fuel + 1 = fuel ∧ c.visiting = visiting ∧ c.owner = owner ∧ ∃ before after names, specs = before ++ c.spec :: after ∧
    resolveEach (w.resolveSpec fuel visiting owner) before r = (.ok names, c.resolution)

/-- A call reads the manifest of the package that it selects. -/
def Call.Opens (w : World) (c : Call) (package : ResolvedPackage) (specs : List DependencySpec) (r : Resolution) : Prop :=
  c.Fresh ∧ w.resolveSingle c.owner c.spec c.resolution = (.ok package, r) ∧ loadDependencySpecs r.files package.path = some specs

/-- The calls that a call makes, itself among them. -/
inductive Calls (w : World) (target : Call) : Call → Prop where
  | here : Calls w target target
  | inner {c c' : Call} {package : ResolvedPackage} {specs : List DependencySpec} {r : Resolution} (opens : c.Opens w package specs r)
      (turn : w.Turn c.fuel (c.visiting ++ [c.spec.name]) package.path specs r c') (calls : Calls w target c') : Calls w target c

/-- The calls that the resolution of a project makes. -/
def ProjectCalls (w : World) (fuel : Nat) (files : Files) (target : Call) : Prop :=
  ∃ c, w.Turn fuel [] w.root w.dependencies (w.prepare files) c ∧ Calls w target c

/-- The package is added to those that its requirements have left. -/
def added (r : Resolution) (package : ResolvedPackage) (specs : List DependencySpec) (names : List Text) : Resolution :=
  { r with
    packages := Function.update r.packages package.name (some
      { package with dependencies := names.insertionSort (· ≤ ·), specs })
    installOrder := r.installOrder ++ [package.name] }

variable {c target : Call} {package : ResolvedPackage} {specs : List DependencySpec}

theorem resolve_known (h : c.resolution.packages c.spec.name = some package) :
    c.resolve w = if w.validates c.spec package.version then (.ok package.name, c.resolution)
      else (.error (.unsatisfied c.spec), c.resolution) := by
  unfold Call.resolve
  rw [resolveSpec, h]

theorem resolve_visited (h : c.resolution.packages c.spec.name = none) (hvisiting : c.spec.name ∈ c.visiting) :
    c.resolve w = (.error (.cyclic (c.visiting ++ [c.spec.name])), c.resolution) := by
  unfold Call.resolve
  rw [resolveSpec, h]
  simp only [hvisiting, if_true]

theorem resolve_unopened (h : c.Fresh) (hsingle : w.resolveSingle c.owner c.spec c.resolution = (.error e, r)) :
    c.resolve w = (.error e, r) := by
  unfold Call.resolve
  rw [resolveSpec, h.1]
  simp only [h.2, if_false, hsingle]

theorem resolve_unread (h : c.Fresh) (hsingle : w.resolveSingle c.owner c.spec c.resolution = (.ok package, r))
    (hmanifest : loadDependencySpecs r.files package.path = none) : c.resolve w = (.error (.manifest package.path), r) := by
  unfold Call.resolve
  rw [resolveSpec, h.1]
  simp only [h.2, if_false, hsingle, hmanifest]

theorem resolve_opens_error (h : c.Opens w package specs r)
    (heach : resolveEach (w.resolveSpec c.fuel (c.visiting ++ [c.spec.name]) package.path) specs r = (.error e, r')) :
    c.resolve w = (.error e, r') := by
  unfold Call.resolve
  rw [resolveSpec, h.1.1]
  simp only [h.1.2, if_false, h.2.1, h.2.2, heach]

theorem resolve_opens_ok (h : c.Opens w package specs r) {names : List Text}
    (heach : resolveEach (w.resolveSpec c.fuel (c.visiting ++ [c.spec.name]) package.path) specs r = (.ok names, r')) :
    c.resolve w = (.ok package.name, added r' package specs names) := by
  unfold Call.resolve
  rw [resolveSpec, h.1.1]
  simp only [h.1.2, if_false, h.2.1, h.2.2, heach]
  rfl

theorem Call.cases (w : World) (c : Call) :
    (∃ package, c.resolution.packages c.spec.name = some package) ∨ (∃ e, c.spec.name ∈ c.visiting ∧ c.resolve w = (.error (.cyclic e), c.resolution)) ∨
      (∃ e r, c.Fresh ∧ w.resolveSingle c.owner c.spec c.resolution = (.error e, r) ∧ c.resolve w = (.error e, r)) ∨
      (∃ package r, c.Fresh ∧ w.resolveSingle c.owner c.spec c.resolution = (.ok package, r) ∧
        loadDependencySpecs r.files package.path = none ∧ c.resolve w = (.error (.manifest package.path), r)) ∨
      ∃ package specs r, c.Opens w package specs r := by
  cases hpackage : c.resolution.packages c.spec.name with
  | some package => exact .inl ⟨package, rfl⟩
  | none =>
      by_cases hvisiting : c.spec.name ∈ c.visiting
      · exact .inr (.inl ⟨_, hvisiting, resolve_visited hpackage hvisiting⟩)
      · have hfresh : c.Fresh := ⟨hpackage, hvisiting⟩
        cases hsingle : w.resolveSingle c.owner c.spec c.resolution with
        | mk outcome r =>
            cases outcome with
            | error e => exact .inr (.inr (.inl ⟨e, r, hfresh, rfl, resolve_unopened hfresh hsingle⟩))
            | ok package =>
                cases hmanifest : loadDependencySpecs r.files package.path with
                | none => exact .inr (.inr (.inr (.inl ⟨package, r, hfresh, rfl, hmanifest, resolve_unread hfresh hsingle hmanifest⟩)))
                | some specs => exact .inr (.inr (.inr (.inr ⟨package, specs, r, hfresh, hsingle, hmanifest⟩)))

/-! ### What is resolved by then -/

theorem opens_spec (hr : w.Orderly c.resolution) (h : c.Opens w package specs r) : package.name = c.spec.name ∧ package.owner = c.owner ∧
    package.spec = c.spec ∧ w.Orderly r ∧ r.packages = c.resolution.packages := by
  obtain ⟨hchosen, howner, hspec⟩ := resolveSingle_ok h.2.1
  obtain ⟨hpackages, horder⟩ := resolveSingle_frame (w := w) c.owner c.spec c.resolution
  rw [h.2.1] at hpackages horder
  refine ⟨hchosen.name.trans (congrArg DependencySpec.name hspec), howner, hspec, ?_, hpackages⟩
  obtain ⟨hc, hl, hn, hm, hd, ho⟩ := hr
  unfold Met at hm
  rw [← hpackages] at hc hl hm hd ho
  rw [← horder] at hl hn ho
  exact ⟨hc, hl, hn, hm, hd, ho⟩

theorem resolveEach_grows {fuel : Nat} {visiting : List Text} {names : List Text} (hr : w.Orderly r)
    (h : resolveEach (w.resolveSpec fuel visiting owner) specs r = (.ok names, r')) : w.Orderly r' ∧ Extends visiting r r' := by
  obtain ⟨-, horderly, hextends, -⟩ := (resolveEach_spec owner visiting
    (fun spec r hr => resolveSpec_spec (w := w) fuel visiting owner spec r hr) specs hr).1 names r' h
  exact ⟨horderly, hextends⟩

theorem added_keeps {names : List Text} (hnone : r.packages package.name = none) {n : Text} (h : r.packages n = some p) :
    (added r package specs names).packages n = some p := by
  show Function.update r.packages package.name _ n = some p
  rw [Function.update_of_ne]
  · exact h
  · rintro rfl
    rw [hnone] at h
    cases h

theorem Turn.ok {fuel : Nat} {visiting names : List Text} (hr : w.Orderly r) (hturn : w.Turn fuel visiting owner specs r c)
    (h : resolveEach (w.resolveSpec fuel visiting owner) specs r = (.ok names, r')) : w.Orderly c.resolution ∧
      ∃ name r₁, c.resolve w = (.ok name, r₁) ∧ ∀ n p, r₁.packages n = some p → r'.packages n = some p := by
  obtain ⟨rfl, rfl, rfl, before, after, names₁, rfl, hbefore⟩ := hturn
  obtain ⟨names₂, r₂, name, r₃, names₃, hbefore', hspec, hafter⟩ := resolveEach_ok_at h
  obtain ⟨-, rfl⟩ := Prod.mk.inj (hbefore.symm.trans hbefore')
  have hc := (resolveEach_grows hr hbefore).1
  have hresolves := resolveSpec_spec (w := w) (c.fuel + 1) c.visiting c.owner c.spec c.resolution hc
  rw [hspec] at hresolves
  exact ⟨hc, name, r₃, hspec, (resolveEach_grows hresolves.2.1 hafter).2.packages⟩

/-- A call for a requirement of one of these manifests. -/
def Call.Belongs (c : Call) (owner : Path) (specs : List DependencySpec) (r : Resolution) : Prop :=
  c.owner = owner ∧ c.spec ∈ specs ∨ ∃ n p, r.packages n = some p ∧ c.owner = p.path ∧ c.spec ∈ p.specs

theorem Calls.ok (hcalls : Calls w target c) {name : Text} (hr : w.Orderly c.resolution) (h : c.resolve w = (.ok name, r')) :
    w.Orderly target.resolution ∧ target.Belongs c.owner [c.spec] r' ∧
      ∃ name r₁, target.resolve w = (.ok name, r₁) ∧ ∀ n p, r₁.packages n = some p → r'.packages n = some p := by
  induction hcalls generalizing name r' with
  | here => exact ⟨hr, .inl ⟨rfl, List.mem_singleton_self _⟩, name, r', h, fun _ _ hp => hp⟩
  | @inner c c' package specs r opens turn calls ih =>
      obtain ⟨hname, -, -, hr₁, hpackages⟩ := opens_spec hr opens
      cases heach : resolveEach (w.resolveSpec c.fuel (c.visiting ++ [c.spec.name]) package.path) specs r with
      | mk outcome r₂ =>
          cases outcome with
          | error e => exact absurd (Prod.mk.inj (h.symm.trans (resolve_opens_error opens heach))).1 nofun
          | ok names =>
              obtain ⟨-, rfl⟩ := Prod.mk.inj (h.symm.trans (resolve_opens_ok opens heach))
              have hnew : r₂.packages package.name = none := by
                apply (resolveEach_grows hr₁ heach).2.visiting
                · rw [hname]
                  exact List.mem_append_right _ List.mem_cons_self
                · rw [hpackages, hname]
                  exact opens.1.1
              obtain ⟨hc', name', r₃, hc'ok, hkeeps⟩ := turn.ok hr₁ heach
              obtain ⟨horderly, hbelongs, name'', r₄, hok, hkeeps'⟩ := ih hc' hc'ok
              refine ⟨horderly, .inr ?_, name'', r₄, hok, fun n p hp => added_keeps hnew (hkeeps n p (hkeeps' n p hp))⟩
              rcases hbelongs with ⟨howner, hspec⟩ | ⟨n, p, hp, hrest⟩
              · obtain ⟨-, -, hc'owner, before, after, names', hsplit, -⟩ := turn
                refine ⟨package.name, { package with dependencies := names.insertionSort (· ≤ ·), specs },
                  Function.update_self .., howner.trans hc'owner, ?_⟩
                rw [List.mem_singleton.mp hspec, hsplit]
                exact List.mem_append_right _ List.mem_cons_self
              · exact ⟨n, p, added_keeps hnew (hkeeps n p hp), hrest⟩

theorem Calls.error (hcalls : Calls w target c) (h : target.resolve w = (.error e, r')) : c.resolve w = (.error e, r') := by
  induction hcalls with
  | here => exact h
  | inner opens turn calls ih =>
      obtain ⟨hfuel, hvisiting, howner, before, after, names, rfl, hbefore⟩ := turn
      apply resolve_opens_error opens
      apply resolveEach_error_at hbefore
      have hinner := ih
      unfold Call.resolve at hinner
      rw [hfuel, hvisiting, howner] at hinner
      exact hinner

/-! ### The calls for the requirements -/

theorem resolveEach_new {resolve : DependencySpec → Resolution → Except ResolveError Text × Resolution} {names : List Text}
    (h : resolveEach resolve specs r = (.ok names, r')) {n : Text} (hp : r'.packages n = some p) : r.packages n = some p ∨
      ∃ before spec after names₁ r₁ name r₂, specs = before ++ spec :: after ∧ resolveEach resolve before r = (.ok names₁, r₁) ∧
        resolve spec r₁ = (.ok name, r₂) ∧ r₂.packages n = some p ∧ r₁.packages n ≠ some p := by
  induction specs generalizing r names with
  | nil =>
      obtain ⟨-, rfl⟩ := Prod.mk.inj h
      exact .inl hp
  | cons first specs ih =>
      obtain ⟨name, r₁, names₁, hfirst, hrest, rfl⟩ := resolveEach_cons_ok.mp h
      rcases ih hrest with hold | ⟨before, spec, after, names₂, r₂, name₂, r₃, rfl, hbefore, hspec⟩
      · by_cases hr : r.packages n = some p
        · exact .inl hr
        · exact .inr ⟨[], first, specs, [], r, name, r₁, rfl, rfl, hfirst, hold, hr⟩
      · exact .inr ⟨first :: before, spec, after, name :: names₂, r₂, name₂, r₃, rfl,
          resolveEach_cons_ok.mpr ⟨name, r₁, names₂, hfirst, hbefore, rfl⟩, hspec⟩

/-- A requirement that is resolved, or fails, in its turn is a call if the interpreter has not ended the recursion there. -/
theorem turn_of {fuel : Nat} {visiting names : List Text} {before : List DependencySpec} (after : List DependencySpec)
    (hbefore : resolveEach (w.resolveSpec fuel visiting owner) before r = (.ok names, r')) {outcome : Except ResolveError Text × Resolution}
    (hspec : w.resolveSpec fuel visiting owner spec r' = outcome) (houtcome : outcome.1 ≠ .error .recursion) :
    ∃ c, w.Turn fuel visiting owner (before ++ spec :: after) r c ∧ c.owner = owner ∧ c.spec = spec ∧ c.resolution = r' ∧
      c.resolve w = outcome := by
  cases fuel with
  | zero =>
      obtain rfl := hspec
      exact absurd rfl houtcome
  | succ fuel => exact ⟨⟨fuel, visiting, owner, spec, r'⟩, ⟨rfl, rfl, rfl, before, after, names, rfl, hbefore⟩, rfl, rfl, rfl, hspec⟩

theorem turn_of_mem {fuel : Nat} {visiting names : List Text} (h : resolveEach (w.resolveSpec fuel visiting owner) specs r = (.ok names, r'))
    (hspec : spec ∈ specs) : ∃ c, w.Turn fuel visiting owner specs r c ∧ c.owner = owner ∧ c.spec = spec := by
  obtain ⟨before, after, rfl⟩ := List.append_of_mem hspec
  obtain ⟨names₁, r₁, name, r₂, names₂, hbefore, hresolve, -⟩ := resolveEach_ok_at h
  obtain ⟨c, hturn, howner, hc, -⟩ := turn_of after hbefore hresolve nofun
  exact ⟨c, hturn, howner, hc⟩

theorem Call.serves {fuel : Nat} {c : Call} (hfuel : c.fuel = fuel) {name : Text} (h : c.resolve w = (.ok name, r')) {n : Text}
    (hp : r'.packages n = some p) : c.resolution.packages n = some p ∨
      ∀ spec ∈ p.specs, ∃ target, Calls w target c ∧ target.owner = p.path ∧ target.spec = spec := by
  induction fuel using Nat.strong_induction_on generalizing c name r' p with
  | _ fuel ih =>
      rcases c.cases w with ⟨package, hpackage⟩ | ⟨e, -, he⟩ | ⟨e, r, -, -, he⟩ | ⟨package, r, -, -, -, he⟩ | ⟨package, specs, r, hopens⟩
      · rw [resolve_known hpackage] at h
        split at h
        · obtain ⟨-, rfl⟩ := Prod.mk.inj h
          exact .inl hp
        · exact absurd (Prod.mk.inj h).1 nofun
      · exact absurd (Prod.mk.inj (h.symm.trans he)).1 nofun
      · exact absurd (Prod.mk.inj (h.symm.trans he)).1 nofun
      · exact absurd (Prod.mk.inj (h.symm.trans he)).1 nofun
      · have hpackages := (resolveSingle_frame (w := w) c.owner c.spec c.resolution).1
        rw [hopens.2.1] at hpackages
        cases heach : resolveEach (w.resolveSpec c.fuel (c.visiting ++ [c.spec.name]) package.path) specs r with
        | mk outcome r₂ =>
            cases outcome with
            | error e => exact absurd (Prod.mk.inj (h.symm.trans (resolve_opens_error hopens heach))).1 nofun
            | ok names =>
                obtain ⟨-, rfl⟩ := Prod.mk.inj (h.symm.trans (resolve_opens_ok hopens heach))
                have hp : Function.update r₂.packages package.name
                  (some { package with dependencies := names.insertionSort (· ≤ ·), specs }) n = some p := hp
                by_cases hn : n = package.name
                · subst hn
                  rw [Function.update_self] at hp
                  obtain rfl := Option.some.inj hp
                  refine .inr fun spec hspec => ?_
                  obtain ⟨c', hturn, howner, hc'⟩ := turn_of_mem heach hspec
                  exact ⟨c', .inner hopens hturn .here, howner, hc'⟩
                · rw [Function.update_of_ne hn] at hp
                  rcases resolveEach_new heach hp with hold | ⟨before, spec, after, names₁, r₃, name, r₄, rfl, hbefore, hspec, hnew, hne⟩
                  · exact .inl (hpackages ▸ hold)
                  · obtain ⟨c', hturn, -, -, hr₃, hc'⟩ := turn_of after hbefore hspec nofun
                    rcases ih c'.fuel (hfuel ▸ hturn.1 ▸ Nat.lt_succ_self _) rfl hc' hnew with hold | hcalls
                    · exact absurd (hr₃ ▸ hold) hne
                    · refine .inr fun spec hspec => ?_
                      obtain ⟨target, hcalls, htarget⟩ := hcalls spec hspec
                      exact ⟨target, .inner hopens hturn hcalls, htarget⟩

/-- A call that fails because no version is selected makes a call for the requirement of which that is said. -/
theorem Call.fails {fuel : Nat} {c : Call} (hfuel : c.fuel = fuel) (h : c.resolve w = (.error (.unselected spec), r')) :
    ∃ target, Calls w target c ∧ target.Fresh ∧
      w.resolveSingle target.owner target.spec target.resolution = (.error (.unselected spec), r') := by
  induction fuel using Nat.strong_induction_on generalizing c with
  | _ fuel ih =>
      rcases c.cases w with ⟨package, hpackage⟩ | ⟨e, -, he⟩ | ⟨e, r, hfresh, hsingle, he⟩ | ⟨package, r, -, -, -, he⟩ |
          ⟨package, specs, r, hopens⟩
      · rw [resolve_known hpackage] at h
        split at h
        · exact absurd (Prod.mk.inj h).1 nofun
        · exact absurd (Except.error.inj (Prod.mk.inj h).1) nofun
      · exact absurd (Except.error.inj (Prod.mk.inj (h.symm.trans he)).1) nofun
      · obtain ⟨herror, rfl⟩ := Prod.mk.inj (he.symm.trans h)
        obtain rfl := Except.error.inj herror
        exact ⟨c, .here, hfresh, hsingle⟩
      · exact absurd (Except.error.inj (Prod.mk.inj (h.symm.trans he)).1) nofun
      · cases heach : resolveEach (w.resolveSpec c.fuel (c.visiting ++ [c.spec.name]) package.path) specs r with
        | mk outcome r₂ =>
            cases outcome with
            | ok names => exact absurd (Prod.mk.inj (h.symm.trans (resolve_opens_ok hopens heach))).1 nofun
            | error e =>
                obtain ⟨herror, rfl⟩ := Prod.mk.inj ((resolve_opens_error hopens heach).symm.trans h)
                obtain rfl := Except.error.inj herror
                obtain ⟨before, other, after, names, r₃, rfl, hbefore, hother⟩ := resolveEach_error heach
                obtain ⟨c', hturn, -, -, -, hc'⟩ := turn_of after hbefore hother nofun
                obtain ⟨target, hcalls, htarget⟩ := ih c'.fuel (hfuel ▸ hturn.1 ▸ Nat.lt_succ_self _) rfl hc'
                exact ⟨target, .inner hopens hturn hcalls, htarget⟩

/-! ### The calls of a project -/

variable {fuel : Nat} {files : Files}

theorem ProjectCalls.ok (hcalls : w.ProjectCalls fuel files target) {names : List Text}
    (h : w.resolveProject fuel files = (.ok names, r)) : w.Orderly target.resolution ∧ w.Requires r target.owner target.spec ∧
      ∃ name r₁, target.resolve w = (.ok name, r₁) ∧ ∀ n p, r₁.packages n = some p → r.packages n = some p := by
  obtain ⟨c, hturn, hcalls⟩ := hcalls
  obtain ⟨hc, name, r₁, hok, hkeeps⟩ := hturn.ok (orderly_prepare files) h
  obtain ⟨horderly, hbelongs, name', r₂, hok', hkeeps'⟩ := hcalls.ok hc hok
  refine ⟨horderly, ?_, name', r₂, hok', fun n p hp => hkeeps n p (hkeeps' n p hp)⟩
  rcases hbelongs with ⟨howner, hspec⟩ | ⟨n, p, hp, hrest⟩
  · obtain ⟨-, -, hroot, before, after, names', hsplit, -⟩ := hturn
    refine .inl ⟨howner.trans hroot, ?_⟩
    rw [List.mem_singleton.mp hspec, hsplit]
    exact List.mem_append_right _ List.mem_cons_self
  · exact .inr ⟨n, p, hkeeps n p hp, hrest⟩

theorem ProjectCalls.error (hcalls : w.ProjectCalls fuel files target) (h : target.resolve w = (.error e, r)) :
    w.resolveProject fuel files = (.error e, r) := by
  obtain ⟨c, ⟨hfuel, hvisiting, howner, before, after, names, hsplit, hbefore⟩, hcalls⟩ := hcalls
  have hc := hcalls.error h
  unfold Call.resolve at hc
  rw [hfuel, hvisiting, howner] at hc
  unfold resolveProject
  rw [hsplit]
  exact resolveEach_error_at hbefore hc

theorem projectCalls_of_requires {names : List Text} (h : w.resolveProject fuel files = (.ok names, r))
    (hrequires : w.Requires r owner spec) : ∃ target, w.ProjectCalls fuel files target ∧ target.owner = owner ∧ target.spec = spec := by
  rcases hrequires with ⟨rfl, hspec⟩ | ⟨n, p, hp, rfl, hspec⟩
  · obtain ⟨c, hturn, htarget⟩ := turn_of_mem h hspec
    exact ⟨c, ⟨c, hturn, .here⟩, htarget⟩
  · rcases resolveEach_new h hp with hold | ⟨before, other, after, names₁, r₁, name, r₂, hsplit, hbefore, hother, hnew, hne⟩
    · rw [(prepare_empty files).1] at hold
      cases hold
    · obtain ⟨c, hturn, -, -, hr₁, hc⟩ := turn_of after hbefore hother nofun
      rcases c.serves rfl hc hnew with hold | hcalls
      · exact absurd (hr₁ ▸ hold) hne
      · obtain ⟨target, hcalls, htarget⟩ := hcalls spec hspec
        exact ⟨target, ⟨c, hsplit ▸ hturn, hcalls⟩, htarget⟩

theorem projectCalls_of_unselected (h : w.resolveProject fuel files = (.error (.unselected spec), r)) :
    ∃ target, w.ProjectCalls fuel files target ∧ target.Fresh ∧
      w.resolveSingle target.owner target.spec target.resolution = (.error (.unselected spec), r) := by
  obtain ⟨before, other, after, names, r₁, hsplit, hbefore, hother⟩ := resolveEach_error h
  obtain ⟨c, hturn, -, -, -, hc⟩ := turn_of after hbefore hother nofun
  obtain ⟨target, hcalls, htarget⟩ := c.fails rfl hc
  exact ⟨target, ⟨c, hsplit ▸ hturn, hcalls⟩, htarget⟩

end World

end Nodus.Packages
