import Nodus.Satisfaction

/-! The installation of what has been resolved, and where a resolution and an installation write and delete. -/

namespace Nodus.Packages

open PosixPath

namespace World

variable (w : World)

/-! ### The installation -/

/-- The packages one after the other, as far as they can be copied. -/
def installEach (copied : Text → Bool) : List Text → Bool × List FileOp
  | [] => (true, [])
  | name :: rest =>
      let ops : List FileOp := [.rmtree (join w.modulesDir name), .copytree (join w.modulesDir name)]
      if copied name then ((installEach copied rest).1, ops ++ (installEach copied rest).2) else (false, ops)

/-- `install_resolved_dependencies`, given the names that are listed in the modules directory. -/
def installResolved (listing : List { name : Text // IsName name }) (copied : Text → Bool) (r : Resolution) : List FileOp :=
  let stale := listing.filter fun name => r.packages name.val = none
  let (installed, ops) := w.installEach copied r.installOrder
  [.makedirs w.modulesDir] ++ stale.map (fun name => .rmtree (join w.modulesDir name.val)) ++ ops ++
    if installed then [.writeLock w.lockPath] else []

/-- `install_dependencies_for_project`: what is done to the file system. -/
def installProject (fuel : Nat) (files : Files) (listing : List { name : Text // IsName name }) (copied : Text → Bool) :
    List FileOp :=
  match w.resolveProject fuel files with
  | (.error _, r) => r.ops
  | (.ok _, r) => r.ops ++ w.installResolved listing copied r

/-! ### Where it is done -/

/-- A place on the way to the project, which is there, or one in its `.nodus` directory. -/
def Allowed (q : List Path) : Prop := q <+: parts w.root ∨ parts w.nodusDir <+: q

/-- What is created, overwritten or deleted lies in the `.nodus` directory of the project; the lock file and what is downloaded into
a temporary directory are left out. A directory is made with all on the way to it that is not there. -/
def Contained : FileOp → Prop
  | .rmtree target => Within w.nodusDir target
  | .extract target => Within w.nodusDir target
  | .makedirs target => ∀ q ∈ places target, w.Allowed q
  | .copytree target => (∀ q ∈ places target, w.Allowed q) ∧ Within w.nodusDir target
  | .download target => Within w.tmp target ∨ Within w.nodusDir target
  | .writeLock target => target = w.lockPath

/-- A name whose components lead, one after the other, from the modules directory into the `.nodus` directory, and through no other
place that need not be there. -/
def SafeName (name : Text) : Prop :=
  Stays w.Allowed (parts w.nodusDir).reverse (if isAbs name then [] else (parts w.modulesDir).reverse) (name.splitOn '/')

/-- What a run over the names of packages reaches: all up to the first that cannot be copied. -/
def reached (copied : Text → Bool) : List Text → List Text
  | [] => []
  | name :: rest => name :: if copied name then reached copied rest else []

/-- The name that an address ends in. -/
def urlName (url : Text) : Text := ((url.splitOn '/').getLast?.getD []).takeWhile (· ≠ '?')

/-- A call that downloads a package. -/
def Call.Fetches (c : Call) (entry : VersionEntry) : Prop :=
  c.Fresh ∧ c.spec.kind = .version ∧ ∃ index entries, w.client = some index ∧ index c.spec.name = some entries ∧
    w.resolveVersion entries (w.constraint c.spec) = some entry ∧ entry.url ≠ []

/-- A call that downloads a package does so for a safe name, also where its archive is called after it. -/
def Call.Safe (c : Call) : Prop :=
  ∀ entry, Call.Fetches w c entry → w.SafeName c.spec.name ∧ (entry.fetched = true → urlName entry.url = [] →
    Within w.tmp (join w.tmp (c.spec.name ++ ".tar.gz".toList)) ∨ Within w.nodusDir (join w.tmp (c.spec.name ++ ".tar.gz".toList)))

/-- The project and the temporary directory are named in full. -/
structure Rooted : Prop where
  absolute : isAbs w.root = true
  normal : normpath w.root = w.root
  tmp : isAbs w.tmp = true

variable {w}

/-! ### The directories -/

section Directories

variable (h : w.Rooted)

theorem isName_nodus : IsName ".nodus".toList := ⟨by decide, by decide, by decide, by decide⟩

theorem isName_modules : IsName "modules".toList := ⟨by decide, by decide, by decide, by decide⟩

theorem isName_staging : IsName "_staging".toList := ⟨by decide, by decide, by decide, by decide⟩

include h in
theorem parts_nodusDir : parts w.nodusDir = parts w.root ++ [".nodus".toList] := parts_join_name h.absolute isName_nodus

include h in
theorem isAbs_nodusDir : isAbs w.nodusDir = true := isAbs_join h.absolute

theorem isAbs_name {name : Path} (hname : IsName name) : isAbs name = false := by
  cases habs : isAbs name with
  | false => rfl
  | true =>
      obtain ⟨q, rfl⟩ := isAbs_iff.mp habs
      exact absurd List.mem_cons_self hname.no_sep

theorem mem_places_join_name {a name : Path} {q : List Path} (ha : isAbs a = true) (hname : IsName name) (hq : q ∈ places (join a name)) :
    q ∈ places a ∨ q = parts a ++ [name] := by
  rcases (parts_join ha (isAbs_name hname)).2.1 q hq with hq | hq
  · exact .inl hq
  · rw [List.splitOn_eq_singleton hname.no_sep] at hq
    simp only [through, normStep_name hname, List.mem_singleton, List.reverse_cons, List.reverse_reverse] at hq
    exact .inr hq

include h in
theorem allowed_of_mem_places {sub : Path} (hsub : IsName sub) {q : List Path} (hq : q ∈ places (join w.nodusDir sub)) : w.Allowed q := by
  rcases mem_places_join_name (isAbs_nodusDir h) hsub hq with hq | rfl
  · rcases mem_places_join_name h.absolute isName_nodus hq with hq | rfl
    · exact .inl (prefix_of_mem_places h.absolute h.normal hq)
    · exact .inr (parts_nodusDir h ▸ List.prefix_refl _)
  · exact .inr (List.prefix_append _ _)

include h in
theorem safeName_iff {sub : Path} (hsub : IsName sub) (name : Text) : w.SafeName name ↔
    (∀ q ∈ places (join (join w.nodusDir sub) name), w.Allowed q) ∧ Within w.nodusDir (join (join w.nodusDir sub) name) := by
  have hdir : isAbs (join w.nodusDir sub) = true := isAbs_join (isAbs_nodusDir h)
  have hallowed : ∀ q, (parts w.nodusDir).reverse.reverse <+: q → w.Allowed q := by
    intro q hq
    rw [List.reverse_reverse] at hq
    exact .inr hq
  unfold SafeName Within
  cases habs : isAbs name with
  | true =>
      have hjoin : join (join w.nodusDir sub) name = name := by
        unfold join
        rw [if_pos habs]
      have hparts : parts name = ((name.splitOn '/').foldl (normStep true) []).reverse := by
        rw [parts, habs]
      rw [hjoin, places, habs, hparts, if_pos rfl]
      unfold Stays
      rw [List.reverse_reverse]
  | false =>
      obtain ⟨hparts, hplaces, hplaces'⟩ := parts_join hdir habs
      have hmodules : (parts w.modulesDir).reverse = [] ++ "modules".toList :: (parts w.nodusDir).reverse := by
        unfold modulesDir
        rw [parts_join_name (isAbs_nodusDir h) isName_modules, List.reverse_append]
        rfl
      have hsubparts : (parts (join w.nodusDir sub)).reverse = [] ++ sub :: (parts w.nodusDir).reverse := by
        rw [parts_join_name (isAbs_nodusDir h) hsub, List.reverse_append]
        rfl
      have hstays : Stays w.Allowed (parts w.nodusDir).reverse (parts w.modulesDir).reverse (name.splitOn '/') ↔
          Stays w.Allowed (parts w.nodusDir).reverse (parts (join w.nodusDir sub)).reverse (name.splitOn '/') := by
        rw [hmodules, hsubparts]
        exact ⟨Stays.sibling hallowed isName_modules.ne_dots hsub.ne_dots (List.forall_mem_nil _),
          Stays.sibling hallowed hsub.ne_dots isName_modules.ne_dots (List.forall_mem_nil _)⟩
      rw [if_neg Bool.false_ne_true, hstays, hparts]
      unfold Stays
      rw [List.reverse_reverse]
      constructor
      · rintro ⟨hq, hend⟩
        exact ⟨fun q hmem => (hplaces q hmem).elim (allowed_of_mem_places h hsub) (hq q), hend⟩
      · rintro ⟨hq, hend⟩
        exact ⟨fun q hmem => hq q (hplaces' q hmem), hend⟩

end Directories

/-! ### The copies -/

section Copies

variable (h : w.Rooted)

include h in
theorem installEach_contained (copied : Text → Bool) (names : List Text) :
    (∀ op ∈ (w.installEach copied names).2, w.Contained op) ↔ ∀ name ∈ reached copied names, w.SafeName name := by
  have hpair : ∀ name, (∀ op ∈ [FileOp.rmtree (join w.modulesDir name), .copytree (join w.modulesDir name)], w.Contained op) ↔
      w.SafeName name := by
    intro name
    rw [safeName_iff h isName_modules, List.forall_mem_cons, List.forall_mem_singleton]
    exact ⟨fun hops => hops.2, fun hsafe => ⟨hsafe.2, hsafe⟩⟩
  induction names with
  | nil => exact ⟨fun _ _ hname => absurd hname List.not_mem_nil, fun _ _ hop => absurd hop List.not_mem_nil⟩
  | cons name rest ih =>
      rw [installEach, reached, List.forall_mem_cons]
      split
      · rw [List.forall_mem_append, hpair]
        exact and_congr_right fun _ => ih
      · rw [hpair]
        exact ⟨fun hsafe => ⟨hsafe, fun _ hname => absurd hname List.not_mem_nil⟩, fun hsafe => hsafe.1⟩

include h in
theorem installResolved_contained (listing : List { name : Text // IsName name }) (copied : Text → Bool) (r : Resolution) :
    (∀ op ∈ w.installResolved listing copied r, w.Contained op) ↔ ∀ name ∈ reached copied r.installOrder, w.SafeName name := by
  unfold installResolved
  simp only [List.forall_mem_append, installEach_contained h]
  constructor
  · exact fun hops => hops.1.2
  · intro hsafe
    refine ⟨⟨⟨?_, ?_⟩, hsafe⟩, ?_⟩
    · rw [List.forall_mem_singleton]
      exact fun q hq => allowed_of_mem_places h isName_modules hq
    · intro op hop
      obtain ⟨name, -, rfl⟩ := List.mem_map.mp hop
      have hdir : isAbs w.modulesDir = true := isAbs_join (isAbs_nodusDir h)
      show parts w.nodusDir <+: parts (join w.modulesDir name.val)
      rw [parts_join_name hdir name.property, modulesDir, parts_join_name (isAbs_nodusDir h) isName_modules, List.append_assoc]
      exact List.prefix_append _ _
    · split
      · rw [List.forall_mem_singleton]
        exact rfl
      · exact fun _ hop => absurd hop List.not_mem_nil

end Copies

/-! ### The downloads -/

section Downloads

variable (h : w.Rooted)

theorem archiveName_eq (name url : Text) : archiveName name url = if urlName url = [] then name ++ ".tar.gz".toList else urlName url := rfl

theorem not_mem_getLast_splitOn (url : Text) : '/' ∉ (url.splitOn '/').getLast?.getD [] := by
  cases hlast : (url.splitOn '/').getLast? with
  | none => exact List.not_mem_nil
  | some last => exact not_mem_of_mem_splitOn (List.mem_of_getLast? hlast)

theorem isName_urlName {url : Text} (hne : urlName url ≠ []) (hdot : urlName url ≠ ['.']) (hdots : urlName url ≠ ['.', '.']) :
    IsName (urlName url) :=
  ⟨hne, hdot, hdots, fun hmem => not_mem_getLast_splitOn url (List.takeWhile_subset _ hmem)⟩

theorem fallback_ne {name : Text} : name ++ ".tar.gz".toList ≠ ['.'] ∧ name ++ ".tar.gz".toList ≠ ['.', '.'] := by
  constructor
  · intro he
    have hlen := congrArg List.length he
    simp at hlen
  · intro he
    have hlen := congrArg List.length he
    simp at hlen

include h in
theorem installPackage_contained (name : Text) (entry : VersionEntry) (r : Resolution) (hurl : entry.url ≠ []) :
    ∃ ops, (w.installPackage name entry r).2.ops = r.ops ++ ops ∧ ((∀ op ∈ ops, w.Contained op) ↔
      w.SafeName name ∧ (entry.fetched = true → urlName entry.url = [] →
        Within w.tmp (join w.tmp (name ++ ".tar.gz".toList)) ∨ Within w.nodusDir (join w.tmp (name ++ ".tar.gz".toList)))) := by
  have hsafe := safeName_iff h isName_staging name
  have hstaged : (∀ op ∈ [FileOp.rmtree (join w.stagingDir name), .makedirs (join w.stagingDir name)], w.Contained op) ↔
      w.SafeName name := by
    rw [List.forall_mem_cons, List.forall_mem_singleton]
    exact ⟨fun hops => hsafe.mpr ⟨hops.2, hops.1⟩, fun hname => ⟨(hsafe.mp hname).2, (hsafe.mp hname).1⟩⟩
  unfold installPackage
  rw [if_neg hurl]
  simp only []
  split
  · next hskip =>
      refine ⟨_, rfl, hstaged.trans ⟨fun hname => ⟨hname, fun hfetched hlast => ?_⟩, fun hboth => hboth.1⟩⟩
      rcases hskip with hnot | hdot | hdots
      · rw [hfetched] at hnot
        cases hnot
      · rw [archiveName_eq, if_pos hlast] at hdot
        exact absurd hdot fallback_ne.1
      · rw [archiveName_eq, if_pos hlast] at hdots
        exact absurd hdots fallback_ne.2
  · next hread =>
      obtain ⟨hfetched, hdot, hdots⟩ : entry.fetched ≠ false ∧ archiveName name entry.url ≠ ['.'] ∧
          archiveName name entry.url ≠ ['.', '.'] := by
        simpa only [not_or] using hread
      have hfetched : entry.fetched = true := Bool.eq_true_of_not_eq_false hfetched
      have hdownload : (Within w.tmp (join w.tmp (archiveName name entry.url)) ∨
          Within w.nodusDir (join w.tmp (archiveName name entry.url))) ↔ (entry.fetched = true → urlName entry.url = [] →
            Within w.tmp (join w.tmp (name ++ ".tar.gz".toList)) ∨ Within w.nodusDir (join w.tmp (name ++ ".tar.gz".toList))) := by
        rw [archiveName_eq] at hdot hdots ⊢
        split
        · next hlast => exact ⟨fun hin _ _ => hin, fun hin => hin hfetched hlast⟩
        · next hlast =>
            rw [if_neg hlast] at hdot hdots
            refine ⟨fun _ _ hempty => absurd hempty hlast, fun _ => .inl ?_⟩
            unfold Within
            rw [parts_join_name h.tmp (isName_urlName hlast hdot hdots)]
            exact List.prefix_append _ _
      have hops : (∀ op ∈ [FileOp.rmtree (join w.stagingDir name), .makedirs (join w.stagingDir name)] ++
          [.download (join w.tmp (archiveName name entry.url)), .extract (join w.stagingDir name)], w.Contained op) ↔
            w.SafeName name ∧ (entry.fetched = true → urlName entry.url = [] →
              Within w.tmp (join w.tmp (name ++ ".tar.gz".toList)) ∨ Within w.nodusDir (join w.tmp (name ++ ".tar.gz".toList))) := by
        rw [List.forall_mem_append, hstaged, List.forall_mem_cons, List.forall_mem_singleton, ← hdownload]
        exact ⟨fun hboth => ⟨hboth.1, hboth.2.1⟩, fun hboth => ⟨hboth.1, hboth.2, (hsafe.mp hboth.1).2⟩⟩
      split
      · exact ⟨_, List.append_assoc .., hops⟩
      · exact ⟨_, List.append_assoc .., hops⟩

include h in
theorem resolveSingle_contained {c : Call} (hfresh : c.Fresh) : ∃ ops,
    (w.resolveSingle c.owner c.spec c.resolution).2.ops = c.resolution.ops ++ ops ∧ ((∀ op ∈ ops, w.Contained op) ↔ c.Safe w) := by
  have hnone : (∀ entry, ¬ Call.Fetches w c entry) → ((∀ op ∈ ([] : List FileOp), w.Contained op) ↔ c.Safe w) :=
    fun hno => ⟨fun _ entry hfetches => absurd hfetches (hno entry), fun _ _ hop => absurd hop List.not_mem_nil⟩
  unfold resolveSingle
  split
  · next hkind =>
      have hno : ∀ entry, ¬ Call.Fetches w c entry := fun _ hfetches => absurd (hkind.symm.trans hfetches.2.1) (by decide)
      simp only []
      split
      · exact ⟨[], (List.append_nil _).symm, hnone hno⟩
      · exact ⟨[], (List.append_nil _).symm, hnone hno⟩
  · next index hkind hclient =>
      split
      · next hentries =>
          refine ⟨[], (List.append_nil _).symm, hnone ?_⟩
          rintro entry ⟨-, -, index', entries, hclient', hentries', -⟩
          obtain rfl := Option.some.inj (hclient.symm.trans hclient')
          rw [hentries] at hentries'
          cases hentries'
      · next entries hentries =>
          split
          · next hentry =>
              refine ⟨[], (List.append_nil _).symm, hnone ?_⟩
              rintro entry ⟨-, -, index', entries', hclient', hentries', hentry', -⟩
              obtain rfl := Option.some.inj (hclient.symm.trans hclient')
              obtain rfl := Option.some.inj (hentries.symm.trans hentries')
              rw [hentry] at hentry'
              cases hentry'
          · next entry hentry =>
              have hunique : ∀ other, Call.Fetches w c other → other = entry ∧ other.url ≠ [] := by
                rintro other ⟨-, -, index', entries', hclient', hentries', hentry', hurl⟩
                obtain rfl := Option.some.inj (hclient.symm.trans hclient')
                obtain rfl := Option.some.inj (hentries.symm.trans hentries')
                exact ⟨Option.some.inj (hentry'.symm.trans hentry), hurl⟩
              have hinstalled : ∃ ops, (w.installPackage c.spec.name entry c.resolution).2.ops = c.resolution.ops ++ ops ∧
                  ((∀ op ∈ ops, w.Contained op) ↔ c.Safe w) := by
                by_cases hurl : entry.url = []
                · refine ⟨[], ?_, hnone fun other hfetches => ?_⟩
                  · unfold installPackage
                    rw [if_pos hurl, List.append_nil]
                  · obtain ⟨rfl, hne⟩ := hunique other hfetches
                    exact hne hurl
                · obtain ⟨ops, hops, hiff⟩ := installPackage_contained h c.spec.name entry c.resolution hurl
                  refine ⟨ops, hops, hiff.trans ⟨fun hsafe other hfetches => ?_, fun hsafe => hsafe entry ?_⟩⟩
                  · obtain ⟨rfl, -⟩ := hunique other hfetches
                    exact hsafe
                  · exact ⟨hfresh, hkind, index, entries, hclient, hentries, hentry, hurl⟩
              split
              · next hresult =>
                  rw [hresult] at hinstalled
                  exact hinstalled
              · next hresult =>
                  rw [hresult] at hinstalled
                  exact hinstalled
  · next hkind hclient =>
      have hno : ∀ entry, ¬ Call.Fetches w c entry := by
        rintro entry ⟨-, -, index, entries, hclient', -⟩
        rw [hclient] at hclient'
        cases hclient'
      simp only []
      split
      · exact ⟨[], (List.append_nil _).symm, hnone hno⟩
      · exact ⟨[], (List.append_nil _).symm, hnone hno⟩

end Downloads

/-! ### The calls of a project -/

section Project

variable {target c : Call} {owner : Path} {spec : DependencySpec} {specs : List DependencySpec} {r : Resolution} {visiting : List Text}

theorem turn_cons {fuel : Nat} : w.Turn (fuel + 1) visiting owner (spec :: specs) r c ↔ c = ⟨fuel, visiting, owner, spec, r⟩ ∨
    ∃ name r₁, w.resolveSpec (fuel + 1) visiting owner spec r = (.ok name, r₁) ∧ w.Turn (fuel + 1) visiting owner specs r₁ c := by
  constructor
  · rintro ⟨hfuel, rfl, rfl, before, after, names, hsplit, hbefore⟩
    cases before with
    | nil =>
        obtain ⟨-, hr⟩ := Prod.mk.inj hbefore
        obtain ⟨hspec, -⟩ := List.cons.inj hsplit
        obtain ⟨cfuel, _, _, _, _⟩ := c
        obtain rfl := Nat.succ.inj hfuel
        obtain rfl := hspec
        obtain rfl := hr
        exact .inl rfl
    | cons first before =>
        obtain ⟨rfl, hspecs⟩ := List.cons.inj hsplit
        obtain ⟨name, r₁, names₁, hresolve, hrest, -⟩ := resolveEach_cons_ok.mp hbefore
        exact .inr ⟨name, r₁, hresolve, hfuel, rfl, rfl, before, after, names₁, hspecs, hrest⟩
  · rintro (rfl | ⟨name, r₁, hresolve, hfuel, rfl, rfl, before, after, names, rfl, hbefore⟩)
    · exact ⟨rfl, rfl, rfl, [], specs, [], rfl, rfl⟩
    · exact ⟨hfuel, rfl, rfl, spec :: before, after, name :: names, rfl, resolveEach_cons_ok.mpr ⟨name, r₁, names, hresolve, hbefore, rfl⟩⟩

/-- What a call adds to what is done is contained exactly if the calls that it makes are safe. -/
def Adds (w : World) (r : Resolution) (outcome : Resolution) (calls : Call → Prop) : Prop :=
  ∃ ops, outcome.ops = r.ops ++ ops ∧ ((∀ op ∈ ops, w.Contained op) ↔ ∀ target, calls target → target.Safe w)

theorem Adds.nothing {calls : Call → Prop} (hcalls : ∀ target, calls target → target.Safe w) : w.Adds r r calls :=
  ⟨[], (List.append_nil _).symm, fun _ => hcalls, fun _ _ hop => absurd hop List.not_mem_nil⟩

theorem Adds.trans {r₁ r₂ : Resolution} {calls calls' both : Call → Prop} (h : w.Adds r r₁ calls) (h' : w.Adds r₁ r₂ calls')
    (hboth : ∀ target, both target ↔ calls target ∨ calls' target) : w.Adds r r₂ both := by
  obtain ⟨ops, hops, hiff⟩ := h
  obtain ⟨ops', hops', hiff'⟩ := h'
  refine ⟨ops ++ ops', by rw [hops', hops, List.append_assoc], ?_⟩
  rw [List.forall_mem_append, hiff, hiff']
  constructor
  · exact fun hsafe target htarget => ((hboth target).mp htarget).elim (hsafe.1 target) (hsafe.2 target)
  · exact fun hsafe => ⟨fun target htarget => hsafe target ((hboth target).mpr (.inl htarget)),
      fun target htarget => hsafe target ((hboth target).mpr (.inr htarget))⟩

theorem resolveEach_adds (fuel : Nat) (visiting : List Text) (owner : Path) (specs : List DependencySpec) (r : Resolution)
    (hresolve : ∀ c, c.fuel + 1 = fuel → w.Adds c.resolution (c.resolve w).2 fun target => Calls w target c) :
    w.Adds r (resolveEach (w.resolveSpec fuel visiting owner) specs r).2
      fun target => ∃ c, w.Turn fuel visiting owner specs r c ∧ Calls w target c := by
  induction specs generalizing r with
  | nil =>
      apply Adds.nothing
      rintro target ⟨c, ⟨-, -, -, before, after, names, hsplit, -⟩, -⟩
      exact absurd hsplit.symm (List.append_ne_nil_of_right_ne_nil _ (List.cons_ne_nil _ _))
  | cons spec specs ih =>
      cases fuel with
      | zero =>
          apply Adds.nothing
          rintro target ⟨c, ⟨hfuel, -⟩, -⟩
          exact absurd hfuel (Nat.succ_ne_zero _)
      | succ fuel =>
          have hfirst := hresolve ⟨fuel, visiting, owner, spec, r⟩ rfl
          have hcall : Call.resolve w ⟨fuel, visiting, owner, spec, r⟩ = w.resolveSpec (fuel + 1) visiting owner spec r := rfl
          rw [resolveEach]
          cases hresult : w.resolveSpec (fuel + 1) visiting owner spec r with
          | mk outcome r₁ =>
              rw [hcall, hresult] at hfirst
              cases outcome with
              | error e =>
                  obtain ⟨ops, hops, hiff⟩ := hfirst
                  refine ⟨ops, hops, hiff.trans ?_⟩
                  constructor
                  · rintro hsafe target ⟨c, hturn, hcalls⟩
                    rcases turn_cons.mp hturn with rfl | ⟨name, r₂, hok, -⟩
                    · exact hsafe target hcalls
                    · rw [hresult] at hok
                      cases (Prod.mk.inj hok).1
                  · exact fun hsafe target hcalls => hsafe target ⟨_, turn_cons.mpr (.inl rfl), hcalls⟩
              | ok name =>
                  have hboth : ∀ target, (∃ c, w.Turn (fuel + 1) visiting owner (spec :: specs) r c ∧ Calls w target c) ↔
                      Calls w target ⟨fuel, visiting, owner, spec, r⟩ ∨
                        ∃ c, w.Turn (fuel + 1) visiting owner specs r₁ c ∧ Calls w target c := by
                    intro target
                    constructor
                    · rintro ⟨c, hturn, hcalls⟩
                      rcases turn_cons.mp hturn with rfl | ⟨name', r₂, hok, hturn⟩
                      · exact .inl hcalls
                      · obtain ⟨-, rfl⟩ := Prod.mk.inj (hresult.symm.trans hok)
                        exact .inr ⟨c, hturn, hcalls⟩
                    · rintro (hcalls | ⟨c, hturn, hcalls⟩)
                      · exact ⟨_, turn_cons.mpr (.inl rfl), hcalls⟩
                      · exact ⟨c, turn_cons.mpr (.inr ⟨name, r₁, hresult, hturn⟩), hcalls⟩
                  have hadds := hfirst.trans (ih r₁) hboth
                  simp only []
                  cases hrest : resolveEach (w.resolveSpec (fuel + 1) visiting owner) specs r₁ with
                  | mk outcome r₂ =>
                      rw [hrest] at hadds
                      cases outcome with
                      | error e => exact hadds
                      | ok names => exact hadds

theorem calls_iff : Calls w target c ↔ target = c ∨ ∃ package specs r c', c.Opens w package specs r ∧
    w.Turn c.fuel (c.visiting ++ [c.spec.name]) package.path specs r c' ∧ Calls w target c' := by
  constructor
  · intro hcalls
    cases hcalls with
    | here => exact .inl rfl
    | inner opens turn calls => exact .inr ⟨_, _, _, _, opens, turn, calls⟩
  · rintro (rfl | ⟨package, specs, r, c', hopens, hturn, hcalls⟩)
    · exact .here
    · exact .inner hopens hturn hcalls

theorem calls_unopened (hclosed : ∀ package specs r, ¬ c.Opens w package specs r) : Calls w target c ↔ target = c := by
  rw [calls_iff]
  constructor
  · rintro (rfl | ⟨package, specs, r, c', hopens, -⟩)
    · rfl
    · exact absurd hopens (hclosed package specs r)
  · exact .inl

theorem safe_of_not_fresh (h : ¬ c.Fresh) : c.Safe w := fun _ hfetches => absurd hfetches.1 h

theorem Call.adds (h : w.Rooted) {fuel : Nat} {c : Call} (hfuel : c.fuel = fuel) :
    w.Adds c.resolution (c.resolve w).2 fun target => Calls w target c := by
  induction fuel using Nat.strong_induction_on generalizing c with
  | _ fuel ih =>
      rcases c.cases w with ⟨package, hpackage⟩ | ⟨e, hvisiting, he⟩ | ⟨e, r, hfresh, hsingle, he⟩ | ⟨package, r, hfresh, hsingle, hmanifest, he⟩ |
          ⟨package, specs, r, hopens⟩
      · have hstale : ¬ c.Fresh := fun hfresh => absurd (hfresh.1.symm.trans hpackage) nofun
        have hsame : (c.resolve w).2 = c.resolution := by
          rw [resolve_known hpackage]
          split
          · rfl
          · rfl
        rw [hsame]
        apply Adds.nothing
        intro target hcalls
        obtain rfl := (calls_unopened fun _ _ _ hopens => hstale hopens.1).mp hcalls
        exact safe_of_not_fresh hstale
      · have hstale : ¬ c.Fresh := fun hfresh => hfresh.2 hvisiting
        rw [he]
        apply Adds.nothing
        intro target hcalls
        obtain rfl := (calls_unopened fun _ _ _ hopens => hstale hopens.1).mp hcalls
        exact safe_of_not_fresh hstale
      · have hclosed : ∀ package specs r', ¬ c.Opens w package specs r' := by
          intro package specs r' hopens
          obtain ⟨hno, -⟩ := Prod.mk.inj (hsingle.symm.trans hopens.2.1)
          cases hno
        obtain ⟨ops, hops, hiff⟩ := resolveSingle_contained h hfresh
        rw [hsingle] at hops
        rw [he]
        refine ⟨ops, hops, hiff.trans ?_⟩
        simp only [calls_unopened hclosed, forall_eq]
      · have hclosed : ∀ package' specs r', ¬ c.Opens w package' specs r' := by
          intro package' specs r' hopens
          obtain ⟨hp, rfl⟩ := Prod.mk.inj (hsingle.symm.trans hopens.2.1)
          obtain rfl := Except.ok.inj hp
          exact absurd (hmanifest.symm.trans hopens.2.2) nofun
        obtain ⟨ops, hops, hiff⟩ := resolveSingle_contained h hfresh
        rw [hsingle] at hops
        rw [he]
        refine ⟨ops, hops, hiff.trans ?_⟩
        simp only [calls_unopened hclosed, forall_eq]
      · obtain ⟨ops, hops, hiff⟩ := resolveSingle_contained h hopens.1
        rw [hopens.2.1] at hops
        have hsingle : w.Adds c.resolution r fun target => target = c :=
          ⟨ops, hops, hiff.trans ⟨fun hsafe target htarget => htarget ▸ hsafe, fun hsafe => hsafe c rfl⟩⟩
        have heach := resolveEach_adds (w := w) c.fuel (c.visiting ++ [c.spec.name]) package.path specs r
          fun c' hc' => ih c'.fuel (by omega) rfl
        have hboth : ∀ target, Calls w target c ↔ target = c ∨
            ∃ c', w.Turn c.fuel (c.visiting ++ [c.spec.name]) package.path specs r c' ∧ Calls w target c' := by
          intro target
          rw [calls_iff]
          refine or_congr_right ⟨?_, fun ⟨c', hturn⟩ => ⟨package, specs, r, c', hopens, hturn⟩⟩
          rintro ⟨package', specs', r', c', hopens', hturn⟩
          obtain ⟨hp, rfl⟩ := Prod.mk.inj (hopens.2.1.symm.trans hopens'.2.1)
          obtain rfl := Except.ok.inj hp
          obtain rfl := Option.some.inj (hopens.2.2.symm.trans hopens'.2.2)
          exact ⟨c', hturn⟩
        have hadds := hsingle.trans heach hboth
        cases hresult : resolveEach (w.resolveSpec c.fuel (c.visiting ++ [c.spec.name]) package.path) specs r with
        | mk outcome r₂ =>
            rw [hresult] at hadds
            cases outcome with
            | error e =>
                rw [resolve_opens_error hopens hresult]
                exact hadds
            | ok names =>
                rw [resolve_opens_ok hopens hresult]
                exact hadds

theorem prepare_contained (h : w.Rooted) (files : Files) : ∀ op ∈ (w.prepare files).ops, w.Contained op := by
  unfold prepare
  split
  · exact fun _ hop => absurd hop List.not_mem_nil
  · have hplaces : ∀ q ∈ places w.stagingDir, w.Allowed q := fun q hq => allowed_of_mem_places h isName_staging hq
    have hwithin : Within w.nodusDir w.stagingDir := by
      unfold Within stagingDir
      rw [parts_join_name (isAbs_nodusDir h) isName_staging]
      exact List.prefix_append _ _
    rw [List.forall_mem_cons, List.forall_mem_singleton]
    exact ⟨hwithin, hplaces⟩

/-- Nothing is created, overwritten or deleted outside of the `.nodus` directory exactly if every call that downloads a package does
so for a safe name, and every name that the installation reaches is safe. -/
theorem install_contained_iff (h : w.Rooted) (fuel : Nat) (files : Files) (listing : List { name : Text // IsName name })
    (copied : Text → Bool) : (∀ op ∈ w.installProject fuel files listing copied, w.Contained op) ↔
      (∀ c, w.ProjectCalls fuel files c → c.Safe w) ∧ ∀ names r, w.resolveProject fuel files = (.ok names, r) →
        ∀ name ∈ reached copied r.installOrder, w.SafeName name := by
  have hprepare : w.Adds { files } (w.prepare files) fun _ => False := by
    refine ⟨(w.prepare files).ops, rfl, fun _ _ => False.elim, fun _ => prepare_contained h files⟩
  have hboth : ∀ target, w.ProjectCalls fuel files target ↔ False ∨ w.ProjectCalls fuel files target :=
    fun target => (or_iff_right id).symm
  have hadds := hprepare.trans (resolveEach_adds (w := w) fuel [] w.root w.dependencies (w.prepare files)
    fun c _ => Call.adds h rfl) hboth
  obtain ⟨ops, hops, hiff⟩ := hadds
  have hops : (w.resolveProject fuel files).2.ops = ops := hops
  unfold installProject
  cases hresult : w.resolveProject fuel files with
  | mk outcome r =>
      rw [hresult] at hops
      obtain rfl := hops
      cases outcome with
      | error e =>
          rw [← hiff]
          exact ⟨fun hsafe => ⟨hsafe, fun _ _ hok => absurd (Prod.mk.inj hok).1 nofun⟩, fun hsafe => hsafe.1⟩
      | ok names =>
          simp only []
          rw [List.forall_mem_append, hiff, installResolved_contained h]
          refine and_congr_right fun _ => ⟨fun hsafe names' r' hok => ?_, fun hsafe => hsafe names r rfl⟩
          obtain ⟨-, rfl⟩ := Prod.mk.inj hok
          exact hsafe

end Project

/-! ### A name that leads out of the project -/

/-- A project that requires a directory under a name that leads beside it. -/
def intruding : World where
  tables := asciiTables
  root := "/p".toList
  dependencies := [⟨"../../../victim".toList, .path, "lib".toList⟩]
  locked _ := none
  registry _ := []
  client := none
  tmp := "/tmp/x".toList

def intrudingFiles : Files := fun directory =>
  if directory = ["p".toList, "lib".toList] then .valid ⟨"0.1.0".toList, []⟩ else .absent

theorem rooted_intruding : intruding.Rooted := ⟨by decide, by decide, by decide⟩

theorem intruding_contained_iff :
    (∀ op ∈ intruding.installProject 1 intrudingFiles [] fun _ => true, intruding.Contained op) ↔
      (∀ c, intruding.ProjectCalls 1 intrudingFiles c → c.Safe intruding) ∧
        ∀ names r, intruding.resolveProject 1 intrudingFiles = (.ok names, r) →
          ∀ name ∈ reached (fun _ => true) r.installOrder, intruding.SafeName name :=
  install_contained_iff rooted_intruding 1 intrudingFiles [] fun _ => true

/-- The directory beside the project is deleted. -/
theorem intruding_not_contained : ¬ ∀ op ∈ intruding.installProject 1 intrudingFiles [] fun _ => true, intruding.Contained op := by
  intro h
  have hop : FileOp.rmtree "/p/.nodus/modules/../../../victim".toList ∈ intruding.installProject 1 intrudingFiles [] fun _ => true := by
    decide
  have hwithin : Within intruding.nodusDir "/p/.nodus/modules/../../../victim".toList := h _ hop
  exact absurd hwithin (by decide)

end World

end Nodus.Packages
