/-! POSIX path strings, as `os.path` treats them. A path is the list of its characters, and containment is
decided on the names it is made of. -/

namespace PosixPath

abbrev Path := List Char

instance : LawfulBEq Path := inferInstance

def isAbs (p : Path) : Bool := p.head? = some '/'

/-- `os.path.join` of two paths. -/
def join (a b : Path) : Path :=
  if isAbs b then b
  else if a = [] ∨ a.getLast? = some '/' then a ++ b
  else a ++ '/' :: b

/-- The number of slashes `normpath` keeps in front: two are not the same as one or three. -/
def slashes (p : Path) : Nat :=
  if isAbs p then
    if p[1]? = some '/' ∧ p[2]? ≠ some '/' then 2 else 1
  else 0

/-- One component of `normpath`, with the components kept so far, the last one first. -/
def normStep (abs : Bool) (kept : List Path) (comp : Path) : List Path :=
  if comp = [] ∨ comp = ['.'] then kept
  else if comp ≠ ['.', '.'] ∨ (abs = false ∧ kept = []) ∨ kept.head? = some ['.', '.'] then comp :: kept
  else kept.tail

/-- The components `normpath` keeps. -/
def parts (p : Path) : List Path := ((p.splitOn '/').foldl (normStep (isAbs p)) []).reverse

def normpath (p : Path) : Path :=
  let path := List.replicate (slashes p) '/' ++ ['/'].intercalate (parts p)
  if path = [] then ['.'] else path

def abspath (cwd p : Path) : Path := normpath (if isAbs p then p else join cwd p)

/-- `os.path.dirname`. -/
def dirname (p : Path) : Path :=
  let head := (p.reverse.dropWhile (· ≠ '/')).reverse
  if head.all (· = '/') then head else (head.reverse.dropWhile (· = '/')).reverse

def basename (p : Path) : Path := (p.reverse.takeWhile (· ≠ '/')).reverse

/-- The components `commonpath` compares. -/
def words (p : Path) : List Path := (p.splitOn '/').filter fun c => c ≠ [] ∧ c ≠ ['.']

def commonPrefix : List Path → List Path → List Path
  | a :: as, b :: bs => if a = b then a :: commonPrefix as bs else []
  | _, _ => []

/-- `os.path.commonpath` of two paths; it raises for an absolute and a relative one. -/
def commonpath (a b : Path) : Option Path :=
  if isAbs a = isAbs b then
    some ((if isAbs a then ['/'] else []) ++ ['/'].intercalate (commonPrefix (words a) (words b)))
  else none

/-- `p` is `root` or lies below it. -/
def Within (root p : Path) : Prop := parts root <+: parts p

/-- The directory of `p` is `root` or lies below it. -/
def Inside (root p : Path) : Prop := parts root <+: (parts p).dropLast

instance (root p : Path) : Decidable (Within root p) := inferInstanceAs (Decidable (_ <+: _))

instance (root p : Path) : Decidable (Inside root p) := inferInstanceAs (Decidable (_ <+: _))

theorem Inside.within {root p : Path} (h : Inside root p) : Within root p :=
  h.trans (List.dropLast_prefix _)

/-! ### Names -/

/-- A component that stands for itself. -/
structure IsName (w : Path) : Prop where
  ne_nil : w ≠ []
  ne_dot : w ≠ ['.']
  ne_dots : w ≠ ['.', '.']
  no_sep : '/' ∉ w

theorem not_mem_of_mem_splitOn {a : Char} {p w : Path} (hw : w ∈ p.splitOn a) : a ∉ w := by
  induction p generalizing w with
  | nil =>
      rw [List.splitOn_nil, List.mem_singleton] at hw
      simp [hw]
  | cons c p ih =>
      rw [List.splitOn_cons_eq_if_modifyHead] at hw
      split at hw
      · cases hw with
        | head => simp
        | tail _ hw => exact ih hw
      · rename_i hc
        obtain ⟨v, vs, hv⟩ := List.exists_cons_of_ne_nil (List.splitOn_ne_nil a p)
        rw [hv, List.modifyHead_cons] at hw
        rw [hv] at ih
        cases hw with
        | head =>
            simp only [List.mem_cons, not_or]
            refine ⟨fun he => hc ?_, ih List.mem_cons_self⟩
            simp [he]
        | tail _ hw => exact ih (List.mem_cons_of_mem _ hw)

theorem normStep_name {kept : List Path} {w : Path} {abs : Bool} (hw : IsName w) :
    normStep abs kept w = w :: kept := by
  unfold normStep
  rw [if_neg (by simp [hw.ne_nil, hw.ne_dot]), if_pos (.inl hw.ne_dots)]

theorem normStep_nil (abs : Bool) (kept : List Path) : normStep abs kept [] = kept := by
  simp [normStep]

theorem foldl_names {ws kept : List Path} {abs : Bool} (hw : ∀ w ∈ ws, IsName w) :
    ws.foldl (normStep abs) kept = ws.reverse ++ kept := by
  induction ws generalizing kept with
  | nil => rfl
  | cons w ws ih =>
      rw [List.foldl_cons, normStep_name (hw w List.mem_cons_self),
        ih fun v hv => hw v (List.mem_cons_of_mem _ hv)]
      simp

theorem normStep_keeps_names {kept : List Path} {c : Path} (hk : ∀ w ∈ kept, IsName w) (hc : '/' ∉ c) :
    ∀ w ∈ normStep true kept c, IsName w := by
  unfold normStep
  split
  · exact hk
  · rename_i hne
    split
    · rename_i hname
      intro w hw
      cases hw with
      | tail _ hw => exact hk w hw
      | head =>
          refine ⟨fun h => hne (.inl h), fun h => hne (.inr h), ?_, hc⟩
          rintro rfl
          obtain h | ⟨h, -⟩ | h := hname
          · exact h rfl
          · cases h
          · exact (hk _ (List.mem_of_mem_head? (by rw [h]; rfl))).ne_dots rfl
    · exact fun w hw => hk w (List.mem_of_mem_tail hw)

theorem foldl_keeps_names {cs kept : List Path} (hk : ∀ w ∈ kept, IsName w) (hc : ∀ c ∈ cs, '/' ∉ c) :
    ∀ w ∈ cs.foldl (normStep true) kept, IsName w := by
  induction cs generalizing kept with
  | nil => exact hk
  | cons c cs ih =>
      exact ih (normStep_keeps_names hk (hc c List.mem_cons_self))
        fun d hd => hc d (List.mem_cons_of_mem _ hd)

theorem isName_of_mem_parts {p w : Path} (hp : isAbs p = true) (hw : w ∈ parts p) : IsName w := by
  rw [parts, hp, List.mem_reverse] at hw
  exact foldl_keeps_names (by simp) (fun c hc => not_mem_of_mem_splitOn hc) w hw

/-! ### Normal forms -/

theorem isAbs_iff {p : Path} : isAbs p = true ↔ ∃ q, p = '/' :: q := by
  cases p with
  | nil => simp [isAbs]
  | cons c q => simp [isAbs]

theorem splitOn_slashes (k : Nat) (p : Path) :
    (List.replicate k '/' ++ p).splitOn '/' = List.replicate k [] ++ p.splitOn '/' := by
  induction k with
  | zero => rfl
  | succ k ih =>
      rw [List.replicate_succ, List.cons_append, List.splitOn_cons_eq_if_modifyHead]
      simp [ih, List.replicate_succ]

theorem foldl_nils (k : Nat) (abs : Bool) (kept : List Path) :
    (List.replicate k []).foldl (normStep abs) kept = kept := by
  induction k with
  | zero => rfl
  | succ k ih => rw [List.replicate_succ, List.foldl_cons, normStep_nil, ih]

theorem foldl_joined {ws kept : List Path} {abs : Bool} (hw : ∀ w ∈ ws, IsName w) :
    ((['/'].intercalate ws).splitOn '/').foldl (normStep abs) kept = ws.reverse ++ kept := by
  by_cases hn : ws = []
  · subst hn
    simp [normStep_nil]
  · rw [List.splitOn_intercalate '/' (fun w hw' => (hw w hw').no_sep) hn]
    exact foldl_names hw

theorem isAbs_slashes {k : Nat} {p : Path} (hk : 0 < k) : isAbs (List.replicate k '/' ++ p) = true := by
  obtain ⟨k, rfl⟩ := Nat.exists_eq_succ_of_ne_zero (Nat.pos_iff_ne_zero.mp hk)
  simp [isAbs, List.replicate_succ]

theorem parts_joined {k : Nat} {ws : List Path} (hk : 0 < k) (hw : ∀ w ∈ ws, IsName w) :
    parts (List.replicate k '/' ++ ['/'].intercalate ws) = ws := by
  rw [parts, isAbs_slashes hk, splitOn_slashes, List.foldl_append, foldl_nils, foldl_joined hw]
  simp

theorem slashes_pos {p : Path} (hp : isAbs p = true) : 0 < slashes p := by
  unfold slashes
  rw [if_pos hp]
  split
  · decide
  · decide

theorem normpath_of_isAbs {p : Path} (hp : isAbs p = true) :
    normpath p = List.replicate (slashes p) '/' ++ ['/'].intercalate (parts p) := by
  unfold normpath
  have hs := slashes_pos hp
  rw [if_neg]
  simp only [List.append_eq_nil_iff, List.replicate_eq_nil_iff]
  omega

theorem isAbs_normpath {p : Path} (hp : isAbs p = true) : isAbs (normpath p) = true := by
  rw [normpath_of_isAbs hp]
  exact isAbs_slashes (slashes_pos hp)

theorem parts_normpath {p : Path} (hp : isAbs p = true) : parts (normpath p) = parts p := by
  rw [normpath_of_isAbs hp]
  exact parts_joined (slashes_pos hp) fun w hw => isName_of_mem_parts hp hw

theorem mem_splitOn_of_mem_parts {p w : Path} (hw : w ∈ parts p) : w ∈ p.splitOn '/' ∧ w ≠ [] := by
  have hstep : ∀ (cs kept : List Path), w ∈ cs.foldl (normStep (isAbs p)) kept →
      w ∈ kept ∨ w ∈ cs ∧ w ≠ [] := by
    intro cs
    induction cs with
    | nil => exact fun kept hw => .inl hw
    | cons c cs ih =>
        intro kept hw
        rcases ih _ hw with hw | ⟨hw, hne⟩
        · unfold normStep at hw
          split at hw
          · exact .inl hw
          · rename_i hc
            split at hw
            · cases hw with
              | head => exact .inr ⟨List.mem_cons_self, fun h => hc (.inl h)⟩
              | tail _ hw => exact .inl hw
            · exact .inl (List.mem_of_mem_tail hw)
        · exact .inr ⟨List.mem_cons_of_mem _ hw, hne⟩
  rw [parts, List.mem_reverse] at hw
  rcases hstep _ _ hw with hw | hw
  · cases hw
  · exact hw

theorem isAbs_of_isAbs_normpath {p : Path} (hp : isAbs (normpath p) = true) : isAbs p = true := by
  cases ha : isAbs p with
  | true => rfl
  | false =>
      have hs : slashes p = 0 := by simp [slashes, ha]
      unfold normpath at hp
      rw [hs] at hp
      dsimp only at hp
      split at hp
      · cases hp
      · cases hparts : parts p with
        | nil =>
            rw [hparts] at hp
            cases hp
        | cons w ws =>
            obtain ⟨hsplit, hne⟩ := mem_splitOn_of_mem_parts (hparts ▸ List.mem_cons_self : w ∈ parts p)
            obtain ⟨c, w, rfl⟩ := List.exists_cons_of_ne_nil hne
            have hc : c ≠ '/' := fun h => not_mem_of_mem_splitOn hsplit (h ▸ List.mem_cons_self)
            rw [hparts] at hp
            cases ws with
            | nil => simp [isAbs, hc] at hp
            | cons v vs => simp [isAbs, hc] at hp

theorem isAbs_eq_of_commonpath {a b c : Path} (hc : commonpath a b = some c) : isAbs a = isAbs b := by
  unfold commonpath at hc
  split at hc
  · assumption
  · cases hc

theorem isAbs_join {a b : Path} (ha : isAbs a = true) : isAbs (join a b) = true := by
  obtain ⟨q, rfl⟩ := isAbs_iff.mp ha
  unfold join
  split
  · assumption
  · split
    · rfl
    · rfl

theorem isAbs_abspath {cwd p : Path} (hc : isAbs cwd = true) : isAbs (abspath cwd p) = true := by
  unfold abspath
  split
  · exact isAbs_normpath (by assumption)
  · exact isAbs_normpath (isAbs_join hc)

theorem parts_abspath {cwd p : Path} (hp : isAbs p = true) : parts (abspath cwd p) = parts p := by
  rw [abspath, if_pos hp, parts_normpath hp]

/-! ### Longer paths -/

theorem parts_join_name {a w : Path} (ha : isAbs a = true) (hw : IsName w) :
    parts (join a w) = parts a ++ [w] := by
  have hrel : isAbs w = false := by
    cases hw' : isAbs w with
    | false => rfl
    | true =>
        obtain ⟨q, rfl⟩ := isAbs_iff.mp hw'
        exact absurd List.mem_cons_self hw.no_sep
  have habs := isAbs_join (b := w) ha
  have hword : ([w]).foldl (normStep true) ((a.splitOn '/').foldl (normStep true) []) =
      w :: (a.splitOn '/').foldl (normStep true) [] := normStep_name hw
  have hne : a ≠ [] := by
    rintro rfl
    cases ha
  rw [parts, habs, parts, ha]
  unfold join
  rw [hrel]
  simp only [Bool.false_eq_true, if_false, hne, false_or]
  split
  · rename_i hlast
    obtain ⟨a', rfl⟩ : ∃ a', a = a' ++ ['/'] := List.getLast?_eq_some_iff.mp hlast
    rw [List.append_assoc, List.singleton_append, List.splitOn_append_cons_self,
      List.splitOn_append_cons_self, List.splitOn_eq_singleton hw.no_sep, List.foldl_append,
      List.foldl_append, List.splitOn_nil]
    simp [normStep_nil, normStep_name hw]
  · rw [List.splitOn_append_cons_self, List.splitOn_eq_singleton hw.no_sep, List.foldl_append, hword]
    simp

/-- The last name of a list, made longer. -/
def extendLast (ext : Path) (ws : List Path) : List Path := ws.dropLast ++ [ws.getLast?.getD [] ++ ext]

theorem intercalate_last (ext u : Path) (us : List Path) :
    ['/'].intercalate (us ++ [u ++ ext]) = ['/'].intercalate (us ++ [u]) ++ ext := by
  induction us with
  | nil => simp
  | cons v us ih =>
      rw [List.cons_append, List.intercalate_cons_of_ne_nil (by simp), ih, List.cons_append,
        List.intercalate_cons_of_ne_nil (by simp)]
      simp

theorem intercalate_extendLast (ext : Path) (ws : List Path) :
    ['/'].intercalate (extendLast ext ws) = ['/'].intercalate ws ++ ext := by
  by_cases hn : ws = []
  · subst hn
    simp [extendLast]
  · rw [extendLast, intercalate_last, List.getLast?_eq_some_getLast hn, Option.getD_some,
      List.dropLast_concat_getLast hn]

/-- An ending that makes a name of every name: it has no separator and is more than dots. -/
structure IsEnding (ext : Path) : Prop where
  ne_nil : ext ≠ []
  no_sep : '/' ∉ ext
  dotless : ∃ c ∈ ext, c ≠ '.'

theorem IsEnding.isName {ext : Path} (he : IsEnding ext) {w : Path} (hw : '/' ∉ w) : IsName (w ++ ext) := by
  obtain ⟨c, hc, hdot⟩ := he.dotless
  have hmem : c ∈ w ++ ext := List.mem_append_right w hc
  refine ⟨?_, ?_, ?_, ?_⟩
  · simp [he.ne_nil]
  · intro h
    rw [h] at hmem
    simp [hdot] at hmem
  · intro h
    rw [h] at hmem
    simp [hdot] at hmem
  · rw [List.mem_append, not_or]
    exact ⟨hw, he.no_sep⟩

theorem isName_of_mem_extendLast {ext : Path} {ws : List Path} (he : IsEnding ext) (hw : ∀ w ∈ ws, IsName w) :
    ∀ w ∈ extendLast ext ws, IsName w := by
  intro w hmem
  rcases List.mem_append.mp hmem with hmem | hmem
  · exact hw w ((List.dropLast_sublist ws).subset hmem)
  · rw [List.mem_singleton.mp hmem]
    refine he.isName ?_
    cases hlast : ws.getLast? with
    | none => simp
    | some v => exact (hw v (List.mem_of_getLast? hlast)).no_sep

theorem parts_append_ending {p ext : Path} (hp : isAbs p = true) (he : IsEnding ext) :
    parts (normpath p ++ ext) = extendLast ext (parts p) := by
  rw [normpath_of_isAbs hp, List.append_assoc, ← intercalate_extendLast]
  exact parts_joined (slashes_pos hp) (isName_of_mem_extendLast he fun w hw => isName_of_mem_parts hp hw)

theorem inside_append_ending {root p ext : Path} (hp : isAbs p = true) (he : IsEnding ext) :
    Inside root (normpath p ++ ext) ↔ Inside root p := by
  rw [Inside, Inside, parts_append_ending hp he, extendLast, List.dropLast_concat]

theorem inside_join_name {root p w : Path} (hp : isAbs p = true) (hw : IsName w) :
    Inside root (join p w) ↔ Within root p := by
  rw [Inside, Within, parts_join_name hp hw, List.dropLast_concat]

/-! ### Canonical paths -/

/-- A path in the form `realpath` returns: one slash, and names joined. -/
def IsReal (p : Path) : Prop := ∃ ws : List Path, (∀ w ∈ ws, IsName w) ∧ p = '/' :: ['/'].intercalate ws

theorem parts_real {ws : List Path} (hw : ∀ w ∈ ws, IsName w) : parts ('/' :: ['/'].intercalate ws) = ws :=
  parts_joined Nat.one_pos hw

theorem words_real {ws : List Path} (hw : ∀ w ∈ ws, IsName w) : words ('/' :: ['/'].intercalate ws) = ws := by
  have hsplit := splitOn_slashes 1 (['/'].intercalate ws)
  rw [List.replicate_one, List.singleton_append] at hsplit
  rw [words, hsplit]
  by_cases hn : ws = []
  · subst hn
    rfl
  · rw [List.splitOn_intercalate '/' (fun w hw' => (hw w hw').no_sep) hn]
    simp only [List.replicate_one, List.singleton_append]
    rw [List.filter_cons_of_neg (by simp)]
    refine List.filter_eq_self.mpr fun w hw' => ?_
    simp [(hw w hw').ne_nil, (hw w hw').ne_dot]

theorem commonPrefix_eq_right {as bs : List Path} : commonPrefix as bs = bs ↔ bs <+: as := by
  fun_induction commonPrefix with
  | case1 a as bs ih => simp [ih, List.cons_prefix_cons]
  | case2 a as b bs hne => simp [List.cons_prefix_cons, Ne.symm hne]
  | case3 as bs hcons =>
      cases bs with
      | nil => simp
      | cons b bs =>
          cases as with
          | nil => simp
          | cons a as => exact absurd rfl (hcons a as b bs rfl)

theorem mem_of_mem_commonPrefix {as bs : List Path} {w : Path} (hw : w ∈ commonPrefix as bs) : w ∈ bs := by
  fun_induction commonPrefix with
  | case1 a as bs ih =>
      cases hw with
      | head => exact List.mem_cons_self
      | tail _ hw => exact List.mem_cons_of_mem _ (ih hw)
  | case2 a as b bs hne => cases hw
  | case3 as bs hcons => cases hw

theorem commonpath_eq_root_iff {p root : Path} (hp : IsReal p) (hr : IsReal root) :
    commonpath p root = some root ↔ Within root p := by
  obtain ⟨ws, hws, rfl⟩ := hp
  obtain ⟨vs, hvs, rfl⟩ := hr
  have hcommon : ∀ w ∈ commonPrefix ws vs, IsName w := fun w hw => hvs w (mem_of_mem_commonPrefix hw)
  have habs : ∀ us : List Path, isAbs ('/' :: ['/'].intercalate us) = true := fun us => rfl
  rw [Within, parts_real hvs, parts_real hws, ← commonPrefix_eq_right, commonpath, words_real hws, words_real hvs,
    habs, habs]
  simp only [if_true, List.singleton_append, Option.some.injEq]
  constructor
  · intro he
    have hparts := congrArg parts he
    rw [parts_real hcommon, parts_real hvs] at hparts
    exact hparts
  · intro he
    rw [he]

/-! ### The places on the way -/

/-- The places that components lead through, one after the other, from a place on whose last name stands first. -/
def through (abs : Bool) : List Path → List Path → List (List Path)
  | _, [] => []
  | kept, comp :: rest => (normStep abs kept comp).reverse :: through abs (normStep abs kept comp) rest

/-- The places that a path leads through. The last one is where it leads to. -/
def places (p : Path) : List (List Path) := through (isAbs p) [] (p.splitOn '/')

variable {abs : Bool} {kept : List Path} {q : List Path}

theorem through_append (as bs : List Path) :
    through abs kept (as ++ bs) = through abs kept as ++ through abs (as.foldl (normStep abs) kept) bs := by
  induction as generalizing kept with
  | nil => rfl
  | cons a as ih => rw [List.cons_append, through, through, ih, List.cons_append, List.foldl_cons]

theorem through_nils (k : Nat) (hq : q ∈ through abs kept (List.replicate k [])) : q = kept.reverse := by
  induction k with
  | zero => cases hq
  | succ k ih =>
      rw [List.replicate_succ, through, normStep_nil] at hq
      rcases List.mem_cons.mp hq with rfl | hq
      · rfl
      · exact ih hq

theorem through_names {ws : List Path} (hw : ∀ w ∈ ws, IsName w) (hq : q ∈ through abs kept ws) : q <+: kept.reverse ++ ws := by
  induction ws generalizing kept with
  | nil => cases hq
  | cons w ws ih =>
      obtain ⟨hname, hrest⟩ := List.forall_mem_cons.mp hw
      have hstep : (w :: kept).reverse ++ ws = kept.reverse ++ w :: ws := by simp
      rw [through, normStep_name hname] at hq
      rcases List.mem_cons.mp hq with rfl | hq
      · rw [← hstep]
        exact List.prefix_append _ _
      · exact hstep ▸ ih hrest hq

theorem prefix_of_mem_places {p : Path} (hp : isAbs p = true) (hnormal : normpath p = p) (hq : q ∈ places p) : q <+: parts p := by
  have hnames : ∀ w ∈ parts p, IsName w := fun w hw => isName_of_mem_parts hp hw
  have hsplit : p.splitOn '/' = List.replicate (slashes p) [] ++ (['/'].intercalate (parts p)).splitOn '/' := by
    rw [← splitOn_slashes, ← normpath_of_isAbs hp, hnormal]
  unfold places at hq
  rw [hsplit, through_append, foldl_nils] at hq
  rcases List.mem_append.mp hq with hq | hq
  · rw [through_nils _ hq]
    exact List.nil_prefix
  · by_cases hempty : parts p = []
    · rw [hempty] at hq ⊢
      rcases List.mem_singleton.mp hq with rfl
      exact List.prefix_refl []
    · rw [List.splitOn_intercalate '/' (fun w hw => (hnames w hw).no_sep) hempty] at hq
      exact through_names hnames hq

theorem parts_join {a b : Path} (ha : isAbs a = true) (hb : isAbs b = false) :
    parts (join a b) = ((b.splitOn '/').foldl (normStep true) (parts a).reverse).reverse ∧
      (∀ q, q ∈ places (join a b) → q ∈ places a ∨ q ∈ through true (parts a).reverse (b.splitOn '/')) ∧
      ∀ q, q ∈ through true (parts a).reverse (b.splitOn '/') → q ∈ places (join a b) := by
  have habs := isAbs_join (b := b) ha
  have hne : a ≠ [] := by
    rintro rfl
    cases ha
  unfold places
  rw [parts, habs, parts, ha, List.reverse_reverse]
  unfold join
  rw [hb]
  simp only [Bool.false_eq_true, if_false, hne, false_or]
  split
  · next hlast =>
      obtain ⟨a', rfl⟩ : ∃ a', a = a' ++ ['/'] := List.getLast?_eq_some_iff.mp hlast
      rw [List.append_assoc, List.singleton_append, List.splitOn_append_cons_self, List.splitOn_append_cons_self,
        List.splitOn_nil, List.foldl_append, List.foldl_append, through_append, through_append]
      simp only [List.foldl_cons, List.foldl_nil, normStep_nil, List.mem_append]
      exact ⟨trivial, fun q hq => hq.imp .inl id, fun q hq => .inr hq⟩
  · rw [List.splitOn_append_cons_self, List.foldl_append, through_append]
    simp only [List.mem_append]
    exact ⟨trivial, fun q hq => hq, fun q hq => .inr hq⟩

/-- The places that components lead through are among those, and where they lead to lies below a directory. -/
def Stays (ok : List Path → Prop) (base : List Path) (kept comps : List Path) : Prop :=
  (∀ q ∈ through true kept comps, ok q) ∧ base.reverse <+: (comps.foldl (normStep true) kept).reverse

theorem normStep_dots_cons {w : Path} {kept : List Path} (hw : w ≠ ['.', '.']) : normStep true (w :: kept) ['.', '.'] = kept := by
  unfold normStep
  simp [hw]

theorem prefix_reverse_append {base tail : List Path} {u : Path} : base.reverse <+: (tail ++ u :: base).reverse := by
  rw [List.reverse_append, List.reverse_cons, List.append_assoc]
  exact List.prefix_append _ _

theorem Stays.sibling {ok : List Path → Prop} {base tail comps : List Path} {u v : Path} (hok : ∀ q, base.reverse <+: q → ok q)
    (hu : u ≠ ['.', '.']) (hv : v ≠ ['.', '.']) (htail : ∀ w ∈ tail, w ≠ ['.', '.']) (h : Stays ok base (tail ++ u :: base) comps) :
    Stays ok base (tail ++ v :: base) comps := by
  induction comps generalizing tail with
  | nil => exact ⟨fun q hq => absurd hq List.not_mem_nil, prefix_reverse_append⟩
  | cons comp comps ih =>
      obtain ⟨hplaces, hend⟩ := h
      rw [through] at hplaces
      rw [List.foldl_cons] at hend
      obtain ⟨-, hplaces⟩ := List.forall_mem_cons.mp hplaces
      -- In both walks the step is the same, as long as neither has left the directory.
      have hsame : (∃ tail', (∀ w ∈ tail', w ≠ ['.', '.']) ∧ ∀ x : Path, x ≠ ['.', '.'] →
            normStep true (tail ++ x :: base) comp = tail' ++ x :: base) ∨
          ∀ x : Path, x ≠ ['.', '.'] → normStep true (tail ++ x :: base) comp = base := by
        by_cases hkeep : comp = [] ∨ comp = ['.']
        · refine .inl ⟨tail, htail, fun x _ => ?_⟩
          unfold normStep
          exact if_pos hkeep
        · by_cases hdots : comp = ['.', '.']
          · subst hdots
            cases tail with
            | nil => exact .inr fun x hx => normStep_dots_cons hx
            | cons w tail =>
                obtain ⟨hw, hrest⟩ := List.forall_mem_cons.mp htail
                exact .inl ⟨tail, hrest, fun x _ => normStep_dots_cons hw⟩
          · refine .inl ⟨comp :: tail, List.forall_mem_cons.mpr ⟨hdots, htail⟩, fun x _ => ?_⟩
            unfold normStep
            rw [if_neg hkeep, if_pos (.inl hdots)]
            rfl
      rcases hsame with ⟨tail', htail', hstep⟩ | hstep
      · rw [hstep u hu] at hplaces hend
        obtain ⟨hplaces', hend'⟩ := ih htail' ⟨hplaces, hend⟩
        constructor
        · rw [through, hstep v hv]
          exact List.forall_mem_cons.mpr ⟨hok _ prefix_reverse_append, hplaces'⟩
        · rw [List.foldl_cons, hstep v hv]
          exact hend'
      · rw [hstep u hu] at hplaces hend
        constructor
        · rw [through, hstep v hv]
          exact List.forall_mem_cons.mpr ⟨hok _ (List.prefix_refl _), hplaces⟩
        · rw [List.foldl_cons, hstep v hv]
          exact hend

end PosixPath
