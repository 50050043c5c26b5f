import Nodus.HostInts
import Nodus.InsertionSort
import Nodus.Iso8601

/-! The fields of cron expressions: how `parse_field` reads them, and what the grammar has them denote. -/

namespace Nodus.CronFields

open JsonText TimeFormats Iso8601 HostInts

section Source

variable (tables : CharTables)

def sortedUnique (items : List Int) : List Int := InsertionSort.sort (InsertionSort.firsts intText items)

/-- A step of a term. -/
abbrev Step := {s : Int // 1 ≤ s}

/-- `while (v <= high)`. -/
def countUp (high : Int) (step : Step) (v : Int) : List Int :=
  if v ≤ high then v :: countUp high step (v + step) else []
termination_by (high + 1 - v).toNat
decreasing_by
  have := step.2
  omega

def notPositive (term : Text) : Text := text "schedule step must be positive: " ++ term

/-- What the VM says of a comparison with an error record. -/
def notCompared : Text := text "Cannot compare error and int"

def outOfRange (term : Text) (lo hi : Int) : Text :=
  text "schedule field out of range: " ++ term ++ text " (expected " ++ intText lo ++ text "-" ++ intText hi ++ text ")"

/-- The checks of the bounds, and the values. -/
def listValues (term : Text) (lo hi : Int) (step : Step) : Option Int → Option Int → Except Text (List Int)
  | none, _ => .error notCompared
  | some low, high =>
      if low < lo then .error (outOfRange term lo hi)
      else match high with
        | none => .error notCompared
        | some high => if high > hi ∨ low > high then .error (outOfRange term lo hi) else .ok (countUp high step low)

/-- The body and the step. -/
def splitTerm (term : Text) : Text × Option Int :=
  match term.splitOn 47 with
  | [body, step] => (body, parseInt tables step)
  | _ => (term, some 1)

/-- The bounds of a body. -/
def bounds (body : Text) (lo hi step : Int) : Option Int × Option Int :=
  if body = text "*" then (some lo, some hi)
  else match body.splitOn 45 with
    | [low, high] => (parseInt tables low, parseInt tables high)
    | _ => (parseInt tables body, if step = 1 then parseInt tables body else some hi)

def parseTerm (term : Text) (lo hi : Int) : Except Text (List Int) :=
  match splitTerm tables term with
  | (_, none) => .error notCompared
  | (body, some step) =>
      if h : step < 1 then .error (notPositive term)
      else listValues term lo hi ⟨step, not_lt.mp h⟩ (bounds tables body lo hi step).1 (bounds tables body lo hi step).2

/-- The loop over the terms. -/
def parseTerms (field : Text) (lo hi : Int) : List Text → Except Text (List Int)
  | [] => .ok []
  | term :: terms => do
      let piece := strip tables term
      if piece = [] then .error (text "empty term in schedule field: " ++ field)
      let values ← parseTerm tables piece lo hi
      let more ← parseTerms field lo hi terms
      return values ++ more

def parseField (field : Text) (lo hi : Int) : Except Text (List Int) :=
  (parseTerms tables field lo hi (field.splitOn 44)).map sortedUnique

end Source

/-! ### The grammar -/

inductive Base where
  | any
  | single (n : Int)
  | range (a b : Int)
  deriving DecidableEq, Repr

structure Term where
  base : Base
  step : Option Int
  deriving DecidableEq, Repr

/-- The texts of a base, over a relation between texts and the integers that they stand for. -/
inductive Base.Writes (num : Text → Int → Prop) : Base → Text → Prop where
  | any : Writes num .any (text "*")
  | single {n : Int} {p : Text} : num p n → Writes num (.single n) p
  | range {a b : Int} {p q : Text} : num p a → num q b → Writes num (.range a b) (p ++ 45 :: q)

inductive Term.Writes (num : Text → Int → Prop) : Term → Text → Prop where
  | bare {base : Base} {p : Text} : base.Writes num p → Writes num ⟨base, none⟩ p
  | stepped {base : Base} {p q : Text} {s : Int} : base.Writes num p → num q s → Writes num ⟨base, some s⟩ (p ++ 47 :: q)

namespace Term

def low (t : Term) (lo : Int) : Int :=
  match t.base with
  | .any => lo
  | .single n => n
  | .range a _ => a

/-- A single value is the whole range, and with a step it begins one. -/
def high (t : Term) (hi : Int) : Int :=
  match t.base with
  | .any => hi
  | .single n => if t.step.isSome then hi else n
  | .range _ b => b

/-- A step is at least one, and the range of the term is one within the range of the field. -/
structure Accepted (t : Term) (lo hi : Int) : Prop where
  step : ∀ s ∈ t.step, 1 ≤ s
  low : lo ≤ t.low lo
  high : t.high hi ≤ hi
  range : t.low lo ≤ t.high hi

/-- The values that a term denotes. -/
def Selects (t : Term) (lo hi v : Int) : Prop := t.low lo ≤ v ∧ v ≤ t.high hi ∧ t.step.getD 1 ∣ v - t.low lo

end Term

/-- A numeral of the grammar. -/
def Numeral (p : Text) (n : Int) : Prop := p ≠ [] ∧ (∀ c ∈ p, isDigit c = true) ∧ n = readDecimal p

section Grammar

variable (tables : CharTables)

/-- The field is a list of such terms, with blanks around them, that are accepted. -/
def Reads (num : Text → Int → Prop) (field : Text) (lo hi : Int) (terms : List Term) : Prop :=
  List.Forall₂ (fun piece (t : Term) => t.Writes num (strip tables piece) ∧ t.Accepted lo hi) (field.splitOn 44) terms

/-- The field denotes these values, in this order. -/
def Denotes (field : Text) (lo hi : Int) (out : List Int) : Prop :=
  out.Pairwise (· < ·) ∧ ∃ terms, Reads tables Numeral field lo hi terms ∧ ∀ v, v ∈ out ↔ ∃ t ∈ terms, t.Selects lo hi v

/-- A text without a minus sign that `int` takes. -/
def Taken (p : Text) (n : Int) : Prop := 45 ∉ p ∧ parseInt tables p = some n

/-- What a term with the step one and a single value leaves out is denoted by another term. -/
def Covered (lo hi : Int) (terms : List Term) : Prop :=
  ∀ n v, ⟨.single n, some 1⟩ ∈ terms → n < v → v ≤ hi → ∃ t ∈ terms, t.Selects lo hi v ∧ ∀ m, t = ⟨.single m, some 1⟩ → v = m

end Grammar

section Texts

variable {num num' : Text → Int → Prop}

/-! ### The texts of terms -/

/-- The texts for integers are not empty and have no sign of the grammar. -/
def Clean (num : Text → Int → Prop) : Prop := ∀ {p n}, num p n → p ≠ [] ∧ 42 ∉ p ∧ 45 ∉ p ∧ 47 ∉ p

theorem clean_numeral : Clean Numeral := by
  rintro p n ⟨hne, hdigits, -⟩
  have hnot : ∀ c, c < 48 → c ∉ p := by
    intro c hc h
    have := isDigit_iff.mp (hdigits c h)
    omega
  exact ⟨hne, hnot 42 (by omega), hnot 45 (by omega), hnot 47 (by omega)⟩

theorem clean_taken (tables : CharTables) : Clean (Taken tables) := by
  rintro p n ⟨hminus, hparse⟩
  obtain ⟨hne, hstar, hslash, -, -⟩ := parseInt_chars tables hparse
  exact ⟨hne, hstar, hminus, hslash⟩

theorem split_pair {sep : Nat} {p q : Text} (hp : sep ∉ p) (hq : sep ∉ q) : (p ++ sep :: q).splitOn sep = [p, q] := by
  rw [List.splitOn_append_cons_self_of_not_mem hp, List.splitOn_eq_singleton hq]

theorem join_pair {sep : Nat} {t p q : Text} (h : t.splitOn sep = [p, q]) : t = p ++ sep :: q := by
  have hjoin : [sep].intercalate (t.splitOn sep) = t := List.intercalate_splitOn sep
  rw [h] at hjoin
  rw [← hjoin]
  simp [List.intercalate]

theorem not_mem_piece (sep : Nat) (t : Text) : ∀ p ∈ t.splitOn sep, sep ∉ p := by
  induction t with
  | nil =>
      intro p hp
      rw [List.splitOn_nil, List.mem_singleton] at hp
      rw [hp]
      exact List.not_mem_nil
  | cons c t ih =>
      intro p hp
      rw [List.splitOn_cons_eq_if_modifyHead] at hp
      split at hp
      · rcases List.mem_cons.mp hp with rfl | hp
        · exact List.not_mem_nil
        · exact ih p hp
      · rename_i hc
        obtain ⟨q, rest, hsplit⟩ := List.exists_cons_of_ne_nil (List.splitOn_ne_nil sep t)
        rw [hsplit] at hp ih
        rcases List.mem_cons.mp hp with rfl | hp
        · rw [List.mem_cons, not_or]
          exact ⟨fun h => hc (beq_iff_eq.mpr h.symm), ih q List.mem_cons_self⟩
        · exact ih p (List.mem_cons_of_mem q hp)

theorem Base.Writes.clean (hnum : Clean num) {base : Base} {p : Text} (h : base.Writes num p) : p ≠ [] ∧ 47 ∉ p := by
  cases h with
  | any => exact ⟨nofun, by decide⟩
  | single hp => exact ⟨(hnum hp).1, (hnum hp).2.2.2⟩
  | range hp hq =>
      refine ⟨List.append_ne_nil_of_right_ne_nil _ (List.cons_ne_nil _ _), fun hmem => ?_⟩
      rcases List.mem_append.mp hmem with hmem | hmem
      · exact (hnum hp).2.2.2 hmem
      · rcases List.mem_cons.mp hmem with heq | hmem
        · omega
        · exact (hnum hq).2.2.2 hmem

theorem Term.Writes.ne_nil (hnum : Clean num) {t : Term} {p : Text} (h : t.Writes num p) : p ≠ [] := by
  cases h with
  | bare hp => exact (hp.clean hnum).1
  | stepped _ _ => exact List.append_ne_nil_of_right_ne_nil _ (List.cons_ne_nil _ _)

section Unique

variable (hnum : Clean num) (hnum' : Clean num') (hagree : ∀ {p a b}, num p a → num' p b → a = b)
include hnum hnum' hagree

theorem Base.writes_unique {base base' : Base} {p : Text} (h : base.Writes num p) (h' : base'.Writes num' p) :
    base' = base ∧ base.Writes (fun p n => num p n ∧ num' p n) p := by
  cases h with
  | any =>
      generalize hp : text "*" = p at h'
      cases h' with
      | any => exact ⟨rfl, hp ▸ .any⟩
      | single hn => exact absurd (hp ▸ List.mem_singleton_self 42) (hnum' hn).2.1
      | range ha hb =>
          have hmem : (45 : Nat) ∈ text "*" := by
            rw [hp]
            exact List.mem_append_right _ List.mem_cons_self
          exact absurd hmem (by decide)
  | single hn =>
      cases h' with
      | any => exact absurd (List.mem_singleton_self 42) (hnum hn).2.1
      | single hn' =>
          obtain rfl := hagree hn hn'
          exact ⟨rfl, .single ⟨hn, hn'⟩⟩
      | range ha hb => exact absurd (List.mem_append_right _ List.mem_cons_self) (hnum hn).2.2.1
  | @range a b q r ha hb =>
      generalize hp : q ++ 45 :: r = p at h'
      cases h' with
      | any =>
          have hmem : (45 : Nat) ∈ text "*" := by
            rw [← hp]
            exact List.mem_append_right _ List.mem_cons_self
          exact absurd hmem (by decide)
      | single hn => exact absurd (hp ▸ List.mem_append_right _ List.mem_cons_self) (hnum' hn).2.2.1
      | range ha' hb' =>
          have hsplit := congrArg (List.splitOn 45) hp
          rw [split_pair (hnum ha).2.2.1 (hnum hb).2.2.1, split_pair (hnum' ha').2.2.1 (hnum' hb').2.2.1] at hsplit
          obtain ⟨rfl, hrest⟩ := List.cons_eq_cons.mp hsplit
          obtain ⟨rfl, -⟩ := List.cons_eq_cons.mp hrest
          obtain rfl := hagree ha ha'
          obtain rfl := hagree hb hb'
          exact ⟨rfl, .range ⟨ha, ha'⟩ ⟨hb, hb'⟩⟩

theorem Term.writes_unique {t t' : Term} {p : Text} (h : t.Writes num p) (h' : t'.Writes num' p) :
    t' = t ∧ t.Writes (fun p n => num p n ∧ num' p n) p := by
  cases h with
  | bare hbase =>
      cases h' with
      | bare hbase' =>
          obtain ⟨rfl, hboth⟩ := Base.writes_unique hnum hnum' hagree hbase hbase'
          exact ⟨rfl, .bare hboth⟩
      | stepped _ _ => exact absurd (List.mem_append_right _ List.mem_cons_self) (hbase.clean hnum).2
  | @stepped base q r s hbase hs =>
      generalize hp : q ++ 47 :: r = p at h'
      cases h' with
      | bare hbase' => exact absurd (hp ▸ List.mem_append_right _ List.mem_cons_self) (hbase'.clean hnum').2
      | stepped hbase' hs' =>
          have hsplit := congrArg (List.splitOn 47) hp
          rw [split_pair (hbase.clean hnum).2 (hnum hs).2.2.2, split_pair (hbase'.clean hnum').2 (hnum' hs').2.2.2] at hsplit
          obtain ⟨rfl, hrest⟩ := List.cons_eq_cons.mp hsplit
          obtain ⟨rfl, -⟩ := List.cons_eq_cons.mp hrest
          obtain ⟨rfl, hboth⟩ := Base.writes_unique hnum hnum' hagree hbase hbase'
          obtain rfl := hagree hs hs'
          exact ⟨rfl, .stepped hboth ⟨hs, hs'⟩⟩

end Unique

theorem Base.Writes.mono (hmono : ∀ {p n}, num p n → num' p n) {base : Base} {p : Text} (h : base.Writes num p) : base.Writes num' p := by
  cases h with
  | any => exact .any
  | single hn => exact .single (hmono hn)
  | range ha hb => exact .range (hmono ha) (hmono hb)

theorem Term.Writes.mono (hmono : ∀ {p n}, num p n → num' p n) {t : Term} {p : Text} (h : t.Writes num p) : t.Writes num' p := by
  cases h with
  | bare hbase => exact .bare (hbase.mono hmono)
  | stepped hbase hs => exact .stepped (hbase.mono hmono) (hmono hs)

end Texts

/-! ### What the code reads -/

theorem mem_countUp {high : Int} {step : Step} {low v : Int} : v ∈ countUp high step low ↔ low ≤ v ∧ v ≤ high ∧ (step : Int) ∣ v - low := by
  have hstep := step.2
  induction low using countUp.induct high step with
  | case1 low hle ih =>
      have hrest : v ∈ countUp high step (low + step) ↔ low + step ≤ v ∧ v ≤ high ∧ (step : Int) ∣ v - (low + step) := ih
      rw [countUp, if_pos hle, List.mem_cons, hrest]
      constructor
      · rintro (rfl | ⟨hlow, hhigh, hdvd⟩)
        · exact ⟨le_rfl, hle, by rw [sub_self]; exact dvd_zero _⟩
        · refine ⟨by omega, hhigh, ?_⟩
          have hsum := dvd_add hdvd (dvd_refl (step : Int))
          rwa [show v - (low + step) + step = v - low by omega] at hsum
      · rintro ⟨hlow, hhigh, k, hk⟩
        rcases eq_or_lt_of_le hlow with heq | hlt
        · exact .inl heq.symm
        · have hpos : 0 < k := by
            by_contra hneg
            have := mul_nonpos_of_nonneg_of_nonpos (by omega : (0 : Int) ≤ step) (not_lt.mp hneg)
            omega
          have hmore : (step : Int) ≤ step * k := le_mul_of_one_le_right (by omega) hpos
          exact .inr ⟨by omega, hhigh, k - 1, by rw [mul_sub, mul_one]; omega⟩
  | case2 low hgt =>
      rw [countUp, if_neg hgt]
      refine iff_of_false List.not_mem_nil ?_
      rintro ⟨hlow, hhigh, -⟩
      omega

namespace Term

/-- Where the code ends: a single value with the step one is a single value. -/
def listedHigh (t : Term) (hi : Int) : Int :=
  match t.base with
  | .any => hi
  | .single n => if t.step.getD 1 = 1 then n else hi
  | .range _ b => b

/-- The values that the code lists for a term. -/
def Lists (t : Term) (lo hi v : Int) : Prop := t.low lo ≤ v ∧ v ≤ t.listedHigh hi ∧ t.step.getD 1 ∣ v - t.low lo

theorem lists_iff {t : Term} {lo hi v : Int} (ha : t.Accepted lo hi) :
    t.Lists lo hi v ↔ t.Selects lo hi v ∧ ∀ n, t = ⟨.single n, some 1⟩ → v = n := by
  obtain ⟨base, step⟩ := t
  cases base with
  | any => exact (and_iff_left nofun).symm
  | range a b => exact (and_iff_left nofun).symm
  | single n =>
      cases step with
      | none => exact (and_iff_left nofun).symm
      | some s =>
          by_cases hs : s = 1
          · subst hs
            have hrange := ha.range
            simp only [low, high, Option.isSome_some, if_true] at hrange
            simp only [Lists, Selects, low, high, listedHigh, Option.getD_some, if_true, Option.isSome_some]
            constructor
            · rintro ⟨hle, hge, hdvd⟩
              exact ⟨⟨hle, hge.trans hrange, hdvd⟩, fun m hm => by cases hm; omega⟩
            · rintro ⟨⟨hle, -, hdvd⟩, honly⟩
              exact ⟨hle, (honly n rfl).le, hdvd⟩
          · have hnot : ∀ m, (⟨.single n, some s⟩ : Term) = ⟨.single m, some 1⟩ → v = m := by
              intro m hm
              cases hm
              exact absurd rfl hs
            simp only [Lists, Selects, low, high, listedHigh, Option.getD_some, if_neg hs, Option.isSome_some, if_true]
            exact (and_iff_left hnot).symm

end Term

section Parsing

variable {tables : CharTables} {lo hi : Int}

theorem bounds_of_writes {base : Base} {p : Text} (h : base.Writes (Taken tables) p) (step : Int) :
    bounds tables p lo hi step = (some ((⟨base, some step⟩ : Term).low lo), some ((⟨base, some step⟩ : Term).listedHigh hi)) := by
  cases h with
  | any => rfl
  | single hn =>
      have hstar : ¬ p = text "*" := by
        rintro rfl
        exact (clean_taken tables hn).2.1 (List.mem_singleton_self 42)
      rw [bounds, if_neg hstar, List.splitOn_eq_singleton hn.1, hn.2]
      dsimp only
      simp only [Term.low, Term.listedHigh, Option.getD_some]
      split <;> rfl
  | @range a b q r ha hb =>
      have hstar : ¬ q ++ 45 :: r = text "*" := by
        intro heq
        have hmem : (45 : Nat) ∈ text "*" := by
          rw [← heq]
          exact List.mem_append_right _ List.mem_cons_self
        exact absurd hmem (by decide)
      rw [bounds, if_neg hstar, split_pair ha.1 hb.1]
      dsimp only
      rw [ha.2, hb.2]
      rfl

theorem writes_of_bounds {p : Text} {step low high : Int} (h : bounds tables p lo hi step = (some low, some high)) :
    ∃ base : Base, base.Writes (Taken tables) p := by
  rw [bounds] at h
  split at h
  · rename_i hp
    exact ⟨.any, hp ▸ .any⟩
  · split at h
    · rename_i q r hsplit
      obtain ⟨ha, hb⟩ := Prod.mk.inj h
      have hp := join_pair hsplit
      have hminus := not_mem_piece 45 p
      rw [hsplit] at hminus
      exact ⟨.range low high, hp ▸ .range ⟨hminus q List.mem_cons_self, ha⟩ ⟨hminus r (List.mem_cons_of_mem q List.mem_cons_self), hb⟩⟩
    · rename_i hsplit
      obtain ⟨hn, -⟩ := Prod.mk.inj h
      refine ⟨.single low, .single ⟨fun hmem => ?_, hn⟩⟩
      -- The text has one minus sign only, and is cut there.
      obtain ⟨q, r, hp, hq⟩ := List.eq_append_cons_of_mem hmem
      have hcount := (parseInt_chars tables hn).2.2.2.1
      rw [hp, List.count_append, List.count_cons_self, List.count_eq_zero_of_not_mem hq] at hcount
      have hr : 45 ∉ r := List.count_eq_zero.mp (by omega)
      exact hsplit q r (hp ▸ split_pair hq hr)

theorem listValues_ok {term : Text} {step : Step} {low high : Option Int} {values : List Int} :
    listValues term lo hi step low high = .ok values ↔
      ∃ l h, low = some l ∧ high = some h ∧ lo ≤ l ∧ h ≤ hi ∧ l ≤ h ∧ values = countUp h step l := by
  cases low with
  | none => exact iff_of_false nofun nofun
  | some l =>
      rw [listValues.eq_def]
      dsimp only
      split
      · refine iff_of_false nofun ?_
        rintro ⟨_, _, hl, -, hle, -⟩
        cases hl
        omega
      · cases high with
        | none => exact iff_of_false nofun nofun
        | some h =>
            dsimp only
            split
            · refine iff_of_false nofun ?_
              rintro ⟨_, _, hl, hh, -, hge, hle, -⟩
              cases hl
              cases hh
              omega
            · rename_i hlow hbounds
              rw [not_or, not_lt, not_lt] at hbounds
              rw [Except.ok.injEq]
              constructor
              · rintro rfl
                exact ⟨l, h, rfl, rfl, not_lt.mp hlow, hbounds.1, hbounds.2, rfl⟩
              · rintro ⟨_, _, hl, hh, -, -, -, hvalues⟩
                cases hl
                cases hh
                exact hvalues.symm

/-- The term whose text this is has the range that the code checks within the field's exactly when it is accepted. -/
theorem accepted_iff {t : Term} (hstep : ∀ s ∈ t.step, 1 ≤ s) :
    t.Accepted lo hi ↔ lo ≤ t.low lo ∧ t.listedHigh hi ≤ hi ∧ t.low lo ≤ t.listedHigh hi := by
  have hsame : (lo ≤ t.low lo ∧ t.high hi ≤ hi ∧ t.low lo ≤ t.high hi) ↔
      lo ≤ t.low lo ∧ t.listedHigh hi ≤ hi ∧ t.low lo ≤ t.listedHigh hi := by
    obtain ⟨base, step⟩ := t
    cases base with
    | any => exact Iff.rfl
    | range a b => exact Iff.rfl
    | single n =>
        cases step with
        | none => exact Iff.rfl
        | some s =>
            simp only [Term.low, Term.high, Term.listedHigh, Option.isSome_some, if_true, Option.getD_some]
            split <;> omega
  rw [← hsame]
  exact ⟨fun h => ⟨h.low, h.high, h.range⟩, fun h => ⟨hstep, h.1, h.2.1, h.2.2⟩⟩

theorem parseTerm_of_writes {t : Term} {p : Text} (h : t.Writes (Taken tables) p) (ha : t.Accepted lo hi) :
    ∃ values, parseTerm tables p lo hi = .ok values ∧ ∀ v, v ∈ values ↔ t.Lists lo hi v := by
  have hbounds := (accepted_iff ha.step).mp ha
  cases h with
  | bare hbase =>
      rename_i base
      have hsplit : splitTerm tables p = (p, some 1) := by
        rw [splitTerm, List.splitOn_eq_singleton (hbase.clean (clean_taken tables)).2]
      refine ⟨countUp _ ⟨1, le_rfl⟩ _, ?_, fun v => mem_countUp⟩
      rw [parseTerm, hsplit]
      dsimp only
      rw [dif_neg (by omega), bounds_of_writes hbase]
      exact listValues_ok.mpr ⟨_, _, rfl, rfl, hbounds.1, hbounds.2.1, hbounds.2.2, rfl⟩
  | stepped hbase hs =>
      rename_i base q r s
      have hstep := ha.step s rfl
      have hsplit : splitTerm tables (q ++ 47 :: r) = (q, some s) := by
        rw [splitTerm, split_pair (hbase.clean (clean_taken tables)).2 (clean_taken tables hs).2.2.2]
        dsimp only
        rw [hs.2]
      refine ⟨countUp _ ⟨s, hstep⟩ _, ?_, fun v => mem_countUp⟩
      rw [parseTerm, hsplit]
      dsimp only
      rw [dif_neg (by omega), bounds_of_writes hbase]
      exact listValues_ok.mpr ⟨_, _, rfl, rfl, hbounds.1, hbounds.2.1, hbounds.2.2, rfl⟩

theorem writes_of_parseTerm {p : Text} {values : List Int} (h : parseTerm tables p lo hi = .ok values) :
    ∃ t : Term, t.Writes (Taken tables) p ∧ t.Accepted lo hi := by
  rw [parseTerm] at h
  split at h
  · cases h
  · rename_i body step hsplit
    split at h
    · cases h
    · rename_i hstep
      obtain ⟨low, high, hlow, hhigh, hl, hh, hlh, -⟩ := listValues_ok.mp h
      have hbounds : bounds tables body lo hi step = (some low, some high) := Prod.ext hlow hhigh
      obtain ⟨base, hbase⟩ := writes_of_bounds hbounds
      rw [bounds_of_writes hbase] at hbounds
      obtain ⟨hlow', hhigh'⟩ := Prod.mk.inj hbounds
      rw [splitTerm] at hsplit
      split at hsplit
      · rename_i q r hpair
        obtain ⟨rfl, hs⟩ := Prod.mk.inj hsplit
        have hminus : 45 ∉ r := fun hmem => hstep (by
          have := (parseInt_chars tables hs).2.2.2.2 hmem
          omega)
        refine ⟨⟨base, some step⟩, join_pair hpair ▸ .stepped hbase ⟨hminus, hs⟩, (accepted_iff ?_).mpr ?_⟩
        · rintro s ⟨⟩
          omega
        · rw [Option.some.inj hlow', Option.some.inj hhigh']
          exact ⟨hl, hh, hlh⟩
      · obtain ⟨rfl, hs⟩ := Prod.mk.inj hsplit
        obtain rfl := Option.some.inj hs
        obtain rfl := Option.some.inj hlow'
        obtain rfl := Option.some.inj hhigh'
        exact ⟨⟨base, none⟩, .bare hbase, (accepted_iff fun _ hs => by cases hs).mpr ⟨hl, hh, hlh⟩⟩

theorem parseTerms_of_reads (field : Text) {pieces : List Text} {terms : List Term}
    (h : List.Forall₂ (fun piece (t : Term) => t.Writes (Taken tables) (strip tables piece) ∧ t.Accepted lo hi) pieces terms) :
    ∃ values, parseTerms tables field lo hi pieces = .ok values ∧ ∀ v, v ∈ values ↔ ∃ t ∈ terms, t.Lists lo hi v := by
  induction h with
  | nil => exact ⟨[], rfl, fun v => iff_of_false List.not_mem_nil fun ⟨_, ht, _⟩ => absurd ht List.not_mem_nil⟩
  | @cons piece t pieces terms hpiece _ ih =>
      obtain ⟨values, hvalues, hmem⟩ := parseTerm_of_writes hpiece.1 hpiece.2
      obtain ⟨more, hmore, hmem'⟩ := ih
      refine ⟨values ++ more, ?_, fun v => ?_⟩
      · rw [parseTerms]
        dsimp only
        rw [if_neg (hpiece.1.ne_nil (clean_taken tables)), hvalues, hmore]
        rfl
      · rw [List.mem_append, hmem v, hmem' v, List.exists_mem_cons_iff]

theorem reads_of_parseTerms {field : Text} {pieces : List Text} {values : List Int} (h : parseTerms tables field lo hi pieces = .ok values) :
    ∃ terms, List.Forall₂ (fun piece (t : Term) => t.Writes (Taken tables) (strip tables piece) ∧ t.Accepted lo hi) pieces terms := by
  induction pieces generalizing values with
  | nil => exact ⟨[], .nil⟩
  | cons piece pieces ih =>
      rw [parseTerms] at h
      dsimp only at h
      split at h
      · cases h
      · cases hterm : parseTerm tables (strip tables piece) lo hi with
        | error e =>
            rw [hterm] at h
            cases h
        | ok first =>
            cases hmore : parseTerms tables field lo hi pieces with
            | error e =>
                rw [hterm, hmore] at h
                cases h
            | ok more =>
                obtain ⟨t, ht⟩ := writes_of_parseTerm hterm
                obtain ⟨terms, hterms⟩ := ih hmore
                exact ⟨t :: terms, .cons ht hterms⟩

theorem intText_injective : Function.Injective intText := by
  have hdecimal : ∀ {m n : Nat}, decimal m = decimal n → m = n := by
    intro m n h
    rw [← readDecimal_decimal m, h, readDecimal_decimal]
  have hsign : ∀ {m n : Nat}, 45 :: decimal m ≠ decimal n := by
    intro m n h
    have hdigit := decimal_digits (n := n) (h ▸ List.mem_cons_self)
    exact absurd hdigit (by decide)
  intro m n h
  rw [intText, intText] at h
  split at h
  · split at h
    · have := hdecimal (List.cons_eq_cons.mp h).2
      omega
    · exact absurd h hsign
  · split at h
    · exact absurd h.symm hsign
    · have := hdecimal h
      omega

theorem sortedUnique_spec (items : List Int) : (sortedUnique items).Pairwise (· < ·) ∧ ∀ v, v ∈ sortedUnique items ↔ v ∈ items :=
  InsertionSort.sort_firsts intText_injective items

theorem parseField_of_reads {field : Text} {terms : List Term} (h : Reads tables (Taken tables) field lo hi terms) :
    ∃ out, parseField tables field lo hi = .ok out ∧ out.Pairwise (· < ·) ∧ ∀ v, v ∈ out ↔ ∃ t ∈ terms, t.Lists lo hi v := by
  obtain ⟨values, hvalues, hmem⟩ := parseTerms_of_reads field h
  obtain ⟨hsorted, hsame⟩ := sortedUnique_spec values
  exact ⟨sortedUnique values, by rw [parseField, hvalues]; rfl, hsorted, fun v => (hsame v).trans (hmem v)⟩

theorem reads_of_parseField {field : Text} {out : List Int} (h : parseField tables field lo hi = .ok out) :
    ∃ terms, Reads tables (Taken tables) field lo hi terms := by
  rw [parseField] at h
  cases hvalues : parseTerms tables field lo hi (field.splitOn 44) with
  | error e =>
      rw [hvalues] at h
      cases h
  | ok values => exact reads_of_parseTerms hvalues

theorem Reads.unique {num num' : Text → Int → Prop} (hnum : Clean num) (hnum' : Clean num')
    (hagree : ∀ {p a b}, num p a → num' p b → a = b) {field : Text} {terms terms' : List Term} (h : Reads tables num field lo hi terms)
    (h' : Reads tables num' field lo hi terms') : terms' = terms ∧ Reads tables (fun p n => num p n ∧ num' p n) field lo hi terms := by
  rw [Reads] at h h' ⊢
  generalize field.splitOn 44 = pieces at h h' ⊢
  induction h generalizing terms' with
  | nil =>
      cases h'
      exact ⟨rfl, .nil⟩
  | cons ht _ ih =>
      cases h' with
      | cons ht' hrest' =>
          obtain ⟨rfl, hboth⟩ := Term.writes_unique hnum hnum' hagree ht.1 ht'.1
          obtain ⟨rfl, hrest⟩ := ih hrest'
          exact ⟨rfl, .cons ⟨hboth, ht.2⟩ hrest⟩

theorem Reads.mono {num num' : Text → Int → Prop} (hmono : ∀ {p n}, num p n → num' p n) {field : Text} {terms : List Term}
    (h : Reads tables num field lo hi terms) : Reads tables num' field lo hi terms :=
  List.Forall₂.imp (fun _ _ ht => ⟨ht.1.mono hmono, ht.2⟩) h

theorem Reads.accepted {num : Text → Int → Prop} {field : Text} {terms : List Term} (h : Reads tables num field lo hi terms) :
    ∀ t ∈ terms, t.Accepted lo hi := by
  rw [Reads] at h
  generalize field.splitOn 44 = pieces at h
  induction h with
  | nil => exact nofun
  | cons ht _ ih => exact List.forall_mem_cons.mpr ⟨ht.2, ih⟩

theorem numeral_taken {p : Text} {a b : Int} (ha : Numeral p a) (hb : Taken tables p b) : a = b ∧ p.length ≤ maxStrDigits := by
  obtain ⟨hne, hdigits, rfl⟩ := ha
  have hparse := hb.2
  rw [parseInt_digits tables hne hdigits] at hparse
  split at hparse
  · cases hparse
  · rename_i hshort
    exact ⟨Option.some.inj hparse, not_lt.mp hshort⟩

theorem taken_of_numeral {p : Text} {n : Int} (h : Numeral p n) (hshort : p.length ≤ maxStrDigits) : Taken tables p n := by
  refine ⟨(clean_numeral h).2.2.1, ?_⟩
  obtain ⟨hne, hdigits, rfl⟩ := h
  rw [parseInt_digits tables hne hdigits, if_neg (not_lt.mpr hshort)]

theorem denotes_exists {field : Text} {terms : List Term} (h : Reads tables Numeral field lo hi terms) :
    ∃ out, Denotes tables field lo hi out := by
  classical
  obtain ⟨hsorted, hmem⟩ := sortedUnique_spec ((countUp hi ⟨1, le_rfl⟩ lo).filter fun v => decide (∃ t ∈ terms, t.Selects lo hi v))
  refine ⟨_, hsorted, terms, h, fun v => (hmem v).trans ?_⟩
  rw [List.mem_filter, mem_countUp, decide_eq_true_iff]
  refine ⟨And.right, ?_⟩
  rintro ⟨t, ht, hselects⟩
  have ha := h.accepted t ht
  exact ⟨⟨ha.low.trans hselects.1, hselects.2.1.trans ha.high, one_dvd _⟩, t, ht, hselects⟩

theorem lists_eq_selects_iff {terms : List Term} (ha : ∀ t ∈ terms, t.Accepted lo hi) :
    (∀ v, (∃ t ∈ terms, t.Lists lo hi v) ↔ ∃ t ∈ terms, t.Selects lo hi v) ↔ Covered lo hi terms := by
  constructor
  · intro h n v hn hlt hle
    have hselects : (⟨.single n, some 1⟩ : Term).Selects lo hi v := ⟨hlt.le, hle, one_dvd _⟩
    obtain ⟨t, ht, hlists⟩ := (h v).mpr ⟨_, hn, hselects⟩
    exact ⟨t, ht, (Term.lists_iff (ha t ht)).mp hlists⟩
  · intro h v
    constructor
    · rintro ⟨t, ht, hlists⟩
      exact ⟨t, ht, ((Term.lists_iff (ha t ht)).mp hlists).1⟩
    · rintro ⟨t, ht, hselects⟩
      by_cases hone : ∀ n, t = ⟨.single n, some 1⟩ → v = n
      · exact ⟨t, ht, (Term.lists_iff (ha t ht)).mpr ⟨hselects, hone⟩⟩
      · simp only [not_forall] at hone
        obtain ⟨n, rfl, hne⟩ := hone
        obtain ⟨t, ht', hother⟩ := h n v ht (lt_of_le_of_ne hselects.1 fun heq => hne heq.symm) hselects.2.1
        exact ⟨t, ht', (Term.lists_iff (ha t ht')).mpr hother⟩

end Parsing

/-- `parse_field` returns the values that a field denotes, and throws for other texts, exactly when the integers of every field that it takes
are numerals of the grammar and what a term `N/1` leaves out is denoted by another term, and no field of the grammar has a numeral of more
than 4300 digits. -/
theorem field_correct_iff (tables : CharTables) (field : Text) (lo hi : Int) :
    (∀ out, parseField tables field lo hi = .ok out ↔ Denotes tables field lo hi out) ↔
      (∀ terms, Reads tables (Taken tables) field lo hi terms → Reads tables Numeral field lo hi terms ∧ Covered lo hi terms) ∧
        ∀ terms, Reads tables Numeral field lo hi terms →
          Reads tables (fun p n => Numeral p n ∧ p.length ≤ maxStrDigits) field lo hi terms := by
  have hunique {terms terms' : List Term} (h : Reads tables Numeral field lo hi terms) (h' : Reads tables (Taken tables) field lo hi terms') :=
    h.unique clean_numeral (clean_taken tables) (fun ha hb => (numeral_taken ha hb).1) h'
  constructor
  · intro hcorrect
    refine ⟨fun terms hterms => ?_, fun terms hterms => ?_⟩
    · obtain ⟨out, hout, -, hmem⟩ := parseField_of_reads hterms
      obtain ⟨-, terms', hterms', hmem'⟩ := (hcorrect out).mp hout
      obtain ⟨rfl, -⟩ := hunique hterms' hterms
      exact ⟨hterms', (lists_eq_selects_iff hterms.accepted).mp fun v => (hmem v).symm.trans (hmem' v)⟩
    · obtain ⟨out, hout⟩ := denotes_exists hterms
      obtain ⟨terms', hterms'⟩ := reads_of_parseField ((hcorrect out).mpr hout)
      exact (hunique hterms hterms').2.mono fun h => ⟨h.1, (numeral_taken h.1 h.2).2⟩
  · rintro ⟨htaken, hshort⟩ out
    constructor
    · intro hout
      obtain ⟨terms, hterms⟩ := reads_of_parseField hout
      obtain ⟨hnumeral, hcovered⟩ := htaken terms hterms
      obtain ⟨out', hout', hsorted, hmem⟩ := parseField_of_reads hterms
      obtain rfl := Except.ok.inj (hout.symm.trans hout')
      exact ⟨hsorted, terms, hnumeral, fun v => (hmem v).trans ((lists_eq_selects_iff hterms.accepted).mpr hcovered v)⟩
    · rintro ⟨hsorted, terms, hterms, hmem⟩
      have htaken' : Reads tables (Taken tables) field lo hi terms := (hshort terms hterms).mono fun h => taken_of_numeral h.1 h.2
      obtain ⟨out', hout', hsorted', hmem'⟩ := parseField_of_reads htaken'
      have hcovered := (htaken terms htaken').2
      have hsame := InsertionSort.eq_of_mem_iff hsorted hsorted' fun v =>
        (hmem v).trans (((lists_eq_selects_iff htaken'.accepted).mpr hcovered v).symm.trans (hmem' v).symm)
      rw [hsame, hout']

/-- The minutes of `5/1` are those from 5 on, and the code has 5 only. -/
theorem step_lost : ¬ ∀ out, parseField asciiTables (text "5/1") 0 59 = .ok out ↔ Denotes asciiTables (text "5/1") 0 59 out := by
  intro hcorrect
  have hfive : Numeral [53] 5 := ⟨nofun, by decide, rfl⟩
  have hone : Numeral [49] 1 := ⟨nofun, by decide, rfl⟩
  have hsplit : (text "5/1").splitOn 44 = [text "5/1"] := by decide
  have hstrip : strip asciiTables (text "5/1") = [53] ++ 47 :: [49] := by decide
  have haccepted : (⟨.single 5, some 1⟩ : Term).Accepted 0 59 := ⟨by decide, by decide, by decide, by decide⟩
  have hreads {num : Text → Int → Prop} (h : num [53] 5) (h' : num [49] 1) : Reads asciiTables num (text "5/1") 0 59 [⟨.single 5, some 1⟩] := by
    rw [Reads, hsplit]
    refine .cons ⟨?_, haccepted⟩ .nil
    rw [hstrip]
    exact .stepped (.single h) h'
  have htaken : Reads asciiTables (Taken asciiTables) (text "5/1") 0 59 [⟨.single 5, some 1⟩] :=
    hreads (taken_of_numeral hfive (by decide)) (taken_of_numeral hone (by decide))
  obtain ⟨out, hout, -, hmem⟩ := parseField_of_reads htaken
  obtain ⟨-, terms, hterms, hmem'⟩ := (hcorrect out).mp hout
  obtain ⟨rfl, -⟩ := hterms.unique clean_numeral (clean_taken asciiTables) (fun ha hb => (numeral_taken ha hb).1) htaken
  have hsix : (6 : Int) ∈ out := (hmem' 6).mpr ⟨_, List.mem_singleton_self _, by decide, by decide, one_dvd _⟩
  obtain ⟨t, ht, hlists⟩ := (hmem 6).mp hsix
  obtain rfl := List.mem_singleton.mp ht
  exact absurd hlists.2.1 (by decide)

end Nodus.CronFields
