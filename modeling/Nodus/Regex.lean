import Mathlib.Data.List.Basic
import Mathlib.Data.List.TakeWhile

/-! Regular expressions as a backtracking matcher reads them: all the matches of an expression, in the order in which they are tried. -/

namespace Regex

abbrev Chars := List Nat

inductive Re where
  /-- A character of a class. -/
  | one (p : Nat → Bool)
  | lit (l : Chars)
  | seq (r s : Re)
  | alt (r s : Re)
  /-- `r?`, greedy. -/
  | opt (r : Re)
  /-- Any number of characters of a class, greedy. -/
  | many (p : Nat → Bool)
  /-- A group that captures. -/
  | group (r : Re)

namespace Re

def groups : Re → Nat
  | .one _ => 0
  | .lit _ => 0
  | .seq r s => r.groups + s.groups
  | .alt r s => r.groups + s.groups
  | .opt r => r.groups
  | .many _ => 0
  | .group r => r.groups + 1

/-- What is left after some characters of a class, the longest run first. -/
def runs (p : Nat → Bool) : Chars → List Chars
  | [] => [[]]
  | c :: t => if p c then runs p t ++ [c :: t] else [c :: t]

/-- What the groups have captured, and what is left. -/
abbrev Match := List (Option Chars) × Chars

/-- The matches at the beginning of a text. The groups of the branch that is not taken capture nothing. -/
def find : Re → Chars → List Match
  | .one _, [] => []
  | .one p, c :: t => if p c then [([], t)] else []
  | .lit l, t => if l.isPrefixOf t then [([], t.drop l.length)] else []
  | .seq r s, t => (r.find t).flatMap fun m => (s.find m.2).map fun m' => (m.1 ++ m'.1, m'.2)
  | .alt r s, t =>
      (r.find t).map (fun m => (m.1 ++ List.replicate s.groups none, m.2)) ++
        (s.find t).map fun m => (List.replicate r.groups none ++ m.1, m.2)
  | .opt r, t => r.find t ++ [(List.replicate r.groups none, t)]
  | .many p, t => (runs p t).map ([], ·)
  | .group r, t => (r.find t).map fun m => (some (t.take (t.length - m.2.length)) :: m.1, m.2)

/-- `$`: the end, or a line feed before it. -/
def AtEnd (t : Chars) : Prop := t = [] ∨ t = [10]

instance (t : Chars) : Decidable (AtEnd t) := inferInstanceAs (Decidable (_ ∨ _))

/-- What the groups of `^…$` capture in the first match. -/
def fullMatch (r : Re) (t : Chars) : Option (List (Option Chars)) := ((r.find t).find? fun m => AtEnd m.2).map Prod.fst

/-- One expression after the other. -/
def sequence (rs : List Re) : Re := rs.foldr .seq (.lit [])

/-- `p{n}`. -/
def times (n : Nat) (p : Nat → Bool) : Re := sequence (List.replicate n (.one p))

/-- `p{1,2}`. -/
def oneOrTwo (p : Nat → Bool) : Re := .seq (.one p) (.opt (.one p))

/-- `p+`. -/
def some1 (p : Nat → Bool) : Re := .seq (.one p) (.many p)

/-- One of several texts. -/
def oneOf (texts : List Chars) : Re := (texts.tail.map .lit).foldl .alt (.lit (texts.headD []))

end Re

/-! ### What a match consumes -/

section Matches

open Re

variable {r s : Re} {p : Nat → Bool} {t u rest : Chars} {c : List (Option Chars)} {m : Match}

theorem find_one_cons (p : Nat → Bool) (a : Nat) (t : Chars) : (Re.one p).find (a :: t) = if p a then [([], t)] else [] := rfl

theorem find_lit (l t : Chars) : (Re.lit l).find t = if l.isPrefixOf t then [([], t.drop l.length)] else [] := rfl

theorem find_seq (r s : Re) (t : Chars) :
    (Re.seq r s).find t = (r.find t).flatMap fun m => (s.find m.2).map fun m' => (m.1 ++ m'.1, m'.2) := rfl

theorem find_alt (r s : Re) (t : Chars) : (Re.alt r s).find t =
    (r.find t).map (fun m => (m.1 ++ List.replicate s.groups none, m.2)) ++ (s.find t).map fun m => (List.replicate r.groups none ++ m.1, m.2) :=
  rfl

theorem find_opt (r : Re) (t : Chars) : (Re.opt r).find t = r.find t ++ [(List.replicate r.groups none, t)] := rfl

theorem find_many (p : Nat → Bool) (t : Chars) : (Re.many p).find t = (runs p t).map ([], ·) := rfl

theorem find_group (r : Re) (t : Chars) : (Re.group r).find t =
    (r.find t).map fun m => (some (t.take (t.length - m.2.length)) :: m.1, m.2) := rfl

theorem mem_runs : u ∈ runs p t ↔ ∃ pre, t = pre ++ u ∧ pre.all p := by
  induction t with
  | nil =>
      rw [runs, List.mem_singleton]
      constructor
      · rintro rfl
        exact ⟨[], rfl, rfl⟩
      · rintro ⟨pre, h, -⟩
        exact (List.append_eq_nil_iff.mp h.symm).2
  | cons a t ih =>
      rw [runs]
      constructor
      · intro hu
        split at hu
        · rename_i ha
          rcases List.mem_append.mp hu with hu | hu
          · obtain ⟨pre, rfl, hpre⟩ := ih.mp hu
            exact ⟨a :: pre, rfl, by rw [List.all_cons, ha, hpre]; rfl⟩
          · obtain rfl := List.mem_singleton.mp hu
            exact ⟨[], rfl, rfl⟩
        · obtain rfl := List.mem_singleton.mp hu
          exact ⟨[], rfl, rfl⟩
      · rintro ⟨pre, ht, hpre⟩
        cases pre with
        | nil =>
            obtain rfl : a :: t = u := ht
            split
            · exact List.mem_append_right _ List.mem_cons_self
            · exact List.mem_cons_self
        | cons b pre =>
            obtain ⟨rfl, rfl⟩ := List.cons.inj ht
            obtain ⟨ha, hpre⟩ := (Bool.and_eq_true _ _).mp (List.all_cons.symm.trans hpre)
            rw [if_pos ha]
            exact List.mem_append_left _ (ih.mpr ⟨pre, rfl, hpre⟩)

theorem mem_seq : m ∈ (Re.seq r s).find t ↔ ∃ m₁ ∈ r.find t, ∃ m₂ ∈ s.find m₁.2, m = (m₁.1 ++ m₂.1, m₂.2) := by
  simp only [find_seq, List.mem_flatMap, List.mem_map, eq_comm]

theorem mem_lit {l : Chars} : m ∈ (Re.lit l).find t ↔ t = l ++ m.2 ∧ m.1 = [] := by
  rw [find_lit]
  split
  · rename_i hl
    obtain ⟨u, rfl⟩ := List.isPrefixOf_iff_prefix.mp hl
    rw [List.drop_left, List.mem_singleton]
    constructor
    · rintro rfl
      exact ⟨rfl, rfl⟩
    · rintro ⟨hu, hm⟩
      exact Prod.ext hm (List.append_cancel_left hu).symm
  · rename_i hl
    refine ⟨fun h => absurd h List.not_mem_nil, ?_⟩
    rintro ⟨rfl, -⟩
    exact absurd (List.isPrefixOf_iff_prefix.mpr (List.prefix_append _ _)) hl

theorem mem_one : m ∈ (Re.one p).find t ↔ ∃ a, t = a :: m.2 ∧ p a ∧ m.1 = [] := by
  cases t with
  | nil => exact ⟨fun h => absurd h List.not_mem_nil, fun ⟨a, h, _⟩ => absurd h nofun⟩
  | cons a t =>
      rw [find_one_cons]
      constructor
      · intro h
        split at h
        · rename_i ha
          obtain rfl := List.mem_singleton.mp h
          exact ⟨a, rfl, ha, rfl⟩
        · exact absurd h List.not_mem_nil
      · rintro ⟨b, ht, hb, hm⟩
        obtain ⟨rfl, rfl⟩ := List.cons.inj ht
        rw [if_pos hb]
        exact List.mem_singleton.mpr (Prod.ext hm rfl)

theorem mem_group : m ∈ (Re.group r).find t ↔ ∃ m' ∈ r.find t, m = (some (t.take (t.length - m'.2.length)) :: m'.1, m'.2) := by
  simp only [find_group, List.mem_map, eq_comm]

theorem exists_consumed (h : m ∈ r.find t) : ∃ pre, t = pre ++ m.2 := by
  induction r generalizing t m with
  | one p =>
      obtain ⟨a, rfl, -⟩ := mem_one.mp h
      exact ⟨[a], rfl⟩
  | lit l => exact ⟨l, (mem_lit.mp h).1⟩
  | seq r s ihr ihs =>
      obtain ⟨m₁, h₁, m₂, h₂, rfl⟩ := mem_seq.mp h
      obtain ⟨pre, rfl⟩ := ihr h₁
      obtain ⟨pre', hpre'⟩ := ihs h₂
      exact ⟨pre ++ pre', by rw [List.append_assoc, ← hpre']⟩
  | alt r s ihr ihs =>
      rcases List.mem_append.mp h with h | h
      · obtain ⟨m', h', rfl⟩ := List.mem_map.mp h
        obtain ⟨pre, hpre⟩ := ihr h'
        exact ⟨pre, hpre⟩
      · obtain ⟨m', h', rfl⟩ := List.mem_map.mp h
        obtain ⟨pre, hpre⟩ := ihs h'
        exact ⟨pre, hpre⟩
  | opt r ih =>
      rcases List.mem_append.mp h with h | h
      · exact ih h
      · obtain rfl := List.mem_singleton.mp h
        exact ⟨[], rfl⟩
  | many p =>
      obtain ⟨u, hu, rfl⟩ := List.mem_map.mp h
      obtain ⟨pre, hpre, -⟩ := mem_runs.mp hu
      exact ⟨pre, hpre⟩
  | group r ih =>
      obtain ⟨m', h', rfl⟩ := mem_group.mp h
      obtain ⟨pre, hpre⟩ := ih h'
      exact ⟨pre, hpre⟩

theorem captured_eq {pre : Chars} (h : t = pre ++ u) : t.take (t.length - u.length) = pre := by
  rw [h, List.length_append, Nat.add_sub_cancel, List.take_left]

theorem mem_find_append (rest : Chars) : (c, u ++ rest) ∈ r.find (t ++ rest) ↔ (c, u) ∈ r.find t := by
  induction r generalizing t u c with
  | one p =>
      rw [mem_one, mem_one]
      refine exists_congr fun a => and_congr_left' ?_
      exact ⟨fun h => List.append_cancel_right (h.trans (List.cons_append ..).symm), fun h => by rw [h]; rfl⟩
  | lit l =>
      rw [mem_lit, mem_lit]
      refine and_congr_left' ?_
      exact ⟨fun h => List.append_cancel_right (h.trans (List.append_assoc ..).symm), fun h => by rw [h, List.append_assoc]⟩
  | seq r s ihr ihs =>
      rw [mem_seq, mem_seq]
      constructor
      · rintro ⟨m₁, h₁, m₂, h₂, h⟩
        obtain ⟨rfl, hu⟩ := Prod.mk.inj h
        obtain ⟨pre, hpre⟩ := exists_consumed h₂
        have hmiddle : m₁ = (m₁.1, (pre ++ u) ++ rest) := Prod.ext rfl (by rw [hpre, ← hu, List.append_assoc])
        have hlast : m₂ = (m₂.1, u ++ rest) := Prod.ext rfl hu.symm
        rw [hmiddle] at h₁ h₂
        rw [hlast] at h₂
        exact ⟨(m₁.1, pre ++ u), ihr.mp h₁, (m₂.1, u), ihs.mp h₂, rfl⟩
      · rintro ⟨m₁, h₁, m₂, h₂, h⟩
        obtain ⟨rfl, rfl⟩ := Prod.mk.inj h
        exact ⟨(m₁.1, m₁.2 ++ rest), ihr.mpr h₁, (m₂.1, m₂.2 ++ rest), ihs.mpr h₂, rfl⟩
  | alt r s ihr ihs =>
      simp only [find_alt, List.mem_append, List.mem_map, Prod.mk.injEq]
      refine or_congr ?_ ?_
      · constructor
        · rintro ⟨m', h', rfl, hu⟩
          exact ⟨(m'.1, u), ihr.mp (hu ▸ h'), rfl, rfl⟩
        · rintro ⟨m', h', rfl, rfl⟩
          exact ⟨(m'.1, m'.2 ++ rest), ihr.mpr h', rfl, rfl⟩
      · constructor
        · rintro ⟨m', h', rfl, hu⟩
          exact ⟨(m'.1, u), ihs.mp (hu ▸ h'), rfl, rfl⟩
        · rintro ⟨m', h', rfl, rfl⟩
          exact ⟨(m'.1, m'.2 ++ rest), ihs.mpr h', rfl, rfl⟩
  | opt r ih =>
      simp only [find_opt, List.mem_append, List.mem_singleton, Prod.mk.injEq, ih]
      refine or_congr_right (and_congr_right' ?_)
      exact ⟨List.append_cancel_right, fun h => by rw [h]⟩
  | many p =>
      simp only [find_many, List.mem_map, Prod.mk.injEq, mem_runs]
      constructor
      · rintro ⟨u', ⟨pre, hpre, hall⟩, rfl, rfl⟩
        exact ⟨u, ⟨pre, List.append_cancel_right (hpre.trans (List.append_assoc ..).symm), hall⟩, rfl, rfl⟩
      · rintro ⟨u', ⟨pre, rfl, hall⟩, rfl, rfl⟩
        exact ⟨u' ++ rest, ⟨pre, List.append_assoc .., hall⟩, rfl, rfl⟩
  | group r ih =>
      rw [mem_group, mem_group]
      constructor
      · rintro ⟨m', h', h⟩
        obtain ⟨rfl, hu⟩ := Prod.mk.inj h
        have hm' : m' = (m'.1, u ++ rest) := Prod.ext rfl hu.symm
        refine ⟨(m'.1, u), ih.mp (hm' ▸ h'), ?_⟩
        obtain ⟨pre, hpre⟩ := exists_consumed (ih.mp (hm' ▸ h'))
        have hpre' : t ++ rest = pre ++ m'.2 := by rw [← hu, hpre, List.append_assoc]
        rw [captured_eq hpre, captured_eq hpre']
      · rintro ⟨m', h', h⟩
        obtain ⟨rfl, rfl⟩ := Prod.mk.inj h
        obtain ⟨pre, hpre⟩ := exists_consumed h'
        have hpre' : t ++ rest = pre ++ (m'.2 ++ rest) := by rw [hpre, List.append_assoc]
        refine ⟨(m'.1, m'.2 ++ rest), ih.mpr h', ?_⟩
        rw [captured_eq hpre, captured_eq hpre']

end Matches

/-! ### Expressions that read in one way -/

/-- The expression reads this text at the beginning of any other one, and nothing else. -/
def Reads (r : Re) (w : Chars) (c : List (Option Chars)) : Prop := ∀ rest, r.find (w ++ rest) = [(c, rest)]

theorem reads_one {p : Nat → Bool} {a : Nat} (h : p a) : Reads (.one p) [a] [] := fun rest => by
  rw [List.singleton_append, find_one_cons, if_pos h]

theorem reads_lit (l : Chars) : Reads (.lit l) l [] := fun rest => by
  rw [find_lit, if_pos (List.isPrefixOf_iff_prefix.mpr (List.prefix_append _ _)), List.drop_left]

theorem Reads.seq {r s : Re} {w w' : Chars} {c c' : List (Option Chars)} (h : Reads r w c) (h' : Reads s w' c') :
    Reads (.seq r s) (w ++ w') (c ++ c') := fun rest => by
  rw [find_seq, List.append_assoc, h, List.flatMap_singleton, h', List.map_singleton]

theorem Reads.group {r : Re} {w : Chars} (h : Reads r w []) : Reads (.group r) w [some w] := fun rest => by
  rw [find_group, h, List.map_singleton, captured_eq rfl]

theorem reads_times {p : Nat → Bool} {w : Chars} (h : w.all p) : Reads (.times w.length p) w [] := by
  induction w with
  | nil => exact reads_lit []
  | cons a w ih =>
      rw [List.all_cons, Bool.and_eq_true] at h
      exact (reads_one h.1).seq (ih h.2)

theorem find_seq_of_reads {r s : Re} {w : Chars} {c : List (Option Chars)} (h : Reads r w c) (t : Chars) :
    (Re.seq r s).find (w ++ t) = (s.find t).map fun m => (c ++ m.1, m.2) := by
  rw [find_seq, h, List.flatMap_singleton]

/-! ### Words between literals -/

/-- An element of a pattern with what it stands for in a text: a literal, or a word that a group reads. -/
inductive Piece where
  | lit (l : Chars)
  | word (r : Re) (w : Chars)

namespace Piece

def re : Piece → Re
  | .lit l => .lit l
  | .word r _ => .group r

def text : Piece → Chars
  | .lit l => l
  | .word _ w => w

def capture : Piece → Option (Option Chars)
  | .lit _ => none
  | .word _ w => some (some w)

/-- The group reads the word. -/
def Accepted : Piece → Prop
  | .lit _ => True
  | .word r w => ([], []) ∈ r.find w

end Piece

def pattern (ps : List Piece) : Re := .sequence (ps.map Piece.re)

def content (ps : List Piece) : Chars := ps.flatMap Piece.text

section Words

variable (isWord : Nat → Bool)

/-- The expression reads characters of words only, and has no groups. -/
def ReadsWords (r : Re) : Prop := ∀ t, ∀ m ∈ r.find t, m.1 = [] ∧ ∃ pre, t = pre ++ m.2 ∧ pre.all isWord

/-- No word goes on here. -/
def Stops (t : Chars) : Prop := ∀ c u, t = c :: u → isWord c = false

/-- A word before these pieces ends where they begin. -/
def Delimited : List Piece → Prop
  | [] => True
  | .lit [] :: ps => Delimited ps
  | .lit (c :: _) :: _ => isWord c = false
  | .word _ _ :: _ => False

/-- There is a literal between every two words. -/
def Separated : List Piece → Prop
  | [] => True
  | .lit _ :: ps => Separated ps
  | .word r w :: ps => ReadsWords isWord r ∧ w.all isWord ∧ Delimited isWord ps ∧ Separated ps

variable {isWord} {ps : List Piece} {t : Chars} {m : Re.Match}

theorem Stops.word_eq {w w' u u' : Chars} (hw : w.all isWord) (hw' : w'.all isWord) (hu : Stops isWord u) (hu' : Stops isWord u')
    (h : w ++ u = w' ++ u') : w = w' ∧ u = u' := by
  induction w generalizing w' with
  | nil =>
      cases w' with
      | nil => exact ⟨rfl, h⟩
      | cons c w' =>
          have hc : isWord c = true := List.all_eq_true.mp hw' c List.mem_cons_self
          exact absurd ((hu c _ h).symm.trans hc) Bool.false_ne_true
  | cons c w ih =>
      rw [List.all_cons, Bool.and_eq_true] at hw
      cases w' with
      | nil => exact absurd ((hu' c _ h.symm).symm.trans hw.1) Bool.false_ne_true
      | cons c' w' =>
          rw [List.all_cons, Bool.and_eq_true] at hw'
          obtain ⟨rfl, hrest⟩ := List.cons.inj h
          obtain ⟨rfl, rfl⟩ := ih hw.2 hw'.2 hrest
          exact ⟨rfl, rfl⟩

theorem stops_content (h : Delimited isWord ps) : Stops isWord (content ps) := by
  induction ps with
  | nil => exact fun c u h => absurd h nofun
  | cons piece ps ih =>
      cases piece with
      | lit l =>
          cases l with
          | nil => exact ih h
          | cons c l =>
              intro c' u hu
              obtain ⟨rfl, -⟩ := List.cons.inj hu
              exact h
      | word r w => exact h.elim

theorem stops_of_find (hline : isWord 10 = false) (h : Delimited isWord ps) (hm : m ∈ (pattern ps).find t) (hend : Re.AtEnd m.2) :
    Stops isWord t := by
  induction ps generalizing t m with
  | nil =>
      obtain ⟨ht, -⟩ := mem_lit.mp hm
      rw [ht]
      rintro c u hu
      rcases hend with hend | hend
      · exact absurd (hend.symm.trans hu) nofun
      · obtain ⟨rfl, -⟩ := List.cons.inj (hend.symm.trans hu)
        exact hline
  | cons piece ps ih =>
      obtain ⟨m₁, h₁, m₂, h₂, rfl⟩ := mem_seq.mp hm
      cases piece with
      | lit l =>
          obtain ⟨ht, -⟩ := mem_lit.mp h₁
          cases l with
          | nil =>
              rw [ht]
              exact ih h h₂ hend
          | cons c l =>
              intro c' u hu
              obtain ⟨rfl, -⟩ := List.cons.inj (ht.symm.trans hu)
              exact h
      | word r w => exact h.elim

theorem mem_find_content (hline : isWord 10 = false) (hsep : Separated isWord ps) :
    m ∈ (pattern ps).find (content ps) ∧ Re.AtEnd m.2 ↔ m = (ps.filterMap Piece.capture, []) ∧ ∀ piece ∈ ps, piece.Accepted := by
  induction ps generalizing m with
  | nil =>
      constructor
      · rintro ⟨hm, -⟩
        obtain ⟨ht, hm⟩ := mem_lit.mp hm
        exact ⟨Prod.ext hm ht.symm, fun piece h => absurd h List.not_mem_nil⟩
      · rintro ⟨rfl, -⟩
        exact ⟨mem_lit.mpr ⟨rfl, rfl⟩, .inl rfl⟩
  | cons piece ps ih =>
      cases piece with
      | lit l =>
          constructor
          · rintro ⟨hm, hend⟩
            obtain ⟨m₁, h₁, m₂, h₂, rfl⟩ := mem_seq.mp hm
            obtain ⟨ht, h₁⟩ := mem_lit.mp h₁
            rw [← List.append_cancel_left ht] at h₂
            obtain ⟨rfl, hall⟩ := (ih hsep).mp ⟨h₂, hend⟩
            exact ⟨by rw [h₁]; rfl, List.forall_mem_cons.mpr ⟨trivial, hall⟩⟩
          · rintro ⟨rfl, hall⟩
            obtain ⟨hm, hend⟩ := (ih hsep).mpr ⟨rfl, (List.forall_mem_cons.mp hall).2⟩
            exact ⟨mem_seq.mpr ⟨([], content ps), mem_lit.mpr ⟨rfl, rfl⟩, _, hm, rfl⟩, hend⟩
      | word r w =>
          obtain ⟨hreads, hw, hdelimited, hsep⟩ := hsep
          constructor
          · rintro ⟨hm, hend⟩
            obtain ⟨m₁, h₁, m₂, h₂, rfl⟩ := mem_seq.mp hm
            obtain ⟨m', h', rfl⟩ := mem_group.mp h₁
            obtain ⟨hnone, pre, hpre, hall⟩ := hreads _ _ h'
            obtain ⟨rfl, hrest⟩ := Stops.word_eq hw hall (stops_content hdelimited) (stops_of_find hline hdelimited h₂ hend) hpre
            rw [← hrest] at h₂
            obtain ⟨rfl, hall'⟩ := (ih hsep).mp ⟨h₂, hend⟩
            refine ⟨?_, List.forall_mem_cons.mpr ⟨?_, hall'⟩⟩
            · have hcaptured : (content (.word r w :: ps)).take ((content (.word r w :: ps)).length - m'.2.length) = w := captured_eq hpre
              rw [hcaptured, hnone]
              rfl
            · have hm' : m' = ([], [] ++ content ps) := Prod.ext hnone hrest.symm
              rw [hm'] at h'
              exact (mem_find_append (content ps)).mp h'
          · rintro ⟨rfl, hall⟩
            obtain ⟨haccepted, hall⟩ := List.forall_mem_cons.mp hall
            obtain ⟨hm, hend⟩ := (ih hsep).mpr ⟨rfl, hall⟩
            have hword : ([], [] ++ content ps) ∈ r.find (w ++ content ps) := (mem_find_append (content ps)).mpr haccepted
            refine ⟨mem_seq.mpr ⟨([some w], content ps), mem_group.mpr ⟨_, hword, ?_⟩, _, hm, rfl⟩, hend⟩
            have hcaptured : (w ++ content ps).take ((w ++ content ps).length - ([] ++ content ps).length) = w := captured_eq rfl
            exact Prod.ext (congrArg (fun w => [some w]) hcaptured.symm) rfl

theorem fullMatch_content (hline : isWord 10 = false) (hsep : Separated isWord ps) (hall : ∀ piece ∈ ps, piece.Accepted) :
    (pattern ps).fullMatch (content ps) = some (ps.filterMap Piece.capture) := by
  obtain ⟨hm, hend⟩ := (mem_find_content hline hsep).mpr ⟨rfl, hall⟩
  rw [Re.fullMatch]
  cases hfind : ((pattern ps).find (content ps)).find? fun m => Re.AtEnd m.2 with
  | none => exact absurd (List.find?_eq_none.mp hfind _ hm) (not_not.mpr (decide_eq_true hend))
  | some m =>
      have hmem := List.mem_of_find?_eq_some hfind
      have hend' := List.find?_some hfind
      obtain ⟨rfl, -⟩ := (mem_find_content hline hsep).mp ⟨hmem, of_decide_eq_true hend'⟩
      rfl

theorem fullMatch_eq_none (hline : isWord 10 = false) (hsep : Separated isWord ps) (hrefused : ¬ ∀ piece ∈ ps, piece.Accepted) :
    (pattern ps).fullMatch (content ps) = none := by
  rw [Re.fullMatch, Option.map_eq_none_iff, List.find?_eq_none]
  intro m hm hend
  exact hrefused ((mem_find_content hline hsep).mp ⟨hm, of_decide_eq_true hend⟩).2

end Words

/-! ### Expressions that read words only -/

section Wordy

/-- The expression has characters of words only, and no groups. -/
def Wordy (isWord : Nat → Bool) : Re → Prop
  | .one p => ∀ c, p c = true → isWord c = true
  | .lit l => l.all isWord = true
  | .seq r s => Wordy isWord r ∧ Wordy isWord s
  | .alt r s => Wordy isWord r ∧ Wordy isWord s
  | .opt r => Wordy isWord r
  | .many p => ∀ c, p c = true → isWord c = true
  | .group _ => False

variable {isWord : Nat → Bool} {r s : Re} {p : Nat → Bool}

theorem Wordy.groups (h : Wordy isWord r) : r.groups = 0 := by
  induction r with
  | one p => rfl
  | lit l => rfl
  | seq r s ihr ihs => rw [Re.groups, ihr h.1, ihs h.2]
  | alt r s ihr ihs => rw [Re.groups, ihr h.1, ihs h.2]
  | opt r ih => exact ih h
  | many p => rfl
  | group r => exact h.elim

theorem Wordy.readsWords (h : Wordy isWord r) : ReadsWords isWord r := by
  induction r with
  | one p =>
      intro t m hm
      obtain ⟨a, ht, ha, hnone⟩ := mem_one.mp hm
      exact ⟨hnone, [a], ht, by rw [List.all_cons, h a ha]; rfl⟩
  | lit l =>
      intro t m hm
      obtain ⟨ht, hnone⟩ := mem_lit.mp hm
      exact ⟨hnone, l, ht, h⟩
  | seq r s ihr ihs =>
      intro t m hm
      obtain ⟨m₁, h₁, m₂, h₂, rfl⟩ := mem_seq.mp hm
      obtain ⟨hnone, pre, ht, hpre⟩ := ihr h.1 t m₁ h₁
      obtain ⟨hnone', pre', ht', hpre'⟩ := ihs h.2 m₁.2 m₂ h₂
      refine ⟨by rw [hnone, hnone']; rfl, pre ++ pre', by rw [ht, ht', List.append_assoc], ?_⟩
      rw [List.all_append, hpre, hpre']
      rfl
  | alt r s ihr ihs =>
      intro t m hm
      rw [find_alt, h.1.groups, h.2.groups] at hm
      rcases List.mem_append.mp hm with hm | hm
      · obtain ⟨m', hm', rfl⟩ := List.mem_map.mp hm
        obtain ⟨hnone, hread⟩ := ihr h.1 t m' hm'
        exact ⟨by rw [hnone]; rfl, hread⟩
      · obtain ⟨m', hm', rfl⟩ := List.mem_map.mp hm
        obtain ⟨hnone, hread⟩ := ihs h.2 t m' hm'
        exact ⟨by rw [hnone]; rfl, hread⟩
  | opt r ih =>
      intro t m hm
      rw [find_opt, Wordy.groups (r := r) h] at hm
      rcases List.mem_append.mp hm with hm | hm
      · exact ih h t m hm
      · obtain rfl := List.mem_singleton.mp hm
        exact ⟨rfl, [], rfl, rfl⟩
  | many p =>
      intro t m hm
      obtain ⟨u, hu, rfl⟩ := List.mem_map.mp hm
      obtain ⟨pre, ht, hpre⟩ := mem_runs.mp hu
      exact ⟨rfl, pre, ht, List.all_eq_true.mpr fun c hc => h c (List.all_eq_true.mp hpre c hc)⟩
  | group r => exact h.elim

theorem wordy_times (n : Nat) (h : ∀ c, p c = true → isWord c = true) : Wordy isWord (.times n p) := by
  induction n with
  | zero => rfl
  | succ n ih => exact ⟨h, ih⟩

theorem wordy_foldl {ls : List Chars} (hr : Wordy isWord r) (hls : ∀ l ∈ ls, l.all isWord = true) : Wordy isWord ((ls.map .lit).foldl .alt r) := by
  induction ls generalizing r with
  | nil => exact hr
  | cons l ls ih => exact ih ⟨hr, hls l List.mem_cons_self⟩ fun l' hl' => hls l' (List.mem_cons_of_mem _ hl')

theorem wordy_oneOf {l : Chars} {ls : List Chars} (h : ∀ l' ∈ l :: ls, l'.all isWord = true) : Wordy isWord (.oneOf (l :: ls)) :=
  wordy_foldl (h l List.mem_cons_self) fun l' hl' => h l' (List.mem_cons_of_mem _ hl')

/-! What is read in full. -/

theorem length_of_times {n : Nat} {t : Chars} {m : Re.Match} (h : m ∈ (Re.times n p).find t) : t.length = n + m.2.length := by
  induction n generalizing t m with
  | zero =>
      obtain ⟨ht, -⟩ := mem_lit.mp h
      rw [ht, List.nil_append, Nat.zero_add]
  | succ n ih =>
      obtain ⟨m₁, h₁, m₂, h₂, rfl⟩ := mem_seq.mp h
      obtain ⟨a, ht, -⟩ := mem_one.mp h₁
      rw [ht, List.length_cons, ih h₂]
      exact Nat.add_right_comm ..

theorem accepts_times {w : Chars} (h : w.all p = true) : ([], []) ∈ (Re.times w.length p).find w := by
  have hreads := reads_times h []
  rw [List.append_nil] at hreads
  rw [hreads]
  exact List.mem_singleton_self _

theorem accepts_oneOrTwo {w : Chars} (h : w.all p = true) (hlength : w.length = 1 ∨ w.length = 2) : ([], []) ∈ (Re.oneOrTwo p).find w := by
  rcases hlength with hlength | hlength
  · obtain ⟨a, rfl⟩ := List.length_eq_one_iff.mp hlength
    rw [List.all_cons, Bool.and_eq_true] at h
    exact mem_seq.mpr ⟨([], []), mem_one.mpr ⟨a, rfl, h.1, rfl⟩, ([], []), List.mem_append_right _ List.mem_cons_self, rfl⟩
  · obtain ⟨a, b, rfl⟩ := List.length_eq_two.mp hlength
    rw [List.all_cons, List.all_cons, Bool.and_eq_true, Bool.and_eq_true] at h
    exact mem_seq.mpr ⟨([], [b]), mem_one.mpr ⟨a, rfl, h.1, rfl⟩, ([], []), List.mem_append_left _ (mem_one.mpr ⟨b, rfl, h.2.1, rfl⟩), rfl⟩

theorem accepts_foldl {w : Chars} {ls : List Chars} (hr : Wordy isWord r) (hls : ∀ l ∈ ls, l.all isWord = true)
    (h : ([], []) ∈ r.find w ∨ w ∈ ls) : ([], []) ∈ ((ls.map .lit).foldl .alt r).find w := by
  induction ls generalizing r with
  | nil => exact h.elim id fun h => absurd h List.not_mem_nil
  | cons l ls ih =>
      have hl := hls l List.mem_cons_self
      refine ih ⟨hr, hl⟩ (fun l' hl' => hls l' (List.mem_cons_of_mem _ hl')) ?_
      rw [find_alt, hr.groups]
      rcases h with h | h
      · exact .inl (List.mem_append_left _ (List.mem_map.mpr ⟨_, h, rfl⟩))
      · rcases List.mem_cons.mp h with rfl | h
        · exact .inl (List.mem_append_right _ (List.mem_map.mpr ⟨([], []), mem_lit.mpr ⟨(List.append_nil _).symm, rfl⟩, rfl⟩))
        · exact .inr h

theorem accepts_oneOf {w l : Chars} {ls : List Chars} (hls : ∀ l' ∈ l :: ls, l'.all isWord = true) (h : w ∈ l :: ls) :
    ([], []) ∈ (Re.oneOf (l :: ls)).find w := by
  refine accepts_foldl (hls l List.mem_cons_self) (fun l' hl' => hls l' (List.mem_cons_of_mem _ hl')) ?_
  rcases List.mem_cons.mp h with rfl | h
  · exact .inl (mem_lit.mpr ⟨(List.append_nil _).symm, rfl⟩)
  · exact .inr h

end Wordy

end Regex
