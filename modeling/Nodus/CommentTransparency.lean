import Mathlib.Logic.Relation
import Nodus.Parser

/-! Comments and the parser: a text and the same text with other comments in it. -/

namespace Nodus.Frontend

open Programs

/-! ### Tokens without their comments -/

/-- The tokens without comments, a run of separators being one. -/
def bare : List Item → List Item
  | [] => []
  | .comment _ :: rest => bare rest
  | .sep :: rest => .sep :: (bare rest).dropWhile Item.isSep
  | .tok kind val :: rest => .tok kind val :: bare rest

theorem dropWhile_isSep_twice (toks : List Item) :
    (toks.dropWhile Item.isSep).dropWhile Item.isSep = toks.dropWhile Item.isSep := by
  induction toks with
  | nil => rfl
  | cons item toks ih =>
      cases item with
      | sep => exact ih
      | comment val => rfl
      | tok kind val => rfl

theorem bare_skipComments (toks : List Item) : bare (skipComments toks) = bare toks := by
  induction toks with
  | nil => rfl
  | cons item toks ih =>
      cases item with
      | sep => rfl
      | comment val => exact ih
      | tok kind val => rfl

theorem bare_skipLayout (toks : List Item) : bare (skipLayout toks) = (bare toks).dropWhile Item.isSep := by
  induction toks with
  | nil => rfl
  | cons item toks ih =>
      cases item with
      | sep => exact ih.trans (dropWhile_isSep_twice (bare toks)).symm
      | comment val => exact ih
      | tok kind val => rfl

theorem headD_bare (toks : List Item) : (bare toks).headD (.tok .eof "") = peek toks := by
  induction toks with
  | nil => rfl
  | cons item toks ih =>
      cases item with
      | sep => rfl
      | comment val => exact ih
      | tok kind val => rfl

theorem peek_skipComments (toks : List Item) : peek (skipComments toks) = peek toks := by
  rw [← headD_bare, bare_skipComments, headD_bare]

theorem skipComments_of_bare {toks b : List Item} {kind : Kind} {val : String} (h : bare toks = .tok kind val :: b) :
    ∃ rest, skipComments toks = .tok kind val :: rest ∧ bare rest = b := by
  induction toks with
  | nil => cases h
  | cons item toks ih =>
      cases item with
      | sep => cases h
      | comment text => exact ih h
      | tok k v =>
          cases h
          exact ⟨toks, rfl, rfl⟩

theorem bare_of_skipComments {toks rest : List Item} {kind : Kind} {val : String} (h : skipComments toks = .tok kind val :: rest) :
    bare toks = .tok kind val :: bare rest := by
  rw [← bare_skipComments, h]
  rfl

theorem headD_filter (toks : List Item) :
    (toks.filter fun item => !item.isComment).headD (.tok .eof "") = peek toks := by
  induction toks with
  | nil => rfl
  | cons item toks ih =>
      cases item with
      | sep => rfl
      | comment val => exact ih
      | tok kind val => rfl

theorem peekAhead_of_skipComments {toks rest : List Item} {kind : Kind} {val : String}
    (h : skipComments toks = .tok kind val :: rest) : peekAhead toks = peek rest := by
  have hfilter : (toks.filter fun item => !item.isComment) = .tok kind val :: rest.filter fun item => !item.isComment := by
    induction toks with
    | nil => cases h
    | cons item toks ih =>
        cases item with
        | sep => cases h
        | comment text => exact ih h
        | tok k v =>
            cases h
            rfl
  unfold peekAhead
  rw [hfilter]
  exact headD_filter rest

theorem bare_filter (toks : List Item) : bare (toks.filter fun item => !item.isComment) = bare toks := by
  induction toks with
  | nil => rfl
  | cons item toks ih =>
      cases item with
      | sep => exact congrArg (fun b => Item.sep :: b.dropWhile Item.isSep) ih
      | comment val => exact ih
      | tok kind val => exact congrArg (Item.tok kind val :: ·) ih

/-! ### The look-ahead at a brace -/

/-- The look-ahead at a brace as it is where there are no comments. -/
def startsRecordBare (toks : List Item) : Bool := startsRecord (toks.filter fun item => !item.isComment)

/-- Whether a bare text continues with a name and a colon. -/
def keyAhead (toks : List Item) : Bool :=
  match toks.dropWhile Item.isSep with
  | .tok .id _ :: rest => ((rest.dropWhile Item.isSep).headD (.tok .eof "")).isKind .colon
  | _ => false

theorem startsRecord_of_skipComments {toks rest : List Item} {item : Item} (h : skipComments toks = item :: rest) :
    startsRecord toks = keyAhead rest := by
  unfold startsRecord
  rw [h]
  rfl

theorem dropWhile_isSep_bare {toks rest : List Item} {kind : Kind} {val : String}
    (h : toks.dropWhile Item.isSep = .tok kind val :: rest) : (bare toks).dropWhile Item.isSep = .tok kind val :: bare rest := by
  induction toks with
  | nil => cases h
  | cons item toks ih =>
      cases item with
      | sep => exact (dropWhile_isSep_twice (bare toks)).trans (ih h)
      | comment text => cases h
      | tok k v =>
          cases h
          rfl

theorem not_sep_of_dropWhile {toks rest : List Item} : toks.dropWhile Item.isSep ≠ .sep :: rest := by
  intro h
  have hhead := List.head?_dropWhile_not Item.isSep toks
  rw [h] at hhead
  simp [Item.isSep] at hhead

theorem mem_of_dropWhile {toks rest : List Item} {item : Item} (h : toks.dropWhile Item.isSep = item :: rest) :
    item ∈ toks ∧ ∀ item' ∈ rest, item' ∈ toks := by
  have hsub := List.dropWhile_sublist Item.isSep (l := toks)
  rw [h] at hsub
  exact ⟨hsub.mem List.mem_cons_self, fun item' hmem => hsub.mem (List.mem_cons_of_mem _ hmem)⟩

theorem dropWhile_bare_nil {toks : List Item} (h : toks.dropWhile Item.isSep = []) : (bare toks).dropWhile Item.isSep = [] := by
  induction toks with
  | nil => rfl
  | cons item toks ih =>
      cases item with
      | sep => exact (dropWhile_isSep_twice (bare toks)).trans (ih h)
      | comment text => cases h
      | tok k v => cases h

theorem colonAhead_bare {toks : List Item} (h : ((toks.dropWhile Item.isSep).headD (.tok .eof "")).isKind .colon = true) :
    (((bare toks).dropWhile Item.isSep).headD (.tok .eof "")).isKind .colon = true := by
  cases heq : toks.dropWhile Item.isSep with
  | nil => rw [dropWhile_bare_nil heq, ← heq]; exact h
  | cons item rest =>
      rw [heq] at h
      cases item with
      | sep => exact absurd heq not_sep_of_dropWhile
      | comment val => simp [Item.isKind] at h
      | tok kind val => rw [dropWhile_isSep_bare heq]; exact h

theorem keyAhead_iff {toks : List Item} : keyAhead toks = true ↔ ∃ val rest, toks.dropWhile Item.isSep = .tok .id val :: rest ∧
    ((rest.dropWhile Item.isSep).headD (.tok .eof "")).isKind .colon = true := by
  unfold keyAhead
  constructor
  · intro h
    split at h
    · next val rest heq => exact ⟨val, rest, heq, h⟩
    · cases h
  · rintro ⟨val, rest, heq, h⟩
    rw [heq]
    exact h

theorem keyAhead_bare_of_keyAhead {toks : List Item} (h : keyAhead toks = true) : keyAhead (bare toks) = true := by
  obtain ⟨val, rest, heq, hcolon⟩ := keyAhead_iff.mp h
  exact keyAhead_iff.mpr ⟨val, bare rest, dropWhile_isSep_bare heq, colonAhead_bare hcolon⟩

theorem keyAhead_bare {toks : List Item} (hfree : ∀ item ∈ toks, item.isComment = false) : keyAhead (bare toks) = keyAhead toks := by
  apply Bool.eq_iff_iff.mpr
  refine ⟨fun h => ?_, keyAhead_bare_of_keyAhead⟩
  obtain ⟨val, b, hb, hcolon⟩ := keyAhead_iff.mp h
  apply keyAhead_iff.mpr
  cases heq : toks.dropWhile Item.isSep with
  | nil => rw [dropWhile_bare_nil heq] at hb; cases hb
  | cons item rest =>
      have hmem := mem_of_dropWhile heq
      cases item with
      | sep => exact absurd heq not_sep_of_dropWhile
      | comment text => exact absurd (hfree _ hmem.1) (by simp [Item.isComment])
      | tok kind text =>
          rw [dropWhile_isSep_bare heq] at hb
          cases hb
          refine ⟨val, rest, rfl, ?_⟩
          cases heq' : rest.dropWhile Item.isSep with
          | nil => rw [dropWhile_bare_nil heq'] at hcolon; exact hcolon
          | cons item' rest' =>
              cases item' with
              | sep => exact absurd heq' not_sep_of_dropWhile
              | comment text' =>
                  have hmem' := hmem.2 _ (mem_of_dropWhile heq').1
                  exact absurd (hfree _ hmem') (by simp [Item.isComment])
              | tok kind' text' => rw [dropWhile_isSep_bare heq'] at hcolon; exact hcolon

theorem keyAhead_dropWhile (toks : List Item) : keyAhead (toks.dropWhile Item.isSep) = keyAhead toks := by
  unfold keyAhead
  rw [dropWhile_isSep_twice]

theorem startsRecordBare_eq (toks : List Item) : startsRecordBare toks = keyAhead (bare toks).tail := by
  have hfree : ∀ item ∈ toks.filter (fun item => !item.isComment), item.isComment = false := fun item hmem => by
    simpa using (List.mem_filter.mp hmem).2
  rw [← bare_filter toks]
  unfold startsRecordBare
  cases heq : toks.filter fun item => !item.isComment with
  | nil => rfl
  | cons item rest =>
      rw [heq] at hfree
      have hrest : keyAhead (bare rest) = keyAhead rest := keyAhead_bare fun item hmem => hfree item (List.mem_cons_of_mem _ hmem)
      cases item with
      | sep => exact (keyAhead_dropWhile (bare rest)).trans hrest |>.symm
      | comment val => exact absurd (hfree _ List.mem_cons_self) (by simp [Item.isComment])
      | tok kind val => exact hrest.symm

theorem startsRecordBare_of_startsRecord {toks : List Item} (h : startsRecord toks = true) : startsRecordBare toks = true := by
  rw [startsRecordBare_eq, ← bare_skipComments]
  cases heq : skipComments toks with
  | nil =>
      unfold startsRecord at h
      rw [heq] at h
      cases h
  | cons item rest =>
      rw [startsRecord_of_skipComments heq] at h
      have hrest := keyAhead_bare_of_keyAhead h
      cases item with
      | sep => exact (keyAhead_dropWhile (bare rest)).trans hrest
      | comment val =>
          have hhead := List.head?_dropWhile_not Item.isComment toks
          rw [show toks.dropWhile Item.isComment = _ from heq] at hhead
          simp [Item.isComment] at hhead
      | tok kind val => exact hrest

/-! ### Parsing past comments -/

theorem eat_eq_some {s s₁ : ParserState} {kind : Kind} {val : String} :
    s.eat kind = some (val, s₁) ↔ ∃ rest, skipComments s.toks = .tok kind val :: rest ∧ s₁ = ⟨rest, s.counts⟩ := by
  unfold ParserState.eat
  constructor
  · intro h
    split at h
    · next k v rest heq =>
        split at h
        · next hk =>
            cases hk
            obtain ⟨rfl, rfl⟩ := Prod.mk.inj (Option.some.inj h)
            exact ⟨rest, heq, rfl⟩
        · cases h
    · cases h
  · rintro ⟨rest, heq, rfl⟩
    rw [heq]
    exact if_pos rfl

theorem peekAhead_of_bare_nil {toks : List Item} (h : bare toks = []) : peekAhead toks = .tok .eof "" := by
  induction toks with
  | nil => rfl
  | cons item toks ih =>
      cases item with
      | sep => cases h
      | comment val => exact ih h
      | tok kind val => cases h

theorem peekAhead_alike {toks toks' : List Item} (h : bare toks = bare toks') {kind : Kind} {val : String}
    (hpeek : peek toks = .tok kind val) : peekAhead toks' = peekAhead toks := by
  cases hskip : skipComments toks with
  | nil =>
      have hnil : bare toks = [] := by rw [← bare_skipComments, hskip]; rfl
      rw [peekAhead_of_bare_nil hnil, peekAhead_of_bare_nil (h.symm.trans hnil)]
  | cons item rest =>
      have hitem : item = .tok kind val := by
        unfold peek at hpeek
        rwa [hskip] at hpeek
      subst hitem
      obtain ⟨rest', hrest', hbare'⟩ := skipComments_of_bare (h.symm.trans (bare_of_skipComments hskip))
      rw [peekAhead_of_skipComments hskip, peekAhead_of_skipComments hrest', ← headD_bare, ← headD_bare, hbare']

/-- States that differ in comments and in the number of separators in a row. -/
def SameBare (s s' : ParserState) : Prop := bare s.toks = bare s'.toks ∧ s.counts = s'.counts

theorem answer_alike (q : Question β) {s s' : ParserState} (h : SameBare s s') {b : β} {s₁ : ParserState}
    (hanswer : s.answer q = some (b, s₁)) : ∃ s₁', s'.answer q = some (b, s₁') ∧ SameBare s₁ s₁' := by
  obtain ⟨toks, counts⟩ := s
  obtain ⟨toks', counts'⟩ := s'
  obtain ⟨hbare, hcounts⟩ := h
  cases hcounts
  have hbare : bare toks = bare toks' := hbare
  have hpeek : peek toks = peek toks' := by rw [← headD_bare, ← headD_bare, hbare]
  have hskip : bare (skipComments toks) = bare (skipComments toks') := by rw [bare_skipComments, bare_skipComments, hbare]
  have hlayout : bare (skipLayout toks) = bare (skipLayout toks') := by rw [bare_skipLayout, bare_skipLayout, hbare]
  cases q with
  | look f =>
      obtain ⟨rfl, rfl⟩ := Prod.mk.inj (Option.some.inj hanswer)
      exact ⟨_, congrArg (fun item => some (f item, _)) hpeek.symm, hskip, rfl⟩
  | lookAhead f otherwise =>
      simp only [ParserState.answer, ← hpeek] at hanswer ⊢
      cases hnext : peek toks with
      | sep =>
          rw [hnext] at hanswer
          obtain ⟨rfl, rfl⟩ := Prod.mk.inj (Option.some.inj hanswer)
          exact ⟨_, rfl, hskip, rfl⟩
      | comment text =>
          rw [hnext] at hanswer
          obtain ⟨rfl, rfl⟩ := Prod.mk.inj (Option.some.inj hanswer)
          exact ⟨_, rfl, hskip, rfl⟩
      | tok kind val =>
          rw [hnext] at hanswer
          obtain ⟨rfl, rfl⟩ := Prod.mk.inj (Option.some.inj hanswer)
          rw [peekAhead_alike hbare hnext]
          exact ⟨_, rfl, hskip, rfl⟩
  | eat kind =>
      have heat : ParserState.eat ⟨toks, counts⟩ kind = some (b, s₁) := hanswer
      obtain ⟨rest, hrest, rfl⟩ := eat_eq_some.mp heat
      obtain ⟨rest', hrest', hbare'⟩ := skipComments_of_bare (hbare.symm.trans (bare_of_skipComments hrest))
      exact ⟨⟨rest', counts⟩, eat_eq_some.mpr ⟨rest', hrest', rfl⟩, hbare'.symm, rfl⟩
  | skipSeps =>
      obtain ⟨rfl, rfl⟩ := Prod.mk.inj (Option.some.inj hanswer)
      exact ⟨_, rfl, hlayout, rfl⟩
  | eatRequiredSep =>
      simp only [ParserState.answer, hpeek] at hanswer ⊢
      split at hanswer
      · next hsep =>
          obtain ⟨rfl, rfl⟩ := Prod.mk.inj (Option.some.inj hanswer)
          rw [if_pos hsep]
          exact ⟨_, rfl, hlayout, rfl⟩
      · cases hanswer
  | enter counter =>
      have hmay : ParserState.mayEnter ⟨toks, counts⟩ counter = ParserState.mayEnter ⟨toks', counts⟩ counter := by
        cases counter <;> rfl
      simp only [ParserState.answer, hmay] at hanswer ⊢
      split at hanswer
      · next hyes =>
          obtain ⟨rfl, rfl⟩ := Prod.mk.inj (Option.some.inj hanswer)
          rw [if_pos hyes]
          exact ⟨_, rfl, hbare, rfl⟩
      · cases hanswer
  | leave counter =>
      obtain ⟨rfl, rfl⟩ := Prod.mk.inj (Option.some.inj hanswer)
      exact ⟨_, rfl, hbare, rfl⟩
  | inside counter =>
      obtain ⟨rfl, rfl⟩ := Prod.mk.inj (Option.some.inj hanswer)
      exact ⟨_, rfl, hbare, rfl⟩

theorem production_alike (n : Production β) {s s' : ParserState} (h : SameBare s s') :
    (grammar startsRecordBare).body n s = (grammar startsRecordBare).body n s' := by
  cases n with
  | braceLiteral =>
      have hlook : startsRecordBare s.toks = startsRecordBare s'.toks := by
        rw [startsRecordBare_eq, startsRecordBare_eq, h.1]
      show (if startsRecordBare s.toks then parseRecordLiteral else parseMapLiteral) =
        if startsRecordBare s'.toks then parseRecordLiteral else parseMapLiteral
      rw [hlook]
  | _ => rfl

theorem runs_alike {p : Reads α} {s s' s₁ : ParserState} {a : α} (h : SameBare s s')
    (hrun : Runs (grammar startsRecordBare) p s a s₁) : ∃ s₁', Runs (grammar startsRecordBare) p s' a s₁' ∧ SameBare s₁ s₁' := by
  refine hrun.follow (A := fun _ _ _ => False) (C := fun _ _ _ => False) ?_ ?_ h (not_visits _ _)
  · intro β q s s' hsame _ b s₁ hanswer
    exact answer_alike q hsame hanswer
  · intro β n s s' hsame _
    exact production_alike n hsame

/-! ### A brace that is taken for a map -/

section Doomed

variable {look : List Item → Bool} {s s₁ : ParserState}

theorem runs_look {f : Item → β} {b : β} : Runs (grammar look) (ask (.look f)) s b s₁ ↔
    b = f (peek s.toks) ∧ s₁ = { s with toks := skipComments s.toks } := by
  show Runs (grammar look) (.ask (.look f) .done) s b s₁ ↔ _
  rw [runs_ask]
  constructor
  · intro h
    obtain ⟨rfl, rfl⟩ := Prod.mk.inj (Option.some.inj h)
    exact ⟨rfl, rfl⟩
  · rintro ⟨rfl, rfl⟩
    rfl

theorem runs_eat {kind : Kind} {val : String} : Runs (grammar look) (eat kind) s val s₁ ↔
    ∃ rest, skipComments s.toks = .tok kind val :: rest ∧ s₁ = ⟨rest, s.counts⟩ := by
  show Runs (grammar look) (.ask (.eat kind) .done) s val s₁ ↔ _
  rw [runs_ask]
  exact eat_eq_some

/-- The parser stands at a separator or at a colon. -/
def AtStop (s : ParserState) : Prop := (peek s.toks).isSep = true ∨ (peek s.toks).isKind .colon = true

theorem AtStop.skip (h : AtStop s) : AtStop { s with toks := skipComments s.toks } := by
  unfold AtStop
  rw [peek_skipComments]
  exact h

theorem AtStop.notKind (h : AtStop s) {kind : Kind} (hkind : kind ≠ .colon) : (peek s.toks).isKind kind = false := by
  unfold AtStop at h
  cases hnext : peek s.toks with
  | sep => rfl
  | comment val => rfl
  | tok k val =>
      rw [hnext] at h
      rcases h with h | h
      · cases h
      · have hk : k = .colon := by simpa [Item.isKind] using h
        simpa [Item.isKind, hk] using hkind.symm

theorem AtStop.noOperator (h : AtStop s) {ops : List (Kind × BinOp)} (hops : ∀ op ∈ ops, op.1 ≠ .colon) :
    (ops.find? fun op => (peek s.toks).isKind op.1) = none := by
  apply List.find?_eq_none.mpr
  intro op hmem
  rw [h.notKind (hops op hmem)]
  exact Bool.false_ne_true

theorem runs_atKind {kind : Kind} {b : Bool} : Runs (grammar look) (atKind kind) s b s₁ ↔
    b = (peek s.toks).isKind kind ∧ s₁ = { s with toks := skipComments s.toks } :=
  runs_look

theorem runs_skip {kind : Kind} {p q : Reads α} {a : α} (h : (peek s.toks).isKind kind = false) :
    Runs (grammar look) (do if ← atKind kind then p else q) s a s₁ ↔
      Runs (grammar look) q { s with toks := skipComments s.toks } a s₁ := by
  rw [runs_bind]
  constructor
  · rintro ⟨b, s', hlook, hrest⟩
    obtain ⟨rfl, rfl⟩ := runs_atKind.mp hlook
    rw [h] at hrest
    exact hrest
  · intro hrest
    exact ⟨false, _, runs_atKind.mpr ⟨h.symm, rfl⟩, hrest⟩

theorem operatorRest_stop {ops : List (Kind × BinOp)} (hops : ∀ op ∈ ops, op.1 ≠ .colon) {operand : Reads Expr}
    {again : Expr → Production Expr} {node e : Expr} (h : AtStop s)
    (hrun : Runs (grammar look) (operatorRest ops operand again node) s e s₁) : e = node ∧ AtStop s₁ := by
  obtain ⟨found, s', hlook, hrest⟩ := runs_bind.mp hrun
  obtain ⟨rfl, rfl⟩ := runs_look.mp hlook
  rw [h.noOperator hops] at hrest
  obtain ⟨rfl, rfl⟩ := runs_pure.mp hrest
  exact ⟨rfl, h.skip⟩

/-- The parser stands at a name, and at the end of the expression behind it. -/
def AtKey (s : ParserState) (name : Name) : Prop :=
  ∃ rest, skipComments s.toks = .tok .id name :: rest ∧ AtStop { s with toks := rest }

theorem skipComments_twice (toks : List Item) : skipComments (skipComments toks) = skipComments toks := by
  induction toks with
  | nil => rfl
  | cons item toks ih =>
      cases item with
      | sep => rfl
      | comment val => exact ih
      | tok kind val => rfl

theorem AtKey.skip {name : Name} (h : AtKey s name) : AtKey { s with toks := skipComments s.toks } name := by
  obtain ⟨rest, hrest, hstop⟩ := h
  exact ⟨rest, (skipComments_twice s.toks).trans hrest, hstop⟩

theorem AtKey.peek_eq {name : Name} (h : AtKey s name) : peek s.toks = .tok .id name := by
  obtain ⟨rest, hrest, _⟩ := h
  unfold peek
  rw [hrest]
  rfl

theorem AtKey.notKind {name : Name} (h : AtKey s name) {kind : Kind} (hkind : kind ≠ .id) : (peek s.toks).isKind kind = false := by
  rw [h.peek_eq]
  simpa [Item.isKind] using hkind.symm

theorem AtKey.pass {name : Name} (h : AtKey s name) {kind : Kind} (hkind : kind ≠ .id) {p q : Reads α} {a : α}
    (hrun : Runs (grammar look) (do if ← atKind kind then p else q) s a s₁) :
    ∃ s', AtKey s' name ∧ Runs (grammar look) q s' a s₁ :=
  ⟨_, h.skip, (runs_skip (h.notKind hkind)).mp hrun⟩

theorem AtStop.followsValue (h : AtStop s) : (peek s.toks).followsValue = true := by
  unfold AtStop at h
  unfold Item.followsValue
  rcases h with h | h
  · rw [h]
    rfl
  · cases hnext : peek s.toks with
    | sep => rfl
    | comment val => rw [hnext] at h; cases h
    | tok k val =>
        rw [hnext] at h
        have hk : k = .colon := by simpa [Item.isKind] using h
        rw [hk]
        rfl

theorem AtKey.noMatch {name : Name} (h : AtKey s name) {p q : Reads α} {a : α}
    (hrun : Runs (grammar look) (do
      if ← ask (.lookAhead (fun kind val after => kind = .id && decide (val ∈ expressionKeywords) && !after.followsValue) false)
      then p else q) s a s₁) : ∃ s', AtKey s' name ∧ Runs (grammar look) q s' a s₁ := by
  obtain ⟨b, s', hlook, hrest⟩ := runs_bind.mp hrun
  have hanswer : s.answer (.lookAhead (fun kind val after =>
      kind = .id && decide (val ∈ expressionKeywords) && !after.followsValue) false) = some (b, s') := runs_ask.mp hlook
  obtain ⟨rest, hskip, hstop⟩ := id h
  have hfollows : (peekAhead s.toks).followsValue = true := by
    rw [peekAhead_of_skipComments hskip]
    exact hstop.followsValue
  simp only [ParserState.answer, h.peek_eq, hfollows, Bool.not_true, Bool.and_false] at hanswer
  obtain ⟨rfl, rfl⟩ := Prod.mk.inj (Option.some.inj hanswer)
  exact ⟨_, h.skip, hrest⟩

theorem parsePrimary_key {name : Name} {e : Expr} (h : AtKey s name) (hrun : Runs (grammar look) parsePrimary s e s₁) :
    e = .var name ∧ AtStop s₁ := by
  obtain ⟨_, h, hrun⟩ := h.pass (by decide) hrun
  obtain ⟨_, h, hrun⟩ := h.pass (by decide) hrun
  obtain ⟨_, h, hrun⟩ := h.pass (by decide) hrun
  obtain ⟨_, h, hrun⟩ := h.pass (by decide) hrun
  obtain ⟨_, h, hrun⟩ := h.pass (by decide) hrun
  obtain ⟨_, h, hrun⟩ := h.pass (by decide) hrun
  obtain ⟨_, h, hrun⟩ := h.pass (by decide) hrun
  obtain ⟨_, h, hrun⟩ := h.pass (by decide) hrun
  obtain ⟨s', h, hrun⟩ := h.noMatch hrun
  obtain ⟨b, s'', hname, hrun⟩ := runs_bind.mp hrun
  obtain ⟨rfl, rfl⟩ := runs_atKind.mp hname
  rw [h.peek_eq] at hrun
  obtain ⟨val, _, heat, hrun⟩ := runs_bind.mp hrun
  obtain ⟨rest, hrest, rfl⟩ := runs_eat.mp heat
  obtain ⟨rest', hrest', hstop⟩ := h.skip
  cases hrest.symm.trans hrest'
  obtain ⟨rfl, rfl⟩ := runs_pure.mp hrun
  exact ⟨rfl, hstop⟩

theorem postfixRest_stop {node e : Expr} (h : AtStop s) (hrun : Runs (grammar look) (production look (.postfixRest node) s) s e s₁) :
    e = node ∧ AtStop s₁ := by
  have hrun := (runs_skip (h.notKind (by decide))).mp hrun
  have hrun := (runs_skip (h.skip.notKind (by decide))).mp hrun
  have hrun := (runs_skip (h.skip.skip.notKind (by decide))).mp hrun
  obtain ⟨rfl, rfl⟩ := runs_pure.mp hrun
  exact ⟨rfl, h.skip.skip.skip⟩

theorem runs_level (again : Expr → Production Expr) {p : Reads Expr} {name : Name} {e : Expr}
    (hp : ∀ e s', Runs (grammar look) p s e s' → e = .var name ∧ AtStop s')
    (hrest : ∀ node e s s₁, AtStop s → Runs (grammar look) (production look (again node) s) s e s₁ → e = node ∧ AtStop s₁)
    (hrun : Runs (grammar look) (do let node ← p; call (again node)) s e s₁) : e = .var name ∧ AtStop s₁ := by
  obtain ⟨node, s', hfirst, hrun⟩ := runs_bind.mp hrun
  obtain ⟨rfl, hstop⟩ := hp _ _ hfirst
  exact hrest _ _ _ _ hstop (runs_call.mp hrun)

theorem unary_key {name : Name} {e : Expr} (h : AtKey s name) (hrun : Runs (grammar look) (call .unary) s e s₁) :
    e = .var name ∧ AtStop s₁ := by
  have hrun : Runs (grammar look) (production look .unary s) s e s₁ := runs_call.mp hrun
  obtain ⟨_, h, hrun⟩ := h.pass (by decide) hrun
  obtain ⟨_, h, hrun⟩ := h.pass (by decide) hrun
  exact runs_level .postfixRest (fun _ _ => parsePrimary_key h) (fun _ _ _ _ => postfixRest_stop) hrun

theorem parseComparison_key {name : Name} {e : Expr} (h : AtKey s name) (hrun : Runs (grammar look) parseComparison s e s₁) :
    e = .var name ∧ AtStop s₁ := by
  refine runs_level .comparisonRest (fun _ _ hadd => ?_) (fun _ _ _ _ => operatorRest_stop (by decide)) hrun
  refine runs_level .addRest (fun _ _ hmul => ?_) (fun _ _ _ _ => operatorRest_stop (by decide)) hadd
  exact runs_level .mulRest (fun _ _ => unary_key h) (fun _ _ _ _ => operatorRest_stop (by decide)) hmul

theorem parseOr_key {name : Name} {e : Expr} (h : AtKey s name) (hrun : Runs (grammar look) parseOr s e s₁) :
    e = .var name ∧ AtStop s₁ := by
  refine runs_level .orRest (fun _ _ hand => ?_) (fun _ _ _ _ hstop hrest => ?_) hrun
  · refine runs_level .andRest (fun _ _ => parseComparison_key h) (fun _ _ _ _ hstop hrest => ?_) hand
    obtain ⟨rfl, rfl⟩ := runs_pure.mp ((runs_skip (hstop.notKind (by decide))).mp hrest)
    exact ⟨rfl, hstop.skip⟩
  · obtain ⟨rfl, rfl⟩ := runs_pure.mp ((runs_skip (hstop.notKind (by decide))).mp hrest)
    exact ⟨rfl, hstop.skip⟩

theorem parseAssignment_key {name : Name} {e : Expr} (h : AtKey s name) (hrun : Runs (grammar look) parseAssignment s e s₁) :
    e = .var name := by
  obtain ⟨node, s', hor, hrun⟩ := runs_bind.mp hrun
  obtain ⟨rfl, hstop⟩ := parseOr_key h hor
  have hrun := (runs_skip (hstop.notKind (by decide))).mp hrun
  obtain ⟨found, s'', hlook, hrun⟩ := runs_bind.mp hrun
  obtain ⟨rfl, rfl⟩ := runs_look.mp hlook
  rw [hstop.skip.noOperator (by decide)] at hrun
  exact (runs_pure.mp hrun).1

theorem expr_key {name : Name} {e : Expr} (h : AtKey s name) (hrun : Runs (grammar look) expr s e s₁) : e = .var name := by
  obtain ⟨_, s', henter, hrun⟩ := runs_bind.mp hrun
  obtain ⟨e', s'', hassign, hrun⟩ := runs_bind.mp hrun
  obtain ⟨_, _, _, hrun⟩ := runs_bind.mp hrun
  obtain ⟨rfl, _⟩ := runs_pure.mp hrun
  have hs' : s'.toks = s.toks := by
    have hanswer : s.answer (.enter .parse) = some ((), s') := runs_ask.mp henter
    simp only [ParserState.answer] at hanswer
    split at hanswer
    · obtain ⟨_, rfl⟩ := Prod.mk.inj (Option.some.inj hanswer)
      rfl
    · cases hanswer
  obtain ⟨rest, hrest, hstop⟩ := h
  have hkey : AtKey s' name := ⟨rest, by rw [hs']; exact hrest, hstop⟩
  exact parseAssignment_key hkey (runs_call.mp hassign)

theorem atKey_of_keyAhead {toks : List Item} {counts : Counter → Nat} (h : keyAhead (bare toks) = true) :
    ∃ name, AtKey { toks := skipLayout toks, counts } name := by
  obtain ⟨name, b, hb, hcolon⟩ := keyAhead_iff.mp h
  obtain ⟨rest, hrest, hbare⟩ := skipComments_of_bare ((bare_skipLayout toks).trans hb)
  refine ⟨name, rest, hrest, ?_⟩
  show (peek rest).isSep = true ∨ (peek rest).isKind .colon = true
  rw [← headD_bare, hbare]
  cases b with
  | nil => exact .inr hcolon
  | cons item b =>
      cases item with
      | sep => exact .inl rfl
      | comment val => exact .inr hcolon
      | tok kind val => exact .inr hcolon

theorem parseMapLiteral_doomed (h : startsRecordBare s.toks = true) (e : Expr) : ¬ Runs (grammar look) parseMapLiteral s e s₁ := by
  intro hrun
  obtain ⟨_, _, heat, hrun⟩ := runs_bind.mp hrun
  obtain ⟨rest, hrest, rfl⟩ := runs_eat.mp heat
  obtain ⟨_, _, hskip, hrun⟩ := runs_bind.mp hrun
  have hlayout : ParserState.answer ⟨rest, s.counts⟩ .skipSeps = some (_, _) := runs_ask.mp hskip
  obtain ⟨_, rfl⟩ := Prod.mk.inj (Option.some.inj hlayout)
  rw [startsRecordBare_eq, bare_of_skipComments hrest] at h
  obtain ⟨name, hkey⟩ := atKey_of_keyAhead h
  obtain ⟨_, hkey, hrun⟩ := hkey.pass (by decide) hrun
  obtain ⟨_, _, hitems, _⟩ := runs_bind.mp hrun
  obtain ⟨_, _, hmapKey, _⟩ := runs_bind.mp (runs_call.mp hitems)
  obtain ⟨startsName, _, hname, hmapKey⟩ := runs_bind.mp hmapKey
  obtain ⟨rfl, rfl⟩ := runs_atKind.mp hname
  obtain ⟨key, _, hexpr, hmapKey⟩ := runs_bind.mp hmapKey
  obtain rfl := expr_key hkey.skip hexpr
  rw [hkey.peek_eq] at hmapKey
  exact runs_fail hmapKey

end Doomed

/-! ### What the code does -/

/-- The look-ahead of the code at a brace is misled by a comment. -/
def Misled : (β : Type) → Production β → ParserState → Prop
  | _, .braceLiteral, s => startsRecord s.toks = false ∧ startsRecordBare s.toks = true
  | _, _, _ => False

def startState (toks : List Item) : ParserState := { toks, counts := fun _ => 0 }

/-- The parser accepts some tokens with the look-ahead at a brace as given. -/
def Parses (look : List Item → Bool) (toks : List Item) (stmts : List Stmt) : Prop :=
  ∃ s₁, Runs (grammar look) program (startState toks) stmts s₁

/-- In the parse of the text without its comments, no brace at which the parser looks for a record has a comment in it before the
colon of its first field. -/
def Clear (toks : List Item) : Prop :=
  ¬ Visits (grammar startsRecordBare) (fun _ _ _ => False) Misled program (startState toks)

theorem body_alike {n : Production β} {s : ParserState} (h : ¬ Misled β n s) :
    (grammar startsRecord).body n s = (grammar startsRecordBare).body n s := by
  cases n with
  | braceLiteral =>
      have hlook : startsRecord s.toks = startsRecordBare s.toks := by
        cases hraw : startsRecord s.toks with
        | true => exact (startsRecordBare_of_startsRecord hraw).symm
        | false =>
            cases hbare : startsRecordBare s.toks with
            | false => rfl
            | true => exact absurd ⟨hraw, hbare⟩ h
      show (if startsRecord s.toks then parseRecordLiteral else parseMapLiteral) =
        if startsRecordBare s.toks then parseRecordLiteral else parseMapLiteral
      rw [hlook]
  | _ => rfl

theorem misled_doomed {n : Production β} {s : ParserState} (h : Misled β n s) (b : β) (s₁ : ParserState) :
    ¬ Runs (grammar startsRecord) ((grammar startsRecord).body n s) s b s₁ := by
  cases n with
  | braceLiteral =>
      have hraw : (grammar startsRecord).body .braceLiteral s = parseMapLiteral := by
        show (if startsRecord s.toks then parseRecordLiteral else parseMapLiteral) = _
        rw [h.1]
        rfl
      rw [hraw]
      exact parseMapLiteral_doomed h.2 b
  | _ => exact fun _ => h

theorem parses_iff {toks : List Item} {stmts : List Stmt} :
    Parses startsRecord toks stmts ↔ Parses startsRecordBare toks stmts ∧ Clear toks := by
  constructor
  · rintro ⟨s₁, hrun⟩
    have hanswers : ∀ {β : Type} (q : Question β) (s : ParserState),
        (grammar startsRecord).answer q s = (grammar startsRecordBare).answer q s := fun _ _ => rfl
    have hnames : ∀ {β : Type} (n : Production β) (s : ParserState), ¬ Misled β n s →
        (grammar startsRecord).body n s = (grammar startsRecordBare).body n s := fun _ _ => body_alike
    have hrun' := hrun.clear hanswers hnames fun _ _ => misled_doomed
    exact ⟨⟨s₁, hrun'.1⟩, hrun'.2⟩
  · rintro ⟨⟨s₁, hrun⟩, hclear⟩
    have hanswers : AnswersAlike (grammar startsRecordBare) (grammar startsRecord) Eq fun _ _ _ => False := by
      rintro β q s _ rfl _ b s₁ hanswer
      exact ⟨s₁, hanswer, rfl⟩
    have hnames : NamesAlike (grammar startsRecordBare) (grammar startsRecord) Eq Misled := by
      rintro β n s _ rfl hnot
      exact (body_alike hnot).symm
    obtain ⟨s₁', hrun', _⟩ := hrun.follow hanswers hnames rfl hclear
    exact ⟨s₁', hrun'⟩

theorem skipLayout_twice (toks : List Item) : skipLayout (skipLayout toks) = skipLayout toks := by
  induction toks with
  | nil => rfl
  | cons item toks ih =>
      cases item with
      | sep => exact ih
      | comment val => exact ih
      | tok kind val => rfl

theorem parses_skipLayout {look : List Item → Bool} {toks : List Item} {stmts : List Stmt} :
    Parses look (skipLayout toks) stmts ↔ Parses look toks stmts := by
  have hprogram : ∀ s₁, Runs (grammar look) program (startState (skipLayout toks)) stmts s₁ ↔
      Runs (grammar look) program (startState toks) stmts s₁ := by
    intro s₁
    unfold program
    rw [runs_bind, runs_bind]
    have hskip : (startState (skipLayout toks)).answer .skipSeps = (startState toks).answer .skipSeps := by
      show some ((), _) = some ((), _)
      rw [startState, startState, skipLayout_twice]
    have hruns : ∀ u s', Runs (grammar look) skipSeps (startState (skipLayout toks)) u s' ↔
        Runs (grammar look) skipSeps (startState toks) u s' := by
      intro u s'
      show Runs (grammar look) (.ask .skipSeps .done) _ u s' ↔ Runs (grammar look) (.ask .skipSeps .done) _ u s'
      rw [runs_ask, runs_ask]
      exact iff_of_eq (congrArg (· = some (u, s')) hskip)
    simp only [hruns]
  exact exists_congr hprogram

/-- A parser that skips comments everywhere parses alike what is the same but for comments and for separators in a row. -/
theorem parsesBare_iff {toks toks' : List Item} (h : (bare toks).dropWhile Item.isSep = (bare toks').dropWhile Item.isSep)
    {stmts : List Stmt} : Parses startsRecordBare toks stmts ↔ Parses startsRecordBare toks' stmts := by
  rw [← parses_skipLayout, ← @parses_skipLayout startsRecordBare toks' stmts]
  rw [← bare_skipLayout, ← bare_skipLayout] at h
  constructor
  · rintro ⟨s₁, hrun⟩
    have hsame : SameBare (startState (skipLayout toks)) (startState (skipLayout toks')) := ⟨h, rfl⟩
    obtain ⟨s₁', hrun', _⟩ := runs_alike hsame hrun
    exact ⟨s₁', hrun'⟩
  · rintro ⟨s₁, hrun⟩
    have hsame : SameBare (startState (skipLayout toks')) (startState (skipLayout toks)) := ⟨h.symm, rfl⟩
    obtain ⟨s₁', hrun', _⟩ := runs_alike hsame hrun
    exact ⟨s₁', hrun'⟩

/-! ### Texts without comments -/

def CommentFree (toks : List Item) : Prop := ∀ item ∈ toks, item.isComment = false

theorem CommentFree.filter_eq {toks : List Item} (h : CommentFree toks) : (toks.filter fun item => !item.isComment) = toks :=
  List.filter_eq_self.mpr fun item hmem => by rw [h item hmem]; rfl

theorem commentFree_filter (toks : List Item) : CommentFree (toks.filter fun item => !item.isComment) := fun item hmem => by
  simpa using (List.mem_filter.mp hmem).2

theorem mem_of_answer {q : Question β} {s s₁ : ParserState} {b : β} (h : s.answer q = some (b, s₁)) {item : Item}
    (hmem : item ∈ s₁.toks) : item ∈ s.toks := by
  have hcomments : ∀ {item}, item ∈ skipComments s.toks → item ∈ s.toks := fun hmem => (List.dropWhile_sublist _).mem hmem
  have hlayout : ∀ {item}, item ∈ skipLayout s.toks → item ∈ s.toks := fun hmem => (List.dropWhile_sublist _).mem hmem
  cases q with
  | look f =>
      obtain ⟨rfl, rfl⟩ := Prod.mk.inj (Option.some.inj h)
      exact hcomments hmem
  | lookAhead f otherwise =>
      simp only [ParserState.answer] at h
      split at h
      · obtain ⟨rfl, rfl⟩ := Prod.mk.inj (Option.some.inj h)
        exact hcomments hmem
      · obtain ⟨rfl, rfl⟩ := Prod.mk.inj (Option.some.inj h)
        exact hcomments hmem
  | eat kind =>
      obtain ⟨rest, hrest, rfl⟩ := eat_eq_some.mp h
      exact hcomments (hrest ▸ List.mem_cons_of_mem _ hmem)
  | skipSeps =>
      obtain ⟨rfl, rfl⟩ := Prod.mk.inj (Option.some.inj h)
      exact hlayout hmem
  | eatRequiredSep =>
      simp only [ParserState.answer] at h
      split at h
      · obtain ⟨rfl, rfl⟩ := Prod.mk.inj (Option.some.inj h)
        exact hlayout hmem
      · cases h
  | enter counter =>
      simp only [ParserState.answer] at h
      split at h
      · obtain ⟨rfl, rfl⟩ := Prod.mk.inj (Option.some.inj h)
        exact hmem
      · cases h
  | leave counter =>
      obtain ⟨rfl, rfl⟩ := Prod.mk.inj (Option.some.inj h)
      exact hmem
  | inside counter =>
      obtain ⟨rfl, rfl⟩ := Prod.mk.inj (Option.some.inj h)
      exact hmem

theorem parses_commentFree {toks : List Item} (h : CommentFree toks) {stmts : List Stmt} :
    Parses startsRecord toks stmts ↔ Parses startsRecordBare toks stmts := by
  refine ⟨fun hparse => (parses_iff.mp hparse).1, ?_⟩
  rintro ⟨s₁, hrun⟩
  have hanswers : AnswersAlike (grammar startsRecordBare) (grammar startsRecord) (fun s s' => s = s' ∧ CommentFree s.toks)
      fun _ _ _ => False := by
    rintro β q s _ ⟨rfl, hfree⟩ _ b s₁ hanswer
    exact ⟨s₁, hanswer, rfl, fun item hmem => hfree item (mem_of_answer hanswer hmem)⟩
  have hnames : NamesAlike (grammar startsRecordBare) (grammar startsRecord) (fun s s' => s = s' ∧ CommentFree s.toks)
      fun _ _ _ => False := by
    rintro β n s _ ⟨rfl, hfree⟩ _
    refine (body_alike fun hmisled => ?_).symm
    cases n with
    | braceLiteral =>
        have hbare : startsRecordBare s.toks = true := hmisled.2
        unfold startsRecordBare at hbare
        rw [hfree.filter_eq, hmisled.1] at hbare
        cases hbare
    | _ => exact hmisled
  obtain ⟨s₁', hrun', _⟩ := hrun.follow hanswers hnames ⟨rfl, h⟩ (not_visits _ _)
  exact ⟨s₁', hrun'⟩

/-! ### Texts that differ in comments -/

/-- The lexemes of a text, and those of the text with one more comment in it. -/
inductive AddsComment : List Lexeme → List Lexeme → Prop where
  /-- At the end of a line, which may be blank. -/
  | lineEnd (before after : List Lexeme) (val : String) : AddsComment (before ++ after) (before ++ .comment val :: after)
  /-- On a line of its own between others: on a blank line, or on a new one. -/
  | between (before after : List Lexeme) (val : String) (count above below : Nat)
      (h : above + below = count ∨ above + below = count + 1) :
      AddsComment (before ++ .newlines count :: after) (before ++ .newlines above :: .comment val :: .newlines below :: after)
  /-- On a new line above all others. -/
  | above (lexemes : List Lexeme) (val : String) (count : Nat) : AddsComment lexemes (.comment val :: .newlines count :: lexemes)
  | aboveBlank (lexemes : List Lexeme) (val : String) (count : Nat) :
      AddsComment (.newlines count :: lexemes) (.comment val :: .newlines (count + 1) :: lexemes)
  /-- At the end of a line within an interpolation. -/
  | lineEndWithin (before after : List Lexeme) (front back : List Item) (val : String) :
      AddsComment (before ++ .literal (front ++ back) :: after) (before ++ .literal (front ++ .comment val :: back) :: after)
  /-- On a line of its own within an interpolation. -/
  | betweenWithin (before after : List Lexeme) (front back : List Item) (val : String) :
      AddsComment (before ++ .literal (front ++ .sep :: back) :: after)
        (before ++ .literal (front ++ .sep :: .comment val :: .sep :: back) :: after)

theorem bare_append_congr {toks toks' : List Item} (h : bare toks = bare toks') (front : List Item) :
    bare (front ++ toks) = bare (front ++ toks') := by
  induction front with
  | nil => exact h
  | cons item front ih =>
      cases item with
      | sep => exact congrArg (fun b => Item.sep :: b.dropWhile Item.isSep) ih
      | comment val => exact ih
      | tok kind val => exact congrArg (Item.tok kind val :: ·) ih

theorem bare_layout_congr {after after' : List Lexeme} (h : ∀ depth, bare (layout depth after) = bare (layout depth after'))
    (before : List Lexeme) (depth : Nat) : bare (layout depth (before ++ after)) = bare (layout depth (before ++ after')) := by
  induction before generalizing depth with
  | nil => exact h depth
  | cons lexeme before ih =>
      cases lexeme with
      | newlines count =>
          simp only [List.cons_append, layout]
          split
          · exact bare_append_congr (ih depth) [.sep]
          · exact ih depth
      | comment val => exact ih depth
      | semicolon => exact bare_append_congr (ih depth) [.sep]
      | word kind val => exact congrArg (Item.tok kind val :: ·) (ih (depthAfter depth kind))
      | literal tokens => exact bare_append_congr (ih depth) tokens

theorem bare_sep_twice (toks : List Item) : bare (.sep :: .sep :: toks) = bare (.sep :: toks) :=
  congrArg (Item.sep :: ·) (dropWhile_isSep_twice (bare toks))

theorem AddsComment.bare_eq {lexemes lexemes' : List Lexeme} (h : AddsComment lexemes lexemes') :
    (bare (layout 0 lexemes)).dropWhile Item.isSep = (bare (layout 0 lexemes')).dropWhile Item.isSep := by
  cases h with
  | lineEnd before after val =>
      apply congrArg (List.dropWhile Item.isSep)
      apply bare_layout_congr
      exact fun _ => rfl
  | between before after val count above below _ =>
      apply congrArg (List.dropWhile Item.isSep)
      apply bare_layout_congr
      intro depth
      simp only [layout]
      split
      · exact (bare_sep_twice (layout depth after)).symm
      · rfl
  | above lexemes val count => exact (dropWhile_isSep_twice _).symm
  | aboveBlank lexemes val count => rfl
  | lineEndWithin before after front back val =>
      apply congrArg (List.dropWhile Item.isSep)
      apply bare_layout_congr
      intro depth
      have hback : bare (back ++ layout depth after) = bare (.comment val :: (back ++ layout depth after)) := rfl
      simp only [layout, List.append_assoc]
      exact bare_append_congr hback front
  | betweenWithin before after front back val =>
      apply congrArg (List.dropWhile Item.isSep)
      apply bare_layout_congr
      intro depth
      have hback : bare (.sep :: (back ++ layout depth after)) = bare (.sep :: .comment val :: .sep :: (back ++ layout depth after)) :=
        (bare_sep_twice (back ++ layout depth after)).symm
      simp only [layout, List.append_assoc]
      exact bare_append_congr hback front

/-- Lexemes that differ in the comments among them. -/
def SameButComments : List Lexeme → List Lexeme → Prop := Relation.EqvGen AddsComment

theorem SameButComments.bare_eq {lexemes lexemes' : List Lexeme} (h : SameButComments lexemes lexemes') :
    (bare (layout 0 lexemes)).dropWhile Item.isSep = (bare (layout 0 lexemes')).dropWhile Item.isSep := by
  induction h with
  | rel _ _ h => exact h.bare_eq
  | refl _ => rfl
  | symm _ _ _ ih => exact ih.symm
  | trans _ _ _ _ _ ih ih' => exact ih.trans ih'

/-- Two texts that differ in comments only are both accepted, with one tree, or both refused, exactly if the text is refused without
its comments too or in neither, or in both, a comment stands between the brace of a record and the colon of its first field. -/
theorem parse_comments_iff (tables : CharTables) (src src' : String) (lexemes lexemes' : List Lexeme)
    (hscan : scan tables src = some lexemes) (hscan' : scan tables src' = some lexemes')
    (h : SameButComments lexemes lexemes') :
    (∀ stmts, (∃ toks, tokenize tables src = some toks ∧ Parses startsRecord toks stmts) ↔
        ∃ toks, tokenize tables src' = some toks ∧ Parses startsRecord toks stmts) ↔
      (∀ stmts, ¬ Parses startsRecord ((layout 0 lexemes).filter fun item => !item.isComment) stmts) ∨
        (Clear (layout 0 lexemes) ↔ Clear (layout 0 lexemes')) := by
  have htoks : ∀ {src lexemes}, scan tables src = some lexemes → ∀ stmts,
      (∃ toks, tokenize tables src = some toks ∧ Parses startsRecord toks stmts) ↔
        Parses startsRecordBare (layout 0 lexemes) stmts ∧ Clear (layout 0 lexemes) := by
    intro src lexemes hscan stmts
    have htokenize : tokenize tables src = some (layout 0 lexemes) := by rw [tokenize, hscan]; rfl
    rw [htokenize, ← parses_iff]
    constructor
    · rintro ⟨toks, heq, hparse⟩
      obtain rfl := Option.some.inj heq
      exact hparse
    · exact fun hparse => ⟨_, rfl, hparse⟩
  have hbare : ∀ stmts, Parses startsRecordBare (layout 0 lexemes') stmts ↔ Parses startsRecordBare (layout 0 lexemes) stmts :=
    fun stmts => parsesBare_iff h.bare_eq.symm
  have hfree : ∀ stmts, Parses startsRecord ((layout 0 lexemes).filter fun item => !item.isComment) stmts ↔
      Parses startsRecordBare (layout 0 lexemes) stmts := by
    intro stmts
    rw [parses_commentFree (commentFree_filter _)]
    exact parsesBare_iff (congrArg (List.dropWhile Item.isSep) (bare_filter _))
  simp only [htoks hscan, htoks hscan', hbare, hfree]
  constructor
  · intro hsame
    by_cases hparse : ∃ stmts, Parses startsRecordBare (layout 0 lexemes) stmts
    · obtain ⟨stmts, hparse⟩ := hparse
      have hone := hsame stmts
      exact .inr ⟨fun hclear => (hone.mp ⟨hparse, hclear⟩).2, fun hclear => (hone.mpr ⟨hparse, hclear⟩).2⟩
    · exact .inl fun stmts hone => hparse ⟨stmts, hone⟩
  · rintro (hnone | hclear) stmts
    · exact ⟨fun hboth => absurd hboth.1 (hnone stmts), fun hboth => absurd hboth.1 (hnone stmts)⟩
    · exact and_congr_right fun _ => hclear

/-! A record on two lines, without and with a comment on its brace. -/

def asciiTables : CharTables := { isDigit := Char.isDigit, hexChar := fun _ => none }

def recordLines (comments : List Lexeme) : List Lexeme :=
  [.word .kwLet "let", .word .id "r", .word .assign "=", .word .lbrace "\x7b"] ++ comments ++
    [.newlines 1, .word .id "a", .word .colon ":", .word .numInt "1", .word .rbrace "\x7d"]

theorem recordLines_same : SameButComments (recordLines []) (recordLines [.comment "// c"]) :=
  .rel _ _ (.lineEnd [.word .kwLet "let", .word .id "r", .word .assign "=", .word .lbrace "\x7b"] _ "// c")

theorem parse_comments_iff_record :
    (∀ stmts, (∃ toks, tokenize asciiTables "let r = \x7b\n a: 1i \x7d" = some toks ∧ Parses startsRecord toks stmts) ↔
        ∃ toks, tokenize asciiTables "let r = \x7b // c\n a: 1i \x7d" = some toks ∧ Parses startsRecord toks stmts) ↔
      (∀ stmts, ¬ Parses startsRecord ((layout 0 (recordLines [])).filter fun item => !item.isComment) stmts) ∨
        (Clear (layout 0 (recordLines [])) ↔ Clear (layout 0 (recordLines [.comment "// c"]))) :=
  parse_comments_iff asciiTables "let r = \x7b\n a: 1i \x7d" "let r = \x7b // c\n a: 1i \x7d" (recordLines []) (recordLines [.comment "// c"])
    rfl rfl recordLines_same

theorem parses_of_run {look : List Item → Bool} {toks : List Item} {stmts : List Stmt} {s₁ : ParserState} (fuel : Nat)
    (h : program.run (grammar look).answer ((grammar look).enter fuel) (startState toks) = .ok stmts s₁) :
    Parses look toks stmts :=
  ⟨s₁, runs_of_run (enter_sound fuel) h⟩

/-- The comment on the brace of a record makes the parser refuse the text. -/
theorem comment_refused :
    scan asciiTables "let r = \x7b\n a: 1i \x7d" = some (recordLines []) ∧
      scan asciiTables "let r = \x7b // c\n a: 1i \x7d" = some (recordLines [.comment "// c"]) ∧
      SameButComments (recordLines []) (recordLines [.comment "// c"]) ∧
      Parses startsRecord (layout 0 (recordLines [])) [.letDecl "r" (.recordLiteral [("a", .int "1")]) none false] ∧
      ∀ stmts, ¬ Parses startsRecord (layout 0 (recordLines [.comment "// c"])) stmts := by
  refine ⟨rfl, rfl, recordLines_same, parses_of_run 20 rfl, ?_⟩
  rintro stmts ⟨s₁, hrun⟩
  exact not_runs_of_fail 20 rfl _ _ hrun

end Nodus.Frontend
