import Mathlib.Algebra.GroupWithZero.Nat
import Mathlib.Algebra.Order.BigOperators.Group.List
import Mathlib.Algebra.Order.Group.Nat

/-! UTF-8: the encoder, and the decoder that writes U+FFFD for what it cannot decode. -/

namespace Nodus.Utf8

/-- A code point that UTF-8 encodes. -/
def IsScalar (c : Nat) : Prop := c < 0xD800 ∨ 0xE000 ≤ c ∧ c < 0x110000

instance (c : Nat) : Decidable (IsScalar c) := inferInstanceAs (Decidable (_ ∨ _))

def encode (c : Nat) : List Nat :=
  if c < 0x80 then [c]
  else if c < 0x800 then [0xC0 + c / 64, 0x80 + c % 64]
  else if c < 0x10000 then [0xE0 + c / 4096, 0x80 + c / 64 % 64, 0x80 + c % 64]
  else [0xF0 + c / 262144, 0x80 + c / 4096 % 64, 0x80 + c / 64 % 64, 0x80 + c % 64]

def encodeAll (text : List Nat) : List Nat := text.flatMap encode

/-- A byte that does not begin a character. -/
def IsTail (b : Nat) : Prop := 0x80 ≤ b ∧ b ≤ 0xBF

instance (b : Nat) : Decidable (IsTail b) := inferInstanceAs (Decidable (_ ∧ _))

/-- A character that has begun: how many bytes it needs, the range of the next one, and the bits so far. -/
structure Pending where
  need : Nat
  low : Nat
  high : Nat
  bits : Nat
  low_tail : 0x80 ≤ low
  high_tail : high ≤ 0xBF

def Pending.tails (need bits : Nat) : Pending := ⟨need, 0x80, 0xBF, bits, Nat.le_refl _, Nat.le_refl _⟩

def replacement : Nat := 0xFFFD

/-- A byte between characters. -/
def start (b : Nat) : List Nat × Option Pending :=
  if b < 0x80 then ([b], none)
  else if 0xC2 ≤ b ∧ b ≤ 0xDF then ([], some (.tails 1 (b - 0xC0)))
  else if b = 0xE0 then ([], some ⟨2, 0xA0, 0xBF, 0, by decide, by decide⟩)
  else if b = 0xED then ([], some ⟨2, 0x80, 0x9F, 0xD, by decide, by decide⟩)
  else if 0xE1 ≤ b ∧ b ≤ 0xEF then ([], some (.tails 2 (b - 0xE0)))
  else if b = 0xF0 then ([], some ⟨3, 0x90, 0xBF, 0, by decide, by decide⟩)
  else if 0xF1 ≤ b ∧ b ≤ 0xF3 then ([], some (.tails 3 (b - 0xF0)))
  else if b = 0xF4 then ([], some ⟨3, 0x80, 0x8F, 4, by decide, by decide⟩)
  else ([replacement], none)

/-- One byte: the code points that it ends, and what has begun. -/
def feed : Option Pending → Nat → List Nat × Option Pending
  | none, b => start b
  | some p, b =>
      if p.low ≤ b ∧ b ≤ p.high then
        if p.need ≤ 1 then ([p.bits * 64 + (b - 0x80)], none) else ([], some (.tails (p.need - 1) (p.bits * 64 + (b - 0x80))))
      else (replacement :: (start b).1, (start b).2)

def decodeFrom : Option Pending → List Nat → List Nat
  | none, [] => []
  | some _, [] => [replacement]
  | p, b :: rest => (feed p b).1 ++ decodeFrom (feed p b).2 rest

/-- `bytes.decode("utf-8", errors="replace")`. -/
def decode (bytes : List Nat) : List Nat := decodeFrom none bytes

/-! ### A character and its bytes -/

theorem decodeFrom_cons (p : Option Pending) (b : Nat) (rest : List Nat) :
    decodeFrom p (b :: rest) = (feed p b).1 ++ decodeFrom (feed p b).2 rest := by
  cases p <;> rfl

theorem feed_next {p : Pending} {d : Nat} (hrange : p.low ≤ 0x80 + d ∧ 0x80 + d ≤ p.high) (hneed : 1 < p.need) :
    feed (some p) (0x80 + d) = ([], some (.tails (p.need - 1) (p.bits * 64 + d))) := by
  rw [feed, if_pos hrange, if_neg (by omega), Nat.add_sub_cancel_left]

theorem feed_last {bits d : Nat} (hd : d < 64) : feed (some (.tails 1 bits)) (0x80 + d) = ([bits * 64 + d], none) := by
  have hrange : (Pending.tails 1 bits).low ≤ 0x80 + d ∧ 0x80 + d ≤ (Pending.tails 1 bits).high := by
    simp only [Pending.tails]
    omega
  have hneed : (Pending.tails 1 bits).need ≤ 1 := Nat.le_refl 1
  rw [feed, if_pos hrange, if_pos hneed, Nat.add_sub_cancel_left]
  rfl

theorem tails_range {need bits d : Nat} (hd : d < 64) :
    (Pending.tails need bits).low ≤ 0x80 + d ∧ 0x80 + d ≤ (Pending.tails need bits).high := by
  simp only [Pending.tails]
  omega

theorem feed_third {bits d : Nat} (hd : d < 64) : feed (some (.tails 2 bits)) (0x80 + d) = ([], some (.tails 1 (bits * 64 + d))) :=
  feed_next (tails_range hd) (Nat.lt_succ_self 1)

/-- The first byte of three: overlong forms and surrogates are kept out by the range of the second one. -/
theorem start_three {x : Nat} (hx : x < 16) : ∃ p, start (0xE0 + x) = ([], some p) ∧ p.need = 2 ∧ p.bits = x ∧
    ∀ d < 64, (x = 0 → 32 ≤ d) → (x = 13 → d < 32) → p.low ≤ 0x80 + d ∧ 0x80 + d ≤ p.high := by
  by_cases hzero : x = 0
  · subst hzero
    exact ⟨_, rfl, rfl, rfl, fun d hd hlow _ => ⟨Nat.add_le_add_left (hlow rfl) 128, Nat.add_le_add_left (Nat.le_of_lt_succ hd) 128⟩⟩
  · by_cases hsurrogate : x = 13
    · subst hsurrogate
      exact ⟨_, rfl, rfl, rfl, fun d _ _ hhigh => ⟨Nat.le_add_right _ _, Nat.add_le_add_left (Nat.le_of_lt_succ (hhigh rfl)) 128⟩⟩
    · refine ⟨.tails 2 x, ?_, rfl, rfl, fun d hd _ _ => tails_range hd⟩
      rw [start, if_neg (by omega), if_neg (by omega), if_neg (by omega), if_neg (by omega), if_pos (by omega), Nat.add_sub_cancel_left]

theorem start_four {x : Nat} (hx : x < 5) : ∃ p, start (0xF0 + x) = ([], some p) ∧ p.need = 3 ∧ p.bits = x ∧
    ∀ d < 64, (x = 0 → 16 ≤ d) → (x = 4 → d < 16) → p.low ≤ 0x80 + d ∧ 0x80 + d ≤ p.high := by
  by_cases hzero : x = 0
  · subst hzero
    exact ⟨_, rfl, rfl, rfl, fun d hd hlow _ => ⟨Nat.add_le_add_left (hlow rfl) 128, Nat.add_le_add_left (Nat.le_of_lt_succ hd) 128⟩⟩
  · by_cases hlast : x = 4
    · subst hlast
      exact ⟨_, rfl, rfl, rfl, fun d _ _ hhigh => ⟨Nat.le_add_right _ _, Nat.add_le_add_left (Nat.le_of_lt_succ (hhigh rfl)) 128⟩⟩
    · refine ⟨.tails 3 x, ?_, rfl, rfl, fun d hd _ _ => tails_range hd⟩
      rw [start, if_neg (by omega), if_neg (by omega), if_neg (by omega), if_neg (by omega), if_neg (by omega), if_neg (by omega),
        if_pos (by omega), Nat.add_sub_cancel_left]

theorem decodeFrom_encode {c : Nat} (hc : IsScalar c) (rest : List Nat) : decodeFrom none (encode c ++ rest) = c :: decodeFrom none rest := by
  rw [IsScalar] at hc
  rw [encode]
  split
  · rename_i hone
    have hfeed : feed none c = ([c], none) := if_pos hone
    rw [List.singleton_append, decodeFrom_cons, hfeed]
    rfl
  · split
    · have hfeed : feed none (0xC0 + c / 64) = ([], some (.tails 1 (c / 64))) := by
        rw [feed, start, if_neg (by omega), if_pos (by omega), Nat.add_sub_cancel_left]
      rw [List.cons_append, List.cons_append, List.nil_append, decodeFrom_cons, hfeed, decodeFrom_cons, feed_last (by omega)]
      rw [show c / 64 * 64 + c % 64 = c by omega]
      rfl
    · split
      · obtain ⟨p, hp, hneed, hbits, hrange⟩ := start_three (x := c / 4096) (by omega)
        have hfeed : feed none (0xE0 + c / 4096) = ([], some p) := hp
        have hnext := feed_next (hrange (c / 64 % 64) (by omega) (by omega) (by omega)) (by omega)
        rw [hneed, hbits] at hnext
        rw [List.cons_append, List.cons_append, List.cons_append, List.nil_append, decodeFrom_cons, hfeed, decodeFrom_cons, hnext,
          decodeFrom_cons, feed_last (by omega)]
        rw [show (c / 4096 * 64 + c / 64 % 64) * 64 + c % 64 = c by omega]
        rfl
      · obtain ⟨p, hp, hneed, hbits, hrange⟩ := start_four (x := c / 262144) (by omega)
        have hfeed : feed none (0xF0 + c / 262144) = ([], some p) := hp
        have hnext := feed_next (hrange (c / 4096 % 64) (by omega) (by omega) (by omega)) (by omega)
        rw [hneed, hbits] at hnext
        rw [List.cons_append, List.cons_append, List.cons_append, List.cons_append, List.nil_append, decodeFrom_cons, hfeed,
          decodeFrom_cons, hnext, decodeFrom_cons, feed_third (by omega), decodeFrom_cons, feed_last (by omega)]
        rw [show ((c / 262144 * 64 + c / 4096 % 64) * 64 + c / 64 % 64) * 64 + c % 64 = c by omega]
        rfl

theorem decode_encodeAll {text : List Nat} (h : ∀ c ∈ text, IsScalar c) : decode (encodeAll text) = text := by
  induction text with
  | nil => rfl
  | cons c text ih =>
      obtain ⟨hc, htext⟩ := List.forall_mem_cons.mp h
      rw [encodeAll, List.flatMap_cons, decode, decodeFrom_encode hc]
      exact congrArg _ (ih htext)

/-! ### A text that is cut -/

theorem encode_cons (c : Nat) : ∃ b tails, encode c = b :: tails ∧ ¬ IsTail b ∧ ∀ d ∈ tails, IsTail d := by
  rw [encode]
  simp only [IsTail]
  split
  · exact ⟨_, _, rfl, by omega, nofun⟩
  · split
    · refine ⟨_, _, rfl, by omega, fun d hd => ?_⟩
      rw [List.mem_singleton] at hd
      omega
    · split
      · refine ⟨_, _, rfl, by omega, fun d hd => ?_⟩
        rw [List.mem_cons, List.mem_singleton] at hd
        omega
      · refine ⟨_, _, rfl, by omega, fun d hd => ?_⟩
        rw [List.mem_cons, List.mem_cons, List.mem_singleton] at hd
        omega

/-- The number of bytes that begin characters. -/
def heads (bytes : List Nat) : Nat := bytes.countP fun b => ¬ IsTail b

theorem heads_encodeAll (text : List Nat) : heads (encodeAll text) = text.length := by
  induction text with
  | nil => rfl
  | cons c text ih =>
      obtain ⟨b, tails, hencode, hb, htails⟩ := encode_cons c
      have hnone : tails.countP (fun b => decide ¬ IsTail b) = 0 := List.countP_eq_zero.mpr fun d hd => by
        rw [decide_eq_true_iff, not_not]
        exact htails d hd
      rw [encodeAll, List.flatMap_cons, hencode, heads, List.countP_append, List.countP_cons_of_pos (by rwa [decide_eq_true_iff]), hnone,
        List.length_cons, ← ih, heads, encodeAll]
      omega

theorem start_counts (b : Nat) : 1 ≤ (start b).1.length + (if (start b).2.isSome then 1 else 0) := by
  have hcases : (start b).1 ≠ [] ∨ (start b).2.isSome = true := by
    rw [start]
    repeat' split
    all_goals simp
  rcases hcases with hne | hsome
  · have := List.length_pos_of_ne_nil hne
    omega
  · rw [if_pos hsome]
    omega

theorem feed_counts (p : Option Pending) (b : Nat) :
    (if IsTail b then 0 else 1) + (if p.isSome then 1 else 0) ≤ (feed p b).1.length + (if (feed p b).2.isSome then 1 else 0) := by
  cases p with
  | none =>
      have hstart : 1 ≤ (feed none b).1.length + (if (feed none b).2.isSome then 1 else 0) := start_counts b
      refine le_trans ?_ hstart
      split <;> simp
  | some p =>
      by_cases hrange : p.low ≤ b ∧ b ≤ p.high
      · rw [feed, if_pos hrange]
        have htail : IsTail b := ⟨p.low_tail.trans hrange.1, hrange.2.trans p.high_tail⟩
        rw [if_pos htail, Option.isSome_some, if_pos rfl]
        by_cases hneed : p.need ≤ 1
        · rw [if_pos hneed]
          exact Nat.le_refl 1
        · rw [if_neg hneed]
          exact Nat.le_refl 1
      · have hstart := start_counts b
        rw [feed, if_neg hrange, List.length_cons, Option.isSome_some, if_pos rfl]
        dsimp only
        split <;> omega

/-- What is decoded has a code point for each byte that begins a character, and one for the character that is pending. -/
theorem heads_le (p : Option Pending) (bytes : List Nat) : heads bytes + (if p.isSome then 1 else 0) ≤ (decodeFrom p bytes).length := by
  induction bytes generalizing p with
  | nil => cases p <;> exact Nat.le_refl _
  | cons b rest ih =>
      have hfeed := feed_counts p b
      have hrest := ih (feed p b).2
      have hheads : heads (b :: rest) = heads rest + if IsTail b then 0 else 1 := by
        rw [heads, heads, List.countP_cons]
        by_cases hb : IsTail b <;> simp [hb]
      rw [decodeFrom_cons, List.length_append, hheads]
      omega

theorem heads_lt {b : Nat} (hb : IsTail b) (rest : List Nat) : heads (b :: rest) < (decode (b :: rest)).length := by
  have hstart : start b = ([replacement], none) := by
    rw [IsTail] at hb
    rw [start]
    repeat rw [if_neg (by omega)]
  have hfeed : feed none b = ([replacement], none) := hstart
  have hheads : heads (b :: rest) = heads rest := List.countP_cons_of_neg (by rwa [decide_eq_true_iff, not_not])
  have hrest := heads_le none rest
  rw [hheads, decode, decodeFrom_cons, hfeed, List.length_append, List.length_singleton]
  exact Nat.lt_of_le_of_lt ((Nat.le_add_right _ _).trans hrest) (Nat.lt_add_of_pos_left Nat.one_pos)

theorem cut_encodeAll {text u v : List Nat} (heq : u ++ v = encodeAll text) :
    (∃ t t', text = t ++ t' ∧ u = encodeAll t ∧ v = encodeAll t') ∨ ∃ b rest, v = b :: rest ∧ IsTail b := by
  induction text generalizing u with
  | nil =>
      obtain ⟨rfl, rfl⟩ := List.append_eq_nil_iff.mp heq
      exact .inl ⟨[], [], rfl, rfl, rfl⟩
  | cons c text ih =>
      rw [encodeAll, List.flatMap_cons] at heq
      rcases List.append_eq_append_iff.mp heq with ⟨w, hencode, hv⟩ | ⟨w, hu, hrest⟩
      · cases u with
        | nil => exact .inl ⟨[], c :: text, rfl, rfl, heq⟩
        | cons b u =>
            cases w with
            | nil =>
                rw [List.append_nil] at hencode
                exact .inl ⟨[c], text, rfl, by rw [encodeAll, List.flatMap_cons, List.flatMap_nil, List.append_nil, hencode], hv⟩
            | cons d w =>
                -- The cut is inside the first character.
                obtain ⟨b', tails, hencode', -, htails⟩ := encode_cons c
                rw [hencode', List.cons_append] at hencode
                obtain ⟨-, htail⟩ := List.cons_eq_cons.mp hencode
                exact .inr ⟨d, _, hv, htails d (htail ▸ List.mem_append_right u List.mem_cons_self)⟩
      · rcases ih hrest.symm with ⟨t, t', rfl, hw, hv⟩ | htail
        · exact .inl ⟨c :: t, t', rfl, by rw [hu, hw, encodeAll, encodeAll, List.flatMap_cons], hv⟩
        · exact .inr htail

theorem head_of_flatten {chunks : List (List Nat)} {b : Nat} {rest : List Nat} (h : chunks.flatten = b :: rest) :
    ∃ chunk ∈ chunks, chunk.head? = some b := by
  induction chunks with
  | nil => cases h
  | cons chunk chunks ih =>
      cases chunk with
      | nil =>
          obtain ⟨first, hfirst, hhead⟩ := ih h
          exact ⟨first, List.mem_cons_of_mem _ hfirst, hhead⟩
      | cons d chunk =>
          obtain ⟨rfl, -⟩ := List.cons_eq_cons.mp h
          exact ⟨_, List.mem_cons_self, rfl⟩

/-- The chunk does not begin inside a character. -/
def Aligned (chunk : List Nat) : Prop := ∀ b ∈ chunk.head?, ¬ IsTail b

theorem aligned_chunks {text : List Nat} (h : ∀ c ∈ text, IsScalar c) {chunks : List (List Nat)} (hchunks : chunks.flatten = encodeAll text)
    (haligned : ∀ chunk ∈ chunks, Aligned chunk) : (chunks.map decode).flatten = text := by
  induction chunks generalizing text with
  | nil =>
      have hdecode := decode_encodeAll h
      rw [← hchunks] at hdecode
      exact hdecode
  | cons chunk chunks ih =>
      obtain ⟨-, hrest⟩ := List.forall_mem_cons.mp haligned
      rw [List.flatten_cons] at hchunks
      rcases cut_encodeAll hchunks with ⟨t, t', rfl, rfl, htail⟩ | ⟨b, rest, htail, hb⟩
      · obtain ⟨ht, ht'⟩ := List.forall_mem_append.mp h
        rw [List.map_cons, List.flatten_cons, decode_encodeAll ht, ih ht' htail hrest]
      · obtain ⟨first, hfirst, hhead⟩ := head_of_flatten htail
        exact absurd hb (hrest first hfirst b hhead)

theorem heads_flatten (chunks : List (List Nat)) : heads chunks.flatten = (chunks.map heads).sum := by
  rw [heads, List.countP_flatten]
  rfl

/-- A text that is decoded chunk by chunk is the text exactly when no chunk begins inside a character. -/
theorem decode_chunks_iff {text : List Nat} (h : ∀ c ∈ text, IsScalar c) {chunks : List (List Nat)} (hchunks : chunks.flatten = encodeAll text) :
    (chunks.map decode).flatten = text ↔ ∀ chunk ∈ chunks, Aligned chunk := by
  refine ⟨fun htext chunk hchunk b hb htail => ?_, aligned_chunks h hchunks⟩
  obtain ⟨rest, hrest⟩ : ∃ rest, chunk = b :: rest := List.head?_eq_some_iff.mp hb
  have hle : ∀ chunk ∈ chunks, heads chunk ≤ (decode chunk).length := fun chunk _ => (Nat.le_add_right _ _).trans (heads_le none chunk)
  have hlt : (chunks.map heads).sum < (chunks.map fun chunk => (decode chunk).length).sum :=
    List.sum_lt_sum _ _ hle ⟨chunk, hchunk, by rw [hrest]; exact heads_lt htail rest⟩
  have hlength := congrArg List.length htext
  rw [List.length_flatten, List.map_map, ← heads_encodeAll text, ← hchunks, heads_flatten] at hlength
  exact absurd hlength hlt.ne'

end Nodus.Utf8
