import Nodus.HostInts
import Nodus.Iso8601
import Nodus.Utf8

/-! Server-sent events of `std:http`: `_do_stream_request` followed by `as_sse`, and `_do_sse_request`. -/

namespace Nodus.EventStreams

open JsonText TimeFormats HostInts Utf8

/-- An event, by the keys of its map. -/
structure Event where
  event : Text
  data : Text
  id : Option Text
  retry : Option Int
  deriving DecidableEq, Repr

section Source

variable (tables : CharTables)

/-! ### `_parse_sse_event` -/

def isLineEnd (c : Nat) : Bool := c ∈ [10, 11, 12, 13, 28, 29, 30, 0x85, 0x2028, 0x2029]

/-- `str.splitlines`, with the line that has begun. -/
def splitLinesFrom (line : Text) : Text → List Text
  | [] => if line = [] then [] else [line]
  | 13 :: 10 :: rest => line :: splitLinesFrom [] rest
  | c :: rest => if isLineEnd c then line :: splitLinesFrom [] rest else splitLinesFrom (line ++ [c]) rest

def splitLines (t : Text) : List Text := splitLinesFrom [] t

/-- The key and the value of a line. -/
def partitionLine (line : Text) : Text × Text :=
  if 58 ∈ line then (line.takeWhile (· ≠ 58), ((line.dropWhile (· ≠ 58)).drop 1).dropWhile (· = 32)) else (line, [])

structure Fields where
  event : Option Text := none
  dataLines : List Text := []
  id : Option Text := none
  retry : Option Int := none

def Fields.add (fields : Fields) (line : Text) : Fields :=
  if line = [] ∨ line.head? = some 58 then fields
  else
    let (key, value) := partitionLine line
    if key = text "data" then { fields with dataLines := fields.dataLines ++ [value] }
    else if key = text "event" then { fields with event := some value }
    else if key = text "id" then { fields with id := some value }
    else if key = text "retry" then
      match parseInt tables value with
      | some n => { fields with retry := some n }
      | none => fields
    else fields

def parseEvent (block : Text) : Option Event :=
  let fields := (splitLines block).foldl (Fields.add tables) {}
  if fields.dataLines = [] ∧ fields.event = none then none
  else some ⟨fields.event.getD (text "message"), [10].intercalate fields.dataLines, fields.id, fields.retry⟩

/-! ### The three loops -/

/-- The text cut at the first `\n\n`. -/
def cut : Text → Option (Text × Text)
  | 10 :: 10 :: rest => some ([], rest)
  | c :: rest => (cut rest).map fun (block, rest) => (c :: block, rest)
  | [] => none

theorem cut_length {t block rest : Text} (h : cut t = some (block, rest)) : rest.length < t.length := by
  fun_induction cut t generalizing block rest with
  | case1 after =>
      cases h
      exact Nat.lt_succ_of_lt (Nat.lt_succ_self _)
  | case2 c after _ ih =>
      obtain ⟨⟨block', rest'⟩, hcut, heq⟩ := Option.map_eq_some_iff.mp h
      obtain ⟨-, rfl⟩ := Prod.mk.inj heq
      exact Nat.lt_succ_of_lt (ih hcut)
  | case3 => cases h

/-- `while "\n\n" in buf`: the blocks, and what stays in the buffer. -/
def drain (buf : Text) : List Text × Text :=
  match h : cut buf with
  | none => ([], buf)
  | some (block, rest) => (block :: (drain rest).1, (drain rest).2)
termination_by buf.length
decreasing_by all_goals exact cut_length h

/-- What a channel of chunks holds. -/
inductive Chunk where
  | text (t : Text)
  | bytes (b : List Nat)
  deriving DecidableEq, Repr

/-- The worker of `_do_stream_request`: the chunks that it puts into the channel. -/
def streamWorker (isText : Bool) (chunks : List (List Nat)) : List Chunk :=
  (chunks.filter fun chunk => !chunk.isEmpty).map fun chunk => if isText then .text (decode chunk) else .bytes chunk

/-- A chunk in `_pump_sse`. -/
def Chunk.decoded : Chunk → Text
  | .text t => t
  | .bytes b => decode b

/-- A turn of `_pump_sse`: the buffer and the events. -/
def pumpTurn (state : Text × List Event) (chunk : Text) : Text × List Event :=
  ((drain (state.1 ++ chunk)).2, state.2 ++ (drain (state.1 ++ chunk)).1.filterMap (parseEvent tables))

def pumpSse (chunks : List Chunk) : List Event := ((chunks.map Chunk.decoded).foldl (pumpTurn tables) ([], [])).2

/-- What the worker of `_do_sse_request` has: the buffer, the events, and the last id. -/
structure SseState where
  buf : Text
  events : List Event
  lastId : Text

/-- The blocks that are in the buffer. -/
def SseState.add (state : SseState) (block : Text) : SseState :=
  match parseEvent tables block with
  | some event => { state with events := state.events ++ [event], lastId := event.id.getD state.lastId }
  | none => state

def sseTurn (state : SseState) (chunk : Text) : SseState :=
  { (drain (state.buf ++ chunk)).1.foldl (SseState.add tables) state with buf := (drain (state.buf ++ chunk)).2 }

/-- The worker of `_do_sse_request`, on the texts that the HTTP library gives. -/
def sseWorker (pieces : List Text) : SseState := pieces.foldl (sseTurn tables) ⟨[], [], []⟩

end Source

/-! ### The events of a stream -/

/-- The text with LF line ends. -/
def unify : Text → Text
  | 13 :: 10 :: rest => 10 :: unify rest
  | c :: rest => c :: unify rest
  | [] => []

/-- The events of a whole stream. -/
def eventsOf (tables : CharTables) (stream : Text) : List Event := (drain (unify stream)).1.filterMap (parseEvent tables)

/-- Every line ends with LF only. -/
def LfEnds (stream : Text) : Prop := ∀ u v, stream ≠ u ++ 13 :: 10 :: v

/-- Every line ends with CR LF. -/
def CrlfEnds (stream : Text) : Prop := ∀ u v, stream = u ++ 10 :: v → ∃ u', u = u' ++ [13]

section Loops

variable {tables : CharTables}

/-! ### What the loops read -/

theorem cut_eq_some {t block rest : Text} (h : cut t = some (block, rest)) : t = block ++ 10 :: 10 :: rest := by
  fun_induction cut t generalizing block rest with
  | case1 after =>
      cases h
      rfl
  | case2 c after _ ih =>
      obtain ⟨⟨block', rest'⟩, hcut, heq⟩ := Option.map_eq_some_iff.mp h
      obtain ⟨rfl, rfl⟩ := Prod.mk.inj heq
      exact congrArg (c :: ·) (ih hcut)
  | case3 => cases h

theorem cut_append {t block rest : Text} (h : cut t = some (block, rest)) (more : Text) : cut (t ++ more) = some (block, rest ++ more) := by
  fun_induction cut t generalizing block rest with
  | case1 after =>
      cases h
      rfl
  | case2 c after hnot ih =>
      obtain ⟨⟨block', rest'⟩, hcut, heq⟩ := Option.map_eq_some_iff.mp h
      obtain ⟨rfl, rfl⟩ := Prod.mk.inj heq
      cases after with
      | nil => cases hcut
      | cons d after =>
          have hother : ∀ tail, c = 10 → (d :: after) ++ more = 10 :: tail → False := by
            intro tail hc hd
            obtain ⟨rfl, -⟩ := List.cons_eq_cons.mp hd
            exact hnot after hc rfl
          rw [List.cons_append, cut.eq_2 c _ hother, ih hcut]
          rfl
  | case3 => cases h

theorem drain_of_none {buf : Text} (h : cut buf = none) : drain buf = ([], buf) := by
  rw [drain]
  split
  · rfl
  · rename_i hcut
    rw [h] at hcut
    cases hcut

theorem drain_of_some {buf block rest : Text} (h : cut buf = some (block, rest)) : drain buf = (block :: (drain rest).1, (drain rest).2) := by
  rw [drain]
  split
  · rename_i hcut
    rw [h] at hcut
    cases hcut
  · rename_i hcut
    rw [h] at hcut
    obtain ⟨rfl, rfl⟩ := Prod.mk.inj (Option.some.inj hcut)
    rfl

theorem cut_drain (buf : Text) : cut (drain buf).2 = none := by
  fun_induction drain buf with
  | case1 buf h => exact h
  | case2 buf block rest h ih => exact ih

/-- The blocks of a text are those of a part of it, and those of what this part leaves in the buffer with the rest. -/
theorem drain_append (buf more : Text) :
    drain (buf ++ more) = ((drain buf).1 ++ (drain ((drain buf).2 ++ more)).1, (drain ((drain buf).2 ++ more)).2) := by
  fun_induction drain buf with
  | case1 buf h => rfl
  | case2 buf block rest h ih =>
      rw [drain_of_some (cut_append h more), ih]
      rfl

theorem pump_run (chunks : List Text) (buf : Text) (events : List Event) (hbuf : cut buf = none) :
    chunks.foldl (pumpTurn tables) (buf, events) =
      ((drain (buf ++ chunks.flatten)).2, events ++ (drain (buf ++ chunks.flatten)).1.filterMap (parseEvent tables)) := by
  induction chunks generalizing buf events with
  | nil =>
      rw [List.flatten_nil, List.append_nil, drain_of_none hbuf, List.filterMap_nil, List.append_nil]
      rfl
  | cons chunk chunks ih =>
      rw [List.foldl_cons, pumpTurn, ih _ _ (cut_drain _), List.flatten_cons, ← List.append_assoc, drain_append (buf ++ chunk) chunks.flatten,
        List.filterMap_append, List.append_assoc]

theorem pumpSse_eq (chunks : List Chunk) :
    pumpSse tables chunks = (drain (chunks.map Chunk.decoded).flatten).1.filterMap (parseEvent tables) := by
  rw [pumpSse, pump_run _ _ _ rfl, List.nil_append, List.nil_append]

theorem sseTurn_pump (state : SseState) (chunk : Text) :
    ((sseTurn tables state chunk).buf, (sseTurn tables state chunk).events) = pumpTurn tables (state.buf, state.events) chunk := by
  have hblocks : ∀ (blocks : List Text) (state : SseState),
      (blocks.foldl (SseState.add tables) state).events = state.events ++ blocks.filterMap (parseEvent tables) := by
    intro blocks
    induction blocks with
    | nil => exact fun state => (List.append_nil _).symm
    | cons block blocks ih =>
        intro state
        rw [List.foldl_cons, ih, List.filterMap_cons, SseState.add]
        cases parseEvent tables block with
        | none => rfl
        | some event => exact List.append_assoc _ _ _
  rw [pumpTurn, sseTurn, hblocks]

theorem sseWorker_eq (pieces : List Text) : (sseWorker tables pieces).events = (drain pieces.flatten).1.filterMap (parseEvent tables) := by
  have hrun : ∀ (pieces : List Text) (state : SseState),
      ((pieces.foldl (sseTurn tables) state).buf, (pieces.foldl (sseTurn tables) state).events) =
        pieces.foldl (pumpTurn tables) (state.buf, state.events) := by
    intro pieces
    induction pieces with
    | nil => exact fun state => rfl
    | cons piece pieces ih =>
        intro state
        rw [List.foldl_cons, List.foldl_cons, ih, sseTurn_pump]
  have hevents := congrArg Prod.snd (hrun pieces ⟨[], [], []⟩)
  rw [pump_run _ _ _ rfl, List.nil_append, List.nil_append] at hevents
  exact hevents

theorem streamWorker_decoded (isText : Bool) (chunks : List (List Nat)) :
    ((streamWorker isText chunks).map Chunk.decoded).flatten = (chunks.map decode).flatten := by
  induction chunks with
  | nil => rfl
  | cons chunk chunks ih =>
      rw [List.map_cons, List.flatten_cons, ← ih]
      cases chunk with
      | nil => rfl
      | cons b chunk => cases isText <;> rfl

/-! ### Line ends -/

theorem unify_of_lf {stream : Text} (h : LfEnds stream) : unify stream = stream := by
  fun_induction unify stream with
  | case1 rest => exact absurd rfl (h [] rest)
  | case2 c rest _ ih => exact congrArg (c :: ·) (ih fun u v heq => h (c :: u) v (congrArg (c :: ·) heq))
  | case3 => rfl

theorem cut_of_crlf {stream : Text} (h : CrlfEnds stream) : cut stream = none := by
  cases hcut : cut stream with
  | none => rfl
  | some pair =>
      have heq : stream = pair.1 ++ 10 :: 10 :: pair.2 := cut_eq_some hcut
      obtain ⟨u, hu⟩ := h (pair.1 ++ [10]) pair.2 (heq.trans (List.append_cons _ _ _))
      have hlast := congrArg List.getLast? hu
      rw [List.getLast?_concat, List.getLast?_concat] at hlast
      cases hlast

end Loops

/-- For a stream with LF or with CR LF line ends, in chunks: the events of `as_sse`, those of `http_sse` and those of the whole stream are the
same and the text chunks are the stream, exactly when no chunk begins inside a character, and the line ends are LF or there is no event. -/
theorem events_independent_iff (tables : CharTables) {stream : Text} (hscalar : ∀ c ∈ stream, IsScalar c) (hends : LfEnds stream ∨ CrlfEnds stream)
    {chunks : List (List Nat)} (hchunks : chunks.flatten = encodeAll stream) :
    ((∀ isText, pumpSse tables (streamWorker isText chunks) = eventsOf tables stream) ∧
        (∀ pieces : List Text, pieces.flatten = stream → (sseWorker tables pieces).events = eventsOf tables stream) ∧
        ((streamWorker true chunks).map Chunk.decoded).flatten = stream) ↔
      (∀ chunk ∈ chunks, Aligned chunk) ∧ (LfEnds stream ∨ eventsOf tables stream = []) := by
  rw [streamWorker_decoded true chunks, decode_chunks_iff hscalar hchunks]
  constructor
  · rintro ⟨-, hsse, haligned⟩
    refine ⟨haligned, hends.imp_right fun hcrlf => ?_⟩
    rw [← hsse [stream] (List.flatten_singleton), sseWorker_eq, List.flatten_singleton, drain_of_none (cut_of_crlf hcrlf)]
    rfl
  · rintro ⟨haligned, hcase⟩
    have hloop : (drain stream).1.filterMap (parseEvent tables) = eventsOf tables stream := by
      rcases hends with hlf | hcrlf
      · rw [eventsOf, unify_of_lf hlf]
      · rcases hcase with hlf | hnone
        · rw [eventsOf, unify_of_lf hlf]
        · rw [hnone, drain_of_none (cut_of_crlf hcrlf)]
          rfl
    refine ⟨fun isText => ?_, fun pieces hpieces => ?_, haligned⟩
    · rw [pumpSse_eq, streamWorker_decoded, (decode_chunks_iff hscalar hchunks).mpr haligned, hloop]
    · rw [sseWorker_eq, hpieces, hloop]

/-- Two chunks, cut inside the separator. -/
theorem separator_cut : (sseWorker Iso8601.asciiTables [text "data: x\n", text "\n"]).events = eventsOf Iso8601.asciiTables (text "data: x\n\n") ∧
    pumpSse Iso8601.asciiTables (streamWorker true [text "data: x\n", text "\n"]) = eventsOf Iso8601.asciiTables (text "data: x\n\n") := by
  have hlf : LfEnds (text "data: x\n\n") := by
    intro u v heq
    have hmem : (13 : Nat) ∈ text "data: x\n\n" := heq ▸ List.mem_append_right u List.mem_cons_self
    exact absurd hmem (by decide)
  have haligned : ∀ chunk ∈ [text "data: x\n", text "\n"], Aligned chunk := by
    intro chunk hchunk b hb
    rcases List.mem_cons.mp hchunk with rfl | hchunk
    · obtain rfl := Option.some.inj hb
      decide
    · obtain rfl := List.mem_singleton.mp hchunk
      obtain rfl := Option.some.inj hb
      decide
  obtain ⟨hpump, hsse, -⟩ := (events_independent_iff Iso8601.asciiTables (by decide) (.inl hlf) (by decide)).mpr ⟨haligned, .inl hlf⟩
  exact ⟨hsse _ (by decide), hpump true⟩

/-- The event of a stream with CR LF is lost, and the `é` at the end of the first chunk of 4096 bytes becomes two replacement characters. -/
theorem event_lost : (∃ e, eventsOf Iso8601.asciiTables (text "data: x\r\n\r\n") = [e]) ∧
    pumpSse Iso8601.asciiTables (streamWorker true [text "data: x\r\n\r\n"]) = [] ∧
    ((streamWorker true [List.replicate 4095 97 ++ [0xC3], [0xA9]]).map Chunk.decoded).flatten ≠ List.replicate 4095 97 ++ [0xE9] := by
  refine ⟨?_, ?_, ?_⟩
  · have hunify : unify (text "data: x\r\n\r\n") = text "data: x\n\n" := by decide
    have hcut : cut (text "data: x\n\n") = some (text "data: x", []) := by decide
    refine ⟨⟨text "message", text "x", none, none⟩, ?_⟩
    rw [eventsOf, hunify, drain_of_some hcut, drain_of_none rfl]
    decide
  · rw [pumpSse_eq, streamWorker_decoded]
    have hdecode : ([text "data: x\r\n\r\n"].map decode).flatten = text "data: x\r\n\r\n" := by decide
    rw [hdecode, drain_of_none (by decide)]
    rfl
  · intro heq
    have hscalar : ∀ c ∈ List.replicate 4095 97 ++ [0xE9], IsScalar c := by
      intro c hc
      rcases List.mem_append.mp hc with hc | hc
      · rw [List.eq_of_mem_replicate hc]
        decide
      · rw [List.mem_singleton.mp hc]
        decide
    have hencode : ([List.replicate 4095 97 ++ [0xC3], [0xA9]] : List (List Nat)).flatten = encodeAll (List.replicate 4095 97 ++ [0xE9]) := by
      have hascii : ∀ n, (List.replicate n 97).flatMap encode = List.replicate n 97 := by
        intro n
        induction n with
        | zero => rfl
        | succ n ih => exact congrArg (97 :: ·) ih
      have hlast : [0xE9].flatMap encode = [0xC3, 0xA9] := by decide
      rw [encodeAll, List.flatMap_append, hascii, hlast, List.flatten_cons, List.flatten_singleton, List.append_assoc, List.singleton_append]
    rw [streamWorker_decoded, decode_chunks_iff hscalar hencode] at heq
    exact heq [0xA9] (List.mem_cons_of_mem _ List.mem_cons_self) 0xA9 rfl (by decide)

end Nodus.EventStreams
