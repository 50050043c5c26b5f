import Nodus.DateTimes

/-! The instant of a civil time: what `_construct_aware` answers in a time zone whose transitions are isolated. -/

namespace Nodus.LocalTimes

open Calendar JsonText DateTimes Zone

/-! ### The civil times that a transition skips or shows twice -/

/-- The transitions, each with the offset before it and the offset after it. -/
def stepsFrom (offset : Int) : List (Int × Int) → List (Int × Int × Int)
  | [] => []
  | (t, offset') :: rest => (t, offset, offset') :: stepsFrom offset' rest

/-- The clock is moved in order of time, and what one transition skips or repeats is over on the clock when the next one is taken. -/
def IsolatedFrom (offset : Int) : List (Int × Int) → Prop
  | [] => True
  | [_] => True
  | (t, offset') :: (t', offset'') :: rest =>
      (t < t' ∧ t + max offset offset' ≤ t' + min offset' offset'') ∧ IsolatedFrom offset' ((t', offset'') :: rest)

/-- The transition changes what the clock shows at a second of it: this second is skipped or shown twice. -/
def Covers (s : Int) (step : Int × Int × Int) : Prop :=
  step.1 + min step.2.1 step.2.2 ≤ s ∧ s < step.1 + max step.2.1 step.2.2

variable {o o' t s q : Int} {rest : List (Int × Int)}

theorem IsolatedFrom.tail (h : IsolatedFrom o ((t, o') :: rest)) : IsolatedFrom o' rest := by
  cases rest with
  | nil => trivial
  | cons p rest => exact h.2

/-- The clock never shows again what it has shown before a transition, unless it is moved back. -/
theorem shown_after (h : IsolatedFrom o ((t, o') :: rest)) (hq : t ≤ q) : t + o' ≤ q + offsetFrom o' rest q := by
  induction rest generalizing o o' t with
  | nil =>
      rw [offsetFrom]
      omega
  | cons p rest ih =>
      obtain ⟨t', o''⟩ := p
      obtain ⟨⟨hlt, hwalls⟩, htail⟩ := h
      rw [offsetFrom]
      split
      · omega
      · have hlater := ih htail (by omega)
        omega

theorem offsetFrom_before (h : IsolatedFrom o ((t, o') :: rest)) (hq : q < t) : offsetFrom o' rest q = o' := by
  cases rest with
  | nil => rfl
  | cons p rest =>
      obtain ⟨t', o''⟩ := p
      obtain ⟨⟨hlt, -⟩, -⟩ := h
      exact if_pos (by omega)

theorem steps_after (h : IsolatedFrom o ((t, o') :: rest)) {step : Int × Int × Int} (hstep : step ∈ stepsFrom o' rest) :
    t + max o o' ≤ step.1 + min step.2.1 step.2.2 := by
  induction rest generalizing o o' t with
  | nil => cases hstep
  | cons p rest ih =>
      obtain ⟨t', o''⟩ := p
      obtain ⟨⟨-, hwalls⟩, htail⟩ := h
      rcases List.mem_cons.mp hstep with rfl | hlater
      · exact hwalls
      · have hnext := ih htail hlater
        omega

theorem localFrom_cons_lt (fold : Bool) (h : s < wall fold t o o') : localFrom fold o ((t, o') :: rest) s = o := if_pos h

theorem localFrom_cons_ge (fold : Bool) (h : wall fold t o o' ≤ s) : localFrom fold o ((t, o') :: rest) s = localFrom fold o' rest s :=
  if_neg (not_lt.mpr h)

theorem localFrom_before {fold : Bool} (h : IsolatedFrom o ((t, o') :: rest)) (hs : s < t + max o o') : localFrom fold o' rest s = o' := by
  cases rest with
  | nil => rfl
  | cons p rest =>
      obtain ⟨t', o''⟩ := p
      obtain ⟨⟨-, hwalls⟩, -⟩ := h
      refine localFrom_cons_lt _ ?_
      cases fold
      · exact lt_of_lt_of_le hs (hwalls.trans (by simp only [wall]; omega))
      · exact lt_of_lt_of_le hs hwalls

/-- In what a transition skips or repeats, the offset is the one before it or the one after it, as the fold says. -/
theorem localFrom_of_covers {transitions : List (Int × Int)} (h : IsolatedFrom o transitions) {step : Int × Int × Int}
    (hstep : step ∈ stepsFrom o transitions) (hs : Covers s step) :
    localFrom false o transitions s = step.2.1 ∧ localFrom true o transitions s = step.2.2 := by
  induction transitions generalizing o with
  | nil => cases hstep
  | cons p rest ih =>
      obtain ⟨t, o'⟩ := p
      rcases List.mem_cons.mp hstep with rfl | hlater
      · refine ⟨localFrom_cons_lt _ hs.2, ?_⟩
        rw [localFrom_cons_ge true hs.1]
        exact localFrom_before h hs.2
      · have hafter : t + max o o' ≤ s := (steps_after h hlater).trans hs.1
        rw [localFrom_cons_ge false hafter,
          localFrom_cons_ge true (by simp only [wall]; omega)]
        exact ih h.tail hlater

/-- A second of the clock is shown once, or a transition repeats it, or a transition skips it. -/
theorem shown_cases {transitions : List (Int × Int)} (h : IsolatedFrom o transitions) (s : Int) :
    (∀ step ∈ stepsFrom o transitions, ¬ Covers s step) ∧ localFrom false o transitions s = localFrom true o transitions s ∧
        (∀ q, q + offsetFrom o transitions q = s ↔ q = s - localFrom false o transitions s) ∨
      ∃ step ∈ stepsFrom o transitions, Covers s step ∧
        ((step.2.2 < step.2.1 ∧ ∀ q, q + offsetFrom o transitions q = s ↔ q = s - step.2.1 ∨ q = s - step.2.2) ∨
          step.2.1 < step.2.2 ∧ ∀ q, q + offsetFrom o transitions q ≠ s) := by
  induction transitions generalizing o with
  | nil =>
      refine .inl ⟨fun step hstep => absurd hstep List.not_mem_nil, rfl, fun q => ?_⟩
      simp only [offsetFrom, localFrom]
      omega
  | cons p rest ih =>
      obtain ⟨t, o'⟩ := p
      have hbefore : ∀ q < t, offsetFrom o ((t, o') :: rest) q = o := fun q hq => if_pos hq
      have hafter : ∀ q, t ≤ q → offsetFrom o ((t, o') :: rest) q = offsetFrom o' rest q := fun q hq => if_neg (not_lt.mpr hq)
      rcases lt_or_ge s (t + min o o') with hlow | hlow
      · -- The first transition has not been taken on the clock, nor has a later one.
        have hfalse : localFrom false o ((t, o') :: rest) s = o := localFrom_cons_lt _ (hlow.trans_le (by simp only [wall]; omega))
        refine .inl ⟨fun step hstep hcovers => ?_, hfalse.trans (localFrom_cons_lt true hlow).symm, fun q => ?_⟩
        · rcases List.mem_cons.mp hstep with rfl | hlater
          · exact absurd hcovers.1 (not_le.mpr hlow)
          · have hwalls := (steps_after h hlater).trans hcovers.1
            omega
        · rw [hfalse]
          rcases lt_or_ge q t with hq | hq
          · rw [hbefore q hq]
            omega
          · have hshown := shown_after h hq
            rw [hafter q hq]
            omega
      · rcases lt_or_ge s (t + max o o') with hhigh | hhigh
        · -- The first transition skips or repeats this second.
          refine .inr ⟨(t, o, o'), List.mem_cons_self, ⟨hlow, hhigh⟩, ?_⟩
          rcases lt_or_ge o' o with hback | hforth
          · refine .inl ⟨hback, fun q => ?_⟩
            dsimp only
            rcases lt_or_ge q t with hq | hq
            · rw [hbefore q hq]
              omega
            · rw [hafter q hq]
              cases rest with
              | nil =>
                  rw [offsetFrom]
                  omega
              | cons p rest =>
                  obtain ⟨t', o''⟩ := p
                  obtain ⟨⟨hlt, hwalls⟩, htail⟩ := h
                  rw [offsetFrom]
                  split
                  · omega
                  · have hshown := shown_after htail (not_lt.mp ‹_›)
                    omega
          · refine .inr ⟨by dsimp only; omega, fun q hq => ?_⟩
            rcases lt_or_ge q t with hlt | hge
            · rw [hbefore q hlt] at hq
              omega
            · have hshown := shown_after h hge
              rw [hafter q hge] at hq
              omega
        · -- The first transition has been taken, and no earlier time comes back.
          have hfolds : ∀ fold, localFrom fold o ((t, o') :: rest) s = localFrom fold o' rest s := by
            intro fold
            refine localFrom_cons_ge _ (le_trans ?_ hhigh)
            cases fold <;> simp only [wall] <;> omega
          have hinstants : ∀ q, q + offsetFrom o ((t, o') :: rest) q = s ↔ q + offsetFrom o' rest q = s := by
            intro q
            rcases lt_or_ge q t with hq | hq
            · rw [hbefore q hq, offsetFrom_before h hq]
              omega
            · rw [hafter q hq]
          have hmem : ∀ step ∈ stepsFrom o ((t, o') :: rest), Covers s step → step ∈ stepsFrom o' rest := by
            intro step hstep hcovers
            rcases List.mem_cons.mp hstep with rfl | hlater
            · exact absurd hcovers.2 (not_lt.mpr hhigh)
            · exact hlater
          rcases ih h.tail with ⟨hnone, hsame, honce⟩ | ⟨step, hstep, hcovers, hshown⟩
          · refine .inl ⟨fun step hstep hcovers => hnone step (hmem step hstep hcovers) hcovers, ?_, fun q => ?_⟩
            · rw [hfolds, hfolds, hsame]
            · rw [hinstants, hfolds, honce]
          · refine .inr ⟨step, List.mem_cons_of_mem _ hstep, hcovers, hshown.imp (And.imp_right fun hback q => ?_)
              (And.imp_right fun hskip q => ?_)⟩
            · rw [hinstants, hback]
            · rw [Ne, hinstants]
              exact hskip q

/-! ### The instants of a civil time -/

section Instants

variable (zone : Zone)

def Isolated : Prop := IsolatedFrom zone.initial zone.transitions

/-- The instants at which the clock shows a civil time. -/
def instants (localMs : Int) : Set Int := {u | u + 1000 * zone.offsetAt (u / 1000) = localMs}

/-- The clock is moved forward over a civil time, from the offset `before` to the offset `after`. -/
def Skips (localMs before after : Int) : Prop :=
  before < after ∧ ∃ t, (t, before, after) ∈ stepsFrom zone.initial zone.transitions ∧ Covers (localMs / 1000) (t, before, after)

variable {zone} {localMs u before after : Int}

theorem mem_instants : u ∈ instants zone localMs ↔ u % 1000 = localMs % 1000 ∧ u / 1000 + zone.offsetAt (u / 1000) = localMs / 1000 := by
  change u + 1000 * zone.offsetAt (u / 1000) = localMs ↔ _
  omega

theorem Skips.offsets (hzone : Isolated zone) (h : Skips zone localMs before after) :
    zone.offsetOf false (localMs / 1000) = before ∧ zone.offsetOf true (localMs / 1000) = after := by
  obtain ⟨-, t, hstep, hcovers⟩ := h
  exact localFrom_of_covers hzone hstep hcovers

theorem instants_cases (hzone : Isolated zone) (localMs : Int) :
    let b := zone.offsetOf false (localMs / 1000)
    let a := zone.offsetOf true (localMs / 1000)
    (b = a ∧ instants zone localMs = {localMs - 1000 * b}) ∨
      (a < b ∧ instants zone localMs = {localMs - 1000 * b, localMs - 1000 * a}) ∨
        b < a ∧ Skips zone localMs b a ∧ instants zone localMs = ∅ := by
  intro b a
  rcases shown_cases hzone (localMs / 1000) with ⟨-, hsame, honce⟩ | ⟨⟨t, before, after⟩, hstep, hcovers, hshown⟩
  · refine .inl ⟨hsame, Set.ext fun u => ?_⟩
    have hu := honce (u / 1000)
    rw [mem_instants, Set.mem_singleton_iff]
    change _ ∧ u / 1000 + offsetFrom zone.initial zone.transitions (u / 1000) = _ ↔ u = localMs - 1000 * b
    rw [hu]
    change _ ∧ u / 1000 = localMs / 1000 - b ↔ _
    omega
  · obtain ⟨hbefore, hafter⟩ := localFrom_of_covers hzone hstep hcovers
    have hb : b = before := hbefore
    have ha : a = after := hafter
    rw [hb, ha]
    rcases hshown with ⟨hback, htwice⟩ | ⟨hforth, hnever⟩
    · refine .inr (.inl ⟨hback, Set.ext fun u => ?_⟩)
      have hu := htwice (u / 1000)
      rw [mem_instants, Set.mem_insert_iff, Set.mem_singleton_iff]
      change _ ∧ u / 1000 + offsetFrom zone.initial zone.transitions (u / 1000) = _ ↔ _
      rw [hu]
      dsimp only
      omega
    · refine .inr (.inr ⟨hforth, ⟨hforth, t, hstep, hcovers⟩, Set.eq_empty_iff_forall_notMem.mpr fun u hu => ?_⟩)
      exact hnever (u / 1000) (mem_instants.mp hu).2

end Instants

/-! ### The answer -/

/-- `_construct_aware` of a civil time. -/
def construct (writing : Writing) (zone : Zone) (c : Civil) (options : Options) : Answer :=
  constructAware writing c.date.year c.date.month c.date.day c.hour c.minute c.second c.milli zone options

/-- The answer is the datetime of an instant. -/
def Returns (zone : Zone) (r : Answer) (u : Int) : Prop := ∃ d, makeDt u zone = .ok d ∧ r = .ok (.ok d)

/-- The answer is an error as a value. -/
def Refuses (zone : Zone) (r : Answer) (category : String) : Prop := ∃ e, r = .ok (.error e) ∧ e.category = category ∧ e.zone = some zone.key

/-- A civil time is resolved: it gives the only instant that shows it, the time that is asked for where it is skipped or shown twice, and
the error of this kind where nothing is asked for. -/
structure Resolved (writing : Writing) (zone : Zone) (c : Civil) : Prop where
  once : ∀ u, instants zone c.toMs = {u} → ∀ options, Returns zone (construct writing zone c options) u
  never : instants zone c.toMs = ∅ → ∀ before after, Skips zone c.toMs before after → ∀ options,
    if options.onInvalid = some (text "shift_forward") then Returns zone (construct writing zone c options) (c.toMs - 1000 * before)
    else if options.onInvalid = some (text "shift_backward") then Returns zone (construct writing zone c options) (c.toMs - 1000 * after)
    else Refuses zone (construct writing zone c options) "out_of_range"
  twice : ∀ u u', u < u' → instants zone c.toMs = {u, u'} → ∀ options,
    if options.onAmbiguous = some (text "earliest") then Returns zone (construct writing zone c options) u
    else if options.onAmbiguous = some (text "latest") then Returns zone (construct writing zone c options) u'
    else Refuses zone (construct writing zone c options) "ambiguous"

/-- An instant that the host can represent, and that its conversion does not lose. -/
def Exact (u : Int) : Prop := InYears u ∧ ¬ Timestamps.Lossy u

/-- The readings of a civil time are exact; and those of a skipped one show another time of day. -/
structure Clear (zone : Zone) (localMs : Int) : Prop where
  shown : ∀ u ∈ instants zone localMs, Exact u
  skipped : ∀ before after, Skips zone localMs before after → ∀ offset, offset = before ∨ offset = after →
    Exact (localMs - 1000 * offset) ∧ InYears (localMs - 1000 * offset + 1000 * zone.offsetAt (localMs / 1000 - offset)) ∧
      (zone.offsetAt (localMs / 1000 - offset) - offset) % 86400 ≠ 0

section Answering

variable {writing : Writing} {zone : Zone} {c : Civil} {options : Options} {r : Except TimeError DateTime}

theorem toMs_inYears (hyear : 1 ≤ c.date.year ∧ c.date.year ≤ 9999) : InYears c.toMs := by
  obtain ⟨hlow, hhigh⟩ := c.date.ordinal_year
  have hlow' := daysBeforeYear_mono hyear.1
  have hhigh' := daysBeforeYear_mono (show c.date.year + 1 ≤ 10000 by omega)
  have h1 : daysBeforeYear 1 = 0 := by decide
  have h10000 : daysBeforeYear 10000 = 3652059 := by decide
  have hhour := c.hour_mem
  have hminute := c.minute_mem
  have hsecond := c.second_mem
  have hmilli := c.milli_mem
  unfold InYears minMs maxMs Civil.toMs epochOrdinal msPerDay
  omega

theorem hms_eq_iff {ms : Int} (hms' : ms % 1000 = c.toMs % 1000) : hms ms = (c.hour, c.minute, c.second) ↔ (ms - c.toMs) % msPerDay = 0 := by
  have hc := Civil.ofMs_toMs c
  have hhour : c.hour = hourOf c.toMs := (congrArg Civil.hour hc).symm
  have hminute : c.minute = minuteOf c.toMs := (congrArg Civil.minute hc).symm
  have hsecond : c.second = secondOf c.toMs := (congrArg Civil.second hc).symm
  rw [hms, hhour, hminute, hsecond, Prod.mk.injEq, Prod.mk.injEq]
  unfold hourOf minuteOf secondOf msPerDay
  omega

/-- The instant of a reading. -/
def reading (zone : Zone) (fold : Bool) (localMs : Int) : Int := localMs - 1000 * zone.offsetOf fold (localMs / 1000)

theorem construct_eq (hyear : 1 ≤ c.date.year ∧ c.date.year ≤ 9999) : construct writing zone c options =
    (toUtc zone false c.toMs).bind fun utc0 => (toUtc zone true c.toMs).bind fun utc1 =>
      if awareEpochMs utc0 = awareEpochMs utc1 then answer (awareEpochMs utc0) zone
      else (localFromEpochMs zone (awareEpochMs utc0)).bind fun rt0 => (localFromEpochMs zone (awareEpochMs utc1)).bind fun rt1 =>
        if hms rt0.ms ≠ (c.hour, c.minute, c.second) ∧ hms rt1.ms ≠ (c.hour, c.minute, c.second) then
          gapAnswer writing (shown c.date.year c.date.month c.date.day c.hour c.minute c.second) zone options (awareEpochMs utc0)
            (awareEpochMs utc1)
        else overlapAnswer writing (shown c.date.year c.date.month c.date.day c.hour c.minute c.second) zone options (awareEpochMs utc0)
          (awareEpochMs utc1) := by
  rw [construct, constructAware, naive_civil hyear]
  rfl

theorem toUtc_eq {fold : Bool} {localMs : Int} (h : InYears (reading zone fold localMs)) : toUtc zone fold localMs = .ok (reading zone fold localMs) :=
  if_pos h

theorem toUtc_ok {fold : Bool} {localMs ms : Int} (h : toUtc zone fold localMs = .ok ms) :
    InYears (reading zone fold localMs) ∧ ms = reading zone fold localMs := by
  rw [toUtc] at h
  split at h
  · rename_i hyears
    exact ⟨hyears, (Except.ok.inj h).symm⟩
  · cases h

theorem localFrom_eq {epochMs : Int} (h : InYears epochMs) (h' : InYears (epochMs + 1000 * zone.offsetAt (epochMs / 1000))) :
    ∃ l, localFromEpochMs zone epochMs = .ok l ∧ l.ms = epochMs + 1000 * zone.offsetAt (epochMs / 1000) := by
  rw [localFromEpochMs, if_pos ⟨h, h'⟩]
  exact ⟨_, rfl, rfl⟩

theorem returns_answer {epochMs : Int} (h : InYears epochMs) (h' : InYears (epochMs + 1000 * zone.offsetAt (epochMs / 1000))) :
    Returns zone (answer epochMs zone) epochMs := by
  obtain ⟨l, hl, -⟩ := localFrom_eq h h'
  rw [Returns, answer, makeDt, hl]
  exact ⟨_, rfl, rfl⟩

theorem Returns.epochMs {x : Answer} {u em : Int} (h : Returns zone x u) (hx : x = answer em zone) : em = u := by
  obtain ⟨d, hd, hr⟩ := h
  have hu : answer u zone = .ok (.ok d) := by rw [answer, hd]; rfl
  exact (answer_epochMs (hx.symm.trans hr)).symm.trans (answer_epochMs hu)

theorem bind_ok {X Y : Type} {x : Except HostFault X} {f : X → Except HostFault Y} {y : Y} (h : x.bind f = .ok y) : ∃ v, x = .ok v ∧ f v = .ok y := by
  cases x with
  | error fault => cases h
  | ok v => exact ⟨v, rfl, h⟩

theorem construct_ok (hyear : 1 ≤ c.date.year ∧ c.date.year ≤ 9999) (h : construct writing zone c options = .ok r) :
    InYears (reading zone false c.toMs) ∧ InYears (reading zone true c.toMs) ∧
      let em0 := awareEpochMs (reading zone false c.toMs)
      let em1 := awareEpochMs (reading zone true c.toMs)
      let time := shown c.date.year c.date.month c.date.day c.hour c.minute c.second
      (em0 = em1 ∧ answer em0 zone = .ok r) ∨
        em0 ≠ em1 ∧ ∃ rt0 rt1, localFromEpochMs zone em0 = .ok rt0 ∧ localFromEpochMs zone em1 = .ok rt1 ∧
          (((hms rt0.ms ≠ (c.hour, c.minute, c.second) ∧ hms rt1.ms ≠ (c.hour, c.minute, c.second)) ∧
              gapAnswer writing time zone options em0 em1 = .ok r) ∨
            ¬ (hms rt0.ms ≠ (c.hour, c.minute, c.second) ∧ hms rt1.ms ≠ (c.hour, c.minute, c.second)) ∧
              overlapAnswer writing time zone options em0 em1 = .ok r) := by
  rw [construct_eq hyear] at h
  obtain ⟨utc0, h0, h⟩ := bind_ok h
  obtain ⟨utc1, h1, h⟩ := bind_ok h
  obtain ⟨hyears0, rfl⟩ := toUtc_ok h0
  obtain ⟨hyears1, rfl⟩ := toUtc_ok h1
  refine ⟨hyears0, hyears1, ?_⟩
  split at h
  · rename_i hsame
    exact .inl ⟨hsame, h⟩
  · rename_i hne
    obtain ⟨rt0, hrt0, h⟩ := bind_ok h
    obtain ⟨rt1, hrt1, h⟩ := bind_ok h
    refine .inr ⟨hne, rt0, rt1, hrt0, hrt1, ?_⟩
    split at h
    · exact .inl ⟨‹_›, h⟩
    · exact .inr ⟨‹_›, h⟩

theorem exact_iff {u : Int} (h : InYears u) : Exact u ↔ awareEpochMs u = u := by
  rw [awareEpochMs_eq_iff h, Exact, and_iff_right h]

theorem Exact.eq {u : Int} (h : Exact u) : awareEpochMs u = u := (exact_iff h.1).mp h

theorem construct_once (writing : Writing) (hyear : 1 ≤ c.date.year ∧ c.date.year ≤ 9999) (hsame : reading zone false c.toMs = reading zone true c.toMs)
    (hshown : reading zone false c.toMs ∈ instants zone c.toMs) :
    (∀ options, Returns zone (construct writing zone c options) (reading zone false c.toMs)) ↔ Exact (reading zone false c.toMs) := by
  constructor
  · intro h
    obtain ⟨d, hd, hr⟩ := h {}
    obtain ⟨hyears, -, ⟨-, hanswer⟩ | ⟨hne, -⟩⟩ := construct_ok hyear hr
    · exact (exact_iff hyears).mpr (Returns.epochMs ⟨d, hd, hanswer⟩ rfl)
    · exact absurd (congrArg awareEpochMs hsame) hne
  · intro hexact options
    have hlocal : InYears (reading zone false c.toMs + 1000 * zone.offsetAt (reading zone false c.toMs / 1000)) := by
      have hshown' : reading zone false c.toMs + 1000 * zone.offsetAt (reading zone false c.toMs / 1000) = c.toMs := hshown
      rw [hshown']
      exact toMs_inYears hyear
    have hconstruct : construct writing zone c options = answer (reading zone false c.toMs) zone := by
      rw [construct_eq hyear, toUtc_eq hexact.1, toUtc_eq (hsame ▸ hexact.1), ← hsame]
      exact (if_pos rfl).trans (by rw [hexact.eq])
    rw [hconstruct]
    exact returns_answer hexact.1 hlocal

theorem reading_mod (zone : Zone) (fold : Bool) (localMs : Int) : reading zone fold localMs % 1000 = localMs % 1000 := by
  rw [reading]
  omega

theorem aware_ne {u u' : Int} (hu : InYears u) (hu' : InYears u') (hfar : 1000 ≤ (u - u').natAbs) : awareEpochMs u ≠ awareEpochMs u' := by
  have h := Timestamps.toMs_near (natAbs_of_inYears hu)
  have h' := Timestamps.toMs_near (natAbs_of_inYears hu')
  rw [awareEpochMs, awareEpochMs]
  omega

theorem reading_far {localMs : Int} (hne : zone.offsetOf false (localMs / 1000) ≠ zone.offsetOf true (localMs / 1000)) :
    1000 ≤ (reading zone false localMs - reading zone true localMs).natAbs := by
  rw [reading, reading]
  omega

/-- What the clock shows at an instant. -/
def shownAt (zone : Zone) (u : Int) : Int := u + 1000 * zone.offsetAt (u / 1000)

theorem construct_pair (hyear : 1 ≤ c.date.year ∧ c.date.year ≤ 9999)
    (hne : zone.offsetOf false (c.toMs / 1000) ≠ zone.offsetOf true (c.toMs / 1000)) (h0 : Exact (reading zone false c.toMs))
    (h1 : Exact (reading zone true c.toMs)) (hl0 : InYears (shownAt zone (reading zone false c.toMs)))
    (hl1 : InYears (shownAt zone (reading zone true c.toMs))) :
    construct writing zone c options =
      if (shownAt zone (reading zone false c.toMs) - c.toMs) % msPerDay ≠ 0 ∧ (shownAt zone (reading zone true c.toMs) - c.toMs) % msPerDay ≠ 0
      then gapAnswer writing (shown c.date.year c.date.month c.date.day c.hour c.minute c.second) zone options (reading zone false c.toMs)
        (reading zone true c.toMs)
      else overlapAnswer writing (shown c.date.year c.date.month c.date.day c.hour c.minute c.second) zone options
        (reading zone false c.toMs) (reading zone true c.toMs) := by
  have hdiff := aware_ne h0.1 h1.1 (reading_far hne)
  obtain ⟨rt0, hrt0, hms0⟩ := localFrom_eq h0.1 hl0
  obtain ⟨rt1, hrt1, hms1⟩ := localFrom_eq h1.1 hl1
  have hmod : ∀ fold, shownAt zone (reading zone fold c.toMs) % 1000 = c.toMs % 1000 := by
    intro fold
    have hreading := reading_mod zone fold c.toMs
    rw [shownAt]
    omega
  rw [construct_eq hyear, toUtc_eq h0.1, toUtc_eq h1.1]
  refine (if_neg hdiff).trans ?_
  rw [h0.eq, h1.eq, hrt0, hrt1]
  change ite _ _ _ = _
  rw [hms0, hms1, ← shownAt, ← shownAt]
  simp only [ne_eq, hms_eq_iff (hmod false), hms_eq_iff (hmod true)]

theorem returns_pair {u : Int} (hyear : 1 ≤ c.date.year ∧ c.date.year ≤ 9999)
    (hne : zone.offsetOf false (c.toMs / 1000) ≠ zone.offsetOf true (c.toMs / 1000)) (h : Returns zone (construct writing zone c options) u) :
    let em0 := awareEpochMs (reading zone false c.toMs)
    let em1 := awareEpochMs (reading zone true c.toMs)
    let time := shown c.date.year c.date.month c.date.day c.hour c.minute c.second
    InYears (reading zone false c.toMs) ∧ InYears (reading zone true c.toMs) ∧ InYears (shownAt zone em0) ∧ InYears (shownAt zone em1) ∧
      ((hms (shownAt zone em0) ≠ (c.hour, c.minute, c.second) ∧ hms (shownAt zone em1) ≠ (c.hour, c.minute, c.second) ∧
          Returns zone (gapAnswer writing time zone options em0 em1) u) ∨
        Returns zone (overlapAnswer writing time zone options em0 em1) u) := by
  obtain ⟨d, hd, hr⟩ := h
  obtain ⟨hyears0, hyears1, ⟨hsame, -⟩ | ⟨-, rt0, rt1, hrt0, hrt1, hcases⟩⟩ := construct_ok hyear hr
  · exact absurd hsame (aware_ne hyears0 hyears1 (reading_far hne))
  · obtain ⟨-, hl0, hoffset0, hms0⟩ := localFromEpochMs_eq_ok hrt0
    obtain ⟨-, hl1, hoffset1, hms1⟩ := localFromEpochMs_eq_ok hrt1
    rw [hoffset0] at hms0
    rw [hoffset1] at hms1
    rw [hms0] at hl0
    rw [hms1] at hl1
    refine ⟨hyears0, hyears1, hl0, hl1, ?_⟩
    rcases hcases with ⟨⟨hhms0, hhms1⟩, hanswer⟩ | ⟨-, hanswer⟩
    · rw [hms0] at hhms0
      rw [hms1] at hhms1
      exact .inl ⟨hhms0, hhms1, d, hd, hanswer⟩
    · exact .inr ⟨d, hd, hanswer⟩

theorem not_returns_error {u : Int} {e : TimeError} (h : Returns zone (.ok (.error e)) u) : False := by
  obtain ⟨d, -, hr⟩ := h
  cases hr

theorem not_returns_gap {time : Text} {em0 em1 u : Int} (hforward : options.onInvalid ≠ some (text "shift_forward"))
    (hbackward : options.onInvalid ≠ some (text "shift_backward")) : ¬ Returns zone (gapAnswer writing time zone options em0 em1) u := by
  intro h
  rw [gapAnswer, if_neg hforward, if_neg hbackward] at h
  exact not_returns_error h

theorem not_returns_overlap {time : Text} {em0 em1 u : Int} (hearliest : options.onAmbiguous ≠ some (text "earliest"))
    (hlatest : options.onAmbiguous ≠ some (text "latest")) : ¬ Returns zone (overlapAnswer writing time zone options em0 em1) u := by
  intro h
  rw [overlapAnswer, if_neg hearliest, if_neg hlatest] at h
  exact not_returns_error h

theorem construct_twice (writing : Writing) (hyear : 1 ≤ c.date.year ∧ c.date.year ≤ 9999)
    (hne : zone.offsetOf false (c.toMs / 1000) ≠ zone.offsetOf true (c.toMs / 1000))
    (hshown : ∀ fold, reading zone fold c.toMs ∈ instants zone c.toMs) :
    (∀ options, if options.onAmbiguous = some (text "earliest") then Returns zone (construct writing zone c options) (reading zone false c.toMs)
      else if options.onAmbiguous = some (text "latest") then Returns zone (construct writing zone c options) (reading zone true c.toMs)
      else Refuses zone (construct writing zone c options) "ambiguous") ↔
      Exact (reading zone false c.toMs) ∧ Exact (reading zone true c.toMs) := by
  have hshown' : ∀ fold, shownAt zone (reading zone fold c.toMs) = c.toMs := hshown
  constructor
  · intro h
    have hearliest := h ⟨none, some (text "earliest")⟩
    have hlatest := h ⟨none, some (text "latest")⟩
    rw [if_pos rfl] at hearliest
    rw [if_neg (by decide), if_pos rfl] at hlatest
    obtain ⟨hyears0, hyears1, -, -, ⟨-, -, hgap⟩ | hreturns⟩ := returns_pair hyear hne hearliest
    · exact absurd hgap (not_returns_gap nofun nofun)
    · refine ⟨(exact_iff hyears0).mpr (hreturns.epochMs (if_pos rfl)), ?_⟩
      obtain ⟨-, -, -, -, ⟨-, -, hgap⟩ | hreturns'⟩ := returns_pair hyear hne hlatest
      · exact absurd hgap (not_returns_gap nofun nofun)
      · exact (exact_iff hyears1).mpr (hreturns'.epochMs ((if_neg (by decide)).trans (if_pos rfl)))
  · rintro ⟨h0, h1⟩ options
    have hlocal : ∀ fold, InYears (shownAt zone (reading zone fold c.toMs)) := by
      intro fold
      rw [hshown']
      exact toMs_inYears hyear
    have hconstruct : construct writing zone c options = overlapAnswer writing (shown c.date.year c.date.month c.date.day c.hour c.minute c.second)
        zone options (reading zone false c.toMs) (reading zone true c.toMs) := by
      rw [construct_pair hyear hne h0 h1 (hlocal false) (hlocal true), hshown', sub_self]
      exact if_neg fun h => h.1 rfl
    rw [hconstruct, overlapAnswer]
    split
    · exact returns_answer h0.1 (hlocal false)
    · split
      · exact returns_answer h1.1 (hlocal true)
      · exact ⟨_, rfl, rfl, rfl⟩

theorem construct_never (writing : Writing) (hyear : 1 ≤ c.date.year ∧ c.date.year ≤ 9999)
    (hne : zone.offsetOf false (c.toMs / 1000) ≠ zone.offsetOf true (c.toMs / 1000)) :
    (∀ options, if options.onInvalid = some (text "shift_forward") then
        Returns zone (construct writing zone c options) (reading zone false c.toMs)
      else if options.onInvalid = some (text "shift_backward") then Returns zone (construct writing zone c options) (reading zone true c.toMs)
      else Refuses zone (construct writing zone c options) "out_of_range") ↔
      ∀ fold, Exact (reading zone fold c.toMs) ∧ InYears (shownAt zone (reading zone fold c.toMs)) ∧
        (shownAt zone (reading zone fold c.toMs) - c.toMs) % msPerDay ≠ 0 := by
  have hmod : ∀ fold, shownAt zone (reading zone fold c.toMs) % 1000 = c.toMs % 1000 := by
    intro fold
    have hreading := reading_mod zone fold c.toMs
    rw [shownAt]
    omega
  constructor
  · intro h
    have hforward := h ⟨some (text "shift_forward"), none⟩
    have hbackward := h ⟨some (text "shift_backward"), none⟩
    rw [if_pos rfl] at hforward
    rw [if_neg (by decide), if_pos rfl] at hbackward
    obtain ⟨hyears0, hyears1, hl0, hl1, ⟨hhms0, hhms1, hreturns⟩ | hoverlap⟩ := returns_pair hyear hne hforward
    · have heq0 := hreturns.epochMs (if_pos rfl)
      obtain ⟨-, -, -, -, ⟨-, -, hreturns'⟩ | hoverlap⟩ := returns_pair hyear hne hbackward
      · have heq1 := hreturns'.epochMs ((if_neg (by decide)).trans (if_pos rfl))
        rw [heq0] at hl0 hhms0
        rw [heq1] at hl1 hhms1
        intro fold
        cases fold
        · exact ⟨(exact_iff hyears0).mpr heq0, hl0, fun h => hhms0 ((hms_eq_iff (hmod false)).mpr h)⟩
        · exact ⟨(exact_iff hyears1).mpr heq1, hl1, fun h => hhms1 ((hms_eq_iff (hmod true)).mpr h)⟩
      · exact absurd hoverlap (not_returns_overlap nofun nofun)
    · exact absurd hoverlap (not_returns_overlap nofun nofun)
  · intro h options
    obtain ⟨h0, hl0, hday0⟩ := h false
    obtain ⟨h1, hl1, hday1⟩ := h true
    have hconstruct : construct writing zone c options = gapAnswer writing (shown c.date.year c.date.month c.date.day c.hour c.minute c.second)
        zone options (reading zone false c.toMs) (reading zone true c.toMs) := by
      rw [construct_pair hyear hne h0 h1 hl0 hl1]
      exact if_pos ⟨hday0, hday1⟩
    rw [hconstruct, gapAnswer]
    split
    · exact returns_answer h0.1 hl0
    · split
      · exact returns_answer h1.1 hl1
      · exact ⟨_, rfl, rfl, rfl⟩

end Answering

section Resolving

variable {writing : Writing} {zone : Zone} {c : Civil}

theorem resolved_once (hyear : 1 ≤ c.date.year ∧ c.date.year ≤ 9999) (hzone : Isolated zone)
    (hsame : zone.offsetOf false (c.toMs / 1000) = zone.offsetOf true (c.toMs / 1000)) (honce : instants zone c.toMs = {reading zone false c.toMs}) :
    Resolved writing zone c ↔ Clear zone c.toMs := by
  have hreading : reading zone false c.toMs = reading zone true c.toMs := by rw [reading, reading, hsame]
  have hiff := construct_once writing hyear hreading (honce ▸ rfl)
  constructor
  · intro h
    refine ⟨fun u hu => ?_, fun before after hskips => ?_⟩
    · rw [honce, Set.mem_singleton_iff] at hu
      rw [hu]
      exact hiff.mp (h.once _ honce)
    · obtain ⟨rfl, rfl⟩ := hskips.offsets hzone
      exact absurd hsame hskips.1.ne
  · intro h
    refine ⟨fun u hu options => ?_, fun hnone => ?_, fun u u' hlt htwo => ?_⟩
    · have hu' : reading zone false c.toMs = u := Set.singleton_injective (honce.symm.trans hu)
      rw [← hu']
      exact hiff.mpr (h.shown _ (honce ▸ rfl)) options
    · exact absurd (honce.symm.trans hnone) (Set.singleton_ne_empty _)
    · have hu : u ∈ ({reading zone false c.toMs} : Set Int) := honce ▸ htwo ▸ Set.mem_insert _ _
      have hu' : u' ∈ ({reading zone false c.toMs} : Set Int) := honce ▸ htwo ▸ Set.mem_insert_of_mem _ rfl
      exact absurd (hu.trans hu'.symm) hlt.ne

theorem resolved_twice (hyear : 1 ≤ c.date.year ∧ c.date.year ≤ 9999) (hzone : Isolated zone)
    (hback : zone.offsetOf true (c.toMs / 1000) < zone.offsetOf false (c.toMs / 1000))
    (htwice : instants zone c.toMs = {reading zone false c.toMs, reading zone true c.toMs}) :
    Resolved writing zone c ↔ Clear zone c.toMs := by
  have hlt : reading zone false c.toMs < reading zone true c.toMs := by
    rw [reading, reading]
    omega
  have hshown : ∀ fold, reading zone fold c.toMs ∈ instants zone c.toMs := by
    rw [htwice]
    rintro (_ | _)
    · exact Set.mem_insert _ _
    · exact Set.mem_insert_of_mem _ rfl
  have hiff := construct_twice writing hyear hback.ne' hshown
  constructor
  · intro h
    obtain ⟨h0, h1⟩ := hiff.mp (h.twice _ _ hlt htwice)
    refine ⟨fun u hu => ?_, fun before after hskips => ?_⟩
    · rw [htwice] at hu
      rcases hu with rfl | rfl
      · exact h0
      · exact h1
    · obtain ⟨rfl, rfl⟩ := hskips.offsets hzone
      exact absurd hskips.1 (not_lt.mpr hback.le)
  · intro h
    refine ⟨fun u hu => ?_, fun hnone => ?_, fun u u' hlt' htwo => ?_⟩
    · have h0 : reading zone false c.toMs ∈ ({u} : Set Int) := hu ▸ hshown false
      have h1 : reading zone true c.toMs ∈ ({u} : Set Int) := hu ▸ hshown true
      exact absurd (h0.trans h1.symm) hlt.ne
    · exact absurd (hshown false) (hnone ▸ Set.notMem_empty _)
    · obtain ⟨rfl, rfl⟩ : u = reading zone false c.toMs ∧ u' = reading zone true c.toMs := by
        have hpair := htwice.symm.trans htwo
        have hu : u = reading zone false c.toMs ∨ u = reading zone true c.toMs := by
          have hmem : u ∈ ({u, u'} : Set Int) := Set.mem_insert _ _
          rwa [← hpair] at hmem
        have hu' : u' = reading zone false c.toMs ∨ u' = reading zone true c.toMs := by
          have hmem : u' ∈ ({u, u'} : Set Int) := Set.mem_insert_of_mem _ rfl
          rwa [← hpair] at hmem
        omega
      exact hiff.mpr ⟨h.shown _ (hshown false), h.shown _ (hshown true)⟩

theorem resolved_never (hyear : 1 ≤ c.date.year ∧ c.date.year ≤ 9999) (hzone : Isolated zone)
    (hskips : Skips zone c.toMs (zone.offsetOf false (c.toMs / 1000)) (zone.offsetOf true (c.toMs / 1000))) (hnever : instants zone c.toMs = ∅) :
    Resolved writing zone c ↔ Clear zone c.toMs := by
  have hiff := construct_never writing hyear hskips.1.ne
  have hday : ∀ fold, (shownAt zone (reading zone fold c.toMs) - c.toMs) % msPerDay ≠ 0 ↔
      (zone.offsetAt (c.toMs / 1000 - zone.offsetOf fold (c.toMs / 1000)) - zone.offsetOf fold (c.toMs / 1000)) % 86400 ≠ 0 := by
    intro fold
    have hsecond : reading zone fold c.toMs / 1000 = c.toMs / 1000 - zone.offsetOf fold (c.toMs / 1000) := by
      rw [reading]
      omega
    rw [shownAt, hsecond, reading]
    unfold msPerDay
    omega
  have hshown : ∀ fold, shownAt zone (reading zone fold c.toMs) = c.toMs - 1000 * zone.offsetOf fold (c.toMs / 1000) +
      1000 * zone.offsetAt (c.toMs / 1000 - zone.offsetOf fold (c.toMs / 1000)) := by
    intro fold
    have hsecond : reading zone fold c.toMs / 1000 = c.toMs / 1000 - zone.offsetOf fold (c.toMs / 1000) := by
      rw [reading]
      omega
    rw [shownAt, hsecond, reading]
  constructor
  · intro h
    have hall := hiff.mp (h.never hnever _ _ hskips)
    refine ⟨fun u hu => absurd hu (hnever ▸ Set.notMem_empty _), fun before after hskips' offset hoffset => ?_⟩
    obtain ⟨rfl, rfl⟩ := hskips'.offsets hzone
    obtain ⟨fold, rfl⟩ : ∃ fold, offset = zone.offsetOf fold (c.toMs / 1000) := by
      rcases hoffset with rfl | rfl
      · exact ⟨false, rfl⟩
      · exact ⟨true, rfl⟩
    rw [← hshown, ← hday]
    exact hall fold
  · intro h
    refine ⟨fun u hu => absurd (hu.symm.trans hnever) (Set.singleton_ne_empty _), fun _ before after hskips' => ?_, fun u u' _ htwo => ?_⟩
    · obtain ⟨rfl, rfl⟩ := hskips'.offsets hzone
      refine hiff.mpr fun fold => ?_
      rw [hshown, ← hshown, hday, hshown]
      refine h.skipped _ _ hskips _ ?_
      cases fold
      · exact .inl rfl
      · exact .inr rfl
    · exact absurd (htwo.symm.trans hnever) (Set.insert_nonempty _ _).ne_empty

/-- A civil time is resolved if and only if its readings are exact and a skipped one is told from a repeated one by the time of day. -/
theorem resolved_iff (writing : Writing) (hzone : Isolated zone) (hyear : 1 ≤ c.date.year ∧ c.date.year ≤ 9999) :
    Resolved writing zone c ↔ Clear zone c.toMs := by
  rcases instants_cases hzone c.toMs with ⟨hsame, honce⟩ | ⟨hback, htwice⟩ | ⟨-, hskips, hnever⟩
  · exact resolved_once hyear hzone hsame honce
  · exact resolved_twice hyear hzone hback htwice
  · exact resolved_never hyear hzone hskips hnever

end Resolving

/-! ### Calendar operations -/

section Operations

variable (writing : Writing)

/-- The error of `time_at` about a field. -/
def outOfRange (field : String) (value low high : Int) (supported : Text := []) : TimeError where
  category := "out_of_range"
  message := text field ++ text " " ++ intText value ++ text " out of " ++ supported ++ text "range [" ++ intText low ++ text ", " ++
    intText high ++ text "]"
  field := some field

/-- `time_at`, of integers and with the name of a zone. -/
def timeAt (zones : Text → Option Zone) (year month day hour minute second ms : Int) (zoneName : Text) (options : Options) : Answer :=
  if ¬ (1900 ≤ year ∧ year ≤ 2099) then .ok (.error (outOfRange "year" year 1900 2099 (text "supported ")))
  else if ¬ (1 ≤ month ∧ month ≤ 12) then .ok (.error (outOfRange "month" month 1 12))
  else if ¬ (1 ≤ day ∧ day ≤ daysInMonth year month) then .ok (.error (outOfRange "day" day 1 (daysInMonth year month)))
  else if ¬ (0 ≤ hour ∧ hour ≤ 23) then .ok (.error (outOfRange "hour" hour 0 23))
  else if ¬ (0 ≤ minute ∧ minute ≤ 59) then .ok (.error (outOfRange "minute" minute 0 59))
  else if ¬ (0 ≤ second ∧ second ≤ 59) then .ok (.error (outOfRange "second" second 0 59))
  else if ¬ (0 ≤ ms ∧ ms ≤ 999) then .ok (.error (outOfRange "ms" ms 0 999))
  else match zones zoneName with
    | none => .ok (.error
        { category := "invalid_zone", message := text "unknown timezone: " ++ writing.repr zoneName, zone := some zoneName })
    | some zone => constructAware writing year month day hour minute second ms zone options

/-- `time_add_days`. -/
def addDays (dt : DateTime) (n : Int) : Answer := do
  let l ← localFromEpochMs dt.zone dt.epochMs
  let target := l.ms + n * msPerDay
  if InYears target then
    constructAware writing (dateOf target).year (dateOf target).month (dateOf target).day (hourOf target) (minuteOf target) (secondOf target)
      (milliOf target) dt.zone {}
  else throw .overflow

/-- `time_add_months`. -/
def addMonths (dt : DateTime) (n : Int) : Answer := do
  let l ← localFromEpochMs dt.zone dt.epochMs
  let month := (dateOf l.ms).month - 1 + n
  let year := (dateOf l.ms).year + month / 12
  let month := month % 12 + 1
  let day := min (dateOf l.ms).day (daysInMonth year month)
  constructAware writing year month day (hourOf l.ms) (minuteOf l.ms) (secondOf l.ms) (milliOf l.ms) dt.zone {}

/-- `time_start_of_day`. -/
def startOfDay (dt : DateTime) : Answer := do
  let l ← localFromEpochMs dt.zone dt.epochMs
  constructAware writing (dateOf l.ms).year (dateOf l.ms).month (dateOf l.ms).day 0 0 0 0 dt.zone {}

end Operations

/-- The same time of day `n` months later, on the last day of the month if it has no such day. -/
def monthsLater (ms n : Int) : Civil where
  date :=
    { year := (dateOf ms).year + ((dateOf ms).month - 1 + n) / 12
      month := ((dateOf ms).month - 1 + n) % 12 + 1
      day := min (dateOf ms).day (daysInMonth ((dateOf ms).year + ((dateOf ms).month - 1 + n) / 12) (((dateOf ms).month - 1 + n) % 12 + 1))
      one_le_month := by omega
      month_le := by omega
      one_le_day := le_min (dateOf ms).one_le_day (daysInMonth_pos _ _)
      day_le := min_le_right _ _ }
  hour := hourOf ms
  minute := minuteOf ms
  second := secondOf ms
  milli := milliOf ms
  hour_mem := (Civil.ofMs ms).hour_mem
  minute_mem := (Civil.ofMs ms).minute_mem
  second_mem := (Civil.ofMs ms).second_mem
  milli_mem := (Civil.ofMs ms).milli_mem

/-- The beginning of the day. -/
def midnight (ms : Int) : Civil := ⟨dateOf ms, 0, 0, 0, 0, by decide, by decide, by decide, by decide⟩

section Operations

variable {writing : Writing} {zone : Zone} {c : Civil} {options : Options} {e : TimeError}

theorem construct_error (hzone : Isolated zone) (hyear : 1 ≤ c.date.year ∧ c.date.year ≤ 9999)
    (h : construct writing zone c options = .ok (.error e)) (u : Int) : instants zone c.toMs ≠ {u} := by
  intro honce
  have hsame : reading zone false c.toMs = reading zone true c.toMs := by
    rcases instants_cases hzone c.toMs with ⟨hsame, -⟩ | ⟨hback, htwice⟩ | ⟨-, -, hnever⟩
    · rw [reading, reading, hsame]
    · have h0 : reading zone false c.toMs ∈ instants zone c.toMs := htwice ▸ Set.mem_insert _ _
      have h1 : reading zone true c.toMs ∈ instants zone c.toMs := htwice ▸ Set.mem_insert_of_mem _ rfl
      rw [honce] at h0 h1
      exact h0.trans h1.symm
    · exact absurd (honce.symm.trans hnever) (Set.singleton_ne_empty _)
  obtain ⟨-, -, ⟨-, hanswer⟩ | ⟨hne, -⟩⟩ := construct_ok hyear h
  · rw [answer] at hanswer
    cases hmade : makeDt (awareEpochMs (reading zone false c.toMs)) zone with
    | error fault =>
        rw [hmade] at hanswer
        cases hanswer
    | ok d =>
        rw [hmade] at hanswer
        cases hanswer
  · exact hne (congrArg awareEpochMs hsame)

theorem timeAt_eq {zones : Text → Option Zone} {zoneName : Text} (hknown : zones zoneName = some zone)
    (hyear : 1900 ≤ c.date.year ∧ c.date.year ≤ 2099) :
    timeAt writing zones c.date.year c.date.month c.date.day c.hour c.minute c.second c.milli zoneName options = construct writing zone c options := by
  rw [timeAt, if_neg (not_not.mpr hyear), if_neg (not_not.mpr ⟨c.date.one_le_month, c.date.month_le⟩),
    if_neg (not_not.mpr ⟨c.date.one_le_day, c.date.day_le⟩), if_neg (not_not.mpr c.hour_mem), if_neg (not_not.mpr c.minute_mem),
    if_neg (not_not.mpr c.second_mem), if_neg (not_not.mpr c.milli_mem), hknown]
  rfl

theorem dateOf_year {ms : Int} (h : InYears ms) : 1 ≤ (dateOf ms).year ∧ (dateOf ms).year ≤ 9999 := by
  have hlow : (dateOf minMs).year ≤ (dateOf ms).year := Date.year_mono (by
    rw [dateOf, dateOf, Date.ordinal_ofOrdinal, Date.ordinal_ofOrdinal]
    have := h.1
    unfold msPerDay
    omega)
  have hhigh : (dateOf ms).year ≤ (dateOf maxMs).year := Date.year_mono (by
    rw [dateOf, dateOf, Date.ordinal_ofOrdinal, Date.ordinal_ofOrdinal]
    have := h.2
    unfold msPerDay
    omega)
  have h1 : (dateOf minMs).year = 1 := by decide
  have h9999 : (dateOf maxMs).year = 9999 := by decide
  omega

theorem of_local_ok {dt : DateTime} {f : Local → Answer} {r : Except TimeError DateTime} (h : (localFromEpochMs dt.zone dt.epochMs).bind f = .ok r) :
    ∃ l, localFromEpochMs dt.zone dt.epochMs = .ok l ∧ InYears l.ms ∧ f l = .ok r := by
  obtain ⟨l, hl, hf⟩ := bind_ok h
  exact ⟨l, hl, (localFromEpochMs_eq_ok hl).2.1, hf⟩

theorem addDays_error {dt : DateTime} {n : Int} (hzone : Isolated dt.zone) (h : addDays writing dt n = .ok (.error e)) :
    ∃ l, localFromEpochMs dt.zone dt.epochMs = .ok l ∧ ∀ u, instants dt.zone (l.ms + n * msPerDay) ≠ {u} := by
  obtain ⟨l, hl, -, hconstruct⟩ := of_local_ok h
  dsimp only at hconstruct
  split at hconstruct
  · rename_i hyears
    refine ⟨l, hl, fun u => ?_⟩
    have hne := construct_error (c := Civil.ofMs (l.ms + n * msPerDay)) hzone (dateOf_year hyears) hconstruct u
    rwa [Civil.toMs_ofMs] at hne
  · cases hconstruct

theorem startOfDay_error {dt : DateTime} (hzone : Isolated dt.zone) (h : startOfDay writing dt = .ok (.error e)) :
    ∃ l, localFromEpochMs dt.zone dt.epochMs = .ok l ∧ ∀ u, instants dt.zone (midnight l.ms).toMs ≠ {u} := by
  obtain ⟨l, hl, hyears, hconstruct⟩ := of_local_ok h
  exact ⟨l, hl, construct_error (c := midnight l.ms) hzone (dateOf_year hyears) hconstruct⟩

theorem addMonths_error {dt : DateTime} {n : Int} (hzone : Isolated dt.zone) (h : addMonths writing dt n = .ok (.error e)) :
    ∃ l, localFromEpochMs dt.zone dt.epochMs = .ok l ∧ (1 ≤ (monthsLater l.ms n).date.year ∧ (monthsLater l.ms n).date.year ≤ 9999 →
      ∀ u, instants dt.zone (monthsLater l.ms n).toMs ≠ {u}) := by
  obtain ⟨l, hl, -, hconstruct⟩ := of_local_ok h
  exact ⟨l, hl, fun hyear => construct_error (c := monthsLater l.ms n) hzone hyear hconstruct⟩

end Operations

/-- In a time zone whose transitions are isolated, a civil time is shown once, twice or not at all; it is resolved if and only if its
readings are exact and a skipped one shows other times of day; and no operation reports one that is shown once. -/
theorem civil_time_iff (writing : Writing) {zone : Zone} (hzone : Isolated zone) :
    (∀ localMs, (∃ u, instants zone localMs = {u}) ∨ (∃ u u', u < u' ∧ instants zone localMs = {u, u'}) ∨
      instants zone localMs = ∅ ∧ ∃ before after, Skips zone localMs before after) ∧
    (∀ c : Civil, 1 ≤ c.date.year → c.date.year ≤ 9999 → (Resolved writing zone c ↔ Clear zone c.toMs)) ∧
    (∀ (c : Civil) (zones : Text → Option Zone) (zoneName : Text) (options : Options) (e : TimeError), 1900 ≤ c.date.year → c.date.year ≤ 2099 →
      zones zoneName = some zone →
      timeAt writing zones c.date.year c.date.month c.date.day c.hour c.minute c.second c.milli zoneName options = .ok (.error e) →
        ∀ u, instants zone c.toMs ≠ {u}) ∧
    ∀ (dt : DateTime) (n : Int) (e : TimeError), dt.zone = zone →
      (addDays writing dt n = .ok (.error e) →
        ∃ l, localFromEpochMs zone dt.epochMs = .ok l ∧ ∀ u, instants zone (l.ms + n * msPerDay) ≠ {u}) ∧
      (startOfDay writing dt = .ok (.error e) →
        ∃ l, localFromEpochMs zone dt.epochMs = .ok l ∧ ∀ u, instants zone (midnight l.ms).toMs ≠ {u}) ∧
      (addMonths writing dt n = .ok (.error e) →
        ∃ l, localFromEpochMs zone dt.epochMs = .ok l ∧ (1 ≤ (monthsLater l.ms n).date.year ∧ (monthsLater l.ms n).date.year ≤ 9999 →
          ∀ u, instants zone (monthsLater l.ms n).toMs ≠ {u})) := by
  refine ⟨fun localMs => ?_, fun c hlow hhigh => resolved_iff writing hzone ⟨hlow, hhigh⟩, ?_, ?_⟩
  · rcases instants_cases hzone localMs with ⟨-, honce⟩ | ⟨hback, htwice⟩ | ⟨-, hskips, hnever⟩
    · exact .inl ⟨_, honce⟩
    · exact .inr (.inl ⟨_, _, by omega, htwice⟩)
    · exact .inr (.inr ⟨hnever, _, _, hskips⟩)
  · intro c zones zoneName options e hlow hhigh hknown h
    rw [timeAt_eq hknown ⟨hlow, hhigh⟩] at h
    exact construct_error hzone (by omega) h
  · rintro dt n e rfl
    exact ⟨addDays_error hzone, startOfDay_error hzone, addMonths_error hzone⟩

/-- Apia, which skipped the thirtieth of December of 2011. -/
def apia : Zone := ⟨text "Pacific/Apia", -36000, [(1325239200, 50400)], fun _ => text "+14", fun _ => false, by decide⟩

/-- A host that writes a string as it is. -/
def plainWriting : Writing := ⟨id, text "day is out of range for month"⟩

/-- Noon of the skipped day, in milliseconds: no instant shows it, and it is reported as one that two instants show. -/
theorem skipped_day_ambiguous : Isolated apia ∧ instants apia (Civil.ofMs 1325246400000).toMs = ∅ ∧
    Refuses apia (construct plainWriting apia (Civil.ofMs 1325246400000) {}) "ambiguous" := by
  have hyear : 1 ≤ (Civil.ofMs 1325246400000).date.year ∧ (Civil.ofMs 1325246400000).date.year ≤ 9999 := by decide
  have hzone : Isolated apia := trivial
  refine ⟨hzone, ?_, ?_⟩
  · rcases instants_cases hzone (Civil.ofMs 1325246400000).toMs with ⟨hsame, -⟩ | ⟨hback, -⟩ | ⟨-, -, hnever⟩
    · rw [Civil.toMs_ofMs] at hsame
      exact absurd hsame (by decide)
    · rw [Civil.toMs_ofMs] at hback
      exact absurd hback (by decide)
    · exact hnever
  · rw [construct_pair hyear (by rw [Civil.toMs_ofMs]; decide) (by rw [Civil.toMs_ofMs]; exact ⟨by decide, by decide⟩)
      (by rw [Civil.toMs_ofMs]; exact ⟨by decide, by decide⟩) (by rw [Civil.toMs_ofMs]; decide) (by rw [Civil.toMs_ofMs]; decide),
      if_neg (by rw [Civil.toMs_ofMs]; decide)]
    exact ⟨_, rfl, rfl, rfl⟩

/-- The beginning of 1970 in UTC. -/
theorem epoch_resolved : Resolved plainWriting .utc (Civil.ofMs 0) ∧ ∀ e,
    timeAt plainWriting (fun _ => some .utc) 1970 1 1 0 0 0 0 (text "UTC") {} ≠ .ok (.error e) := by
  have hisolated : Isolated Zone.utc := trivial
  obtain ⟨-, hresolved, htimeAt, -⟩ := civil_time_iff plainWriting hisolated
  have hinstants : instants .utc (Civil.ofMs 0).toMs = {0} := by
    rw [Civil.toMs_ofMs]
    refine Set.ext fun u => ?_
    change u + 1000 * 0 = 0 ↔ u = 0
    omega
  refine ⟨(hresolved (Civil.ofMs 0) (by decide) (by decide)).mpr ⟨fun u hu => ?_, fun before after hskips => ?_⟩, fun e he => ?_⟩
  · rw [hinstants, Set.mem_singleton_iff] at hu
    rw [hu]
    exact ⟨by decide, by decide⟩
  · obtain ⟨-, t, hstep, -⟩ := hskips
    cases hstep
  · exact htimeAt (Civil.ofMs 0) (fun _ => some .utc) (text "UTC") {} e (by decide) (by decide) rfl he 0 hinstants

end Nodus.LocalTimes
