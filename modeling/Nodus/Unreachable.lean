import Nodus.Control
import Nodus.Ownership
import Nodus.Trace
import Nodus.Walks

/-! The pass of the optimizer that removes unreachable code: no run of a program executes an instruction that it removes, and what it keeps
flows as before. -/

namespace Nodus.Optimizer

open Trace

/-! ### The pass -/

section Source

def following (ip codeLen : Nat) : List Nat := if ip + 1 < codeLen then [ip + 1] else []

/-- `next_ips`, with `none` for an operand that is no address. -/
def nextIps (ip codeLen : Nat) : Instr → Option (List Nat)
  | .jump t => t.map fun t => [t]
  | .jumpIfFalse t | .jumpIfTrue t | .iterNext t | .setupTry t _ => t.map fun t => t :: following ip codeLen
  | .ret | .throw | .halt => some []
  | _ => some (following ip codeLen)

/-- The loop of `compute_reachable`, with the top of its stack at the head; `none` if it looks outside the code. -/
def search (code : List Instr) : List Nat → List Nat → Option (List Nat)
  | [], reachable => some reachable
  | ip :: worklist, reachable =>
      if hseen : ip ∈ reachable then search code worklist reachable
      else if hip : ip < code.length then
        match nextIps ip code.length code[ip] with
        | none => none
        | some next => search code ((next.filter (· ∉ ip :: reachable)).reverse ++ worklist) (ip :: reachable)
      else none
termination_by worklist reachable => (Walks.room (List.range code.length) reachable, worklist.length)
decreasing_by
  · exact Prod.Lex.right _ (Nat.lt_succ_self _)
  · exact Prod.Lex.left _ _ (Walks.room_cons_lt (List.mem_range.mpr hip) hseen)

/-- The roots are a set in the source; no order of them changes what is found. -/
def computeReachable (chunk : Chunk) : Option (List Nat) :=
  if chunk.code = [] then some []
  else search chunk.code ((0 :: chunk.functions.map fun f => f.2.addr).filter (· < chunk.code.length)) []

/-- The loop over the old addresses: the new one of each instruction that is kept, and what is kept. -/
def keep (reachable : List Nat) : List Instr → Nat → List (Nat × Nat) → List Instr → List (Nat × Nat) × List Instr
  | [], _, mapping, newCode => (mapping, newCode)
  | instr :: rest, oldIndex, mapping, newCode =>
      if oldIndex ∈ reachable then keep reachable rest (oldIndex + 1) (mapping ++ [(oldIndex, newCode.length)]) (newCode ++ [instr])
      else keep reachable rest (oldIndex + 1) mapping newCode

/-- The address of a `finally` block stays what it was. -/
def remapInstruction (mapping : List (Nat × Nat)) : Instr → Option Instr
  | .jump t => (t.bind (mapping.lookup ·)).map fun t => .jump (some t)
  | .jumpIfFalse t => (t.bind (mapping.lookup ·)).map fun t => .jumpIfFalse (some t)
  | .jumpIfTrue t => (t.bind (mapping.lookup ·)).map fun t => .jumpIfTrue (some t)
  | .iterNext t => (t.bind (mapping.lookup ·)).map fun t => .iterNext (some t)
  | .setupTry t fin => (t.bind (mapping.lookup ·)).map fun t => .setupTry (some t) fin
  | instr => some instr

def moved (info : FunctionInfo) (addr : Nat) : FunctionInfo :=
  { name := info.name, params := info.params, addr, upvalues := info.upvalues, displayName := info.displayName, stepOwner := info.stepOwner }

def removeUnreachable (chunk : Chunk) : Option Chunk := do
  let reachable ← computeReachable chunk
  let kept := keep reachable chunk.code 0 [] []
  let code ← kept.2.mapM (remapInstruction kept.1)
  return ⟨code, chunk.functions.filterMap fun f => (kept.1.lookup f.2.addr).map fun addr => (f.1, moved f.2 addr)⟩

end Source

/-! ### What is reachable -/

section Reachable

variable {chunk : Chunk} {code : List Instr} {reachable reached worklist : List Nat} {ip t k : Nat} {i : Instr}

/-- In the code only where it is taken for reachable. -/
def Live (code : List Instr) (reachable : List Nat) (ip : Nat) : Prop := ip < code.length → ip ∈ reachable

/-- The next addresses of an instruction are in the set. -/
def Flows (code : List Instr) (reachable : List Nat) (ip : Nat) : Prop :=
  ∃ i next, code[ip]? = some i ∧ nextIps ip code.length i = some next ∧ ∀ t ∈ next, t ∈ reachable

theorem search_spec (h : search code worklist reachable = some reached) :
    (∀ ip ∈ worklist ++ reachable, ip ∈ reached) ∧ ∀ ip ∈ reached, ip ∈ reachable ∨ Flows code reached ip := by
  induction worklist, reachable using search.induct code with
  | case1 reachable =>
      rw [search] at h
      cases h
      exact ⟨fun ip hip => hip, fun ip hip => .inl hip⟩
  | case2 ip worklist reachable hseen ih =>
      rw [search, dif_pos hseen] at h
      obtain ⟨hin, hflows⟩ := ih h
      refine ⟨fun t ht => ?_, hflows⟩
      obtain rfl | ht := List.mem_cons.mp ht
      · exact hin t (List.mem_append_right _ hseen)
      · exact hin t ht
  | case3 ip worklist reachable hseen hip hnone =>
      rw [search, dif_neg hseen, dif_pos hip, hnone] at h
      cases h
  | case4 ip worklist reachable hseen hip next hnext ih =>
      rw [search, dif_neg hseen, dif_pos hip, hnext] at h
      obtain ⟨hin, hflows⟩ := ih h
      have hself : ip ∈ reached := hin ip (List.mem_append_right _ List.mem_cons_self)
      have hrest : ∀ t ∈ worklist ++ reachable, t ∈ reached := fun t ht => hin t (by
        obtain ht | ht := List.mem_append.mp ht
        · exact List.mem_append_left _ (List.mem_append_right _ ht)
        · exact List.mem_append_right _ (List.mem_cons_of_mem _ ht))
      refine ⟨List.forall_mem_cons.mpr ⟨hself, hrest⟩, fun t ht => ?_⟩
      obtain ht | ht := hflows t ht
      · obtain rfl | ht := List.mem_cons.mp ht
        · refine .inr ⟨_, next, List.getElem?_eq_getElem hip, hnext, fun u hu => ?_⟩
          by_cases hold : u ∈ t :: reachable
          · exact hin u (List.mem_append_right _ hold)
          · exact hin u (List.mem_append_left _ (List.mem_append_left _ (List.mem_reverse.mpr (List.mem_filter.mpr ⟨hu, by simpa using hold⟩))))
        · exact .inl ht
      · exact .inr ht
  | case5 ip worklist reachable hseen hip =>
      rw [search, dif_neg hseen, dif_neg hip] at h
      cases h

/-- The set has the beginning of the program and those of the functions, and is closed under the flow of control. -/
structure Closed (chunk : Chunk) (reachable : List Nat) : Prop where
  start : Live chunk.code reachable 0
  entry : ∀ f ∈ chunk.functions, Live chunk.code reachable f.2.addr
  flows : ∀ ip ∈ reachable, Flows chunk.code reachable ip

theorem closed_of_computeReachable (h : computeReachable chunk = some reachable) : Closed chunk reachable := by
  rw [computeReachable] at h
  split at h
  · rename_i hnil
    cases h
    have hlive : ∀ ip, Live chunk.code [] ip := fun ip hip => absurd hip (by rw [hnil]; exact Nat.not_lt_zero ip)
    exact ⟨hlive 0, fun f _ => hlive _, nofun⟩
  · obtain ⟨hin, hflows⟩ := search_spec h
    have hroot : ∀ root ∈ 0 :: chunk.functions.map fun f => f.2.addr, Live chunk.code reachable root := fun root hroot hlt =>
      hin root (List.mem_append_left _ (List.mem_filter.mpr ⟨hroot, by simpa using hlt⟩))
    exact ⟨hroot 0 List.mem_cons_self, fun f hf => hroot _ (List.mem_cons_of_mem _ (List.mem_map_of_mem hf)),
      fun ip hip => (hflows ip hip).resolve_left List.not_mem_nil⟩

theorem Closed.live (hc : Closed chunk reachable) (hip : ip ∈ reachable) (hi : chunk.code[ip]? = some i) {next : List Nat}
    (hnext : nextIps ip chunk.code.length i = some next) (ht : t ∈ next) : t ∈ reachable := by
  obtain ⟨i', next', hi', hnext', hin⟩ := hc.flows ip hip
  cases hi'.symm.trans hi
  cases hnext'.symm.trans hnext
  exact hin t ht

theorem Closed.follows (hc : Closed chunk reachable) (hip : ip ∈ reachable) (hi : chunk.code[ip]? = some i)
    (hnext : ∃ before, nextIps ip chunk.code.length i = some (before ++ following ip chunk.code.length)) :
    Live chunk.code reachable (ip + 1) := by
  intro hlt
  obtain ⟨before, hnext⟩ := hnext
  refine hc.live hip hi hnext (List.mem_append_right _ ?_)
  rw [following, if_pos hlt]
  exact List.mem_cons_self

end Reachable

/-! ### Runs -/

section Runs

variable {h : Host} {chunk : Chunk} {reachable : List Nat} {c c' : Ctl h} {i : Instr} {t k : Nat}

/-- The `finally` blocks of what is reachable are taken for reachable as well. -/
def FinallyReached (code : List Instr) (reachable : List Nat) : Prop :=
  ∀ ip ∈ reachable, ∀ handler fin, code[ip]? = some (.setupTry handler (some (some fin))) → fin ≠ 0 → Live code reachable fin

/-- The addresses that an execution context holds are taken for reachable. -/
structure Inside (code : List Instr) (reachable : List Nat) (c : Ctl h) : Prop where
  ip : Live code reachable c.ip
  calls : ∀ f ∈ c.calls, ∀ ip ∈ f.returnIp, Live code reachable ip
  handlers : ∀ handler ∈ c.handlers,
    (∀ ip ∈ handler.handlerIp, Live code reachable ip) ∧ (handler.finallyIp ≠ 0 → Live code reachable handler.finallyIp)

theorem live_of_edge (hc : Closed chunk reachable) (hip : c.ip ∈ reachable) (hi : chunk.code[c.ip]? = some i) (hflow : i.isFlow = true)
    (he : (k, t) ∈ edges chunk.code c.ip i) : Live chunk.code reachable t := by
  have hfollows := hc.follows hip hi
  have htarget : ∀ {target : Target}, target = some t → (∃ rest, nextIps c.ip chunk.code.length i = target.map (· :: rest)) →
      Live chunk.code reachable t := by
    rintro _ rfl ⟨rest, hnext⟩ -
    exact hc.live hip hi hnext List.mem_cons_self
  cases i with
  | jump target =>
      obtain ⟨u, hu, huv⟩ := List.mem_map.mp he
      cases huv
      exact htarget (Option.mem_toList.mp hu) ⟨[], rfl⟩
  | jumpIfFalse target | jumpIfTrue target | iterNext target =>
      obtain he | he := List.mem_cons.mp he
      · cases he
        cases target with
        | none =>
            obtain ⟨i', next, hi', hnext, -⟩ := hc.flows _ hip
            cases hi'.symm.trans hi
            cases hnext
        | some u => exact hfollows ⟨[u], rfl⟩
      · obtain ⟨u, hu, huv⟩ := List.mem_map.mp he
        cases huv
        exact htarget (Option.mem_toList.mp hu) ⟨_, rfl⟩
  | setupTry _ _ | popTry | finallyEnd | throw | ret | halt => cases hflow
  | _ =>
      cases List.mem_singleton.mp he
      exact hfollows ⟨[], rfl⟩

theorem mem_of_dropHandlers {depth : Nat} {hs : List Handler} {handler : Handler} (hmem : handler ∈ dropHandlers depth hs) : handler ∈ hs :=
  (List.dropWhile_sublist _).subset hmem

theorem mem_of_popGate {hs : List Handler} {handler : Handler} (hmem : handler ∈ popGate hs) : handler ∈ hs := by
  unfold popGate at hmem
  split at hmem
  · split at hmem
    · exact List.mem_cons_of_mem _ hmem
    · exact hmem
  · exact hmem

theorem Inside.unwindTo (hin : Inside chunk.code reachable c) (frameDepth stackDepth : Nat) :
    Inside chunk.code reachable (c.unwindTo frameDepth stackDepth) where
  ip := hin.ip
  calls f hf := hin.calls f ((unwindCalls_kept _ _ _).1 f hf)
  handlers handler hmem := hin.handlers handler (mem_of_dropHandlers hmem)

/-- An error is delivered to a handler that was set up, or to the `finally` block of one. -/
theorem Inside.handle (hc : Closed chunk reachable) (hin : Inside chunk.code reachable c) (e : RuntimeError h.Obj) (record : Value h.Obj) :
    Inside chunk.code reachable (c.handle e record) := by
  have hall := hin.handlers
  rw [Ctl.handle]
  generalize c.handlers = hs at hall
  induction hs with
  | nil => exact ⟨hin.ip, hin.calls, List.forall_mem_nil _⟩
  | cons handler rest ih =>
      obtain ⟨hhandler, hrest⟩ := List.forall_mem_cons.mp hall
      have hbelow : Inside chunk.code reachable { c with handlers := rest } := ⟨hin.ip, hin.calls, hrest⟩
      have hunwound := hbelow.unwindTo handler.frameDepth handler.stackDepth
      have hfinally : Live chunk.code reachable handler.finallyIp := by
        by_cases hzero : handler.finallyIp = 0
        · rw [hzero]
          exact hc.start
        · exact hhandler.2 hzero
      have henter : Inside chunk.code reachable (({ c with handlers := rest } : Ctl h).enterFinally e handler) :=
        ⟨hfinally, hunwound.calls, hunwound.handlers⟩
      rw [Ctl.handleAt]
      split
      · exact henter
      · rename_i handlerIp hip
        split
        · split
          · exact ih hrest
          · exact henter
        · refine ⟨hhandler.1 _ hip, hunwound.calls, fun handler' hmem => ?_⟩
          rw [Ctl.enterCatch] at hmem
          dsimp only at hmem
          split at hmem
          · obtain rfl | hmem := List.mem_cons.mp hmem
            · exact ⟨fun _ hip => absurd hip (Option.not_mem_none _), hhandler.2⟩
            · exact hunwound.handlers handler' hmem
          · exact hunwound.handlers handler' hmem

variable (hone : ∀ k, h.chunks k = chunk) (hc : Closed chunk reachable) (hfin : FinallyReached chunk.code reachable)

include hone hc hfin

theorem Inside.next (hin : Inside chunk.code reachable c) (hip : c.ip ∈ reachable) (hi : chunk.code[c.ip]? = some i) (hn : Next c i c') :
    Inside chunk.code reachable c' := by
  have hcode : c.code = chunk.code := congrArg Chunk.code (hone _)
  have hfollows := hc.follows hip hi
  cases hn with
  | flow hflow _ he _ => exact ⟨live_of_edge hc hip hi hflow (hcode ▸ he), hin.calls, hin.handlers⟩
  | call hcall hf _ _ _ =>
      rw [FnRef.info, hone] at hf
      obtain ⟨before, after, hfunctions, -⟩ := List.lookup_eq_some_iff.mp hf
      refine ⟨hc.entry _ (hfunctions ▸ List.mem_append_right _ List.mem_cons_self), List.forall_mem_cons.mpr ⟨?_, hin.calls⟩, hin.handlers⟩
      rintro _ ⟨⟩
      cases i with
      | call | callValue | callMethod => exact hfollows ⟨[], rfl⟩
      | _ => cases hcall
  | setupTry hf =>
      refine ⟨hfollows ⟨[_], rfl⟩, hin.calls, List.forall_mem_cons.mpr ⟨⟨?_, ?_⟩, hin.handlers⟩⟩
      · rintro _ ⟨⟩ -
        exact hc.live hip hi rfl List.mem_cons_self
      · intro hne
        obtain ⟨-, hzero⟩ | rfl := hf
        · exact absurd hzero hne
        · exact hfin _ hip _ _ hi hne
  | popTry hh =>
      have hhandlers := hin.handlers
      rw [hh] at hhandlers
      obtain ⟨hhandler, hrest⟩ := List.forall_mem_cons.mp hhandlers
      refine ⟨?_, hin.calls, hrest⟩
      dsimp only
      split
      · rename_i hne
        exact hhandler.2 hne
      · exact hfollows ⟨[], rfl⟩
  | deferReturn _ _ hh _ hf =>
      have hhandlers := hin.handlers
      rw [hh] at hhandlers
      obtain ⟨hhandler, hrest⟩ := List.forall_mem_cons.mp hhandlers
      exact ⟨hhandler.2 hf, hin.calls, hrest⟩
  | ret _ hcalls _ | performReturn _ _ hcalls =>
      have hall := hin.calls
      rw [hcalls] at hall
      obtain ⟨hreturn, hrest⟩ := List.forall_mem_cons.mp hall
      exact ⟨hreturn _ rfl, hrest, fun handler hmem => hin.handlers handler (by
        first | exact mem_of_dropHandlers hmem | exact mem_of_popGate (mem_of_dropHandlers hmem))⟩
  | finallyEnd => exact ⟨hfollows ⟨[], rfl⟩, hin.calls, fun handler hmem => hin.handlers handler (mem_of_popGate hmem)⟩

theorem Inside.moves (hin : c.phase = .aborted ∨ Inside chunk.code reachable c) (hm : Moves c c') :
    c'.phase = .aborted ∨ Inside chunk.code reachable c' := by
  have hcode : c.code = chunk.code := congrArg Chunk.code (hone _)
  have hlive : ∀ {p : Phase h.Obj}, c.phase = p → p ≠ .aborted → Inside chunk.code reachable c :=
    fun hp hne => hin.resolve_left fun haborted => hne (hp.symm.trans haborted)
  have hreached : ∀ {i}, Inside chunk.code reachable c → c.code[c.ip]? = some i → c.ip ∈ reachable ∧ chunk.code[c.ip]? = some i := by
    intro i hin hi
    rw [hcode] at hi
    exact ⟨hin.ip (List.getElem?_eq_some_iff.mp hi).1, hi⟩
  cases hm with
  | next hp hi hn =>
      have hin := hlive hp nofun
      obtain ⟨hip, hi⟩ := hreached hin hi
      exact .inr (hin.next hone hc hfin hip hi hn)
  | raise hp hi hr record =>
      have hin := hlive hp nofun
      refine .inr (Inside.handle hc ?_ _ record)
      cases hr with
      | operands | again => exact ⟨hin.ip, hin.calls, hin.handlers⟩
      | noFrame => exact ⟨hin.ip, hin.calls, fun handler hmem => hin.handlers handler (mem_of_popGate hmem)⟩
  | stop hp hi hs =>
      have hin := hlive hp nofun
      obtain ⟨hip, hi⟩ := hreached hin hi
      cases hs with
      | suspend hflow _ he _ _ => exact .inr ⟨live_of_edge hc hip hi hflow (hcode ▸ he), hin.calls, hin.handlers⟩
      | halt => exact .inr ⟨hin.ip, hin.calls, hin.handlers⟩
      | abort => exact .inl rfl
      | ret _ hcalls _ | performReturn _ _ hcalls =>
          have hall := hin.calls
          rw [hcalls] at hall
          exact .inr ⟨hin.ip, (List.forall_mem_cons.mp hall).2, fun handler hmem => hin.handlers handler (by
            first | exact mem_of_dropHandlers hmem | exact mem_of_popGate (mem_of_dropHandlers hmem))⟩
  | offEnd hp _ | preempt hp | resume hp | deliver hp _ _ =>
      have hin := hlive hp nofun
      exact .inr ⟨hin.ip, hin.calls, hin.handlers⟩
  | fail hp e record =>
      have hin := hlive hp nofun
      have hrunning : Inside chunk.code reachable { c with phase := .running } := ⟨hin.ip, hin.calls, hin.handlers⟩
      exact .inr (hrunning.handle hc e record)
  | cancel hp _ e record =>
      have hin := hlive hp nofun
      have hcancelling : Inside chunk.code reachable { c with phase := .running, cancelling := true } := ⟨hin.ip, hin.calls, hin.handlers⟩
      exact .inr (hcancelling.handle hc e record)

end Runs

/-- Where a program starts, or a closure that a builtin or a coroutine runs. -/
structure Starts {h : Host} (s : State h) : Prop where
  ip : s.ip = 0 ∨ ∃ (fn : FnRef) (info : FunctionInfo), fn.info h = some info ∧ s.ip = info.addr
  frames : ∀ f ∈ s.frames, f.returnIp = none
  handlers : s.handlerStack = []

/-- In every run of a program that is one chunk, each instruction that is executed is one that the pass keeps, if the `finally` blocks of what
it keeps are kept as well. -/
theorem unreachable_never_runs {h : Host} {chunk : Chunk} {reachable : List Nat} (hone : ∀ k, h.chunks k = chunk)
    (hreachable : computeReachable chunk = some reachable) (hfin : FinallyReached chunk.code reachable) {tr : Nat → State h} {n : Nat}
    (h0 : Starts (tr 0)) (hr : Run Step tr n) :
    ∀ j ≤ n, (tr j).phase = .running → ∀ i, (tr j).code[(tr j).ip]? = some i → (tr j).ip ∈ reachable := by
  have hc := closed_of_computeReachable hreachable
  have hstart : Inside chunk.code reachable (tr 0).ctl := by
    refine ⟨?_, ?_, ?_⟩
    · obtain hzero | ⟨fn, info, hinfo, haddr⟩ := h0.ip
      · rw [show (tr 0).ctl.ip = 0 from hzero]
        exact hc.start
      · rw [FnRef.info, hone] at hinfo
        obtain ⟨before, after, hfunctions, -⟩ := List.lookup_eq_some_iff.mp hinfo
        have hentry := hc.entry (fn.name, info) (hfunctions ▸ List.mem_append_right _ List.mem_cons_self)
        rwa [← haddr] at hentry
    · intro f hf ip hip
      obtain ⟨g, hg, rfl⟩ := List.mem_map.mp hf
      cases (h0.frames g hg).symm.trans hip
    · intro handler hmem
      rw [show (tr 0).ctl.handlers = [] from h0.handlers] at hmem
      cases hmem
  intro j hj hrunning i hi
  have hkept := hr.keeps (P := fun _ s => s.phase = .aborted ∨ Inside chunk.code reachable s.ctl) (.inr hstart)
    (fun k _ _ hin hstep => Inside.moves hone hc hfin hin hstep.moves) j (Nat.zero_le j) hj
  have hin := hkept.resolve_left fun haborted => by cases hrunning.symm.trans haborted
  have hcode : (tr j).code = chunk.code := congrArg Chunk.code (hone _)
  exact hin.ip (List.getElem?_eq_some_iff.mp (hcode ▸ hi)).1

/-- A program that jumps over an instruction. -/
def jumpsOver : Chunk := ⟨[.jump (some 2), .halt, .pushConst .nil, .halt], []⟩

theorem reachable_jumpsOver : computeReachable jumpsOver = some [3, 2, 0] := by
  simp [computeReachable, jumpsOver, search, nextIps, following]

def jumpsOverRun : Nat → State (Host.modules fun _ => jumpsOver) := iterate execute (State.main (.ofChunk 0) ⟨[], ()⟩)

theorem jumpsOver_runs : Run Step jumpsOverRun 3 ∧ ∀ j ≤ 3, (jumpsOverRun j).phase = .running →
    ∀ i, (jumpsOverRun j).code[(jumpsOverRun j).ip]? = some i → (jumpsOverRun j).ip ∈ [3, 2, 0] := by
  have hr : Run Step jumpsOverRun 3 := run_execute (by decide)
  have hfin : FinallyReached jumpsOver.code [3, 2, 0] := by
    intro ip hip handler fin hi
    simp only [List.mem_cons, List.not_mem_nil, or_false] at hip
    obtain rfl | rfl | rfl := hip <;> cases hi
  exact ⟨hr, unreachable_never_runs (fun _ => rfl) reachable_jumpsOver hfin ⟨.inl rfl, List.forall_mem_nil _, rfl⟩ hr⟩

/-! ### What is kept -/

section Kept

variable {chunk : Chunk} {code rest newCode : List Instr} {reachable : List Nat} {mapping : List (Nat × Nat)} {ip k : Nat} {i : Instr}

/-- How many instructions before this one are kept. -/
def position (reachable : List Nat) (ip : Nat) : Nat := ((List.range ip).filter (· ∈ reachable)).length

theorem position_succ (reachable : List Nat) (ip : Nat) :
    position reachable (ip + 1) = position reachable ip + if ip ∈ reachable then 1 else 0 := by
  rw [position, List.range_succ, List.filter_append, List.length_append, position]
  split
  · rename_i hmem
    rw [List.filter_cons_of_pos (by simpa using hmem)]
    rfl
  · rename_i hmem
    rw [List.filter_cons_of_neg (by simpa using hmem)]
    rfl

theorem position_lt (hip : ip ∈ reachable) (hlt : ip < k) : position reachable ip < position reachable k := by
  induction k with
  | zero => exact absurd hlt (Nat.not_lt_zero ip)
  | succ k ih =>
      have hsucc := position_succ reachable k
      obtain hlt | rfl := Nat.lt_succ_iff_lt_or_eq.mp hlt
      · have := ih hlt
        omega
      · rw [if_pos hip] at hsucc
        omega

/-- What the loop has got when it stands before an old address. -/
structure Kept (code : List Instr) (reachable : List Nat) (k : Nat) (mapping : List (Nat × Nat)) (newCode : List Instr) : Prop where
  entries : ∀ ip, mapping.lookup ip = if ip < k ∧ ip ∈ reachable then some (position reachable ip) else none
  length : newCode.length = position reachable k
  instrs : ∀ ip < k, ip ∈ reachable → newCode[position reachable ip]? = code[ip]?
  only : ∀ i ∈ newCode, ∃ ip ∈ reachable, code[ip]? = some i

theorem keep_kept (h : Kept code reachable k mapping newCode) (hrest : code.drop k = rest) :
    Kept code reachable (k + rest.length) (keep reachable rest k mapping newCode).1 (keep reachable rest k mapping newCode).2 := by
  induction rest generalizing k mapping newCode with
  | nil => exact h
  | cons instr rest ih =>
      have hinstr : code[k]? = some instr := by
        have hhead := congrArg List.head? hrest
        rwa [List.head?_drop] at hhead
      have htail : code.drop (k + 1) = rest := by rw [← List.drop_drop, hrest, List.drop_one, List.tail_cons]
      have hsucc := position_succ reachable k
      rw [List.length_cons, show k + (rest.length + 1) = k + 1 + rest.length by omega, keep]
      split
      · rename_i hmem
        rw [if_pos hmem] at hsucc
        refine ih ⟨fun ip => ?_, by rw [List.length_append, h.length, hsucc]; rfl, fun ip hlt hip => ?_, fun i hi => ?_⟩ htail
        · have hlast : ip ≠ k → [(k, position reachable k)].lookup ip = none := fun hne => by
            rw [List.lookup_cons, beq_eq_false_iff_ne.mpr hne]
            rfl
          rw [List.lookup_append, h.entries, h.length]
          obtain hlt | rfl | hgt := Nat.lt_trichotomy ip k
          · by_cases hip : ip ∈ reachable
            · rw [if_pos ⟨hlt, hip⟩, if_pos ⟨by omega, hip⟩]
              rfl
            · rw [if_neg fun hboth => hip hboth.2, if_neg fun hboth => hip hboth.2, hlast (Nat.ne_of_lt hlt)]
              rfl
          · rw [if_neg fun hboth => Nat.lt_irrefl _ hboth.1, if_pos ⟨by omega, hmem⟩]
            simp
          · rw [if_neg fun hboth => Nat.lt_asymm hboth.1 hgt, if_neg fun hboth => by omega, hlast (Nat.ne_of_gt hgt)]
            rfl
        · obtain hlt | rfl := Nat.lt_succ_iff_lt_or_eq.mp hlt
          · rw [List.getElem?_append_left (by rw [h.length]; exact position_lt hip hlt), h.instrs ip hlt hip]
          · rw [← h.length, List.getElem?_concat_length, hinstr]
        · obtain hi | hi := List.mem_append.mp hi
          · exact h.only i hi
          · exact ⟨k, hmem, by rw [hinstr, List.mem_singleton.mp hi]⟩
      · rename_i hmem
        rw [if_neg hmem] at hsucc
        refine ih ⟨fun ip => ?_, h.length.trans hsucc.symm, fun ip hlt hip => ?_, h.only⟩ htail
        · have hbounds : ip < k ∧ ip ∈ reachable ↔ ip < k + 1 ∧ ip ∈ reachable :=
            ⟨fun hboth => ⟨by omega, hboth.2⟩, fun hboth => ⟨Nat.lt_of_le_of_ne (by omega) fun heq => hmem (heq ▸ hboth.2), hboth.2⟩⟩
          simp only [h.entries, hbounds]
        · exact h.instrs ip (Nat.lt_of_le_of_ne (by omega) fun heq => hmem (heq ▸ hip)) hip

/-- The instruction with its address moved. -/
def retarget (f : Nat → Nat) : Instr → Instr
  | .jump t => .jump (t.map f)
  | .jumpIfFalse t => .jumpIfFalse (t.map f)
  | .jumpIfTrue t => .jumpIfTrue (t.map f)
  | .iterNext t => .iterNext (t.map f)
  | .setupTry t fin => .setupTry (t.map f) fin
  | i => i

theorem remapInstruction_eq (hc : Closed chunk reachable) (hmap : ∀ t ∈ reachable, mapping.lookup t = some (position reachable t))
    (hip : ip ∈ reachable) (hi : chunk.code[ip]? = some i) : remapInstruction mapping i = some (retarget (position reachable) i) := by
  obtain ⟨i', next, hi', hnext, hin⟩ := hc.flows ip hip
  cases hi'.symm.trans hi
  cases i with
  | jump target | jumpIfFalse target | jumpIfTrue target | iterNext target | setupTry target _ =>
      cases target with
      | none => cases hnext
      | some t =>
          cases hnext
          simp only [remapInstruction, Option.bind_some, hmap t (hin t List.mem_cons_self)]
          rfl
  | _ => rfl

theorem following_position (hip : ip ∈ reachable) (hlt : ip < code.length) (hnext : ∀ t ∈ following ip code.length, t ∈ reachable) :
    following (position reachable ip) (position reachable code.length) = (following ip code.length).map (position reachable) := by
  have hsucc := position_succ reachable ip
  rw [if_pos hip] at hsucc
  unfold following at hnext ⊢
  by_cases hlast : ip + 1 < code.length
  · rw [if_pos hlast] at hnext
    have hbefore := position_lt (hnext _ List.mem_cons_self) hlast
    rw [if_pos hlast, if_pos (hsucc ▸ hbefore), List.map_singleton, hsucc]
  · rw [if_neg hlast, show code.length = ip + 1 by omega, if_neg (by omega)]
    rfl

theorem nextIps_retarget (hip : ip ∈ reachable) (hi : code[ip]? = some i) {next : List Nat} (hnext : nextIps ip code.length i = some next)
    (hin : ∀ t ∈ next, t ∈ reachable) :
    nextIps (position reachable ip) (position reachable code.length) (retarget (position reachable) i) = some (next.map (position reachable)) := by
  have hfollowing := following_position hip (List.getElem?_eq_some_iff.mp hi).1
  cases i with
  | jump target =>
      cases target with
      | none => cases hnext
      | some t =>
          cases hnext
          rfl
  | jumpIfFalse target | jumpIfTrue target | iterNext target | setupTry target _ =>
      cases target with
      | none => cases hnext
      | some t =>
          cases hnext
          exact congrArg (fun after => some (position reachable t :: after)) (hfollowing fun u hu => hin u (List.mem_cons_of_mem _ hu))
  | ret | throw | halt =>
      cases hnext
      rfl
  | _ =>
      cases hnext
      exact congrArg some (hfollowing hin)

theorem mapM_some {X Y : Type} {f : X → Option Y} {g : X → Y} {l : List X} (h : ∀ x ∈ l, f x = some (g x)) : l.mapM f = some (l.map g) := by
  induction l with
  | nil => rfl
  | cons x l ih =>
      obtain ⟨hx, hl⟩ := List.forall_mem_cons.mp h
      rw [List.mapM_cons, hx, ih hl]
      rfl

/-- The pass goes through, and each instruction that it keeps goes on to the new addresses of the instructions to which it went on, as each
function begins at its new address. -/
theorem removeUnreachable_flows (hreachable : computeReachable chunk = some reachable) :
    ∃ kept, removeUnreachable chunk = some kept ∧
      (∀ ip ∈ reachable, ∃ i next, chunk.code[ip]? = some i ∧ nextIps ip chunk.code.length i = some next ∧
        kept.code[position reachable ip]? = some (retarget (position reachable) i) ∧
        nextIps (position reachable ip) kept.code.length (retarget (position reachable) i) = some (next.map (position reachable))) ∧
      ∀ f ∈ chunk.functions, f.2.addr < chunk.code.length → (f.1, moved f.2 (position reachable f.2.addr)) ∈ kept.functions := by
  have hc := closed_of_computeReachable hreachable
  have hkept : Kept chunk.code reachable chunk.code.length (keep reachable chunk.code 0 [] []).1 (keep reachable chunk.code 0 [] []).2 := by
    have h0 : Kept chunk.code reachable 0 [] [] :=
      ⟨fun ip => (if_neg fun hboth => Nat.not_lt_zero ip hboth.1).symm, rfl, fun ip hlt => absurd hlt (Nat.not_lt_zero ip), nofun⟩
    have hall := keep_kept h0 (List.drop_zero (l := chunk.code))
    rwa [Nat.zero_add] at hall
  have hlt : ∀ ip ∈ reachable, ip < chunk.code.length := fun ip hip => by
    obtain ⟨i, next, hi, -⟩ := hc.flows ip hip
    exact (List.getElem?_eq_some_iff.mp hi).1
  have hmap : ∀ ip ∈ reachable, (keep reachable chunk.code 0 [] []).1.lookup ip = some (position reachable ip) := fun ip hip => by
    rw [hkept.entries, if_pos ⟨hlt ip hip, hip⟩]
  have hcode : (keep reachable chunk.code 0 [] []).2.mapM (remapInstruction (keep reachable chunk.code 0 [] []).1) =
      some ((keep reachable chunk.code 0 [] []).2.map (retarget (position reachable))) := mapM_some fun i hi => by
    obtain ⟨ip, hip, hat⟩ := hkept.only i hi
    exact remapInstruction_eq hc hmap hip hat
  have hremoved : removeUnreachable chunk = some ⟨(keep reachable chunk.code 0 [] []).2.map (retarget (position reachable)),
      chunk.functions.filterMap fun f => ((keep reachable chunk.code 0 [] []).1.lookup f.2.addr).map fun addr => (f.1, moved f.2 addr)⟩ := by
    rw [removeUnreachable, hreachable]
    change ((keep reachable chunk.code 0 [] []).2.mapM (remapInstruction (keep reachable chunk.code 0 [] []).1)).bind _ = _
    rw [hcode]
    rfl
  refine ⟨_, hremoved, fun ip hip => ?_, fun f hf haddr => ?_⟩
  · obtain ⟨i, next, hi, hnext, hin⟩ := hc.flows ip hip
    refine ⟨i, next, hi, hnext, ?_, ?_⟩
    · rw [List.getElem?_map, hkept.instrs ip (hlt ip hip) hip, hi]
      rfl
    · rw [List.length_map, hkept.length]
      exact nextIps_retarget hip hi hnext hin
  · exact List.mem_filterMap.mpr ⟨f, hf, by rw [hmap _ (hc.entry f hf haddr)]; rfl⟩

end Kept

theorem jumpsOver_flows : ∃ kept, removeUnreachable jumpsOver = some kept ∧ kept.code[0]? = some (.jump (some 1)) := by
  obtain ⟨kept, hkept, hflows, -⟩ := removeUnreachable_flows reachable_jumpsOver
  obtain ⟨i, next, hi, -, hat, -⟩ := hflows 0 (by decide)
  cases hi
  exact ⟨kept, hkept, hat⟩

end Nodus.Optimizer
