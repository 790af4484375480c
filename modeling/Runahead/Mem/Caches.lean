import Mathlib.Logic.Function.Basic
import Runahead.DynInst
import Runahead.Library.Transition
import Runahead.Mem.Mshr

/-!
# Data requests in a two-level cache hierarchy

The load/store queue records the requests of each instruction. A request that misses in
the data cache joins the register of its block; when the request of a register reaches
the second-level cache and misses there, the instructions of the register are flagged,
and so are those that join later. The flag is reset with the last response.

The registers are modelled at both levels, with everything that decides which targets
wait for which request. What the caches contain is left open: whether an access is
satisfied is part of the event.
-/

set_option autoImplicit false

namespace Runahead.Mem

open Library List Function

inductive Level where
  | l1
  | l2
  deriving DecidableEq, Repr

/-- Where a request is, seen from the CPU. -/
inductive Stage where
  | fresh
  | created
  /-- In a register of the data cache. -/
  | waiting (slot : Nat)
  /-- The response is on its way. -/
  | returning
  | done
  deriving DecidableEq, Repr

/-- Where a request of the data cache is, seen from the second-level cache. -/
inductive L2Stage where
  | notYet
  | waiting (slot : Nat)
  | answered
  deriving DecidableEq, Repr

structure CacheConfig where
  l1Mshrs : Nat
  l2Mshrs : Nat
  deriving DecidableEq, Repr

structure Caches where
  missedInL2 : Nat → Bool := fun _ => false
  outstandingReqs : Nat → List Request := fun _ => []
  triggeredRunahead : Nat → Bool := fun _ => false
  isExecuted : Nat → Bool := fun _ => false
  isSquashed : Nat → Bool := fun _ => false
  stage : Request → Stage := fun _ => .fresh
  l2Stage : Request → L2Stage := fun _ => .notYet
  /-- The registers that a request has been put into. -/
  mshrs : Request → List (Level × Nat) := fun _ => []
  l1 : Nat → Mshr := fun _ => {}
  l2 : Nat → Mshr := fun _ => {}
  /-- The request in service for the register has missed in the second-level cache. -/
  serviceMissed : Nat → Bool := fun _ => false

inductive CacheEvent where
  /-- The load/store queue makes a request for an instruction. -/
  | addReq (req : Request)
  | execute (inst : Nat)
  | squash (inst : Nat)
  /-- Commit enters runahead mode with the instruction at the head. -/
  | enterRunahead (inst : Nat)
  /-- The data cache satisfies the request, or lets an uncacheable write pass. -/
  | hit (req : Request)
  /-- The data cache does not; `slot` is the free register to use if there is none for the block. -/
  | miss (target : Target) (slot : Nat)
  | send (slot : Nat) (pendingModifiedResp isForward : Bool)
  /-- The request of a register of the data cache reaches the second-level cache. -/
  | l2Hit (slot : Nat)
  | l2Miss (slot : Nat) (needsWritable : Bool) (l2Slot : Nat)
  /-- A request from elsewhere misses in the second-level cache. -/
  | l2Other (target : Target) (l2Slot : Nat)
  | l2Send (l2Slot : Nat) (pendingModifiedResp isForward : Bool)
  /-- A prefetch of the second-level cache is not needed any more. -/
  | l2Drop (l2Slot : Nat)
  | snoop (slot : Nat) (packet : SnoopPacket)
  | l2Snoop (l2Slot : Nat) (packet : SnoopPacket)
  /-- The response to the request of a register. -/
  | l2Response (l2Slot : Nat) (response : Response)
  | response (slot : Nat) (response : Response)
  /-- The response reaches the load/store queue. -/
  | recvTimingResp (req : Request)
  deriving DecidableEq, Repr

def findMatch (count : Nat) (mshrs : Nat → Mshr) (block : Nat) : Option Nat :=
  (List.range count).find? fun slot =>
    (mshrs slot).isAllocated && !(mshrs slot).isUncacheable && (mshrs slot).block == block

/-- What `handleTimingReqMiss` changes: one register, and perhaps the flag of the instruction. -/
structure MissResult where
  slot : Nat
  mshr : Mshr
  missedInL2 : Nat → Bool

def handleTimingReqMiss (count : Nat) (mshrs : Nat → Mshr) (missedInL2 : Nat → Bool)
    (target : Target) (free : Nat) : Option MissResult :=
  -- Uncacheable accesses always use a register of their own.
  match if target.req.isUncacheable then none else findMatch count mshrs target.req.block with
  | some slot =>
    let mshr := (mshrs slot).allocateTarget target
    match target.req.inst with
    | some inst =>
      let missed := mshr.hasMissedInL2 missedInL2
      some
        { slot
          mshr := { mshr with missedInL2 := missed }
          missedInL2 := fun other => missedInL2 other || missed && other == inst }
    | none => some { slot, mshr, missedInL2 }
  | none =>
    if free < count && !(mshrs free).isAllocated then
      some
        { slot := free
          mshr := (mshrs free).allocate target.req.block target
          missedInL2 }
    else none

namespace Caches

variable (state : Caches) {next : Caches} {config : CacheConfig}

def mshr : Level × Nat → Mshr
  | (.l1, slot) => state.l1 slot
  | (.l2, slot) => state.l2 slot

def request (slot : Nat) : Option Request :=
  (state.l1 slot).targets.head?.map (·.req)

def isLive (req : Request) : Bool :=
  req.inst.any fun inst => !state.isExecuted inst && !state.isSquashed inst

/-- `recvTimingReq` of the second-level cache: the flags after a miss of the request. -/
def markMissed (req : Request) : Nat → Bool :=
  if state.isLive req then
    (state.mshrs req).foldl (fun missed mshr => (state.mshr mshr).markTargetsMissedInL2 missed)
      state.missedInL2
  else state.missedInL2

def setMshr (req : Request) (mshr : Level × Nat) : Request → List (Level × Nat) :=
  if req.isUncacheable then state.mshrs
  else update state.mshrs req (mshr :: state.mshrs req)

/-- `setTriggeredRunahead`; `none` is its assertion. -/
def setTriggeredRunahead (inst : Nat) : Option Caches :=
  if (state.outstandingReqs inst).isEmpty then none
  else some { state with triggeredRunahead := update state.triggeredRunahead inst true }

/-- Requests of instructions come from the load/store queue; others are made where they are
needed, and only if there is no register for the block yet. -/
def mayMiss (config : CacheConfig) (target : Target) : Bool :=
  match target.req.inst with
  | some _ => target.source == .fromCPU && state.stage target.req == .created
  | none => target.waits && !target.req.isUncacheable && state.stage target.req == .fresh &&
      (findMatch config.l1Mshrs state.l1 target.req.block).isNone

def completeReq (req : Request) (inst : Nat) : Caches :=
  let left := reqCompleted req (state.outstandingReqs inst)
  { state with
    stage := update state.stage req .done
    outstandingReqs := update state.outstandingReqs inst left
    missedInL2 := if left.isEmpty then update state.missedInL2 inst false
      else state.missedInL2 }

def step (config : CacheConfig) (state : Caches) : CacheEvent → Option Caches
  | .addReq req => do
      let inst ← req.inst
      if state.stage req == .fresh then
        some { state with
          stage := update state.stage req .created
          outstandingReqs := update state.outstandingReqs inst
            (state.outstandingReqs inst ++ [req]) }
      else none
  | .execute inst => some { state with isExecuted := update state.isExecuted inst true }
  | .squash inst => some { state with isSquashed := update state.isSquashed inst true }
  | .enterRunahead inst => if state.missedInL2 inst then state.setTriggeredRunahead inst else none
  | .hit req =>
    if state.stage req == .created && req.inst.isSome then
      some { state with stage := update state.stage req .returning }
    else none
  | .miss target slot =>
    if state.mayMiss config target then
      (handleTimingReqMiss config.l1Mshrs state.l1 state.missedInL2 target slot).map fun result =>
        { state with
          stage := update state.stage target.req (.waiting result.slot)
          mshrs := state.setMshr target.req (.l1, result.slot)
          l1 := update state.l1 result.slot result.mshr
          missedInL2 := result.missedInL2 }
    else none
  | .send slot pendingModifiedResp isForward =>
    if (state.l1 slot).isAllocated && !(state.l1 slot).inService then
      some { state with
        l1 := update state.l1 slot ((state.l1 slot).markInService pendingModifiedResp isForward) }
    else none
  | .l2Hit slot => do
      let req ← state.request slot
      if (state.l1 slot).inService && state.l2Stage req == .notYet then
        some { state with l2Stage := update state.l2Stage req .answered }
      else none
  | .l2Miss slot needsWritable l2Slot => do
      let req ← state.request slot
      if (state.l1 slot).inService && state.l2Stage req == .notYet then
        (handleTimingReqMiss config.l2Mshrs state.l2 (state.markMissed req)
            ⟨req, .fromCPU, needsWritable⟩ l2Slot).map fun result =>
          { state with
            l2Stage := update state.l2Stage req (.waiting result.slot)
            mshrs := state.setMshr req (.l2, result.slot)
            l2 := update state.l2 result.slot result.mshr
            missedInL2 := result.missedInL2
            serviceMissed := update state.serviceMissed slot true }
      else none
  | .l2Other target l2Slot =>
    if target.req.inst.isNone then
      (handleTimingReqMiss config.l2Mshrs state.l2 state.missedInL2 target l2Slot).map
        fun result => { state with l2 := update state.l2 result.slot result.mshr }
    else none
  | .l2Send l2Slot pendingModifiedResp isForward =>
    if (state.l2 l2Slot).isAllocated && !(state.l2 l2Slot).inService then
      some { state with
        l2 := update state.l2 l2Slot
          ((state.l2 l2Slot).markInService pendingModifiedResp isForward) }
    else none
  | .l2Drop l2Slot =>
    if (state.l2 l2Slot).targets.head?.any (·.source == .fromPrefetcher) &&
        !(state.l2 l2Slot).inService then
      some { state with
        l2 := update state.l2 l2Slot (state.l2 l2Slot).forceDeallocateTarget }
    else none
  | .snoop slot packet =>
    some { state with l1 := update state.l1 slot ((state.l1 slot).handleSnoop packet) }
  | .l2Snoop l2Slot packet =>
    some { state with
      l2 := update state.l2 l2Slot ((state.l2 l2Slot).handleSnoop packet) }
  | .l2Response l2Slot response =>
    if (state.l2 l2Slot).inService then
      some { state with
        l2 := update state.l2 l2Slot ((state.l2 l2Slot).recvTimingResp response).2
        l2Stage := fun req =>
          if state.l2Stage req = .waiting l2Slot ∧ req ∈ (state.l2 l2Slot).served response then
            .answered
          else state.l2Stage req }
    else none
  | .response slot response => do
      let req ← state.request slot
      if (state.l1 slot).inService && state.l2Stage req == .answered then
        some { state with
          l1 := update state.l1 slot ((state.l1 slot).recvTimingResp response).2
          stage := fun req =>
            if req ∈ (state.l1 slot).served response then
              if req.inst.isSome then .returning else .done
            else state.stage req
          serviceMissed := update state.serviceMissed slot false }
      else none
  | .recvTimingResp req => do
      let inst ← req.inst
      if state.stage req == .returning then some (state.completeReq req inst) else none

end Caches

theorem mem_reqCompleted_of_ne {req other : Request} {reqs : List Request} (differs : other ≠ req)
    (member : other ∈ reqs) : other ∈ reqCompleted req reqs := by
  -- The recursion may skip one element, so the induction is on its own cases.
  fun_induction reqCompleted req reqs with
  | case1 => exact member
  | case2 => exact absurd (mem_singleton.mp member) differs
  | case3 next later ih =>
    rcases mem_cons.mp member with same | member
    · exact absurd same differs
    · exact (mem_cons.mp member).elim (fun same => same ▸ mem_cons_self)
        fun present => mem_cons_of_mem _ (ih present)
  | case4 first rest _ ih =>
    exact (mem_cons.mp member).elim (fun same => same ▸ mem_cons_self)
      fun present => mem_cons_of_mem _ (ih present)

/-- A miss puts its target behind those of the block's register, or into a free one. -/
structure MissResult.Adds (mshrs : Nat → Mshr) (target : Target) (result : MissResult) : Prop where
  wellFormed : (∀ slot, (mshrs slot).WellFormed) → result.mshr.WellFormed
  waiting : result.mshr.waiting = (mshrs result.slot).waiting ++ [target] ∧
      result.mshr.inService = (mshrs result.slot).inService ∧
      result.mshr.targets.head? = (mshrs result.slot).targets.head? ∨
    result.mshr.waiting = [target] ∧ result.mshr.inService = false

variable {count free : Nat} {mshrs : Nat → Mshr} {missedInL2 : Nat → Bool} {target : Target}
  {result : MissResult}

theorem handleTimingReqMiss_adds (waits : target.waits = true)
    (handled : handleTimingReqMiss count mshrs missedInL2 target free = some result) :
    result.Adds mshrs target := by
  have allocate : target.waits = true → [target].filter (·.waits) = [target] := by
    intro waits
    simp [waits]
  unfold handleTimingReqMiss at handled
  split at handled
  · next slot found =>
    have allocated : (mshrs slot).targets ≠ [] := by
      have found := find?_some (Option.ite_none_left_eq_some.mp found).2
      simp only [Bool.and_eq_true, Mshr.isAllocated] at found
      simpa using found.1.1
    have head : ((mshrs slot).allocateTarget target).targets.head? =
        (mshrs slot).targets.head? := by
      unfold Mshr.allocateTarget
      split
      · rfl
      · exact head?_append_of_ne_nil _ allocated
    have inService : ((mshrs slot).allocateTarget target).inService =
        (mshrs slot).inService := by
      unfold Mshr.allocateTarget
      split <;> rfl
    have waiting := Mshr.waiting_allocateTarget (mshrs slot) target
    rw [if_pos waits] at waiting
    split at handled
    · cases handled
      refine ⟨fun wellFormed => ?_, .inl ⟨waiting, inService, head⟩⟩
      exact { (wellFormed slot).allocateTarget waits allocated with }
    · cases handled
      exact ⟨fun wellFormed => (wellFormed slot).allocateTarget waits allocated,
        .inl ⟨waiting, inService, head⟩⟩
  · obtain ⟨_, rfl⟩ := fired handled
    exact ⟨fun _ => .allocate _ _ waits, .inr ⟨allocate waits, rfl⟩⟩

theorem MissResult.Adds.mem {known : Target}
    (adds : result.Adds mshrs target) (member : known ∈ result.mshr.waiting) :
    known = target ∨ known ∈ (mshrs result.slot).waiting ∧
      result.mshr.inService = (mshrs result.slot).inService ∧
      result.mshr.targets.head? = (mshrs result.slot).targets.head? := by
  rcases adds.waiting with ⟨joined, same⟩ | ⟨alone, _⟩
  · rw [joined] at member
    rcases mem_append.mp member with before | new
    · exact .inr ⟨before, same⟩
    · exact .inl (mem_singleton.mp new)
  · rw [alone] at member
    exact .inl (mem_singleton.mp member)

theorem handleTimingReqMiss_flags {inst : Nat}
    (handled : handleTimingReqMiss count mshrs missedInL2 target free = some result)
    (flagged : result.missedInL2 inst = true) :
    missedInL2 inst = true ∨ target.req.inst = some inst := by
  unfold handleTimingReqMiss at handled
  split at handled
  · simp only at handled
    split at handled
    · next owner owned =>
      cases handled
      simp only [Bool.or_eq_true, Bool.and_eq_true, beq_iff_eq] at flagged
      exact flagged.imp_right fun same => owned.trans (congrArg some same.2.symm)
    · cases handled
      exact .inl flagged
  · obtain ⟨_, rfl⟩ := fired handled
    exact .inl flagged

theorem handleTimingReqMiss_mono {inst : Nat}
    (handled : handleTimingReqMiss count mshrs missedInL2 target free = some result)
    (flagged : missedInL2 inst = true) : result.missedInL2 inst = true := by
  unfold handleTimingReqMiss at handled
  split at handled
  · simp only at handled
    split at handled
    · cases handled
      exact Bool.or_eq_true_iff.mpr (.inl flagged)
    · cases handled
      exact flagged
  · obtain ⟨_, rfl⟩ := fired handled
    exact flagged

end Runahead.Mem
