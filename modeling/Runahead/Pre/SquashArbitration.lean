import Runahead.DynInst
import Runahead.Library.Transition

/-!
# Squash requests of the PRE IEW stage

Within a time slot the stage may ask commit several times to squash a thread: at
the exit from PRE mode, for a mispredicted branch and for a violation of the
memory order. All requests go into one slot of the queue to commit, where the
older one is to win. Each kind of request writes its own subset of the fields.
-/

set_option autoImplicit false

namespace Runahead.Pre

open Library List

/-- What the stage reads of an instruction that asks for a squash. -/
structure SquashInst where
  seqNum : Nat
  pcState : Addr := 0
  /-- The program counter after `advancePC`. -/
  nextPc : Addr := 0
  branching : Bool := false
  mispredicted : Bool := false
  isLoad : Bool := false
  executed : Bool := true
  deriving DecidableEq, Repr

/-- The squash fields of `IEWStruct` for one thread; `advance` clears them. -/
structure IewSlot where
  squash : Bool := false
  squashedSeqNum : Nat := 0
  pc : Addr := 0
  mispredictInst : Option Nat := none
  branchTaken : Bool := false
  includeSquashInst : Bool := false
  squashAfterPRE : Bool := false
  deriving DecidableEq, Repr

namespace IewSlot

def squashDueToRunaheadExit (slot : IewSlot) (inst : SquashInst) : IewSlot :=
  if !slot.squash || inst.seqNum < slot.squashedSeqNum then
    { slot with
      squash := true
      squashedSeqNum := inst.seqNum
      includeSquashInst := true
      pc := inst.pcState
      squashAfterPRE := true }
  else slot

def squashDueToBranch (slot : IewSlot) (inst : SquashInst) : IewSlot :=
  if !slot.squash || inst.seqNum < slot.squashedSeqNum then
    { slot with
      squash := true
      squashedSeqNum := inst.seqNum
      branchTaken := inst.branching
      pc := inst.nextPc
      mispredictInst := some inst.seqNum
      includeSquashInst := false }
  else slot

def squashDueToMemOrder (slot : IewSlot) (inst : SquashInst) : IewSlot :=
  if !slot.squash || inst.seqNum ≤ slot.squashedSeqNum then
    { slot with
      squash := true
      squashedSeqNum := inst.seqNum
      pc := inst.pcState
      mispredictInst := none
      includeSquashInst := true }
  else slot

end IewSlot

inductive SquashRequest where
  | runaheadExit (inst : SquashInst)
  | branch (inst : SquashInst)
  | memOrder (violator : SquashInst)
  deriving DecidableEq, Repr

namespace SquashRequest

def seqNum : SquashRequest → Nat
  | .runaheadExit inst | .branch inst | .memOrder inst => inst.seqNum

def isMemOrder : SquashRequest → Bool
  | .memOrder _ => true
  | _ => false

def apply (slot : IewSlot) : SquashRequest → IewSlot
  | .runaheadExit inst => slot.squashDueToRunaheadExit inst
  | .branch inst => slot.squashDueToBranch inst
  | .memOrder violator => slot.squashDueToMemOrder violator

/-- What commit sees of a request that is the only one in its slot. -/
def publish (request : SquashRequest) : IewSlot := request.apply {}

def wins (slot : IewSlot) (request : SquashRequest) : Bool :=
  !slot.squash ||
    if request.isMemOrder then request.seqNum ≤ slot.squashedSeqNum
    else request.seqNum < slot.squashedSeqNum

/-- The fields that this kind of request does not write have not been written before. -/
def isClean (slot : IewSlot) : SquashRequest → Bool
  | .runaheadExit _ => slot.mispredictInst.isNone && !slot.branchTaken
  | .branch _ => !slot.squashAfterPRE
  | .memOrder _ => !slot.squashAfterPRE && !slot.branchTaken

end SquashRequest

/-- The stage within one time slot; `issued` records its requests. -/
structure SquashStage where
  slot : IewSlot := {}
  fetchRedirect : Bool := false
  inPre : Bool := true
  issued : List SquashRequest := []
  deriving DecidableEq, Repr

inductive SquashEvent where
  /-- `exitPreMode` with the last instruction before PRE. -/
  | exitPreMode (lastInstBeforePRE : SquashInst)
  /-- `checkMisprediction`, as a load or a store conditional writes back. -/
  | checkMisprediction (inst : SquashInst)
  /-- `executeInsts` starts. -/
  | startExecute
  /-- `executeInsts` for one instruction; perhaps the load/store queue has found a violation. -/
  | execute (inst : SquashInst) (violator : Option SquashInst)
  deriving DecidableEq, Repr

namespace SquashStage

variable (stage : SquashStage) {next : SquashStage}

/-- The stage looks at the instruction only if nothing has redirected fetch to an
older or the same place. -/
def considers (inst : SquashInst) : Bool :=
  !stage.fetchRedirect || !stage.slot.squash || stage.slot.squashedSeqNum > inst.seqNum

def issue (request : SquashRequest) : SquashStage :=
  { stage with
    slot := request.apply stage.slot
    issued := stage.issued ++ [request] }

def request : SquashEvent → Option SquashRequest
  | .exitPreMode inst => some (.runaheadExit inst)
  | .checkMisprediction inst =>
    if stage.considers inst && inst.mispredicted then some (.branch inst) else none
  | .startExecute => none
  | .execute inst violator =>
    if stage.considers inst then
      if inst.mispredicted && !(!inst.executed && inst.isLoad) then some (.branch inst)
      else violator.map .memOrder
    else none

/-- Branches and violations redirect fetch; `exitPreMode` asserts that the CPU is in PRE mode. -/
def step (event : SquashEvent) : Option SquashStage :=
  match event, stage.request event with
  | .exitPreMode _, some request =>
    if stage.inPre then some ({ stage with inPre := false }.issue request) else none
  | .startExecute, _ => some { stage with fetchRedirect := false }
  | _, some request => some ({ stage with fetchRedirect := true }.issue request)
  | _, none => some stage

/-- Whenever a request wins, it writes all fields that an earlier request has written: no
branch or violation replaces the exit from PRE, the exit replaces no branch, and a
violation replaces no taken branch. -/
def overwritesAll (event : SquashEvent) : Bool :=
  (stage.request event).all fun request =>
    !request.wins stage.slot || request.isClean stage.slot

end SquashStage

namespace SquashRequest

variable {slot : IewSlot} {request : SquashRequest}

theorem apply_of_loses (loses : request.wins slot = false) : request.apply slot = slot := by
  cases request with
  | runaheadExit | branch | memOrder => exact if_neg (Bool.eq_false_iff.mp loses)

theorem apply_of_wins (wins : request.wins slot = true) (clean : request.isClean slot = true) :
    request.apply slot = request.publish := by
  cases request with
  | runaheadExit inst =>
    have wins : (!slot.squash || decide (inst.seqNum < slot.squashedSeqNum)) = true := wins
    simp only [isClean, Bool.and_eq_true, Option.isNone_iff_eq_none, Bool.not_eq_true'] at clean
    simp only [apply, publish, IewSlot.squashDueToRunaheadExit, wins, if_true, clean.1, clean.2]
    rfl
  | branch inst =>
    have wins : (!slot.squash || decide (inst.seqNum < slot.squashedSeqNum)) = true := wins
    simp only [isClean, Bool.not_eq_true'] at clean
    simp only [apply, publish, IewSlot.squashDueToBranch, wins, if_true, clean]
    rfl
  | memOrder violator =>
    have wins : (!slot.squash || decide (violator.seqNum ≤ slot.squashedSeqNum)) = true := wins
    simp only [isClean, Bool.and_eq_true, Bool.not_eq_true'] at clean
    simp only [apply, publish, IewSlot.squashDueToMemOrder, wins, if_true, clean.1, clean.2]
    rfl

theorem publish_squash (request : SquashRequest) : request.publish.squash = true := by
  cases request <;> rfl

theorem publish_seqNum (request : SquashRequest) :
    request.publish.squashedSeqNum = request.seqNum := by
  cases request <;> rfl

/-- The request takes precedence over all others: it is the oldest, and a violation if one of
the oldest is a violation. -/
structure Oldest (requests : List SquashRequest) (request : SquashRequest) : Prop where
  issued : request ∈ requests
  oldest : ∀ other ∈ requests, request.seqNum ≤ other.seqNum
  memOrder : ∀ other ∈ requests, other.seqNum = request.seqNum → other.isMemOrder = true →
    request.isMemOrder = true

theorem Oldest.append_of_loses {requests : List SquashRequest} {winner : SquashRequest}
    (oldest : Oldest requests winner) (loses : request.wins winner.publish = false) :
    Oldest (requests ++ [request]) winner := by
  have younger := (Bool.or_eq_false_iff.mp loses).2
  rw [publish_seqNum] at younger
  refine ⟨mem_append_left _ oldest.issued, fun other member => ?_,
    fun other member same violation => ?_⟩
  · rcases mem_append.mp member with before | here
    · exact oldest.oldest other before
    · cases mem_singleton.mp here
      split at younger
      · exact Nat.le_of_lt (Nat.lt_of_not_le (of_decide_eq_false younger))
      · exact Nat.le_of_not_lt (of_decide_eq_false younger)
  · rcases mem_append.mp member with before | here
    · exact oldest.memOrder other before same violation
    · cases mem_singleton.mp here
      rw [if_pos violation] at younger
      exact absurd (Nat.le_of_eq same) (of_decide_eq_false younger)

theorem Oldest.append_of_wins {requests : List SquashRequest} {winner : SquashRequest}
    (oldest : Oldest requests winner) (wins : request.wins winner.publish = true) :
    Oldest (requests ++ [request]) request := by
  have older : if request.isMemOrder then request.seqNum ≤ winner.seqNum
      else request.seqNum < winner.seqNum := by
    simp only [SquashRequest.wins, publish_squash, publish_seqNum, Bool.not_true, Bool.false_or]
      at wins
    split at wins
    · next violation =>
      rw [if_pos violation]
      exact of_decide_eq_true wins
    · next plain =>
      rw [if_neg plain]
      exact of_decide_eq_true wins
  have bound : request.seqNum ≤ winner.seqNum := by
    split at older
    · exact older
    · exact Nat.le_of_lt older
  refine ⟨mem_append_right _ (mem_singleton.mpr rfl), fun other member => ?_,
    fun other member same violation => ?_⟩
  · rcases mem_append.mp member with before | here
    · exact Nat.le_trans bound (oldest.oldest other before)
    · exact mem_singleton.mp here ▸ Nat.le_refl _
  · rcases mem_append.mp member with before | here
    · -- A tie with an earlier request means that the new one is a violation.
      by_contra plain
      rw [if_neg plain] at older
      have := oldest.oldest other before
      omega
    · exact mem_singleton.mp here ▸ violation

end SquashRequest

namespace SquashStage

variable {stage next : SquashStage}

def Single (stage : SquashStage) : Prop :=
  stage.slot = {} ∧ stage.issued = [] ∨
    ∃ request, SquashRequest.Oldest stage.issued request ∧ stage.slot = request.publish

theorem issue_single {request : SquashRequest} (single : stage.Single)
    (clean : request.wins stage.slot = true → request.isClean stage.slot = true) :
    (stage.issue request).Single := by
  refine .inr ?_
  rcases single with ⟨empty, none⟩ | ⟨winner, oldest, recorded⟩
  · refine ⟨request, ?_, ?_⟩
    · refine ⟨by simp [issue], fun other member => ?_, fun other member same violation => ?_⟩
      · simp only [issue, none, nil_append, mem_singleton] at member
        exact member ▸ Nat.le_refl _
      · simp only [issue, none, nil_append, mem_singleton] at member
        exact member ▸ violation
    · simp only [issue, empty]
      rfl
  · cases wins : request.wins stage.slot with
    | false =>
      refine ⟨winner, oldest.append_of_loses (recorded ▸ wins), ?_⟩
      exact (SquashRequest.apply_of_loses wins).trans recorded
    | true =>
      exact ⟨request, oldest.append_of_wins (recorded ▸ wins),
        SquashRequest.apply_of_wins wins (clean wins)⟩

theorem step_single {event : SquashEvent} (single : stage.Single)
    (admitted : stage.overwritesAll event = true) (stepped : stage.step event = some next) :
    next.Single := by
  have clean {request : SquashRequest} (made : stage.request event = some request)
      (wins : request.wins stage.slot = true) : request.isClean stage.slot = true := by
    have admitted : (!request.wins stage.slot || request.isClean stage.slot) = true := by
      simpa [overwritesAll, made] using admitted
    simpa [wins] using admitted
  unfold step at stepped
  split at stepped
  · next request made =>
    obtain ⟨_, rfl⟩ := fired stepped
    refine issue_single ?_ (clean made)
    exact single
  · cases stepped
    exact single
  · next request _ _ made =>
    cases stepped
    refine issue_single ?_ (clean made)
    exact single
  · cases stepped
    exact single

/-- As long as no request leaves fields of another one behind, commit sees all fields of the
oldest request, and of the violation if there is a tie. -/
theorem published_single (stage : SquashStage)
    (reached : Reaches step overwritesAll {} stage) (published : stage.slot.squash = true) :
    ∃ request ∈ stage.issued, stage.slot = request.publish ∧
      (∀ other ∈ stage.issued, request.seqNum ≤ other.seqNum) ∧
      ∀ other ∈ stage.issued, other.seqNum = request.seqNum → other.isMemOrder = true →
        request.isMemOrder = true := by
  have single : stage.Single := reached.invariant (.inl ⟨rfl, rfl⟩) step_single
  rcases single with ⟨empty, _⟩ | ⟨request, oldest, recorded⟩
  · rw [empty] at published
    cases published
  · exact ⟨request, oldest.issued, recorded, oldest.oldest, oldest.memOrder⟩

/-- A branch, an older branch and a violation on the same instruction as the latter. -/
theorem published_single_violation :
    ∃ stage, Reaches step overwritesAll {} stage ∧ stage.issued.length = 3 ∧
      ∃ request ∈ stage.issued, stage.slot = request.publish ∧ request.isMemOrder = true := by
  obtain ⟨stage, reached, observed⟩ := reaches_of_observed step overwritesAll {}
    [.startExecute, .execute { seqNum := 9, nextPc := 40, mispredicted := true } none,
      .execute { seqNum := 6, nextPc := 80, mispredicted := true } none,
      .execute { seqNum := 4 } (some { seqNum := 6, pcState := 24 })]
    (fun stage => stage.slot.squash && stage.issued ==
      [.branch { seqNum := 9, nextPc := 40, mispredicted := true },
        .branch { seqNum := 6, nextPc := 80, mispredicted := true },
        .memOrder { seqNum := 6, pcState := 24 }]) (by decide +kernel)
  obtain ⟨published, issued⟩ := Bool.and_eq_true_iff.mp observed
  have issued := eq_of_beq issued
  obtain ⟨request, member, recorded, oldest, memOrder⟩ := published_single stage reached published
  refine ⟨stage, reached, by simp [issued], request, member, recorded, ?_⟩
  have violation : SquashRequest.memOrder { seqNum := 6, pcState := 24 } ∈ stage.issued := by
    simp [issued]
  refine memOrder _ violation ?_ rfl
  have bound := oldest _ violation
  rw [issued] at member
  simp only [mem_cons, not_mem_nil, or_false] at member
  rcases member with rfl | rfl | rfl
  · exact absurd bound (by decide)
  · rfl
  · rfl

/-- The exit from PRE and then an older mispredicted branch: commit is told to squash after the
branch, with the mark of the exit. -/
theorem published_mixed :
    ∃ stage, Reaches step anyEvent {} stage ∧
      stage.issued = [.runaheadExit { seqNum := 10, pcState := 36 },
        .branch { seqNum := 5, pcState := 16, nextPc := 64, mispredicted := true }] ∧
      stage.slot.squashedSeqNum = 5 ∧ stage.slot.mispredictInst = some 5 ∧
      stage.slot.squashAfterPRE = true ∧
      ∀ request ∈ stage.issued, stage.slot ≠ request.publish := by
  obtain ⟨stage, reached, observed⟩ := reaches_of_observed step anyEvent {}
    [.exitPreMode { seqNum := 10, pcState := 36 }, .startExecute,
      .execute { seqNum := 5, pcState := 16, nextPc := 64, mispredicted := true } none]
    (fun stage => decide (stage.issued = [.runaheadExit { seqNum := 10, pcState := 36 },
        .branch { seqNum := 5, pcState := 16, nextPc := 64, mispredicted := true }] ∧
      stage.slot.squashedSeqNum = 5 ∧ stage.slot.mispredictInst = some 5 ∧
      stage.slot.squashAfterPRE = true ∧
      ∀ request ∈ stage.issued, stage.slot ≠ request.publish)) (by decide +kernel)
  exact ⟨stage, reached, of_decide_eq_true observed⟩

end SquashStage

end Runahead.Pre
