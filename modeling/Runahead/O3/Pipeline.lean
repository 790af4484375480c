import Runahead.O3.Cpu
import Runahead.O3.CommitStep
import Runahead.Library.Transition

/-!
# Pipeline invariant

What holds in every run of the CPU, whatever the memory system, interrupts and
writes through the thread context do: the queues are in program order, the
status bits of an instruction agree with each other, and the ROB and the earlier
stages agree on the squash in progress.

The clauses are stated for the instructions that commit has already taken from
rename in this cycle (`taken`) and those it has not (`offered`), so that they
also hold inside the loops of commit.
-/

set_option autoImplicit false

namespace Runahead.O3

def Phase.rank : Phase → Nat
  | .betweenTicks => 0
  | .fetch => 1
  | .rename => 2
  | .iew => 3

structure StatusOk (inst : DynInst) : Prop where
  ready : inst.canCommit = true → inst.squashed = true ∨ inst.executed = true ∨
    inst.staticInst.needsRelease = true ∧ inst.released = false
  readyDispatched : inst.canCommit = true → inst.dispatched = true ∨ inst.squashed = true
  executedDispatched : inst.executed = true → inst.dispatched = true
  memOpExecuted : inst.memOpDone = true → inst.executed = true
  missedDispatched : inst.missedInL2 = true → inst.dispatched = true
  requestsDispatched : inst.outstandingReqs ≠ [] → inst.dispatched = true
  releasedDispatched : inst.released = true → inst.dispatched = true
  issuedDispatched : inst.issued = true → inst.dispatched = true
  issuedReleased : inst.issued = true → inst.executed = true ∨ inst.squashed = true ∨
    inst.staticInst.needsRelease = false ∨ inst.released = true

namespace StatusOk

variable {inst : DynInst}

section

variable (ok : StatusOk inst)
include ok

theorem finish (dispatched : inst.dispatched = true) (fault : Bool) :
    StatusOk (inst.finish fault) := by
  cases ok
  constructor <;> grind [DynInst.finish]

theorem setExecuted (dispatched : inst.dispatched = true) :
    StatusOk inst.setExecuted.setCanCommit := by
  cases ok
  constructor <;> grind [DynInst.setExecuted, DynInst.setCanCommit]

theorem clearIssued : StatusOk inst.clearIssued := by
  cases ok
  constructor <;> grind [DynInst.clearIssued]

theorem setIssued (dispatched : inst.dispatched = true)
    (released : inst.staticInst.needsRelease = false ∨ inst.released = true) :
    StatusOk inst.setIssued := by
  cases ok
  constructor <;> grind [DynInst.setIssued]

theorem dispatch (fresh : inst.dispatched = false)
    (alive : inst.squashed = false) : StatusOk (State.dispatchUpdate inst) := by
  cases ok
  unfold State.dispatchUpdate
  split
  · constructor <;> grind
  · split
    · constructor <;> grind
    · constructor <;> grind

end

end StatusOk

structure StatusStep (old new : DynInst) : Prop where
  static : new.staticInst = old.staticInst
  dispatched : new.dispatched = old.dispatched
  executed : new.executed = old.executed
  issued : old.issued = true → new.issued = true
  issuedBefore : new.issued = true → old.issued = true ∨ new.squashed = true
  squashed : old.squashed = true → new.squashed = true
  ready : new.canCommit = true → old.canCommit = true ∨ new.squashed = true ∨ new.executed = true
  ok : StatusOk new

namespace StatusStep

variable {inst old new : DynInst}

theorem refl (ok : StatusOk inst) : StatusStep inst inst where
  static := rfl
  dispatched := rfl
  executed := rfl
  issued := id
  issuedBefore := .inl
  squashed := id
  ready := .inl
  ok := ok

theorem trans {first second third : DynInst} (left : StatusStep first second)
    (right : StatusStep second third) : StatusStep first third := by
  cases left
  cases right
  constructor <;> grind

theorem of_same (ok : StatusOk old)
    (static : new.staticInst = old.staticInst) (dispatched : new.dispatched = old.dispatched)
    (issued : new.issued = old.issued) (executed : new.executed = old.executed)
    (canCommit : new.canCommit = old.canCommit) (squashed : new.squashed = old.squashed)
    (released : new.released = old.released) (memOpDone : new.memOpDone = old.memOpDone)
    (missed : new.missedInL2 = true → old.dispatched = true)
    (requests : new.outstandingReqs ≠ [] → old.dispatched = true) : StatusStep old new := by
  have kept : StatusOk new := by
    cases ok
    constructor <;> grind
  constructor <;> grind

theorem reqCompleted (ok : StatusOk inst) (req : ReqId) : StatusStep inst (inst.reqCompleted req) :=
  of_same ok rfl rfl rfl rfl rfl rfl rfl rfl ok.missedDispatched fun nonempty =>
    ok.requestsDispatched fun empty => nonempty (by simp [DynInst.reqCompleted, empty])

theorem resetL2Miss (ok : StatusOk inst) : StatusStep inst inst.resetL2Miss :=
  of_same ok rfl rfl rfl rfl rfl rfl rfl rfl (by rintro ⟨⟩) ok.requestsDispatched

theorem addReqs (ok : StatusOk inst) (dispatched : inst.dispatched = true) (reqs : List ReqId) :
    StatusStep inst (inst.addReqs reqs) :=
  of_same ok rfl rfl rfl rfl rfl rfl rfl rfl (fun _ => dispatched) (fun _ => dispatched)

theorem setRunaheadInst (ok : StatusOk inst) : StatusStep inst inst.setRunaheadInst :=
  of_same ok rfl rfl rfl rfl rfl rfl rfl rfl ok.missedDispatched ok.requestsDispatched

theorem marks (ok : StatusOk old) (only : Core.MarksOnly old new) : StatusStep old new := by
  obtain ⟨triggered, marked, invalid, _, rfl⟩ := only
  exact of_same ok rfl rfl rfl rfl rfl rfl rfl rfl ok.missedDispatched ok.requestsDispatched

section

variable (ok : StatusOk inst)
include ok

/-- A squash may also end the wait for issue or for commit. -/
theorem squash (gone ready queued : Bool) (readyGone : ready = true → gone = true)
    (queuedGone : queued = true → gone = true ∧ inst.dispatched = true) :
    StatusStep inst { inst with
      squashed := gone || inst.squashed
      canCommit := ready || inst.canCommit
      issued := queued || inst.issued } := by
  refine ⟨rfl, rfl, rfl, ?_, ?_, ?_, ?_, ?_⟩
  case refine_5 =>
    cases ok
    constructor <;> grind
  all_goals grind

theorem setSquashed : StatusStep inst inst.setSquashed :=
  squash ok true false false (fun _ => rfl) (by rintro ⟨⟩)

theorem squashInRob : StatusStep inst inst.squashInRob :=
  squash ok true true false (fun _ => rfl) (by rintro ⟨⟩)

theorem clearCanCommit : StatusStep inst inst.clearCanCommit := by
  have kept : StatusOk inst.clearCanCommit := by
    cases ok
    constructor <;> grind [DynInst.clearCanCommit]
  constructor <;> grind [DynInst.clearCanCommit]

theorem setCanCommit (executed : inst.executed = true) :
    StatusStep inst inst.setCanCommit := by
  have kept : StatusOk inst.setCanCommit := by
    cases ok
    constructor <;> grind [DynInst.setCanCommit]
  constructor <;> grind [DynInst.setCanCommit]

theorem setReleased (dispatched : inst.dispatched = true)
    (unready : inst.canCommit = false ∨ inst.squashed = true ∨ inst.executed = true) :
    StatusStep inst inst.setReleased := by
  have kept : StatusOk inst.setReleased := by
    cases ok
    constructor <;> grind [DynInst.setReleased]
  constructor <;> grind [DynInst.setReleased]

end

theorem modify {insts : InstTable} {seqNum : Nat} {change : DynInst → DynInst}
    (ok : ∀ inst, StatusOk (insts inst))
    (changed : StatusStep (insts seqNum) (change (insts seqNum))) (inst : Nat) :
    StatusStep (insts inst) (insts.modify seqNum change inst) := by
  by_cases same : inst = seqNum
  · subst same
    rw [InstTable.modify_self]
    exact changed
  · rw [InstTable.modify_other _ _ same]
    exact refl (ok inst)

theorem modifyAll {insts : InstTable} {selected : Nat → Bool} {change : DynInst → DynInst}
    (ok : ∀ inst, StatusOk (insts inst))
    (changed : ∀ inst, selected inst = true → StatusStep (insts inst) (change (insts inst)))
    (inst : Nat) : StatusStep (insts inst) (insts.modifyAll selected change inst) := by
  rw [InstTable.modifyAll_apply]
  split
  · next chosen => exact changed inst chosen
  · exact refl (ok inst)

end StatusStep

namespace State

/-- Renamed instructions that IEW has not dispatched, given those that commit
has taken in this cycle. -/
def toDispatch (state : State) (taken : List Nat) : List Nat :=
  state.skidBuffer ++ (state.renameQueue2 ++ taken)

def waiting (state : State) (offered : List Nat) : List Nat :=
  offered ++ (state.renameQueue0 ++ state.frontEnd)

structure QueueInv (state : State) (taken offered : List Nat) : Prop where
  pipelineOrdered : (state.toDispatch taken ++ state.waiting offered).Pairwise (· < ·)
  robOrdered : (state.core.rob.instList ++ state.waiting offered).Pairwise (· < ·)
  dispatchBounded : ∀ inst ∈ state.toDispatch taken, inst < state.nextSeqNum
  bounded : ∀ inst ∈ state.core.rob.instList ++ state.waiting offered, inst < state.nextSeqNum
  undispatched : ∀ inst ∈ state.toDispatch taken ++ state.waiting offered,
    (state.insts inst).dispatched = false
  unborn : ∀ inst, state.nextSeqNum ≤ inst → (state.insts inst).dispatched = false
  listOrdered : state.core.instList.Pairwise (· < ·)
  listBounded : ∀ inst ∈ state.core.instList, inst < state.nextSeqNum
  listed : ∀ inst ∈ state.core.rob.instList ++ state.waiting offered, inst ∈ state.core.instList
  kept : ∀ inst ∈ state.core.rob.instList ++ (state.renameQueue0 ++ state.frontEnd),
    inst ∉ state.core.removeList
  removedBounded : ∀ inst ∈ state.core.removeList, inst < state.nextSeqNum
  removedSquashed : ∀ inst ∈ state.core.removeList, inst ∈ offered →
    (state.insts inst).squashed = true
  committedBelow : ∀ inst ∈ state.core.rob.instList ++ state.waiting offered,
    state.core.lastCommitedSeqNum < inst
  committedBounded : state.core.lastCommitedSeqNum < state.nextSeqNum

structure StatusInv (state : State) : Prop where
  each : ∀ inst, StatusOk (state.insts inst)
  issuedOnce : (state.toExecute ++ state.issuedNow).Nodup
  issuedPending : ∀ inst ∈ state.toExecute ++ state.issuedNow,
    (state.insts inst).dispatched = true ∧ (state.insts inst).issued = true ∧
      (state.insts inst).executed = false
  /-- Only memory instructions are between issue and execution in no queue. -/
  issuedListed : ∀ inst, (state.insts inst).dispatched = true →
    (state.insts inst).issued = true → (state.insts inst).executed = false →
    (state.insts inst).squashed = true ∨ (state.insts inst).staticInst.isMemRef = true ∨
      inst ∈ state.toExecute ++ state.issuedNow
  completed : ∀ inst ∈ state.iewCurrent.insts ++ state.iewToCommit.insts,
    (state.insts inst).executed = true
  releasing : ∀ inst, inst = state.fromCommit.nonSpecSeqNum ∨
      inst = state.core.toIEW.nonSpecSeqNum → inst ≠ 0 →
    (state.insts inst).dispatched = true ∧
      ((state.insts inst).canCommit = false ∨ (state.insts inst).squashed = true ∨
        (state.insts inst).executed = true)

structure SquashInv (state : State) : Prop where
  progress : state.core.commitStatus = .robSquashing → Rob.SquashProgress state.insts state.core.rob
  idle : state.core.commitStatus ≠ .robSquashing →
    state.core.rob.squashIt = none ∧ state.core.rob.doneSquashing = true
  squashedReady : ∀ inst ∈ state.core.rob.instList, (state.insts inst).squashed = true →
    (state.insts inst).canCommit = true ∨
      state.core.commitStatus = .robSquashing ∧ state.core.rob.squashedSeqNum < inst
  /-- A squash that the earlier stages read in this cycle is the one the ROB works on. -/
  signal : state.fromCommit.squash = true →
    state.core.commitStatus = .robSquashing ∧ state.fromCommit.robSquashing = true ∧
      ∀ inst ∈ state.core.rob.instList,
        state.fromCommit.doneSeqNum < inst ↔ state.core.rob.squashedSeqNum < inst
  /-- No squash that commit accepts later can keep more than the one in progress. -/
  youngestSquash : state.core.commitStatus = .robSquashing → state.core.rob.instList ≠ [] →
    state.core.youngestSeqNum ≤ state.core.rob.squashedSeqNum
  signalled : state.core.commitStatus = .robSquashing → state.fromCommit.robSquashing = true
  trapStatus : state.core.trapInFlight = true → state.core.commitStatus = .trapPending
  trapFired : state.core.trapSquash = true → state.core.trapInFlight = true
  trapAlone : state.core.trapInFlight = true → state.core.tcSquash = false

structure PipelineInvAt (state : State) (taken offered : List Nat) : Prop where
  queues : state.QueueInv taken offered
  status : state.StatusInv
  squash : state.SquashInv

/-- What holds of the queues between two stages only. -/
structure CycleInv (config : Config) (state : State) : Prop where
  width0 : state.renameQueue0.length ≤ config.renameWidth
  width1 : state.renameQueue1.length ≤ config.renameWidth
  quiet : state.core.toIEW = {}
  taken : state.phase = .iew → state.renameQueue2 = []
  fresh : state.phase = .betweenTicks ∨ state.phase = .fetch → state.renameQueue0 = []
  issuing : state.phase ≠ .iew → state.issuedNow = []
  blocked : state.fromCommit.robSquashing = true → state.renameQueue0 = []
  drained : state.fromCommit.robSquashing = true → state.fromCommit.squash = false →
    state.renameQueue1 = []
  flushed : state.fromCommit.squash = true → state.phase ≠ .betweenTicks →
    ∀ inst ∈ state.renameQueue1, (state.insts inst).squashed = true

structure PipelineInv (config : Config) (state : State) : Prop extends
    PipelineInvAt state [] state.renameQueue1, CycleInv config state

/-! ## Changes of the instruction table -/

section Table

variable {state : State} {taken offered : List Nat}

theorem QueueInv.withInsts (inv : state.QueueInv taken offered) (insts : InstTable)
    (same : ∀ inst, (insts inst).dispatched = (state.insts inst).dispatched)
    (squashed : ∀ inst, (state.insts inst).squashed = true → (insts inst).squashed = true) :
    (state.withInsts insts).QueueInv taken offered :=
  { inv with
    removedSquashed := fun inst removed member =>
      squashed inst (inv.removedSquashed inst removed member)
    undispatched := fun inst member => (same inst).trans (inv.undispatched inst member)
    unborn := fun inst bound => (same inst).trans (inv.unborn inst bound) }

theorem StatusInv.withInsts (inv : state.StatusInv) (insts : InstTable)
    (steps : ∀ inst, StatusStep (state.insts inst) (insts inst)) :
    (state.withInsts insts).StatusInv where
  each inst := (steps inst).ok
  issuedOnce := inv.issuedOnce
  issuedPending inst member := by
    obtain ⟨dispatched, issued, executed⟩ := inv.issuedPending inst member
    have step := steps inst
    exact ⟨step.dispatched.trans dispatched, step.issued issued, step.executed.trans executed⟩
  issuedListed inst dispatched issued executed := by
    have step := steps inst
    rcases step.issuedBefore issued with before | squashed
    · rcases inv.issuedListed inst (step.dispatched.symm.trans dispatched) before
        (step.executed.symm.trans executed) with squashed | memory | listed
      · exact .inl (step.squashed squashed)
      · exact .inr (.inl ((congrArg StaticInst.isMemRef step.static).trans memory))
      · exact .inr (.inr listed)
    · exact .inl squashed
  completed inst member := (steps inst).executed.trans (inv.completed inst member)
  releasing inst which nonzero := by
    have step := steps inst
    obtain ⟨dispatched, unready⟩ := inv.releasing inst which nonzero
    refine ⟨step.dispatched.trans dispatched, ?_⟩
    change (insts inst).canCommit = false ∨ (insts inst).squashed = true ∨
      (insts inst).executed = true
    have := step.ready
    have := step.squashed
    have := step.executed
    grind

theorem SquashInv.withInsts (inv : state.SquashInv) (insts : InstTable)
    (drained : ∀ inst ∈ state.core.rob.instList, (state.insts inst).Drained → (insts inst).Drained)
    (ready : ∀ inst ∈ state.core.rob.instList, (insts inst).squashed = true →
      (state.insts inst).squashed = true ∨ (insts inst).canCommit = true ∨
        state.core.commitStatus = .robSquashing ∧ state.core.rob.squashedSeqNum < inst) :
    (state.withInsts insts).SquashInv :=
  { inv with
    progress := fun squashing =>
      { inv.progress squashing with
        visited := fun inst member younger =>
          ((inv.progress squashing).visited inst member younger).imp_left (drained inst member) }
    squashedReady := fun inst member now => by
      rcases ready inst member now with before | done
      · exact (inv.squashedReady inst member before).imp_left
          fun canCommit => (drained inst member ⟨before, canCommit⟩).2
      · exact done }

end Table

end State

end Runahead.O3
