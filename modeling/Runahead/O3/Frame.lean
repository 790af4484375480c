import Runahead.O3.PipelineCommit

/-!
# What the stages before commit leave alone

Only commit changes the ROB, the commit map and its own status, and only commit
and the last memory response of the trigger change the mode. `CommitFrame` says
so for all other events at once.
-/

set_option autoImplicit false

namespace Runahead.O3

open Library InstTable
open Option (ite_none_right_eq_some)

structure InstFrame (old new : DynInst) : Prop where
  static : new.staticInst = old.staticInst
  pc : new.pc = old.pc
  nextPc : new.nextPc = old.nextPc
  marked : new.runaheadInst = old.runaheadInst
  triggered : new.triggeredRunahead = old.triggeredRunahead
  dispatched : old.dispatched = true → new.dispatched = true
  executed : old.executed = true → new.executed = true
  squashed : old.squashed = true → new.squashed = true

namespace InstFrame

variable {inst old new : DynInst}

theorem refl (inst : DynInst) : InstFrame inst inst :=
  ⟨rfl, rfl, rfl, rfl, rfl, id, id, id⟩

theorem trans {first second third : DynInst} (left : InstFrame first second)
    (right : InstFrame second third) : InstFrame first third := by
  cases left
  cases right
  constructor <;> grind

theorem modify {insts : InstTable} {seqNum : Nat} {change : DynInst → DynInst}
    (changed : InstFrame (insts seqNum) (change (insts seqNum))) (inst : Nat) :
    InstFrame (insts inst) (insts.modify seqNum change inst) := by
  by_cases same : inst = seqNum
  · subst same
    rw [modify_self]
    exact changed
  · rw [modify_other _ _ same]
    exact refl _

theorem modifyAll {insts : InstTable} {selected : Nat → Bool} {change : DynInst → DynInst}
    (changed : ∀ inst, InstFrame (insts inst) (change (insts inst))) (inst : Nat) :
    InstFrame (insts inst) (insts.modifyAll selected change inst) := by
  rw [modifyAll_apply]
  split
  · exact changed inst
  · exact refl _

theorem reqCompleted (req : ReqId) : InstFrame inst (inst.reqCompleted req) :=
  ⟨rfl, rfl, rfl, rfl, rfl, id, id, id⟩

theorem resetL2Miss : InstFrame inst inst.resetL2Miss := ⟨rfl, rfl, rfl, rfl, rfl, id, id, id⟩

theorem finish (fault : Bool) : InstFrame inst (inst.finish fault) :=
  ⟨rfl, rfl, rfl, rfl, rfl, id, fun _ => rfl, id⟩

theorem setExecuted : InstFrame inst inst.setExecuted.setCanCommit :=
  ⟨rfl, rfl, rfl, rfl, rfl, id, fun _ => rfl, id⟩

theorem addReqs (reqs : List ReqId) : InstFrame inst (inst.addReqs reqs) :=
  ⟨rfl, rfl, rfl, rfl, rfl, id, id, id⟩

theorem clearIssued : InstFrame inst inst.clearIssued := ⟨rfl, rfl, rfl, rfl, rfl, id, id, id⟩

theorem setIssued : InstFrame inst inst.setIssued := ⟨rfl, rfl, rfl, rfl, rfl, id, id, id⟩

theorem setReleased : InstFrame inst inst.setReleased := ⟨rfl, rfl, rfl, rfl, rfl, id, id, id⟩

theorem setSquashed : InstFrame inst inst.setSquashed :=
  ⟨rfl, rfl, rfl, rfl, rfl, id, id, fun _ => rfl⟩

end InstFrame

namespace IewStruct

@[simp] theorem squashDueToBranch_squashAfterRunahead (slot : IewStruct) (seqNum : Nat)
    (nextPc : Addr) :
    (slot.squashDueToBranch seqNum nextPc).squashAfterRunahead = slot.squashAfterRunahead := by
  unfold squashDueToBranch
  split <;> rfl

@[simp] theorem squashDueToMemOrder_squashAfterRunahead (slot : IewStruct) (seqNum : Nat)
    (pc : Addr) :
    (slot.squashDueToMemOrder seqNum pc).squashAfterRunahead = slot.squashAfterRunahead := by
  unfold squashDueToMemOrder
  split <;> rfl

end IewStruct

structure CommitView where
  rob : Rob
  commitStatus : ThreadStatus
  trapInFlight : Bool
  squashAfterInst : Option Nat
  youngestSeqNum : Nat
  lastCommitedSeqNum : Nat
  commitRenameMap : RegId → PhysRegId
  committed : List Nat
  raTriggerInst : Nat
  iewToCommit : IewStruct
  fromCommit : CommitComm
  renameQueue1 : List Nat

namespace State

def commitView (state : State) : CommitView where
  rob := state.core.rob
  commitStatus := state.core.commitStatus
  trapInFlight := state.core.trapInFlight
  squashAfterInst := state.core.squashAfterInst
  youngestSeqNum := state.core.youngestSeqNum
  lastCommitedSeqNum := state.core.lastCommitedSeqNum
  commitRenameMap := state.core.commitRenameMap
  committed := state.core.committed
  raTriggerInst := state.core.raTriggerInst
  iewToCommit := state.iewToCommit
  fromCommit := state.fromCommit
  renameQueue1 := state.renameQueue1

structure CommitFrame (state next : State) : Prop where
  view : next.commitView = state.commitView
  grows : state.nextSeqNum ≤ next.nextSeqNum
  insts : ∀ inst < state.nextSeqNum, InstFrame (state.insts inst) (next.insts inst)
  rank : state.phase.rank ≤ next.phase.rank
  /-- Only in its own part of the cycle does IEW dispatch. -/
  dispatch : next.phase ≠ .iew → ∀ inst < state.nextSeqNum,
    (next.insts inst).dispatched = (state.insts inst).dispatched
  /-- Only the last response of a trigger ends the mode. -/
  mode : (next.core.inRunahead = state.core.inRunahead ∧
      next.iewCurrent.squashAfterRunahead = state.iewCurrent.squashAfterRunahead) ∨
    (state.core.inRunahead = true ∧ next.core.inRunahead = false ∧
      ∃ inst, (state.insts inst).triggeredRunahead = true ∧
        (state.insts inst).outstandingReqs ≠ [] ∧ (next.insts inst).outstandingReqs = [])
  /-- An instruction enters the functional units only when it is issued. -/
  executing : ∀ inst ∈ next.toExecute ++ next.issuedNow,
    inst ∈ state.toExecute ++ state.issuedNow ∨ (state.insts inst).issued = false
  requests : ∀ inst < state.nextSeqNum, (next.insts inst).outstandingReqs ≠ [] →
    (state.insts inst).outstandingReqs ≠ [] ∨ inst ∈ state.toExecute ∧
      inst ∉ next.toExecute ++ next.issuedNow ∧ (next.insts inst).issued = true
  issued : ∀ inst < state.nextSeqNum, (state.insts inst).issued = true →
    (next.insts inst).issued = true ∨ inst ∈ state.toExecute
  born : ∀ inst, state.nextSeqNum ≤ inst → inst < next.nextSeqNum →
    (next.insts inst).triggeredRunahead = false ∧ (next.insts inst).outstandingReqs = []

namespace CommitFrame

variable {state next : State}

section

variable (frame : state.CommitFrame next)
include frame

theorem rob : next.core.rob = state.core.rob :=
  congrArg CommitView.rob frame.view

theorem commitStatus : next.core.commitStatus = state.core.commitStatus :=
  congrArg CommitView.commitStatus frame.view

theorem youngestSeqNum : next.core.youngestSeqNum = state.core.youngestSeqNum :=
  congrArg CommitView.youngestSeqNum frame.view

theorem lastCommitedSeqNum : next.core.lastCommitedSeqNum = state.core.lastCommitedSeqNum :=
  congrArg CommitView.lastCommitedSeqNum frame.view

theorem commitRenameMap : next.core.commitRenameMap = state.core.commitRenameMap :=
  congrArg CommitView.commitRenameMap frame.view

theorem raTriggerInst : next.core.raTriggerInst = state.core.raTriggerInst :=
  congrArg CommitView.raTriggerInst frame.view

theorem iewToCommit : next.iewToCommit = state.iewToCommit :=
  congrArg CommitView.iewToCommit frame.view

theorem fromCommit : next.fromCommit = state.fromCommit :=
  congrArg CommitView.fromCommit frame.view

theorem renameQueue1 : next.renameQueue1 = state.renameQueue1 :=
  congrArg CommitView.renameQueue1 frame.view

end

theorem withInsts (state : State) (insts : InstTable)
    (each : ∀ inst, InstFrame (state.insts inst) (insts inst))
    (dispatched : ∀ inst, (insts inst).dispatched = (state.insts inst).dispatched)
    (requests : ∀ inst, (insts inst).outstandingReqs ≠ [] → (state.insts inst).outstandingReqs ≠ [])
    (issued : ∀ inst, (state.insts inst).issued = true → (insts inst).issued = true) :
    state.CommitFrame (state.withInsts insts) where
  view := rfl
  grows := Nat.le_refl _
  insts inst _ := each inst
  rank := Nat.le_refl _
  dispatch _ inst _ := dispatched inst
  mode := .inl ⟨rfl, rfl⟩
  executing _ member := .inl member
  requests inst _ pending := .inl (requests inst pending)
  issued inst _ before := .inl (issued inst before)
  born _ low high := absurd high (Nat.not_lt.mpr low)

theorem refl (state : State) : state.CommitFrame state :=
  withInsts state _ (fun _ => .refl _) (fun _ => rfl) (fun _ => id) fun _ => id

theorem modifyInst (state : State) (inst : Nat) (change : DynInst → DynInst)
    (each : InstFrame (state.insts inst) (change (state.insts inst)))
    (dispatched : (change (state.insts inst)).dispatched = (state.insts inst).dispatched)
    (requests : (change (state.insts inst)).outstandingReqs ≠ [] →
      (state.insts inst).outstandingReqs ≠ [])
    (issued : (state.insts inst).issued = true → (change (state.insts inst)).issued = true) :
    state.CommitFrame (state.modifyInst inst change) := by
  refine withInsts state _ (.modify each) ?_ ?_ ?_ <;> intro other <;>
    rw [modify_apply] <;> split
  · next same => exact same ▸ dispatched
  · rfl
  · next same => exact same ▸ requests
  · exact id
  · next same => exact same ▸ issued
  · exact id

theorem redirect (frame : state.CommitFrame next) (inst : Nat) (mispredicted : Bool)
    (violator : Option Nat) : state.CommitFrame (next.redirect inst mispredicted violator) := by
  rcases redirect_cases next inst mispredicted violator with same | ⟨_, same⟩ | ⟨load, _, same⟩
  · rw [same]
    exact frame
  · rw [same]
    refine { frame with mode := frame.mode.imp_left fun both => ⟨both.1, ?_⟩ }
    exact (IewStruct.squashDueToBranch_squashAfterRunahead _ _ _).trans both.2
  · rw [same]
    refine { frame with mode := frame.mode.imp_left fun both => ⟨both.1, ?_⟩ }
    exact (IewStruct.squashDueToMemOrder_squashAfterRunahead _ _ _).trans both.2

end CommitFrame

section Events

variable {config : Config} {state next : State} {inst : Nat}

theorem PipelineInv.dispatched_lt (inv : state.PipelineInv config)
    (dispatched : (state.insts inst).dispatched = true) : inst < state.nextSeqNum := by
  by_contra unborn
  have := inv.queues.unborn inst (Nat.le_of_not_lt unborn)
  exact clash this dispatched

private theorem reqCompleted_requests (dyn : DynInst) (req : ReqId)
    (pending : (dyn.reqCompleted req).outstandingReqs ≠ []) : dyn.outstandingReqs ≠ [] := by
  intro empty
  simp [DynInst.reqCompleted, empty] at pending

theorem memResponse_frame {req : ReqId} (stepped : state.memResponse inst req = some next) :
    state.CommitFrame next := by
  have reset : state.CommitFrame
      (state.modifyInst inst fun dyn => (dyn.reqCompleted req).resetL2Miss) :=
    .modifyInst state inst _ ((InstFrame.reqCompleted req).trans .resetL2Miss) rfl
      (reqCompleted_requests _ req) id
  obtain ⟨pending, _, rfl | ⟨last, rfl | ⟨mode, triggered, rfl⟩⟩⟩ := memResponse_cases stepped
  · exact .modifyInst state inst _ (.reqCompleted req) rfl (reqCompleted_requests _ req) id
  · exact reset
  · refine { reset with mode := .inr ⟨mode, rfl, inst, triggered, pending, ?_⟩ }
    change (state.insts.modify inst _ inst).outstandingReqs = []
    rw [modify_self]
    exact last

theorem writeback_frame {fault mispredicted : Bool}
    (stepped : state.writeback inst fault mispredicted = some next) :
    state.CommitFrame next := by
  simp only [writeback] at stepped
  split at stepped
  · split at stepped
    · cases stepped
      exact .refl state
    · cases stepped
      exact (CommitFrame.modifyInst state inst _ (.finish fault) rfl id id).redirect _ _ _
  · cases stepped

theorem LightStep.frame (light : state.LightStep next) : state.CommitFrame next := by
  obtain ⟨_, _, _, _, _, _, _, _, rfl⟩ := light
  have same := CommitFrame.refl state
  exact { same with insts := fun inst known => { same.insts inst known with } }

theorem tcWrite_frame {pc : Addr} (stepped : state.tcWrite pc = some next) :
    state.CommitFrame next := by
  have same := CommitFrame.refl state
  unfold tcWrite at stepped
  split at stepped
  · cases stepped
  · cases stepped
    exact { same with }

variable (state)

theorem squashInsts_frame (victims : List Nat) :
    state.CommitFrame (state.squashInsts victims) := by
  have squashed := CommitFrame.withInsts state
    (state.insts.modifyAll (fun inst => victims.contains inst) DynInst.setSquashed)
    (.modifyAll fun _ => .setSquashed)
    (fun inst => by rw [modifyAll_apply]; split <;> rfl)
    (fun inst => by rw [modifyAll_apply]; split <;> exact id)
    (fun inst => by rw [modifyAll_apply]; split <;> exact id)
  exact { squashed with }

theorem startTick_frame (phase : state.phase = .betweenTicks) :
    state.CommitFrame state.startTick := by
  have rank : state.phase.rank ≤ Phase.fetch.rank := by simp [phase, Phase.rank]
  have same := CommitFrame.refl state
  have squashed := squashInsts_frame state state.instsNotInROB
  unfold startTick
  split
  · exact { squashed with rank := rank, dispatch := fun _ => squashed.dispatch (by
      change state.phase ≠ .iew
      simp [phase]) }
  · exact { same with rank := rank, dispatch := fun _ _ _ => rfl }

theorem fetchInst_frame (staticInst : StaticInst) (pc nextPc : Addr) :
    state.CommitFrame (state.fetchInst staticInst pc nextPc) := by
  have old : ∀ inst < state.nextSeqNum,
      (state.fetchInst staticInst pc nextPc).insts inst = state.insts inst :=
    fun inst below => if_neg (Nat.ne_of_lt below)
  have same := CommitFrame.refl state
  exact { same with
    grows := Nat.le_succ _
    mode := .inl ⟨rfl, rfl⟩
    insts := fun inst below => old inst below ▸ .refl _
    dispatch := fun _ inst below => congrArg DynInst.dispatched (old inst below)
    requests := fun inst below pending =>
      .inl ((congrArg DynInst.outstandingReqs (old inst below)) ▸ pending)
    issued := fun inst below before =>
      .inl ((congrArg DynInst.issued (old inst below)).trans before)
    born := fun inst low high => by
      obtain rfl : inst = state.nextSeqNum := Nat.le_antisymm (Nat.lt_succ_iff.mp high) low
      rw [fetchInst_new]
      exact ⟨rfl, rfl⟩ }

theorem decodeSquash_frame (inst : Nat) :
    state.CommitFrame (state.decodeSquash inst) := by
  have squashed := squashInsts_frame state (state.core.instList.filter (inst < ·))
  exact { squashed with }

theorem startRename_frame (phase : state.phase = .fetch) :
    state.CommitFrame state.startRename := by
  have same := CommitFrame.refl state
  exact { same with
    rank := by simp [phase, startRename, Phase.rank]
    dispatch := fun _ _ _ => rfl }

variable {state}

theorem renameInst_frame (stepped : state.renameInst = some next) : state.CommitFrame next := by
  have same := CommitFrame.refl state
  obtain ⟨inst, rest, _, ⟨_, rfl⟩ | ⟨_, _, _, _, _, _, rfl⟩⟩ := renameInst_cases stepped
  · exact { same with }
  · exact { same with insts := fun other known => { same.insts other known with } }

theorem startIEW_frame (state : State) (phase : state.phase = .rename) :
    state.CommitFrame state.startIEW := by
  have rank : state.phase.rank ≤ Phase.iew.rank := by simp [phase, Phase.rank]
  have same := CommitFrame.refl state
  rcases startIEW_cases state with ⟨_, gone, queued, _, _, after⟩ | ⟨_, _, _, after⟩ <;> rw [after]
  · exact { same with
      rank := rank
      dispatch := fun other => absurd rfl other
      insts := fun inst known => { same.insts inst known with
        squashed := fun before => Bool.or_eq_true_iff.mpr (.inr before) }
      requests := fun inst _ => .inl
      issued := fun inst _ before => .inl (Bool.or_eq_true_iff.mpr (.inr before)) }
  · exact { same with rank := rank, dispatch := fun other => absurd rfl other }

def markDispatched (state : State) (inst : Nat) (done ready : Bool) : InstTable := fun other =>
  { state.insts other with
    dispatched := other = inst || (state.insts other).dispatched
    issued := (other = inst && done) || (state.insts other).issued
    executed := (other = inst && done) || (state.insts other).executed
    canCommit := (other = inst && ready) || (state.insts other).canCommit }

theorem dispatchInst_cases (stepped : state.dispatchInst = some next) :
    ∃ inst rest, state.skidBuffer = inst :: rest ∧ (next = { state with skidBuffer := rest } ∨
      (state.insts inst).squashed = false ∧ ∃ done ready storeQueue, next = { state with
        core := { state.core with insts := state.markDispatched inst done ready }
        skidBuffer := rest, storeQueue := storeQueue }) := by
  unfold dispatchInst at stepped
  split at stepped
  · cases stepped
  · next inst rest skid =>
    refine ⟨inst, rest, skid, ?_⟩
    simp only at stepped
    split at stepped
    · cases stepped
      exact .inl rfl
    · next alive =>
      cases stepped
      obtain ⟨done, ready, marked⟩ : ∃ done ready,
          State.modifyInst { state with skidBuffer := rest } inst dispatchUpdate =
            State.withInsts { state with skidBuffer := rest }
              (state.markDispatched inst done ready) := by
        refine ⟨!(state.insts inst).staticInst.needsRelease && (state.insts inst).staticInst.isNop,
          (state.insts inst).staticInst.needsRelease || (state.insts inst).staticInst.isNop,
          congrArg (State.withInsts _) (funext fun other => ?_)⟩
        change (if other = inst then dispatchUpdate (state.insts other) else state.insts other) = _
        unfold markDispatched dispatchUpdate
        split
        · next same =>
          subst same
          split
          · next releases => simp [releases]
          · next stays => split <;> simp_all
        · next different => simp [different]
      rw [marked]
      exact .inr ⟨by simpa using alive, done, ready, _, rfl⟩

theorem dispatchInst_frame (phase : state.phase = .iew) (stepped : state.dispatchInst = some next) :
    state.CommitFrame next := by
  have same := CommitFrame.refl state
  obtain ⟨inst, rest, _, rfl | ⟨_, done, ready, _, rfl⟩⟩ := dispatchInst_cases stepped
  · exact { same with }
  · exact { same with
      insts := fun other known => { same.insts other known with
        dispatched := fun before => Bool.or_eq_true_iff.mpr (.inr before)
        executed := fun before => Bool.or_eq_true_iff.mpr (.inr before) }
      dispatch := fun other => absurd phase other
      requests := fun other _ => .inl
      issued := fun other _ before => .inl (Bool.or_eq_true_iff.mpr (.inr before)) }

theorem execute_frame (inv : state.PipelineInv config) (member : inst ∈ state.toExecute)
    (change : DynInst → DynInst) (each : InstFrame (state.insts inst) (change (state.insts inst)))
    (dispatched : (change (state.insts inst)).dispatched = (state.insts inst).dispatched)
    (requests : (change (state.insts inst)).outstandingReqs ≠ [] →
      (state.insts inst).outstandingReqs ≠ [] ∨ (change (state.insts inst)).issued = true) :
    state.CommitFrame (State.modifyInst
      { state with toExecute := state.toExecute.erase inst } inst change) := by
  have same := CommitFrame.refl state
  have other : ∀ seqNum, seqNum ≠ inst → state.insts.modify inst change seqNum =
      state.insts seqNum := fun _ different => modify_other _ _ different
  have self : state.insts.modify inst change inst = change (state.insts inst) :=
    modify_self _ _ _
  exact { same with
    mode := .inl ⟨rfl, rfl⟩
    born := fun _ low high => absurd high (Nat.not_lt.mpr low)
    insts := fun seqNum _ => .modify each seqNum
    dispatch := fun _ seqNum _ => by
      change (state.insts.modify inst change seqNum).dispatched = _
      by_cases which : seqNum = inst
      · rw [which, self, dispatched]
      · rw [other seqNum which]
    executing := fun seqNum within =>
      .inl ((List.erase_sublist.append_right state.issuedNow).subset within)
    requests := fun seqNum _ pending => by
      change (state.insts.modify inst change seqNum).outstandingReqs ≠ [] at pending
      change _ ∨ _ ∧ _ ∧ (state.insts.modify inst change seqNum).issued = true
      by_cases which : seqNum = inst
      · rw [which, self] at pending
        rw [which, self]
        exact (requests pending).imp_right fun issued =>
          ⟨member, inv.status.not_mem_erase member, issued⟩
      · rw [other seqNum which] at pending
        exact .inl pending
    issued := fun seqNum _ before => by
      change (state.insts.modify inst change seqNum).issued = true ∨ _
      by_cases which : seqNum = inst
      · exact .inr (which ▸ member)
      · rw [other seqNum which]
        exact .inl before }

theorem executeInst_frame {outcome : ExecOutcome} (inv : state.PipelineInv config)
    (stepped : state.executeInst inst outcome = some next) : state.CommitFrame next := by
  obtain ⟨member, result⟩ := executeInst_cases stepped
  have issued := (inv.status.issuedPending inst (List.mem_append_left _ member)).2.1
  rcases result with ⟨_, rfl⟩ | ⟨_, fault, mispredicted, violator, _, _, rfl⟩ |
    ⟨_, _, reqs, violator, _, rfl⟩ | ⟨_, _, rfl⟩
  · exact execute_frame inv member _ .setExecuted rfl .inl
  · exact (execute_frame inv member _ (.finish fault) rfl .inl).redirect _ _ _
  · have accessed := execute_frame inv member (·.addReqs reqs) (.addReqs reqs) rfl
      fun _ => .inr issued
    refine CommitFrame.redirect ?_ _ _ _
    exact { accessed with }
  · exact execute_frame inv member _ .clearIssued rfl .inl

theorem issueInst_frame (stepped : state.issueInst inst = some next) : state.CommitFrame next := by
  obtain ⟨possible, rfl⟩ := fired stepped
  simp only [Bool.and_eq_true, Bool.not_eq_true'] at possible
  have issued := CommitFrame.modifyInst state inst DynInst.setIssued .setIssued rfl id fun _ => rfl
  refine { issued with
    executing := fun other member => ?_
    requests := fun other _ pending => ?_ }
  · change other ∈ state.toExecute ++ (state.issuedNow ++ [inst]) at member
    rw [← List.append_assoc, List.mem_append, List.mem_singleton] at member
    rcases member with before | rfl
    · exact .inl before
    · exact .inr possible.1.1.1.2
  · left
    change (state.insts.modify inst DynInst.setIssued other).outstandingReqs ≠ [] at pending
    rw [modify_apply] at pending
    split at pending <;> exact pending

/-- Every event other than a cycle of commit keeps commit's data. -/
theorem step_frame {event : Event} (inv : state.PipelineInv config)
    (stepped : state.step config event = some next) :
    (∃ env, event = .commitTick env) ∨ state.CommitFrame next := by
  cases event with
  | commitTick env => exact .inl ⟨env, rfl⟩
  | memResponse inst req =>
    exact .inr (memResponse_frame (ite_none_right_eq_some.mp stepped).2)
  | writeback inst fault mispredicted =>
    exact .inr (writeback_frame (ite_none_right_eq_some.mp stepped).2)
  | l2Miss | completeStore | trapFires | instToCommit | sendStore =>
    exact .inr (step_light rfl stepped).frame
  | tcWrite pc => exact .inr (tcWrite_frame (ite_none_right_eq_some.mp stepped).2)
  | startTick =>
    obtain ⟨phase, rfl⟩ := fired stepped
    exact .inr (startTick_frame state phase)
  | fetchInst staticInst pc nextPc =>
    obtain ⟨_, rfl⟩ := fired stepped
    exact .inr (fetchInst_frame state staticInst pc nextPc)
  | decodeSquash inst =>
    obtain ⟨_, rfl⟩ := fired stepped
    exact .inr (decodeSquash_frame state inst)
  | startRename =>
    obtain ⟨phase, rfl⟩ := fired stepped
    exact .inr (startRename_frame state phase)
  | renameInst => exact .inr (renameInst_frame (ite_none_right_eq_some.mp stepped).2)
  | startIEW =>
    obtain ⟨phase, rfl⟩ := fired stepped
    exact .inr (startIEW_frame state phase)
  | dispatchInst =>
    obtain ⟨possible, stepped⟩ := ite_none_right_eq_some.mp stepped
    simp only [Bool.and_eq_true, decide_eq_true_eq] at possible
    exact .inr (dispatchInst_frame possible.1 stepped)
  | executeInst inst outcome =>
    exact .inr (executeInst_frame inv (ite_none_right_eq_some.mp stepped).2)
  | issueInst inst => exact .inr (issueInst_frame (ite_none_right_eq_some.mp stepped).2)

end Events

end State

/-! ## What commit leaves alone -/

/-- The part of an instruction that commit never writes. -/
def DynInst.fixed (inst : DynInst) : DynInst :=
  { inst with
    squashed := false
    canCommit := false
    released := false
    runaheadInst := false
    invalid := false
    triggeredRunahead := false }

structure CommitInst (old new : DynInst) : Prop where
  fixed : DynInst.fixed new = DynInst.fixed old
  squashed : old.squashed = true → new.squashed = true
  marked : old.runaheadInst = true → new.runaheadInst = true

namespace CommitInst

variable {old new : DynInst}

theorem refl (inst : DynInst) : CommitInst inst inst := ⟨rfl, id, id⟩

theorem trans {first second third : DynInst} (left : CommitInst first second)
    (right : CommitInst second third) : CommitInst first third :=
  ⟨right.fixed.trans left.fixed, right.squashed ∘ left.squashed, right.marked ∘ left.marked⟩

theorem marks (only : Core.MarksOnly old new) : CommitInst old new := by
  obtain ⟨_, _, _, marked, rfl⟩ := only
  exact ⟨rfl, id, marked⟩

section

variable (same : CommitInst old new)
include same

theorem static : new.staticInst = old.staticInst :=
  (congrArg DynInst.staticInst same.fixed : _)

theorem dispatched : new.dispatched = old.dispatched :=
  (congrArg DynInst.dispatched same.fixed : _)

theorem issued : new.issued = old.issued :=
  (congrArg DynInst.issued same.fixed : _)

theorem outstandingReqs : new.outstandingReqs = old.outstandingReqs :=
  (congrArg DynInst.outstandingReqs same.fixed : _)

end

end CommitInst

namespace Core

structure CoreFrame (start core : Core) : Prop where
  insts : ∀ inst, CommitInst (start.insts inst) (core.insts inst)
  instList : core.instList = start.instList
  stays : start.inRunahead = true → core.inRunahead = true
  trigger : core.raTriggerInst = start.raTriggerInst ∨
    start.inRunahead = false ∧ core.inRunahead = true
  triggered : ∀ inst, (core.insts inst).triggeredRunahead = (start.insts inst).triggeredRunahead ∨
    start.inRunahead = false ∧ core.inRunahead = true ∧ inst = core.raTriggerInst ∧
      (start.insts inst).outstandingReqs ≠ []

namespace CoreFrame

variable {config : Config} {env : CommitEnv} {core next : Core}

theorem refl (core : Core) : CoreFrame core core :=
  ⟨fun _ => .refl _, rfl, id, .inl rfl, fun _ => .inl rfl⟩

theorem trans {first second third : Core} (left : CoreFrame first second)
    (right : CoreFrame second third) : CoreFrame first third where
  insts inst := (left.insts inst).trans (right.insts inst)
  instList := right.instList.trans left.instList
  stays := right.stays ∘ left.stays
  trigger := by
    have := left.trigger
    have := right.trigger
    have := left.stays
    have := right.stays
    grind
  triggered inst := by
    have := left.triggered inst
    have := right.triggered inst
    have := (left.insts inst).outstandingReqs
    have := right.trigger
    have := left.stays
    have := right.stays
    grind

theorem of_insts (instList : next.instList = core.instList)
    (mode : next.inRunahead = core.inRunahead) (trigger : next.raTriggerInst = core.raTriggerInst)
    (insts : ∀ inst, CommitInst (core.insts inst) (next.insts inst) ∧
      (next.insts inst).triggeredRunahead = (core.insts inst).triggeredRunahead) :
    CoreFrame core next :=
  ⟨fun inst => (insts inst).1, instList, fun before => mode.trans before, .inl trigger,
    fun inst => .inl (insts inst).2⟩

theorem of_same (insts : next.insts = core.insts) (instList : next.instList = core.instList)
    (mode : next.inRunahead = core.inRunahead)
    (trigger : next.raTriggerInst = core.raTriggerInst) : CoreFrame core next :=
  of_insts instList mode trigger fun inst => by
    rw [insts]
    exact ⟨.refl _, rfl⟩

theorem modifyInst (core : Core) (inst : Nat) (change : DynInst → DynInst)
    (changed : CommitInst (core.insts inst) (change (core.insts inst)))
    (triggered : (change (core.insts inst)).triggeredRunahead =
      (core.insts inst).triggeredRunahead) : CoreFrame core (core.modifyInst inst change) := by
  refine of_insts rfl rfl rfl fun other => ?_
  simp only [Core.modifyInst, modify_apply]
  split
  · next same =>
    subst same
    exact ⟨changed, triggered⟩
  · exact ⟨.refl _, rfl⟩

theorem of_squashesOnly (instList : next.instList = core.instList)
    (mode : next.inRunahead = core.inRunahead) (trigger : next.raTriggerInst = core.raTriggerInst)
    (only : State.SquashesOnly core.insts next.insts) : CoreFrame core next := by
  refine of_insts instList mode trigger fun inst => ?_
  rcases only inst with same | squashed
  · rw [same]
    exact ⟨.refl _, rfl⟩
  · rw [squashed]
    exact ⟨⟨rfl, fun _ => rfl, id⟩, rfl⟩

variable (config)

theorem squashAll (core : Core) : CoreFrame core (core.squashAll config) :=
  of_squashesOnly rfl rfl rfl (.of_squash _ _ _ _)

theorem handleSquashes (fromIEW : IewStruct) (core : Core) :
    CoreFrame core (core.handleSquashes config fromIEW) := by
  have own : CoreFrame core (core.ownSquashes config) := by
    have all := squashAll config core
    rcases ownSquashes_cases config core with
      ⟨same, _⟩ | ⟨_, same⟩ | ⟨_, _, same⟩ | ⟨_, _, _, same⟩ <;> rw [same]
    · exact refl core
    · exact { all with }
    · exact { all with }
    · exact { all with }
  unfold Core.handleSquashes
  simp only
  split
  · exact own.trans (of_squashesOnly rfl rfl rfl (.of_squash _ _ _ _))
  · exact own

theorem continueSquash (core : Core) :
    CoreFrame core (core.continueSquash config) := by
  unfold Core.continueSquash
  split
  · split
    · exact of_same rfl rfl rfl rfl
    · exact of_squashesOnly rfl rfl rfl (.of_doSquash _ _ _)
  · exact refl core

theorem checkForInterrupts (env : CommitEnv) (core : Core) :
    CoreFrame core (core.checkForInterrupts config env) := by
  obtain ⟨_, _, same⟩ := checkForInterrupts_eq config env core
  rw [same]
  exact of_same rfl rfl rfl rfl

variable {config}

theorem getInst {inst : Nat} (accepted : core.getInst config inst = .ok next) :
    CoreFrame core next := by
  rcases getInst_cases accepted with ⟨rfl, _⟩ | ⟨rfl, _⟩
  · exact refl _
  · refine of_insts rfl rfl rfl fun other => ?_
    refine ⟨.marks (inserted_marks core inst other), ?_⟩
    simp only [inserted]
    split
    · rw [modify_apply]
      split <;> rfl
    · rfl

theorem handleInterrupt (env : CommitEnv) (core : Core) :
    CoreFrame core (core.handleInterrupt env) := by
  unfold Core.handleInterrupt
  split
  · exact of_same rfl rfl rfl rfl
  · split
    · exact of_same rfl rfl rfl rfl
    · exact refl core

theorem afterCommit (env : CommitEnv) (core : Core) (head : Nat) :
    CoreFrame core (core.afterCommit env head) := by
  obtain ⟨_, _, _, same⟩ := afterCommit_cases env core head
  rw [same]
  exact of_same rfl rfl rfl rfl

theorem invalidates {insts : InstTable} (only : Invalidates core.insts insts) :
    CoreFrame core { core with insts := insts } := by
  refine of_insts rfl rfl rfl fun inst => ⟨.marks (only.marks inst).1, ?_⟩
  rcases only inst with same | same <;> exact (congrArg (·.triggeredRunahead) same : _)

theorem headStep (step : HeadStep env core next) : CoreFrame core next := by
  have invalidated : ∀ head, CoreFrame core (core.modifyInst head DynInst.setInvalid) :=
    fun head => invalidates (.modify _ head)
  cases step with
  | stay => exact refl _
  | @enter head rest next atHead enters entered =>
    obtain ⟨normal, requests, insts, inv, rfl, only, _, others⟩ := enterRunaheadMode_cases entered
    have pending : (core.insts head).outstandingReqs ≠ [] := by
      simpa [DynInst.numOutstandingRequests] using requests
    refine ⟨fun inst => .marks (only inst), rfl, fun _ => rfl, .inr ⟨normal, rfl⟩, fun inst => ?_⟩
    by_cases same : inst = head
    · subst same
      exact .inr ⟨normal, rfl, rfl, pending⟩
    · exact .inl (others inst same)
  | invalidate atHead mode => exact invalidated _
  | @pseudoRetire head rest marked atHead mode which =>
    have retired : CoreFrame marked ((marked.invalidateDestRegs head).retireHead head) :=
      of_same rfl rfl rfl rfl
    rcases which with rfl | rfl
    · exact retired
    · exact (invalidated head).trans retired
  | dropSquashed atHead normalMode unmarked squashed => exact of_same rfl rfl rfl rfl
  | hold atHead readyHead => exact of_same rfl rfl rfl rfl
  | @release head rest atHead readyHead waiting drained =>
    have released := modifyInst core head DynInst.clearCanCommit ⟨rfl, id, id⟩ rfl
    exact { released with }
  | trap atHead readyHead executed faulted => exact of_same rfl rfl rfl rfl
  | @commit head rest atHead readyHead executed faultless =>
    have committed : CoreFrame core
        (commitInst { core with pc := (core.insts head).pc } head) := of_same rfl rfl rfl rfl
    exact committed.trans (afterCommit env _ _)

theorem markCompletedInsts (core : Core) (fromIEW : IewStruct) :
    CoreFrame core (core.markCompletedInsts fromIEW) := by
  refine of_insts rfl rfl rfl fun inst => ?_
  simp only [Core.markCompletedInsts, modifyAll_apply]
  split
  · exact ⟨⟨rfl, id, id⟩, rfl⟩
  · exact ⟨.refl _, rfl⟩

theorem getInsts {offered : List Nat} (accepted : core.getInsts config offered = .ok next) :
    CoreFrame core next :=
  getInstsLoop_invariant (fun _ _ current => CoreFrame core current)
    (fun _ _ _ _ _ before accepted => before.trans (getInst accepted)) [] (refl core)
    accepted

theorem commitInsts (accepted : core.commitInsts config env = .ok next) : CoreFrame core next :=
  commitLoop_invariant (CoreFrame core) (fun _ before _ => before.trans (handleInterrupt env _))
    (fun _ _ before _ step => before.trans (headStep step))
    (invalidates (debugPrintROB_invalidates core)) accepted

end CoreFrame

end Core

namespace State

variable {config : Config} {env : CommitEnv} {state next : State}

theorem finishIEW_frame (state : State) : Core.CoreFrame state.core state.finishIEW.core := by
  obtain ⟨insts, _, same, rfl | ⟨_, rfl⟩⟩ := finishIEW_cases state <;> rw [same]
  · exact .refl _
  · exact .modifyInst state.core _ _ ⟨rfl, id, id⟩ rfl

/-- A cycle of commit, as the other stages see it. -/
theorem commitTick_frame (stepped : state.commitTick config env = some next) :
    ∃ done storeQueue, Core.CoreFrame state.core done ∧
      next = { state with core := done, storeQueue := storeQueue }.advance := by
  obtain ⟨_, seen, done, _, rfl, finish⟩ := commitTick_cases stepped
  obtain ⟨insts, storeQueue, same, _⟩ := finishIEW_cases state
  refine ⟨done.markCompletedInsts state.finishIEW.iewToCommit, storeQueue, ?_, by rw [same]; rfl⟩
  have checked := ((finishIEW_frame state).trans (.continueSquash config _)).trans
    (.checkForInterrupts config seen _)
  refine .trans ?_ (.markCompletedInsts done _)
  rcases finish with ⟨rfl, _⟩ | ⟨_, _, _, filled, got, committed⟩
  · exact checked.trans (.handleSquashes config _ _)
  · exact (checked.trans (.getInsts got)).trans (.commitInsts committed)

end State

end Runahead.O3
