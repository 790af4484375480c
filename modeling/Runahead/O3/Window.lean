import Runahead.O3.Mode

/-!
# The runahead window

What holds while no write through the thread context and no interrupt falls
into a window. Every squash request of the IEW stage that commit may accept
comes from an instruction that is still in the ROB or, in the window, at least
as young as the trigger. So no request reaches behind the trigger, the exit
squash keeps its slot, and commit accepts it.
-/

set_option autoImplicit false

namespace Runahead.O3

open Library List

/-- Unexecuted control and memory instructions can still ask for a squash. -/
def DynInst.mayRedirect (inst : DynInst) : Bool :=
  inst.dispatched && !inst.executed && !inst.squashed &&
    (inst.staticInst.isControl || inst.staticInst.isMemRef)

/-- Nothing but a squash can have happened to the instruction since it was dispatched. -/
def DynInst.isPending (inst : DynInst) : Bool :=
  inst.dispatched && !inst.canCommit && !inst.squashed

namespace State

variable {config : Config} {env : CommitEnv} {state next : State} {core : Core}
variable {taken offered : List Nat} {inst : Nat}

/-- No write through the thread context falls into a window, and interrupts wait. -/
def quietWindow (state : State) : Event → Bool
  | .tcWrite _ => !state.inWindow
  | event => state.interruptsWait event

/-- The instruction is in the ROB or may have been pseudo-retired. -/
def Held (state : State) (inst : Nat) : Prop :=
  inst ∈ state.core.rob.instList ∨ state.inWindow = true ∧ state.core.raTriggerInst ≤ inst

/-- A stage has yet to read a squash that discards the instruction. -/
def SquashUnseen (state : State) (rank inst : Nat) : Prop :=
  state.phase.rank < rank ∧ state.fromCommit.squash = true ∧ state.fromCommit.doneSeqNum < inst

/-- Commit refused the instruction because a trap is pending. -/
def Dropped (state : State) (inst : Nat) : Prop :=
  state.core.commitStatus = .trapPending ∧ state.core.youngestSeqNum < inst ∧
    ∀ older ∈ state.core.rob.instList, older < inst

/-- A non-memory instruction executes in the cycle in which IEW reads the
squash that discards it. -/
def Executing (state : State) (inst : Nat) : Prop :=
  state.phase = .iew ∧ state.fromCommit.squash = true ∧ inst ∈ state.toExecute ∧
    (state.insts inst).staticInst.isMemRef = false ∧ state.core.youngestSeqNum < inst

structure YoungestInv (state : State) (offered : List Nat) : Prop where
  below : ∀ inst ∈ state.waiting offered, state.core.youngestSeqNum < inst
  bounded : state.core.youngestSeqNum < state.nextSeqNum
  committed : state.core.lastCommitedSeqNum ≤ state.core.youngestSeqNum
  covers : ∀ inst ∈ state.core.rob.instList,
    (state.insts inst).squashed = true ∨ inst ≤ state.core.youngestSeqNum ∨
      state.core.commitStatus = .robSquashing ∧ state.core.rob.squashedSeqNum < inst
  signalled : state.fromCommit.squash = true →
    state.core.youngestSeqNum ≤ state.fromCommit.doneSeqNum

structure RedirectInv (state : State) (taken offered : List Nat) : Prop where
  located : ∀ inst, DynInst.mayRedirect (state.insts inst) = true →
    state.Held inst ∨ state.SquashUnseen 3 inst ∨ state.Dropped inst ∨ state.Executing inst
  dispatchLocated : ∀ inst ∈ state.toDispatch taken,
    (state.insts inst).squashed = true ∨ state.Held inst ∨ state.SquashUnseen 3 inst ∨
      state.Dropped inst
  /-- Commit refuses the request of the current cycle, or it comes from an
  instruction that cannot have left the ROB by the time commit reads it. -/
  current : state.iewCurrent.squash = true → state.iewCurrent.squashAfterRunahead = false →
    (state.core.youngestSeqNum < state.iewCurrent.squashedSeqNum ∧
      (state.core.commitStatus = .trapPending ∨ state.fromCommit.squash = true ∨
        ∀ inst ∈ offered, (state.insts inst).squashed = true)) ∨
    ∃ inst, state.Held inst ∧ inst ≤ state.iewCurrent.squashedInst ∧
      (state.inWindow = true ∨ DynInst.isPending (state.insts inst) = true)
  toCommit : state.iewToCommit.squash = true → state.iewToCommit.squashAfterRunahead = false →
    state.core.youngestSeqNum < state.iewToCommit.squashedSeqNum ∨
    ∃ inst, state.Held inst ∧ inst ≤ state.iewToCommit.squashedInst ∧
      (state.inWindow = true ∨ (state.insts inst).squashed = false)
  branchExecuted : state.iewCurrent.squash = true → state.iewCurrent.includeSquashInst = false →
    (state.insts state.iewCurrent.squashedSeqNum).executed = true

/-- The exit squash stands in its slot as `exitRunaheadMode` has put it there. -/
structure ExitSlot (slot : IewStruct) (trigger : Nat) : Prop where
  squash : slot.squash = true
  includes : slot.includeSquashInst = true
  trigger : slot.squashedSeqNum = trigger

structure WindowInv (state : State) : Prop where
  afterCommitted : state.inWindow = true → state.core.lastCommitedSeqNum < state.core.raTriggerInst
  beforeYoungest : state.inWindow = true → state.core.raTriggerInst ≤ state.core.youngestSeqNum
  above : state.inWindow = true → ∀ inst ∈ state.core.rob.instList, state.core.raTriggerInst ≤ inst
  noSquashAfter : state.inWindow = true → state.core.commitStatus ≠ .squashAfterPending
  noThreadContext : state.inWindow = true → state.core.tcSquash = false
  exitCurrent : state.iewCurrent.squashAfterRunahead = true →
    ExitSlot state.iewCurrent state.core.raTriggerInst
  exitToCommit : state.iewToCommit.squashAfterRunahead = true →
    ExitSlot state.iewToCommit state.core.raTriggerInst

/-- Outside the window marked instructions are about to disappear. -/
structure MarkInv (state : State) (offered : List Nat) : Prop where
  rob : state.inWindow = false → ∀ inst ∈ state.core.rob.instList,
    (state.insts inst).runaheadInst = true → (state.insts inst).squashed = true ∨
      state.core.commitStatus = .robSquashing ∧ state.core.rob.squashedSeqNum < inst
  waiting : state.inWindow = false → ∀ inst ∈ state.waiting offered,
    (state.insts inst).runaheadInst = true → (state.insts inst).squashed = true ∨
      state.SquashUnseen 1 inst

structure QuietInvAt (state : State) (taken offered : List Nat) : Prop where
  youngest : state.YoungestInv offered
  redirect : state.RedirectInv taken offered
  window : state.WindowInv
  marks : state.MarkInv offered

structure QuietInv (config : Config) (state : State) : Prop where
  pipeline : state.PipelineInv config
  trigger : state.TriggerInv
  mode : state.ModeInv
  quiet : state.QuietInvAt [] state.renameQueue1

/-! ## Events that ask for no squash -/

section Frames

variable (frame : state.CommitFrame next)
include frame

theorem CommitFrame.held (stays : state.inWindow = true → next.inWindow = true)
    (held : state.Held inst) : next.Held inst := by
  unfold Held
  rw [frame.rob, frame.raTriggerInst]
  exact held.imp_right (And.imp_left stays)

theorem CommitFrame.dropped (dropped : state.Dropped inst) : next.Dropped inst := by
  unfold Dropped
  rw [frame.commitStatus, frame.youngestSeqNum, frame.rob]
  exact dropped

theorem CommitFrame.youngest (inv : state.QuietInv config)
    (waiting : ∀ inst ∈ next.waiting state.renameQueue1,
      inst ∈ state.waiting state.renameQueue1 ∨ state.nextSeqNum ≤ inst) :
    next.YoungestInv state.renameQueue1 := by
  have youngest := inv.quiet.youngest
  constructor
  · intro inst member
    rw [frame.youngestSeqNum]
    rcases waiting inst member with old | new
    · exact youngest.below inst old
    · exact Nat.lt_of_lt_of_le youngest.bounded new
  · rw [frame.youngestSeqNum]
    exact Nat.lt_of_lt_of_le youngest.bounded frame.grows
  · rw [frame.youngestSeqNum, frame.lastCommitedSeqNum]
    exact youngest.committed
  · intro inst member
    rw [frame.rob] at member
    have bound := inv.pipeline.queues.bounded inst (mem_append_left _ member)
    rw [frame.youngestSeqNum, frame.commitStatus, frame.rob]
    exact (youngest.covers inst member).imp_left (frame.insts inst bound).squashed
  · rw [frame.fromCommit, frame.youngestSeqNum]
    exact youngest.signalled

end Frames

structure Silent (state next : State) : Prop where
  frame : state.CommitFrame next
  mode : next.core.inRunahead = state.core.inRunahead
  slot : { next.iewCurrent with insts := [] } = { state.iewCurrent with insts := [] }
  threadContext : state.inWindow = true → state.core.tcSquash = false → next.core.tcSquash = false
  /-- Instructions on their way to the ROB were so before or are fetched now. -/
  waiting : ∀ inst ∈ next.waiting state.renameQueue1,
    (inst ∈ state.waiting state.renameQueue1 ∧ (state.SquashUnseen 1 inst →
      (next.insts inst).squashed = true ∨ next.SquashUnseen 1 inst)) ∨
    (state.nextSeqNum ≤ inst ∧
      ((next.insts inst).runaheadInst = true → state.core.inRunahead = true))
  toDispatch : ∀ inst ∈ next.toDispatch [], inst ∈ state.toDispatch [] ∧
    (state.SquashUnseen 3 inst → next.SquashUnseen 3 inst)
  /-- An instruction that may ask for a squash could do so before or is dispatched now. -/
  redirects : ∀ inst, DynInst.mayRedirect (next.insts inst) = true →
    (DynInst.mayRedirect (state.insts inst) = true ∧
      (state.SquashUnseen 3 inst → next.SquashUnseen 3 inst ∨ next.Executing inst) ∧
      (state.Executing inst → next.Executing inst)) ∨
    (inst ∈ state.toDispatch [] ∧ (state.insts inst).squashed = false ∧ state.phase = .iew)
  spared : ∀ inst ∈ state.core.rob.instList, DynInst.isPending (state.insts inst) = true →
    DynInst.isPending (next.insts inst) = true ∨
      state.fromCommit.squash = true ∧ state.core.youngestSeqNum < inst
  alive : ∀ inst ∈ state.core.rob.instList, (state.insts inst).squashed = false →
    (next.insts inst).squashed = false ∨ state.core.youngestSeqNum < inst

namespace Silent

variable (silent : state.Silent next)
include silent

theorem inWindow : next.inWindow = state.inWindow := by
  have exit : next.iewCurrent.squashAfterRunahead = state.iewCurrent.squashAfterRunahead :=
    (congrArg IewStruct.squashAfterRunahead silent.slot : _)
  unfold State.inWindow
  rw [silent.mode, exit, silent.frame.iewToCommit]

theorem squashedInst : next.iewCurrent.squashedInst = state.iewCurrent.squashedInst :=
  (congrArg IewStruct.squashedInst silent.slot : _)

theorem held : next.Held inst ↔ state.Held inst := by
  unfold Held
  rw [silent.frame.rob, silent.frame.raTriggerInst, silent.inWindow]

section

variable (inv : state.QuietInv config)
include inv

theorem redirect : next.RedirectInv [] state.renameQueue1 := by
  have redirect := inv.quiet.redirect
  have frame := silent.frame
  have squash : next.iewCurrent.squash = state.iewCurrent.squash :=
    (congrArg IewStruct.squash silent.slot : _)
  have number : next.iewCurrent.squashedSeqNum = state.iewCurrent.squashedSeqNum :=
    (congrArg IewStruct.squashedSeqNum silent.slot : _)
  have exit : next.iewCurrent.squashAfterRunahead = state.iewCurrent.squashAfterRunahead :=
    (congrArg IewStruct.squashAfterRunahead silent.slot : _)
  have includes : next.iewCurrent.includeSquashInst = state.iewCurrent.includeSquashInst :=
    (congrArg IewStruct.includeSquashInst silent.slot : _)
  have squashed : ∀ inst < state.nextSeqNum, (state.insts inst).squashed = true →
      (next.insts inst).squashed = true := fun inst below => (frame.insts inst below).squashed
  constructor
  · intro inst may
    rcases silent.redirects inst may with ⟨before, unseenAfter, executingAfter⟩ |
        ⟨member, alive, phase⟩
    · rcases redirect.located inst before with held | unseen | dropped | executing
      · exact .inl (silent.held.mpr held)
      · exact .inr ((unseenAfter unseen).imp_right .inr)
      · exact .inr (.inr (.inl (frame.dropped dropped)))
      · exact .inr (.inr (.inr (executingAfter executing)))
    · rcases redirect.dispatchLocated inst member with squashed | held | unseen | dropped
      · exact clash alive squashed
      · exact .inl (silent.held.mpr held)
      · have := unseen.1
        simp [phase, Phase.rank] at this
      · exact .inr (.inr (.inl (frame.dropped dropped)))
  · intro inst member
    obtain ⟨member, unseenAfter⟩ := silent.toDispatch inst member
    refine (redirect.dispatchLocated inst member).imp
      (squashed inst (inv.pipeline.queues.dispatchBounded inst member)) ?_
    rintro (held | unseen | dropped)
    · exact .inl (silent.held.mpr held)
    · exact .inr (.inl (unseenAfter unseen))
    · exact .inr (.inr (frame.dropped dropped))
  · rw [squash, exit, number, silent.squashedInst, silent.inWindow, frame.youngestSeqNum,
      frame.commitStatus, frame.fromCommit]
    intro asks notExit
    rcases redirect.current asks notExit with ⟨refused, why⟩ | ⟨inst, held, older, source⟩
    · refine .inl ⟨refused, why.imp_right (Or.imp_right fun all inst member => ?_)⟩
      exact squashed inst (inv.pipeline.queues.bounded inst
        (mem_append_right _ (mem_append_left _ member))) (all inst member)
    · have kept := silent.held.mpr held
      rcases held with inside | ⟨window, _⟩
      · rcases source with window | pending
        · exact .inr ⟨inst, kept, older, .inl window⟩
        · rcases silent.spared inst inside pending with still | ⟨signal, younger⟩
          · exact .inr ⟨inst, kept, older, .inr still⟩
          · have := state.iewCurrent.squashedInst_le
            exact .inl ⟨by omega, .inr (.inl signal)⟩
      · exact .inr ⟨inst, kept, older, .inl window⟩
  · rw [silent.inWindow, frame.youngestSeqNum, frame.iewToCommit]
    intro asks notExit
    rcases redirect.toCommit asks notExit with refused | ⟨inst, held, older, source⟩
    · exact .inl refused
    · have kept := silent.held.mpr held
      rcases held with inside | ⟨window, _⟩
      · rcases source with window | alive
        · exact .inr ⟨inst, kept, older, .inl window⟩
        · rcases silent.alive inst inside alive with still | younger
          · exact .inr ⟨inst, kept, older, .inr still⟩
          · have := state.iewToCommit.squashedInst_le
            exact .inl (by omega)
      · exact .inr ⟨inst, kept, older, .inl window⟩
  · rw [squash, includes, number]
    intro asks excludes
    have executed := redirect.branchExecuted asks excludes
    exact (frame.insts _ (inv.pipeline.dispatched_lt
      ((inv.pipeline.status.each _).executedDispatched executed))).executed executed

theorem window : next.WindowInv := by
  have window := inv.quiet.window
  have frame := silent.frame
  have exit : next.iewCurrent.squashAfterRunahead = state.iewCurrent.squashAfterRunahead :=
    (congrArg IewStruct.squashAfterRunahead silent.slot : _)
  constructor
  · rw [silent.inWindow, frame.lastCommitedSeqNum, frame.raTriggerInst]
    exact window.afterCommitted
  · rw [silent.inWindow, frame.youngestSeqNum, frame.raTriggerInst]
    exact window.beforeYoungest
  · rw [silent.inWindow, frame.rob, frame.raTriggerInst]
    exact window.above
  · rw [silent.inWindow, frame.commitStatus]
    exact window.noSquashAfter
  · rw [silent.inWindow]
    exact fun inside => silent.threadContext inside (window.noThreadContext inside)
  · rw [exit]
    intro exit
    have slot := window.exitCurrent exit
    exact ⟨(congrArg IewStruct.squash silent.slot : _).trans slot.squash,
      (congrArg IewStruct.includeSquashInst silent.slot : _).trans slot.includes,
      ((congrArg IewStruct.squashedSeqNum silent.slot : _).trans slot.trigger).trans
        frame.raTriggerInst.symm⟩
  · rw [frame.iewToCommit]
    intro exit
    have slot := window.exitToCommit exit
    exact ⟨slot.squash, slot.includes, slot.trigger.trans frame.raTriggerInst.symm⟩

theorem marks : next.MarkInv state.renameQueue1 := by
  have marks := inv.quiet.marks
  have frame := silent.frame
  constructor
  · rw [silent.inWindow, frame.rob, frame.commitStatus]
    intro outside inst member marked
    have below := inv.pipeline.queues.bounded inst (mem_append_left _ member)
    exact (marks.rob outside inst member
      ((frame.insts inst below).marked.symm.trans marked)).imp_left
        (frame.insts inst below).squashed
  · rw [silent.inWindow]
    intro outside inst member marked
    rcases silent.waiting inst member with ⟨member, unseenAfter⟩ | ⟨_, inRunahead⟩
    · have below := inv.pipeline.queues.bounded inst (mem_append_right _ member)
      rcases marks.waiting outside inst member
        ((frame.insts inst below).marked.symm.trans marked) with squashed | unseen
      · exact .inl ((frame.insts inst below).squashed squashed)
      · exact unseenAfter unseen
    · have inside := (inWindow_iff state).mpr (.inl (inRunahead marked))
      exact clash outside inside

theorem quiet : next.QuietInvAt [] next.renameQueue1 := by
  rw [silent.frame.renameQueue1]
  exact ⟨silent.frame.youngest inv fun inst member => (silent.waiting inst member).imp And.left
    And.left, silent.redirect inv, silent.window inv, silent.marks inv⟩

end

end Silent

theorem Silent.refl (state : State) : state.Silent state where
  frame := .refl state
  mode := rfl
  slot := rfl
  threadContext _ := id
  waiting _ member := .inl ⟨member, .inr⟩
  toDispatch _ member := ⟨member, id⟩
  redirects _ may := .inl ⟨may, .inl, id⟩
  spared _ _ := .inl
  alive _ _ := .inl

theorem Silent.execute {change : DynInst → DynInst} {toExecute : List Nat}
    (frame : state.CommitFrame { state.modifyInst inst change with toExecute := toExecute })
    (static : (change (state.insts inst)).staticInst = (state.insts inst).staticInst)
    (redirects : DynInst.mayRedirect (change (state.insts inst)) = true →
      DynInst.mayRedirect (state.insts inst) = true)
    (spared : DynInst.isPending (state.insts inst) = true →
      DynInst.isPending (change (state.insts inst)) = true)
    (alive : (state.insts inst).squashed = true ↔ (change (state.insts inst)).squashed = true)
    (executing : ∀ other, DynInst.mayRedirect (state.insts.modify inst change other) = true →
      (state.insts other).staticInst.isMemRef = false → other ∈ state.toExecute →
      other ∈ toExecute) :
    state.Silent { state.modifyInst inst change with toExecute := toExecute } := by
  have same := Silent.refl state
  have sameStatic : ∀ other, (state.insts.modify inst change other).staticInst =
      (state.insts other).staticInst := by
    intro other
    rw [InstTable.modify_apply]
    split
    · next which => exact which ▸ static
    · rfl
  refine { same with
    frame := frame
    waiting := fun other member => .inl ⟨member, .inr⟩
    redirects := fun other may => .inl ⟨?_, .inl, fun running => ?_⟩
    spared := fun other _ pending => .inl ?_
    alive := fun other _ alive => .inl ?_ }
  · change DynInst.mayRedirect (state.insts.modify inst change other) = true at may
    rw [InstTable.modify_apply] at may
    split at may
    · next which => exact which ▸ redirects (which ▸ may)
    · exact may
  · obtain ⟨phase, signal, member, notMemory, younger⟩ := running
    exact ⟨phase, signal, executing other may notMemory member,
      (congrArg StaticInst.isMemRef (sameStatic other)).trans notMemory, younger⟩
  · change DynInst.isPending (state.insts.modify inst change other) = true
    rw [InstTable.modify_apply]
    split
    · next which => exact which ▸ spared (which ▸ pending)
    · exact pending
  · change (state.insts.modify inst change other).squashed = false
    rw [InstTable.modify_apply]
    split
    · next which =>
      subst which
      rw [← Bool.not_eq_true, ← alive, Bool.not_eq_true]
      assumption
    · exact alive

theorem LightStep.silent (light : state.LightStep next) : state.Silent next := by
  have frame := light.frame
  obtain ⟨_, _, _, _, _, _, _, _, rfl⟩ := light
  exact { Silent.refl state with frame := frame }

theorem tcWrite_silent {pc : Addr} (outside : state.inWindow = false)
    (stepped : state.tcWrite pc = some next) : state.Silent next := by
  have same := Silent.refl state
  have frame := tcWrite_frame stepped
  unfold tcWrite at stepped
  split at stepped
  · cases stepped
  · cases stepped
    exact { same with
      frame := frame
      threadContext := fun inside => clash outside inside }

theorem squashInsts_silent (state : State) {victims frontEnd : List Nat}
    (sub : frontEnd ⊆ state.frontEnd)
    (spared : ∀ inst ∈ state.core.rob.instList, inst ∉ victims) :
    state.Silent { state.squashInsts victims with frontEnd := frontEnd } := by
  have same := Silent.refl state
  have frame := squashInsts_frame state victims
  have changed : ∀ inst, (state.squashInsts victims).insts inst = state.insts inst ∨
      (state.squashInsts victims).insts inst = (state.insts inst).setSquashed := by
    intro inst
    change state.insts.modifyAll _ _ inst = _ ∨ state.insts.modifyAll _ _ inst = _
    rw [InstTable.modifyAll_apply]
    split
    · exact .inr rfl
    · exact .inl rfl
  have kept : ∀ inst ∈ state.core.rob.instList,
      (state.squashInsts victims).insts inst = state.insts inst :=
    fun inst inside => if_neg (by simpa using spared inst inside)
  refine { same with
    frame := { frame with }
    waiting := fun inst member => .inl ⟨?_, .inr⟩
    redirects := fun inst may => .inl ⟨?_, .inl, fun executing => ?_⟩
    spared := fun inst inside pending => .inl ((kept inst inside).symm ▸ pending)
    alive := fun inst inside alive => .inl ((kept inst inside).symm ▸ alive) }
  · simp only [waiting, mem_append] at member ⊢
    exact member.imp_right (Or.imp_right fun front => sub front)
  · have may : DynInst.mayRedirect ((state.squashInsts victims).insts inst) = true := may
    rcases changed inst with unchanged | squashed
    · exact unchanged ▸ may
    · rw [squashed] at may
      simp [DynInst.mayRedirect, DynInst.setSquashed] at may
  · refine ⟨executing.1, executing.2.1, executing.2.2.1, ?_, executing.2.2.2.2⟩
    rcases changed inst with unchanged | squashed
    · rw [unchanged]
      exact executing.2.2.2.1
    · rw [squashed]
      exact executing.2.2.2.1

theorem decodeSquash_silent (inv : state.PipelineInv config) (member : inst ∈ state.frontEnd) :
    state.Silent (state.decodeSquash inst) := by
  refine squashInsts_silent state filter_sublist.subset fun other inside victim => ?_
  have older := (pairwise_append.mp inv.queues.robOrdered).2.2 other inside inst
    (mem_append_right _ (mem_append_right _ member))
  have younger : inst < other := by simpa using (mem_filter.mp victim).2
  omega

theorem renameInst_silent (stepped : state.renameInst = some next) : state.Silent next := by
  have same := Silent.refl state
  have frame := renameInst_frame stepped
  obtain ⟨inst, rest, front, ⟨_, rfl⟩ | ⟨_, _, _, _, _, _, rfl⟩⟩ := renameInst_cases stepped
  · exact { same with
      frame := frame
      waiting := fun other within => .inl ⟨by
        simp only [waiting, mem_append, front, mem_cons] at within ⊢
        tauto, .inr⟩ }
  · exact { same with
      frame := frame
      waiting := fun other within => .inl ⟨by
        simp only [waiting, mem_append, front, mem_cons] at within ⊢
        tauto, .inr⟩ }

theorem issueInst_silent (stepped : state.issueInst inst = some next) : state.Silent next := by
  have frame := issueInst_frame stepped
  obtain ⟨_, rfl⟩ := fired stepped
  have issued : state.Silent (state.modifyInst inst DynInst.setIssued) :=
    .execute (.modifyInst state inst _ .setIssued rfl id fun _ => rfl) rfl id id .rfl
      fun _ _ _ => id
  exact { issued with frame := frame }

end State

end Runahead.O3
