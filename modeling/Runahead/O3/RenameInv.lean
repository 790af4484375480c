import Runahead.O3.ExitSquash
import Runahead.O3.RenameUnit

/-!
# Rename and commit agree

In runs with quiet windows the history buffer leads from the commit rename map
to the rename map once the entries of committed instructions are left out. The
entries of the others belong to instructions that are still on their way: in
the ROB or about to get there, pseudo-retired in the window, or waiting for a
squash that rename has not read yet.
-/

set_option autoImplicit false

namespace Runahead.O3.State

open Library List RenameState
open Option (ite_none_right_eq_some)

variable {config : Config} {env : CommitEnv} {state next : State} {core : Core}
variable {taken offered : List Nat} {inst : Nat}

/-- The instruction is squashed or the ROB is about to squash it. -/
def Doomed (state : State) (inst : Nat) : Prop :=
  (state.insts inst).squashed = true ∨ inst ∈ state.core.rob.instList ∧
    state.core.commitStatus = .robSquashing ∧ state.core.rob.squashedSeqNum < inst

def uncommittedEntries (state : State) : List RenameHistory :=
  state.rename.historyBuffer.filter fun entry =>
    decide (state.core.lastCommitedSeqNum < entry.instSeqNum)

/-- The mappings that the history has for an instruction, oldest first. -/
def mappingsOf (history : List RenameHistory) (inst : Nat) : List (RegId × PhysRegId) :=
  ((history.filter fun entry => decide (entry.instSeqNum = inst)).reverse).map fun entry =>
    (entry.archReg, entry.newPhysReg)

structure RenameInvAt (config : Config) (state : State) (offered : List Nat) : Prop where
  valid : state.rename.Valid config.archRegs config.physRegs
  tracks : Tracks historyView state.core.commitRenameMap state.uncommittedEntries
    state.rename.renameMap
  ordered : state.rename.historyBuffer.Pairwise fun newer older =>
    older.instSeqNum ≤ newer.instSeqNum
  followed : ∀ entry ∈ state.rename.historyBuffer, entry.instSeqNum < state.nextSeqNum ∧
    ∀ inst ∈ state.frontEnd, entry.instSeqNum < inst
  known : ∀ inst, config.knows (state.insts inst).staticInst = true
  located : ∀ entry ∈ state.uncommittedEntries,
    state.Held entry.instSeqNum ∨ entry.instSeqNum ∈ offered ++ state.renameQueue0 ∨
      state.SquashUnseen 2 entry.instSeqNum ∨ state.Dropped entry.instSeqNum
  doomed : ∀ entry ∈ state.uncommittedEntries, state.Doomed entry.instSeqNum →
    state.SquashUnseen 2 entry.instSeqNum
  mapped : ∀ inst ∈ state.core.rob.instList ++ (offered ++ state.renameQueue0),
    mappingsOf state.rename.historyBuffer inst = (state.insts inst).renamedDests ∨ state.Doomed inst
  /-- What a squash keeps is older than everything on its way to the ROB. -/
  ahead : state.fromCommit.squash = true → ∀ inst ∈ state.waiting offered,
    state.fromCommit.doneSeqNum < inst
  undone : state.fromCommit.squash = true → 2 ≤ state.phase.rank →
    ∀ entry ∈ state.rename.historyBuffer, entry.instSeqNum ≤ state.fromCommit.doneSeqNum
  keeps : state.fromCommit.squash = true →
    state.core.lastCommitedSeqNum ≤ state.fromCommit.doneSeqNum
  removes : state.fromCommit.squash = false →
    state.fromCommit.doneSeqNum ≤ state.core.lastCommitedSeqNum
  /-- Everything in the instruction list has a place or is about to leave. -/
  listed : ∀ inst ∈ state.core.instList, inst ∈ state.core.rob.instList ∨
    inst ∈ state.waiting offered ∨ inst ∈ state.core.removeList ∨
      (state.insts inst).squashed = true ∨ state.Dropped inst ∨
      state.SquashUnseen 1 inst ∧ ∀ older ∈ state.core.rob.instList, older < inst

structure RenamedInv (config : Config) (state : State) : Prop where
  quiet : state.QuietInv config
  rename : state.RenameInvAt config state.renameQueue1
  removed : state.phase = .betweenTicks → state.core.removeList = []

/-! ## Events that leave rename alone -/

structure RenameFrame (state next : State) : Prop where
  rename : next.rename = state.rename
  phase : next.phase = state.phase
  nextSeqNum : next.nextSeqNum = state.nextSeqNum
  renameQueue0 : next.renameQueue0 = state.renameQueue0
  frontEnd : next.frontEnd = state.frontEnd
  instList : next.core.instList = state.core.instList
  removeList : next.core.removeList = state.core.removeList
  inv : next.core.inv = state.core.inv
  bits : ∀ inst, (next.insts inst).squashed = (state.insts inst).squashed ∧
    (next.insts inst).renamedDests = (state.insts inst).renamedDests ∧
    (next.insts inst).staticInst = (state.insts inst).staticInst
  /-- Only a memory response ends the mode. -/
  mode : next.core.inRunahead = state.core.inRunahead ∨
    ∃ inst req exited, state.memResponse inst req = some exited ∧
      exited.core.inRunahead = next.core.inRunahead ∧ exited.iewCurrent = next.iewCurrent

namespace RenameFrame

theorem refl (state : State) : state.RenameFrame state :=
  ⟨rfl, rfl, rfl, rfl, rfl, rfl, rfl, rfl, fun _ => ⟨rfl, rfl, rfl⟩, .inl rfl⟩

theorem modifyInst (state : State) (inst : Nat) (change : DynInst → DynInst)
    (kept : ∀ dyn, (change dyn).squashed = dyn.squashed ∧
      (change dyn).renamedDests = dyn.renamedDests ∧ (change dyn).staticInst = dyn.staticInst) :
    state.RenameFrame (state.modifyInst inst change) := by
  refine { refl state with bits := fun other => ?_ }
  rw [modifyInst_insts, InstTable.modify_apply]
  split
  · exact kept _
  · exact ⟨rfl, rfl, rfl⟩

theorem redirect (frame : state.RenameFrame next)
    (mode : next.core.inRunahead = state.core.inRunahead) (inst : Nat) (mispredicted : Bool)
    (violator : Option Nat) : state.RenameFrame (next.redirect inst mispredicted violator) := by
  rcases redirect_cases next inst mispredicted violator with same | ⟨_, same⟩ | ⟨load, _, same⟩
  · rw [same]
    exact frame
  · rw [same]
    exact { frame with mode := .inl mode }
  · rw [same]
    exact { frame with mode := .inl mode }

theorem stays (frame : state.RenameFrame next) (commit : state.CommitFrame next)
    (inv : state.QuietInv config) (inside : state.inWindow = true) : next.inWindow = true := by
  rw [inWindow_iff] at inside ⊢
  rcases commit.mode with ⟨sameMode, sameExit⟩ | ⟨mode, off, _⟩
  · rw [sameMode, sameExit, commit.iewToCommit]
    exact inside
  · rcases frame.mode with sameMode | ⟨inst, req, exited, responded, sameMode, sameSlot⟩
    · exact clash off (sameMode.trans mode)
    · have sent := (memResponse_quiet inv responded).2 mode (sameMode.trans off)
      exact .inr (.inl (sameSlot ▸ sent))

end RenameFrame

section Frames

variable (commit : state.CommitFrame next) (frame : state.RenameFrame next)
include commit frame

theorem RenameFrame.uncommittedEntries : next.uncommittedEntries = state.uncommittedEntries := by
  unfold State.uncommittedEntries
  rw [frame.rename, commit.lastCommitedSeqNum]

theorem RenameFrame.doomed : next.Doomed inst ↔ state.Doomed inst := by
  unfold Doomed
  rw [(frame.bits inst).1, commit.rob, commit.commitStatus]

theorem RenameFrame.squashUnseen {rank : Nat} :
    next.SquashUnseen rank inst ↔ state.SquashUnseen rank inst := by
  unfold SquashUnseen
  rw [frame.phase, commit.fromCommit]

omit commit in
theorem RenameFrame.waiting : next.waiting offered = state.waiting offered := by
  unfold State.waiting
  rw [frame.renameQueue0, frame.frontEnd]

theorem RenameFrame.renameInv (quiet : state.QuietInv config)
    (inv : state.RenameInvAt config state.renameQueue1) :
    next.RenameInvAt config next.renameQueue1 := by
  have entries := frame.uncommittedEntries commit
  rw [commit.renameQueue1]
  exact {
    valid := frame.rename ▸ inv.valid
    tracks := by
      rw [entries, frame.rename, commit.commitRenameMap]
      exact inv.tracks
    ordered := frame.rename ▸ inv.ordered
    followed := by
      rw [frame.rename, frame.frontEnd, frame.nextSeqNum]
      exact inv.followed
    known := fun inst => (frame.bits inst).2.2 ▸ inv.known inst
    located := fun entry member => by
      rw [frame.renameQueue0]
      rcases inv.located entry (entries ▸ member) with held | queued | unseen | dropped
      · exact .inl (commit.held (frame.stays commit quiet) held)
      · exact .inr (.inl queued)
      · exact .inr (.inr (.inl ((frame.squashUnseen commit).mpr unseen)))
      · exact .inr (.inr (.inr (commit.dropped dropped)))
    doomed := fun entry member doomed => (frame.squashUnseen commit).mpr
      (inv.doomed entry (entries ▸ member) ((frame.doomed commit).mp doomed))
    mapped := fun inst member => by
      rw [commit.rob, frame.renameQueue0] at member
      rw [frame.rename, (frame.bits inst).2.1, frame.doomed commit]
      exact inv.mapped inst member
    ahead := by
      rw [commit.fromCommit, frame.waiting]
      exact inv.ahead
    undone := by
      rw [commit.fromCommit, frame.phase, frame.rename]
      exact inv.undone
    keeps := by
      rw [commit.fromCommit, commit.lastCommitedSeqNum]
      exact inv.keeps
    removes := by
      rw [commit.fromCommit, commit.lastCommitedSeqNum]
      exact inv.removes
    listed := fun inst member => by
      rw [frame.instList] at member
      rw [commit.rob, frame.waiting, frame.removeList, (frame.bits inst).1,
        frame.squashUnseen commit]
      exact (inv.listed inst member).imp_right (Or.imp_right (Or.imp_right (Or.imp_right
        (Or.imp_left commit.dropped)))) }

end Frames

theorem memResponse_renameFrame {req : ReqId}
    (stepped : state.memResponse inst req = some next) : state.RenameFrame next := by
  have responded : ∃ inst req exited, state.memResponse inst req = some exited ∧
      exited.core.inRunahead = next.core.inRunahead ∧ exited.iewCurrent = next.iewCurrent :=
    ⟨inst, req, next, stepped, rfl, rfl⟩
  have completed := RenameFrame.modifyInst state inst (·.reqCompleted req) fun _ => ⟨rfl, rfl, rfl⟩
  have reset := RenameFrame.modifyInst state inst (fun dyn => (dyn.reqCompleted req).resetL2Miss)
    fun _ => ⟨rfl, rfl, rfl⟩
  obtain ⟨_, _, rfl | ⟨_, rfl | ⟨_, _, rfl⟩⟩⟩ := memResponse_cases stepped
  · exact completed
  · exact reset
  · exact { reset with mode := .inr responded }

theorem writeback_renameFrame {fault mispredicted : Bool}
    (stepped : state.writeback inst fault mispredicted = some next) : state.RenameFrame next := by
  simp only [writeback] at stepped
  split at stepped
  · split at stepped
    · cases stepped
      exact .refl state
    · cases stepped
      exact (RenameFrame.modifyInst state inst (·.finish fault)
        fun _ => ⟨rfl, rfl, rfl⟩).redirect rfl inst mispredicted none
  · cases stepped

theorem executeInst_renameFrame {outcome : ExecOutcome}
    (stepped : state.executeInst inst outcome = some next) : state.RenameFrame next := by
  have kept (change : DynInst → DynInst) (storeQueue : List SQEntry)
      (kept : ∀ dyn, (change dyn).squashed = dyn.squashed ∧
        (change dyn).renamedDests = dyn.renamedDests ∧
        (change dyn).staticInst = dyn.staticInst) :
      state.RenameFrame { State.modifyInst { state with
        toExecute := state.toExecute.erase inst } inst change with storeQueue := storeQueue } :=
    { RenameFrame.modifyInst state inst change kept with }
  obtain ⟨_, result⟩ := executeInst_cases stepped
  rcases result with ⟨_, rfl⟩ | ⟨_, fault, mispredicted, violator, _, _, rfl⟩ |
    ⟨_, _, reqs, violator, _, rfl⟩ | ⟨_, _, rfl⟩
  · exact kept (·.setExecuted.setCanCommit) state.storeQueue fun _ => ⟨rfl, rfl, rfl⟩
  · exact (kept (·.finish fault) state.storeQueue fun _ => ⟨rfl, rfl, rfl⟩).redirect rfl inst
      mispredicted violator
  · exact (kept (·.addReqs reqs) _ fun _ => ⟨rfl, rfl, rfl⟩).redirect rfl inst false violator
  · exact kept DynInst.clearIssued state.storeQueue fun _ => ⟨rfl, rfl, rfl⟩

theorem dispatchInst_renameFrame (stepped : state.dispatchInst = some next) :
    state.RenameFrame next := by
  obtain ⟨inst, rest, _, rfl | ⟨_, done, ready, _, rfl⟩⟩ := dispatchInst_cases stepped
  · exact { RenameFrame.refl state with }
  · exact { RenameFrame.refl state with mode := .inl rfl }

theorem issueInst_renameFrame (stepped : state.issueInst inst = some next) :
    state.RenameFrame next := by
  obtain ⟨_, rfl⟩ := fired stepped
  exact { RenameFrame.modifyInst state inst DynInst.setIssued fun _ => ⟨rfl, rfl, rfl⟩ with }

theorem LightStep.renameFrame (light : state.LightStep next) : state.RenameFrame next := by
  obtain ⟨_, _, _, _, _, _, _, _, rfl⟩ := light
  exact { RenameFrame.refl state with mode := .inl rfl }

theorem tcWrite_renameFrame {pc : Addr} (stepped : state.tcWrite pc = some next) :
    state.RenameFrame next := by
  unfold tcWrite at stepped
  split at stepped
  · cases stepped
  · cases stepped
    exact { RenameFrame.refl state with }

/-- The steps of fetch and rename, and of IEW where it reads the signals of commit. -/
inductive FrontStep (config : Config) (state : State) : State → Prop where
  | startTick (phase : state.phase = .betweenTicks) : FrontStep config state state.startTick
  | fetchInst {staticInst : StaticInst} {pc nextPc : Addr} (phase : state.phase = .fetch)
      (silent : state.fromCommit.squash = false) (knows : config.knows staticInst = true) :
      FrontStep config state (state.fetchInst staticInst pc nextPc)
  | decodeSquash {inst : Nat} (phase : state.phase = .fetch)
      (silent : state.fromCommit.squash = false) (member : inst ∈ state.frontEnd) :
      FrontStep config state (state.decodeSquash inst)
  | startRename (phase : state.phase = .fetch) : FrontStep config state state.startRename
  | renameInst {next : State} (phase : state.phase = .rename)
      (silent : state.fromCommit.squash = false) (renames : state.renameInst = some next) :
      FrontStep config state next
  | startIEW (phase : state.phase = .rename) : FrontStep config state state.startIEW

/-- The events of execution and of the memory system. -/
def Event.isBackEnd : Event → Bool
  | .memResponse .. | .writeback .. | .l2Miss _ | .completeStore _ | .trapFires | .tcWrite _
  | .dispatchInst | .executeInst .. | .issueInst _ | .instToCommit _ | .sendStore _ => true
  | _ => false

variable {event : Event}

theorem step_renameFrame (backEnd : Event.isBackEnd event = true)
    (stepped : state.step config event = some next) : state.RenameFrame next := by
  cases event with
  | memResponse inst req => exact memResponse_renameFrame (ite_none_right_eq_some.mp stepped).2
  | writeback inst fault mispredicted =>
    exact writeback_renameFrame (ite_none_right_eq_some.mp stepped).2
  | l2Miss | completeStore | trapFires | instToCommit | sendStore =>
    exact (step_light rfl stepped).renameFrame
  | tcWrite pc => exact tcWrite_renameFrame (ite_none_right_eq_some.mp stepped).2
  | dispatchInst => exact dispatchInst_renameFrame (ite_none_right_eq_some.mp stepped).2
  | executeInst inst outcome =>
    exact executeInst_renameFrame (ite_none_right_eq_some.mp stepped).2
  | issueInst inst => exact issueInst_renameFrame (ite_none_right_eq_some.mp stepped).2
  | _ => cases backEnd

private theorem step_frontStep (stepped : state.step config event = some next) :
    (∃ env, event = .commitTick env) ∨ state.RenameFrame next ∨ FrontStep config state next := by
  cases event with
  | commitTick env => exact .inl ⟨env, rfl⟩
  | startTick =>
    obtain ⟨phase, rfl⟩ := fired stepped
    exact .inr (.inr (.startTick phase))
  | fetchInst staticInst pc nextPc =>
    obtain ⟨possible, stepped⟩ := ite_none_right_eq_some.mp stepped
    simp only [Bool.and_eq_true, decide_eq_true_eq, Bool.not_eq_true'] at possible
    cases stepped
    exact .inr (.inr (.fetchInst possible.1.1 possible.1.2 possible.2))
  | decodeSquash inst =>
    obtain ⟨possible, stepped⟩ := ite_none_right_eq_some.mp stepped
    simp only [Bool.and_eq_true, decide_eq_true_eq, Bool.not_eq_true', contains_iff_mem] at possible
    cases stepped
    exact .inr (.inr (.decodeSquash possible.1.1 possible.1.2 possible.2))
  | startRename =>
    obtain ⟨phase, rfl⟩ := fired stepped
    exact .inr (.inr (.startRename phase))
  | renameInst =>
    obtain ⟨possible, stepped⟩ := ite_none_right_eq_some.mp stepped
    simp only [Bool.and_eq_true, decide_eq_true_eq, Bool.not_eq_true'] at possible
    exact .inr (.inr (.renameInst possible.1.1.1 possible.1.1.2 stepped))
  | startIEW =>
    obtain ⟨phase, rfl⟩ := fired stepped
    exact .inr (.inr (.startIEW phase))
  | _ => exact .inr (.inl (step_renameFrame rfl stepped))

/-- A step is a cycle of commit, or it keeps commit's data and leaves rename
alone or belongs to the front end. -/
theorem step_stages (inv : state.PipelineInv config)
    (stepped : state.step config event = some next) :
    (∃ env, event = .commitTick env) ∨
      state.CommitFrame next ∧ (state.RenameFrame next ∨ FrontStep config state next) := by
  rcases step_frame inv stepped with tick | frame
  · exact .inl tick
  · exact (step_frontStep stepped).imp_right fun which => ⟨frame, which⟩

/-! ## The front end -/

theorem RenameInvAt.entry_lt (inv : state.RenameInvAt config offered) {entry : RenameHistory}
    (member : entry ∈ state.uncommittedEntries) (inside : inst ∈ state.frontEnd) :
    entry.instSeqNum < inst :=
  (inv.followed entry (mem_filter.mp member).1).2 inst inside

theorem fetchInst_rename (inv : state.RenamedInv config) (silent : state.fromCommit.squash = false)
    {staticInst : StaticInst} (knows : config.knows staticInst = true) (pc nextPc : Addr) :
    (state.fetchInst staticInst pc nextPc).RenameInvAt config state.renameQueue1 := by
  have queues := inv.quiet.pipeline.queues
  have rename := inv.rename
  have fresh : ∀ {inst}, inst < state.nextSeqNum →
      (state.fetchInst staticInst pc nextPc).insts inst = state.insts inst := by
    intro inst below
    simp only [fetchInst, insts, InstTable.modify_apply, if_neg (Nat.ne_of_lt below)]
  have doomed : ∀ {inst}, inst < state.nextSeqNum →
      (state.fetchInst staticInst pc nextPc).Doomed inst → state.Doomed inst :=
    fun below => Or.imp_left fun squashed => (congrArg DynInst.squashed
      (fresh below)).symm.trans squashed
  have bounded : ∀ inst ∈ state.core.rob.instList ++ (state.renameQueue1 ++ state.renameQueue0),
      inst < state.nextSeqNum := by
    intro inst member
    refine queues.bounded inst ?_
    simp only [waiting, mem_append] at member ⊢
    tauto
  refine { rename with
    followed := fun entry member => ⟨Nat.lt_succ_of_lt (rename.followed entry member).1, ?_⟩
    known := fun inst => ?_
    doomed := fun entry member now => rename.doomed entry member
      (doomed (rename.followed entry (mem_filter.mp member).1).1 now)
    mapped := fun inst member => ?_
    ahead := fun signal => clash silent signal
    listed := fun inst member => ?_ }
  · intro inst inside
    rcases mem_append.mp inside with before | last
    · exact (rename.followed entry member).2 inst before
    · rw [mem_singleton.mp last]
      exact (rename.followed entry member).1
  · simp only [fetchInst, insts, InstTable.modify_apply]
    split
    · exact knows
    · exact rename.known inst
  · have below := bounded inst member
    rw [fresh below]
    refine (rename.mapped inst member).imp_right (Or.imp_left fun squashed => ?_)
    exact (congrArg DynInst.squashed (fresh below)).trans squashed
  · have waits : ∀ {inst}, inst ∈ state.waiting state.renameQueue1 ∨ inst = state.nextSeqNum →
        inst ∈ (state.fetchInst staticInst pc nextPc).waiting state.renameQueue1 := by
      intro inst which
      simp only [fetchInst, waiting, mem_append, mem_singleton] at which ⊢
      tauto
    rcases mem_append.mp member with before | last
    · have below := queues.listBounded inst before
      rw [fresh below]
      exact (rename.listed inst before).imp_right (Or.imp_left fun waiting => waits (.inl waiting))
    · exact .inr (.inl (waits (.inr (mem_singleton.mp last))))

theorem squashInsts_squashed (state : State) (victims : List Nat) (inst : Nat) :
    ((state.squashInsts victims).insts inst).squashed = true ↔
      (state.insts inst).squashed = true ∨ inst ∈ victims := by
  change (state.insts.modifyAll (fun inst => victims.contains inst) DynInst.setSquashed
    inst).squashed = true ↔ _
  rw [InstTable.modifyAll_apply]
  by_cases member : inst ∈ victims
  · simp [member, DynInst.setSquashed]
  · simp [member]

theorem squashInsts_renamedDests (state : State) (victims : List Nat) (inst : Nat) :
    ((state.squashInsts victims).insts inst).renamedDests = (state.insts inst).renamedDests := by
  change (state.insts.modifyAll (fun inst => victims.contains inst) DynInst.setSquashed
    inst).renamedDests = _
  rw [InstTable.modifyAll_apply]
  split <;> rfl

theorem squashInsts_staticInst (state : State) (victims : List Nat) (inst : Nat) :
    ((state.squashInsts victims).insts inst).staticInst = (state.insts inst).staticInst := by
  change (state.insts.modifyAll (fun inst => victims.contains inst) DynInst.setSquashed
    inst).staticInst = _
  rw [InstTable.modifyAll_apply]
  split <;> rfl

/-- Fetch squashes instructions behind the ROB. Where rename has an entry for
one of them, it has yet to read the squash. -/
theorem squashInsts_rename (inv : state.RenameInvAt config offered) (victims frontEnd : List Nat)
    (behind : ∀ entry ∈ state.uncommittedEntries, entry.instSeqNum ∈ victims →
      state.SquashUnseen 2 entry.instSeqNum)
    (remaining : frontEnd ⊆ state.frontEnd)
    (gone : ∀ inst ∈ state.frontEnd, inst ∈ frontEnd ∨ inst ∈ victims) :
    { state.squashInsts victims with frontEnd := frontEnd }.RenameInvAt config offered := by
  have squashed := squashInsts_squashed state victims
  have doomed : ∀ {inst}, state.Doomed inst → (state.squashInsts victims).Doomed inst :=
    fun {inst} => Or.imp_left fun before => (squashed inst).mpr (.inl before)
  have before : ∀ {inst}, (state.squashInsts victims).Doomed inst →
      state.Doomed inst ∨ inst ∈ victims := by
    rintro inst (now | squashing)
    · exact ((squashed inst).mp now).imp_left .inl
    · exact .inl (.inr squashing)
  refine { inv with
    followed := fun entry member => ⟨(inv.followed entry member).1, fun inst inside =>
      (inv.followed entry member).2 inst (remaining inside)⟩
    known := fun inst => (squashInsts_staticInst state victims inst).symm ▸ inv.known inst
    doomed := fun entry member now => (before now).elim (inv.doomed entry member)
      (behind entry member)
    mapped := fun inst member => ?_
    ahead := fun signal inst member => inv.ahead signal inst ?_
    listed := fun inst member => ?_ }
  · change mappingsOf state.rename.historyBuffer inst =
      ((state.squashInsts victims).insts inst).renamedDests ∨
        (state.squashInsts victims).Doomed inst
    rw [squashInsts_renamedDests]
    exact (inv.mapped inst member).imp_right doomed
  · simp only [waiting, mem_append] at member ⊢
    exact member.imp_right (Or.imp_right fun inside => remaining inside)
  · have marked := squashed inst
    rcases inv.listed inst member with inRob | waits | removed | before | dropped | unseen
    · exact .inl inRob
    · have waits : inst ∈ offered ++ state.renameQueue0 ∨ inst ∈ state.frontEnd := by
        simpa only [waiting, mem_append, or_assoc] using waits
      rcases waits with queued | inside
      · exact .inr (.inl (by
          simp only [waiting, mem_append] at queued ⊢
          exact queued.imp_right .inl))
      · rcases gone inst inside with still | victim
        · exact .inr (.inl (by simp only [waiting, mem_append]; exact .inr (.inr still)))
        · exact .inr (.inr (.inr (.inl (marked.mpr (.inr victim)))))
    · exact .inr (.inr (.inl (mem_append_left _ removed)))
    · exact .inr (.inr (.inr (.inl (marked.mpr (.inl before)))))
    · exact .inr (.inr (.inr (.inr (.inl dropped))))
    · exact .inr (.inr (.inr (.inr (.inr unseen))))

theorem decodeSquash_rename (inv : state.RenamedInv config) (member : inst ∈ state.frontEnd) :
    (state.decodeSquash inst).RenameInvAt config state.renameQueue1 := by
  refine squashInsts_rename inv.rename _ _ (fun entry inside victim => ?_)
    (filter_sublist).subset (fun other inside => ?_)
  · have older := inv.rename.entry_lt inside member
    have younger := (mem_filter.mp victim).2
    simp only [decide_eq_true_eq] at younger
    omega
  · by_cases kept : other ≤ inst
    · exact .inl (mem_filter.mpr ⟨inside, by simpa using kept⟩)
    · refine .inr (mem_filter.mpr ⟨?_, by simpa using kept⟩)
      exact inv.quiet.pipeline.queues.listed other (by simp [waiting, inside])

theorem RenameInvAt.nextPhase (inv : state.RenameInvAt config offered) (phase : Phase)
    (silent : state.fromCommit.squash = false) :
    { state with phase := phase }.RenameInvAt config offered := by
  have never : ∀ {rank inst}, ¬ state.SquashUnseen rank inst :=
    fun unseen => clash silent unseen.2.1
  exact { inv with
    located := fun entry member => (inv.located entry member).imp_right (Or.imp_right
      (Or.imp_left fun unseen => absurd unseen never))
    doomed := fun entry member doomed => absurd (inv.doomed entry member doomed) never
    undone := fun signal => clash silent signal
    listed := fun inst member => (inv.listed inst member).imp_right (Or.imp_right (Or.imp_right
      (Or.imp_right (Or.imp_right fun unseen => absurd unseen.1 never)))) }

theorem startTick_rename (inv : state.RenamedInv config) (phase : state.phase = .betweenTicks) :
    state.startTick.RenameInvAt config state.renameQueue1 := by
  have queues := inv.quiet.pipeline.queues
  unfold startTick
  split
  · next signal =>
    have notTrapped : state.core.commitStatus ≠ .trapPending := by
      rw [(inv.quiet.pipeline.squash.signal signal).1]
      simp
    have victims : ∀ {inst}, inst ∈ state.instsNotInROB ↔
        inst ∈ state.core.instList ∧ ∀ older ∈ state.core.rob.instList, older < inst :=
      mem_instsNotInROB queues
    have young : ∀ inst ∈ state.instsNotInROB,
        (state.insts inst).squashed = true ∨ state.fromCommit.doneSeqNum < inst := by
      intro inst victim
      obtain ⟨member, behind⟩ := victims.mp victim
      rcases inv.rename.listed inst member with inRob | waits | gone | squashed | dropped | unseen
      · exact absurd (behind inst inRob) (Nat.lt_irrefl _)
      · exact .inr (inv.rename.ahead signal inst waits)
      · simp [inv.removed phase] at gone
      · exact .inl squashed
      · exact absurd dropped.1 notTrapped
      · exact .inr unseen.1.2.2
    have squashed := squashInsts_rename inv.rename state.instsNotInROB []
      (fun entry member victim => (young _ victim).elim
        (fun squashed => inv.rename.doomed entry member (.inl squashed))
        fun younger => ⟨by simp [phase, Phase.rank], signal, younger⟩)
      (nil_subset _)
      (fun inst inside => .inr (victims.mpr
        ⟨queues.listed inst (by simp [waiting, inside]), fun older inRob =>
          (pairwise_append.mp queues.robOrdered).2.2 older inRob inst
            (by simp [waiting, inside])⟩))
    have moved : ∀ {inst}, state.SquashUnseen 2 inst →
        SquashUnseen { state.squashFetch with phase := .fetch } 2 inst :=
      fun unseen => ⟨by simp [Phase.rank], unseen.2⟩
    refine { squashed with
      located := fun entry member => (squashed.located entry member).imp_right (Or.imp_right
        (Or.imp_left moved))
      doomed := fun entry member doomed => moved (squashed.doomed entry member doomed)
      undone := fun _ late => absurd late (by simp [Phase.rank])
      listed := fun inst member => ?_ }
    by_cases behind : ∀ older ∈ state.core.rob.instList, older < inst
    · exact .inr (.inr (.inr (.inl ((squashInsts_squashed state _ inst).mpr
        (.inr (victims.mpr ⟨member, behind⟩))))))
    · rcases squashed.listed inst member with inRob | waits | gone | before | dropped | unseen
      · exact .inl inRob
      · exact .inr (.inl waits)
      · exact .inr (.inr (.inl gone))
      · exact .inr (.inr (.inr (.inl before)))
      · exact absurd dropped.1 notTrapped
      · exact absurd unseen.2 behind
  · next silent => exact inv.rename.nextPhase .fetch (by simpa using silent)

/-! ## Rename -/

variable {rename : RenameState} {squashedSeqNum : Nat}

theorem mem_doSquash {entry : RenameHistory}
    (ordered : rename.historyBuffer.Pairwise fun newer older =>
      older.instSeqNum ≤ newer.instSeqNum) :
    entry ∈ (rename.doSquash squashedSeqNum).historyBuffer ↔
      entry ∈ rename.historyBuffer ∧ entry.instSeqNum ≤ squashedSeqNum := by
  rw [doSquash_historyBuffer]
  generalize rename.historyBuffer = history at ordered ⊢
  induction history with
  | nil => simp
  | cons first older ih =>
    obtain ⟨above, rest⟩ := pairwise_cons.mp ordered
    by_cases younger : squashedSeqNum < first.instSeqNum
    · rw [dropWhile_cons_of_pos (by simpa using younger), ih rest]
      constructor
      · exact And.imp_left (mem_cons_of_mem _)
      · rintro ⟨member, kept⟩
        rcases mem_cons.mp member with rfl | later
        · omega
        · exact ⟨later, kept⟩
    · rw [dropWhile_cons_of_neg (by simpa using younger)]
      constructor
      · intro member
        refine ⟨member, ?_⟩
        rcases mem_cons.mp member with rfl | later
        · omega
        · have := above entry later
          omega
      · exact And.left

/-- A squash undoes the newest entries down to the last one that it keeps. -/
theorem doSquash_tracks {base : RegId → PhysRegId} {bound : Nat} (covers : bound ≤ squashedSeqNum)
    (tracks : Tracks historyView base
      (rename.historyBuffer.filter fun entry => decide (bound < entry.instSeqNum))
      rename.renameMap) :
    Tracks historyView base
      ((rename.doSquash squashedSeqNum).historyBuffer.filter fun entry =>
        decide (bound < entry.instSeqNum)) (rename.doSquash squashedSeqNum).renameMap := by
  refine doSquash_invariant (fun rename => Tracks historyView base
    (rename.historyBuffer.filter fun entry => decide (bound < entry.instSeqNum))
    rename.renameMap) squashedSeqNum ?_ tracks
  intro rename entry older younger tracks
  have uncommitted : bound < entry.instSeqNum := Nat.lt_of_le_of_lt covers younger
  simp only [filter_cons, uncommitted, decide_true, ↓reduceIte] at tracks
  simp only [undoEntry]
  split
  · exact tracks.undo
  · next same => exact tracks.undo_kept (not_not.mp same)

theorem doSquash_ordered (squashedSeqNum : Nat)
    (ordered : rename.historyBuffer.Pairwise fun newer older =>
      older.instSeqNum ≤ newer.instSeqNum) :
    (rename.doSquash squashedSeqNum).historyBuffer.Pairwise fun newer older =>
      older.instSeqNum ≤ newer.instSeqNum := by
  rw [doSquash_historyBuffer]
  exact ordered.sublist (dropWhile_sublist _)

private theorem filter_dropWhile {history : List RenameHistory}
    {wanted dropped : RenameHistory → Bool}
    (disjoint : ∀ entry, wanted entry = true → dropped entry = false) :
    (history.dropWhile dropped).filter wanted = history.filter wanted := by
  induction history with
  | nil => rfl
  | cons first rest ih =>
    cases drop : dropped first with
    | false => rw [dropWhile_cons_of_neg (by simp [drop])]
    | true =>
      have unwanted : ¬ wanted first = true := fun want =>
        clash (disjoint first want) drop
      rw [dropWhile_cons_of_pos drop, ih, filter_cons_of_neg unwanted]

theorem mappingsOf_doSquash (kept : inst ≤ squashedSeqNum) :
    mappingsOf (rename.doSquash squashedSeqNum).historyBuffer inst =
      mappingsOf rename.historyBuffer inst := by
  unfold mappingsOf
  rw [doSquash_historyBuffer, filter_dropWhile]
  intro entry mine
  simp only [decide_eq_true_eq] at mine
  simpa [mine] using kept

theorem filter_removeFromHistory (rename : RenameState) {instSeqNum : Nat}
    {wanted : RenameHistory → Bool}
    (younger : ∀ entry, wanted entry = true → instSeqNum < entry.instSeqNum) :
    (rename.removeFromHistory instSeqNum).historyBuffer.filter wanted =
      rename.historyBuffer.filter wanted := by
  rw [removeFromHistory_historyBuffer, filter_reverse, filter_dropWhile,
    ← filter_reverse, reverse_reverse]
  intro entry want
  simpa using younger entry want

theorem startRename_rename (inv : state.RenamedInv config) (phase : state.phase = .fetch) :
    state.startRename.RenameInvAt config state.renameQueue1 := by
  have rename := inv.rename
  unfold startRename
  split
  · next signal =>
    have keeps := rename.keeps signal
    have squash := inv.quiet.pipeline.squash.signal signal
    have members {entry : RenameHistory} :=
      @mem_doSquash _ state.fromCommit.doneSeqNum entry rename.ordered
    -- What rename keeps is not what the stages have yet to discard.
    have seen : ∀ {rank} {entry : RenameHistory}, entry ∈
        (state.rename.doSquash state.fromCommit.doneSeqNum).historyBuffer →
        ¬ state.SquashUnseen rank entry.instSeqNum := by
      intro rank entry member unseen
      have := (members.mp member).2
      have := unseen.2.2
      omega
    have uncommitted : ∀ {entry}, entry ∈ ((state.rename.doSquash
        state.fromCommit.doneSeqNum).historyBuffer.filter fun entry =>
          decide (state.core.lastCommitedSeqNum < entry.instSeqNum)) →
        entry ∈ (state.rename.doSquash state.fromCommit.doneSeqNum).historyBuffer ∧
          entry ∈ state.uncommittedEntries := by
      intro entry member
      obtain ⟨member, young⟩ := mem_filter.mp member
      exact ⟨member, mem_filter.mpr ⟨(members.mp member).1, young⟩⟩
    refine { rename with
      valid := rename.valid.doSquash (RenameUnit.archRegs_nodup config) _
      tracks := doSquash_tracks keeps rename.tracks
      ordered := doSquash_ordered _ rename.ordered
      followed := fun entry member => rename.followed entry (members.mp member).1
      located := fun entry member => ?_
      doomed := fun entry member doomed => ?_
      mapped := fun inst member => ?_
      undone := fun _ _ entry member => (members.mp member).2
      listed := fun inst member => ?_ }
    · obtain ⟨member, before⟩ := uncommitted member
      exact (rename.located entry before).imp_right (Or.imp_right
        (Or.imp_left fun unseen => absurd unseen (seen member)))
    · obtain ⟨member, before⟩ := uncommitted member
      exact absurd (rename.doomed entry before doomed) (seen member)
    · rcases rename.mapped inst member with same | doomed
      · by_cases kept : inst ≤ state.fromCommit.doneSeqNum
        · exact .inl ((mappingsOf_doSquash kept).trans same)
        · refine .inr ?_
          rcases mem_append.mp member with inRob | queued
          · exact .inr ⟨inRob, squash.1, (squash.2.2 inst inRob).mp (Nat.lt_of_not_le kept)⟩
          · have fresh := inv.quiet.pipeline.fresh (.inr phase)
            rw [fresh, append_nil] at queued
            exact .inl (inv.quiet.pipeline.flushed signal (by simp [phase]) inst queued)
      · exact .inr doomed
    · refine (rename.listed inst member).imp_right (Or.imp_right (Or.imp_right (Or.imp_right
        (Or.imp_right fun unseen => ?_))))
      have := unseen.1.1
      simp [phase, Phase.rank] at this
  · next silent => exact rename.nextPhase .rename (by simpa using silent)

structure Extends (state : State) (inst : Nat) (renamed : RenameState)
    (mappings : List (RegId × PhysRegId)) (added : List RenameHistory) : Prop where
  history : renamed.historyBuffer = added ++ state.rename.historyBuffer
  same : ∀ entry ∈ added, entry.instSeqNum = inst
  mapped : added.reverse.map (fun entry => (entry.archReg, entry.newPhysReg)) = mappings
  tracked : Tracks historyView state.rename.renameMap added renamed.renameMap
  older : ∀ entry ∈ state.rename.historyBuffer, entry.instSeqNum < inst
  uncommitted : (renamed.historyBuffer.filter fun entry =>
    decide (state.core.lastCommitedSeqNum < entry.instSeqNum)) = added ++ state.uncommittedEntries

section Extends

variable {renamed : RenameState} {mappings : List (RegId × PhysRegId)}

theorem RenamedInv.extends (inv : state.RenamedInv config) {rest : List Nat}
    {dests : List DestOperand} (front : state.frontEnd = inst :: rest)
    (renames : state.rename.renameDestRegs inst dests = some (renamed, mappings)) :
    ∃ added, state.Extends inst renamed mappings added := by
  obtain ⟨added, history, same, mapped, tracked⟩ := renameDestRegs_history renames
  have uncommitted : state.core.lastCommitedSeqNum < inst :=
    inv.quiet.pipeline.queues.committedBelow inst (by simp [waiting, front])
  refine ⟨added, history, same, mapped, tracked, fun entry inside =>
    (inv.rename.followed entry inside).2 inst (by simp [front]), ?_⟩
  rw [history, filter_append]
  congr 1
  exact filter_eq_self.mpr fun entry inside => by simpa [same entry inside] using uncommitted

variable {added : List RenameHistory} (extended : state.Extends inst renamed mappings added)
include extended

theorem Extends.mappingsOf_self : mappingsOf renamed.historyBuffer inst = mappings := by
  have none : state.rename.historyBuffer.filter (fun entry =>
      decide (entry.instSeqNum = inst)) = [] :=
    filter_eq_nil_iff.mpr fun entry old => by
      simpa using Nat.ne_of_lt (extended.older entry old)
  have all : added.filter (fun entry => decide (entry.instSeqNum = inst)) = added :=
    filter_eq_self.mpr fun entry new => by simpa using extended.same entry new
  rw [mappingsOf, extended.history, filter_append, none, all, append_nil, extended.mapped]

theorem Extends.mappingsOf_other {other : Nat} (different : other ≠ inst) :
    mappingsOf renamed.historyBuffer other = mappingsOf state.rename.historyBuffer other := by
  have none : added.filter (fun entry => decide (entry.instSeqNum = other)) = [] :=
    filter_eq_nil_iff.mpr fun entry new => by
      simpa [extended.same entry new] using Ne.symm different
  rw [mappingsOf, extended.history, filter_append, none, nil_append, mappingsOf]

end Extends

theorem renameInst_rename (inv : state.RenamedInv config)
    (silent : state.fromCommit.squash = false) (stepped : state.renameInst = some next) :
    next.RenameInvAt config state.renameQueue1 := by
  have rename := inv.rename
  have queues := inv.quiet.pipeline.queues
  have never : ∀ {rank inst}, ¬ state.SquashUnseen rank inst :=
    fun unseen => clash silent unseen.2.1
  obtain ⟨inst, rest, front, ⟨squashed, rfl⟩ | ⟨alive, renamed, mappings, _, _, renames, rfl⟩⟩ :=
    renameInst_cases stepped
  · refine { rename with
      followed := fun entry member => ⟨(rename.followed entry member).1, fun other inside =>
        (rename.followed entry member).2 other (front ▸ mem_cons_of_mem _ inside)⟩
      ahead := fun signal => clash silent signal
      listed := fun other member => ?_ }
    rcases rename.listed other member with inRob | waits | gone
    · exact .inl inRob
    · simp only [waiting, front, mem_append, mem_cons] at waits
      rcases waits with queued | queued | rfl | later
      · exact .inr (.inl (by simp [waiting, queued]))
      · exact .inr (.inl (by simp [waiting, queued]))
      · exact .inr (.inr (.inr (.inl squashed)))
      · exact .inr (.inl (by simp [waiting, later]))
    · exact .inr (.inr gone)
  · obtain ⟨added, extended⟩ := inv.extends front renames
    have waits : inst ∈ state.waiting state.renameQueue1 := by simp [waiting, front]
    have ordered : (state.core.rob.instList ++ (state.renameQueue1 ++ (state.renameQueue0 ++
        (inst :: rest)))).Pairwise (· < ·) := front ▸ queues.robOrdered
    have notRob : inst ∉ state.core.rob.instList := fun inRob =>
      Nat.lt_irrefl _ ((pairwise_append.mp queues.robOrdered).2.2 inst inRob inst waits)
    refine { rename with
      valid := rename.valid.renameDestRegs ?_ (RenameUnit.archRegs_nodup config) ?_ renames
      tracks := ?_
      ordered := ?_
      followed := fun entry inside => ?_
      located := fun entry inside => ?_
      doomed := fun entry inside doomed => ?_
      mapped := fun other inside => ?_
      ahead := fun signal => clash silent signal
      undone := fun signal => clash silent signal
      listed := fun other inside => ?_ }
    · exact RenameUnit.physRegs_single config ▸ RenameUnit.physRegs_nodup config 1
    · have knows := rename.known inst
      simpa [Config.knows, all_eq_true] using knows
    · change Tracks historyView state.core.commitRenameMap (renamed.historyBuffer.filter _) _
      rw [extended.uncommitted]
      exact rename.tracks.append extended.tracked
    · change renamed.historyBuffer.Pairwise _
      rw [extended.history]
      refine pairwise_append.mpr ⟨pairwise_of_forall_mem_list fun newer inNew older inOld =>
        ?_, rename.ordered, fun newer inNew entry inOld => ?_⟩
      · rw [extended.same newer inNew, extended.same older inOld]
      · rw [extended.same newer inNew]
        exact Nat.le_of_lt (extended.older entry inOld)
    · have inside : entry ∈ added ++ state.rename.historyBuffer := extended.history ▸ inside
      rcases mem_append.mp inside with new | old
      · rw [extended.same entry new]
        refine ⟨queues.bounded inst (mem_append_right _ waits), fun other later => ?_⟩
        have behind := (pairwise_append.mp (pairwise_append.mp (pairwise_append.mp
          ordered).2.1).2.1).2.1
        exact (pairwise_cons.mp behind).1 other later
      · exact ⟨(rename.followed entry old).1, fun other later =>
          (rename.followed entry old).2 other (front ▸ mem_cons_of_mem _ later)⟩
    · have inside : entry ∈ added ++ state.uncommittedEntries := extended.uncommitted ▸ inside
      rcases mem_append.mp inside with new | old
      · exact .inr (.inl (by simp [extended.same entry new]))
      · refine (rename.located entry old).imp_right (Or.imp_left fun queued => ?_)
        simp only [mem_append] at queued ⊢
        tauto
    · have inside : entry ∈ added ++ state.uncommittedEntries := extended.uncommitted ▸ inside
      rcases mem_append.mp inside with new | old
      · rw [extended.same entry new] at doomed
        rcases doomed with squashed | ⟨inRob, _⟩
        · exact clash alive squashed
        · exact absurd inRob notRob
      · exact absurd (rename.doomed entry old doomed) never
    · by_cases here : other = inst
      · subst here
        exact .inl (extended.mappingsOf_self.trans (if_pos rfl).symm)
      · have inside : other ∈ state.core.rob.instList ++
            (state.renameQueue1 ++ state.renameQueue0) := by
          simp only [mem_append, mem_singleton] at inside ⊢
          tauto
        refine (rename.mapped other inside).imp_left fun before => ?_
        exact ((extended.mappingsOf_other here).trans before).trans (if_neg here).symm
    · have moved : ∀ {other}, other ∈ state.waiting state.renameQueue1 →
          other ∈ state.renameQueue1 ++ ((state.renameQueue0 ++ [inst]) ++ rest) := by
        intro other before
        simp only [waiting, front, mem_append, mem_cons] at before ⊢
        tauto
      exact (rename.listed other inside).imp_right (Or.imp moved (Or.imp_right (Or.imp_right
        (Or.imp_right fun unseen => absurd unseen.1 never))))

/-! ## The end of the cycle of rename -/

theorem removeFromHistory_rename (inv : state.RenameInvAt config offered)
    (queues : state.QueueInv taken offered) (silent : state.fromCommit.squash = false) :
    { state with rename := state.rename.removeFromHistory state.fromCommit.doneSeqNum
      }.RenameInvAt config offered := by
  have removes := inv.removes silent
  have entries : State.uncommittedEntries { state with
      rename := state.rename.removeFromHistory state.fromCommit.doneSeqNum } =
      state.uncommittedEntries :=
    filter_removeFromHistory _ fun entry young => by
      simp only [decide_eq_true_eq] at young
      omega
  have remaining : ∀ {entry}, entry ∈ (state.rename.removeFromHistory
      state.fromCommit.doneSeqNum).historyBuffer → entry ∈ state.rename.historyBuffer :=
    fun member => (removeFromHistory_sublist _ _).subset member
  refine { inv with
    valid := inv.valid.removeFromHistory _
    tracks := by rw [entries]; exact inv.tracks
    ordered := inv.ordered.sublist (removeFromHistory_sublist _ _)
    followed := fun entry member => inv.followed entry (remaining member)
    located := fun entry member => inv.located entry (entries ▸ member)
    doomed := fun entry member => inv.doomed entry (entries ▸ member)
    mapped := fun inst member => ?_
    undone := fun signal => clash silent signal }
  have uncommitted : state.core.lastCommitedSeqNum < inst := queues.committedBelow inst (by
    simp only [waiting, mem_append] at member ⊢
    tauto)
  refine (inv.mapped inst member).imp_left fun same => ?_
  rw [← same]
  unfold mappingsOf
  rw [filter_removeFromHistory]
  intro entry mine
  simp only [decide_eq_true_eq] at mine
  omega

theorem startIEW_rename (inv : state.RenamedInv config) (phase : state.phase = .rename) :
    state.startIEW.RenameInvAt config state.renameQueue1 := by
  have rename := inv.rename
  rcases startIEW_cases state with
    ⟨signal, gone, queued, _, marks, after⟩ | ⟨silent, _, _, after⟩ <;> rw [after]
  · have seen : ∀ {rank inst}, rank ≤ 2 → ¬ state.SquashUnseen rank inst := fun small unseen => by
      have := unseen.1
      simp only [phase, Phase.rank] at this
      omega
    have still : ∀ {inst}, (state.insts inst).squashed = true →
        (state.markSquashed gone queued inst).squashed = true :=
      fun before => Bool.or_eq_true_iff.mpr (.inr before)
    refine { rename with
      located := fun entry member => (rename.located entry member).imp_right (Or.imp_right
        (Or.imp_left fun unseen => absurd unseen (seen (Nat.le_refl 2))))
      doomed := fun entry member doomed =>
        absurd (rename.doomed entry member (doomed.imp_left fun marked => ?_))
          (seen (Nat.le_refl 2))
      mapped := fun inst member => (rename.mapped inst member).imp_right (Or.imp_left still)
      undone := fun _ _ => rename.undone signal (by simp [phase, Phase.rank])
      listed := fun inst member => (rename.listed inst member).imp_right (Or.imp_right
        (Or.imp_right (Or.imp still
          (Or.imp_right fun unseen => absurd unseen.1 (seen (by decide)))))) }
    have old := rename.undone signal (by simp [phase, Phase.rank]) entry (mem_filter.mp member).1
    exact (Bool.or_eq_true_iff.mp marked).resolve_left fun gone =>
      Nat.not_lt.mpr old (marks.younger _ gone)
  · have removed : State.RenameInvAt config { state with
        rename := if state.fromCommit.doneSeqNum ≠ 0 then
          state.rename.removeFromHistory state.fromCommit.doneSeqNum else state.rename }
        state.renameQueue1 := by
      split
      · exact removeFromHistory_rename rename inv.quiet.pipeline.queues silent
      · exact rename
    have advanced := removed.nextPhase .iew silent
    exact { advanced with }

end Runahead.O3.State
