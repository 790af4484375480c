import Runahead.O3.RenameCommit

/-!
# Flushes restore the rename map

After commit has announced a squash, the earlier stages read it within one
cycle. Where the squash keeps nothing that has not committed, rename is left
with the commit rename map. Both the exit from runahead mode and the squashes
that commit decides on itself are of this kind.
-/

set_option autoImplicit false

namespace Runahead.O3.State

open Library List

variable {config : Config} {env : CommitEnv} {start state next : State} {core : Core}
variable {taken offered : List Nat} {inst : Nat}

def untilCommit (state : State) : Event → Bool
  | .commitTick _ => false
  | event => state.quietWindow event

theorem untilCommit_quiet {event : Event} (allowed : state.untilCommit event = true) :
    state.quietWindow event = true := by
  cases event with
  | commitTick env => cases allowed
  | _ => exact allowed

/-- The stages read the squash that commit has announced in `start`. -/
structure Flushing (config : Config) (start state : State) : Prop where
  renamed : state.RenamedInv config
  view : state.commitView = start.commitView
  outside : state.inWindow = false
  rename : state.rename =
    if 2 ≤ state.phase.rank then start.rename.doSquash start.fromCommit.doneSeqNum
    else start.rename

theorem Flushing.fromCommit (flush : Flushing config start state) :
    state.fromCommit = start.fromCommit :=
  congrArg CommitView.fromCommit flush.view

theorem Flushing.step {event : Event} (signal : start.fromCommit.squash = true)
    (flush : Flushing config start state) (allowed : state.untilCommit event = true)
    (stepped : state.step config event = some next) : Flushing config start next := by
  have signal : state.fromCommit.squash = true := by rw [flush.fromCommit, signal]
  have number : state.fromCommit.doneSeqNum = start.fromCommit.doneSeqNum := by
    rw [flush.fromCommit]
  rcases step_stages flush.renamed.quiet.pipeline stepped with ⟨env, rfl⟩ | ⟨commit, which⟩
  · cases allowed
  refine ⟨step_renamed flush.renamed (untilCommit_quiet allowed) stepped,
    commit.view.trans flush.view, ?_, ?_⟩
  · have outside := flush.outside
    rcases commit.mode with ⟨sameMode, sameExit⟩ | ⟨mode, _⟩
    · simpa only [inWindow, sameMode, sameExit, commit.iewToCommit] using outside
    · exact clash outside ((inWindow_iff state).mpr (.inl mode))
  · have rename := flush.rename
    rcases which with frame | step
    · rw [frame.rename, frame.phase, rename]
    · cases step with
      | startTick phase =>
        rw [phase] at rename
        unfold startTick
        rw [if_pos signal]
        exact rename
      | fetchInst phase silent _ => exact clash silent signal
      | decodeSquash phase silent _ => exact clash silent signal
      | startRename phase =>
        have unread : state.rename = start.rename := by simpa [phase, Phase.rank] using rename
        unfold startRename
        simp only [signal, ↓reduceIte, Phase.rank, Nat.le_refl, unread, number]
      | renameInst phase silent _ => exact clash silent signal
      | startIEW phase =>
        have read : state.rename = start.rename.doSquash start.fromCommit.doneSeqNum := by
          simpa [phase, Phase.rank] using rename
        rcases startIEW_cases state with ⟨_, _, _, _, _, after⟩ | ⟨quiet, _⟩
        · rw [after]
          exact read
        · exact clash quiet signal

/-- What a flush keeps has committed. -/
theorem Flushing.discarded (flush : Flushing config start state)
    (signal : start.fromCommit.squash = true)
    (behind : ∀ inst ∈ start.core.rob.instList, start.fromCommit.doneSeqNum < inst)
    {entry : RenameHistory} (member : entry ∈ state.uncommittedEntries) :
    start.fromCommit.doneSeqNum < entry.instSeqNum := by
  have signal : state.fromCommit.squash = true := by rw [flush.fromCommit, signal]
  have rename := flush.renamed.rename
  rw [← flush.fromCommit]
  rcases rename.located entry member with (inRob | ⟨inside, _⟩) | queued | unseen | dropped
  · have same : state.core.rob = start.core.rob := congrArg CommitView.rob flush.view
    rw [flush.fromCommit]
    exact behind _ (same ▸ inRob)
  · exact clash flush.outside inside
  · refine rename.ahead signal _ ?_
    simp only [waiting, mem_append] at queued ⊢
    tauto
  · exact unseen.2.2
  · have squashing := (flush.renamed.quiet.pipeline.squash.signal signal).1
    exact absurd (squashing.symm.trans dropped.1) (by decide)

theorem Flushing.empty (flush : Flushing config start state)
    (signal : start.fromCommit.squash = true)
    (behind : ∀ inst ∈ start.core.rob.instList, start.fromCommit.doneSeqNum < inst)
    (read : 2 ≤ state.phase.rank) : state.uncommittedEntries = [] := by
  refine eq_nil_iff_forall_not_mem.mpr fun entry member => ?_
  have younger := flush.discarded signal behind member
  have kept := flush.renamed.rename.undone (by rw [flush.fromCommit, signal]) read entry
    (mem_filter.mp member).1
  rw [flush.fromCommit] at kept
  omega

theorem Flushing.restored (flush : Flushing config start state)
    (signal : start.fromCommit.squash = true)
    (behind : ∀ inst ∈ start.core.rob.instList, start.fromCommit.doneSeqNum < inst)
    (read : 2 ≤ state.phase.rank) : state.rename.renameMap = state.core.commitRenameMap := by
  have tracks := flush.renamed.rename.tracks
  rw [flush.empty signal behind read] at tracks
  exact tracks.eq_base

theorem flushing_run (inv : start.RenamedInv config) (between : start.phase = .betweenTicks)
    (signal : start.fromCommit.squash = true) (outside : start.inWindow = false)
    (run : Reaches (step config) untilCommit start state) : Flushing config start state := by
  refine run.invariant ⟨inv, rfl, outside, ?_⟩ (Flushing.step signal)
  simp [between, Phase.rank]

/-! ## The exit from runahead mode -/

theorem squashedEntries_filter {rename : RenameState} (squashedSeqNum : Nat)
    (ordered : rename.historyBuffer.Pairwise fun newer older =>
      older.instSeqNum ≤ newer.instSeqNum) :
    rename.squashedEntries squashedSeqNum =
      rename.historyBuffer.filter fun entry => decide (squashedSeqNum < entry.instSeqNum) := by
  unfold RenameState.squashedEntries
  generalize rename.historyBuffer = history at ordered ⊢
  induction history with
  | nil => rfl
  | cons first older ih =>
    obtain ⟨above, ordered⟩ := pairwise_cons.mp ordered
    by_cases younger : squashedSeqNum < first.instSeqNum
    · rw [takeWhile_cons_of_pos (by simpa using younger), ih ordered,
        filter_cons_of_pos (by simpa using younger)]
    · rw [takeWhile_cons_of_neg (by simpa using younger)]
      refine (filter_eq_nil_iff.mpr fun entry member => ?_).symm
      have := (mem_cons.mp member).elim (fun same => Nat.le_of_eq (congrArg _ same)) (above entry)
      simp only [decide_eq_true_eq]
      omega

def handled (state : State) (observe : State → State → Bool) : Bool :=
  (state.step smallConfig (.commitTick {})).any fun next =>
    (runGuarded (step smallConfig) untilCommit next [.startTick, .startRename]).any fun restored =>
      decide (2 ≤ restored.phase.rank) && observe next restored

theorem handled_cases {observe : State → State → Bool} (observed : state.handled observe = true) :
    ∃ next restored, state.step smallConfig (.commitTick {}) = some next ∧
      Reaches (step smallConfig) untilCommit next restored ∧ 2 ≤ restored.phase.rank ∧
      observe next restored = true := by
  simp only [handled, Option.any_eq_true, Bool.and_eq_true, decide_eq_true_eq] at observed
  obtain ⟨next, stepped, restored, run, read, observed⟩ := observed
  exact ⟨next, restored, stepped, runGuarded_reaches run, read, observed⟩

/-- The trigger of a first window, kept by the squash of a write through the
thread context, is forgotten when a younger instruction commits. -/
def staleTrigger : List Event :=
  missingPair ++ [.tcWrite 500] ++ idleCycles 1 ++ [.memResponse 1 7] ++ idleCycles 2 ++
    cycle [.fetchInst follower 500 504] [.renameInst] [] {} ++ idleCycles 1 ++
    cycle [] [] [.dispatchInst, .issueInst 3] {} ++
    cycle [] [] [.executeInst 3 (.finish false false none), .instToCommit 3] {} ++ idleCycles 2

/-- A second load misses and its response ends a second window. -/
def secondWindow : List Event :=
  cycle [.fetchInst load 504 508] [.renameInst] [] {} ++ idleCycles 1 ++
    cycle [] [] [.dispatchInst, .issueInst 4] {} ++
    cycle [] [] [.executeInst 4 (.access [7] none)] {} ++ [.l2Miss 4] ++ idleCycles 2 ++
    [.memResponse 4 7] ++ idleCycles 1

/-- Commit has decided to squash everything: for a trap, a write through the
thread context or a squash-after instruction. -/
def OwnSquashPending (state : State) : Prop :=
  state.core.trapSquash = true ∨ state.core.tcSquash = true ∨
    state.core.commitStatus = .squashAfterPending

theorem checked_own (config : Config) (env : CommitEnv) (core : Core) :
    let checked := (core.continueSquash config).checkForInterrupts config env
    checked.trapSquash = core.trapSquash ∧ checked.tcSquash = core.tcSquash ∧
      (core.commitStatus = .squashAfterPending → checked.commitStatus = .squashAfterPending) ∧
      checked.pc = core.pc ∧ checked.lastCommitedSeqNum = core.lastCommitedSeqNum ∧
      checked.commitRenameMap = core.commitRenameMap := by
  obtain ⟨_, _, same⟩ := Core.checkForInterrupts_eq config env (core.continueSquash config)
  rw [same]
  unfold Core.continueSquash
  split
  · next squashing =>
    have never : core.commitStatus ≠ .squashAfterPending := by simp [squashing]
    split
    · exact ⟨rfl, rfl, fun pending => absurd pending never, rfl, rfl, rfl⟩
    · exact ⟨rfl, rfl, id, rfl, rfl, rfl⟩
  · exact ⟨rfl, rfl, id, rfl, rfl, rfl⟩

/-- Commit squashes everything outside the window and announces the PC at which
it goes on. -/
theorem commitTick_own (inv : state.QuietInv config) (phase : state.phase = .iew)
    (pending : state.OwnSquashPending) (stepped : state.commitTick config env = some next) :
    next.fromCommit.squash = true ∧ next.inWindow = false ∧
      (∀ inst ∈ next.core.rob.instList, next.fromCommit.doneSeqNum < inst) ∧
      next.fromCommit.pc = state.core.pc ∧ next.core.pc = state.core.pc ∧
      next.core.lastCommitedSeqNum = state.core.lastCommitedSeqNum ∧
      next.core.commitRenameMap = state.core.commitRenameMap := by
  obtain ⟨idle, seen, done, _, rfl, finish⟩ := commitTick_cases stepped
  obtain ⟨phase, idle⟩ := finishIEW_ready phase idle
  have same : state.finishIEW.core.trapSquash = state.core.trapSquash ∧
      state.finishIEW.core.tcSquash = state.core.tcSquash ∧
      state.finishIEW.core.commitStatus = state.core.commitStatus ∧
      state.finishIEW.core.pc = state.core.pc ∧
      state.finishIEW.core.lastCommitedSeqNum = state.core.lastCommitedSeqNum ∧
      state.finishIEW.core.commitRenameMap = state.core.commitRenameMap := by
    obtain ⟨_, _, same, _⟩ := finishIEW_cases state
    rw [same]
    exact ⟨rfl, rfl, rfl, rfl, rfl, rfl⟩
  have inv := finishIEW_quiet inv
  have pending : state.finishIEW.OwnSquashPending := by
    rw [OwnSquashPending, same.1, same.2.1, same.2.2.1]
    exact pending
  rw [← same.2.2.2.1, ← same.2.2.2.2.1, ← same.2.2.2.2.2]
  generalize state.finishIEW = state at *
  have start := inv.checked phase idle seen
  obtain ⟨trap, threadContext, after, samePc, sameLast, sameMap⟩ :=
    checked_own config seen state.core
  have own : ¬ ((state.core.continueSquash config).checkForInterrupts config seen).NoOwnSquash := by
    intro quiet
    rcases pending with fired | written | later
    · exact clash quiet.trap (trap.trans fired)
    · exact clash quiet.threadContext (threadContext.trans written)
    · exact quiet.after (after later)
  rw [← samePc, ← sameLast, ← sameMap]
  generalize (state.core.continueSquash config).checkForInterrupts config seen = checked at *
  rcases finish with ⟨same, _⟩ | ⟨_, quiet, _⟩
  · have step := handleSquashes_step config start.quiet start.pipeline start.trapFree
    rw [← same] at step
    cases step with
    | none quiet => exact absurd quiet own
    | iew quiet => exact absurd quiet own
    | own outside _ =>
      refine ⟨rfl, ?_, fun inst member => ?_, rfl, rfl, rfl, rfl⟩
      · rw [advance_inWindow]
        by_contra inside
        exact clash outside (reading_inWindow (Bool.of_not_eq_false inside))
      · refine squashAllSeqNum_lt start.pipeline.queues ?_
        exact Rob.squash_instList config.squashWidth checked.insts checked.rob _ ▸ member
  · exact absurd quiet own

end Runahead.O3.State
