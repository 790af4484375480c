import Runahead.O3.Frame

/-!
# Runahead mode and the exit squash on its way

The window is the time from the entry into runahead mode until commit has read
the exit squash. In the mode every instruction of the ROB is marked. Once the
exit squash is on its way unmarked instructions may follow, but none of them is
dispatched before commit reads the squash. So no trap is taken in the window,
unless an interrupt finds the instruction list empty.
-/

set_option autoImplicit false

namespace Runahead.O3.State

open Library List

variable {config : Config} {env : CommitEnv} {state next : State} {core : Core}
variable {taken offered : List Nat}

/-- From the entry into runahead mode until commit has read the exit squash. -/
def inWindow (state : State) : Bool :=
  state.core.inRunahead || state.iewCurrent.squashAfterRunahead ||
    state.iewToCommit.squashAfterRunahead

theorem inWindow_iff (state : State) :
    state.inWindow = true ↔ state.core.inRunahead = true ∨
      state.iewCurrent.squashAfterRunahead = true ∨
      state.iewToCommit.squashAfterRunahead = true := by
  simp [inWindow, or_assoc]

/-- No cycle that starts in runahead mode, or with the exit squash just sent,
takes an interrupt: none is pending, an instruction is in the list, or commit is
in the middle of a macro-op. -/
def interruptsWait (state : State) : Event → Bool
  | .commitTick env =>
    !((state.core.inRunahead || state.iewCurrent.squashAfterRunahead) && env.checkInterrupts &&
      state.core.canHandleInterrupts && state.core.instList.isEmpty)
  | _ => true

/-! ## The requests of a trigger -/

/-- An instruction accesses memory once, and only the trigger of the current
runahead period can have triggered runahead and still wait for a response. -/
structure TriggerInv (state : State) : Prop where
  accessed : ∀ inst < state.nextSeqNum,
    (state.insts inst).outstandingReqs ≠ [] ∨ (state.insts inst).triggeredRunahead = true →
    (state.insts inst).issued = true ∧ inst ∉ state.toExecute ++ state.issuedNow
  triggers : ∀ inst < state.nextSeqNum, (state.insts inst).triggeredRunahead = true →
    (state.insts inst).outstandingReqs ≠ [] →
    state.core.inRunahead = true ∧ inst = state.core.raTriggerInst

theorem CommitFrame.trigger (frame : state.CommitFrame next) (pipeline : state.PipelineInv config)
    (inv : state.TriggerInv) : next.TriggerInv := by
  -- An instruction that has accessed memory does not access it again.
  have before : ∀ inst < state.nextSeqNum, (next.insts inst).triggeredRunahead = true →
      (next.insts inst).outstandingReqs ≠ [] →
      (state.insts inst).triggeredRunahead = true ∧ (state.insts inst).outstandingReqs ≠ [] := by
    intro inst below triggered pending
    have triggered := (frame.insts inst below).triggered.symm.trans triggered
    refine ⟨triggered, (frame.requests inst below pending).resolve_right ?_⟩
    exact fun both =>
      (inv.accessed inst below (.inr triggered)).2 (mem_append_left _ both.1)
  have bounded : ∀ inst, (state.insts inst).outstandingReqs ≠ [] → inst < state.nextSeqNum :=
    fun inst pending =>
      pipeline.dispatched_lt ((pipeline.status.each inst).requestsDispatched pending)
  constructor
  · intro inst bound since
    by_cases below : inst < state.nextSeqNum
    · have settled : (state.insts inst).issued = true ∧ inst ∉ state.toExecute ++ state.issuedNow →
          (next.insts inst).issued = true ∧ inst ∉ next.toExecute ++ next.issuedNow := by
        rintro ⟨issued, outside⟩
        refine ⟨(frame.issued inst below issued).resolve_right
          fun executing => outside (mem_append_left _ executing), fun within => ?_⟩
        rcases frame.executing inst within with old | unissued
        · exact outside old
        · exact clash unissued issued
      rcases since with pending | triggered
      · rcases frame.requests inst below pending with old | ⟨_, outside, issued⟩
        · exact settled (inv.accessed inst below (.inl old))
        · exact ⟨issued, outside⟩
      · exact settled (inv.accessed inst below
          (.inr ((frame.insts inst below).triggered.symm.trans triggered)))
    · have fresh := frame.born inst (Nat.le_of_not_lt below) bound
      rcases since with pending | triggered
      · exact absurd fresh.2 pending
      · exact clash fresh.1 triggered
  · intro inst bound triggered pending
    by_cases below : inst < state.nextSeqNum
    · obtain ⟨triggeredBefore, pendingBefore⟩ := before inst below triggered pending
      obtain ⟨mode, same⟩ := inv.triggers inst below triggeredBefore pendingBefore
      rcases frame.mode with ⟨sameMode, _⟩ | ⟨_, _, other, otherTriggered, otherPending, last⟩
      · exact ⟨sameMode.trans mode, same.trans frame.raTriggerInst.symm⟩
      · have sameOther := (inv.triggers other (bounded other otherPending) otherTriggered
          otherPending).2
        rw [same, ← sameOther] at pending
        exact absurd last pending
    · exact clash (frame.born inst (Nat.le_of_not_lt below) bound).1 triggered

theorem commitTick_trigger (inv : state.TriggerInv)
    (stepped : state.commitTick config env = some next) : next.TriggerInv := by
  obtain ⟨done, storeQueue, frame, rfl⟩ := commitTick_frame stepped
  have executing : ∀ inst, inst ∈ (state.toExecute ++ state.issuedNow) ++ [] ↔
      inst ∈ state.toExecute ++ state.issuedNow := by simp
  have requests := fun inst => (frame.insts inst).outstandingReqs
  have triggered : ∀ inst, (done.insts inst).triggeredRunahead = true →
      (state.insts inst).outstandingReqs ≠ [] ∨ (state.insts inst).triggeredRunahead = true := by
    intro inst now
    rcases frame.triggered inst with same | ⟨_, _, _, pending⟩
    · exact .inr (same.symm.trans now)
    · exact .inl pending
  constructor
  · intro inst below since
    have since : (state.insts inst).outstandingReqs ≠ [] ∨
        (state.insts inst).triggeredRunahead = true :=
      since.elim (fun pending => .inl (requests inst ▸ pending)) (triggered inst)
    obtain ⟨issued, outside⟩ := inv.accessed inst below since
    exact ⟨(frame.insts inst).issued.trans issued, fun within =>
      outside ((executing inst).mp within)⟩
  · intro inst below now pending
    have pending : (state.insts inst).outstandingReqs ≠ [] := requests inst ▸ pending
    rcases frame.triggered inst with same | ⟨_, mode, trigger, _⟩
    · obtain ⟨mode, trigger⟩ := inv.triggers inst below (same.symm.trans now) pending
      refine ⟨frame.stays mode, trigger.trans ?_⟩
      exact (frame.trigger.resolve_right fun both => clash both.1 mode).symm
    · exact ⟨mode, trigger⟩

theorem initial_trigger (config : Config) (pc : Addr) : (initial config pc).TriggerInv := by
  constructor <;> simp [initial]

/-! ## Marks and traps -/

structure ModeInv (state : State) : Prop where
  trapFree : state.inWindow = true → state.core.commitStatus ≠ .trapPending
  modeFirst : state.core.inRunahead = true → state.iewCurrent.squashAfterRunahead = false ∧
    state.iewToCommit.squashAfterRunahead = false
  exitOnce : state.iewCurrent.squashAfterRunahead = true →
    state.iewToCommit.squashAfterRunahead = false
  marked : state.core.inRunahead = true ∨ state.iewCurrent.squashAfterRunahead = true →
    ∀ inst ∈ state.core.rob.instList, (state.insts inst).runaheadInst = true
  exitMarked : state.iewToCommit.squashAfterRunahead = true → state.phase ≠ .iew →
    ∀ inst ∈ state.core.rob.instList,
      (state.insts inst).runaheadInst = true ∨ (state.insts inst).dispatched = false

theorem CommitFrame.inWindow (frame : state.CommitFrame next) (window : next.inWindow = true) :
    state.inWindow = true := by
  rw [inWindow_iff] at window ⊢
  rw [frame.iewToCommit] at window
  rcases frame.mode with ⟨mode, exit⟩ | ⟨mode, _⟩
  · rwa [mode, exit] at window
  · exact .inl mode

theorem CommitFrame.modeInv (frame : state.CommitFrame next) (pipeline : state.PipelineInv config)
    (inv : state.ModeInv) : next.ModeInv := by
  have bounded : ∀ inst ∈ state.core.rob.instList, inst < state.nextSeqNum :=
    fun inst member => pipeline.queues.bounded inst (mem_append_left _ member)
  have marked : ∀ inst ∈ state.core.rob.instList, (state.insts inst).runaheadInst = true →
      (next.insts inst).runaheadInst = true :=
    fun inst member before => (frame.insts inst (bounded inst member)).marked.trans before
  constructor
  · intro window
    rw [frame.commitStatus]
    exact inv.trapFree (frame.inWindow window)
  · intro mode
    rcases frame.mode with ⟨sameMode, sameExit⟩ | ⟨_, off, _⟩
    · rw [sameExit, frame.iewToCommit]
      exact inv.modeFirst (sameMode.symm.trans mode)
    · exact clash off mode
  · intro exit
    rw [frame.iewToCommit]
    rcases frame.mode with ⟨_, sameExit⟩ | ⟨mode, _⟩
    · exact inv.exitOnce (sameExit.symm.trans exit)
    · exact (inv.modeFirst mode).2
  · intro since inst member
    rw [frame.rob] at member
    rcases frame.mode with ⟨sameMode, sameExit⟩ | ⟨mode, _⟩
    · rw [sameMode, sameExit] at since
      exact marked inst member (inv.marked since inst member)
    · exact marked inst member (inv.marked (.inl mode) inst member)
  · intro exit phase inst member
    rw [frame.rob] at member
    rw [frame.iewToCommit] at exit
    have earlier : state.phase ≠ .iew := by
      intro same
      have := frame.rank
      rw [same] at this
      exact phase (by cases moved : next.phase <;> simp [moved, Phase.rank] at this ⊢)
    refine (inv.exitMarked exit earlier inst member).imp (marked inst member) fun before => ?_
    exact (frame.dispatch phase inst (bounded inst member)).trans before

structure ModeLoop (state : State) (core : Core) : Prop where
  trapFree : core.inRunahead = true ∨ state.iewCurrent.squashAfterRunahead = true →
    core.commitStatus ≠ .trapPending
  modeFirst : core.inRunahead = true → state.iewCurrent.squashAfterRunahead = false
  marked : core.inRunahead = true → ∀ inst ∈ core.rob.instList,
    (core.insts inst).runaheadInst = true
  exitMarked : state.iewCurrent.squashAfterRunahead = true → ∀ inst ∈ core.rob.instList,
    (core.insts inst).runaheadInst = true ∨ (core.insts inst).dispatched = false
  sameList : core.instList = state.core.instList
  /-- The mode is entered for the head of the ROB, and only a head that commits
  changes whether interrupts can be handled; the head is in the list. -/
  emptied : core.instList = [] → (core.inRunahead = true → state.core.inRunahead = true) ∧
    core.canHandleInterrupts = state.core.canHandleInterrupts

section

variable (loop : state.ModeLoop core)
include loop

theorem ModeLoop.of_frame {next : Core}
    (frame : core.CoreFrame next) (mode : next.inRunahead = core.inRunahead)
    (rob : next.rob.instList ⊆ core.rob.instList)
    (status : next.commitStatus = .trapPending → core.commitStatus = .trapPending)
    (handles : core.instList = [] → next.canHandleInterrupts = core.canHandleInterrupts) :
    state.ModeLoop next where
  trapFree window trapped := loop.trapFree (mode ▸ window) (status trapped)
  modeFirst inside := loop.modeFirst (mode.symm.trans inside)
  marked inside inst member :=
    (frame.insts inst).marked (loop.marked (mode.symm.trans inside) inst (rob member))
  exitMarked exit inst member :=
    (loop.exitMarked exit inst (rob member)).imp (frame.insts inst).marked
      ((frame.insts inst).dispatched.trans ·)
  sameList := frame.instList.trans loop.sameList
  emptied empty := by
    have empty := frame.instList.symm.trans empty
    rw [mode, handles empty]
    exact loop.emptied empty

theorem continueSquash_mode :
    state.ModeLoop (core.continueSquash config) := by
  have frame := Core.CoreFrame.continueSquash config core
  unfold Core.continueSquash at frame ⊢
  split
  · next squashing =>
    rw [if_pos squashing] at frame
    split
    · next done =>
      rw [if_pos done] at frame
      exact loop.of_frame frame rfl (List.Subset.refl _) (by simp) fun _ => rfl
    · next going =>
      rw [if_neg going] at frame
      have same := Rob.doSquash_instList config.squashWidth core.insts core.rob
      exact loop.of_frame frame rfl (fun _ member => same ▸ member) id fun _ => rfl
  · exact loop

theorem checkForInterrupts_mode :
    state.ModeLoop (core.checkForInterrupts config env) := by
  obtain ⟨_, _, same⟩ := Core.checkForInterrupts_eq config env core
  rw [same]
  exact loop.of_frame (.of_same rfl rfl rfl rfl) rfl (List.Subset.refl _) id fun _ => rfl

theorem broadcastSquash_mode (squashedInst youngest : Nat)
    (pc : Addr) : state.ModeLoop (core.broadcastSquash config squashedInst youngest pc) := by
  have same := Rob.squash_instList config.squashWidth core.insts core.rob squashedInst
  exact loop.of_frame (.of_squashesOnly rfl rfl rfl (.of_squash _ _ _ _)) rfl
    (fun _ member => same ▸ member) (by rintro ⟨⟩) fun _ => rfl

end

theorem handleSquashes_mode (fromIEW : IewStruct) (loop : state.ModeLoop core) :
    state.ModeLoop (core.handleSquashes config fromIEW) := by
  have all : state.ModeLoop (core.squashAll config) := broadcastSquash_mode loop _ _ _
  have own : state.ModeLoop (core.ownSquashes config) := by
    rcases Core.ownSquashes_cases config core with
      ⟨same, _⟩ | ⟨_, same⟩ | ⟨_, _, same⟩ | ⟨_, _, _, same⟩ <;> rw [same]
    · exact loop
    · exact { all with }
    · exact { all with }
    · exact { all with }
  unfold Core.handleSquashes
  simp only
  split
  · exact broadcastSquash_mode own _ _ _
  · exact own

theorem getInst_mode {inst : Nat} {next : Core} (inv : state.LoopInv taken (inst :: offered) core)
    (loop : state.ModeLoop core) (accepted : core.getInst config inst = .ok next) :
    state.ModeLoop next := by
  have frame := Core.CoreFrame.getInst accepted
  rcases Core.getInst_cases accepted with ⟨rfl, _⟩ | ⟨rfl, _⟩
  · exact loop
  · have undispatched : (core.insts inst).dispatched = false :=
      inv.pipeline.queues.undispatched inst (by simp [waiting])
    refine { loop with
      marked := fun mode other member => ?_
      exitMarked := fun exit other member => ?_ }
    · rcases mem_append.mp member with before | last
      · exact (frame.insts other).marked (loop.marked mode other before)
      · have mode : core.inRunahead = true := mode
        rw [mem_singleton.mp last]
        simp [Core.inserted, mode, DynInst.setRunaheadInst]
    · rcases mem_append.mp member with before | last
      · exact (loop.exitMarked exit other before).imp (frame.insts other).marked
          ((frame.insts other).dispatched.trans ·)
      · rw [mem_singleton.mp last]
        exact .inr ((frame.insts inst).dispatched.trans undispatched)

theorem handleInterrupt_mode (loop : state.ModeLoop core)
    (waits : state.interruptsWait (.commitTick env) = true) :
    state.ModeLoop (core.handleInterrupt env) := by
  unfold Core.handleInterrupt
  split
  · exact { loop with }
  · next checked =>
    split
    · next empty =>
      simp only [Bool.and_eq_true, List.isEmpty_iff] at empty
      obtain ⟨mode, handles⟩ := loop.emptied empty.2
      have nothing : state.core.instList = [] := loop.sameList ▸ empty.2
      have pending : env.checkInterrupts = true := by simpa using checked
      refine { loop with trapFree := fun window => ?_ }
      have window := window.imp_left mode
      simp [interruptsWait, nothing, pending, ← handles, empty.1, -not_or] at waits
      exact absurd window (by simpa using waits)
    · exact loop

theorem ModeLoop.unmarked_undispatched (loop : state.ModeLoop core) {head : Nat}
    {rest : List Nat} (atHead : core.rob.instList = head :: rest)
    (exit : state.iewCurrent.squashAfterRunahead = true)
    (unmarked : (core.insts head).runaheadInst = false) : (core.insts head).dispatched = false :=
  (loop.exitMarked exit head (by simp [atHead])).resolve_left fun marked => clash unmarked marked

theorem ModeLoop.invalidates {insts : InstTable} (loop : state.ModeLoop core)
    (only : Core.Invalidates core.insts insts) : state.ModeLoop { core with insts := insts } :=
  loop.of_frame (.invalidates only) rfl (List.Subset.refl _) id fun _ => rfl

theorem headStep_mode {next : Core} (inv : state.LoopInv taken [] core)
    (loop : state.ModeLoop core) (chosen : core.mayCommit = true ∨ core.instList = [])
    (step : Core.HeadStep env core next) : state.ModeLoop next := by
  have status := inv.pipeline.status
  have frame := Core.CoreFrame.headStep step
  have tail : core.rob.instList.tail ⊆ core.rob.instList :=
    (tail_sublist _).subset
  have listed : ∀ {head rest}, core.rob.instList = head :: rest → head ∈ core.instList :=
    fun atHead => inv.pipeline.queues.listed _ (mem_append_left _ (by simp [atHead]))
  cases step with
  | stay => exact loop
  | @enter head rest next atHead enters entered =>
    simp only [Core.entersRunahead, Bool.and_eq_true, Bool.not_eq_true'] at enters
    have listed := listed atHead
    have dispatched := (status.each head).missedDispatched enters.1.2
    have noExit : state.iewCurrent.squashAfterRunahead = false := by
      by_contra exit
      have := loop.unmarked_undispatched atHead (by simpa using exit) enters.2
      exact clash this dispatched
    have running : core.commitStatus ≠ .trapPending := by
      intro trapped
      rcases chosen with chosen | empty
      · simp [Core.mayCommit, trapped] at chosen
      · simp [empty] at listed
    obtain ⟨_, _, insts, regs, rfl, _, marked, _⟩ := Core.enterRunaheadMode_cases entered
    exact {
      trapFree := fun _ => running
      modeFirst := fun _ => noExit
      marked := fun _ inst member => marked inst (mem_append_left _ member)
      exitMarked := fun exit => clash noExit exit
      sameList := loop.sameList
      emptied := fun empty => absurd (empty ▸ listed) not_mem_nil }
  | invalidate atHead mode => exact loop.invalidates (.modify _ _)
  | @pseudoRetire head rest marked atHead mode which =>
    rcases which with rfl | rfl
    · exact loop.of_frame frame rfl tail id fun _ => rfl
    · exact loop.of_frame frame rfl tail id fun _ => rfl
  | dropSquashed atHead normalMode unmarked squashed =>
    exact loop.of_frame frame rfl tail id fun _ => rfl
  | hold atHead readyHead => exact loop.of_frame frame rfl (List.Subset.refl _) id fun _ => rfl
  | release atHead readyHead waiting drained =>
    exact loop.of_frame frame rfl (List.Subset.refl _) id fun _ => rfl
  | @trap head rest atHead readyHead executed faulted =>
    refine { loop with trapFree := fun window => ?_ }
    rcases window with mode | exit
    · exact clash readyHead.normalMode mode
    · have undispatched := loop.unmarked_undispatched atHead exit readyHead.unmarked
      have dispatched := (status.each head).executedDispatched executed
      exact clash undispatched dispatched
  | @commit head rest atHead readyHead executed faultless =>
    obtain ⟨after, _, which, same⟩ := Core.afterCommit_cases env
      (Core.commitInst { core with pc := (core.insts head).pc } head) head
    rw [same] at frame ⊢
    refine loop.of_frame frame rfl tail (fun trapped => ?_) fun empty => ?_
    · rcases which with rfl | rfl
      · exact trapped
      · cases trapped
    · exact absurd (empty ▸ listed atHead) not_mem_nil

theorem ModeInv.startLoop (inv : state.ModeInv) : state.ModeLoop state.core where
  trapFree window := inv.trapFree ((inWindow_iff state).mpr (window.imp_right .inl))
  modeFirst mode := (inv.modeFirst mode).1
  marked mode := inv.marked (.inl mode)
  exitMarked exit inst member := .inl (inv.marked (.inr exit) inst member)
  sameList := rfl
  emptied _ := ⟨id, rfl⟩

theorem finishIEW_mode (inv : state.ModeInv) : state.finishIEW.ModeInv := by
  have frame := finishIEW_frame state
  obtain ⟨insts, _, same, _⟩ := finishIEW_cases state
  rw [same] at frame ⊢
  exact {
    trapFree := inv.trapFree
    modeFirst := inv.modeFirst
    exitOnce := inv.exitOnce
    marked := fun since inst member => (frame.insts inst).marked (inv.marked since inst member)
    exitMarked := fun exit phase inst member =>
      (inv.exitMarked exit phase inst member).imp (frame.insts inst).marked
        ((frame.insts inst).dispatched.trans ·) }

theorem interruptsWait_finished {seen : CommitEnv}
    (waits : state.interruptsWait (.commitTick env) = true)
    (sameInterrupts : seen.checkInterrupts = env.checkInterrupts) :
    state.finishIEW.interruptsWait (.commitTick seen) = true := by
  obtain ⟨_, _, same, _⟩ := finishIEW_cases state
  rw [same, interruptsWait, sameInterrupts]
  exact waits

theorem ModeLoop.advance {storeQueue : List SQEntry} (loop : state.ModeLoop core) :
    { state with core := core, storeQueue := storeQueue }.advance.ModeInv where
  trapFree window := by
    rw [inWindow_iff] at window
    rcases window with mode | current | exit
    · exact loop.trapFree (.inl mode)
    · cases current
    · exact loop.trapFree (.inr exit)
  modeFirst mode := ⟨rfl, loop.modeFirst mode⟩
  exitOnce := by rintro ⟨⟩
  marked since := loop.marked (since.resolve_right (by rintro ⟨⟩))
  exitMarked exit _ := loop.exitMarked exit

theorem commitTick_mode (pipeline : state.PipelineInv config) (inv : state.ModeInv)
    (waits : state.interruptsWait (.commitTick env) = true)
    (stepped : state.commitTick config env = some next) : next.ModeInv := by
  obtain ⟨_, seen, done, sameInterrupts, rfl, finish⟩ := commitTick_cases stepped
  have finished := finishIEW_pipeline pipeline
  have waits := interruptsWait_finished waits sameInterrupts
  have checked : state.finishIEW.ModeLoop
      ((state.finishIEW.core.continueSquash config).checkForInterrupts config seen) :=
    checkForInterrupts_mode (continueSquash_mode (finishIEW_mode inv).startLoop)
  have ended : state.finishIEW.ModeLoop done := by
    rcases finish with ⟨rfl, _⟩ | ⟨running, quiet, _, filled, got, committed⟩
    · exact handleSquashes_mode _ checked
    · have entered : state.finishIEW.LoopInv [] state.finishIEW.renameQueue1 _ :=
        ⟨checkForInterrupts_pipeline config seen (continueSquash_pipeline finished), running,
          quiet.threadContext, checked_silent finished.quiet running⟩
      exact (commitInsts_invariant (fun _ _ core => state.finishIEW.ModeLoop core) entered checked
        (fun _ _ _ _ _ inv loop accepted => getInst_mode inv loop accepted)
        (fun _ _ _ loop only => loop.invalidates only)
        (fun _ _ loop => handleInterrupt_mode loop waits)
        (fun _ _ inv loop chosen step => headStep_mode inv loop chosen step)
        finished.width1 got committed).2
  have marked : state.finishIEW.ModeLoop (done.markCompletedInsts state.finishIEW.iewToCommit) :=
    ended.of_frame (.markCompletedInsts done _) rfl (List.Subset.refl _) id fun _ => rfl
  exact marked.advance

/-! ## Whole runs -/

structure ModeRun (config : Config) (state : State) : Prop where
  pipeline : state.PipelineInv config
  mode : state.ModeInv

theorem initial_mode (config : Config) (pc : Addr) : (initial config pc).ModeInv := by
  constructor <;> simp [initial, inWindow]

theorem step_mode {event : Event} (inv : state.ModeRun config)
    (waits : state.interruptsWait event = true)
    (stepped : state.step config event = some next) : next.ModeRun config := by
  refine ⟨step_pipeline inv.pipeline stepped, ?_⟩
  rcases step_frame inv.pipeline stepped with ⟨env, rfl⟩ | frame
  · exact commitTick_mode inv.pipeline inv.mode waits (Option.ite_none_right_eq_some.mp stepped).2
  · exact frame.modeInv inv.pipeline inv.mode

theorem reachable_mode {pc : Addr}
    (reached : Library.Reaches (step config) interruptsWait (initial config pc) state) :
    state.ModeRun config :=
  reached.invariant ⟨initial_pipeline config pc, initial_mode config pc⟩ step_mode

/-! ### A load that misses -/

def smallConfig : Config where
  numROBEntries := 8
  renameWidth := 2
  commitWidth := 2
  squashWidth := 2
  fullSystem := true
  numArchRegs regClass := if regClass = .int then 2 else 0
  numPhysRegs regClass := if regClass = .int then 10 else 0

def cycle (fetch rename iew : List Event) (env : CommitEnv) : List Event :=
  [.startTick] ++ fetch ++ [.startRename] ++ rename ++ [.startIEW] ++ iew ++ [.commitTick env]

def idleCycles (count : Nat) : List Event :=
  (List.replicate count (cycle [] [] [] {})).flatten

/-- The first instruction is fetched, renamed, put into the ROB and executed as
a memory access that misses in the L2 cache. Commit then finds it at the head
of the ROB and enters runahead mode. -/
def missingAccess (staticInst : StaticInst) : List Event :=
  cycle [.fetchInst staticInst 100 104] [.renameInst] [] {} ++ idleCycles 1 ++
    cycle [] [] [.dispatchInst, .issueInst 1] {} ++
    cycle [] [] [.executeInst 1 (.access [7] none)] {} ++ [.l2Miss 1] ++ idleCycles 1

def load : StaticInst := { isLoad := true, destRegs := [{ reg := ⟨.int, 0⟩ }] }

/-- While interrupts wait for the end of the window, commit takes no trap in
runahead mode or before it has read the exit squash, and no trap squash follows. -/
theorem no_trap_in_window {pc : Addr}
    (reached : Library.Reaches (step config) interruptsWait (initial config pc) state)
    (window : state.inWindow = true) :
    state.core.commitStatus ≠ .trapPending ∧ state.core.trapInFlight = false ∧
      state.core.trapSquash = false := by
  have run := reachable_mode reached
  have free := run.mode.trapFree window
  have grounded : state.core.trapInFlight = false := by
    by_contra flying
    exact free (run.pipeline.squash.trapStatus (by simpa using flying))
  refine ⟨free, grounded, ?_⟩
  by_contra fired
  exact clash grounded (run.pipeline.squash.trapFired (by simpa using fired))

theorem no_trap_in_window_reached :
    ∃ state : State, state.inWindow = true ∧ state.core.commitStatus ≠ .trapPending ∧
      state.core.trapInFlight = false ∧ state.core.trapSquash = false := by
  obtain ⟨state, reached, window⟩ := Library.reaches_of_observed (step smallConfig)
    interruptsWait (initial smallConfig 100) (missingAccess load) inWindow (by decide +kernel)
  exact ⟨state, window, no_trap_in_window reached window⟩

/-- The trigger is pseudo-retired, the interrupt stops fetch, and the instruction
list runs empty: commit then starts the interrupt handler in runahead mode. -/
theorem interrupt_taken_in_runahead :
    ∃ state, Library.Reaches (step smallConfig) Library.anyEvent (initial smallConfig 100) state ∧
      state.core.inRunahead = true ∧ state.core.commitStatus = .trapPending := by
  obtain ⟨state, reached, observed⟩ := Library.reaches_of_observed (step smallConfig)
    Library.anyEvent (initial smallConfig 100)
    (missingAccess load ++ cycle [] [] [] { checkInterrupts := true } ++
      cycle [] [] [] { checkInterrupts := true, handlerPc := 900 })
    (fun state => state.core.inRunahead && state.core.commitStatus == .trapPending)
    (by decide +kernel)
  simp only [Bool.and_eq_true, beq_iff_eq] at observed
  exact ⟨state, reached, observed⟩

end Runahead.O3.State
