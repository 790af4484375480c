import Runahead.O3.WindowCommit

/-!
# Runs with quiet windows

A whole cycle of commit keeps the invariant of the window, and so does every
event of a run in which no write through the thread context and no interrupt
falls into a window.
-/

set_option autoImplicit false

namespace Runahead.O3.State

open Library

variable {config : Config} {env : CommitEnv} {state next : State} {core : Core}
variable {taken offered : List Nat} {inst : Nat}

/-! ## A cycle of commit -/

theorem checked_start (config : Config) (env : CommitEnv) (core : Core) :
    let checked := (core.continueSquash config).checkForInterrupts config env
    checked.inRunahead = core.inRunahead ∧ checked.toIEW.squash = core.toIEW.squash ∧
      (checked.commitStatus = .trapPending → core.commitStatus = .trapPending) := by
  obtain ⟨_, _, same⟩ := Core.checkForInterrupts_eq config env (core.continueSquash config)
  rw [same]
  unfold Core.continueSquash
  split
  · split
    · exact ⟨rfl, rfl, (by simp)⟩
    · exact ⟨rfl, rfl, id⟩
  · exact ⟨rfl, rfl, id⟩

theorem advance_inWindow (state : State) (core : Core) :
    { state with core := core.markCompletedInsts state.iewToCommit }.advance.inWindow =
      (state.committing core).inWindow := by
  simp [inWindow, advance, committing, Core.markCompletedInsts]

theorem advance_quiet (quiet : (state.committing core).QuietInvAt state.renameQueue1 [])
    (emptied : state.renameQueue2 = []) :
    { state with core := core.markCompletedInsts state.iewToCommit }.advance.QuietInvAt []
      state.renameQueue0 := by
  have bits : ∀ inst,
      ((core.markCompletedInsts state.iewToCommit).insts inst).squashed =
        (core.insts inst).squashed ∧
      ((core.markCompletedInsts state.iewToCommit).insts inst).runaheadInst =
        (core.insts inst).runaheadInst ∧
      DynInst.mayRedirect ((core.markCompletedInsts state.iewToCommit).insts inst) =
        DynInst.mayRedirect (core.insts inst) := by
    intro inst
    simp only [Core.markCompletedInsts, InstTable.modifyAll_apply]
    split
    · exact ⟨rfl, rfl, rfl⟩
    · exact ⟨rfl, rfl, rfl⟩
  have window := advance_inWindow state core
  have held : ∀ inst, (state.committing core).Held inst →
      { state with core := core.markCompletedInsts state.iewToCommit }.advance.Held inst :=
    fun inst before => before.imp_right (And.imp_left window.trans)
  refine ⟨{ quiet.youngest with
    covers := fun inst member =>
      (quiet.youngest.covers inst member).imp_left ((bits inst).1.trans ·) }, {
    located := fun inst may => ?_
    dispatchLocated := fun inst member => ?_
    current := by rintro ⟨⟩
    toCommit := fun asks notExit => ?_
    branchExecuted := by rintro ⟨⟩ }, {
    afterCommitted := fun inside => quiet.window.afterCommitted (window.symm.trans inside)
    beforeYoungest := fun inside => quiet.window.beforeYoungest (window.symm.trans inside)
    above := fun inside => quiet.window.above (window.symm.trans inside)
    noSquashAfter := fun inside => quiet.window.noSquashAfter (window.symm.trans inside)
    noThreadContext := fun inside => quiet.window.noThreadContext (window.symm.trans inside)
    exitCurrent := by rintro ⟨⟩
    exitToCommit := quiet.window.exitCurrent }, {
    rob := fun outside inst member marked =>
      (quiet.marks.rob (window.symm.trans outside) inst member
        ((bits inst).2.1.symm.trans marked)).imp_left ((bits inst).1.trans ·)
    waiting := fun outside inst member marked =>
      (quiet.marks.waiting (window.symm.trans outside) inst member
        ((bits inst).2.1.symm.trans marked)).imp_left ((bits inst).1.trans ·) }⟩
  · exact (quiet.redirect.located inst ((bits inst).2.2.symm.trans may)).imp (held inst)
      (Or.imp_right (Or.imp_right fun executing => absurd executing.1 (by rintro ⟨⟩)))
  · have member : inst ∈ (state.committing core).toDispatch state.renameQueue1 := by
      change inst ∈ state.skidBuffer ++ (state.renameQueue2 ++ state.renameQueue1)
      rwa [emptied, List.nil_append, ← List.append_nil state.renameQueue1]
    exact (quiet.redirect.dispatchLocated inst member).imp ((bits inst).1.trans ·)
      (Or.imp_left (held inst))
  · rcases quiet.redirect.current asks notExit with ⟨refused, _⟩ | ⟨source, before, older, why⟩
    · exact .inl refused
    · refine .inr ⟨source, held source before, older, why.imp window.trans fun pending => ?_⟩
      simp only [DynInst.isPending, Bool.and_eq_true, Bool.not_eq_true'] at pending
      exact (bits source).1.trans pending.2

/-- The squash at which commit works in a cycle reaches all that rename offers. -/
theorem squashing_found (inv : state.QuietInv config) (phase : state.phase = .iew)
    (quiet : (state.reading ((state.core.continueSquash config).checkForInterrupts config
      env)).QuietInvAt [] state.renameQueue1)
    (pipeline : (state.committing ((state.core.continueSquash config).checkForInterrupts config
      env)).PipelineInvAt [] state.renameQueue1)
    (squashed : Core)
    (same : squashed = ((state.core.continueSquash config).checkForInterrupts config
      env).handleSquashes config state.iewToCommit)
    (squashing : squashed.commitStatus = .robSquashing) :
    ∀ inst ∈ state.renameQueue1,
      (squashed.insts inst).squashed = true ∨ (state.committing squashed).SquashUnseen 3 inst := by
  intro inst member
  obtain ⟨_, sameSignal, _⟩ := checked_start config env state.core
  have silent : ((state.core.continueSquash config).checkForInterrupts config
      env).toIEW.squash = false := by rw [sameSignal, inv.pipeline.quiet]
  subst same
  rcases handleSquashes_signal squashing with signal | before
  · exact .inr ⟨Nat.zero_lt_succ _, signal, handleSquashes_waiting quiet.youngest.below
      pipeline.queues silent signal (List.mem_append_left _ member)⟩
  · have old := inv.pipeline.offered_squashed phase (continueSquash_before before) inst member
    have frame := ((Core.CoreFrame.continueSquash config state.core).trans
      (.checkForInterrupts config env _)).trans (.handleSquashes config state.iewToCommit _)
    exact .inl ((frame.insts inst).squashed old)

structure CheckedInv (state : State) (checked : Core) : Prop where
  quiet : (state.reading checked).QuietInvAt [] state.renameQueue1
  pipeline : (state.committing checked).PipelineInvAt [] state.renameQueue1
  loop : state.ModeLoop checked
  silent : checked.toIEW.squash = false
  trapFree : (state.reading checked).inWindow = true → checked.commitStatus ≠ .trapPending
  exitAlone : state.iewToCommit.squashAfterRunahead = true →
    (state.committing checked).inWindow = false
  trigger : checked.raTriggerInst = state.core.raTriggerInst

theorem QuietInv.checked (inv : state.QuietInv config) (phase : state.phase = .iew)
    (idle : state.executionDone = true) (env : CommitEnv) :
    state.CheckedInv ((state.core.continueSquash config).checkForInterrupts config env) := by
  obtain ⟨sameMode, sameSignal, noTrap⟩ := checked_start config env state.core
  have frame := (Core.CoreFrame.continueSquash config state.core).trans
    (.checkForInterrupts config env _)
  refine ⟨checkForInterrupts_quiet config env (continueSquash_quiet inv phase idle),
    checkForInterrupts_pipeline config env (continueSquash_pipeline inv.pipeline),
    checkForInterrupts_mode (continueSquash_mode inv.mode.startLoop),
    by rw [sameSignal, inv.pipeline.quiet], ?_, ?_, ?_⟩
  · intro inside trapped
    refine inv.mode.trapFree ?_ (noTrap trapped)
    rw [inWindow_iff] at inside ⊢
    exact inside.imp_left sameMode.symm.trans
  · intro exit
    by_contra inside
    rcases (inWindow_iff _).mp (Bool.of_not_eq_false inside) with mode | current | later
    · have := (inv.mode.modeFirst (sameMode.symm.trans mode)).2
      exact clash this exit
    · exact clash (inv.mode.exitOnce current) exit
    · cases later
  · refine frame.trigger.resolve_right fun both => ?_
    exact clash both.1 (sameMode.symm.trans both.2)

theorem CheckedInv.accepts {checked : Core} (inv : state.CheckedInv checked)
    (exit : state.iewToCommit.squashAfterRunahead = true) :
    checked.acceptsSquash state.iewToCommit = true :=
  inv.quiet.accepts_exit exit (inv.trapFree ((inWindow_iff _).mpr (.inr (.inr exit))))

/-- Without a squash in this cycle its loops start, and commit has read no exit. -/
theorem QuietInv.enter (inv : state.QuietInv config) (phase : state.phase = .iew)
    (idle : state.executionDone = true) (env : CommitEnv) :
    let checked := (state.core.continueSquash config).checkForInterrupts config env
    checked.commitStatus ≠ .robSquashing → checked.NoOwnSquash →
      checked.acceptsSquash state.iewToCommit = false →
      state.iewToCommit.squashAfterRunahead = false ∧
        state.LoopInv [] state.renameQueue1 checked := by
  intro checked running own refused
  have start := inv.checked phase idle env
  refine ⟨?_, start.pipeline, running, own.threadContext,
    checked_silent inv.pipeline.quiet running⟩
  by_contra exit
  exact clash refused (start.accepts (Bool.of_not_eq_false exit))

theorem finishIEW_ready (phase : state.phase = .iew) (idle : state.executionDone = true) :
    state.finishIEW.phase = .iew ∧ state.finishIEW.executionDone = true := by
  have static := fun inst => ((finishIEW_frame state).insts inst).static
  obtain ⟨insts, _, same, _⟩ := finishIEW_cases state
  rw [same] at static ⊢
  refine ⟨phase, List.all_eq_true.mpr fun inst member => ?_⟩
  have static : (insts inst).staticInst = (state.insts inst).staticInst := static inst
  change (!(insts inst).staticInst.isControl && !(insts inst).staticInst.isMemRef) = true
  rw [static]
  exact List.all_eq_true.mp idle inst member

theorem commitTick_quiet (inv : state.QuietInv config) (phase : state.phase = .iew)
    (waits : state.interruptsWait (.commitTick env) = true)
    (stepped : state.commitTick config env = some next) :
    next.QuietInvAt [] next.renameQueue1 := by
  obtain ⟨idle, seen, done, sameInterrupts, rfl, finish⟩ := commitTick_cases stepped
  have waits := interruptsWait_finished waits sameInterrupts
  obtain ⟨phase, idle⟩ := finishIEW_ready phase idle
  have inv := finishIEW_quiet inv
  have emptied := inv.pipeline.taken phase
  generalize state.finishIEW = state at *
  have start := inv.checked phase idle seen
  have enter := inv.enter phase idle seen
  have found := squashing_found inv phase start.quiet start.pipeline done
  generalize (state.core.continueSquash config).checkForInterrupts config seen = checked at *
  rcases finish with ⟨same, squashing⟩ | ⟨running, own, refused, filled, got, committed⟩
  · have handled := handleSquashes_quiet config start.quiet start.pipeline start.silent
      start.exitAlone start.trapFree
    rw [← same] at handled
    refine advance_quiet (handled.passAll fun inst member => ?_) emptied
    rcases found same squashing inst member with squashed | unseen
    · exact .inl squashed
    · exact .inr (.inr (.inl unseen))
  · obtain ⟨notExit, entered⟩ := enter running own refused
    have ended := commitInsts_invariant
      (fun taken offered core => state.ModeLoop core ∧
        (state.committing core).QuietInvAt taken offered)
      entered ⟨start.loop, start.quiet.refused notExit⟩
      (fun _ _ _ _ _ inv both accepted =>
        ⟨getInst_mode inv both.1 accepted, getInst_quiet inv both.2 accepted⟩)
      (fun _ _ _ both only => ⟨both.1.invalidates only, both.2.invalidates only⟩)
      (fun _ inv both => ⟨handleInterrupt_mode both.1 waits, handleInterrupt_quiet inv both.2⟩)
      (fun _ _ inv both chosen step => ⟨headStep_mode inv both.1 chosen step,
        headStep_quiet inv both.1 both.2 chosen step⟩)
      inv.pipeline.width1 got committed
    exact advance_quiet ended.2.2 emptied

/-- Commit reads the exit squash and announces that it keeps nothing from the
trigger on. This closes the window. -/
theorem commitTick_exit (inv : state.QuietInv config) (phase : state.phase = .iew)
    (exit : state.iewToCommit.squashAfterRunahead = true)
    (stepped : state.commitTick config env = some next) :
    next.fromCommit.squash = true ∧ next.core.commitStatus = .robSquashing ∧
      next.fromCommit.doneSeqNum = state.core.raTriggerInst - 1 ∧
      next.inWindow = false ∧ (∀ inst ∈ next.core.rob.instList, state.core.raTriggerInst ≤ inst) ∧
      next.rename = state.rename ∧ state.core.lastCommitedSeqNum < state.core.raTriggerInst := by
  obtain ⟨idle, seen, done, _, rfl, finish⟩ := commitTick_cases stepped
  obtain ⟨phase, idle⟩ := finishIEW_ready phase idle
  have exit : state.finishIEW.iewToCommit.squashAfterRunahead = true := by
    obtain ⟨_, _, same, _⟩ := finishIEW_cases state
    rw [same]
    exact exit
  have same : state.finishIEW.core.raTriggerInst = state.core.raTriggerInst ∧
      state.finishIEW.rename = state.rename ∧
      state.finishIEW.core.lastCommitedSeqNum = state.core.lastCommitedSeqNum := by
    obtain ⟨_, _, same, _⟩ := finishIEW_cases state
    rw [same]
    exact ⟨rfl, rfl, rfl⟩
  have inv := finishIEW_quiet inv
  rw [← same.1, ← same.2.1, ← same.2.2]
  generalize state.finishIEW = state at *
  have start := inv.checked phase idle seen
  generalize (state.core.continueSquash config).checkForInterrupts config seen = checked at *
  have accepted := start.accepts exit
  rcases finish with ⟨same, _⟩ | ⟨_, _, refused, _⟩
  · have inside := (inWindow_iff (state.reading checked)).mpr (.inr (.inr exit))
    have own := start.quiet.window.noOwnSquash inside start.pipeline.squash (start.trapFree inside)
    have alone : checked.ownSquashes config = checked := by
      simp [Core.ownSquashes, own.trap, own.threadContext, own.after]
    have slot := start.quiet.window.exitToCommit exit
    have number : state.iewToCommit.squashedInst = state.core.raTriggerInst - 1 := by
      have trigger : state.iewToCommit.squashedSeqNum = checked.raTriggerInst := slot.trigger
      have includes : state.iewToCommit.includeSquashInst = true := slot.includes
      simp only [IewStruct.squashedInst, includes, ↓reduceIte, trigger, start.trigger]
    have same : done = checked.squashFromIEW config state.iewToCommit := by
      rw [same, Core.handleSquashes, alone]
      exact if_pos accepted
    have outside := start.exitAlone exit
    have above : ∀ inst ∈ checked.rob.instList, state.core.raTriggerInst ≤ inst :=
      start.trigger ▸ start.quiet.window.above inside
    have started := inv.quiet.window.afterCommitted ((inWindow_iff state).mpr (.inr (.inr exit)))
    subst same
    refine ⟨rfl, rfl, number, ?_, fun inst member => above inst ?_, rfl, started⟩
    · rw [advance_inWindow]
      exact outside
    · exact Rob.squash_instList config.squashWidth checked.insts checked.rob _ ▸ member
  · exact clash refused accepted

/-! ## Whole runs -/

theorem quietWindow_waits {event : Event} (allowed : state.quietWindow event = true) :
    state.interruptsWait event = true := by
  cases event with
  | tcWrite pc => rfl
  | _ => exact allowed

theorem initial_quiet (config : Config) (pc : Addr) : (initial config pc).QuietInv config where
  pipeline := initial_pipeline config pc
  trigger := initial_trigger config pc
  mode := initial_mode config pc
  quiet := by
    refine ⟨?_, ?_, ?_, ?_⟩ <;> constructor <;>
      simp [initial, inWindow, toDispatch, waiting, DynInst.mayRedirect]

theorem step_quietRun {event : Event} (inv : state.QuietInv config)
    (allowed : state.quietWindow event = true)
    (stepped : state.step config event = some next) : next.QuietInv config := by
  have waits := quietWindow_waits allowed
  have mode := step_mode ⟨inv.pipeline, inv.mode⟩ waits stepped
  have trigger : next.TriggerInv := by
    rcases step_frame inv.pipeline stepped with ⟨env, rfl⟩ | frame
    · exact commitTick_trigger inv.trigger (Option.ite_none_right_eq_some.mp stepped).2
    · exact frame.trigger inv.pipeline inv.trigger
  refine ⟨mode.pipeline, trigger, mode.mode, ?_⟩
  rcases step_quiet inv allowed stepped with ⟨env, rfl⟩ | quiet
  · obtain ⟨phase, stepped⟩ := Option.ite_none_right_eq_some.mp stepped
    exact commitTick_quiet inv phase waits stepped
  · exact quiet

theorem reachable_quiet {pc : Addr}
    (reached : Library.Reaches (step config) quietWindow (initial config pc) state) :
    state.QuietInv config :=
  reached.invariant (initial_quiet config pc) step_quietRun

end Runahead.O3.State
