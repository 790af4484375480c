import Runahead.O3.WindowStep

/-!
# Commit keeps the window quiet

A cycle of commit is followed as for the pipeline invariant. `reading` is the
state while commit has yet to decide on the squash request of the IEW stage.
-/

set_option autoImplicit false

namespace Runahead.O3.State

open Library List O3.Core

variable {config : Config} {env : CommitEnv} {state next : State} {core : Core}
variable {taken offered : List Nat} {inst : Nat}

def reading (state : State) (core : Core) : State :=
  { state with core := core, phase := .betweenTicks, fromCommit := core.toIEW }

/-! ## The start of the cycle -/

theorem finishIEW_silent (state : State) : state.Silent state.finishIEW := by
  have queued : ∀ {next : State} storeQueue, state.Silent next →
      state.Silent { next with storeQueue := storeQueue } :=
    fun _ silent => { silent with frame := { silent.frame with } }
  obtain ⟨insts, storeQueue, same, rfl | ⟨_, rfl⟩⟩ := finishIEW_cases state <;> rw [same]
  · exact queued _ (.refl state)
  · exact queued _ (.execute (.modifyInst state _ _ .setReleased rfl id id) rfl id id .rfl
      fun _ _ _ => id)

theorem finishIEW_quiet (inv : state.QuietInv config) : state.finishIEW.QuietInv config where
  pipeline := finishIEW_pipeline inv.pipeline
  trigger := (finishIEW_silent state).frame.trigger inv.pipeline inv.trigger
  mode := (finishIEW_silent state).frame.modeInv inv.pipeline inv.mode
  quiet := (finishIEW_silent state).quiet inv

/-- When commit runs, no instruction that may ask for a squash is executing, and
a squash that rename has read has reached everything that commit is offered. -/
theorem QuietInv.reading (inv : state.QuietInv config) (phase : state.phase = .iew)
    (idle : state.executionDone = true) :
    (state.reading state.core).QuietInvAt [] state.renameQueue1 := by
  have silent : state.core.toIEW.squash = false := by rw [inv.pipeline.quiet]
  have seen : ∀ {rank inst}, rank ≤ 3 → ¬ state.SquashUnseen rank inst := by
    intro rank inst bound unseen
    have := unseen.1
    simp only [phase, Phase.rank] at this
    omega
  refine ⟨{ inv.quiet.youngest with
    signalled := fun signal => clash silent signal }, { inv.quiet.redirect with
    located := fun inst may => ?_
    dispatchLocated := fun inst member => ?_
    current := fun asks notExit => ?_ }, { inv.quiet.window with },
    { inv.quiet.marks with waiting := fun outside inst member marked => ?_ }⟩
  · rcases inv.quiet.redirect.located inst may with held | unseen | dropped | executing
    · exact .inl held
    · exact absurd unseen (seen (Nat.le_refl _))
    · exact .inr (.inr (.inl dropped))
    · have done := all_eq_true.mp idle inst executing.2.2.1
      simp only [DynInst.mayRedirect, Bool.and_eq_true, Bool.or_eq_true] at may
      simp only [Bool.and_eq_true, Bool.not_eq_true'] at done
      rcases may.2 with control | memory
      · exact clash done.1 control
      · exact clash done.2 memory
  · refine (inv.quiet.redirect.dispatchLocated inst member).imp_right (Or.imp_right fun rest => ?_)
    exact .inr (rest.resolve_left (seen (Nat.le_refl _)))
  · refine (inv.quiet.redirect.current asks notExit).imp_left fun before => ⟨before.1, ?_⟩
    rcases before.2 with trapped | signal | all
    · exact .inl trapped
    · exact .inr (.inr (inv.pipeline.flushed signal (by simp [phase])))
    · exact .inr (.inr all)
  · exact .inl ((inv.quiet.marks.waiting outside inst member marked).resolve_right
      (seen (by omega)))

theorem PipelineInv.offered_squashed (inv : state.PipelineInv config) (phase : state.phase = .iew)
    (squashing : state.core.commitStatus = .robSquashing) :
    ∀ inst ∈ state.renameQueue1, (state.insts inst).squashed = true := by
  have announced := inv.squash.signalled squashing
  cases signal : state.fromCommit.squash with
  | true => exact inv.flushed signal (by simp [phase])
  | false => simp [inv.drained announced signal]

variable {old new : InstTable}

section

variable (only : SquashesOnly old new)
include only

theorem SquashesOnly.mayRedirect
    (may : DynInst.mayRedirect (new inst) = true) : DynInst.mayRedirect (old inst) = true := by
  rcases only inst with same | squashed
  · exact same ▸ may
  · simp [squashed, DynInst.mayRedirect, DynInst.squashInRob, DynInst.setSquashed,
      DynInst.setCanCommit] at may

theorem SquashesOnly.squashed
    (before : (old inst).squashed = true) : (new inst).squashed = true := by
  rcases only inst with same | squashed
  · rwa [same]
  · rw [squashed]
    rfl

theorem SquashesOnly.marked :
    (new inst).runaheadInst = (old inst).runaheadInst := by
  rcases only inst with same | squashed
  · rw [same]
  · rw [squashed]
    rfl

theorem SquashesOnly.executed :
    (new inst).executed = (old inst).executed := by
  rcases only inst with same | squashed
  · rw [same]
  · rw [squashed]
    rfl

end

theorem continueSquash_quiet (inv : state.QuietInv config) (phase : state.phase = .iew)
    (idle : state.executionDone = true) :
    (state.reading (state.core.continueSquash config)).QuietInvAt [] state.renameQueue1 := by
  have start := inv.reading phase idle
  have pipeline := inv.pipeline
  unfold continueSquash
  split
  · next squashing =>
    have progress := pipeline.squash.progress squashing
    have notTrapped : state.core.commitStatus ≠ .trapPending := by simp [squashing]
    have offeredSquashed := pipeline.offered_squashed phase squashing
    split
    · next done =>
      have drained : ∀ inst ∈ state.core.rob.instList,
          state.core.rob.squashedSeqNum < inst → (state.insts inst).squashed = true :=
        fun inst member younger => (progress.all_drained done member younger).1
      exact ⟨{ start.youngest with
        covers := fun inst member => by
          rcases start.youngest.covers inst member with squashed | older | ⟨_, younger⟩
          · exact .inl squashed
          · exact .inr (.inl older)
          · exact .inl (drained inst member younger) }, { start.redirect with
        located := fun inst may => (start.redirect.located inst may).imp_right
          (Or.imp_right (Or.imp_left fun dropped => absurd dropped.1 notTrapped))
        dispatchLocated := fun inst member => (start.redirect.dispatchLocated inst member).imp_right
          (Or.imp_right (Or.imp_right fun dropped => absurd dropped.1 notTrapped))
        current := fun asks notExit => (start.redirect.current asks notExit).imp_left
          fun before => ⟨before.1, .inr (.inr offeredSquashed)⟩ }, { start.window with
        noSquashAfter := by rintro _ ⟨⟩
        exitToCommit := start.window.exitToCommit },
        { start.marks with
        rob := fun outside inst member marked => by
          rcases start.marks.rob outside inst member marked with squashed | ⟨_, younger⟩
          · exact .inl squashed
          · exact .inl (drained inst member younger) }⟩
    · have only := SquashesOnly.of_doSquash config.squashWidth state.core.insts state.core.rob
      have changed := Rob.doSquash_apply config.squashWidth state.core.insts state.core.rob
      have sameList := Rob.doSquash_instList config.squashWidth state.core.insts state.core.rob
      have sameNumber :=
        Rob.doSquash_squashedSeqNum config.squashWidth state.core.insts state.core.rob
      generalize state.core.rob.doSquash config.squashWidth state.core.insts = squashing at *
      obtain ⟨insts, instList, squashIt, squashedSeqNum, doneSquashing⟩ := squashing
      subst sameList sameNumber
      -- An instruction that is squashed now is younger than all that commit may still accept.
      have spared : ∀ inst ∈ state.core.rob.instList,
          insts inst = state.insts inst ∨ state.core.youngestSeqNum < inst := by
        intro inst member
        refine (changed inst).imp_right fun now => ?_
        exact Nat.lt_of_le_of_lt
          (pipeline.squash.youngestSquash squashing (ne_nil_of_mem member)) now.2.1
      exact ⟨{ start.youngest with
        covers := fun inst member => (start.youngest.covers inst member).imp_left only.squashed },
        { start.redirect with
        located := fun inst may => (start.redirect.located inst (only.mayRedirect may)).imp_right
          (Or.imp_right (Or.imp_right fun executing => absurd executing.1 (by rintro ⟨⟩)))
        dispatchLocated := fun inst member =>
          (start.redirect.dispatchLocated inst member).imp_left only.squashed
        current := fun asks notExit => by
          rcases start.redirect.current asks notExit with ⟨refused, _⟩ | ⟨inst, held, older, source⟩
          · exact .inl ⟨refused, .inr (.inr fun inst member =>
              only.squashed (offeredSquashed inst member))⟩
          · rcases held with member | ⟨inside, above⟩
            · rcases spared inst member with same | younger
              · exact .inr ⟨inst, .inl member, older,
                  source.imp_right (congrArg DynInst.isPending same).trans⟩
              · have := state.iewCurrent.squashedInst_le
                exact .inl ⟨Nat.lt_of_lt_of_le younger (Nat.le_trans older this),
                  .inr (.inr fun inst member => only.squashed (offeredSquashed inst member))⟩
            · exact .inr ⟨inst, .inr ⟨inside, above⟩, older, .inl inside⟩
        toCommit := fun asks notExit => by
          rcases start.redirect.toCommit asks notExit with refused | ⟨inst, held, older, source⟩
          · exact .inl refused
          · rcases held with member | ⟨inside, above⟩
            · rcases spared inst member with same | younger
              · exact .inr ⟨inst, .inl member, older,
                  source.imp_right (congrArg DynInst.squashed same).trans⟩
              · have := state.iewToCommit.squashedInst_le
                exact .inl (Nat.lt_of_lt_of_le younger (Nat.le_trans older this))
            · exact .inr ⟨inst, .inr ⟨inside, above⟩, older, .inl inside⟩
        branchExecuted := fun asks excludes =>
          only.executed.trans (start.redirect.branchExecuted asks excludes) },
        { start.window with },
        { rob := fun outside inst member marked =>
            (start.marks.rob outside inst member (only.marked.symm.trans marked)).imp_left
              only.squashed
          waiting := fun outside inst member marked =>
            (start.marks.waiting outside inst member (only.marked.symm.trans marked)).imp
              only.squashed fun unseen => absurd unseen.2.1 (by
                change ¬ state.core.toIEW.squash = true
                simp [pipeline.quiet]) }⟩
  · exact start

theorem checkForInterrupts_quiet (config : Config) (env : CommitEnv)
    (inv : (state.reading core).QuietInvAt taken offered) :
    (state.reading (core.checkForInterrupts config env)).QuietInvAt taken offered := by
  obtain ⟨_, _, same⟩ := checkForInterrupts_eq config env core
  rw [same]
  exact ⟨{ inv.youngest with }, { inv.redirect with }, { inv.window with }, { inv.marks with }⟩

/-! ## Squashes -/

/-- What the numbers of a squash that commit starts have to satisfy. If the
squash closes the window, it discards all that was held in it. -/
structure SquashBounds (state : State) (core : Core) (offered : List Nat)
    (squashedInst youngest : Nat) : Prop where
  lower : youngest ≤ core.youngestSeqNum
  bound : youngest ≤ squashedInst
  committed : core.lastCommitedSeqNum ≤ youngest
  kept : ∀ inst ∈ core.rob.instList, inst ≤ squashedInst → inst ≤ youngest
  waiting : ∀ inst ∈ state.waiting offered, squashedInst < inst
  covers : ∀ inst ∈ core.rob.instList, core.commitStatus = .robSquashing →
    core.rob.squashedSeqNum < inst → squashedInst < inst
  dropped : ∀ inst, (state.reading core).Dropped inst → squashedInst < inst
  reached : (state.committing core).inWindow = true → core.raTriggerInst ≤ youngest
  closes : (state.reading core).inWindow = true → (state.committing core).inWindow = false →
    ∀ inst, (state.reading core).Held inst → squashedInst < inst

theorem reading_inWindow (inside : (state.committing core).inWindow = true) :
    (state.reading core).inWindow = true := by
  rw [inWindow_iff] at inside ⊢
  exact inside.imp_right (Or.imp_right (by rintro ⟨⟩))

theorem SquashBounds.held {squashedInst youngest : Nat}
    (bounds : state.SquashBounds core offered squashedInst youngest)
    (before : (state.reading core).Held inst) :
    (inst ∈ core.rob.instList ∨
      (state.committing core).inWindow = true ∧ core.raTriggerInst ≤ inst) ∨
    squashedInst < inst := by
  cases inside : (state.committing core).inWindow with
  | true => exact .inl (before.imp_right fun both => ⟨rfl, both.2⟩)
  | false =>
    cases earlier : (state.reading core).inWindow with
    | true => exact .inr (bounds.closes earlier inside inst before)
    | false =>
      exact .inl (.inl (before.resolve_right fun both =>
        clash earlier both.1))

theorem broadcastSquash_quiet (inv : (state.reading core).QuietInvAt taken offered)
    {squashedInst youngest : Nat} {pc : Addr}
    (bounds : state.SquashBounds core offered squashedInst youngest)
    (silent : core.toIEW.squash = false) :
    (state.committing (core.broadcastSquash config squashedInst youngest pc)).QuietInvAt
      taken offered := by
  have only := SquashesOnly.of_squash config.squashWidth core.insts core.rob squashedInst
  have changed := Rob.squash_apply config.squashWidth core.insts core.rob squashedInst
  have sameList := Rob.squash_instList config.squashWidth core.insts core.rob squashedInst
  have number := @Rob.squash_squashedSeqNum config.squashWidth core.rob core.insts squashedInst
  unfold broadcastSquash
  generalize core.rob.squash config.squashWidth core.insts squashedInst = squashing at *
  obtain ⟨insts, instList, squashIt, squashedSeqNum, doneSquashing⟩ := squashing
  simp only at only changed sameList number ⊢
  subst sameList
  have number : ∀ inst ∈ core.rob.instList, squashedInst < inst → squashedSeqNum < inst :=
    fun inst member younger => (number (ne_nil_of_mem member)).symm ▸ younger
  refine ⟨{
    below := fun inst member => Nat.lt_of_le_of_lt bounds.lower (inv.youngest.below inst member)
    bounded := Nat.lt_of_le_of_lt bounds.lower inv.youngest.bounded
    committed := bounds.committed
    covers := fun inst member => ?_
    signalled := fun _ => bounds.bound }, {
    located := fun inst may => ?_
    dispatchLocated := fun inst member => ?_
    current := fun asks notExit => ?_
    toCommit := by rintro ⟨⟩
    branchExecuted := fun asks excludes =>
      only.executed.trans (inv.redirect.branchExecuted asks excludes) }, {
    afterCommitted := fun inside => ?_
    beforeYoungest := bounds.reached
    above := fun inside => ?_
    noSquashAfter := by simp
    noThreadContext := fun inside => ?_
    exitCurrent := inv.window.exitCurrent
    exitToCommit := by rintro ⟨⟩ }, {
    rob := fun outside inst member marked => ?_
    waiting := fun outside inst member marked =>
      .inr ⟨Nat.zero_lt_one, rfl, bounds.waiting inst member⟩ }⟩
  · by_cases old : inst ≤ squashedInst
    · exact .inr (.inl (bounds.kept inst member old))
    · exact .inr (.inr ⟨rfl, number inst member (Nat.lt_of_not_le old)⟩)
  · rcases inv.redirect.located inst (only.mayRedirect may) with before | unseen |
      refused | executing
    · exact (bounds.held before).imp_right fun younger => .inl ⟨Nat.zero_lt_succ _, rfl, younger⟩
    · exact clash silent unseen.2.1
    · exact .inr (.inl ⟨Nat.zero_lt_succ _, rfl, bounds.dropped inst refused⟩)
    · exact absurd executing.1 (by rintro ⟨⟩)
  · rcases inv.redirect.dispatchLocated inst member with squashed | before | unseen | refused
    · exact .inl (only.squashed squashed)
    · exact .inr ((bounds.held before).imp_right fun younger =>
        .inl ⟨Nat.zero_lt_succ _, rfl, younger⟩)
    · exact clash silent unseen.2.1
    · exact .inr (.inr (.inl ⟨Nat.zero_lt_succ _, rfl, bounds.dropped inst refused⟩))
  · have slotBound := state.iewCurrent.squashedInst_le
    rcases inv.redirect.current asks notExit with ⟨refused, _⟩ | ⟨inst, before, older, source⟩
    · exact .inl ⟨Nat.lt_of_le_of_lt bounds.lower refused, .inr (.inl rfl)⟩
    · by_cases younger : squashedInst < inst
      · exact .inl ⟨Nat.lt_of_le_of_lt bounds.bound (Nat.lt_of_lt_of_le younger
          (Nat.le_trans older slotBound)), .inr (.inl rfl)⟩
      · have still := (bounds.held before).resolve_right younger
        refine .inr ⟨inst, still, older, ?_⟩
        cases inside : (state.committing core).inWindow with
        | true => exact .inl inside
        | false =>
          rcases source with earlier | pending
          · exact absurd (bounds.closes earlier inside inst before) younger
          · rcases changed inst with same | ⟨_, squashed, _⟩
            · exact .inr ((congrArg DynInst.isPending same).trans pending)
            · exact absurd squashed younger
  · exact inv.window.afterCommitted (reading_inWindow inside)
  · exact inv.window.above (reading_inWindow inside)
  · exact inv.window.noThreadContext (reading_inWindow inside)
  · have third : squashedInst < inst → (insts inst).squashed = true ∨
        ThreadStatus.robSquashing = .robSquashing ∧ squashedSeqNum < inst :=
      fun younger => .inr ⟨rfl, number inst member younger⟩
    cases earlier : (state.reading core).inWindow with
    | true => exact third (bounds.closes earlier outside inst (.inl member))
    | false =>
      rcases inv.marks.rob earlier inst member (only.marked.symm.trans marked) with
        squashed | ⟨before, younger⟩
      · exact .inl (only.squashed squashed)
      · exact third (bounds.covers inst member before younger)

/-- In the window commit has no squash of its own to start. -/
theorem WindowInv.noOwnSquash (inv : (state.reading core).WindowInv)
    (inside : (state.reading core).inWindow = true)
    (squash : (state.committing core).SquashInv) (noTrap : core.commitStatus ≠ .trapPending) :
    core.NoOwnSquash where
  trap := by
    by_contra fired
    exact noTrap (squash.trapStatus (squash.trapFired (by simpa using fired)))
  threadContext := inv.noThreadContext inside
  after := inv.noSquashAfter inside

theorem squashAllSeqNum_lt_waiting (queues : (state.committing core).QueueInv taken offered)
    (member : inst ∈ state.waiting offered) : core.squashAllSeqNum < inst := by
  cases found : core.rob.readHeadInst with
  | none =>
    simp only [squashAllSeqNum, found]
    exact queues.committedBelow inst (mem_append_right _ member)
  | some head =>
    have older := (pairwise_append.mp queues.robOrdered).2.2 head (mem_of_head? found) inst member
    simp only [squashAllSeqNum, found]
    omega

section

variable (inv : (state.reading core).QuietInvAt taken offered)
include inv

theorem squashAll_bounds (queues : (state.committing core).QueueInv taken offered)
    (outside : (state.reading core).inWindow = false) :
    state.SquashBounds core offered core.squashAllSeqNum core.lastCommitedSeqNum where
  lower := inv.youngest.committed
  bound := lastCommited_le_squashAllSeqNum queues
  committed := Nat.le_refl _
  kept inst member old := absurd (squashAllSeqNum_lt queues member) (Nat.not_lt.mpr old)
  waiting inst member := squashAllSeqNum_lt_waiting queues member
  covers inst member _ _ := squashAllSeqNum_lt queues member
  dropped inst dropped := by
    cases found : core.rob.readHeadInst with
    | none =>
      simp only [squashAllSeqNum, found]
      exact Nat.lt_of_le_of_lt inv.youngest.committed dropped.2.1
    | some head =>
      have older := dropped.2.2 head (mem_of_head? found)
      simp only [squashAllSeqNum, found]
      omega
  reached inside := clash outside (reading_inWindow inside)
  closes inside := clash outside inside

/-- Outside the window a request of the IEW stage is younger than all that has committed. -/
theorem request_uncommitted (queues : (state.committing core).QueueInv taken offered)
    (asks : state.iewToCommit.squash = true)
    (notExit : state.iewToCommit.squashAfterRunahead = false) :
    core.lastCommitedSeqNum < state.iewToCommit.squashedSeqNum := by
  rcases inv.redirect.toCommit asks notExit with refused | ⟨inst, held, older, _⟩
  · exact Nat.lt_of_le_of_lt inv.youngest.committed refused
  · have above : core.lastCommitedSeqNum < inst := by
      rcases held with member | ⟨inside, above⟩
      · exact queues.committedBelow inst (mem_append_left _ member)
      · exact Nat.lt_of_lt_of_le (inv.window.afterCommitted inside) above
    exact Nat.lt_of_lt_of_le above (Nat.le_trans older state.iewToCommit.squashedInst_le)

/-- The squash of the IEW stage that commit accepts keeps an instruction that is
held, or it is the exit squash and keeps what is older than the trigger. -/
theorem squashFromIEW_bounds (pipeline : (state.committing core).PipelineInvAt taken offered)
    (exitAlone : state.iewToCommit.squashAfterRunahead = true →
      (state.committing core).inWindow = false)
    (accepted : core.acceptsSquash state.iewToCommit = true) :
    state.SquashBounds core offered state.iewToCommit.squashedInst
      state.iewToCommit.squashedInst := by
  simp only [acceptsSquash, Bool.and_eq_true, decide_eq_true_eq] at accepted
  obtain ⟨⟨asks, noTrap⟩, reached⟩ := accepted
  have reached : state.iewToCommit.squashedInst ≤ core.youngestSeqNum :=
    Nat.le_trans state.iewToCommit.squashedInst_le reached
  have above : ∀ inst, (state.reading core).inWindow = true → (state.reading core).Held inst →
      core.raTriggerInst ≤ inst :=
    fun inst inside held => held.elim (inv.window.above inside inst) And.right
  have covers : ∀ inst ∈ core.rob.instList, core.commitStatus = .robSquashing →
      core.rob.squashedSeqNum < inst → state.iewToCommit.squashedInst < inst :=
    fun inst member squashing younger => Nat.lt_of_le_of_lt (Nat.le_trans reached
      (pipeline.squash.youngestSquash squashing (ne_nil_of_mem member))) younger
  have waiting : ∀ inst ∈ state.waiting offered, state.iewToCommit.squashedInst < inst :=
    fun inst member => Nat.lt_of_le_of_lt reached (inv.youngest.below inst member)
  cases exit : state.iewToCommit.squashAfterRunahead with
  | false =>
    have same : (state.committing core).inWindow = (state.reading core).inWindow := by
      simp [inWindow, State.reading, committing, exit]
    obtain ⟨inst, held, older, _⟩ :=
      (inv.redirect.toCommit asks exit).resolve_left (by
        change ¬ core.youngestSeqNum < state.iewToCommit.squashedSeqNum
        omega)
    have older : inst ≤ state.iewToCommit.squashedInst := older
    have committed : core.lastCommitedSeqNum ≤ state.iewToCommit.squashedInst := by
      rcases held with member | ⟨inside, above⟩
      · have below : core.lastCommitedSeqNum < inst :=
          pipeline.queues.committedBelow inst (mem_append_left _ member)
        omega
      · have below : core.lastCommitedSeqNum < core.raTriggerInst :=
          inv.window.afterCommitted inside
        exact Nat.le_of_lt (Nat.lt_of_lt_of_le below (Nat.le_trans above older))
    refine ⟨reached, Nat.le_refl _, committed, fun _ _ old => old, waiting, covers,
      fun _ dropped => absurd dropped.1 noTrap,
      fun inside => Nat.le_trans (above inst (reading_inWindow inside) held) older,
      fun inside outside => ?_⟩
    rw [same, inside] at outside
    cases outside
  | true =>
    have slot := inv.window.exitToCommit exit
    have inside : (state.reading core).inWindow = true :=
      (inWindow_iff _).mpr (.inr (.inr exit))
    have started : core.lastCommitedSeqNum < core.raTriggerInst := inv.window.afterCommitted inside
    have number : state.iewToCommit.squashedInst = core.raTriggerInst - 1 := by
      have trigger : state.iewToCommit.squashedSeqNum = core.raTriggerInst := slot.trigger
      have includes : state.iewToCommit.includeSquashInst = true := slot.includes
      simp only [IewStruct.squashedInst, includes, ↓reduceIte, trigger]
    have outside := exitAlone exit
    refine ⟨reached, Nat.le_refl _, by omega, fun _ _ old => old, waiting, covers,
      fun _ dropped => absurd dropped.1 noTrap,
      fun inside => clash outside inside, fun _ _ inst held => ?_⟩
    have := above inst inside held
    omega

theorem QuietInvAt.refused (notExit : state.iewToCommit.squashAfterRunahead = false) :
    (state.committing core).QuietInvAt taken offered := by
  have same : (state.committing core).inWindow = (state.reading core).inWindow := by
    simp [inWindow, State.reading, committing, notExit]
  have held : ∀ {inst}, (state.reading core).Held inst → (state.committing core).Held inst := by
    intro inst before
    exact before.imp_right (And.imp_left same.trans)
  exact ⟨{ inv.youngest with }, { inv.redirect with
    located := fun inst may => (inv.redirect.located inst may).imp_left held
    dispatchLocated := fun inst member =>
      (inv.redirect.dispatchLocated inst member).imp_right (Or.imp_left held)
    current := fun asks exit => (inv.redirect.current asks exit).imp_right (by
      rintro ⟨inst, within, older, source⟩
      exact ⟨inst, held within, older, source.imp_left same.trans⟩)
    toCommit := by rintro ⟨⟩ },
    { afterCommitted := fun inside => inv.window.afterCommitted (same.symm.trans inside)
      beforeYoungest := fun inside => inv.window.beforeYoungest (same.symm.trans inside)
      above := fun inside => inv.window.above (same.symm.trans inside)
      noSquashAfter := fun inside => inv.window.noSquashAfter (same.symm.trans inside)
      noThreadContext := fun inside => inv.window.noThreadContext (same.symm.trans inside)
      exitCurrent := inv.window.exitCurrent
      exitToCommit := by rintro ⟨⟩ },
    { rob := fun outside => inv.marks.rob (same.symm.trans outside)
      waiting := fun outside => inv.marks.waiting (same.symm.trans outside) }⟩

theorem QuietInvAt.accepts_exit (exit : state.iewToCommit.squashAfterRunahead = true)
    (noTrap : core.commitStatus ≠ .trapPending) :
    core.acceptsSquash state.iewToCommit = true := by
  have slot := inv.window.exitToCommit exit
  have asks : state.iewToCommit.squash = true := slot.squash
  have trigger : state.iewToCommit.squashedSeqNum = core.raTriggerInst := slot.trigger
  have reached : core.raTriggerInst ≤ core.youngestSeqNum :=
    inv.window.beforeYoungest ((inWindow_iff _).mpr (.inr (.inr exit)))
  simp [acceptsSquash, asks, noTrap, trigger, reached]

end

/-- The squash handling of a cycle, one constructor per kind of squash. -/
inductive SquashStep (config : Config) (state : State) (core : Core) : Core → Prop where
  | none (quiet : core.NoOwnSquash) (refused : core.acceptsSquash state.iewToCommit = false)
      (notExit : state.iewToCommit.squashAfterRunahead = false) : SquashStep config state core core
  | own {trapInFlight trapSquash tcSquash : Bool} {squashAfterInst : Option Nat}
      (outside : (state.reading core).inWindow = false) (own : ¬ core.NoOwnSquash) :
      SquashStep config state core { core.squashAll config with
        trapInFlight := trapInFlight, trapSquash := trapSquash, tcSquash := tcSquash,
        squashAfterInst := squashAfterInst }
  | iew (quiet : core.NoOwnSquash) (accepted : core.acceptsSquash state.iewToCommit = true) :
      SquashStep config state core (core.squashFromIEW config state.iewToCommit)

theorem handleSquashes_step (config : Config) (inv : (state.reading core).QuietInvAt taken offered)
    (pipeline : (state.committing core).PipelineInvAt taken offered)
    (trapFree : (state.reading core).inWindow = true → core.commitStatus ≠ .trapPending) :
    SquashStep config state core (core.handleSquashes config state.iewToCommit) := by
  have outside : ¬ core.NoOwnSquash → (state.reading core).inWindow = false := by
    intro own
    by_contra inside
    have inside : (state.reading core).inWindow = true := by simpa using inside
    exact own (inv.window.noOwnSquash inside pipeline.squash (trapFree inside))
  -- A squash of commit's own lowers `youngestSeqNum` below any request of the IEW stage.
  have refuses : ∀ own : Core, (state.reading core).inWindow = false →
      own.youngestSeqNum = core.lastCommitedSeqNum →
      own.acceptsSquash state.iewToCommit = false := by
    intro own closed lowered
    have notExit : state.iewToCommit.squashAfterRunahead = false := by
      by_contra exit
      have exit : state.iewToCommit.squashAfterRunahead = true := by simpa using exit
      have inside : (state.reading core).inWindow = true :=
        (inWindow_iff _).mpr (.inr (.inr exit))
      exact clash closed inside
    cases asks : state.iewToCommit.squash with
    | false => simp [acceptsSquash, asks]
    | true =>
      have := request_uncommitted inv pipeline.queues asks notExit
      simp [acceptsSquash, asks, lowered, Nat.not_le.mpr this]
  unfold handleSquashes
  simp only
  rcases ownSquashes_cases config core with
    ⟨same, quiet⟩ | ⟨trap, same⟩ | ⟨_, threadContext, same⟩ | ⟨_, _, after, same⟩ <;> rw [same]
  · split
    · next accepted => exact .iew quiet accepted
    · next refused =>
      refine .none quiet (by simpa using refused) ?_
      by_contra exit
      have exit : state.iewToCommit.squashAfterRunahead = true := by simpa using exit
      exact refused (inv.accepts_exit exit (trapFree ((inWindow_iff _).mpr (.inr (.inr exit)))))
  · have own : ¬ core.NoOwnSquash := fun quiet => clash quiet.trap trap
    rw [refuses _ (outside own) rfl]
    exact .own (outside own) own
  · have own : ¬ core.NoOwnSquash :=
      fun quiet => clash quiet.threadContext threadContext
    rw [refuses _ (outside own) rfl]
    exact .own (outside own) own
  · have own : ¬ core.NoOwnSquash := fun quiet => quiet.after after
    rw [refuses _ (outside own) rfl]
    exact .own (outside own) own

theorem handleSquashes_quiet (config : Config) (inv : (state.reading core).QuietInvAt taken offered)
    (pipeline : (state.committing core).PipelineInvAt taken offered)
    (silent : core.toIEW.squash = false)
    (exitAlone : state.iewToCommit.squashAfterRunahead = true →
      (state.committing core).inWindow = false)
    (trapFree : (state.reading core).inWindow = true → core.commitStatus ≠ .trapPending) :
    (state.committing (core.handleSquashes config state.iewToCommit)).QuietInvAt taken offered := by
  have step := handleSquashes_step config inv pipeline trapFree
  generalize core.handleSquashes config state.iewToCommit = squashed at step
  cases step with
  | none _ _ notExit => exact inv.refused notExit
  | own outside _ =>
    have squashed : (state.committing (core.squashAll config)).QuietInvAt taken offered :=
      broadcastSquash_quiet inv (squashAll_bounds inv pipeline.queues outside) silent
    refine ⟨{ squashed.youngest with }, { squashed.redirect with }, { squashed.window with
      noThreadContext := fun inside => ?_
      exitToCommit := by rintro ⟨⟩ }, { squashed.marks with }⟩
    exact clash outside (reading_inWindow inside)
  | iew _ accepted =>
    exact broadcastSquash_quiet inv (squashFromIEW_bounds inv pipeline exitAlone accepted) silent

/-- The squash that commit announces keeps nothing that is on its way to the ROB. -/
theorem handleSquashes_waiting {fromIEW : IewStruct}
    (below : ∀ inst ∈ state.waiting offered, core.youngestSeqNum < inst)
    (queues : (state.committing core).QueueInv taken offered) (silent : core.toIEW.squash = false)
    (signal : (core.handleSquashes config fromIEW).toIEW.squash = true)
    (member : inst ∈ state.waiting offered) :
    (core.handleSquashes config fromIEW).toIEW.doneSeqNum < inst := by
  have young := below inst member
  have uncommitted : core.lastCommitedSeqNum < inst :=
    queues.committedBelow inst (mem_append_right _ member)
  have all := squashAllSeqNum_lt_waiting queues member
  unfold handleSquashes at signal ⊢
  simp only at signal ⊢
  split
  · next accepted =>
    simp only [acceptsSquash, Bool.and_eq_true, decide_eq_true_eq] at accepted
    have kept := fromIEW.squashedInst_le
    have reached := accepted.2
    change fromIEW.squashedInst < inst
    rcases ownSquashes_cases config core with
      ⟨same, _⟩ | ⟨_, same⟩ | ⟨_, _, same⟩ | ⟨_, _, _, same⟩ <;> rw [same] at reached
    · omega
    all_goals
      have reached : fromIEW.squashedSeqNum ≤ core.lastCommitedSeqNum := reached
      omega
  · next refused =>
    rw [if_neg refused] at signal
    rcases ownSquashes_cases config core with
      ⟨same, _⟩ | ⟨_, same⟩ | ⟨_, _, same⟩ | ⟨_, _, _, same⟩ <;> rw [same] at signal ⊢
    · exact clash silent signal
    · exact all
    · exact all
    · exact all

/-! ## Instructions from rename -/

theorem QuietInvAt.pass (inv : state.QuietInvAt taken (inst :: offered))
    (found : (state.insts inst).squashed = true ∨ state.Held inst ∨ state.SquashUnseen 3 inst ∨
      state.Dropped inst) : state.QuietInvAt (taken ++ [inst]) offered := by
  have sub : state.waiting offered ⊆ state.waiting (inst :: offered) :=
    ((sublist_cons_self inst offered).append_right _).subset
  refine ⟨{ inv.youngest with below := fun other member => inv.youngest.below other (sub member) },
    { inv.redirect with
      dispatchLocated := fun other member => ?_
      current := fun asks notExit => (inv.redirect.current asks notExit).imp_left
        (And.imp_right (Or.imp_right (Or.imp_right fun all other member =>
          all other (mem_cons_of_mem _ member)))) }, inv.window,
    { inv.marks with waiting := fun outside other member =>
        inv.marks.waiting outside other (sub member) }⟩
  have member : other ∈ state.toDispatch taken ∨ other = inst := by
    simpa [toDispatch, or_assoc] using member
  rcases member with before | rfl
  · exact inv.redirect.dispatchLocated other before
  · exact found

theorem QuietInvAt.passAll (inv : state.QuietInvAt taken offered)
    (found : ∀ inst ∈ offered, (state.insts inst).squashed = true ∨ state.Held inst ∨
      state.SquashUnseen 3 inst ∨ state.Dropped inst) :
    state.QuietInvAt (taken ++ offered) [] := by
  induction offered generalizing taken with
  | nil => simpa using inv
  | cons inst offered ih =>
    have passed := inv.pass (found inst mem_cons_self)
    simpa using ih passed fun other member => found other (mem_cons_of_mem _ member)

structure Unmoved (old new : DynInst) : Prop where
  squashed : new.squashed = old.squashed
  executed : new.executed = old.executed
  mayRedirect : DynInst.mayRedirect new = DynInst.mayRedirect old
  pending : DynInst.isPending old = true → DynInst.isPending new = true

theorem Unmoved.marks {old new : DynInst} (only : Core.MarksOnly old new) : Unmoved old new := by
  obtain ⟨_, _, _, _, rfl⟩ := only
  exact ⟨rfl, rfl, rfl, id⟩

section Table

variable {insts : InstTable} (unmoved : ∀ inst, Unmoved (core.insts inst) (insts inst))
include unmoved

theorem YoungestInv.withTable (inv : (state.committing core).YoungestInv offered) :
    (state.committing { core with insts := insts }).YoungestInv offered :=
  { inv with
    covers := fun inst member => (inv.covers inst member).imp_left
      ((unmoved inst).squashed.trans ·) }

theorem RedirectInv.withTable (inv : (state.committing core).RedirectInv taken offered) :
    (state.committing { core with insts := insts }).RedirectInv taken offered where
  located inst may := (inv.located inst ((unmoved inst).mayRedirect.symm.trans may)).imp_right
    (Or.imp_right (Or.imp_right fun executing => absurd executing.1 (by rintro ⟨⟩)))
  dispatchLocated inst member :=
    (inv.dispatchLocated inst member).imp_left ((unmoved inst).squashed.trans ·)
  current asks notExit := by
    rcases inv.current asks notExit with ⟨refused, why⟩ | ⟨inst, held, older, source⟩
    · exact .inl ⟨refused, why.imp_right (Or.imp_right fun all inst member =>
        (unmoved inst).squashed.trans (all inst member))⟩
    · exact .inr ⟨inst, held, older, source.imp_right (unmoved inst).pending⟩
  toCommit := by rintro ⟨⟩
  branchExecuted asks excludes := (unmoved _).executed.trans (inv.branchExecuted asks excludes)

theorem QuietInvAt.withTable (inv : (state.committing core).QuietInvAt taken offered)
    (marked : (state.committing core).inWindow = false → ∀ inst,
      (insts inst).runaheadInst = (core.insts inst).runaheadInst) :
    (state.committing { core with insts := insts }).QuietInvAt taken offered :=
  ⟨inv.youngest.withTable unmoved, inv.redirect.withTable unmoved, { inv.window with }, {
    rob := fun outside inst member mark =>
      (inv.marks.rob outside inst member ((marked outside inst).symm.trans mark)).imp_left
        ((unmoved inst).squashed.trans ·)
    waiting := fun outside inst member mark =>
      (inv.marks.waiting outside inst member ((marked outside inst).symm.trans mark)).imp_left
        ((unmoved inst).squashed.trans ·) }⟩

end Table

theorem append_quiet (inv : state.LoopInv taken (inst :: offered) core)
    (quiet : (state.committing core).QuietInvAt taken (inst :: offered))
    (alive : (core.insts inst).squashed = false) (notTrapped : core.commitStatus ≠ .trapPending) :
    (state.committing { core with
      rob := { core.rob with instList := core.rob.instList ++ [inst] }
      youngestSeqNum := inst }).QuietInvAt (taken ++ [inst]) offered := by
  have queues := inv.pipeline.queues
  have noSignal : ¬ core.toIEW.squash = true := by simp [inv.noSignal]
  have ordered := pairwise_append.mp queues.robOrdered
  have later : ∀ other ∈ state.waiting offered, inst < other :=
    (pairwise_cons.mp ordered.2.1).1
  have earlier : ∀ other ∈ core.rob.instList, other < inst :=
    fun other member => ordered.2.2 other member inst (by simp [waiting])
  have below : core.youngestSeqNum < inst := quiet.youngest.below inst (by simp [waiting])
  have held : ∀ other, (state.committing core).Held other → other ∈ core.rob.instList ++ [inst] ∨
      (state.committing core).inWindow = true ∧ core.raTriggerInst ≤ other :=
    fun other => Or.imp_left (mem_append_left _)
  refine ⟨{
    below := later
    bounded := queues.bounded inst (by simp [waiting])
    committed := Nat.le_of_lt (queues.committedBelow inst (by simp [waiting]))
    covers := fun other member => .inr (.inl ?_)
    signalled := fun signal => absurd signal noSignal }, {
    located := fun other may => ?_
    dispatchLocated := fun other member => ?_
    current := fun asks notExit => ?_
    toCommit := by rintro ⟨⟩
    branchExecuted := quiet.redirect.branchExecuted }, { quiet.window with
    beforeYoungest := fun inside =>
      Nat.le_of_lt (Nat.lt_of_le_of_lt (quiet.window.beforeYoungest inside) below)
    above := fun inside other member => ?_ }, {
    rob := fun outside other member marked => ?_
    waiting := fun outside other member =>
      quiet.marks.waiting outside other (mem_cons_of_mem _ member) }⟩
  · rcases mem_append.mp member with before | last
    · exact Nat.le_of_lt (earlier other before)
    · exact Nat.le_of_eq (mem_singleton.mp last)
  · rcases quiet.redirect.located other may with before | unseen | dropped | executing
    · exact .inl (held other before)
    · exact absurd unseen.2.1 noSignal
    · exact absurd dropped.1 notTrapped
    · exact absurd executing.1 (by rintro ⟨⟩)
  · have member : other ∈ state.toDispatch taken ∨ other = inst := by
      simpa [toDispatch, committing, or_assoc] using member
    rcases member with before | rfl
    · rcases quiet.redirect.dispatchLocated other before with squashed | before | unseen | dropped
      · exact .inl squashed
      · exact .inr (.inl (held other before))
      · exact absurd unseen.2.1 noSignal
      · exact absurd dropped.1 notTrapped
    · exact .inr (.inl (.inl (by simp)))
  · rcases quiet.redirect.current asks notExit with ⟨_, why⟩ | ⟨source, before, rest⟩
    · rcases why with trapped | signal | all
      · exact absurd trapped notTrapped
      · exact absurd signal noSignal
      · exact clash alive (all inst mem_cons_self)
    · exact .inr ⟨source, held source before, rest⟩
  · rcases mem_append.mp member with before | last
    · exact quiet.window.above inside other before
    · have reached : core.raTriggerInst ≤ core.youngestSeqNum := quiet.window.beforeYoungest inside
      rw [mem_singleton.mp last]
      exact Nat.le_of_lt (Nat.lt_of_le_of_lt reached below)
  · rcases mem_append.mp member with before | last
    · exact quiet.marks.rob outside other before marked
    · obtain rfl := mem_singleton.mp last
      rcases quiet.marks.waiting outside other (by simp [waiting]) marked with squashed | unseen
      · exact .inl squashed
      · exact absurd unseen.2.1 noSignal

variable {next : Core}

theorem getInst_quiet (inv : state.LoopInv taken (inst :: offered) core)
    (quiet : (state.committing core).QuietInvAt taken (inst :: offered))
    (accepted : core.getInst config inst = .ok next) :
    (state.committing next).QuietInvAt (taken ++ [inst]) offered := by
  rcases getInst_cases accepted with ⟨rfl, why⟩ | ⟨rfl, alive, _, notTrapped⟩
  · refine quiet.pass ?_
    rcases why with squashed | squashing | trapped
    · exact .inl squashed
    · exact absurd squashing inv.running
    · refine .inr (.inr (.inr ⟨trapped, quiet.youngest.below inst (by simp [waiting]), ?_⟩))
      exact fun older member => (pairwise_append.mp inv.pipeline.queues.robOrdered).2.2 older
        member inst (by simp [waiting])
  · have only := inserted_marks core inst
    have marked : (state.committing core).inWindow = false → ∀ other,
        ((core.inserted inst).insts other).runaheadInst = (core.insts other).runaheadInst := by
      intro outside other
      have normal : core.inRunahead = false := by
        by_contra mode
        have inside := (inWindow_iff (state.committing core)).mpr (.inl (by simpa using mode))
        exact clash outside inside
      simp [inserted, normal]
    have marks := marks_pipeline inv.pipeline only
    refine append_quiet ⟨marks, inv.running, inv.noThreadContext, inv.silent⟩
      (quiet.withTable (fun other => .marks (only other)) marked) ?_ notTrapped
    exact (Unmoved.marks (only inst)).squashed.trans alive

/-! ## The loop of `commitInsts` -/

theorem startTrap_quiet (inv : state.LoopInv taken offered core)
    (quiet : (state.committing core).QuietInvAt taken offered) (handlerPc : Addr) :
    (state.committing (core.startTrap handlerPc)).QuietInvAt taken offered := by
  have noSignal : ¬ core.toIEW.squash = true := by simp [inv.noSignal]
  refine ⟨{ quiet.youngest with
    covers := fun inst member => (quiet.youngest.covers inst member).imp_right
      (Or.imp_right fun both => absurd both.1 inv.running) },
    { quiet.redirect with
    located := fun inst may => ?_
    dispatchLocated := fun inst member => ?_
    current := fun asks notExit => (quiet.redirect.current asks notExit).imp_left
      fun before => ⟨before.1, .inl rfl⟩ },
    { quiet.window with noSquashAfter := by rintro _ ⟨⟩ },
    { quiet.marks with
    rob := fun outside inst member marked => (quiet.marks.rob outside inst member marked).imp_right
      fun both => absurd both.1 inv.running }⟩
  · rcases quiet.redirect.located inst may with held | unseen | dropped | executing
    · exact .inl held
    · exact absurd unseen.2.1 noSignal
    · exact .inr (.inr (.inl ⟨rfl, dropped.2⟩))
    · exact absurd executing.1 (by rintro ⟨⟩)
  · exact (quiet.redirect.dispatchLocated inst member).imp_right
      (Or.imp_right (Or.imp_right fun dropped => ⟨rfl, dropped.2⟩))

theorem handleInterrupt_quiet (inv : state.LoopInv taken offered core)
    (quiet : (state.committing core).QuietInvAt taken offered) :
    (state.committing (core.handleInterrupt env)).QuietInvAt taken offered := by
  have trapped := startTrap_quiet inv quiet env.handlerPc
  unfold handleInterrupt
  split
  · exact ⟨{ quiet.youngest with }, { quiet.redirect with }, { quiet.window with },
      { quiet.marks with }⟩
  · split
    · exact ⟨{ trapped.youngest with }, { trapped.redirect with }, { trapped.window with },
        { trapped.marks with }⟩
    · exact quiet

variable {head : Nat} {rest : List Nat}

/-- An instruction leaves the ROB. In the window it stays held. Outside it must
not be the source of a squash request any more. -/
theorem retireHead_quiet (quiet : (state.committing core).QuietInvAt taken offered)
    (queues : (state.committing core).QueueInv taken offered)
    (atHead : core.rob.instList = head :: rest)
    (settled : (state.committing core).inWindow = false →
      DynInst.mayRedirect (core.insts head) = false ∧ DynInst.isPending (core.insts head) = false ∧
        ((core.insts head).squashed = true ∨ (core.insts head).dispatched = true)) :
    (state.committing (core.retireHead head)).QuietInvAt taken offered := by
  have tail : ∀ {inst}, inst ∈ core.rob.instList.tail → inst ∈ core.rob.instList :=
    mem_of_mem_tail
  have held : ∀ inst, (state.committing core).Held inst →
      (state.committing (core.retireHead head)).Held inst ∨
      (state.committing core).inWindow = false ∧ inst = head := by
    intro inst before
    cases inside : (state.committing core).inWindow with
    | true => exact .inl (.inr ⟨inside, before.elim (quiet.window.above inside inst) And.right⟩)
    | false =>
      have member := before.resolve_right fun within => clash inside within.1
      have member : inst ∈ head :: rest := atHead ▸ member
      rcases mem_cons.mp member with same | later
      · exact .inr ⟨rfl, same⟩
      · refine .inl (.inl ?_)
        change inst ∈ core.rob.instList.tail
        rwa [atHead]
  have dropped : ∀ {inst}, (state.committing core).Dropped inst →
      (state.committing (core.retireHead head)).Dropped inst :=
    fun before => ⟨before.1, before.2.1, fun older member => before.2.2 older (tail member)⟩
  refine ⟨{ quiet.youngest with
    covers := fun inst member => quiet.youngest.covers inst (tail member) }, { quiet.redirect with
    located := fun inst may => ?_
    dispatchLocated := fun inst member => ?_
    current := fun asks notExit => ?_
    toCommit := by rintro ⟨⟩ }, { quiet.window with
    above := fun inside inst member => quiet.window.above inside inst (tail member) },
    { quiet.marks with
    rob := fun outside inst member => quiet.marks.rob outside inst (tail member) }⟩
  · rcases quiet.redirect.located inst may with before | unseen | refused | executing
    · refine .inl ((held inst before).resolve_right ?_)
      rintro ⟨outside, rfl⟩
      exact clash (settled outside).1 may
    · exact .inr (.inl unseen)
    · exact .inr (.inr (.inl (dropped refused)))
    · exact absurd executing.1 (by rintro ⟨⟩)
  · rcases quiet.redirect.dispatchLocated inst member with squashed | before | unseen | refused
    · exact .inl squashed
    · rcases held inst before with still | ⟨outside, rfl⟩
      · exact .inr (.inl still)
      · refine .inl ((settled outside).2.2.resolve_right fun dispatched => ?_)
        have fresh := queues.undispatched inst (mem_append_left _ member)
        exact clash fresh dispatched
    · exact .inr (.inr (.inl unseen))
    · exact .inr (.inr (.inr (dropped refused)))
  · refine (quiet.redirect.current asks notExit).imp_right ?_
    rintro ⟨inst, before, older, source⟩
    refine ⟨inst, (held inst before).resolve_right ?_, older, source⟩
    rintro ⟨outside, rfl⟩
    rcases source with inside | pending
    · exact clash outside inside
    · exact clash (settled outside).2.1 pending

theorem retireSquashed_quiet (quiet : (state.committing core).QuietInvAt taken offered)
    (queues : (state.committing core).QueueInv taken offered)
    (atHead : core.rob.instList = head :: rest)
    (squashed : (state.committing core).inWindow = false → (core.insts head).squashed = true) :
    (state.committing (core.retireHead head)).QuietInvAt taken offered := by
  refine retireHead_quiet quiet queues atHead fun outside => ?_
  simp [DynInst.mayRedirect, DynInst.isPending, squashed outside]

theorem commitInst_quiet (env : CommitEnv)
    (inv : state.LoopInv taken [] core) (quiet : (state.committing core).QuietInvAt taken [])
    (outside : (state.committing core).inWindow = false) (chosen : core.mayCommit = true)
    (atHead : core.rob.instList = head :: rest) (ready : (core.insts head).canCommit = true)
    (alive : (core.insts head).squashed = false) (executed : (core.insts head).executed = true) :
    (state.committing ((core.commitInst head).afterCommit env head)).QuietInvAt taken [] := by
  have noSignal : ¬ core.toIEW.squash = true := by simp [inv.noSignal]
  have notTrapped : core.commitStatus ≠ .trapPending := by
    intro same
    simp [mayCommit, same] at chosen
  have dispatched := (inv.pipeline.status.each head).executedDispatched executed
  have retired := retireHead_quiet quiet inv.pipeline.queues atHead fun _ =>
    ⟨by simp [DynInst.mayRedirect, executed], by simp [DynInst.isPending, ready], .inr dispatched⟩
  have reached : head ≤ core.youngestSeqNum := by
    rcases quiet.youngest.covers head (by simp [atHead]) with squashed | reached | ⟨squashing, _⟩
    · exact clash alive squashed
    · exact reached
    · exact absurd squashing inv.running
  have never : ∀ {goal : Prop}, (state.committing core).inWindow = true → goal :=
    fun inside => clash outside inside
  obtain ⟨status, after, which, same⟩ := afterCommit_cases env (core.commitInst head) head
  rw [same]
  refine ⟨{ retired.youngest with
    committed := reached
    covers := fun inst member => (retired.youngest.covers inst member).imp_right
      (Or.imp_right fun both => absurd both.1 inv.running)
    signalled := fun signal => absurd signal noSignal }, { retired.redirect with
    located := fun inst may => ?_
    dispatchLocated := fun inst member => ?_
    current := fun asks notExit => (retired.redirect.current asks notExit).imp_left
      fun before => ⟨before.1, .inr (.inr (by simp))⟩ },
    { retired.window with
    afterCommitted := never
    noSquashAfter := never },
    { rob := fun closed inst member marked =>
      (retired.marks.rob closed inst member marked).imp_right fun both => absurd both.1 inv.running
      waiting := fun closed inst member marked =>
        (retired.marks.waiting closed inst member marked).imp_right
          fun unseen => absurd unseen.2.1 noSignal }⟩
  · rcases retired.redirect.located inst may with held | unseen | dropped | executing
    · exact .inl held
    · exact absurd unseen.2.1 noSignal
    · exact absurd dropped.1 notTrapped
    · exact absurd executing.1 (by rintro ⟨⟩)
  · rcases retired.redirect.dispatchLocated inst member with squashed | held | unseen | dropped
    · exact .inl squashed
    · exact .inr (.inl held)
    · exact absurd unseen.2.1 noSignal
    · exact absurd dropped.1 notTrapped

theorem enterRunahead_quiet
    (inv : state.LoopInv taken [] core) (quiet : (state.committing core).QuietInvAt taken [])
    (outside : (state.committing core).inWindow = false) (chosen : core.mayCommit = true)
    (atHead : core.rob.instList = head :: rest) (unready : (core.insts head).canCommit = false)
    (entered : core.enterRunaheadMode [] head = .ok next) :
    (state.committing next).QuietInvAt taken [] := by
  obtain ⟨_, _, insts, regs, rfl, only, _, _⟩ := enterRunaheadMode_cases entered
  have unmoved := fun inst => Unmoved.marks (only inst)
  have member : head ∈ core.rob.instList := by simp [atHead]
  have reached : head ≤ core.youngestSeqNum := by
    rcases quiet.youngest.covers head member with squashed | reached | ⟨squashing, _⟩
    · rcases inv.pipeline.squash.squashedReady head member squashed with ready | ⟨squashing, _⟩
      · exact clash unready ready
      · exact absurd squashing inv.running
    · exact reached
    · exact absurd squashing inv.running
  have oldest : ∀ inst ∈ core.rob.instList, head ≤ inst := by
    have ordered : (head :: rest).Pairwise (· < ·) := atHead ▸ inv.pipeline.queues.ordered
    intro inst later
    rcases mem_cons.mp (atHead ▸ later) with rfl | later
    · exact Nat.le_refl _
    · exact Nat.le_of_lt ((pairwise_cons.mp ordered).1 inst later)
  have closed : state.iewCurrent.squashAfterRunahead = false := by
    by_contra exit
    have inside := (inWindow_iff (state.committing core)).mpr
      (.inr (.inl (Bool.of_not_eq_false exit)))
    exact clash outside inside
  have held : ∀ inst, (state.committing core).Held inst → inst ∈ core.rob.instList :=
    fun inst before => before.resolve_right fun within =>
      clash outside within.1
  have youngest := quiet.youngest.withTable unmoved
  have redirect := quiet.redirect.withTable unmoved
  have inside : (state.committing { core with
      inRunahead := true, raTriggerInst := head, insts := insts, inv := regs }).inWindow = true :=
    (inWindow_iff _).mpr (.inl rfl)
  exact ⟨{ youngest with }, { redirect with
    located := fun inst may => (redirect.located inst may).imp
      (fun before => .inl (held inst before))
      (Or.imp_right (Or.imp_right fun executing => absurd executing.1 (by rintro ⟨⟩)))
    dispatchLocated := fun inst member => (redirect.dispatchLocated inst member).imp_right
      (Or.imp_left fun before => .inl (held inst before))
    current := fun asks notExit => (redirect.current asks notExit).imp_right (by
      rintro ⟨inst, before, older, _⟩
      exact ⟨inst, .inl (held inst before), older, .inl inside⟩)
    toCommit := by rintro ⟨⟩ }, {
    afterCommitted := fun _ =>
      inv.pipeline.queues.committedBelow head (mem_append_left _ member)
    beforeYoungest := fun _ => reached
    above := fun _ => oldest
    noSquashAfter := fun _ same => by
      have same : core.commitStatus = .squashAfterPending := same
      simp [mayCommit, same] at chosen
    noThreadContext := fun _ => inv.noThreadContext
    exitCurrent := fun exit => clash closed exit
    exitToCommit := by rintro ⟨⟩ }, {
    rob := fun outside => clash outside inside
    waiting := fun outside => clash outside inside }⟩

/-- A dispatched instruction without the mark shows that the window is closed. -/
theorem unmarked_outside (loop : state.ModeLoop core)
    (atHead : core.rob.instList = head :: rest) (normal : core.inRunahead = false)
    (unmarked : (core.insts head).runaheadInst = false)
    (dispatched : (core.insts head).dispatched = true) :
    (state.committing core).inWindow = false := by
  by_contra inside
  rcases (inWindow_iff _).mp (Bool.of_not_eq_false inside) with mode | exit | exit
  · exact clash normal mode
  · have := loop.unmarked_undispatched atHead exit unmarked
    exact clash this dispatched
  · cases exit

/-- What is pseudo-retired outside the window has been squashed. -/
theorem pseudoRetire_squashed (inv : state.LoopInv taken [] core)
    (quiet : (state.committing core).QuietInvAt taken [])
    (atHead : core.rob.instList = head :: rest)
    (mode : core.inRunahead = true ∨ (core.insts head).runaheadInst = true)
    (outside : (state.committing core).inWindow = false) : (core.insts head).squashed = true := by
  have mark : (core.insts head).runaheadInst = true := by
    refine mode.resolve_left fun within => ?_
    have inside := (inWindow_iff (state.committing core)).mpr (.inl within)
    exact clash outside inside
  exact (quiet.marks.rob outside head (by simp [atHead]) mark).resolve_right
    fun both => inv.running both.1

theorem QuietInvAt.invalidates (quiet : (state.committing core).QuietInvAt taken offered)
    {insts : InstTable} (only : Core.Invalidates core.insts insts) :
    (state.committing { core with insts := insts }).QuietInvAt taken offered :=
  quiet.withTable (fun inst => .marks (only.marks inst).1) fun _ inst => (only.marks inst).2

theorem headStep_quiet (inv : state.LoopInv taken [] core)
    (loop : state.ModeLoop core) (quiet : (state.committing core).QuietInvAt taken [])
    (chosen : core.mayCommit = true ∨ core.instList = []) (step : Core.HeadStep env core next) :
    (state.committing next).QuietInvAt taken [] := by
  have queues := inv.pipeline.queues
  have repc : ∀ pc, (state.committing { core with pc := pc }).QuietInvAt taken [] := fun _ =>
    ⟨{ quiet.youngest with }, { quiet.redirect with }, { quiet.window with }, { quiet.marks with }⟩
  have invalidates : ∀ head, (state.committing
      (core.modifyInst head DynInst.setInvalid)).QuietInvAt taken [] :=
    fun head => quiet.invalidates (.modify _ head)
  cases step with
  | stay => exact quiet
  | @enter head rest next atHead enters entered =>
    have normal := (enterRunaheadMode_cases entered).1
    simp only [entersRunahead, Bool.and_eq_true, Bool.not_eq_true'] at enters
    have dispatched := (inv.pipeline.status.each head).missedDispatched enters.1.2
    exact enterRunahead_quiet inv quiet (unmarked_outside loop atHead normal enters.2 dispatched)
      (inv.present chosen atHead) atHead enters.1.1 entered
  | invalidate atHead mode => exact invalidates _
  | @pseudoRetire head rest marked atHead mode which =>
    have squashed := pseudoRetire_squashed inv quiet atHead mode
    have retires : ∀ core : Core, (state.committing core).QuietInvAt taken [] →
        (state.committing core).QueueInv taken [] → core.rob.instList = head :: rest →
        ((state.committing core).inWindow = false → (core.insts head).squashed = true) →
        (state.committing ((core.invalidateDestRegs head).retireHead head)).QuietInvAt
          taken [] := by
      intro core quiet queues atHead squashed
      have invalid : (state.committing (core.invalidateDestRegs head)).QuietInvAt taken [] :=
        ⟨{ quiet.youngest with }, { quiet.redirect with }, { quiet.window with },
          { quiet.marks with }⟩
      exact retireSquashed_quiet invalid { queues with } atHead squashed
    rcases which with rfl | rfl
    · exact retires _ quiet queues atHead squashed
    · refine retires _ (invalidates head) ?_ atHead fun outside => ?_
      · exact queues.withInsts _ (fun inst => by rw [InstTable.modify_apply]; split <;> rfl)
          fun inst before => by rw [InstTable.modify_apply]; split <;> exact before
      · change (core.insts.modify head DynInst.setInvalid head).squashed = true
        rw [InstTable.modify_self]
        exact squashed outside
  | dropSquashed atHead normalMode unmarked squashed =>
    exact retireSquashed_quiet quiet queues atHead fun _ => squashed
  | hold atHead readyHead => exact repc _
  | @release head rest atHead readyHead waiting drained =>
    have unmoved : ∀ inst, Unmoved (core.insts inst)
        (core.insts.modify head DynInst.clearCanCommit inst) ∧
        (core.insts.modify head DynInst.clearCanCommit inst).runaheadInst =
          (core.insts inst).runaheadInst := by
      intro inst
      rw [InstTable.modify_apply]
      split
      · refine ⟨⟨rfl, rfl, rfl, fun pending => ?_⟩, rfl⟩
        simp only [DynInst.isPending, DynInst.clearCanCommit, Bool.and_eq_true,
          Bool.not_eq_true'] at pending ⊢
        exact ⟨⟨pending.1.1, trivial⟩, pending.2⟩
      · exact ⟨⟨rfl, rfl, rfl, id⟩, rfl⟩
    have cleared := quiet.withTable (fun inst => (unmoved inst).1) fun _ inst => (unmoved inst).2
    exact ⟨{ cleared.youngest with }, { cleared.redirect with }, { cleared.window with },
      { cleared.marks with }⟩
  | trap atHead readyHead executed faulted => exact startTrap_quiet inv quiet env.handlerPc
  | @commit head rest atHead readyHead executed faultless =>
    have dispatched := (inv.pipeline.status.each head).executedDispatched executed
    have outside := unmarked_outside loop atHead readyHead.normalMode readyHead.unmarked dispatched
    exact commitInst_quiet env (inv.withPc _) (repc _) outside (inv.present chosen atHead) atHead
      readyHead.ready readyHead.alive executed

end Runahead.O3.State
