import Runahead.O3.PipelineStep

/-!
# Commit preserves the pipeline invariant

A cycle of commit is followed step by step: the squash in progress, the
squashes that begin, the instructions taken from rename, and the iterations of
`commitInsts`. `committing` is the state in between.
-/

set_option autoImplicit false

namespace Runahead.O3.State

open Library List O3.Core
open Option (ite_none_right_eq_some)

variable {config : Config} {env : CommitEnv} {state next : State} {core : Core}
variable {taken offered : List Nat}

/-- The state while commit works. The earlier stages have read their signals,
what commit says now they read in the next cycle, and commit has read the
squash request of the IEW stage. -/
def committing (state : State) (core : Core) : State :=
  { state with
    core := core
    phase := .betweenTicks
    fromCommit := core.toIEW
    iewToCommit := { insts := state.iewToCommit.insts } }

@[simp] theorem committing_core (state : State) (core : Core) :
    (state.committing core).core = core := rfl

@[simp] theorem committing_fromCommit (state : State) (core : Core) :
    (state.committing core).fromCommit = core.toIEW := rfl

def SquashesOnly (old new : InstTable) : Prop :=
  ∀ inst, new inst = old inst ∨ new inst = (old inst).squashInRob

namespace SquashesOnly

variable {old new : InstTable}

theorem steps (only : SquashesOnly old new) (ok : ∀ inst, StatusOk (old inst)) (inst : Nat) :
    StatusStep (old inst) (new inst) := by
  rcases only inst with same | squashed
  · rw [same]
    exact .refl (ok inst)
  · rw [squashed]
    exact .squashInRob (ok inst)

theorem drained (only : SquashesOnly old new) {inst : Nat} (before : (old inst).Drained) :
    (new inst).Drained := by
  rcases only inst with same | squashed
  · rw [same]
    exact before
  · rw [squashed]
    exact ⟨rfl, rfl⟩

theorem ready (only : SquashesOnly old new) {inst : Nat} (now : (new inst).squashed = true) :
    (old inst).squashed = true ∨ (new inst).canCommit = true := by
  rcases only inst with same | squashed
  · exact .inl (same ▸ now)
  · rw [squashed]
    exact .inr rfl

theorem of_doSquash (squashWidth : Nat) (insts : InstTable) (rob : Rob) :
    SquashesOnly insts (rob.doSquash squashWidth insts).1 :=
  fun inst => (Rob.doSquash_apply squashWidth insts rob inst).imp_right fun changed => changed.2.2

theorem of_squash (squashWidth : Nat) (insts : InstTable) (rob : Rob) (squashNum : Nat) :
    SquashesOnly insts (rob.squash squashWidth insts squashNum).1 :=
  fun inst =>
    (Rob.squash_apply squashWidth insts rob squashNum inst).imp_right fun changed => changed.2.2

end SquashesOnly

/-! ## Squashes -/

theorem QueueInv.ordered (inv : state.QueueInv taken offered) :
    state.core.rob.instList.Pairwise (· < ·) :=
  (pairwise_append.mp inv.robOrdered).1

theorem QueueInv.withRob (inv : state.QueueInv taken offered) {rob : Rob}
    (same : rob.instList = state.core.rob.instList) :
    QueueInv { state with core := { state.core with rob := rob } } taken offered := by
  obtain ⟨instList, squashIt, squashedSeqNum, doneSquashing⟩ := rob
  subst same
  exact { inv with }

theorem broadcastSquash_pipeline (inv : (state.committing core).PipelineInvAt taken offered)
    {squashedInst youngest : Nat} {pc : Addr}
    (grounded : core.trapInFlight = false)
    (covers : ∀ inst ∈ core.rob.instList, core.commitStatus = .robSquashing →
      core.rob.squashedSeqNum < inst → squashedInst < inst)
    (bound : core.rob.instList ≠ [] → youngest ≤ squashedInst) :
    (state.committing (core.broadcastSquash config squashedInst youngest pc)).PipelineInvAt
      taken offered := by
  have only := SquashesOnly.of_squash config.squashWidth core.insts core.rob squashedInst
  have sameList := Rob.squash_instList config.squashWidth core.insts core.rob squashedInst
  have number := @Rob.squash_squashedSeqNum config.squashWidth core.rob core.insts squashedInst
  have steps := only.steps inv.status.each
  have queues := (inv.queues.withInsts _ (fun inst => (steps inst).dispatched)
    fun inst => (steps inst).squashed).withRob sameList
  have status := inv.status.withInsts _ steps
  have trapFired := inv.squash.trapFired
  refine ⟨{ queues with }, { status with }, ?_⟩
  have fresh : Rob.SquashProgress (core.rob.squash config.squashWidth core.insts squashedInst).1
      (core.rob.squash config.squashWidth core.insts squashedInst).2 := by
    by_cases empty : core.rob.instList = []
    · have idle : core.rob.squashIt = none := by
        by_cases squashing : core.commitStatus = .robSquashing
        · cases pointing : core.rob.squashIt with
          | none => rfl
          | some position =>
            have inside := (inv.squash.progress squashing).inside position pointing
            simp [committing, empty] at inside
        · exact (inv.squash.idle squashing).1
      have unchanged : core.rob.squash config.squashWidth core.insts squashedInst =
          (core.insts, core.rob) := by
        simp [Rob.squash, Rob.readTailInst, empty]
      rw [unchanged]
      exact ⟨by simp [idle], fun _ => idle, by simp [empty]⟩
    · exact Rob.squash_progress inv.queues.ordered empty
  exact {
    progress := fun _ => fresh
    idle := fun other => absurd rfl other
    squashedReady := by
      intro inst member now
      replace member : inst ∈ core.rob.instList := sameList ▸ member
      have nonempty : core.rob.instList ≠ [] := ne_nil_of_mem member
      rcases Rob.squash_apply config.squashWidth core.insts core.rob squashedInst inst with
        same | ⟨_, younger, _⟩
      · rcases inv.squash.squashedReady inst member
          ((congrArg DynInst.squashed same).symm.trans now) with ready | ⟨squashing, younger⟩
        · exact .inl ((congrArg DynInst.canCommit same).trans ready)
        · refine .inr ⟨rfl, ?_⟩
          exact (number nonempty).symm ▸ covers inst member squashing younger
      · exact .inr ⟨rfl, (number nonempty).symm ▸ younger⟩
    signal := by
      refine fun _ => ⟨rfl, rfl, fun inst member => ?_⟩
      replace member : inst ∈ core.rob.instList := sameList ▸ member
      have same := number (ne_nil_of_mem member)
      exact ⟨fun younger => same.symm ▸ younger, fun younger => same ▸ younger⟩
    youngestSquash := fun _ nonempty => by
      have nonempty : core.rob.instList ≠ [] := sameList ▸ nonempty
      exact (number nonempty).symm ▸ bound nonempty
    signalled := fun _ => rfl
    trapStatus := fun flying => clash grounded flying
    trapFired := trapFired
    trapAlone := fun flying => clash grounded flying }

variable {inst head : Nat}

theorem squashAllSeqNum_lt (queues : (state.committing core).QueueInv taken offered)
    (member : inst ∈ core.rob.instList) : core.squashAllSeqNum < inst := by
  cases found : core.rob.readHeadInst with
  | none => simp [head?_eq_none_iff.mp found] at member
  | some head =>
    obtain ⟨rest, atHead⟩ := head?_eq_some_iff.mp found
    have ordered : (head :: rest).Pairwise (· < ·) := atHead ▸ queues.ordered
    have above : core.lastCommitedSeqNum < head :=
      queues.committedBelow head (mem_append_left _ (atHead ▸ mem_cons_self))
    simp only [squashAllSeqNum, found]
    rcases mem_cons.mp (atHead ▸ member) with rfl | later
    · omega
    · have := (pairwise_cons.mp ordered).1 inst later
      omega

theorem lastCommited_le_squashAllSeqNum (queues : (state.committing core).QueueInv taken offered) :
    core.lastCommitedSeqNum ≤ core.squashAllSeqNum := by
  cases found : core.rob.readHeadInst with
  | none => simp [squashAllSeqNum, found]
  | some head =>
    have above : core.lastCommitedSeqNum < head :=
      queues.committedBelow head (mem_append_left _ (mem_of_head? found))
    simp only [squashAllSeqNum, found]
    omega

theorem squashAll_pipeline (config : Config)
    (inv : (state.committing core).PipelineInvAt taken offered)
    (grounded : core.trapInFlight = false) :
    (state.committing (core.squashAll config)).PipelineInvAt taken offered :=
  broadcastSquash_pipeline inv grounded (fun _ member _ _ => squashAllSeqNum_lt inv.queues member)
    (fun _ => lastCommited_le_squashAllSeqNum inv.queues)

theorem ownSquashes_pipeline (config : Config)
    (inv : (state.committing core).PipelineInvAt taken offered) :
    (state.committing (core.ownSquashes config)).PipelineInvAt taken offered := by
  rcases ownSquashes_cases config core with
    ⟨same, _⟩ | ⟨_, own⟩ | ⟨_, threadContext, own⟩ | ⟨_, _, after, own⟩
  · rw [same]
    exact inv
  · rw [own]
    have landed : (state.committing { core with trapInFlight := false, trapSquash := false
        }).PipelineInvAt taken offered :=
      ⟨{ inv.queues with }, { inv.status with },
        { inv.squash with trapStatus := by simp, trapFired := by simp, trapAlone := by simp }⟩
    exact squashAll_pipeline config landed rfl
  · rw [own]
    have grounded : core.trapInFlight = false := by
      by_contra flying
      have := inv.squash.trapAlone (by simpa using flying)
      exact clash this threadContext
    have squashed := squashAll_pipeline config inv grounded
    exact ⟨{ squashed.queues with }, { squashed.status with },
      { squashed.squash with trapAlone := fun _ => rfl }⟩
  · rw [own]
    have grounded : core.trapInFlight = false := by
      by_contra flying
      have := inv.squash.trapStatus (by simpa using flying)
      exact absurd (after.symm.trans this) (by decide)
    have squashed := squashAll_pipeline config inv grounded
    exact ⟨{ squashed.queues with }, { squashed.status with }, { squashed.squash with }⟩

theorem squashFromIEW_pipeline {fromIEW : IewStruct}
    (inv : (state.committing core).PipelineInvAt taken offered)
    (accepted : core.acceptsSquash fromIEW = true) :
    (state.committing (core.squashFromIEW config fromIEW)).PipelineInvAt taken offered := by
  simp only [acceptsSquash, Bool.and_eq_true, decide_eq_true_eq] at accepted
  obtain ⟨⟨_, noTrap⟩, reached⟩ := accepted
  have grounded : core.trapInFlight = false := by
    by_contra flying
    exact noTrap (inv.squash.trapStatus (by simpa using flying))
  refine broadcastSquash_pipeline inv grounded ?_ (fun _ => Nat.le_refl _)
  intro inst member squashing younger
  have kept := inv.squash.youngestSquash squashing (ne_nil_of_mem member)
  have := fromIEW.squashedInst_le
  simp only [committing_core] at kept
  omega

theorem continueSquash_pipeline (inv : state.PipelineInv config) :
    (state.committing (state.core.continueSquash config)).PipelineInvAt []
      state.renameQueue1 := by
  have quiet : state.core.toIEW.squash = false := by rw [inv.quiet]
  have silent : ¬ state.core.toIEW.squash = true := by simp [quiet]
  have status : ∀ core : Core, core.insts = state.core.insts →
      core.toIEW.nonSpecSeqNum = state.core.toIEW.nonSpecSeqNum →
      (state.committing core).StatusInv := by
    intro core sameInsts sameRelease
    have base := inv.status.withInsts core.insts
      fun inst => sameInsts ▸ .refl (inv.status.each inst)
    refine { base with releasing := fun inst which => base.releasing inst (.inr ?_) }
    rcases which with same | same <;> exact same.trans sameRelease
  unfold continueSquash
  split
  · next squashing =>
    have progress := inv.squash.progress squashing
    split
    · next done =>
      refine ⟨{ inv.queues with }, status _ rfl rfl, { inv.squash with
        progress := by simp
        idle := fun _ => ⟨progress.finished done, done⟩
        squashedReady := ?_
        signal := fun signal => absurd signal silent
        youngestSquash := by simp
        signalled := by simp
        trapStatus := fun flying =>
          absurd (squashing.symm.trans (inv.squash.trapStatus flying)) (by decide) }⟩
      intro inst member squashed
      rcases inv.squash.squashedReady inst member squashed with ready | ⟨_, younger⟩
      · exact .inl ready
      · exact .inl (progress.all_drained done member younger).2
    · have only := SquashesOnly.of_doSquash config.squashWidth state.core.insts state.core.rob
      have steps := only.steps inv.status.each
      have sameList := Rob.doSquash_instList config.squashWidth state.core.insts state.core.rob
      have sameNumber :=
        Rob.doSquash_squashedSeqNum config.squashWidth state.core.insts state.core.rob
      have queues := (inv.queues.withInsts _ (fun inst => (steps inst).dispatched)
        fun inst => (steps inst).squashed).withRob sameList
      have squash := inv.squash.withInsts _ (fun inst _ => only.drained)
        (fun inst _ now => (only.ready now).imp_right .inl)
      have advanced := inv.status.withInsts _ steps
      refine ⟨{ queues with }, { advanced with releasing := ?_ }, {
        progress := fun _ => Rob.doSquash_progress inv.queues.ordered progress
        idle := fun other => absurd squashing other
        squashedReady := ?_
        signal := fun signal => absurd signal silent
        youngestSquash := ?_
        signalled := fun _ => rfl
        trapStatus := inv.squash.trapStatus
        trapFired := inv.squash.trapFired
        trapAlone := inv.squash.trapAlone }⟩
      · exact fun inst which => advanced.releasing inst (.inr (which.elim id id))
      · intro inst member now
        exact (squash.squashedReady inst (sameList ▸ member) now).imp_right
          (And.imp_right fun younger => sameNumber.symm ▸ younger)
      · intro same nonempty
        exact sameNumber.symm ▸ inv.squash.youngestSquash squashing (sameList ▸ nonempty)
  · next running =>
    exact ⟨{ inv.queues with }, status _ rfl rfl, { inv.squash with
      signal := fun signal => absurd signal silent
      signalled := fun squashing => absurd squashing running }⟩

theorem handleSquashes_pipeline (config : Config) (fromIEW : IewStruct)
    (inv : (state.committing core).PipelineInvAt taken offered) :
    (state.committing (core.handleSquashes config fromIEW)).PipelineInvAt taken offered := by
  have own := ownSquashes_pipeline config inv
  unfold handleSquashes
  simp only
  split
  · next accepted => exact squashFromIEW_pipeline own accepted
  · exact own

theorem checkForInterrupts_pipeline (config : Config) (env : CommitEnv)
    (inv : (state.committing core).PipelineInvAt taken offered) :
    (state.committing (core.checkForInterrupts config env)).PipelineInvAt taken offered := by
  obtain ⟨_, _, same⟩ := checkForInterrupts_eq config env core
  rw [same]
  exact ⟨{ inv.queues with }, { inv.status with }, { inv.squash with }⟩

/-! ## Instructions from rename -/

theorem PipelineInvAt.pass {state : State} (inv : state.PipelineInvAt taken (inst :: offered)) :
    state.PipelineInvAt (taken ++ [inst]) offered := by
  have moved : state.toDispatch (taken ++ [inst]) ++ state.waiting offered =
      state.toDispatch taken ++ state.waiting (inst :: offered) := by
    simp [toDispatch, waiting]
  have shorter : (state.waiting offered).Sublist (state.waiting (inst :: offered)) :=
    (sublist_cons_self inst offered).append_right _
  have sub := (List.Sublist.refl state.core.rob.instList).append shorter
  refine ⟨{ inv.queues with
    pipelineOrdered := moved ▸ inv.queues.pipelineOrdered
    robOrdered := inv.queues.robOrdered.sublist sub
    dispatchBounded := ?_
    bounded := fun other member => inv.queues.bounded other (sub.subset member)
    undispatched := fun other member => inv.queues.undispatched other (moved ▸ member)
    listed := fun other member => inv.queues.listed other (sub.subset member)
    removedSquashed := fun other removed member =>
      inv.queues.removedSquashed other removed (mem_cons_of_mem _ member)
    committedBelow := fun other member => inv.queues.committedBelow other (sub.subset member) },
    inv.status, inv.squash⟩
  intro other member
  have member : other ∈ state.toDispatch taken ∨ other = inst := by
    simpa [toDispatch, or_assoc] using member
  rcases member with before | rfl
  · exact inv.queues.dispatchBounded other before
  · exact inv.queues.bounded other (by simp [waiting])

theorem PipelineInvAt.passAll {state : State} (inv : state.PipelineInvAt taken offered) :
    state.PipelineInvAt (taken ++ offered) [] := by
  induction offered generalizing taken with
  | nil => simpa using inv
  | cons inst offered ih => simpa using ih inv.pass

theorem marks_pipeline (inv : (state.committing core).PipelineInvAt taken offered)
    {insts : InstTable} (only : ∀ inst, Core.MarksOnly (core.insts inst) (insts inst)) :
    (state.committing { core with insts := insts }).PipelineInvAt taken offered := by
  have steps := fun inst => StatusStep.marks (inv.status.each inst) (only inst)
  refine ⟨inv.queues.withInsts insts (fun inst => (steps inst).dispatched)
    fun inst => (steps inst).squashed, inv.status.withInsts insts steps,
    inv.squash.withInsts insts (fun inst _ before => ?_) (fun inst _ now => .inl ?_)⟩
  · obtain ⟨_, _, _, _, same⟩ := only inst
    rw [same]
    exact before
  · obtain ⟨_, _, _, _, same⟩ := only inst
    rw [same] at now
    exact now

theorem inserted_pipeline (inv : (state.committing core).PipelineInvAt taken (inst :: offered))
    (alive : (core.insts inst).squashed = false) (running : core.commitStatus ≠ .robSquashing) :
    (state.committing (core.inserted inst)).PipelineInvAt (taken ++ [inst]) offered := by
  have inv := marks_pipeline inv (inserted_marks core inst)
  have passed := inv.pass
  have alive : ((core.inserted inst).insts inst).squashed = false := by
    obtain ⟨_, _, _, _, same⟩ := inserted_marks core inst inst
    rw [same]
    exact alive
  have moved : (core.rob.instList ++ [inst]) ++ state.waiting offered =
      core.rob.instList ++ state.waiting (inst :: offered) := by
    simp [waiting]
  refine ⟨{ passed.queues with
    robOrdered := moved ▸ inv.queues.robOrdered
    bounded := fun other member => inv.queues.bounded other (moved ▸ member)
    listed := fun other member => inv.queues.listed other (moved ▸ member)
    committedBelow := fun other member => inv.queues.committedBelow other (moved ▸ member)
    kept := ?_ }, { passed.status with }, { inv.squash with
    progress := fun squashing => absurd squashing running
    youngestSquash := fun squashing => absurd squashing running
    squashedReady := ?_
    signal := fun signal => absurd (inv.squash.signal signal).1 running }⟩
  · intro other member removed
    change other ∈ (core.rob.instList ++ [inst]) ++ (state.renameQueue0 ++ state.frontEnd) at member
    have member : other ∈ core.rob.instList ++ (state.renameQueue0 ++ state.frontEnd) ∨
        other = inst := by
      simp only [mem_append, mem_singleton] at member ⊢
      tauto
    rcases member with before | rfl
    · exact inv.queues.kept other before removed
    · have := inv.queues.removedSquashed other removed mem_cons_self
      exact clash alive this
  · intro other member now
    rcases mem_append.mp member with before | last
    · exact inv.squash.squashedReady other before now
    · rw [mem_singleton.mp last] at now
      exact clash alive now

theorem getInst_pipeline {next : Core}
    (inv : (state.committing core).PipelineInvAt taken (inst :: offered))
    (accepted : core.getInst config inst = .ok next) :
    (state.committing next).PipelineInvAt (taken ++ [inst]) offered := by
  rcases getInst_cases accepted with ⟨rfl, _⟩ | ⟨rfl, alive, running, _⟩
  · exact inv.pass
  · exact inserted_pipeline inv alive running

/-! ## The loop of `commitInsts` -/

/-- The invariant of the loops in `getInsts` and `commitInsts`, which run only
while no squash is in progress. -/
structure LoopInv (state : State) (taken offered : List Nat) (core : Core) : Prop where
  pipeline : (state.committing core).PipelineInvAt taken offered
  running : core.commitStatus ≠ .robSquashing
  noThreadContext : core.tcSquash = false
  silent : core.toIEW.robSquashing = false

theorem LoopInv.noSignal (inv : state.LoopInv taken offered core) : core.toIEW.squash = false := by
  cases signal : core.toIEW.squash with
  | false => rfl
  | true => exact absurd (inv.pipeline.squash.signal signal).1 inv.running

theorem getInst_loop {next : Core} (inv : state.LoopInv taken (inst :: offered) core)
    (accepted : core.getInst config inst = .ok next) :
    state.LoopInv (taken ++ [inst]) offered next := by
  have pipeline := getInst_pipeline inv.pipeline accepted
  rcases getInst_cases accepted with ⟨rfl, _⟩ | ⟨rfl, _⟩
  · exact ⟨pipeline, inv.running, inv.noThreadContext, inv.silent⟩
  · exact ⟨pipeline, inv.running, inv.noThreadContext, inv.silent⟩

theorem startTrap_loop (inv : state.LoopInv taken offered core) (handlerPc : Addr) :
    state.LoopInv taken offered (core.startTrap handlerPc) where
  pipeline := ⟨{ inv.pipeline.queues with }, { inv.pipeline.status with },
    { inv.pipeline.squash with
      progress := by rintro ⟨⟩
      idle := fun _ => inv.pipeline.squash.idle inv.running
      squashedReady := fun inst member now =>
        (inv.pipeline.squash.squashedReady inst member now).imp_right
          fun both => absurd both.1 inv.running
      signal := fun signal => clash inv.noSignal signal
      youngestSquash := by rintro ⟨⟩
      signalled := by rintro ⟨⟩
      trapStatus := fun _ => rfl
      trapFired := fun _ => rfl
      trapAlone := fun _ => inv.noThreadContext }⟩
  running := by rintro ⟨⟩
  noThreadContext := inv.noThreadContext
  silent := inv.silent

theorem handleInterrupt_loop (inv : state.LoopInv taken offered core) :
    state.LoopInv taken offered (core.handleInterrupt env) := by
  have trapped := startTrap_loop inv env.handlerPc
  unfold handleInterrupt
  split
  · exact ⟨⟨{ inv.pipeline.queues with }, { inv.pipeline.status with },
      { inv.pipeline.squash with }⟩, inv.running, inv.noThreadContext, inv.silent⟩
  · split
    · exact ⟨⟨{ trapped.pipeline.queues with }, { trapped.pipeline.status with },
        { trapped.pipeline.squash with }⟩, trapped.running, trapped.noThreadContext,
        trapped.silent⟩
    · exact inv

theorem retireHead_pipeline {rest : List Nat} (inv : (state.committing core).PipelineInvAt taken [])
    (atHead : core.rob.instList = head :: rest) (running : core.commitStatus ≠ .robSquashing) :
    (state.committing (core.retireHead head)).PipelineInvAt taken [] := by
  have tail : core.rob.instList.tail = rest := by rw [atHead]; rfl
  have sub : (core.rob.instList.tail ++ state.waiting []).Sublist
      (core.rob.instList ++ state.waiting []) := (tail_sublist _).append_right _
  refine ⟨{ inv.queues with
    robOrdered := inv.queues.robOrdered.sublist sub
    bounded := fun inst member => inv.queues.bounded inst (sub.subset member)
    listed := fun inst member => inv.queues.listed inst (sub.subset member)
    kept := ?_
    removedBounded := ?_
    removedSquashed := by simp
    committedBelow := fun inst member => inv.queues.committedBelow inst (sub.subset member) },
    { inv.status with }, { inv.squash with
    progress := fun squashing => absurd squashing running
    squashedReady := fun inst member => inv.squash.squashedReady inst (mem_of_mem_tail member)
    signal := fun signal => absurd (inv.squash.signal signal).1 running
    youngestSquash := fun squashing => absurd squashing running }⟩
  · intro inst member removed
    rcases mem_append.mp removed with before | last
    · exact inv.queues.kept inst (((tail_sublist _).append_right _).subset member) before
    · rw [mem_singleton.mp last] at member
      have ordered : (head :: (rest ++ state.waiting [])).Pairwise (· < ·) := by
        have := inv.queues.robOrdered
        rwa [committing_core, atHead] at this
      have later : head ∈ rest ++ state.waiting [] := by
        have member : head ∈ core.rob.instList.tail ++ (state.renameQueue0 ++ state.frontEnd) :=
          member
        rwa [tail] at member
      exact Nat.lt_irrefl _ ((pairwise_cons.mp ordered).1 head later)
  · intro inst removed
    rcases mem_append.mp removed with before | last
    · exact inv.queues.removedBounded inst before
    · rw [mem_singleton.mp last]
      exact inv.queues.bounded head (mem_append_left _ (by simp [atHead]))

theorem releaseHead_pipeline (inv : (state.committing core).PipelineInvAt taken offered)
    (readyHead : core.ReadyHead head) (running : core.commitStatus ≠ .robSquashing) :
    (state.committing (core.releaseHead head)).PipelineInvAt taken offered := by
  have steps : ∀ inst, StatusStep (core.insts inst)
      (core.insts.modify head DynInst.clearCanCommit inst) :=
    StatusStep.modify inv.status.each (.clearCanCommit (inv.status.each head))
  have dispatched : (core.insts head).dispatched = true :=
    ((inv.status.each head).readyDispatched readyHead.ready).resolve_right
      fun squashed => clash readyHead.alive squashed
  have queues := inv.queues.withInsts _ (fun inst => (steps inst).dispatched)
    fun inst => (steps inst).squashed
  have status := inv.status.withInsts _ steps
  have squash := inv.squash.withInsts (core.insts.modify head DynInst.clearCanCommit)
    (fun inst _ before => by
      have different : inst ≠ head := by
        rintro rfl
        exact clash readyHead.alive before.1
      rw [InstTable.modify_other _ _ different]
      exact before)
    (fun inst _ now => by
      rw [InstTable.modify_apply] at now
      split at now
      · exact .inl now
      · exact .inl now)
  refine ⟨{ queues with }, { status with releasing := ?_ }, { squash with
    signalled := fun squashing => absurd squashing running }⟩
  intro inst which _
  have same : inst = head := which.elim id id
  subst same
  change (core.insts.modify inst DynInst.clearCanCommit inst).dispatched = true ∧ _
  rw [InstTable.modify_self]
  refine ⟨dispatched, .inl ?_⟩
  exact congrArg DynInst.canCommit (InstTable.modify_self core.insts inst _)

theorem commitInst_pipeline {rest : List Nat} (env : CommitEnv)
    (inv : (state.committing core).PipelineInvAt taken [])
    (atHead : core.rob.instList = head :: rest) (chosen : core.mayCommit = true)
    (silent : core.toIEW.squash = false) :
    (state.committing ((core.commitInst head).afterCommit env head)).PipelineInvAt taken [] ∧
      ((core.commitInst head).afterCommit env head).commitStatus ≠ .robSquashing := by
  have status : core.commitStatus ≠ .robSquashing ∧ core.commitStatus ≠ .trapPending := by
    unfold mayCommit at chosen
    constructor <;> (intro same; simp [same] at chosen)
  have retired := retireHead_pipeline inv atHead status.1
  obtain ⟨after, _, which, same⟩ := afterCommit_cases env (core.commitInst head) head
  have settled : after ≠ .robSquashing := by
    rcases which with rfl | rfl
    · exact status.1
    · decide
  have grounded : ¬ core.trapInFlight = true := fun flying =>
    status.2 (inv.squash.trapStatus flying)
  have ordered : (head :: (rest ++ state.waiting [])).Pairwise (· < ·) := by
    have := inv.queues.robOrdered
    rwa [committing_core, atHead] at this
  rw [same]
  refine ⟨⟨{ retired.queues with committedBelow := ?_, committedBounded := ?_ },
    { retired.status with }, { retired.squash with
    progress := fun squashing => absurd squashing settled
    idle := fun _ => inv.squash.idle status.1
    squashedReady := fun inst member now =>
      (retired.squash.squashedReady inst member now).imp_right fun both => absurd both.1 status.1
    signal := fun signal => clash silent signal
    youngestSquash := fun squashing => absurd squashing settled
    signalled := fun squashing => absurd squashing settled
    trapStatus := fun flying => absurd flying grounded }⟩, settled⟩
  · intro inst member
    have member : inst ∈ core.rob.instList.tail ++ state.waiting [] := member
    rw [atHead] at member
    exact (pairwise_cons.mp ordered).1 inst member
  · exact inv.queues.bounded head (mem_append_left _ (by simp [atHead]))

theorem LoopInv.withPc (inv : state.LoopInv taken offered core) (pc : Addr) :
    state.LoopInv taken offered { core with pc := pc } :=
  ⟨⟨{ inv.pipeline.queues with }, { inv.pipeline.status with }, { inv.pipeline.squash with }⟩,
    inv.running, inv.noThreadContext, inv.silent⟩

theorem LoopInv.present {rest : List Nat} (inv : state.LoopInv taken [] core)
    (chosen : core.mayCommit = true ∨ core.instList = [])
    (atHead : core.rob.instList = head :: rest) : core.mayCommit = true := by
  refine chosen.resolve_right fun empty => ?_
  have listed := inv.pipeline.queues.listed head (mem_append_left _ (by simp [atHead]))
  simp [empty] at listed

theorem headStep_loop {next : Core} (inv : state.LoopInv taken [] core)
    (chosen : core.mayCommit = true ∨ core.instList = []) (step : Core.HeadStep env core next) :
    state.LoopInv taken [] next := by
  have running := inv.running
  have invalidates : ∀ head, (state.committing
      (core.modifyInst head DynInst.setInvalid)).PipelineInvAt taken [] := fun head =>
    marks_pipeline inv.pipeline fun inst => (Core.Invalidates.modify _ head).marks inst |>.1
  cases step with
  | stay => exact inv
  | enter atHead enters entered =>
    obtain ⟨_, _, insts, regs, rfl, only, _⟩ := enterRunaheadMode_cases entered
    have marked := marks_pipeline inv.pipeline only
    exact ⟨⟨{ marked.queues with }, { marked.status with }, { marked.squash with }⟩,
      running, inv.noThreadContext, inv.silent⟩
  | invalidate atHead mode =>
    exact ⟨invalidates _, running, inv.noThreadContext, inv.silent⟩
  | @pseudoRetire head rest marked atHead mode invalidated =>
    have retires : ∀ core : Core, (state.committing core).PipelineInvAt taken [] →
        core.rob.instList = head :: rest → core.commitStatus ≠ .robSquashing →
        (state.committing ((core.invalidateDestRegs head).retireHead head)).PipelineInvAt
          taken [] := by
      intro core inv atHead running
      have invalid : (state.committing (core.invalidateDestRegs head)).PipelineInvAt taken [] :=
        ⟨{ inv.queues with }, { inv.status with }, { inv.squash with }⟩
      exact retireHead_pipeline invalid atHead running
    rcases invalidated with rfl | rfl
    · exact ⟨retires _ inv.pipeline atHead running, running, inv.noThreadContext, inv.silent⟩
    · exact ⟨retires _ (invalidates head) atHead running, running, inv.noThreadContext, inv.silent⟩
  | dropSquashed atHead normalMode unmarked squashed =>
    exact ⟨retireHead_pipeline inv.pipeline atHead running, running, inv.noThreadContext,
      inv.silent⟩
  | hold atHead readyHead => exact inv.withPc _
  | release atHead readyHead waiting drained =>
    exact ⟨releaseHead_pipeline (inv.withPc _).pipeline
      ⟨readyHead.normalMode, readyHead.unmarked, readyHead.ready, readyHead.alive⟩ running,
      running, inv.noThreadContext, inv.silent⟩
  | trap atHead readyHead executed faulted => exact startTrap_loop inv env.handlerPc
  | @commit head rest atHead readyHead executed faultless =>
    obtain ⟨pipeline, settled⟩ :=
      commitInst_pipeline env (inv.withPc _).pipeline atHead
        (inv.present chosen atHead) inv.noSignal
    refine ⟨pipeline, settled, ?_, ?_⟩
    · obtain ⟨_, _, _, same⟩ := afterCommit_cases env
        (commitInst { core with pc := (core.insts head).pc } head) head
      rw [same]
      exact inv.noThreadContext
    · obtain ⟨_, _, _, same⟩ := afterCommit_cases env
        (commitInst { core with pc := (core.insts head).pc } head) head
      rw [same]
      exact inv.silent

/-! ## The end of the cycle -/

theorem finishIEW_cases (state : State) :
    ∃ insts storeQueue, state.finishIEW = { state.withInsts insts with storeQueue := storeQueue } ∧
      (insts = state.insts ∨ state.fromCommit.nonSpecSeqNum ≠ 0 ∧
        insts = state.insts.modify state.fromCommit.nonSpecSeqNum DynInst.setReleased) := by
  unfold finishIEW
  simp only
  split
  · next released => exact ⟨_, _, rfl, .inr ⟨released, rfl⟩⟩
  · exact ⟨_, _, rfl, .inl rfl⟩

theorem finishIEW_pipeline (inv : state.PipelineInv config) :
    state.finishIEW.PipelineInv config := by
  have queued : ∀ {state : State} storeQueue, state.PipelineInv config →
      { state with storeQueue := storeQueue }.PipelineInv config :=
    fun _ inv => ⟨⟨{ inv.queues with }, { inv.status with }, { inv.squash with }⟩,
      { inv.toCycleInv with }⟩
  obtain ⟨insts, storeQueue, same, rfl | ⟨released, rfl⟩⟩ := finishIEW_cases state
  · rw [same]
    exact queued _ inv
  · rw [same]
    obtain ⟨dispatched, unready⟩ := inv.status.releasing _ (.inl rfl) released
    exact queued _ (inv.modifyInst _ _
      (.setReleased (inv.status.each _) dispatched unready) rfl rfl)

theorem advance_pipeline (inv : (state.committing core).PipelineInvAt state.renameQueue1 [])
    (cycle : state.CycleInv config) (phase : state.phase = .iew)
    (drained : core.toIEW.robSquashing = true → core.toIEW.squash = false →
      state.renameQueue0 = []) :
    { state with core := core.markCompletedInsts state.iewToCommit }.advance.PipelineInv
      config := by
  have steps : ∀ inst, StatusStep (core.insts inst)
      ((core.markCompletedInsts state.iewToCommit).insts inst) :=
    StatusStep.modifyAll inv.status.each fun inst chosen => by
      simp only [Bool.and_eq_true, contains_iff_mem] at chosen
      exact .setCanCommit (inv.status.each inst)
        (inv.status.completed inst (mem_append_right _ chosen.1))
  have ready : ∀ inst, ((core.markCompletedInsts state.iewToCommit).insts inst).squashed =
      (core.insts inst).squashed ∧ ((core.insts inst).canCommit = true →
        ((core.markCompletedInsts state.iewToCommit).insts inst).canCommit = true) := by
    intro inst
    simp only [markCompletedInsts, InstTable.modifyAll_apply]
    split
    · exact ⟨rfl, fun _ => rfl⟩
    · exact ⟨rfl, id⟩
  have queues := inv.queues.withInsts _ (fun inst => (steps inst).dispatched)
    fun inst => (steps inst).squashed
  have status := inv.status.withInsts _ steps
  have squash := inv.squash.withInsts _
    (fun inst _ before => ⟨(ready inst).1.trans before.1, (ready inst).2 before.2⟩)
    fun inst _ now => .inl ((ready inst).1.symm.trans now)
  have sent : ((state.committing core).withInsts
      (core.markCompletedInsts state.iewToCommit).insts).toDispatch state.renameQueue1 =
      state.skidBuffer ++ (state.renameQueue1 ++ []) := by
    simp [toDispatch, committing, withInsts, cycle.taken phase]
  have bounded := queues.dispatchBounded
  have ordered := queues.pipelineOrdered
  have undispatched := queues.undispatched
  rw [sent] at bounded ordered undispatched
  have executing : (state.toExecute ++ state.issuedNow) ++ [] =
      state.toExecute ++ state.issuedNow := append_nil _
  have unremoved : ∀ {inst}, inst ∉ core.removeList → (!core.removeList.contains inst) = true := by
    simp
  refine ⟨⟨{ queues with
    pipelineOrdered := ordered
    dispatchBounded := bounded
    undispatched := undispatched
    listOrdered := queues.listOrdered.sublist filter_sublist
    listBounded := fun inst member =>
      queues.listBounded inst (filter_sublist.subset member)
    listed := fun inst member => mem_filter.mpr
      ⟨queues.listed inst member, unremoved (queues.kept inst member)⟩
    kept := by rintro _ _ ⟨⟩
    removedBounded := by rintro _ ⟨⟩
    removedSquashed := by rintro _ ⟨⟩ }, { status with
    issuedOnce := executing.symm ▸ status.issuedOnce
    issuedPending := fun inst member => status.issuedPending inst (executing ▸ member)
    issuedListed := fun inst dispatched issued executed =>
      (status.issuedListed inst dispatched issued executed).imp_right
        (Or.imp_right fun member => executing.symm ▸ member)
    completed := fun inst member => status.completed inst (mem_append_left _ member)
    releasing := fun inst which nonzero => status.releasing inst
      (.inl (which.resolve_right nonzero)) nonzero }, { squash with }⟩, {
    width0 := Nat.zero_le _
    width1 := cycle.width0
    quiet := rfl
    taken := by rintro ⟨⟩
    fresh := fun _ => rfl
    issuing := fun _ => rfl
    blocked := fun _ => rfl
    drained := drained
    flushed := fun _ moved => absurd rfl moved }⟩

/-- What a cycle of commit does: it works on a squash, or it takes the
instructions of rename and commits from the head of the ROB. -/
theorem commitTick_cases (stepped : state.commitTick config env = some next) :
    state.executionDone = true ∧ ∃ (seen : CommitEnv) (done : Core),
      let finished := state.finishIEW
      let checked := (finished.core.continueSquash config).checkForInterrupts config seen
      seen.checkInterrupts = env.checkInterrupts ∧
      next = { finished with core := done.markCompletedInsts finished.iewToCommit }.advance ∧
      ((done = checked.handleSquashes config finished.iewToCommit ∧
          done.commitStatus = .robSquashing) ∨
        (checked.commitStatus ≠ .robSquashing ∧ checked.NoOwnSquash ∧
          checked.acceptsSquash finished.iewToCommit = false ∧
          ∃ filled, checked.getInsts config finished.renameQueue1 = .ok filled ∧
            filled.commitInsts config seen = .ok done)) := by
  unfold commitTick at stepped
  split at stepped
  · next idle =>
    refine ⟨idle, { env with hasStoresToWB := state.finishIEW.storeQueue.any (·.canWB) }, ?_⟩
    simp only at stepped
    split at stepped
    · cases stepped
    · next final ticked =>
      cases stepped
      obtain ⟨done, rfl, ⟨squashing, rfl⟩ | ⟨running, filled, got, committed⟩⟩ :=
        tick_cases ticked
      · exact ⟨_, rfl, rfl, .inl ⟨rfl, squashing⟩⟩
      · obtain ⟨same, quiet, refused⟩ := handleSquashes_running running
        rw [same] at running got
        exact ⟨done, rfl, rfl, .inr ⟨running, quiet, refused, filled, got, committed⟩⟩
  · cases stepped

/-- A squash that is not announced in this cycle was in progress before. -/
theorem handleSquashes_signal {fromIEW : IewStruct}
    (squashing : (core.handleSquashes config fromIEW).commitStatus = .robSquashing) :
    (core.handleSquashes config fromIEW).toIEW.squash = true ∨ core.commitStatus =
      .robSquashing := by
  unfold handleSquashes at squashing ⊢
  simp only at squashing ⊢
  split
  · exact .inl rfl
  · next refused =>
    rw [if_neg refused] at squashing
    rcases ownSquashes_cases config core with
      ⟨same, _⟩ | ⟨_, own⟩ | ⟨_, _, own⟩ | ⟨_, _, _, own⟩
    · exact .inr (same ▸ squashing)
    · exact .inl (own ▸ rfl)
    · exact .inl (own ▸ rfl)
    · exact .inl (own ▸ rfl)

theorem continueSquash_before
    (squashing : ((core.continueSquash config).checkForInterrupts config env).commitStatus =
      .robSquashing) : core.commitStatus = .robSquashing := by
  obtain ⟨_, _, same⟩ := checkForInterrupts_eq config env (core.continueSquash config)
  rw [same] at squashing
  unfold continueSquash at squashing
  split at squashing
  · next before => exact before
  · exact squashing

theorem checked_silent (quiet : core.toIEW = {})
    (running : ((core.continueSquash config).checkForInterrupts config env).commitStatus ≠
      .robSquashing) :
    ((core.continueSquash config).checkForInterrupts config env).toIEW.robSquashing = false := by
  obtain ⟨_, _, same⟩ := checkForInterrupts_eq config env (core.continueSquash config)
  rw [same] at running ⊢
  unfold continueSquash at running ⊢
  split
  · next before =>
    split
    · simp [quiet]
    · next going => simp [before, going] at running
  · simp [quiet]

/-- The part of a cycle in which commit does not squash. Any property that the
bodies of its two loops keep holds at the end. -/
theorem commitInsts_invariant (Holds : List Nat → List Nat → Core → Prop) {filled done : Core}
    (inv : state.LoopInv [] state.renameQueue1 core) (holds : Holds [] state.renameQueue1 core)
    (gets : ∀ taken inst offered core next, state.LoopInv taken (inst :: offered) core →
      Holds taken (inst :: offered) core → core.getInst config inst = .ok next →
      Holds (taken ++ [inst]) offered next)
    (printed : ∀ core insts, state.LoopInv state.renameQueue1 [] core →
      Holds state.renameQueue1 [] core → Core.Invalidates core.insts insts →
      Holds state.renameQueue1 [] { core with insts := insts })
    (interrupted : ∀ core, state.LoopInv state.renameQueue1 [] core →
      Holds state.renameQueue1 [] core → Holds state.renameQueue1 [] (core.handleInterrupt env))
    (stepped : ∀ core next, state.LoopInv state.renameQueue1 [] core →
      Holds state.renameQueue1 [] core → core.mayCommit = true ∨ core.instList = [] →
      Core.HeadStep env core next → Holds state.renameQueue1 [] next)
    (width : state.renameQueue1.length ≤ config.renameWidth)
    (got : core.getInsts config state.renameQueue1 = .ok filled)
    (committed : filled.commitInsts config env = .ok done) :
    state.LoopInv state.renameQueue1 [] done ∧ Holds state.renameQueue1 [] done := by
  rw [getInsts, take_of_length_le width] at got
  have full := getInstsLoop_invariant
    (fun taken offered core => state.LoopInv taken offered core ∧ Holds taken offered core)
    (fun taken inst offered core next both accepted =>
      ⟨getInst_loop both.1 accepted, gets taken inst offered core next both.1 both.2 accepted⟩)
    [] ⟨inv, holds⟩ got
  have marks := debugPrintROB_invalidates filled
  exact commitLoop_invariant
    (fun core => state.LoopInv state.renameQueue1 [] core ∧ Holds state.renameQueue1 [] core)
    (fun core both _ => ⟨handleInterrupt_loop both.1, interrupted core both.1 both.2⟩)
    (fun core next both chosen step =>
      ⟨headStep_loop both.1 chosen step, stepped core next both.1 both.2 chosen step⟩)
    ⟨⟨marks_pipeline full.1.pipeline fun inst => (marks.marks inst).1, full.1.running,
      full.1.noThreadContext, full.1.silent⟩, printed _ _ full.1 full.2 marks⟩ committed

theorem commitTick_pipeline (inv : state.PipelineInv config) (phase : state.phase = .iew)
    (stepped : state.commitTick config env = some next) : next.PipelineInv config := by
  obtain ⟨_, seen, done, _, rfl, finish⟩ := commitTick_cases stepped
  have finished := finishIEW_pipeline inv
  have iew : state.finishIEW.phase = .iew := by
    obtain ⟨_, _, same, _⟩ := finishIEW_cases state
    rw [same]
    exact phase
  have checked := checkForInterrupts_pipeline config seen (continueSquash_pipeline finished)
  rcases finish with ⟨same, squashing⟩ | ⟨running, quiet, refused, filled, got, committed⟩
  · have handled := (handleSquashes_pipeline config state.finishIEW.iewToCommit checked).passAll
    rw [same] at squashing ⊢
    refine advance_pipeline handled finished.toCycleInv iew fun announced silent => ?_
    rcases handleSquashes_signal squashing with signal | before
    · exact clash silent signal
    · exact finished.blocked (finished.squash.signalled (continueSquash_before before))
  · have entered : state.finishIEW.LoopInv [] state.finishIEW.renameQueue1 _ :=
      ⟨checked, running, quiet.threadContext, checked_silent finished.quiet running⟩
    have ended := (commitInsts_invariant (fun _ _ _ => True) entered trivial
      (fun _ _ _ _ _ _ _ _ => trivial) (fun _ _ _ _ _ => trivial) (fun _ _ _ => trivial)
      (fun _ _ _ _ _ _ => trivial)
      finished.width1 got committed).1
    exact advance_pipeline ended.pipeline finished.toCycleInv iew fun announced =>
      clash ended.silent announced

/-! ## Whole runs -/

theorem step_pipeline {event : Event} (inv : state.PipelineInv config)
    (stepped : state.step config event = some next) : next.PipelineInv config := by
  cases event with
  | memResponse inst req =>
    obtain ⟨_, stepped⟩ := ite_none_right_eq_some.mp stepped
    exact memResponse_pipeline inv stepped
  | writeback inst fault mispredicted =>
    obtain ⟨_, stepped⟩ := ite_none_right_eq_some.mp stepped
    exact writeback_pipeline inv stepped
  | l2Miss | completeStore | trapFires | instToCommit | sendStore =>
    exact (step_light rfl stepped).pipeline inv
  | tcWrite pc =>
    obtain ⟨_, stepped⟩ := ite_none_right_eq_some.mp stepped
    exact tcWrite_pipeline inv stepped
  | startTick =>
    obtain ⟨phase, rfl⟩ := fired stepped
    exact startTick_pipeline inv phase
  | fetchInst staticInst pc nextPc =>
    obtain ⟨_, rfl⟩ := fired stepped
    exact fetchInst_pipeline _ _ _ inv
  | decodeSquash inst =>
    obtain ⟨possible, rfl⟩ := fired stepped
    simp only [Bool.and_eq_true, contains_iff_mem] at possible
    exact decodeSquash_pipeline inv possible.2
  | startRename =>
    obtain ⟨phase, rfl⟩ := fired stepped
    exact startRename_pipeline inv phase
  | renameInst =>
    obtain ⟨possible, stepped⟩ := ite_none_right_eq_some.mp stepped
    simp only [Bool.and_eq_true, decide_eq_true_eq, Bool.not_eq_true'] at possible
    exact renameInst_pipeline inv possible.1.1.1 possible.1.2 possible.2 stepped
  | startIEW =>
    obtain ⟨phase, rfl⟩ := fired stepped
    exact startIEW_pipeline inv phase
  | dispatchInst =>
    obtain ⟨_, stepped⟩ := ite_none_right_eq_some.mp stepped
    exact dispatchInst_pipeline inv stepped
  | executeInst inst outcome =>
    obtain ⟨_, stepped⟩ := ite_none_right_eq_some.mp stepped
    exact executeInst_pipeline inv stepped
  | issueInst inst =>
    obtain ⟨phase, stepped⟩ := ite_none_right_eq_some.mp stepped
    exact issueInst_pipeline inv phase stepped
  | commitTick env =>
    obtain ⟨phase, stepped⟩ := ite_none_right_eq_some.mp stepped
    exact commitTick_pipeline inv phase stepped

theorem initial_pipeline (config : Config) (pc : Addr) :
    (initial config pc).PipelineInv config where
  queues := by constructor <;> simp [initial, toDispatch, waiting]
  status := by
    constructor <;> simp [initial]
    exact fun _ => by constructor <;> simp
  squash := by constructor <;> simp [initial]
  toCycleInv := by constructor <;> simp [initial]

theorem reachable_pipeline {allowed : State → Event → Bool} {pc : Addr}
    (reached : Library.Reaches (step config) allowed (initial config pc) state) :
    state.PipelineInv config :=
  reached.invariant (initial_pipeline config pc) fun inv _ stepped => step_pipeline inv stepped

end Runahead.O3.State
