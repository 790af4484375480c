import Runahead.O3.Commit

/-!
# What a cycle of commit can do

Inversion lemmas for `Commit::tick`: the squash that begins or goes on, the
instructions taken from rename, and the iterations of the loop in `commitInsts`.
Every invariant of the commit stage is proved from these and never unfolds the
loops again.
-/

set_option autoImplicit false

namespace Runahead.O3.Core

open DynInst InstTable

variable {config : Config} {env : CommitEnv} {core next final : Core}

/-! ## The ROB head -/

structure ReadyHead (core : Core) (head : Nat) : Prop where
  normalMode : core.inRunahead = false
  unmarked : (core.insts head).runaheadInst = false
  ready : (core.insts head).canCommit = true
  alive : (core.insts head).squashed = false

/-- The effect of `commitInsts` on the ROB head, one constructor per exit of the loop body. -/
inductive HeadStep (env : CommitEnv) (core : Core) : Core → Prop where
  | stay : HeadStep env core core
  | enter {head : Nat} {rest : List Nat} {next : Core}
      (atHead : core.rob.instList = head :: rest) (enters : core.entersRunahead head = true)
      (entered : core.enterRunaheadMode [] head = .ok next) : HeadStep env core next
  | invalidate {head : Nat} {rest : List Nat} (atHead : core.rob.instList = head :: rest)
      (mode : core.inRunahead = true ∨ (core.insts head).runaheadInst = true) :
      HeadStep env core (core.modifyInst head setInvalid)
  | pseudoRetire {head : Nat} {rest : List Nat} {marked : Core}
      (atHead : core.rob.instList = head :: rest)
      (mode : core.inRunahead = true ∨ (core.insts head).runaheadInst = true)
      (invalidated : marked = core ∨ marked = core.modifyInst head setInvalid) :
      HeadStep env core ((marked.invalidateDestRegs head).retireHead head)
  | dropSquashed {head : Nat} {rest : List Nat} (atHead : core.rob.instList = head :: rest)
      (normalMode : core.inRunahead = false)
      (unmarked : (core.insts head).runaheadInst = false)
      (squashed : (core.insts head).squashed = true) :
      HeadStep env core (core.retireHead head)
  | hold {head : Nat} {rest : List Nat} (atHead : core.rob.instList = head :: rest)
      (readyHead : core.ReadyHead head) :
      HeadStep env core { core with pc := (core.insts head).pc }
  | release {head : Nat} {rest : List Nat} (atHead : core.rob.instList = head :: rest)
      (readyHead : core.ReadyHead head) (waiting : (core.insts head).executed = false)
      (drained : env.hasStoresToWB = false) :
      HeadStep env core (Core.releaseHead { core with pc := (core.insts head).pc } head)
  | trap {head : Nat} {rest : List Nat} (atHead : core.rob.instList = head :: rest)
      (readyHead : core.ReadyHead head) (executed : (core.insts head).executed = true)
      (faulted : (core.insts head).fault = true) :
      HeadStep env core (core.startTrap env.handlerPc)
  | commit {head : Nat} {rest : List Nat} (atHead : core.rob.instList = head :: rest)
      (readyHead : core.ReadyHead head) (executed : (core.insts head).executed = true)
      (faultless : (core.insts head).fault = false) :
      HeadStep env core
        ((Core.commitInst { core with pc := (core.insts head).pc } head).afterCommit env head)

def LoopStep.result : LoopStep → Core
  | .stop core => core
  | .next core _ => core

/-- Instructions are marked INV and nothing else changes. -/
def Invalidates (old new : InstTable) : Prop :=
  ∀ inst, new inst = old inst ∨ new inst = (old inst).setInvalid

theorem Invalidates.modify (insts : InstTable) (head : Nat) :
    Invalidates insts (insts.modify head setInvalid) := by
  intro inst
  rw [modify_apply]
  split
  · exact .inr rfl
  · exact .inl rfl

theorem debugPrintROB_invalidates (core : Core) :
    Invalidates core.insts core.debugPrintROB.insts := by
  intro inst
  simp only [debugPrintROB, modifyAll_apply]
  split
  · exact isInvalid_cases _ _
  · exact .inl rfl

theorem pseudoRetire_step {head : Nat} {rest : List Nat} (numCommitted : Nat)
    (atHead : core.rob.instList = head :: rest)
    (mode : core.inRunahead = true ∨ (core.insts head).runaheadInst = true) :
    HeadStep env core (core.pseudoRetire head numCommitted).result := by
  have changed : ∀ test : Bool,
      (core.modifyInst head fun _ => (if test then (core.insts head).setInvalid
        else core.insts head).isInvalid core.inv) = core ∨
      (core.modifyInst head fun _ => (if test then (core.insts head).setInvalid
        else core.insts head).isInvalid core.inv) = core.modifyInst head setInvalid := by
    intro test
    have once : ∀ {marked}, marked = (core.insts head).setInvalid →
        (core.modifyInst head fun _ => marked) = core.modifyInst head setInvalid := by
      rintro _ rfl
      exact congrArg (fun insts => { core with insts := insts }) (modify_const _ _ _)
    cases test with
    | false =>
      refine (isInvalid_cases (core.insts head) core.inv).imp (fun same => ?_) once
      exact congrArg (fun insts => { core with insts := insts }) (modify_same _ same)
    | true => exact .inr (once ((isInvalid_cases _ core.inv).elim id id))
  simp only [pseudoRetire]
  have changed := changed ((core.insts head).missedInL2 || (core.insts head).staticInst.isStore)
  generalize (core.modifyInst head fun _ => _) = marked at changed ⊢
  split
  · exact .pseudoRetire atHead mode changed
  · split
    · exact .pseudoRetire atHead mode changed
    · split
      · exact .pseudoRetire atHead mode changed
      · rcases changed with rfl | rfl
        · exact .stay
        · exact .invalidate atHead mode

theorem normalRetire_step {head : Nat} {rest : List Nat} (numCommitted : Nat)
    (atHead : core.rob.instList = head :: rest) (readyHead : core.ReadyHead head) :
    HeadStep env core (core.normalRetire env head numCommitted).result := by
  simp only [normalRetire, commitHead]
  cases executed : (core.insts head).executed with
  | false =>
    by_cases blocked : (decide (numCommitted > 0) || env.hasStoresToWB) = true
    · simp only [blocked, ↓reduceIte]
      exact .hold atHead readyHead
    · simp only [blocked, Bool.false_eq_true, ↓reduceIte]
      simp only [Bool.or_eq_true, not_or, Bool.not_eq_true] at blocked
      exact .release atHead readyHead executed blocked.2
  | true =>
    cases faulted : (core.insts head).fault with
    | false =>
      exact .commit atHead readyHead executed faulted
    | true =>
      by_cases blocked : (env.hasStoresToWB || decide (numCommitted > 0)) = true
      · simp only [blocked, ↓reduceIte]
        exact .hold atHead readyHead
      · simp only [blocked, Bool.false_eq_true, ↓reduceIte]
        exact .trap atHead readyHead executed faulted

variable {numCommitted inst : Nat}

theorem processHead_step {step : LoopStep}
    (accepted : core.processHead env [] numCommitted = .ok step) :
    HeadStep env core step.result := by
  unfold processHead at accepted
  cases found : core.rob.readHeadInst with
  | none =>
    simp only [found, Except.ok.injEq] at accepted
    subst accepted
    exact .stay
  | some head =>
    obtain ⟨rest, atHead⟩ : ∃ rest, core.rob.instList = head :: rest :=
      List.head?_eq_some_iff.mp found
    simp only [found] at accepted
    split at accepted
    · next enters =>
      cases entered : core.enterRunaheadMode [] head with
      | error failure => simp [entered, Except.map] at accepted
      | ok next =>
        simp only [entered, Except.map, Except.ok.injEq] at accepted
        subst accepted
        exact .enter atHead enters entered
    · split at accepted
      · next mode =>
        cases accepted
        exact pseudoRetire_step numCommitted atHead (by simpa using mode)
      · next normal =>
        obtain ⟨normalMode, unmarked⟩ :
            core.inRunahead = false ∧ (core.insts head).runaheadInst = false := by
          simpa using normal
        split at accepted
        · cases accepted
          exact .stay
        · next ready =>
          split at accepted
          · next squashed =>
            cases accepted
            exact .dropSquashed atHead normalMode unmarked squashed
          · next alive =>
            cases accepted
            exact normalRetire_step numCommitted atHead
              ⟨normalMode, unmarked, by simpa using ready, by simpa using alive⟩

/-- Only the runahead marks of an instruction change, and none is taken away. -/
def MarksOnly (old new : DynInst) : Prop :=
  ∃ triggered marked invalid, (old.runaheadInst = true → marked = true) ∧
    new = { old with triggeredRunahead := triggered, runaheadInst := marked, invalid := invalid }

theorem MarksOnly.refl (inst : DynInst) : MarksOnly inst inst :=
  ⟨inst.triggeredRunahead, inst.runaheadInst, inst.invalid, id, rfl⟩

theorem Invalidates.marks {old new : InstTable} (only : Invalidates old new) (inst : Nat) :
    MarksOnly (old inst) (new inst) ∧ (new inst).runaheadInst = (old inst).runaheadInst := by
  rcases only inst with same | same <;> rw [same]
  · exact ⟨.refl _, rfl⟩
  · exact ⟨⟨_, _, true, id, rfl⟩, rfl⟩

theorem markAllRunahead_marked {members : List Nat} (insts : InstTable) (member : inst ∈ members) :
    (Rob.markAllRunahead insts members inst).runaheadInst = true := by
  simp [Rob.markAllRunahead, modifyAll_apply, member, setRunaheadInst]

private theorem enterRunaheadMode_triggered (core : Core) {other : Nat}
    (members : List Nat) (trigger : DynInst) (different : other ≠ inst) :
    (Rob.markAllRunahead (core.insts.modify inst fun _ => trigger) members
      other).triggeredRunahead = (core.insts other).triggeredRunahead := by
  simp only [Rob.markAllRunahead, modifyAll_apply, modify_other _ _ different]
  split <;> rfl

private theorem enterRunaheadMode_marks (core : Core) (inst : Nat) (members : List Nat)
    (other : Nat) :
    MarksOnly (core.insts other)
      (Rob.markAllRunahead (core.insts.modify inst fun _ =>
        setInvalid { core.insts inst with triggeredRunahead := true, runaheadInst := true })
        members other) := by
  have trigger : MarksOnly (core.insts other) (core.insts.modify inst (fun _ =>
      setInvalid { core.insts inst with triggeredRunahead := true, runaheadInst := true })
      other) := by
    rw [modify_apply]
    split
    · next same =>
      subst same
      exact ⟨true, true, true, fun _ => rfl, rfl⟩
    · exact .refl _
  obtain ⟨triggered, marked, invalid, kept, same⟩ := trigger
  simp only [Rob.markAllRunahead, modifyAll_apply]
  split
  · rw [same]
    exact ⟨triggered, true, invalid, fun _ => rfl, rfl⟩
  · rw [same]
    exact ⟨triggered, marked, invalid, kept, rfl⟩

theorem enterRunaheadMode_cases {otherRobs : List Nat}
    (entered : core.enterRunaheadMode otherRobs inst = .ok next) :
    core.inRunahead = false ∧ (core.insts inst).numOutstandingRequests = true ∧
      ∃ insts inv, next = { core with
          inRunahead := true, raTriggerInst := inst, insts := insts, inv := inv } ∧
        (∀ other, MarksOnly (core.insts other) (insts other)) ∧
        (∀ other ∈ core.rob.instList ++ otherRobs, (insts other).runaheadInst = true) ∧
        ∀ other, other ≠ inst →
          (insts other).triggeredRunahead = (core.insts other).triggeredRunahead := by
  unfold enterRunaheadMode at entered
  split at entered
  · cases entered
  · next normal =>
    split at entered
    · cases entered
    · next trigger triggers =>
      unfold setTriggeredRunahead at triggers
      split at triggers
      · next requests =>
        cases triggers
        cases entered
        refine ⟨by simpa using normal, requests, ?_⟩
        split
        · exact ⟨_, _, rfl, enterRunaheadMode_marks core inst _, fun other member =>
            markAllRunahead_marked _ member, fun _ => enterRunaheadMode_triggered core _ _⟩
        · exact ⟨_, _, rfl, enterRunaheadMode_marks core inst _, fun other member =>
            markAllRunahead_marked _ member, fun _ => enterRunaheadMode_triggered core _ _⟩
      · cases triggers

theorem afterCommit_cases (env : CommitEnv) (core : Core) (head : Nat) :
    ∃ status after, (status = core.commitStatus ∨ status = .squashAfterPending) ∧
      core.afterCommit env head = { core with
        toIEW := { core.toIEW with doneSeqNum := head }
        canHandleInterrupts := !(core.insts head).staticInst.isDelayedCommit
        pc := (core.insts head).nextPc
        lastCommitedSeqNum := head
        commitStatus := status
        squashAfterInst := after } := by
  unfold afterCommit squashAfter
  simp only
  split
  · split
    · exact ⟨_, _, .inr rfl, rfl⟩
    · exact ⟨_, _, .inr rfl, rfl⟩
  · split
    · exact ⟨_, _, .inr rfl, rfl⟩
    · exact ⟨_, _, .inl rfl, rfl⟩

/-- Noticing an interrupt changes nothing else. -/
theorem checkForInterrupts_eq (config : Config) (env : CommitEnv) (core : Core) :
    ∃ interrupt pending, core.checkForInterrupts config env = { core with
      interrupt := interrupt
      toIEW := { core.toIEW with interruptPending := pending } } := by
  unfold checkForInterrupts propagateInterrupt
  split
  · split
    · exact ⟨_, _, rfl⟩
    · exact ⟨_, _, rfl⟩
  · exact ⟨_, _, rfl⟩

/-! ## The loop -/

theorem handleInterrupt_cases (env : CommitEnv) (core : Core) :
    (core.handleInterrupt env).commitStatus = core.commitStatus ∨
      env.checkInterrupts = true ∧ core.instList = [] := by
  unfold handleInterrupt
  split
  · exact .inl rfl
  · split
    · next checked empty =>
      simp only [Bool.and_eq_true, List.isEmpty_iff] at empty
      exact .inr ⟨by simpa using checked, empty.2⟩
    · exact .inl rfl

@[simp] theorem handleInterrupt_instList (env : CommitEnv) (core : Core) :
    (core.handleInterrupt env).instList = core.instList := by
  unfold handleInterrupt startTrap
  split
  · rfl
  · split <;> rfl

/-- The thread that commits is chosen before an interrupt is handled. Where
this makes a difference the instruction list is empty. -/
theorem commitIteration_step {step : LoopStep}
    (accepted : core.commitIteration env numCommitted = .ok step) :
    let handled := if core.interrupt then core.handleInterrupt env else core
    step.result = handled ∨
      (handled.mayCommit = true ∨ handled.instList = []) ∧ HeadStep env handled step.result := by
  intro handled
  change (if core.mayCommit = true then handled.processHead env [] numCommitted
    else .ok (.stop handled)) = .ok step at accepted
  split at accepted
  · next chosen =>
    refine .inr ⟨?_, processHead_step accepted⟩
    by_cases pending : core.interrupt = true
    · simp only [handled, pending, ↓reduceIte]
      rcases handleInterrupt_cases env core with same | ⟨_, empty⟩
      · left
        simpa only [mayCommit, same] using chosen
      · exact .inr ((handleInterrupt_instList env core).trans empty)
    · simp only [handled, pending, Bool.false_eq_true, ↓reduceIte]
      exact .inl chosen
  · cases accepted
    exact .inl rfl

theorem commitLoop_invariant (Holds : Core → Prop)
    (interrupted : ∀ core, Holds core → core.interrupt = true → Holds (core.handleInterrupt env))
    (stepped : ∀ core next, Holds core → core.mayCommit = true ∨ core.instList = [] →
      HeadStep env core next → Holds next)
    {fuel : Nat} (holds : Holds core)
    (accepted : commitLoop config env fuel core numCommitted = .ok final) : Holds final := by
  induction fuel generalizing core numCommitted with
  | zero =>
    cases accepted
    exact holds
  | succ fuel ih =>
    simp only [commitLoop] at accepted
    split at accepted
    · have iteration : ∀ step, core.commitIteration env numCommitted = .ok step →
          Holds step.result := by
        intro step done
        have handled : Holds (if core.interrupt then core.handleInterrupt env else core) := by
          split
          · next pending => exact interrupted core holds pending
          · exact holds
        rcases commitIteration_step done with same | ⟨chosen, headStep⟩
        · rw [same]
          exact handled
        · exact stepped _ _ handled chosen headStep
      split at accepted
      · cases accepted
      · next stopped done =>
        cases accepted
        exact iteration _ done
      · next continued _ done => exact ih (iteration _ done) accepted
    · cases accepted
      exact holds

/-! ## Instructions from rename -/

def inserted (core : Core) (inst : Nat) : Core :=
  { core with
    insts :=
      if core.inRunahead then core.insts.modify inst setRunaheadInst else core.insts
    rob := { core.rob with instList := core.rob.instList ++ [inst] }
    youngestSeqNum := inst }

theorem inserted_marks (core : Core) (inst other : Nat) :
    MarksOnly (core.insts other) ((core.inserted inst).insts other) := by
  simp only [inserted]
  split
  · rw [modify_apply]
    split
    · exact ⟨_, true, _, fun _ => rfl, rfl⟩
    · exact .refl _
  · exact .refl _

theorem getInst_cases (accepted : core.getInst config inst = .ok next) :
    (next = core ∧ ((core.insts inst).squashed = true ∨ core.commitStatus = .robSquashing ∨
      core.commitStatus = .trapPending)) ∨
    (next = core.inserted inst ∧ (core.insts inst).squashed = false ∧
      core.commitStatus ≠ .robSquashing ∧ core.commitStatus ≠ .trapPending) := by
  unfold getInst at accepted
  split at accepted
  · next wanted =>
    right
    simp only [Bool.and_eq_true, Bool.not_eq_true', decide_eq_true_eq] at wanted
    refine ⟨?_, wanted.1.1, wanted.1.2, wanted.2⟩
    simp only [Rob.insertInst] at accepted
    split at accepted
    · cases accepted
    · next grown =>
      split at grown
      · cases grown
        cases accepted
        unfold inserted modifyInst
        split <;> rfl
      · cases grown
  · next refused =>
    cases accepted
    refine .inl ⟨rfl, ?_⟩
    grind

theorem getInstsLoop_invariant (Holds : List Nat → List Nat → Core → Prop)
    (stepped : ∀ taken inst offered core next, Holds taken (inst :: offered) core →
      core.getInst config inst = .ok next → Holds (taken ++ [inst]) offered next)
    (taken : List Nat) {offered : List Nat} (holds : Holds taken offered core)
    (accepted : getInstsLoop config offered core = .ok final) :
    Holds (taken ++ offered) [] final := by
  induction offered generalizing taken core with
  | nil =>
    cases accepted
    simpa using holds
  | cons inst offered ih =>
    simp only [getInstsLoop] at accepted
    split at accepted
    · cases accepted
    · next got =>
      have := ih _ (stepped _ _ _ _ _ holds got) accepted
      simpa using this

/-! ## Squashes and the whole cycle -/

structure NoOwnSquash (core : Core) : Prop where
  trap : core.trapSquash = false
  threadContext : core.tcSquash = false
  after : core.commitStatus ≠ .squashAfterPending

theorem ownSquashes_cases (config : Config) (core : Core) :
    core.ownSquashes config = core ∧ core.NoOwnSquash ∨
      core.trapSquash = true ∧ core.ownSquashes config = core.squashFromTrap config ∨
      core.trapSquash = false ∧ core.tcSquash = true ∧
        core.ownSquashes config = core.squashFromTC config ∨
      core.trapSquash = false ∧ core.tcSquash = false ∧ core.commitStatus = .squashAfterPending ∧
        core.ownSquashes config = core.squashFromSquashAfter config := by
  unfold ownSquashes
  by_cases trap : core.trapSquash = true
  · simp [trap]
  · by_cases threadContext : core.tcSquash = true
    · simp [trap, threadContext]
    · by_cases after : core.commitStatus = .squashAfterPending
      · simp [trap, threadContext, after]
      · left
        simp only [trap, threadContext, after, Bool.false_eq_true, ↓reduceIte, true_and]
        exact ⟨by simpa using trap, by simpa using threadContext, after⟩

theorem tick_cases {fromIEW : IewStruct} {fromRename : List Nat}
    (accepted : core.tick config env fromIEW fromRename = .ok final) :
    ∃ done : Core, final = done.markCompletedInsts fromIEW ∧
      let checked := (core.continueSquash config).checkForInterrupts config env
      let squashed := checked.handleSquashes config fromIEW
      (squashed.commitStatus = .robSquashing ∧ done = squashed) ∨
      (squashed.commitStatus ≠ .robSquashing ∧
        ∃ filled, squashed.getInsts config fromRename = .ok filled ∧
          filled.commitInsts config env = .ok done) := by
  unfold tick at accepted
  split at accepted
  · cases accepted
  · next done committed =>
    cases accepted
    refine ⟨done, rfl, ?_⟩
    unfold commit at committed
    simp only at committed
    split at committed
    · next squashing =>
      cases committed
      exact .inl ⟨squashing, rfl⟩
    · next running =>
      split at committed
      · cases committed
      · next filled got => exact .inr ⟨running, filled, got, committed⟩

theorem handleSquashes_running {fromIEW : IewStruct}
    (running : (core.handleSquashes config fromIEW).commitStatus ≠ .robSquashing) :
    core.handleSquashes config fromIEW = core ∧ core.NoOwnSquash ∧
      core.acceptsSquash fromIEW = false := by
  unfold handleSquashes at running ⊢
  simp only at running ⊢
  split at running
  · exact absurd rfl running
  · next refused =>
    rcases ownSquashes_cases config core with ⟨same, quiet⟩ | ⟨_, own⟩ | ⟨_, _, own⟩ |
      ⟨_, _, _, own⟩
    · rw [same] at refused ⊢
      exact ⟨if_neg refused, quiet, by simpa using refused⟩
    · rw [own] at running
      exact absurd rfl running
    · rw [own] at running
      exact absurd rfl running
    · rw [own] at running
      exact absurd rfl running

end Runahead.O3.Core
