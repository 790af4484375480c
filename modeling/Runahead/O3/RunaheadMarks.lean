import Runahead.O3.Frame
import Mathlib.Data.List.FinRange

/-!
# The runahead marks of the ROB

The commit stage with any number of threads, at any moment of a cycle. The parts
of `Commit::tick` are run for a thread in any order, and instructions come from
rename with any delay. The other stages are unknown, except that none changes a
ROB or the mode or takes a mark away: `resetRunaheadInst` has no caller.
-/

set_option autoImplicit false

namespace Runahead.O3

open Library List

namespace Core

variable {config : Config} {env : CommitEnv} {core next : Core} {otherRobs : List Nat}

def Marked (otherRobs : List Nat) (core : Core) : Prop :=
  core.inRunahead = true → ∀ inst ∈ core.rob.instList ++ otherRobs,
    (core.insts inst).runaheadInst = true

namespace Marked

section

variable (marked : core.Marked otherRobs)
include marked

theorem of_frame (frame : core.CoreFrame next)
    (mode : next.inRunahead = true → core.inRunahead = true)
    (rob : next.rob.instList ⊆ core.rob.instList) : next.Marked otherRobs := by
  intro inside inst member
  apply (frame.insts inst).marked
  exact marked (mode inside) inst ((mem_append.mp member).elim
    (fun own => mem_append_left _ (rob own)) (mem_append_right _))

theorem broadcastSquash (squashedInst youngest : Nat)
    (pc : Addr) : (core.broadcastSquash config squashedInst youngest pc).Marked otherRobs := by
  have same := Rob.squash_instList config.squashWidth core.insts core.rob squashedInst
  exact marked.of_frame (.of_squashesOnly rfl rfl rfl (.of_squash _ _ _ _)) id
    (fun _ member => same ▸ member)

theorem handleSquashes (fromIEW : IewStruct) :
    (core.handleSquashes config fromIEW).Marked otherRobs := by
  have own : (core.ownSquashes config).Marked otherRobs := by
    rcases ownSquashes_cases config core with
      ⟨same, _⟩ | ⟨_, same⟩ | ⟨_, _, same⟩ | ⟨_, _, _, same⟩ <;> rw [same]
    · exact marked
    all_goals exact marked.broadcastSquash core.squashAllSeqNum core.lastCommitedSeqNum core.pc
  unfold Core.handleSquashes
  simp only
  split
  · exact own.broadcastSquash _ _ _
  · exact own

theorem continueSquash :
    (core.continueSquash config).Marked otherRobs := by
  have frame := CoreFrame.continueSquash config core
  refine marked.of_frame frame ?_ ?_ <;> unfold Core.continueSquash <;> repeat' split
  all_goals first | exact id | exact Subset.refl _ | simp

theorem getInst {inst : Nat}
    (accepted : core.getInst config inst = .ok next) : next.Marked otherRobs := by
  have frame := CoreFrame.getInst accepted
  rcases getInst_cases accepted with ⟨rfl, _⟩ | ⟨rfl, _⟩
  · exact marked
  · intro inside other member
    have inside : core.inRunahead = true := inside
    by_cases new : other = inst
    · simp [new, inserted, inside, DynInst.setRunaheadInst]
    · apply (frame.insts other).marked
      apply marked inside
      simpa [inserted, new] using member

/-- In the mode a head either stays or is pseudo-retired. -/
theorem headStep (step : HeadStep env core next)
    (outside : ∀ head, core.rob.readHeadInst = some head → core.entersRunahead head = false) :
    next.Marked otherRobs := by
  intro inside
  have frame := CoreFrame.headStep step
  cases step with
  | stay | invalidate => exact marked.of_frame frame id (Subset.refl _) inside
  | enter atHead enters => exact clash (outside _ (by simp [Rob.readHeadInst, atHead])) enters
  | pseudoRetire _ _ which =>
    rcases which with rfl | rfl
    · exact marked.of_frame frame id (tail_sublist _).subset inside
    · exact marked.of_frame frame id (tail_sublist _).subset inside
  | dropSquashed _ normalMode => exact clash normalMode inside
  | hold _ readyHead | release _ readyHead | trap _ readyHead =>
    exact clash readyHead.normalMode inside
  | @commit head _ _ readyHead =>
    obtain ⟨_, _, _, same⟩ := afterCommit_cases env
      (commitInst { core with pc := (core.insts head).pc } head) head
    rw [same] at inside
    exact clash readyHead.normalMode inside

theorem not_entersRunahead {head : Nat}
    (mode : core.inRunahead = true) (atHead : core.rob.readHeadInst = some head) :
    core.entersRunahead head = false := by
  have := marked mode head (mem_append_left _ (mem_of_head? atHead))
  simp [entersRunahead, this]

theorem processHead {numCommitted : Nat} {step : LoopStep}
    (accepted : core.processHead env otherRobs numCommitted = .ok step) :
    step.result.Marked otherRobs := by
  cases found : core.rob.readHeadInst with
  | none =>
    simp only [Core.processHead, found, Except.ok.injEq] at accepted
    subst accepted
    exact marked
  | some head =>
    by_cases enters : core.entersRunahead head = true
    · simp only [Core.processHead, found, enters, ↓reduceIte] at accepted
      cases entered : core.enterRunaheadMode otherRobs head with
      | error failure => simp [entered, Except.map] at accepted
      | ok next =>
        simp only [entered, Except.map, Except.ok.injEq] at accepted
        subst accepted
        obtain ⟨_, _, insts, inv, rfl, _, all, _⟩ := enterRunaheadMode_cases entered
        exact fun _ => all
    · -- only an entry looks at the other threads
      have alone : core.processHead env [] numCommitted = .ok step := by
        simpa only [Core.processHead, found, enters, Bool.false_eq_true, ↓reduceIte] using accepted
      refine marked.headStep (processHead_step alone) fun other atHead => ?_
      rw [found] at atHead
      cases atHead
      simpa using enters

end

end Marked

/-- `enterRunaheadMode` is called only where its assertion holds. -/
theorem processHead_asserts (marked : core.Marked otherRobs) (numCommitted : Nat) :
    core.processHead env otherRobs numCommitted ≠ .error .alreadyInRunahead := by
  intro failed
  unfold processHead at failed
  split at failed
  · cases failed
  · next head atHead =>
    split at failed
    · next enters =>
      have normal : core.inRunahead ≠ true := fun mode =>
        clash (marked.not_entersRunahead mode atHead) enters
      simp only [enterRunaheadMode, normal, Bool.false_eq_true, ↓reduceIte] at failed
      split at failed <;> cases failed
    · repeat' split at failed
      all_goals cases failed

/-- The parts of `Commit::tick` that concern one thread. -/
inductive Part where
  | continueSquash
  | checkForInterrupts (env : CommitEnv)
  | handleSquashes (fromIEW : IewStruct)
  | getInst (inst : Nat)
  | handleInterrupt (env : CommitEnv)
  | processHead (env : CommitEnv) (numCommitted : Nat)
  | markCompletedInsts (fromIEW : IewStruct)

def runPart (config : Config) (otherRobs : List Nat) (core : Core) :
    Part → Except AssertionFailure Core
  | .continueSquash => .ok (core.continueSquash config)
  | .checkForInterrupts env => .ok (core.checkForInterrupts config env)
  | .handleSquashes fromIEW => .ok (core.handleSquashes config fromIEW)
  | .getInst inst => core.getInst config inst
  | .handleInterrupt env => .ok (core.handleInterrupt env)
  | .processHead env numCommitted =>
    (core.processHead env otherRobs numCommitted).map LoopStep.result
  | .markCompletedInsts fromIEW => .ok (core.markCompletedInsts fromIEW)

theorem Marked.runPart {part : Part} (marked : core.Marked otherRobs)
    (accepted : core.runPart config otherRobs part = .ok next) : next.Marked otherRobs := by
  cases part with
  | continueSquash =>
    cases accepted
    exact marked.continueSquash
  | checkForInterrupts env =>
    cases accepted
    obtain ⟨_, _, same⟩ := checkForInterrupts_eq config env core
    rw [same]
    exact marked
  | handleSquashes fromIEW =>
    cases accepted
    exact marked.handleSquashes fromIEW
  | getInst inst => exact marked.getInst accepted
  | handleInterrupt env =>
    cases accepted
    refine marked.of_frame (.handleInterrupt env core) ?_ ?_ <;> unfold Core.handleInterrupt
    all_goals repeat' split
    all_goals first | exact id | exact Subset.refl _
  | processHead env numCommitted =>
    cases head : core.processHead env otherRobs numCommitted with
    | error failure => simp [Core.runPart, head, Except.map] at accepted
    | ok step =>
      simp only [Core.runPart, head, Except.map, Except.ok.injEq] at accepted
      subst accepted
      exact marked.processHead head
  | markCompletedInsts fromIEW =>
    cases accepted
    exact marked.of_frame (.markCompletedInsts core fromIEW) id (Subset.refl _)

end Core

structure CommitStage (numThreads : Nat) where
  shared : Shared
  thread : Fin numThreads → CommitThread

namespace CommitStage

variable {numThreads : Nat} {config : Config} {pc : Addr} {stage next : CommitStage numThreads}

inductive Event (numThreads : Nat) where
  | commit (tid : Fin numThreads) (part : Core.Part)
  | exitRunaheadMode
  /-- What the other stages make of the data that commit works on. -/
  | others (shared : Shared) (thread : Fin numThreads → CommitThread)

variable (stage)

def core (tid : Fin numThreads) : Core :=
  { toShared := stage.shared, toCommitThread := stage.thread tid }

def otherRobs (tid : Fin numThreads) : List Nat :=
  ((finRange numThreads).filter (· ≠ tid)).flatMap fun other => (stage.thread other).rob.instList

def step (config : Config) (stage : CommitStage numThreads) :
    Event numThreads → Option (CommitStage numThreads)
  | .commit tid part =>
    match (stage.core tid).runPart config (stage.otherRobs tid) part with
    | .ok core => some ⟨core.toShared, Function.update stage.thread tid core.toCommitThread⟩
    | .error _ => none
  | .exitRunaheadMode =>
    if stage.shared.inRunahead then
      some { stage with shared := { stage.shared with inRunahead := false } }
    else none
  | .others shared thread => some {
      shared := { shared with
        inRunahead := stage.shared.inRunahead
        insts := fun inst => { shared.insts inst with
          runaheadInst := (stage.shared.insts inst).runaheadInst ||
            (shared.insts inst).runaheadInst } }
      thread := fun tid => { thread tid with rob := (stage.thread tid).rob } }

def initial (config : Config) (pc : Addr) : CommitStage numThreads :=
  let core := (State.initial config pc).core
  ⟨core.toShared, fun _ => core.toCommitThread⟩

def Marked : Prop :=
  stage.shared.inRunahead = true → ∀ tid, ∀ inst ∈ (stage.thread tid).rob.instList,
    (stage.shared.insts inst).runaheadInst = true

variable {stage}

theorem mem_otherRobs {tid : Fin numThreads} {inst : Nat} : inst ∈ stage.otherRobs tid ↔
    ∃ other, other ≠ tid ∧ inst ∈ (stage.thread other).rob.instList := by
  simp [otherRobs]

theorem Marked.core (marked : stage.Marked) (tid : Fin numThreads) :
    (stage.core tid).Marked (stage.otherRobs tid) := by
  intro mode inst member
  rcases mem_append.mp member with own | elsewhere
  · exact marked mode tid inst own
  · obtain ⟨other, _, member⟩ := mem_otherRobs.mp elsewhere
    exact marked mode other inst member

theorem step_marked {event : Event numThreads} (marked : stage.Marked)
    (stepped : stage.step config event = some next) : next.Marked := by
  cases event with
  | commit tid part =>
    simp only [step] at stepped
    split at stepped
    case h_2 => cases stepped
    next core ran =>
    cases stepped
    have after := (marked.core tid).runPart ran
    intro mode other inst member
    apply after mode
    by_cases own : other = tid
    · subst own
      simp only [Function.update_self] at member
      exact mem_append_left _ member
    · simp only [Function.update_of_ne own] at member
      exact mem_append_right _ (mem_otherRobs.mpr ⟨other, own, member⟩)
  | exitRunaheadMode =>
    obtain ⟨_, rfl⟩ := fired stepped
    rintro ⟨⟩
  | others shared thread =>
    cases stepped
    intro mode tid inst member
    exact Bool.or_eq_true_iff.mpr (.inl (marked mode tid inst member))

/-- No instruction of a ROB can make commit enter runahead mode again before the exit. -/
theorem runahead_rob_marked
    (reached : Reaches (step config) anyEvent (initial config pc) stage) (tid : Fin numThreads) :
    (stage.shared.inRunahead = true →
      (∀ inst ∈ (stage.thread tid).rob.instList, (stage.shared.insts inst).runaheadInst = true) ∧
      ∀ head, (stage.thread tid).rob.readHeadInst = some head →
        (stage.core tid).entersRunahead head = false) ∧
    ∀ env numCommitted, (stage.core tid).processHead env (stage.otherRobs tid) numCommitted ≠
      .error .alreadyInRunahead := by
  have marked : stage.Marked := reached.invariant (by rintro ⟨⟩) fun marked _ => step_marked marked
  refine ⟨fun mode => ⟨marked mode tid, fun head atHead => ?_⟩, fun env numCommitted => ?_⟩
  · exact (marked.core tid).not_entersRunahead mode atHead
  · exact Core.processHead_asserts (marked.core tid) numCommitted

/-- A load of the first thread misses in L2 and makes commit enter the mode; the second
thread holds an instruction at that time and is given another one. -/
theorem runahead_rob_marked_threads : ∃ stage : CommitStage 2,
    stage.shared.inRunahead = true ∧ (stage.thread 1).rob.instList = [2, 3] ∧
      ∀ inst ∈ (stage.thread 1).rob.instList, (stage.shared.insts inst).runaheadInst = true := by
  let config : Config := ⟨8, 1, 1, 1, false, fun _ => 1, fun _ => 2⟩
  let start : CommitStage 2 := initial config 0
  obtain ⟨stage, reached, observed⟩ := reaches_of_observed (step config) anyEvent start
    [.others { start.shared with insts := fun inst =>
        { missedInL2 := inst = 1, outstandingReqs := [0] } } start.thread,
      .commit 0 (.getInst 1), .commit 1 (.getInst 2), .commit 0 (.processHead {} 0),
      .commit 1 (.getInst 3)]
    (fun stage => decide (stage.shared.inRunahead = true ∧
      (stage.thread 1).rob.instList = [2, 3])) (by decide +kernel)
  obtain ⟨mode, members⟩ := of_decide_eq_true observed
  exact ⟨stage, mode, members, ((runahead_rob_marked reached 1).1 mode).1⟩

end CommitStage

end Runahead.O3
