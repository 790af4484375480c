import Runahead.O3.InstQueueWriteback

/-!
# Wake-up in the instruction queue

The queue together with rename's scoreboard and the instructions on their way
from rename to dispatch. Rename marks the sources that its scoreboard knows as
ready; a source that becomes ready on the way is found by `addToDependents` on the
queue's own scoreboard. The two scoreboards disagree about a register between the
rename and the dispatch of its producer.

`producer` and the lists of instructions are a record of the run.
-/

set_option autoImplicit false

namespace Runahead.O3

open Library List

structure WakeupConfig where
  iq : IqConfig
  /-- The index of the integer register that is never renamed. -/
  zeroReg : Nat

structure Wakeup where
  queue : InstructionQueue
  scoreboard : PhysRegId → Bool
  /-- What has been renamed and not yet dispatched, oldest first. -/
  toDispatch : List (Nat × IqInst)
  /-- The instruction to which a register was last given. -/
  producer : PhysRegId → Option Nat
  renamed : List Nat
  dispatched : List Nat
  wroteBack : List Nat
  committed : List Nat

inductive WakeupEvent where
  | rename (inst : Nat) (staticInst : StaticInst) (tid : ThreadID) (sources dests : List PhysRegId)
  | dispatch (tid : ThreadID) (producingStores : List Nat)
  /-- Squashed instructions are dropped on the way to dispatch. -/
  | drop (tid : ThreadID) (seqNum : Nat)
  /-- Any event of the queue other than a dispatch. -/
  | queue (event : IqEvent)
  deriving DecidableEq, Repr

namespace Wakeup

variable (config : WakeupConfig) {state next : Wakeup}

def isZeroReg (reg : PhysRegId) : Bool :=
  reg.regClass = .int && reg.index = config.zeroReg

def isAllocated (reg : PhysRegId) : Bool :=
  !reg.isFixedMapping && !isZeroReg config reg

def isGiven (dests : List PhysRegId) (reg : PhysRegId) : Bool :=
  dests.contains reg && isAllocated config reg

/-! ## Scoreboard -/

variable (board : PhysRegId → Bool)

def getReg (reg : PhysRegId) : Bool := reg.isFixedMapping || board reg

def setReg (reg : PhysRegId) : PhysRegId → Bool :=
  if reg.isFixedMapping then board else Function.update board reg true

def unsetReg (reg : PhysRegId) : PhysRegId → Bool :=
  if reg.isFixedMapping then board
  else if isZeroReg config reg then board
  else Function.update board reg false

/-! ## Steps -/

variable (state)

def rename (inst : Nat) (staticInst : StaticInst)
    (tid : ThreadID) (sources dests : List PhysRegId) : Wakeup :=
  let renamed := IqInst.renamed staticInst tid
    (sources.map fun reg => { reg := reg, ready := getReg state.scoreboard reg }) dests
  { state with
    toDispatch := state.toDispatch ++ [(inst, renamed)]
    scoreboard := dests.foldl (unsetReg config) state.scoreboard
    producer := fun reg =>
      if isGiven config dests reg then some inst else state.producer reg
    renamed := state.renamed ++ [inst] }

def dispatchedTo (entry : Nat × IqInst) (queue : InstructionQueue) : Wakeup :=
  { state with
    queue := queue
    toDispatch := state.toDispatch.erase entry
    dispatched := state.dispatched ++ [entry.1] }

def dispatch (config : WakeupConfig) (state : Wakeup) (tid : ThreadID)
    (producingStores : List Nat) : Option Wakeup :=
  match state.toDispatch.find? fun entry => entry.2.threadNumber = tid with
  | none => none
  | some entry =>
    (state.queue.step config.iq (.dispatch entry.1 entry.2 producingStores)).map
      (state.dispatchedTo entry)

def commits : IqEvent → List Nat
  | .commit tid seqNum => (state.queue.instList tid).takeWhile fun inst => decide (inst ≤ seqNum)
  | _ => []

/-- `IEW::squash` drops everything that is on its way to dispatch. -/
def survivors : IqEvent → List (Nat × IqInst)
  | .squash tid _ => state.toDispatch.filter fun entry => entry.2.threadNumber ≠ tid
  | _ => state.toDispatch

/-- The state after an event of the queue; `writebackInsts` tells rename's scoreboard as well. -/
def queuedTo (event : IqEvent) (queue : InstructionQueue) : Wakeup :=
  { state with
    queue := queue
    scoreboard := (state.queue.wakes event).foldl setReg state.scoreboard
    toDispatch := state.survivors event
    wroteBack := state.wroteBack ++ state.queue.writesBack event
    committed := state.committed ++ state.commits event }

def queueStep (event : IqEvent) : Option Wakeup :=
  match event with
  | .dispatch .. => none
  | event => (state.queue.step config.iq event).map (state.queuedTo event)

def step : WakeupEvent → Option Wakeup
  | .rename inst staticInst tid sources dests =>
    some (state.rename config inst staticInst tid sources dests)
  | .dispatch tid producingStores => state.dispatch config tid producingStores
  | .drop tid seqNum =>
    some { state with
      toDispatch := state.toDispatch.filter fun entry =>
        entry.2.threadNumber ≠ tid || decide (entry.1 ≤ seqNum) }
  | .queue event => state.queueStep config event

def initial (config : WakeupConfig) : Wakeup where
  queue := .initial config.iq
  scoreboard _ := true
  toDispatch := []
  producer _ := none
  renamed := []
  dispatched := []
  wroteBack := []
  committed := []

/-! ## The rename discipline -/

def live (inst : Nat) : Bool :=
  state.queue.inserted.contains inst && !(state.queue.insts inst).squashed &&
    !state.committed.contains inst

def uses (inst : IqInst) (reg : PhysRegId) : Bool :=
  inst.sources.contains reg || inst.destRegs.contains reg

def inUse (reg : PhysRegId) : Bool :=
  state.toDispatch.any (fun entry => uses entry.2 reg) ||
    state.queue.inserted.any fun inst => state.live inst && uses (state.queue.insts inst) reg

/-- The value of a source has been written, or its producer is ahead in the same thread. -/
def isKnown (tid : ThreadID) (reg : PhysRegId) : Bool :=
  (state.producer reg).all fun inst =>
    state.wroteBack.contains inst || state.dispatched.contains inst ||
      state.toDispatch.any fun entry => entry.1 = inst && entry.2.threadNumber = tid

/-- Instructions are renamed once and in program order, their destinations are registers
that nobody uses, and their sources are up to date. What commits has written its results. -/
def disciplined : WakeupEvent → Bool
  | .rename inst _ tid sources dests =>
    !state.renamed.contains inst &&
    (state.toDispatch.all fun entry => entry.2.threadNumber ≠ tid || decide (entry.1 < inst)) &&
    (dests.all fun reg =>
      !isAllocated config reg || !sources.contains reg && !state.inUse reg) &&
    sources.all (state.isKnown tid)
  | .queue (.commit tid seqNum) =>
    (state.commits (.commit tid seqNum)).all fun inst =>
      (state.queue.insts inst).squashed || state.wroteBack.contains inst
  | _ => true

def written (reg : PhysRegId) : Bool :=
  (state.producer reg).all fun inst => state.wroteBack.contains inst

/-! ## Invariant -/

/-- Instructions are renamed, dispatched and committed in this order. -/
structure Flow (config : WakeupConfig) (state : Wakeup) : Prop where
  conserved : state.queue.Conserved config.iq
  once : state.queue.WroteBack state.wroteBack
  queued : ∀ entry ∈ state.toDispatch, entry.1 ∈ state.renamed ∧ entry.1 ∉ state.dispatched
  dispatched : ∀ inst ∈ state.dispatched, inst ∈ state.renamed
  inserted : ∀ inst ∈ state.queue.inserted, inst ∈ state.dispatched
  order : state.toDispatch.Pairwise fun first second =>
    first.1 ≠ second.1 ∧ (first.2.threadNumber = second.2.threadNumber → first.1 < second.1)
  committed : ∀ inst ∈ state.committed, inst ∈ state.queue.inserted ∧
    ((state.queue.insts inst).squashed = true ∨ inst ∈ state.wroteBack)

/-- Who writes a register, and what the scoreboards say about it. -/
structure Allocation (config : WakeupConfig) (state : Wakeup) : Prop where
  scoreboard : ∀ reg, state.scoreboard reg = state.written reg
  allocated : ∀ reg inst, state.producer reg = some inst →
    isAllocated config reg = true ∧ inst ∈ state.renamed
  queuedOwner : ∀ reg, ∀ entry ∈ state.toDispatch, state.producer reg = some entry.1 →
    reg ∈ entry.2.destRegs
  owner : ∀ reg, ∀ inst ∈ state.queue.inserted, state.producer reg = some inst →
    reg ∈ (state.queue.insts inst).destRegs
  queuedWriter : ∀ reg, isAllocated config reg = true → ∀ entry ∈ state.toDispatch,
    reg ∈ entry.2.destRegs → state.producer reg = some entry.1
  writer : ∀ reg, isAllocated config reg = true → ∀ inst, state.live inst = true →
    reg ∈ (state.queue.insts inst).destRegs → state.producer reg = some inst
  /-- From the dispatch of its producer on, the scoreboards agree about a register. -/
  agrees : ∀ reg inst, state.producer reg = some inst → inst ∈ state.dispatched →
    state.queue.regScoreboard reg = state.written reg

/-- What is known about the source of an instruction on its way to dispatch. -/
structure OnTheWay (state : Wakeup) (entry : Nat × IqInst) (operand : SrcOperand) : Prop where
  ready : operand.ready = true → state.written operand.reg = true
  unready : operand.ready = false → operand.reg.isFixedMapping = false ∧
    ∃ inst, state.producer operand.reg = some inst ∧ (inst ∈ state.dispatched ∨
      ∃ ahead ∈ state.toDispatch, ahead.1 = inst ∧ inst < entry.1 ∧
        ahead.2.threadNumber = entry.2.threadNumber)

structure Operands (state : Wakeup) : Prop where
  queued : ∀ entry ∈ state.toDispatch, ∀ operand ∈ entry.2.srcRegs, state.OnTheWay entry operand
  sourced : ∀ inst, state.live inst = true →
    (state.queue.insts inst).staticInst.needsRelease = false →
    state.queue.Sourced state.written inst
  told : ∀ inst, state.queue.Told inst

structure Inv (config : WakeupConfig) (state : Wakeup) : Prop where
  flow : state.Flow config
  allocation : state.Allocation config
  operands : state.Operands

variable {state}

theorem live_iff {inst : Nat} : state.live inst = true ↔ inst ∈ state.queue.inserted ∧
    (state.queue.insts inst).squashed = false ∧ inst ∉ state.committed := by
  simp [live, and_assoc]

variable {config}

theorem isGiven_iff {dests : List PhysRegId} {reg : PhysRegId} :
    isGiven config dests reg = true ↔ reg ∈ dests ∧ isAllocated config reg = true := by
  simp [isGiven]

theorem setRegs_apply (regs : List PhysRegId) (board : PhysRegId → Bool) (reg : PhysRegId) :
    (regs.foldl setReg board) reg = (board reg || regs.contains reg && !reg.isFixedMapping) := by
  induction regs generalizing board with
  | nil => simp
  | cons other rest ih =>
    rw [foldl_cons, ih, setReg]
    by_cases same : reg = other
    · subst same
      cases constant : reg.isFixedMapping <;> simp
    · split <;> simp [same]

theorem unsetRegs_apply (regs : List PhysRegId) (board : PhysRegId → Bool) (reg : PhysRegId) :
    (regs.foldl (unsetReg config) board) reg =
      (board reg && !isGiven config regs reg) := by
  induction regs generalizing board with
  | nil => simp [isGiven]
  | cons other rest ih =>
    rw [foldl_cons, ih, unsetReg]
    by_cases same : reg = other
    · subst same
      cases constant : reg.isFixedMapping <;> cases zero : isZeroReg config reg <;>
        simp [isGiven, isAllocated, constant, zero]
    · split
      · simp [isGiven, same]
      · split <;> simp [isGiven, same]

theorem Allocation.written_of_not_allocated (allocation : state.Allocation config)
    {reg : PhysRegId} (fixed : isAllocated config reg = false) : state.written reg = true := by
  unfold written
  cases produced : state.producer reg with
  | none => rfl
  | some inst => exact clash (allocation.allocated reg inst produced).1 fixed

theorem initial_inv (config : WakeupConfig) : (initial config).Inv config := by
  refine ⟨⟨?_, ?_, ?_, ?_, ?_, .nil, ?_⟩, ⟨?_, ?_, ?_, ?_, ?_, ?_, ?_⟩, ⟨?_, ?_, ?_⟩⟩
  · exact InstructionQueue.reachable_conserved (Reaches.refl : Reaches _ anyEvent _ _)
  · constructor <;> simp [initial, InstructionQueue.initial]
  all_goals simp [initial, InstructionQueue.initial, written, live, InstructionQueue.Told]

/-! ## Rename -/

section Rename

variable {inst : Nat} {staticInst : StaticInst} {tid : ThreadID} {sources dests : List PhysRegId}

structure Renames (config : WakeupConfig) (state : Wakeup) (inst : Nat) (tid : ThreadID)
    (sources dests : List PhysRegId) : Prop where
  new : inst ∉ state.renamed
  youngest : ∀ entry ∈ state.toDispatch, entry.2.threadNumber = tid → entry.1 < inst
  notSource : ∀ reg, isGiven config dests reg = true → reg ∉ sources
  free : ∀ reg, isGiven config dests reg = true → state.inUse reg = false
  known : ∀ reg ∈ sources, state.isKnown tid reg = true

theorem renames_of_disciplined
    (admitted : disciplined config state (.rename inst staticInst tid sources dests) = true) :
    Renames config state inst tid sources dests := by
  simp only [disciplined, Bool.and_eq_true, all_eq_true, Bool.or_eq_true, Bool.not_eq_true',
    contains_eq_mem, decide_eq_false_iff_not, decide_eq_true_eq] at admitted
  obtain ⟨⟨⟨new, youngest⟩, fresh⟩, known⟩ := admitted
  refine ⟨new, fun entry member same => (youngest entry member).resolve_left
    fun other => other same,
    fun reg given => ?_, fun reg given => ?_, known⟩
  · obtain ⟨member, allocated⟩ := isGiven_iff.mp given
    exact ((fresh reg member).resolve_left (by simp [allocated])).1
  · obtain ⟨member, allocated⟩ := isGiven_iff.mp given
    exact ((fresh reg member).resolve_left (by simp [allocated])).2

variable {reg : PhysRegId}

theorem not_inUse_queued (free : state.inUse reg = false)
    {entry : Nat × IqInst} (member : entry ∈ state.toDispatch) :
    reg ∉ entry.2.sources ∧ reg ∉ entry.2.destRegs := by
  have unused := (Bool.or_eq_false_iff.mp free).1
  rw [any_eq_false] at unused
  simpa [uses] using unused entry member

theorem not_inUse_live (free : state.inUse reg = false)
    {other : Nat} (alive : state.live other = true) :
    reg ∉ (state.queue.insts other).sources ∧ reg ∉ (state.queue.insts other).destRegs := by
  have unused := (Bool.or_eq_false_iff.mp free).2
  rw [any_eq_false] at unused
  simpa [uses, alive] using unused other (live_iff.mp alive).1

theorem Flow.not_wroteBack (flow : state.Flow config) (new : inst ∉ state.renamed) :
    inst ∉ state.wroteBack := fun written =>
  new (flow.dispatched inst (flow.inserted inst (flow.once.inserted inst (.inl written))))

theorem rename_written (flow : state.Flow config) (new : inst ∉ state.renamed) (reg : PhysRegId) :
    (state.rename config inst staticInst tid sources dests).written reg =
      (state.written reg && !isGiven config dests reg) := by
  have unwritten := flow.not_wroteBack new
  simp only [written, rename]
  cases isGiven config dests reg <;> simp [unwritten]

theorem rename_flow (flow : state.Flow config)
    (renames : Renames config state inst tid sources dests) :
    (state.rename config inst staticInst tid sources dests).Flow config := by
  refine { flow with
    queued := fun entry member => ?_
    dispatched := fun other member => mem_append_left _ (flow.dispatched other member)
    order := ?_ }
  · rcases mem_append.mp member with before | here
    · exact ⟨mem_append_left _ (flow.queued entry before).1, (flow.queued entry before).2⟩
    · cases mem_singleton.mp here
      exact ⟨mem_append_right _ (mem_singleton.mpr rfl),
        fun dispatched => renames.new (flow.dispatched inst dispatched)⟩
  · refine pairwise_append.mpr ⟨flow.order, pairwise_singleton _ _,
      fun entry member last here => ?_⟩
    cases mem_singleton.mp here
    refine ⟨?_, fun same => renames.youngest entry member same⟩
    rintro rfl
    exact renames.new (flow.queued entry member).1

theorem rename_producer_of_free (renames : Renames config state inst tid sources dests)
    (used : state.inUse reg = false → False) :
    (state.rename config inst staticInst tid sources dests).producer reg = state.producer reg := by
  refine if_neg fun given => used (renames.free reg given)

theorem rename_producer {other : Nat} (different : other ≠ inst)
    (produced : (state.rename config inst staticInst tid sources dests).producer reg = some other) :
    state.producer reg = some other ∧ isGiven config dests reg = false := by
  simp only [rename] at produced
  split at produced
  · exact absurd (Option.some.inj produced).symm different
  · next others => exact ⟨produced, Bool.of_not_eq_true others⟩

theorem rename_allocation (flow : state.Flow config) (allocation : state.Allocation config)
    (renames : Renames config state inst tid sources dests) :
    (state.rename config inst staticInst tid sources dests).Allocation config := by
  have old {other : Nat} (member : other ∈ state.dispatched) : other ≠ inst := by
    rintro rfl
    exact renames.new (flow.dispatched _ member)
  have queuedOld {entry : Nat × IqInst} (member : entry ∈ state.toDispatch) : entry.1 ≠ inst :=
    fun same => renames.new (same ▸ (flow.queued entry member).1)
  constructor
  case scoreboard =>
    intro reg
    rw [rename_written flow renames.new, ← allocation.scoreboard]
    exact unsetRegs_apply dests state.scoreboard reg
  case allocated =>
    intro reg other produced
    by_cases same : other = inst
    · subst same
      refine ⟨?_, mem_append_right _ (mem_singleton.mpr rfl)⟩
      simp only [rename] at produced
      split at produced
      · next given => exact (isGiven_iff.mp given).2
      · exact (allocation.allocated reg other produced).1
    · have before := allocation.allocated reg other (rename_producer same produced).1
      exact ⟨before.1, mem_append_left _ before.2⟩
  case queuedOwner =>
    intro reg entry member produced
    rcases mem_append.mp member with before | here
    · exact allocation.queuedOwner reg entry before (rename_producer (queuedOld before) produced).1
    · cases mem_singleton.mp here
      simp only [rename] at produced
      split at produced
      · next given => exact (isGiven_iff.mp given).1
      · exact absurd (allocation.allocated reg inst produced).2 renames.new
  case owner =>
    intro reg other member produced
    exact allocation.owner reg other member
      (rename_producer (old (flow.inserted other member)) produced).1
  case queuedWriter =>
    intro reg allocated entry member written
    rcases mem_append.mp member with before | here
    · refine (rename_producer_of_free renames fun free => ?_).trans
        (allocation.queuedWriter reg allocated entry before written)
      exact (not_inUse_queued free before).2 written
    · cases mem_singleton.mp here
      exact if_pos (isGiven_iff.mpr ⟨written, allocated⟩)
  case writer =>
    intro reg allocated other alive written
    refine (rename_producer_of_free renames fun free => ?_).trans
      (allocation.writer reg allocated other alive written)
    exact (not_inUse_live free alive).2 written
  case agrees =>
    intro reg other produced member
    obtain ⟨before, others⟩ := rename_producer (old member) produced
    rw [rename_written flow renames.new, others, Bool.not_false, Bool.and_true]
    exact allocation.agrees reg other before member

/-- A register that somebody in flight reads keeps its producer and its value. -/
theorem rename_written_of_used (flow : state.Flow config)
    (renames : Renames config state inst tid sources dests)
    (used : state.inUse reg = false → False) :
    (state.rename config inst staticInst tid sources dests).written reg = state.written reg := by
  have others : isGiven config dests reg = false :=
    Bool.of_not_eq_true fun given => used (renames.free reg given)
  rw [rename_written flow renames.new, others, Bool.not_false, Bool.and_true]

theorem rename_operands (flow : state.Flow config) (allocation : state.Allocation config)
    (operands : state.Operands) (renames : Renames config state inst tid sources dests) :
    (state.rename config inst staticInst tid sources dests).Operands := by
  refine ⟨fun entry member operand source => ?_, fun other alive speculative => ?_, operands.told⟩
  · rcases mem_append.mp member with before | here
    · have onTheWay := operands.queued entry before operand source
      have used : state.inUse operand.reg = false → False := fun free =>
        (not_inUse_queued free before).1 (mem_map_of_mem source)
      refine ⟨fun ready => ?_, fun unready => ?_⟩
      · rw [rename_written_of_used flow renames used]
        exact onTheWay.ready ready
      · obtain ⟨fixed, producer, produced, ahead⟩ := onTheWay.unready unready
        refine ⟨fixed, producer, (rename_producer_of_free renames used).trans produced,
          ahead.imp_right ?_⟩
        rintro ⟨first, queued, rest⟩
        exact ⟨first, mem_append_left _ queued, rest⟩
    · cases mem_singleton.mp here
      obtain ⟨reg, member, rfl⟩ := mem_map.mp source
      have others : isGiven config dests reg = false :=
        Bool.of_not_eq_true fun given => renames.notSource reg given member
      refine ⟨fun ready => ?_, fun unready => ?_⟩
      · change (state.rename config inst staticInst tid sources dests).written reg = true
        rw [rename_written flow renames.new, others, Bool.not_false, Bool.and_true]
        rcases Bool.or_eq_true_iff.mp ready with constant | ready
        · exact allocation.written_of_not_allocated (by simp [isAllocated, constant])
        · exact allocation.scoreboard reg ▸ ready
      · obtain ⟨fixed, unwritten⟩ := Bool.or_eq_false_iff.mp unready
        rw [allocation.scoreboard] at unwritten
        refine ⟨fixed, ?_⟩
        cases produced : state.producer reg with
        | none => simp [written, produced] at unwritten
        | some producer =>
          have known := renames.known reg member
          simp only [isKnown, written, produced, Option.all_some,
            Bool.or_eq_true] at known unwritten
          refine ⟨producer, (if_neg (by simp [others])).trans produced, ?_⟩
          rcases known with (written | dispatched) | ahead
          · exact clash unwritten written
          · exact .inl (contains_iff_mem.mp dispatched)
          · obtain ⟨first, queued, here⟩ := any_eq_true.mp ahead
            simp only [Bool.and_eq_true, decide_eq_true_eq] at here
            obtain ⟨rfl, thread⟩ := here
            exact .inr ⟨first, mem_append_left _ queued, rfl,
              renames.youngest first queued thread, thread⟩
  · refine (operands.sourced other alive speculative).congr fun reg member => ?_
    exact rename_written_of_used flow renames fun free => (not_inUse_live free alive).1 member

theorem rename_inv (inv : state.Inv config)
    (admitted : disciplined config state (.rename inst staticInst tid sources dests) = true) :
    (state.rename config inst staticInst tid sources dests).Inv config := by
  have renames := renames_of_disciplined admitted
  exact ⟨rename_flow inv.flow renames, rename_allocation inv.flow inv.allocation renames,
    rename_operands inv.flow inv.allocation inv.operands renames⟩

end Rename

/-! ## Dispatch -/

section Dispatch

open InstructionQueue

variable {tid : ThreadID} {entry : Nat × IqInst} {producingStores : List Nat}
  {queue : InstructionQueue}

structure Dispatches (config : WakeupConfig) (state : Wakeup) (entry : Nat × IqInst)
    (queue : InstructionQueue) : Prop where
  conserved : queue.Conserved config.iq
  once : queue.WroteBack state.wroteBack
  new : entry.1 ∉ state.queue.inserted
  leaves : LeavesOthers entry.1 state.queue queue
  regScoreboard : ∀ reg, queue.regScoreboard reg = (state.queue.regScoreboard reg &&
    !(entry.2.destRegs.contains reg && !reg.isFixedMapping))
  core : entry.1 ∈ queue.inserted → (queue.insts entry.1).core = entry.2.core
  sourced : entry.1 ∈ queue.inserted → (queue.insts entry.1).staticInst.needsRelease = false →
    queue.Sourced state.written entry.1
  told : queue.Told entry.1

theorem Dispatches.inserted (dispatches : Dispatches config state entry queue) {inst : Nat}
    (present : inst ∈ queue.inserted) :
    inst = entry.1 ∨ inst ≠ entry.1 ∧ inst ∈ state.queue.inserted := by
  by_cases same : inst = entry.1
  · exact .inl same
  · exact .inr ⟨same, (dispatches.leaves.inserted inst same).mp present⟩

theorem Dispatches.live (dispatches : Dispatches config state entry queue) {inst : Nat}
    (alive : (state.dispatchedTo entry queue).live inst = true) :
    inst = entry.1 ∧ inst ∈ queue.inserted ∨ inst ≠ entry.1 ∧ state.live inst = true := by
  obtain ⟨present, alive, active⟩ := live_iff.mp alive
  rcases dispatches.inserted present with same | ⟨different, before⟩
  · exact .inl ⟨same, present⟩
  · refine .inr ⟨different, live_iff.mpr ⟨before, ?_, active⟩⟩
    rw [← dispatches.leaves.insts inst different]
    exact alive

section Found

variable (found : (state.toDispatch.find? fun entry => entry.2.threadNumber = tid) = some entry)
include found

theorem Flow.first (flow : state.Flow config) :
    (state.toDispatch.erase entry).Pairwise (fun first second => first.1 ≠ second.1 ∧
      (first.2.threadNumber = second.2.threadNumber → first.1 < second.1)) ∧
    ∀ other ∈ state.toDispatch.erase entry, other ∈ state.toDispatch ∧ other.1 ≠ entry.1 ∧
      (other.2.threadNumber = entry.2.threadNumber → entry.1 < other.1) := by
  obtain ⟨thread, before, after, split, others⟩ := find?_eq_some_iff_append.mp found
  have order := flow.order
  have absent : entry ∉ before := by
    intro member
    have := others entry member
    simp_all
  have erased : state.toDispatch.erase entry = before ++ after := by
    rw [split, erase_append_right _ absent, erase_cons_head]
  refine ⟨order.sublist erase_sublist, fun other member => ?_⟩
  refine ⟨mem_of_mem_erase member, ?_⟩
  rw [split, pairwise_append, pairwise_cons] at order
  obtain ⟨_, ⟨later, _⟩, apart⟩ := order
  rw [erased] at member
  rcases mem_append.mp member with earlier | last
  · refine ⟨(apart other earlier entry mem_cons_self).1, fun same => ?_⟩
    have := others other earlier
    simp_all
  · have follows := later other last
    exact ⟨Ne.symm follows.1, fun same => follows.2 same.symm⟩

/-- The sources of the oldest entry of a thread are in order when it is dispatched. -/
theorem Flow.agrees (flow : state.Flow config) (allocation : state.Allocation config)
    (operands : state.Operands) :
    Agrees state.written state.queue.regScoreboard entry.2.srcRegs := by
  have queued : entry ∈ state.toDispatch := mem_of_find?_eq_some found
  refine ⟨fun operand member => (operands.queued entry queued operand member).ready,
    fun operand member unready => ?_⟩
  obtain ⟨fixed, inst, produced, ahead⟩ :=
    (operands.queued entry queued operand member).unready unready
  refine ⟨fixed, allocation.agrees operand.reg inst produced ?_⟩
  refine ahead.resolve_right ?_
  rintro ⟨first, member, rfl, older, thread⟩
  have different : first ≠ entry := by
    rintro rfl
    exact Nat.lt_irrefl _ older
  have younger := ((flow.first found).2 first ((mem_erase_of_ne different).mpr member)).2.2
  exact Nat.lt_asymm older (younger thread)

variable {board}

theorem dispatches_of_step (inv : state.Inv config)
    (stepped : state.queue.step config.iq (.dispatch entry.1 entry.2
      producingStores) = some queue) :
    Dispatches config state entry queue := by
  obtain ⟨flow, allocation, operands⟩ := inv
  have conserved := flow.conserved
  have once := step_wroteBack conserved flow.once stepped
  have kept : queue.Conserved config.iq :=
    ⟨step_entryInv conserved stepped, step_listed conserved stepped⟩
  obtain ⟨new, stepped⟩ := Option.ite_none_right_eq_some.mp stepped
  have new := (mem_of_isNew new).1
  have absent (reg : PhysRegId) : state.queue.dependGraph.count (reg, entry.1) = 0 := by
    have none := ((conserved.inv.ok entry.1).absent (count_eq_zero.mpr new)).2.2.2.1
    refine count_eq_zero.mpr fun member => ?_
    exact absurd (countP_eq_zero.mp none _ member) (by simp)
  have own := dispatch_sourced new absent (flow.agrees found allocation operands) stepped
  have static (present : entry.1 ∈ queue.inserted) :
      (queue.insts entry.1).staticInst = entry.2.staticInst :=
    congrArg Prod.fst (own present).1
  have board := dispatch_regScoreboard stepped
  refine ⟨kept, ?_, new, dispatch_leaves stepped, board, fun present => (own present).1,
    fun present speculative => ((own present).2 (static present ▸ speculative)).1, ?_⟩
  · simpa [writesBack] using once
  · intro present alive speculative
    exact ((own present).2 (static present ▸ speculative)).2 present alive speculative

theorem dispatch_flow (flow : state.Flow config)
    (dispatches : Dispatches config state entry queue) :
    (state.dispatchedTo entry queue).Flow config := by
  obtain ⟨order, others⟩ := flow.first found
  have queued : entry ∈ state.toDispatch := mem_of_find?_eq_some found
  refine ⟨dispatches.conserved, dispatches.once, fun other member => ?_, fun inst member => ?_,
    fun inst present => ?_, order, fun inst member => ?_⟩
  · obtain ⟨before, different, _⟩ := others other member
    refine ⟨(flow.queued other before).1, fun member => ?_⟩
    rcases mem_append.mp member with earlier | now
    · exact (flow.queued other before).2 earlier
    · exact different (mem_singleton.mp now)
  · rcases mem_append.mp member with earlier | now
    · exact flow.dispatched inst earlier
    · exact mem_singleton.mp now ▸ (flow.queued entry queued).1
  · rcases dispatches.inserted present with rfl | ⟨_, before⟩
    · exact mem_append_right _ (mem_singleton.mpr rfl)
    · exact mem_append_left _ (flow.inserted inst before)
  · obtain ⟨present, finished⟩ := flow.committed inst member
    have different : inst ≠ entry.1 := by
      rintro rfl
      exact dispatches.new present
    refine ⟨(dispatches.leaves.inserted inst different).mpr present, ?_⟩
    rwa [← dispatches.leaves.insts inst different] at finished

theorem dispatch_allocation (flow : state.Flow config) (allocation : state.Allocation config)
    (dispatches : Dispatches config state entry queue) :
    (state.dispatchedTo entry queue).Allocation config := by
  have queued : entry ∈ state.toDispatch := mem_of_find?_eq_some found
  have others := (flow.first found).2
  have dests (present : entry.1 ∈ queue.inserted) :
      (queue.insts entry.1).destRegs = entry.2.destRegs :=
    congrArg (fun core => core.2.2.2) (dispatches.core present)
  refine ⟨allocation.scoreboard, allocation.allocated,
    fun reg other member => allocation.queuedOwner reg other (others other member).1,
    fun reg inst present produced => ?_,
    fun reg allocated other member => allocation.queuedWriter reg allocated other
      (others other member).1,
    fun reg allocated inst alive written => ?_, fun reg inst produced member => ?_⟩
  · change reg ∈ (queue.insts inst).destRegs
    rcases dispatches.inserted present with rfl | ⟨different, before⟩
    · rw [dests present]
      exact allocation.queuedOwner reg entry queued produced
    · rw [dispatches.leaves.insts inst different]
      exact allocation.owner reg inst before produced
  · change reg ∈ (queue.insts inst).destRegs at written
    rcases dispatches.live alive with ⟨rfl, present⟩ | ⟨different, before⟩
    · rw [dests present] at written
      exact allocation.queuedWriter reg allocated entry queued written
    · rw [dispatches.leaves.insts inst different] at written
      exact allocation.writer reg allocated inst before written
  · change queue.regScoreboard reg = state.written reg
    have allocated := (allocation.allocated reg inst produced).1
    rw [dispatches.regScoreboard]
    by_cases same : inst = entry.1
    · subst same
      have unwritten : entry.1 ∉ state.wroteBack := fun written =>
        (flow.queued entry queued).2 (flow.inserted _ (flow.once.inserted _ (.inl written)))
      have member := allocation.queuedOwner reg entry queued produced
      have renamed : reg.isFixedMapping = false := by
        simpa using (Bool.and_eq_true_iff.mp allocated).1
      have produced : state.producer reg = some entry.1 := produced
      simp [member, renamed, written, produced, unwritten]
    · have absent : reg ∉ entry.2.destRegs := fun member =>
        same (Option.some.inj (produced.symm.trans
          (allocation.queuedWriter reg allocated entry queued member)))
      have before : inst ∈ state.dispatched :=
        (mem_append.mp member).resolve_right fun now => same (mem_singleton.mp now)
      rw [allocation.agrees reg inst produced before]
      simp [absent]

end Found

theorem dispatch_operands (operands : state.Operands)
    (dispatches : Dispatches config state entry queue) :
    (state.dispatchedTo entry queue).Operands := by
  refine ⟨fun other member operand source => ?_, fun inst alive speculative => ?_, fun inst => ?_⟩
  · have onTheWay := operands.queued other (mem_of_mem_erase member) operand source
    refine ⟨onTheWay.ready, fun unready => ?_⟩
    obtain ⟨fixed, inst, produced, ahead⟩ := onTheWay.unready unready
    refine ⟨fixed, inst, produced, ?_⟩
    rcases ahead with dispatched | ⟨first, queued, rfl, rest⟩
    · exact .inl (mem_append_left _ dispatched)
    · by_cases same : first = entry
      · exact .inl (mem_append_right _ (mem_singleton.mpr (congrArg Prod.fst same)))
      · exact .inr ⟨first, (mem_erase_of_ne same).mpr queued, rfl, rest⟩
  · change queue.Sourced state.written inst
    rcases dispatches.live alive with ⟨rfl, present⟩ | ⟨different, before⟩
    · exact dispatches.sourced present speculative
    · refine dispatches.leaves.sourced different (operands.sourced inst before ?_)
      rw [← dispatches.leaves.insts inst different]
      exact speculative
  · by_cases same : inst = entry.1
    · exact same ▸ dispatches.told
    · exact dispatches.leaves.told same (operands.told inst)

theorem dispatch_inv (inv : state.Inv config)
    (dispatched : state.dispatch config tid producingStores = some next) : next.Inv config := by
  unfold dispatch at dispatched
  split at dispatched
  · cases dispatched
  · next entry found =>
    obtain ⟨queue, stepped, rfl⟩ := Option.map_eq_some_iff.mp dispatched
    have dispatches := dispatches_of_step found inv stepped
    exact ⟨dispatch_flow found inv.flow dispatches,
      dispatch_allocation found inv.flow inv.allocation dispatches,
      dispatch_operands inv.operands dispatches⟩

end Dispatch

/-! ## Events of the queue -/

section Queue

open InstructionQueue

variable {event : IqEvent} {queue : InstructionQueue}

theorem queueStep_spec (stepped : state.queueStep config event = some next) :
    (∀ inst renamed stores, event ≠ .dispatch inst renamed stores) ∧
      ∃ queue, state.queue.step config.iq event = some queue ∧ next =
        state.queuedTo event queue := by
  unfold queueStep at stepped
  split at stepped
  · cases stepped
  · next other =>
    obtain ⟨queue, moved, rfl⟩ := Option.map_eq_some_iff.mp stepped
    exact ⟨other, queue, moved, rfl⟩

theorem survivors_sublist (state : Wakeup) (event : IqEvent) :
    (state.survivors event).Sublist state.toDispatch := by
  cases event with
  | squash => exact filter_sublist
  | _ => exact .refl _

theorem survivors_thread {first second : Nat × IqInst} (member : first ∈ state.toDispatch)
    (thread : first.2.threadNumber = second.2.threadNumber)
    (survives : second ∈ state.survivors event) : first ∈ state.survivors event := by
  cases event with
  | squash tid seqNum =>
    refine mem_filter.mpr ⟨member, ?_⟩
    rw [thread]
    exact (mem_filter.mp survives).2
  | _ => exact member

theorem queuedTo_live (wakes : Wakes (state.queue.wakes event) state.queue queue) {inst : Nat}
    (alive : (state.queuedTo event queue).live inst = true) : state.live inst = true := by
  obtain ⟨present, alive, active⟩ := live_iff.mp alive
  exact live_iff.mpr ⟨wakes.inserted ▸ present, wakes.squashed inst alive,
    fun member => active (mem_append_left _ member)⟩

theorem commits_spec (conserved : state.queue.Conserved config.iq)
    (admitted : disciplined config state (.queue event) = true) {inst : Nat}
    (member : inst ∈ state.commits event) : inst ∈ state.queue.inserted ∧
      ((state.queue.insts inst).squashed = true ∨ inst ∈ state.wroteBack) := by
  cases event with
  | commit tid seqNum =>
    have finished := all_eq_true.mp admitted inst member
    rw [Bool.or_eq_true, contains_iff_mem] at finished
    exact ⟨(conserved.listed.known tid inst ((takeWhile_sublist _).subset member)).1, finished⟩
  | _ => cases member

section Stepped

variable (stepped : state.queue.step config.iq event = some queue)
include stepped

theorem Flow.writes_live (flow : state.Flow config) {inst : Nat}
    (written : inst ∈ state.queue.writesBack event) : state.live inst = true := by
  obtain ⟨rfl, valid⟩ := mem_writesBack written
  obtain ⟨pending, ⟨invalid, _⟩ | ⟨_, alive, _⟩⟩ := writeback_spec stepped
  · exact absurd (valid.symm.trans invalid) (by simp)
  refine live_iff.mpr ⟨flow.once.inserted inst (.inr pending), alive, fun committed => ?_⟩
  rcases (flow.committed inst committed).2 with squashed | earlier
  · exact clash alive squashed
  · exact flow.once.fresh stepped valid earlier

theorem queuedTo_written (flow : state.Flow config) (allocation : state.Allocation config)
    (reg : PhysRegId) :
    (state.queuedTo event queue).written reg =
      (state.written reg || (state.queue.wakes event).contains reg) := by
  cases produced : state.producer reg with
  | none => simp [written, queuedTo, produced]
  | some inst =>
    have woken : reg ∈ state.queue.wakes event ↔ inst ∈ state.queue.writesBack event := by
      simp only [InstructionQueue.wakes, mem_flatMap]
      constructor
      · rintro ⟨writer, written, member⟩
        have allocated := (allocation.allocated reg inst produced).1
        have owner := allocation.writer reg allocated writer
          (flow.writes_live stepped written) member
        exact Option.some.inj (produced.symm.trans owner) ▸ written
      · intro written
        exact ⟨inst, written, allocation.owner reg inst
          (live_iff.mp (flow.writes_live stepped written)).1 produced⟩
    simp [written, queuedTo, produced, woken]

variable (wakes : Wakes (state.queue.wakes event) state.queue queue)
include wakes

theorem queue_flow (flow : state.Flow config)
    (admitted : disciplined config state (.queue event) = true) :
    (state.queuedTo event queue).Flow config := by
  have conserved := flow.conserved
  have survives := survivors_sublist state event
  refine ⟨⟨step_entryInv conserved stepped, step_listed conserved stepped⟩,
    step_wroteBack conserved flow.once stepped,
    fun entry member => flow.queued entry (survives.subset member), flow.dispatched,
    fun inst present => flow.inserted inst (wakes.inserted ▸ present),
    flow.order.sublist survives, fun inst member => ?_⟩
  have finished : inst ∈ state.queue.inserted ∧
      ((state.queue.insts inst).squashed = true ∨ inst ∈ state.wroteBack) := by
    rcases mem_append.mp member with before | now
    · exact flow.committed inst before
    · exact commits_spec conserved admitted now
  refine ⟨wakes.inserted ▸ finished.1, finished.2.imp (fun squashed => ?_) ?_⟩
  · exact Bool.of_not_eq_false fun alive =>
      clash (wakes.squashed inst alive) squashed
  · exact fun earlier => mem_append_left _ earlier

theorem queue_allocation (flow : state.Flow config) (allocation : state.Allocation config) :
    (state.queuedTo event queue).Allocation config := by
  have survives := (survivors_sublist state event).subset
  have dests (inst : Nat) : (queue.insts inst).destRegs = (state.queue.insts inst).destRegs :=
    congrArg (fun core => core.2.2.2) (wakes.core inst)
  have fixed {reg : PhysRegId} (constant : reg.isFixedMapping = true) : state.written reg = true :=
    allocation.written_of_not_allocated (by simp [isAllocated, constant])
  refine ⟨fun reg => ?_, allocation.allocated,
    fun reg entry member => allocation.queuedOwner reg entry (survives member),
    fun reg inst present produced => ?_,
    fun reg allocated entry member => allocation.queuedWriter reg allocated entry (survives member),
    fun reg allocated inst alive written => ?_, fun reg inst produced member => ?_⟩
  · rw [queuedTo_written stepped flow allocation]
    refine (setRegs_apply _ _ reg).trans ?_
    rw [allocation.scoreboard]
    cases constant : reg.isFixedMapping with
    | true => simp [fixed constant]
    | false => simp
  · change reg ∈ (queue.insts inst).destRegs
    rw [dests]
    exact allocation.owner reg inst (wakes.inserted ▸ present) produced
  · change reg ∈ (queue.insts inst).destRegs at written
    rw [dests] at written
    exact allocation.writer reg allocated inst (queuedTo_live wakes alive) written
  · rw [queuedTo_written stepped flow allocation]
    refine (wakes.regScoreboard reg).trans ?_
    have renamed : reg.isFixedMapping = false := by
      simpa using (Bool.and_eq_true_iff.mp (allocation.allocated reg inst produced).1).1
    rw [allocation.agrees reg inst produced member, renamed, Bool.not_false, Bool.and_true]

theorem queue_operands (flow : state.Flow config) (allocation : state.Allocation config)
    (operands : state.Operands) :
    (state.queuedTo event queue).Operands := by
  have survives := (survivors_sublist state event).subset
  have written (reg : PhysRegId) := queuedTo_written stepped flow allocation reg
  refine ⟨fun entry member operand source => ?_, fun inst alive speculative => ?_,
    fun inst => wakes.told inst (operands.told inst)⟩
  · have onTheWay := operands.queued entry (survives member) operand source
    refine ⟨fun ready => ?_, fun unready => ?_⟩
    · rw [written, onTheWay.ready ready, Bool.true_or]
    · obtain ⟨fixed, inst, produced, ahead⟩ := onTheWay.unready unready
      refine ⟨fixed, inst, produced, ahead.imp_right ?_⟩
      rintro ⟨first, queued, same, older, thread⟩
      exact ⟨first, survivors_thread queued thread member, same, older, thread⟩
  · have before := queuedTo_live wakes alive
    have static : (queue.insts inst).staticInst = (state.queue.insts inst).staticInst :=
      congrArg Prod.fst (wakes.core inst)
    have speculative : (queue.insts inst).staticInst.needsRelease = false := speculative
    rw [static] at speculative
    have sourced := wakes.sourced state.written inst (fun reg constant =>
      allocation.written_of_not_allocated (by simp [isAllocated, constant]))
      (live_iff.mp alive).2.1 (operands.sourced inst before speculative)
    exact sourced.congr fun reg _ => written reg

end Stepped

theorem queue_inv (inv : state.Inv config)
    (admitted : disciplined config state (.queue event) = true)
    (stepped : state.queueStep config event = some next) : next.Inv config := by
  obtain ⟨other, queue, moved, rfl⟩ := queueStep_spec stepped
  have wakes := step_wakes other moved
  exact ⟨queue_flow moved wakes inv.flow admitted,
    queue_allocation moved wakes inv.flow inv.allocation,
    queue_operands moved wakes inv.flow inv.allocation inv.operands⟩

end Queue

/-! ## Runs -/

theorem drop_inv {tid : ThreadID} {seqNum : Nat} (inv : state.Inv config) :
    { state with
      toDispatch := state.toDispatch.filter fun entry =>
        entry.2.threadNumber ≠ tid || decide (entry.1 ≤ seqNum) }.Inv config := by
  obtain ⟨flow, allocation, operands⟩ := inv
  have survives {entry : Nat × IqInst} (member : entry ∈ state.toDispatch.filter fun entry =>
      entry.2.threadNumber ≠ tid || decide (entry.1 ≤ seqNum)) : entry ∈ state.toDispatch :=
    (mem_filter.mp member).1
  refine ⟨{ flow with
      queued := fun entry member => flow.queued entry (survives member)
      order := flow.order.sublist filter_sublist },
    { allocation with
      queuedOwner := fun reg entry member => allocation.queuedOwner reg entry (survives member)
      queuedWriter := fun reg allocated entry member =>
        allocation.queuedWriter reg allocated entry (survives member) },
    { operands with queued := fun entry member operand source => ?_ }⟩
  have onTheWay := operands.queued entry (survives member) operand source
  refine ⟨onTheWay.ready, fun unready => ?_⟩
  obtain ⟨fixed, inst, produced, ahead⟩ := onTheWay.unready unready
  refine ⟨fixed, inst, produced, ahead.imp_right ?_⟩
  rintro ⟨first, queued, rfl, older, thread⟩
  -- The squash drops the younger instructions of the thread, so the producer stays.
  refine ⟨first, mem_filter.mpr ⟨queued, ?_⟩, rfl, older, thread⟩
  have stays := (mem_filter.mp member).2
  simp only [ne_eq, decide_not, Bool.or_eq_true, Bool.not_eq_true', decide_eq_false_iff_not,
    decide_eq_true_eq] at stays ⊢
  rw [thread]
  exact stays.imp_right fun bound => Nat.le_trans (Nat.le_of_lt older) bound

theorem step_inv {event : WakeupEvent} (inv : state.Inv config)
    (admitted : disciplined config state event = true)
    (stepped : state.step config event = some next) : next.Inv config := by
  cases event with
  | rename inst staticInst tid sources dests =>
    cases stepped
    exact rename_inv inv admitted
  | dispatch tid producingStores => exact dispatch_inv inv stepped
  | drop tid seqNum =>
    cases stepped
    exact drop_inv inv
  | queue event => exact queue_inv inv admitted stepped

theorem reachable_inv
    (reached : Reaches (step config) (disciplined config) (initial config) state) :
    state.Inv config :=
  reached.invariant (initial_inv config) fun inv admitted stepped => step_inv inv admitted stepped

/-- In every run that keeps to the rename discipline, a speculative instruction that is neither
squashed nor committed waits on the list of each source that its current producer has not
written yet, once for each operand, and has counted each other operand once; it becomes ready
(for the memory dependence unit, if it accesses memory) exactly when all sources are written,
and it is on the ready list at most once. -/
theorem wakeup_exact (config : WakeupConfig) (state : Wakeup)
    (reached : Reaches (step config) (disciplined config) (initial config) state)
    (inst : Nat) (alive : state.live inst = true)
    (speculative : (state.queue.insts inst).staticInst.needsRelease = false) :
    (∀ reg, state.queue.dependGraph.count (reg, inst) =
      if state.written reg then 0 else (state.queue.insts inst).sources.count reg) ∧
    (state.queue.insts inst).readyRegs = (state.queue.insts inst).sources.countP state.written ∧
    ((state.queue.insts inst).isMemRef = false →
      (inst ∈ state.queue.lists .readyInsts ∨ (state.queue.insts inst).issued = true ↔
        ∀ reg ∈ (state.queue.insts inst).sources, state.written reg = true)) ∧
    ((state.queue.insts inst).isMemRef = true → ∀ entry, state.queue.memDepHash inst = some entry →
      (entry.regsReady = true ↔
        ∀ reg ∈ (state.queue.insts inst).sources, state.written reg = true)) ∧
    (inst ∈ state.queue.lists .readyInsts ∨ (state.queue.insts inst).issued = true →
      ∀ reg ∈ (state.queue.insts inst).sources, state.written reg = true) ∧
    (state.queue.lists .readyInsts).count inst ≤ 1 := by
  obtain ⟨flow, allocation, operands⟩ := reachable_inv reached
  obtain ⟨present, unsquashed, _⟩ := live_iff.mp alive
  have sourced := operands.sourced inst alive speculative
  have ok := flow.conserved.inv.ok inst
  have once : (state.queue.view inst).inserted = 1 :=
    Nat.le_antisymm ok.once.2 (count_pos_iff.mpr present)
  have kept := ok.not_squashedInIQ once unsquashed
  have told := operands.told inst present unsquashed speculative
  have ahead (early : inst ∈ state.queue.lists .readyInsts ∨
      (state.queue.insts inst).issued = true) :
      ∀ reg ∈ (state.queue.insts inst).sources, state.written reg = true := by
    refine sourced.all_iff.mp (ok.sourced once speculative kept ?_)
    rcases early with ready | issued
    · have counted : 0 < (state.queue.view inst).lists .readyInsts := count_pos_iff.mpr ready
      refine .inl ?_
      simp only [EntryView.places]
      omega
    · exact .inr (.inl issued)
  refine ⟨sourced.nodes, sourced.readyRegs, fun plain => ⟨ahead, fun all => ?_⟩,
    fun memory entry found => ⟨fun ready => ?_, fun all => ?_⟩, ahead, ?_⟩
  · have notified := told (sourced.all_iff.mpr all)
    rwa [InstructionQueue.Notified, if_neg (by simp [plain])] at notified
  · exact sourced.all_iff.mp ((ok.memDeps entry found).2 ready kept speculative)
  · have notified := told (sourced.all_iff.mpr all)
    rw [InstructionQueue.Notified, if_pos memory] at notified
    exact notified entry found
  · have seat := ok.seat once kept
    have counted : (state.queue.view inst).lists .readyInsts =
      (state.queue.lists .readyInsts).count inst := rfl
    simp only [EntryView.places] at seat
    omega

/-- The second instruction finds its source ready at dispatch, the third waits for the second. -/
theorem wakeup_exact_waiting :
    ∃ state, Reaches (step ⟨⟨4, fun _ => 4⟩, 31⟩) (disciplined ⟨⟨4, fun _ => 4⟩, 31⟩)
      (initial ⟨⟨4, fun _ => 4⟩, 31⟩) state ∧
      state.written ⟨.int, 1⟩ = true ∧ state.written ⟨.int, 2⟩ = false ∧
      (state.queue.insts 3).sources = [⟨.int, 1⟩, ⟨.int, 2⟩, ⟨.int, 2⟩] ∧
      state.queue.dependGraph.count (⟨.int, 2⟩, 3) = 2 ∧ (state.queue.insts 3).readyRegs = 1 := by
  obtain ⟨state, reached, observed⟩ := reaches_of_observed (step ⟨⟨4, fun _ => 4⟩, 31⟩)
    (disciplined ⟨⟨4, fun _ => 4⟩, 31⟩) (initial ⟨⟨4, fun _ => 4⟩, 31⟩)
    [.rename 1 {} 0 [] [⟨.int, 1⟩], .dispatch 0 [], .queue (.issue 1),
      .queue (.execute 1 (.finished false)), .rename 2 {} 0 [⟨.int, 1⟩] [⟨.int, 2⟩],
      .queue (.writeback 1), .rename 3 {} 0 [⟨.int, 1⟩, ⟨.int, 2⟩, ⟨.int, 2⟩] [],
      .dispatch 0 [], .dispatch 0 [], .queue (.issue 2)]
    (fun state => state.live 3 && !(state.queue.insts 3).staticInst.needsRelease &&
      state.written ⟨.int, 1⟩ && !state.written ⟨.int, 2⟩ &&
      (state.queue.insts 3).sources == [⟨.int, 1⟩, ⟨.int, 2⟩, ⟨.int, 2⟩]) (by decide +kernel)
  simp only [Bool.and_eq_true, Bool.not_eq_true', beq_iff_eq] at observed
  obtain ⟨⟨⟨⟨alive, speculative⟩, first⟩, second⟩, sources⟩ := observed
  have exact := wakeup_exact ⟨⟨4, fun _ => 4⟩, 31⟩ state reached 3 alive speculative
  refine ⟨state, reached, first, second, sources, ?_, ?_⟩
  · rw [exact.1, second, sources]
    decide
  · rw [exact.2.1, sources]
    simp [first, second]

end Wakeup

end Runahead.O3
