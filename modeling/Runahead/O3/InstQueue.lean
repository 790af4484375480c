import Runahead.DynInst
import Runahead.Library.Transition

/-!
# The instruction queue of runaheado3

`inst_queue.cc` with the dependency graph (`dep_graph.hh`), the memory
dependence unit (`mem_dep_unit.cc`) and the part of IEW and the load/store queue
that hands instructions back to the queue. The linked lists of the dependency
graph are one list of nodes, newest first, each with its register; likewise the
`dependInsts` of all memory dependence entries are one list of pairs. A failing
assertion ends the run.
-/

set_option autoImplicit false

namespace Runahead

/-- The condition under which `doSquash` looks for a squashed instruction in the
dependency graph; otherwise it looks in `nonSpecInsts`. -/
def StaticInst.inDependGraph (inst : StaticInst) : Bool :=
  (inst.isReadBarrier && inst.isWriteBarrier &&
      (inst.isLoad || inst.isStore && !inst.isStoreConditional)) ||
    !(inst.isNonSpeculative || inst.isStoreConditional || inst.isAtomic ||
      inst.isReadBarrier || inst.isWriteBarrier)

/-- Only these have dependents in the memory dependence unit. -/
def StaticInst.hasMemDependents (inst : StaticInst) : Bool :=
  inst.isStore || inst.isAtomic || inst.isReadBarrier || inst.isWriteBarrier

end Runahead

namespace Runahead.O3

/-- A renamed source register with its flag `readySrcIdx`. -/
structure SrcOperand where
  reg : PhysRegId
  ready : Bool := false
  deriving DecidableEq, Repr

structure IqInst where
  staticInst : StaticInst := {}
  threadNumber : ThreadID := 0
  srcRegs : List SrcOperand := []
  destRegs : List PhysRegId := []
  readyRegs : Nat := 0
  canIssue : Bool := false
  issued : Bool := false
  executed : Bool := false
  squashed : Bool := false
  squashedInIQ : Bool := false
  memOpDone : Bool := false
  fault : Bool := false
  deriving DecidableEq, Repr

namespace IqInst

def isMemRef (inst : IqInst) : Bool := inst.staticInst.isMemRef
variable (inst : IqInst)

def numSrcRegs : Nat := inst.srcRegs.length
def setCanIssue : IqInst := { inst with canIssue := true }
def clearCanIssue : IqInst := { inst with canIssue := false }
def setIssued : IqInst := { inst with issued := true }
def clearIssued : IqInst := { inst with issued := false }
def setSquashed : IqInst := { inst with squashed := true }
def setExecuted : IqInst := { inst with executed := true }
def setFault (fault : Bool) (inst : IqInst) : IqInst := { inst with fault := fault }
def setMemOpDone : IqInst := { inst with memOpDone := true }
def setSquashedInIQ : IqInst :=
  { inst with squashedInIQ := true, squashed := true }

def markSrcRegReady : IqInst :=
  { inst with
    readyRegs := inst.readyRegs + 1
    canIssue := inst.canIssue || inst.readyRegs + 1 == inst.numSrcRegs }

/-- An instruction as rename leaves it: it can issue if all of its sources are ready. -/
def renamed (staticInst : StaticInst) (threadNumber : ThreadID) (srcRegs : List SrcOperand)
    (destRegs : List PhysRegId) : IqInst where
  staticInst := staticInst
  threadNumber := threadNumber
  srcRegs := srcRegs
  destRegs := destRegs
  readyRegs := srcRegs.countP SrcOperand.ready
  canIssue := srcRegs.countP SrcOperand.ready == srcRegs.length

end IqInst

structure MemDepEntry where
  regsReady : Bool := false
  memDeps : Nat := 0
  deriving DecidableEq, Repr

structure IqConfig where
  numEntries : Nat
  maxEntries : ThreadID → Nat

/-- The lists that instructions pass through on their way to execution. -/
inductive IqList where
  | nonSpecInsts
  | readyInsts
  | instsToExecute
  | deferredMemInsts
  | blockedMemInsts
  | retryMemInsts
  | instsToReplay
  /-- Memory instructions whose access has been sent. -/
  | accessing
  /-- The instructions that wait for write-back (`iewQueue`). -/
  | toCommit
  deriving DecidableEq, Repr

structure InstructionQueue where
  insts : Nat → IqInst
  instList : ThreadID → List Nat
  freeEntries : Nat
  count : ThreadID → Nat
  lists : IqList → List Nat
  dependGraph : List (PhysRegId × Nat)
  regScoreboard : PhysRegId → Bool
  memDepHash : Nat → Option MemDepEntry
  memDependents : List (Nat × Nat)
  /-- What has got an entry of the queue, and what has given it back. -/
  inserted : List Nat
  released : List Nat

/-- What becomes of an instruction in `executeInsts`. -/
inductive IssueOutcome where
  | finished (fault : Bool)
  | deferred
  | blocked
  /-- The load must be rescheduled; a strictly ordered load is sent to commit as
  well, without having executed. -/
  | rescheduled (strictlyOrdered : Bool)
  | accessed
  deriving DecidableEq, Repr

inductive IqEvent where
  | dispatch (inst : Nat) (renamed : IqInst) (producingStores : List Nat)
  | scheduleNonSpec (inst : Nat)
  | issue (inst : Nat)
  | execute (inst : Nat) (outcome : IssueOutcome)
  /-- `LSQUnit::writeback`. -/
  | accessDone (inst : Nat) (fault : Bool)
  | writeback (inst : Nat)
  | executeDeferred (inst : Nat)
  | executeBlocked (inst : Nat)
  | cacheUnblocked
  | replay (tid : ThreadID)
  | commit (tid : ThreadID) (seqNum : Nat)
  | squash (tid : ThreadID) (seqNum : Nat)
  /-- The ROB or the load/store queue marks an instruction as squashed. -/
  | setSquashed (inst : Nat)
  deriving DecidableEq, Repr

namespace InstructionQueue

variable (config : IqConfig) (state : InstructionQueue) (inst : Nat)

def modify (change : IqInst → IqInst) : InstructionQueue :=
  { state with insts := Function.update state.insts inst (change (state.insts inst)) }

def push (list : IqList) (inst : Nat) : InstructionQueue :=
  { state with lists := Function.update state.lists list (state.lists list ++ [inst]) }

def pop (list : IqList) (inst : Nat) : InstructionQueue :=
  { state with lists := Function.update state.lists list ((state.lists list).erase inst) }

def addReadyInst : InstructionQueue :=
  state.push .readyInsts inst

def noDependents (reg : PhysRegId) : Bool :=
  !state.dependGraph.any fun node => node.1 = reg

def release : InstructionQueue :=
  let tid := (state.insts inst).threadNumber
  { state with
    freeEntries := state.freeEntries + 1
    count := Function.update state.count tid (state.count tid - 1)
    released := state.released ++ [inst] }

/-! ## Memory dependence unit -/

def setEntry (entry : MemDepEntry) : InstructionQueue :=
  { state with memDepHash := Function.update state.memDepHash inst (some entry) }

/-- `MemDepUnit::regsReady`; the instruction must have an entry. -/
def regsReady (state : InstructionQueue) (inst : Nat) : Option InstructionQueue :=
  match state.memDepHash inst with
  | none => none
  | some entry =>
    let state := state.setEntry inst { entry with regsReady := true }
    some (if entry.memDeps = 0 then state.addReadyInst inst else state)

def addPairs (pairs : List (Nat × Nat)) : InstructionQueue :=
  { state with memDependents := state.memDependents ++ pairs }

/-- `MemDepUnit::insert`; the stores and barriers to wait for are those of the
thread that still have an entry. -/
def memDepInsert (producingStores : List Nat) : InstructionQueue :=
  let entries := producingStores.filter fun store =>
    (state.memDepHash store).isSome &&
      (state.insts store).threadNumber = (state.insts inst).threadNumber
  let ready := (state.insts inst).canIssue
  if entries.isEmpty then
    let state := state.setEntry inst { regsReady := ready, memDeps := 0 }
    if ready then state.addReadyInst inst else state
  else
    ((state.setEntry inst { regsReady := ready, memDeps := entries.length }).addPairs
      (entries.map fun store => (store, inst))).modify inst IqInst.clearCanIssue

def dropPair (pair : Nat × Nat) : InstructionQueue :=
  { state with memDependents := state.memDependents.erase pair }

/-- One dependent of a completed store or barrier. An entry that has been
removed in the meantime belongs to a squashed instruction. -/
def wakeMemDependent (pair : Nat × Nat) : Option InstructionQueue :=
  match state.memDepHash pair.2 with
  | none => some (state.dropPair pair)
  | some entry =>
    if entry.memDeps = 0 then none
    else
      let woken := (state.dropPair pair).setEntry pair.2 { entry with memDeps := entry.memDeps - 1 }
      some (if entry.memDeps = 1 && entry.regsReady then woken.addReadyInst pair.2 else woken)

/-- The loop over the dependents of one instruction. -/
def wakeMemChain (inst : Nat) : Nat → InstructionQueue → Option InstructionQueue
  | 0, state => some state
  | fuel + 1, state =>
    match state.memDependents.find? fun pair => pair.1 = inst with
    | none => some state
    | some pair => (state.wakeMemDependent pair).bind (wakeMemChain inst fuel)

def wakeMemDependents : Option InstructionQueue :=
  if (state.insts inst).staticInst.hasMemDependents then
    wakeMemChain inst state.memDependents.length state
  else some state

def removeEntry : InstructionQueue :=
  { state with memDepHash := Function.update state.memDepHash inst none }

/-- `MemDepUnit::completeInst`; the instruction must have an entry. -/
def completeMemInst : Option InstructionQueue :=
  if (state.memDepHash inst).isSome then
    (state.wakeMemDependents inst).map fun state => state.removeEntry inst
  else none

def memDepSquash (tid : ThreadID) (seqNum : Nat) : InstructionQueue :=
  let squashes (inst : Nat) : Bool := (state.insts inst).threadNumber = tid && seqNum < inst
  { state with
    lists := Function.update state.lists .instsToReplay
      ((state.lists .instsToReplay).filter fun inst => !squashes inst)
    memDepHash := fun inst => if squashes inst then none else state.memDepHash inst }

/-! ## Dependency graph -/

def addIfReady : Option InstructionQueue :=
  if (state.insts inst).canIssue then
    if (state.insts inst).isMemRef then state.regsReady inst else some (state.addReadyInst inst)
  else some state

def addNode (node : PhysRegId × Nat) : InstructionQueue :=
  { state with dependGraph := node :: state.dependGraph }

def dropNode (node : PhysRegId × Nat) : InstructionQueue :=
  { state with dependGraph := state.dependGraph.erase node }

def setRegScoreboard (reg : PhysRegId) (ready : Bool) : InstructionQueue :=
  { state with regScoreboard := Function.update state.regScoreboard reg ready }

/-- A source that is not ready yet: it became ready on the way to the queue, or
the instruction has to wait for it. -/
def addOperand (state : InstructionQueue) (operand : SrcOperand) : InstructionQueue :=
  if operand.ready || operand.reg.isFixedMapping then state
  else if state.regScoreboard operand.reg then state.modify inst IqInst.markSrcRegReady
  else state.addNode (operand.reg, inst)

def readyOperands (operands : List SrcOperand) : List SrcOperand :=
  operands.map fun operand => { operand with
    ready := operand.ready || !operand.reg.isFixedMapping && state.regScoreboard operand.reg }

def addToDependents : InstructionQueue :=
  let operands := (state.insts inst).srcRegs
  (operands.foldl (addOperand inst) state).modify inst fun dyn =>
    { dyn with srcRegs := state.readyOperands operands }

/-- `addToProducers` panics if somebody still waits for the register. -/
def addProducer (reg : PhysRegId) : Option InstructionQueue :=
  if reg.isFixedMapping then some state
  else if state.noDependents reg then some (state.setRegScoreboard reg false)
  else none

def addToProducers : Option InstructionQueue :=
  (state.insts inst).destRegs.foldlM addProducer state

def wakeDependent (node : PhysRegId × Nat) : Option InstructionQueue :=
  ((state.dropNode node).modify node.2 IqInst.markSrcRegReady).addIfReady node.2

/-- The loop over the dependents of a register, newest first. -/
def wakeChain (reg : PhysRegId) : Nat → InstructionQueue → Option InstructionQueue
  | 0, state => some state
  | fuel + 1, state =>
    match state.dependGraph.find? fun node => node.1 = reg with
    | none => some state
    | some node => (state.wakeDependent node).bind (wakeChain reg fuel)

def wakeReg (reg : PhysRegId) : Option InstructionQueue :=
  if reg.isFixedMapping then some state
  else
    (wakeChain reg state.dependGraph.length state).bind fun state =>
      if state.noDependents reg then some (state.setRegScoreboard reg true) else none

/-- `DependencyGraph::remove`; in a list that is not empty the instruction must be found. -/
def removeDependent (state : InstructionQueue) (operand : SrcOperand) : Option InstructionQueue :=
  if operand.ready || operand.reg.isFixedMapping || state.noDependents operand.reg then some state
  else if (operand.reg, inst) ∈ state.dependGraph then
    some (state.dropNode (operand.reg, inst))
  else none

/-! ## The queue -/

variable (renamed : IqInst)

def takeEntry : Option InstructionQueue :=
  let tid := renamed.threadNumber
  if state.freeEntries = 0 then none
  else
    some { state with
      insts := Function.update state.insts inst renamed
      instList := Function.update state.instList tid (state.instList tid ++ [inst])
      freeEntries := state.freeEntries - 1
      count := Function.update state.count tid (state.count tid + 1)
      inserted := state.inserted ++ [inst] }

def insert (producingStores : List Nat) : Option InstructionQueue :=
  (state.takeEntry inst renamed).bind fun state =>
    ((state.addToDependents inst).addToProducers inst).bind fun state =>
      if renamed.isMemRef then some (state.memDepInsert inst producingStores)
      else state.addIfReady inst

/-- `insertNonSpec`, preceded by the barrier's entry in the memory dependence
unit for `insertBarrier`. -/
def insertNonSpec : Option InstructionQueue :=
  (state.takeEntry inst renamed).bind fun state =>
    ((state.push .nonSpecInsts inst).addToProducers inst).map fun state =>
      if renamed.isMemRef || renamed.staticInst.isReadBarrier || renamed.staticInst.isWriteBarrier
      then state.setEntry inst {} else state

/-- `dispatchInsts` for one instruction that is not squashed. A no-op takes no
entry but becomes the producer of its destination registers. -/
def dispatch (producingStores : List Nat) : Option InstructionQueue :=
  if state.count renamed.threadNumber = config.maxEntries renamed.threadNumber then none
  else if renamed.staticInst.needsRelease then state.insertNonSpec inst renamed
  else if renamed.staticInst.isNop && !renamed.isMemRef then
    renamed.destRegs.foldlM addProducer state
  else state.insert inst renamed producingStores

def scheduleNonSpec : Option InstructionQueue :=
  if inst ∈ state.lists .nonSpecInsts then
    let released := (state.pop .nonSpecInsts inst).modify inst IqInst.setCanIssue
    if (state.insts inst).isMemRef then
      if (state.memDepHash inst).isSome then some (released.addReadyInst inst) else none
    else some (released.addReadyInst inst)
  else none

/-- `scheduleReadyInsts` takes a squashed instruction from its ready list
without issuing it. -/
def issue : Option InstructionQueue :=
  if inst ∈ state.lists .readyInsts then
    if (state.insts inst).squashed then some (state.pop .readyInsts inst)
    else
      let issued := ((state.pop .readyInsts inst).push .instsToExecute inst).modify inst
        IqInst.setIssued
      some (if (state.insts inst).isMemRef then issued else issued.release inst)
  else none

def instToCommit (fault : Bool) : InstructionQueue :=
  (state.modify inst fun dyn => (dyn.setFault fault).setExecuted).push .toCommit inst

/-- `executeInsts` for one instruction that is not squashed. `LSQUnit::read`
asserts that a load that it blocks or reschedules has not executed. -/
def executed (state : InstructionQueue) (inst : Nat) : IssueOutcome → Option InstructionQueue
  | .finished fault => some (state.instToCommit inst fault)
  | .deferred =>
    if (state.insts inst).isMemRef then some (state.push .deferredMemInsts inst) else none
  | .blocked =>
    if (state.insts inst).isMemRef && !(state.insts inst).executed then
      some ((state.modify inst fun dyn => dyn.clearIssued.clearCanIssue).push .blockedMemInsts inst)
    else none
  | .rescheduled strictlyOrdered =>
    if (state.insts inst).isMemRef && !(state.insts inst).executed then
      let waiting := (state.modify inst fun dyn =>
        (dyn.setFault strictlyOrdered).clearIssued.clearCanIssue).push .instsToReplay inst
      some (if strictlyOrdered then waiting.push .toCommit inst else waiting)
    else none
  | .accessed =>
    if (state.insts inst).isMemRef then
      some ((state.modify inst (IqInst.setFault false)).push .accessing inst)
    else none

def execute (outcome : IssueOutcome) : Option InstructionQueue :=
  if inst ∈ state.lists .instsToExecute then
    if (state.insts inst).squashed then
      some ((state.pop .instsToExecute inst).modify inst IqInst.setExecuted)
    else (state.pop .instsToExecute inst).executed inst outcome
  else none

/-- `LSQUnit::writeback` ignores the response to a squashed instruction. -/
def accessDone (fault : Bool) : Option InstructionQueue :=
  if inst ∈ state.lists .accessing then
    if (state.insts inst).squashed then some (state.pop .accessing inst)
    else some ((state.pop .accessing inst).instToCommit inst fault)
  else none

/-- The part of `wakeDependents` before the destination registers: the entry of a
memory instruction becomes free here. -/
def completeInst : Option InstructionQueue :=
  let static := (state.insts inst).staticInst
  if static.isMemRef then
    (state.completeMemInst inst).map fun state =>
      (state.modify inst IqInst.setMemOpDone).release inst
  else if static.isReadBarrier || static.isWriteBarrier then state.completeMemInst inst
  else some state

def wakeDependents : Option InstructionQueue :=
  (state.completeInst inst).bind fun completed =>
    (state.insts inst).destRegs.foldlM wakeReg completed

def writeback : Option InstructionQueue :=
  if inst ∈ state.lists .toCommit then
    if !(state.insts inst).squashed && (state.insts inst).executed && !(state.insts inst).fault then
      (state.pop .toCommit inst).wakeDependents inst
    else some (state.pop .toCommit inst)
  else none

def setLists (first second : IqList) (firstInsts secondInsts : List Nat) : InstructionQueue :=
  { state with
    lists := Function.update (Function.update state.lists first firstInsts) second secondInsts }

variable (tid : ThreadID)

/-- `replay` moves all waiting instructions of the unit to the ready list; each
of them must have an entry. -/
def replay : Option InstructionQueue :=
  let replayed (inst : Nat) : Bool := (state.insts inst).threadNumber = tid
  let insts := (state.lists .instsToReplay).filter replayed
  if insts.all fun inst => (state.memDepHash inst).isSome then
    some (state.setLists .readyInsts .instsToReplay (state.lists .readyInsts ++ insts)
      ((state.lists .instsToReplay).filter fun inst => !replayed inst))
  else none

/-- `doSquash` takes the instruction out of the dependency graph or out of
`nonSpecInsts`. A completed store conditional is no longer in `nonSpecInsts`, so that
looking for it there changes nothing. -/
def removeWaiting : Option InstructionQueue :=
  let dyn := state.insts inst
  if dyn.staticInst.inDependGraph then dyn.srcRegs.foldlM (removeDependent inst) state
  else if inst ∈ state.lists .nonSpecInsts then some (state.pop .nonSpecInsts inst)
  else if dyn.fault || dyn.isMemRef then some state
  else none

def squashEntry : Option InstructionQueue :=
  (state.removeWaiting inst).map fun state =>
    (state.modify inst fun dyn => dyn.setSquashedInIQ.setIssued).release inst

/-- `doSquash` takes the instruction off the thread's list; nobody may wait for
its results any more. -/
def unlist (inst : Nat) : Option InstructionQueue :=
  if (state.insts inst).destRegs.all fun reg => reg.isFixedMapping || state.noDependents reg then
    some { state with
      instList := Function.update state.instList tid ((state.instList tid).erase inst) }
  else none

def squashInst (state : InstructionQueue) (inst : Nat) : Option InstructionQueue :=
  let dyn := state.insts inst
  if dyn.squashedInIQ then some state
  else if !dyn.issued || dyn.isMemRef && !dyn.memOpDone then
    (state.squashEntry inst).bind fun state => state.unlist tid inst
  else state.unlist tid inst

/-- `squash` walks from the tail of the thread's list to the squash number. -/
def squash (seqNum : Nat) : Option InstructionQueue :=
  let victims := (state.instList tid).reverse.takeWhile fun inst => decide (seqNum < inst)
  (victims.foldlM (squashInst tid) state).map fun state => state.memDepSquash tid seqNum

def commit (seqNum : Nat) : InstructionQueue :=
  { state with
    instList := Function.update state.instList tid
      ((state.instList tid).dropWhile fun inst => decide (inst ≤ seqNum)) }

/-- `getDeferredMemInstToExecute` and the first loop of `scheduleReadyInsts`. -/
def executeDeferred : Option InstructionQueue :=
  if inst ∈ state.lists .deferredMemInsts then
    some ((state.pop .deferredMemInsts inst).addReadyInst inst)
  else none

/-- `getBlockedMemInstToExecute` and the second loop of `scheduleReadyInsts`. -/
def executeBlocked : Option InstructionQueue :=
  if inst ∈ state.lists .retryMemInsts then
    some ((state.pop .retryMemInsts inst).addReadyInst inst)
  else none

def cacheUnblocked : InstructionQueue :=
  state.setLists .retryMemInsts .blockedMemInsts
    (state.lists .retryMemInsts ++ state.lists .blockedMemInsts) []

def isNew : Bool :=
  !state.inserted.contains inst && (state.instList renamed.threadNumber).all (· < inst)

variable {tid} {renamed}

def step : IqEvent → Option InstructionQueue
  | .dispatch inst renamed producingStores =>
    if state.isNew inst renamed then
      state.dispatch config inst
        (.renamed renamed.staticInst renamed.threadNumber renamed.srcRegs renamed.destRegs)
        producingStores
    else none
  | .scheduleNonSpec inst => state.scheduleNonSpec inst
  | .issue inst => state.issue inst
  | .execute inst outcome => state.execute inst outcome
  | .accessDone inst fault => state.accessDone inst fault
  | .writeback inst => state.writeback inst
  | .executeDeferred inst => state.executeDeferred inst
  | .executeBlocked inst => state.executeBlocked inst
  | .cacheUnblocked => some state.cacheUnblocked
  | .replay tid => state.replay tid
  | .commit tid seqNum => some (state.commit tid seqNum)
  | .squash tid seqNum => state.squash tid seqNum
  | .setSquashed inst => some (state.modify inst IqInst.setSquashed)

/-- `resetState`. Rename knows which registers are ready at the start, the queue does not. -/
def initial : InstructionQueue where
  insts _ := {}
  instList _ := []
  freeEntries := config.numEntries
  count _ := 0
  lists _ := []
  dependGraph := []
  regScoreboard _ := false
  memDepHash _ := none
  memDependents := []
  inserted := []
  released := []

end InstructionQueue

end Runahead.O3
