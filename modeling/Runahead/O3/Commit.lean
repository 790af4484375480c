import Runahead.Rob

/-!
# The commit stage of runaheado3

`commit.cc` together with the parts of `cpu.cc` that it calls. `Core` is what
the commit stage can change: the CPU-wide data of `Shared` and the data of one
thread. Draining, hardware transactions and statistics are left out. Writes
through a thread context, which PC events and debuggers perform, only set
`tcSquash` and are a step of their own in the CPU model.
-/

set_option autoImplicit false

namespace Runahead.O3

inductive ThreadStatus where
  | running | idle | robSquashing | trapPending | fetchTrapPending | squashAfterPending
  deriving DecidableEq, Repr

/-- The signals of one cycle from commit to the earlier stages (`TimeStruct::CommitComm`). -/
structure CommitComm where
  squash : Bool := false
  robSquashing : Bool := false
  doneSeqNum : Nat := 0
  pc : Addr := 0
  nonSpecSeqNum : Nat := 0
  interruptPending : Bool := false
  clearInterrupt : Bool := false
  deriving DecidableEq, Repr

/-- What the IEW stage tells commit in one cycle (`IEWStruct`). -/
structure IewStruct where
  insts : List Nat := []
  squash : Bool := false
  squashedSeqNum : Nat := 0
  pc : Addr := 0
  mispredictInst : Option Nat := none
  includeSquashInst : Bool := false
  squashAfterRunahead : Bool := false
  deriving DecidableEq, Repr

/-- The assertions of the modelled code that can stop the simulator. -/
inductive AssertionFailure where
  /-- `enterRunaheadMode`: `assert(!_inRunahead)`. -/
  | alreadyInRunahead
  /-- `setTriggeredRunahead`: the trigger has no outstanding request. -/
  | noOutstandingRequest
  /-- `ROB::insertInst`: `assert(numInstsInROB != numEntries)`. -/
  | robFull
  deriving DecidableEq, Repr

structure Config where
  numROBEntries : Nat
  renameWidth : Nat
  commitWidth : Nat
  squashWidth : Nat
  fullSystem : Bool
  numArchRegs : RegClass → Nat
  numPhysRegs : RegClass → Nat

/-- What commit reads from outside the pipeline in one cycle. -/
structure CommitEnv where
  checkInterrupts : Bool := false
  /-- Where the fault or interrupt handler starts. -/
  handlerPc : Addr := 0
  hasStoresToWB : Bool := false

structure Shared where
  insts : InstTable
  inRunahead : Bool
  raTriggerInst : Nat
  instList : List Nat
  removeList : List Nat
  inv : PhysRegId → Bool
  interrupt : Bool
  canHandleInterrupts : Bool
  avoidQuiesceLiveLock : Bool
  /-- The architecturally committed instructions, newest first. -/
  committed : List Nat

structure CommitThread where
  rob : Rob
  commitStatus : ThreadStatus
  trapSquash : Bool
  tcSquash : Bool
  /-- Set by `generateTrapEvent` until `squashFromTrap`, like `trapPending`. -/
  trapInFlight : Bool
  squashAfterInst : Option Nat
  pc : Addr
  youngestSeqNum : Nat
  lastCommitedSeqNum : Nat
  commitRenameMap : RegId → PhysRegId
  toIEW : CommitComm

structure Core extends Shared, CommitThread

namespace Core

variable (config : Config) (core : Core) (head : Nat)

def modifyInst (inst : Nat) (change : DynInst → DynInst) : Core :=
  { core with insts := core.insts.modify inst change }

def invalidateDestRegs (inst : Nat) : Core :=
  let dests := (core.insts inst).renamedDests.map (·.2)
  { core with inv := fun reg => dests.contains reg || core.inv reg }

/-- `ROB::retireHead` and `CPU::removeFrontInst`. -/
def retireHead (core : Core) (head : Nat) : Core :=
  { core with rob := core.rob.retireHead, removeList := core.removeList ++ [head] }

/-- `CPU::enterRunaheadMode`. `otherRobs` are the ROB entries of the other
threads, which `markAllRunahead` marks as well. -/
def enterRunaheadMode (otherRobs : List Nat) (inst : Nat) : Except AssertionFailure Core :=
  if core.inRunahead then .error .alreadyInRunahead
  else
    match (core.insts inst).setTriggeredRunahead with
    | none => .error .noOutstandingRequest
    | some trigger =>
      let core := { core with
        inRunahead := true
        raTriggerInst := inst
        insts := core.insts.modify inst fun _ => trigger.setInvalid }
      let core :=
        if trigger.staticInst.isLoad || trigger.staticInst.isStore then
          core.invalidateDestRegs inst
        else core
      .ok { core with
        insts := Rob.markAllRunahead core.insts (core.rob.instList ++ otherRobs) }

/-- Start a squash in the ROB and tell the earlier stages to keep nothing
younger than `squashedInst`. -/
def broadcastSquash (squashedInst youngestSeqNum : Nat) (pc : Addr) : Core :=
  let squashing := core.rob.squash config.squashWidth core.insts squashedInst
  { core with
    commitStatus := .robSquashing
    youngestSeqNum := youngestSeqNum
    insts := squashing.1
    rob := squashing.2
    toIEW := { core.toIEW with
      doneSeqNum := squashedInst
      squash := true
      robSquashing := true
      pc := pc } }

/-- The squash number of `squashAll` is taken from the ROB head. -/
def squashAllSeqNum : Nat :=
  match core.rob.readHeadInst with
  | none => core.lastCommitedSeqNum
  | some head => head - 1

/-- `squashAll`, and the status that all its callers set. -/
def squashAll : Core :=
  core.broadcastSquash config core.squashAllSeqNum core.lastCommitedSeqNum core.pc

def squashFromTrap : Core :=
  { core.squashAll config with trapInFlight := false, trapSquash := false }

def squashFromTC : Core :=
  { core.squashAll config with tcSquash := false }

def squashFromSquashAfter : Core :=
  { core.squashAll config with squashAfterInst := none }

def squashAfter : Core :=
  { core with commitStatus := .squashAfterPending, squashAfterInst := some head }

/-- The test of `commit` that lets a squash of the IEW stage through. -/
def acceptsSquash (fromIEW : IewStruct) : Bool :=
  fromIEW.squash && decide (core.commitStatus ≠ .trapPending) &&
    decide (fromIEW.squashedSeqNum ≤ core.youngestSeqNum)

end Core

def IewStruct.squashedInst (fromIEW : IewStruct) : Nat :=
  if fromIEW.includeSquashInst then fromIEW.squashedSeqNum - 1 else fromIEW.squashedSeqNum

namespace Core

variable (config : Config) (env : CommitEnv) (core : Core) (head : Nat) (fromIEW : IewStruct)

def squashFromIEW : Core :=
  let squashedInst := fromIEW.squashedInst
  core.broadcastSquash config squashedInst squashedInst fromIEW.pc

/-- `generateTrapEvent` and the status change before it. -/
def startTrap (handlerPc : Addr) : Core :=
  { core with commitStatus := .trapPending, trapInFlight := true, pc := handlerPc }

def propagateInterrupt : Core :=
  if core.commitStatus = .trapPending || core.interrupt || core.trapSquash || core.tcSquash then
    core
  else
    { core with interrupt := true, toIEW := { core.toIEW with interruptPending := true } }

def handleInterrupt : Core :=
  if !env.checkInterrupts then
    { core with
      interrupt := false
      avoidQuiesceLiveLock := true
      toIEW := { core.toIEW with clearInterrupt := true } }
  else if core.canHandleInterrupts && core.instList.isEmpty then
    { core.startTrap env.handlerPc with
      interrupt := false
      avoidQuiesceLiveLock := false
      toIEW := { core.toIEW with clearInterrupt := true } }
  else core

/-- The status test of `getCommittingThread` with a single thread. -/
def mayCommit : Bool :=
  core.commitStatus = .running || core.commitStatus = .idle || core.commitStatus = .fetchTrapPending

def releaseHead : Core :=
  { core.modifyInst head DynInst.clearCanCommit with
    toIEW := { core.toIEW with nonSpecSeqNum := head } }

def updateCommitRenameMap (map : RegId → PhysRegId) : List (RegId × PhysRegId) → RegId → PhysRegId
  | [] => map
  | (reg, phys) :: rest =>
    updateCommitRenameMap (fun other => if other = reg then phys else map other) rest

def commitInst : Core :=
  { core.retireHead head with
    commitRenameMap :=
      updateCommitRenameMap core.commitRenameMap (core.insts head).renamedDests
    committed := head :: core.committed }

/-- `commitHead`; the flag says whether the instruction committed. -/
def commitHead (instNum : Nat) : Core × Bool :=
  if !(core.insts head).executed then
    if instNum > 0 || env.hasStoresToWB then (core, false)
    else (core.releaseHead head, false)
  else if (core.insts head).fault then
    if env.hasStoresToWB || instNum > 0 then (core, false)
    else (core.startTrap env.handlerPc, false)
  else (core.commitInst head, true)

/-- The bookkeeping of `commitInsts` after a successful `commitHead`. -/
def afterCommit : Core :=
  let inst := core.insts head
  let core := { core with
    toIEW := { core.toIEW with doneSeqNum := head }
    canHandleInterrupts := !inst.staticInst.isDelayedCommit
    pc := inst.nextPc
    lastCommitedSeqNum := head }
  let core := if inst.staticInst.isSquashAfter then core.squashAfter head else core
  let onInstBoundary := !inst.staticInst.isMicroop || inst.staticInst.isLastMicroop ||
    !inst.staticInst.isDelayedCommit
  if !core.interrupt && core.avoidQuiesceLiveLock && onInstBoundary && env.checkInterrupts then
    core.squashAfter head
  else core

/-- How an iteration of the loop in `commitInsts` ends. -/
inductive LoopStep where
  | stop (core : Core)
  | next (core : Core) (numCommitted : Nat)

/-- The runahead branch of `commitInsts`: the head leaves the ROB without
updating architectural state, or the loop ends. -/
def pseudoRetire (numCommitted : Nat) : LoopStep :=
  let inst := core.insts head
  let marked := if inst.missedInL2 || inst.staticInst.isStore then inst.setInvalid else inst
  let core := core.modifyInst head fun _ => marked.isInvalid core.inv
  if (core.insts head).invalid then
    .next ((core.invalidateDestRegs head).retireHead head) numCommitted
  else if inst.squashed then
    .next ((core.invalidateDestRegs head).retireHead head) numCommitted
  else if inst.executed && inst.canCommit then
    .next ((core.invalidateDestRegs head).retireHead head) (numCommitted + 1)
  else .stop core

def normalRetire (numCommitted : Nat) : LoopStep :=
  let core := { core with pc := (core.insts head).pc }
  match core.commitHead env head numCommitted with
  | (core, true) => .next (core.afterCommit env head) (numCommitted + 1)
  | (core, false) => .stop core

def entersRunahead : Bool :=
  !(core.insts head).canCommit && (core.insts head).missedInL2 && !(core.insts head).runaheadInst

def processHead (otherRobs : List Nat) (core : Core)
    (numCommitted : Nat) : Except AssertionFailure LoopStep :=
  match core.rob.readHeadInst with
  | none => .ok (.stop core)
  | some head =>
    if core.entersRunahead head then
      (core.enterRunaheadMode otherRobs head).map .stop
    else if core.inRunahead || (core.insts head).runaheadInst then
      .ok (core.pseudoRetire head numCommitted)
    else if !(core.insts head).canCommit then .ok (.stop core)
    else if (core.insts head).squashed then .ok (.next (core.retireHead head) numCommitted)
    else .ok (core.normalRetire env head numCommitted)

/-- One iteration of the loop in `commitInsts` with a single thread. The
thread is chosen before a pending interrupt is handled. -/
def commitIteration (numCommitted : Nat) : Except AssertionFailure LoopStep :=
  let committing := core.mayCommit
  let core := if core.interrupt then core.handleInterrupt env else core
  if committing then core.processHead env [] numCommitted else .ok (.stop core)

def commitLoop (config : Config) (env : CommitEnv) : Nat → Core → Nat → Except AssertionFailure Core
  | 0, core, _ => .ok core
  | fuel + 1, core, numCommitted =>
    if numCommitted < config.commitWidth then
      match core.commitIteration env numCommitted with
      | .error failure => .error failure
      | .ok (.stop core) => .ok core
      | .ok (.next core numCommitted) => commitLoop config env fuel core numCommitted
    else .ok core

/-- `ROB::debugPrintROB` asks every entry whether it is invalid, also when
nothing is printed, and the entries keep their answers. -/
def debugPrintROB : Core :=
  { core with insts := core.insts.modifyAll core.rob.instList.contains (·.isInvalid core.inv) }

/-- `commitInsts`: every iteration that continues shortens the ROB, so its
length bounds the loop. -/
def commitInsts : Except AssertionFailure Core :=
  commitLoop config env (core.rob.instList.length + 1) core.debugPrintROB 0

def getInst (inst : Nat) : Except AssertionFailure Core :=
  if !(core.insts inst).squashed && core.commitStatus ≠ .robSquashing &&
      core.commitStatus ≠ .trapPending then
    match core.rob.insertInst config.numROBEntries inst with
    | none => .error .robFull
    | some rob =>
      let core :=
        if core.inRunahead then core.modifyInst inst DynInst.setRunaheadInst else core
      .ok { core with rob := rob, youngestSeqNum := inst }
  else .ok core

def getInstsLoop (config : Config) : List Nat → Core → Except AssertionFailure Core
  | [], core => .ok core
  | inst :: rest, core =>
    match core.getInst config inst with
    | .error failure => .error failure
    | .ok core => getInstsLoop config rest core

variable (fromRename : List Nat)

def getInsts (core : Core) : Except AssertionFailure Core :=
  getInstsLoop config (fromRename.take config.renameWidth) core

def markCompletedInsts : Core :=
  { core with
    insts := core.insts.modifyAll
      (fun inst => fromIEW.insts.contains inst && !(core.insts inst).squashed)
      DynInst.setCanCommit }

def ownSquashes : Core :=
  if core.trapSquash then core.squashFromTrap config
  else if core.tcSquash then core.squashFromTC config
  else if core.commitStatus = .squashAfterPending then core.squashFromSquashAfter config
  else core

def handleSquashes (core : Core) : Core :=
  let core := core.ownSquashes config
  if core.acceptsSquash fromIEW then core.squashFromIEW config fromIEW else core

def checkForInterrupts : Core :=
  if config.fullSystem && env.checkInterrupts then core.propagateInterrupt else core

def commit (core : Core) : Except AssertionFailure Core :=
  let core := (core.checkForInterrupts config env).handleSquashes config fromIEW
  if core.commitStatus = .robSquashing then .ok core
  else
    match core.getInsts config fromRename with
    | .error failure => .error failure
    | .ok core => core.commitInsts config env

/-- The ROB part of `tick`: a squash in progress goes on or ends. -/
def continueSquash : Core :=
  if core.commitStatus = .robSquashing then
    if core.rob.doneSquashing then { core with commitStatus := .running }
    else
      let squashing := core.rob.doSquash config.squashWidth core.insts
      { core with
        insts := squashing.1
        rob := squashing.2
        toIEW := { core.toIEW with robSquashing := true } }
  else core

def tick (core : Core) : Except AssertionFailure Core :=
  match (core.continueSquash config).commit config env fromIEW fromRename with
  | .error failure => .error failure
  | .ok core => .ok (core.markCompletedInsts fromIEW)

end Core

end Runahead.O3
