import Runahead.O3.Commit
import Runahead.O3.Rename

/-!
# The single-threaded runaheado3 CPU

One cycle is `CPU::tick`: fetch, rename, IEW and commit run in this order, then
the time buffers advance and removed instructions leave the instruction list.
A step handles one instruction or one signal of a stage, and `phase` keeps the
stages in order. How many instructions a stage handles in a cycle, which
instructions are ready, and what the memory system answers is left to the
events. The stage delays are the defaults: two cycles from rename to IEW, one
cycle everywhere else. Memory responses arrive between two cycles.
-/

set_option autoImplicit false

namespace Runahead.O3

/-! ## Registers of a configuration -/

def renameableClasses : List RegClass := [.int, .float, .vec, .vecElem, .vecPred, .cc]

variable (config : Config)

def Config.archRegs : List RegId :=
  renameableClasses.flatMap fun regClass =>
    (List.range (config.numArchRegs regClass)).map fun index => ⟨regClass, index⟩

/-- The constructor of `CPU` gives the first registers of each class to the
architectural registers; the others start on the free list. -/
def Config.initialMap (reg : RegId) : PhysRegId := ⟨reg.regClass, reg.index⟩

def Config.initialFreeList : List PhysRegId :=
  renameableClasses.flatMap fun regClass =>
    (List.range' (config.numArchRegs regClass)
      (config.numPhysRegs regClass - config.numArchRegs regClass)).map fun index =>
        ⟨regClass, index⟩

def Config.physRegs : List PhysRegId :=
  config.initialFreeList ++ config.archRegs.map Config.initialMap

/-- Every destination is a misc register or an architectural register of the configuration. -/
def Config.knows (staticInst : StaticInst) : Bool :=
  staticInst.destRegs.all fun dest =>
    dest.reg.isFixedMapping || config.archRegs.contains dest.reg

/-! ## State and events -/

/-- A store queue entry. `sent` is the entry's `committed` flag. -/
structure SQEntry where
  seqNum : Nat
  canWB : Bool := false
  sent : Bool := false
  deriving DecidableEq, Repr

inductive Phase where
  | betweenTicks | fetch | rename | iew
  deriving DecidableEq, Repr

structure State where
  core : Core
  phase : Phase
  /-- `globalSeqNum`. -/
  nextSeqNum : Nat
  /-- Fetched instructions that rename has not taken yet. -/
  frontEnd : List Nat
  rename : RenameState
  /-- Renamed in this cycle, one cycle ago (commit reads it), two cycles ago (IEW reads it). -/
  renameQueue0 : List Nat
  renameQueue1 : List Nat
  renameQueue2 : List Nat
  /-- Instructions waiting for dispatch. -/
  skidBuffer : List Nat
  /-- Issued in earlier cycles and not executed yet. -/
  toExecute : List Nat
  issuedNow : List Nat
  storeQueue : List SQEntry
  /-- The slot of `iewQueue` that is being written, and the one commit reads. -/
  iewCurrent : IewStruct
  iewToCommit : IewStruct
  fromCommit : CommitComm
  fetchRedirect : Bool

/-- How the execution of an instruction ends in its cycle. -/
inductive ExecOutcome where
  /-- The instruction is executed, perhaps with a fault. -/
  | finish (fault : Bool) (mispredicted : Bool) (violator : Option Nat)
  /-- A load, atomic or store-conditional starts its memory access. -/
  | access (reqs : List ReqId) (violator : Option Nat)
  /-- Translation is delayed, or the access is blocked or rescheduled. -/
  | defer
  deriving DecidableEq, Repr

inductive Event where
  | memResponse (inst : Nat) (req : ReqId)
  | writeback (inst : Nat) (fault : Bool) (mispredicted : Bool)
  | l2Miss (inst : Nat)
  | completeStore (inst : Nat)
  | trapFires
  | tcWrite (pc : Addr)
  | startTick
  | fetchInst (staticInst : StaticInst) (pc nextPc : Addr)
  | decodeSquash (inst : Nat)
  | startRename
  | renameInst
  | startIEW
  | dispatchInst
  | executeInst (inst : Nat) (outcome : ExecOutcome)
  | issueInst (inst : Nat)
  | instToCommit (inst : Nat)
  | sendStore (inst : Nat)
  | commitTick (env : CommitEnv)

namespace IewStruct

def squashDueToBranch (slot : IewStruct) (seqNum : Nat) (nextPc : Addr) : IewStruct :=
  if !slot.squash || seqNum < slot.squashedSeqNum then
    { slot with
      squash := true
      squashedSeqNum := seqNum
      pc := nextPc
      mispredictInst := some seqNum
      includeSquashInst := false }
  else slot

def squashDueToRunaheadExit (slot : IewStruct) (seqNum : Nat) (pc : Addr) : IewStruct :=
  if !slot.squash || seqNum < slot.squashedSeqNum then
    { slot with
      squash := true
      squashAfterRunahead := true
      squashedSeqNum := seqNum
      includeSquashInst := true
      pc := pc }
  else slot

def squashDueToMemOrder (slot : IewStruct) (seqNum : Nat) (pc : Addr) : IewStruct :=
  if !slot.squash || seqNum ≤ slot.squashedSeqNum then
    { slot with
      squash := true
      squashedSeqNum := seqNum
      pc := pc
      mispredictInst := none
      includeSquashInst := true }
  else slot

end IewStruct

namespace State

variable (config : Config) (state : State) (inst : Nat)

abbrev insts (state : State) : InstTable := state.core.insts

def withInsts (insts : InstTable) : State :=
  { state with core := { state.core with insts := insts } }

def modifyInst (change : DynInst → DynInst) : State :=
  state.withInsts (state.insts.modify inst change)

theorem modifyInst_insts (state : State) (inst : Nat) (change : DynInst → DynInst) :
    (state.modifyInst inst change).insts = state.insts.modify inst change := rfl

theorem modifyInst_modifyInst (state : State) (inst : Nat) (first second : DynInst → DynInst) :
    (state.modifyInst inst first).modifyInst inst second =
      state.modifyInst inst fun dyn => second (first dyn) :=
  congrArg state.withInsts (InstTable.modify_modify state.insts inst first second)

/-! ## Fetch -/

/-- The instructions behind the ROB tail in the instruction list. -/
def instsNotInROB : List Nat :=
  match state.core.rob.readTailInst with
  | none => state.core.instList
  | some tail => (state.core.instList.dropWhile (· != tail)).tail

/-- `squashInstIt` for a list of instructions. -/
def squashInsts (victims : List Nat) : State :=
  { state with core := { state.core with
      insts := state.core.insts.modifyAll (fun inst => victims.contains inst) DynInst.setSquashed
      removeList := state.core.removeList ++ victims } }

/-- A squash from commit empties the front end; `removeInstsNotInROB` marks
everything that is not in the ROB. -/
def squashFetch : State :=
  { state.squashInsts state.instsNotInROB with frontEnd := [] }

def startTick : State :=
  { if state.fromCommit.squash then state.squashFetch else state with phase := .fetch }

def fetchInst (staticInst : StaticInst) (pc nextPc : Addr) : State :=
  let inst : DynInst :=
    { staticInst := staticInst, pc := pc, nextPc := nextPc,
      runaheadInst := state.core.inRunahead }
  { state with
    core := { state.core with
      insts := state.core.insts.modify state.nextSeqNum fun _ => inst
      instList := state.core.instList ++ [state.nextSeqNum] }
    nextSeqNum := state.nextSeqNum + 1
    frontEnd := state.frontEnd ++ [state.nextSeqNum] }

/-- A branch resolved by decode: `removeInstsUntil`. -/
def decodeSquash : State :=
  { state.squashInsts (state.core.instList.filter (inst < ·)) with
    frontEnd := state.frontEnd.filter (· ≤ inst) }

/-! ## Rename -/

def startRename : State :=
  { state with
    rename :=
      if state.fromCommit.squash then state.rename.doSquash state.fromCommit.doneSeqNum
      else state.rename
    phase := .rename }

/-- `renameSrcRegs`: outside runahead mode a source register becomes valid again. -/
def renameSrcRegs : State :=
  let renamed := (state.insts inst).staticInst.srcRegs.map state.rename.renameMap
  { state with core := { state.core with
      insts := state.core.insts.modify inst (·.setRenamedSrcs renamed)
      inv := fun reg =>
        if !state.core.inRunahead && renamed.contains reg then false else state.core.inv reg } }

/-- The loop body of `renameInsts` for the oldest waiting instruction. It waits
when no physical register is free. -/
def renameInst : Option State :=
  match state.frontEnd with
  | [] => none
  | inst :: rest =>
    if (state.insts inst).squashed then some { state with frontEnd := rest }
    else
      let state := state.renameSrcRegs inst
      match state.rename.renameDestRegs inst (state.insts inst).staticInst.destRegs with
      | none => none
      | some (rename, renamed) =>
        some { state with
          core := { state.core with
            insts := state.core.insts.modify inst (·.setRenamedDests renamed)
            inv := fun reg =>
              if (renamed.map (·.2)).contains reg then false else state.core.inv reg }
          rename := rename
          frontEnd := rest
          renameQueue0 := state.renameQueue0 ++ [inst] }

/-! ## Issue, execute, writeback -/

def squashInIQ (inst : DynInst) : DynInst :=
  { inst with squashed := true, canCommit := true, issued := true }

def squashIQ (insts : InstTable) (squashedSeqNum : Nat) : InstTable :=
  insts.modifyAll
    (fun seqNum =>
      let inst := insts seqNum
      decide (squashedSeqNum < seqNum) && inst.dispatched &&
        (!inst.issued || (inst.staticInst.isMemRef && !inst.memOpDone)))
    squashInIQ

/-- The store queue entries that `LSQUnit::squash` removes: from the back up to
the first one that is old enough or may write back. -/
def squashedStores (storeQueue : List SQEntry) (squashedSeqNum : Nat) : List SQEntry :=
  storeQueue.reverse.takeWhile fun entry =>
    decide (squashedSeqNum < entry.seqNum) && !entry.canWB

/-- `LSQUnit::squash` marks the loads and the stores it removes. -/
def squashLSQ (insts : InstTable) (popped : List SQEntry) (squashedSeqNum : Nat) : InstTable :=
  insts.modifyAll
    (fun seqNum => decide (squashedSeqNum < seqNum) && (insts seqNum).dispatched &&
      ((insts seqNum).staticInst.isLoad || (popped.map (·.seqNum)).contains seqNum))
    DynInst.setSquashed

def squashIEW (squashedSeqNum : Nat) : State :=
  let popped := squashedStores state.storeQueue squashedSeqNum
  { state.withInsts (squashLSQ (squashIQ state.insts squashedSeqNum) popped squashedSeqNum) with
    skidBuffer := []
    renameQueue2 := []
    storeQueue := state.storeQueue.take (state.storeQueue.length - popped.length) }

/-- The end of rename's cycle and the signals IEW reads at the start of its own. -/
def startIEW : State :=
  let signals := state.fromCommit
  let state := { state with
    rename :=
      if signals.doneSeqNum ≠ 0 && !signals.squash then
        state.rename.removeFromHistory signals.doneSeqNum
      else state.rename
    phase := .iew
    fetchRedirect := false }
  if signals.squash then state.squashIEW signals.doneSeqNum
  else if signals.robSquashing then { state with renameQueue2 := [] }
  else { state with skidBuffer := state.skidBuffer ++ state.renameQueue2, renameQueue2 := [] }

def dispatchUpdate (inst : DynInst) : DynInst :=
  if inst.staticInst.needsRelease then { inst with dispatched := true, canCommit := true }
  else if inst.staticInst.isNop then
    { inst with dispatched := true, issued := true, executed := true, canCommit := true }
  else { inst with dispatched := true }

def dispatchInst : Option State :=
  match state.skidBuffer with
  | [] => none
  | inst :: rest =>
    let state := { state with skidBuffer := rest }
    if (state.insts inst).squashed then some state
    else
      let staticInst := (state.insts inst).staticInst
      some { state.modifyInst inst dispatchUpdate with
        storeQueue :=
          if staticInst.isStore || staticInst.isAtomic then
            state.storeQueue ++ [{ seqNum := inst }]
          else state.storeQueue }

def issueInst : Option State :=
  let dyn := state.insts inst
  if dyn.dispatched && !dyn.issued && !dyn.executed && !dyn.squashed &&
      (!dyn.staticInst.needsRelease || dyn.released) then
    some { state.modifyInst inst DynInst.setIssued with
      issuedNow := state.issuedNow ++ [inst] }
  else none

/-- The redirect test at the end of the loop in `executeInsts`, and `checkMisprediction`. -/
def redirect (mispredicted : Bool) (violator : Option Nat) : State :=
  if !state.fetchRedirect || !state.iewCurrent.squash ||
      decide (state.iewCurrent.squashedSeqNum > inst) then
    if mispredicted then
      { state with
        fetchRedirect := true
        iewCurrent := state.iewCurrent.squashDueToBranch inst (state.insts inst).nextPc }
    else
      match violator with
      | none => state
      | some load =>
        { state with
          fetchRedirect := true
          iewCurrent := state.iewCurrent.squashDueToMemOrder load (state.insts load).pc }
  else state

/-- A violator is a younger memory instruction that has been dispatched. -/
def violatorPossible : Option Nat → Bool
  | none => true
  | some load => (state.insts inst).staticInst.isMemRef && decide (inst < load) &&
      (state.insts load).dispatched

/-- `executeStore` lets an atomic or a store-conditional write back at once. -/
def allowWriteback (storeQueue : List SQEntry) (inst : Nat) : List SQEntry :=
  storeQueue.map fun entry => if entry.seqNum = inst then { entry with canWB := true } else entry

def executeInst (outcome : ExecOutcome) : Option State :=
  if !state.toExecute.contains inst then none
  else
    let state := { state with toExecute := state.toExecute.erase inst }
    let dyn := state.insts inst
    if dyn.squashed then
      some (state.modifyInst inst (·.setExecuted.setCanCommit))
    else
      match outcome with
      | .finish fault mispredicted violator =>
        if (!mispredicted || dyn.staticInst.isControl) && state.violatorPossible inst violator then
          some ((state.modifyInst inst (·.finish fault)).redirect inst mispredicted violator)
        else none
      | .access reqs violator =>
        if dyn.staticInst.isMemRef && (dyn.staticInst.isLoad || dyn.staticInst.writesAtExecute) &&
            state.violatorPossible inst violator then
          let state := state.modifyInst inst (·.addReqs reqs)
          let state := { state with
            storeQueue :=
              if dyn.staticInst.writesAtExecute then allowWriteback state.storeQueue inst
              else state.storeQueue }
          some (state.redirect inst false violator)
        else none
      | .defer =>
        if dyn.staticInst.isMemRef then
          some (state.modifyInst inst DynInst.clearIssued)
        else none

/-- An executed instruction gets a slot towards commit. With a full writeback
stage this happens some cycles after its execution. -/
def instToCommit : Option State :=
  if (state.insts inst).executed then
    some { state with
      iewCurrent := { state.iewCurrent with insts := state.iewCurrent.insts ++ [inst] } }
  else none

/-- `writebackStores` for the first entry that has not been sent. -/
def sendStore : Option State :=
  match state.storeQueue.find? (fun entry => !entry.sent) with
  | none => none
  | some entry =>
    if entry.seqNum = inst && entry.canWB then
      some { state.modifyInst inst DynInst.setSent with
        storeQueue := state.storeQueue.map fun other =>
          if other.seqNum = inst then { other with sent := true } else other }
    else none

/-! ## Memory system and other events between two cycles -/

def exitRunaheadMode : State :=
  let trigger := state.core.raTriggerInst
  { state with
    core := { state.core with inRunahead := false }
    iewCurrent := state.iewCurrent.squashDueToRunaheadExit trigger (state.insts trigger).pc }

/-- The part of `LSQ::recvTimingResp` that keeps the request bookkeeping. The
data is written back after the last response, so the instruction has not
executed yet. -/
def memResponse (req : ReqId) : Option State :=
  if (state.insts inst).outstandingReqs.contains req && !(state.insts inst).executed then
    let state := state.modifyInst inst (·.reqCompleted req)
    if (state.insts inst).numOutstandingRequests then some state
    else
      let state := state.modifyInst inst DynInst.resetL2Miss
      if state.core.inRunahead && (state.insts inst).triggeredRunahead then
        some state.exitRunaheadMode
      else some state
  else none

/-- `LSQUnit::writeback`: a load, atomic or store-conditional has its data. -/
def writeback (fault mispredicted : Bool) : Option State :=
  let dyn := state.insts inst
  if dyn.dispatched && dyn.issued && !dyn.executed && !state.toExecute.contains inst &&
      !state.issuedNow.contains inst && dyn.staticInst.isMemRef &&
      (dyn.staticInst.isLoad || dyn.staticInst.writesAtExecute) && (!fault || dyn.staticInst.isLoad)
  then
    if dyn.squashed then some state
    else
      some ((state.modifyInst inst (·.finish fault)).redirect inst mispredicted none)
  else none

def l2Miss : Option State :=
  let dyn := state.insts inst
  if dyn.numOutstandingRequests && !dyn.executed && !dyn.squashed then
    some (state.modifyInst inst DynInst.setL2Miss)
  else none

def completeStore : Option State :=
  match state.storeQueue with
  | [] => none
  | entry :: rest =>
    if entry.seqNum = inst && entry.sent then some { state with storeQueue := rest } else none

def trapFires : Option State :=
  if state.core.trapInFlight && !state.core.trapSquash then
    some { state with core := { state.core with trapSquash := true } }
  else none

/-- A write through the thread context (`conditionalSquash`), which may also set the PC. -/
def tcWrite (pc : Addr) : Option State :=
  if state.core.trapInFlight || state.core.tcSquash then none
  else some { state with core := { state.core with tcSquash := true, pc := pc } }

/-! ## The cycle -/

def commitStores (storeQueue : List SQEntry) (doneSeqNum : Nat) : List SQEntry :=
  storeQueue.map fun entry =>
    if entry.seqNum ≤ doneSeqNum then { entry with canWB := true } else entry

/-- The end of IEW's cycle: what commit has told it. -/
def finishIEW : State :=
  let signals := state.fromCommit
  let state := { state with
    storeQueue :=
      if signals.doneSeqNum ≠ 0 && !signals.squash && !signals.robSquashing then
        commitStores state.storeQueue signals.doneSeqNum
      else state.storeQueue }
  if signals.nonSpecSeqNum ≠ 0 then
    state.modifyInst signals.nonSpecSeqNum DynInst.setReleased
  else state

/-- Control and memory instructions leave the functional units one cycle after
issue; only other instructions may still be executing. -/
def executionDone : Bool :=
  state.toExecute.all fun inst =>
    !(state.insts inst).staticInst.isControl && !(state.insts inst).staticInst.isMemRef

/-- The time buffers advance, and `cleanUpRemovedInsts` runs. -/
def advance : State :=
  { state with
    core := { state.core with
      toIEW := {}
      instList := state.core.instList.filter fun inst => !state.core.removeList.contains inst
      removeList := [] }
    phase := .betweenTicks
    renameQueue0 := []
    renameQueue1 := state.renameQueue0
    renameQueue2 := state.renameQueue1
    toExecute := state.toExecute ++ state.issuedNow
    issuedNow := []
    iewCurrent := {}
    iewToCommit := state.iewCurrent
    fromCommit := state.core.toIEW }

/-- The end of a cycle: IEW reads the rest of its signals, commit runs. -/
def commitTick (env : CommitEnv) : Option State :=
  if state.executionDone then
    let state := state.finishIEW
    let env := { env with hasStoresToWB := state.storeQueue.any (·.canWB) }
    match state.core.tick config env state.iewToCommit state.renameQueue1 with
    | .error _ => none
    | .ok core => some { state with core := core }.advance
  else none

/-- One step. Rename is blocked while the ROB squashes: IEW sends the block
before the first refetched instruction reaches rename. -/
def step : Event → Option State
  | .memResponse inst req =>
    if state.phase = .betweenTicks then state.memResponse inst req else none
  | .writeback inst fault mispredicted =>
    if state.phase = .betweenTicks then state.writeback inst fault mispredicted else none
  | .l2Miss inst => if state.phase = .betweenTicks then state.l2Miss inst else none
  | .completeStore inst =>
    if state.phase = .betweenTicks then state.completeStore inst else none
  | .trapFires => if state.phase = .betweenTicks then state.trapFires else none
  | .tcWrite pc => if state.phase = .betweenTicks then state.tcWrite pc else none
  | .startTick => if state.phase = .betweenTicks then some state.startTick else none
  | .fetchInst staticInst pc nextPc =>
    if state.phase = .fetch && !state.fromCommit.squash && config.knows staticInst then
      some (state.fetchInst staticInst pc nextPc)
    else none
  | .decodeSquash inst =>
    if state.phase = .fetch && !state.fromCommit.squash && state.frontEnd.contains inst then
      some (state.decodeSquash inst)
    else none
  | .startRename => if state.phase = .fetch then some state.startRename else none
  | .renameInst =>
    if state.phase = .rename && !state.fromCommit.squash && !state.fromCommit.robSquashing &&
        decide (state.renameQueue0.length < config.renameWidth) then
      state.renameInst
    else none
  | .startIEW => if state.phase = .rename then some state.startIEW else none
  | .dispatchInst =>
    if state.phase = .iew && !state.fromCommit.squash then state.dispatchInst else none
  | .executeInst inst outcome =>
    if state.phase = .iew then state.executeInst inst outcome else none
  | .issueInst inst => if state.phase = .iew then state.issueInst inst else none
  | .instToCommit inst =>
    if state.phase = .iew || state.phase = .betweenTicks then state.instToCommit inst else none
  | .sendStore inst => if state.phase = .iew then state.sendStore inst else none
  | .commitTick env => if state.phase = .iew then state.commitTick config env else none

def initial (pc : Addr) : State where
  core :=
    { insts := fun _ => {}, inRunahead := false, raTriggerInst := 0, instList := [],
      removeList := [], inv := fun _ => false, interrupt := false, canHandleInterrupts := true,
      avoidQuiesceLiveLock := false, committed := [], rob := {}, commitStatus := .running,
      trapSquash := false, tcSquash := false, trapInFlight := false, squashAfterInst := none,
      pc := pc, youngestSeqNum := 0, lastCommitedSeqNum := 0,
      commitRenameMap := Config.initialMap, toIEW := {} }
  phase := .betweenTicks
  nextSeqNum := 1
  frontEnd := []
  rename :=
    { renameMap := Config.initialMap, freeList := config.initialFreeList, historyBuffer := [] }
  renameQueue0 := []
  renameQueue1 := []
  renameQueue2 := []
  skidBuffer := []
  toExecute := []
  issuedNow := []
  storeQueue := []
  iewCurrent := {}
  iewToCommit := {}
  fromCommit := {}
  fetchRedirect := false

end State

end Runahead.O3
