import Mathlib.Data.List.Basic
import Mathlib.Logic.Function.Basic

/-!
# The memory dependence unit

The unit of one thread. A speculative memory instruction waits for the barriers
that are outstanding when it is inserted or, if there are none, for the store that
the dependence predictor names. Entries are shared: the list of an entry's
dependents may still hold an entry that has left the hash, so entries are kept by
sequence number and `memDepHash` says which of them can be found.

The predictor is represented by the stores it has been told about: `checkInst` may
name any of them, or none.
-/

set_option autoImplicit false

namespace Runahead.O3.MemDep

structure MemInst where
  seqNum : Nat
  isLoad : Bool := false
  isStore : Bool := false
  isAtomic : Bool := false
  isReadBarrier : Bool := false
  isWriteBarrier : Bool := false
  isHtmCmd : Bool := false
  deriving DecidableEq, Repr

namespace MemInst

def isLoadBarrier (inst : MemInst) : Bool := inst.isReadBarrier || inst.isHtmCmd

def isStoreBarrier (inst : MemInst) : Bool := inst.isWriteBarrier || inst.isHtmCmd

/-- "Only stores, atomics and barriers have dependents." -/
def hasDependents (inst : MemInst) : Bool :=
  inst.isStore || inst.isAtomic || inst.isReadBarrier || inst.isWriteBarrier || inst.isHtmCmd

end MemInst

structure MemDepEntry where
  inst : MemInst
  dependInsts : List Nat := []
  regsReady : Bool := false
  memDeps : Int := 0
  squashed : Bool := false
  deriving DecidableEq, Repr

/-- Assertions and panics. -/
inductive Failure where
  /-- `assert(hash_it != memDepHash.end())`. -/
  | notInHash
  /-- `wakeDependents`: `assert(woken_inst->memDeps > 0)`. -/
  | noDependences
  /-- `moveToReady`: `assert(!woken_inst_entry->squashed)`. -/
  | movedSquashed
  /-- `completeInst`: `assert(hasStoreBarrier())`, `assert(hasLoadBarrier())`. -/
  | noBarrier
  /-- "Unknown type! (most likely a barrier)." -/
  | unknownType
  deriving DecidableEq, Repr

structure MemDepUnit where
  entries : Nat → MemDepEntry := fun seqNum => { inst := { seqNum := seqNum } }
  memDepHash : List Nat := []
  instList : List Nat := []
  instsToReplay : List Nat := []
  loadBarrierSNs : List Nat := []
  storeBarrierSNs : List Nat := []
  /-- The calls of `depPred.insertStore`. -/
  depPredStores : List Nat := []
  /-- What `iqPtr->addReadyMemInst` has put on the ready lists and is still there. -/
  readyList : List Nat := []

namespace MemDepUnit

variable (unit : MemDepUnit) (seqNum : Nat)

def setEntry (entry : MemDepEntry) : MemDepUnit :=
  { unit with entries := Function.update unit.entries seqNum entry }

def moveToReady : Except Failure MemDepUnit :=
  if (unit.entries seqNum).squashed then .error .movedSquashed
  else .ok { unit with readyList := unit.readyList ++ [seqNum] }

/-! ## Insertion -/

def insertBarrierSN (barrInst : MemInst) : MemDepUnit :=
  { unit with
    loadBarrierSNs :=
      if barrInst.isLoadBarrier then unit.loadBarrierSNs.insert barrInst.seqNum
      else unit.loadBarrierSNs
    storeBarrierSNs :=
      if barrInst.isStoreBarrier then unit.storeBarrierSNs.insert barrInst.seqNum
      else unit.storeBarrierSNs }

variable (inst : MemInst)

def addEntry : MemDepUnit :=
  { unit.setEntry inst.seqNum { inst := inst } with
    memDepHash := unit.memDepHash.insert inst.seqNum
    instList := unit.instList ++ [inst.seqNum] }

/-- The barriers, or else the predicted store, that an instruction has to wait for. -/
def producingStores (dep : Option Nat) : List Nat :=
  if (inst.isLoad || inst.isAtomic) && !unit.loadBarrierSNs.isEmpty then unit.loadBarrierSNs
  else if (inst.isStore || inst.isAtomic) && !unit.storeBarrierSNs.isEmpty then
    unit.storeBarrierSNs
  else dep.toList

def addDependent (storeEntries : List Nat) : MemDepUnit :=
  { unit with
    entries := fun other =>
      if other ∈ storeEntries then
        { unit.entries other with dependInsts := (unit.entries other).dependInsts ++ [seqNum] }
      else unit.entries other }

/-- What `insert` and `insertNonSpec` tell the predictor. -/
def insertPredicted : Except Failure MemDepUnit :=
  if inst.isStore || inst.isAtomic then
    .ok { unit with depPredStores := unit.depPredStores ++ [inst.seqNum] }
  else if inst.isLoad then .ok unit
  else .error .unknownType

/-- The new entry waits for the entries of the producing stores that are in the hash. -/
def resolve (readyToIssue : Bool) (storeEntries : List Nat) : Except Failure MemDepUnit :=
  let unit := unit.setEntry inst.seqNum
    { unit.entries inst.seqNum with
      regsReady := readyToIssue, memDeps := storeEntries.length }
  if storeEntries.isEmpty then
    if readyToIssue then unit.moveToReady inst.seqNum else .ok unit
  else .ok (unit.addDependent inst.seqNum storeEntries)

/-- `insert`. The registers may be ready already, and `dep` is the answer of the
predictor. -/
def insert (readyToIssue : Bool) (dep : Option Nat) : Except Failure MemDepUnit :=
  let producing := unit.producingStores inst dep
  let unit := unit.addEntry inst
  match unit.resolve inst readyToIssue (producing.filter (· ∈ unit.memDepHash)) with
  | .error failure => .error failure
  | .ok unit => (unit.insertBarrierSN inst).insertPredicted inst

def insertBarrier (barrInst : MemInst) : MemDepUnit :=
  (unit.addEntry barrInst).insertBarrierSN barrInst

def insertNonSpec : Except Failure MemDepUnit :=
  (unit.insertBarrier inst).insertPredicted inst

/-! ## Wake-up -/

def regsReady (unit : MemDepUnit) (seqNum : Nat) : Except Failure MemDepUnit :=
  if seqNum ∈ unit.memDepHash then
    let unit := unit.setEntry seqNum { unit.entries seqNum with regsReady := true }
    if (unit.entries seqNum).memDeps = 0 then unit.moveToReady seqNum else .ok unit
  else .error .notInHash

def nonSpecInstReady : Except Failure MemDepUnit :=
  if seqNum ∈ unit.memDepHash then unit.moveToReady seqNum else .error .notInHash

def reschedule : MemDepUnit :=
  { unit with instsToReplay := unit.instsToReplay ++ [seqNum] }

variable {seqNum}

/-- The loop of `replay` over the instructions that wait for it. -/
def replayLoop (unit : MemDepUnit) : List Nat → Except Failure MemDepUnit
  | [] => .ok unit
  | seqNum :: rest =>
    if seqNum ∈ unit.memDepHash then
      match unit.moveToReady seqNum with
      | .error failure => .error failure
      | .ok moved => { moved with instsToReplay := rest }.replayLoop rest
    else .error .notInHash

def replay : Except Failure MemDepUnit := unit.replayLoop unit.instsToReplay

def wakeLoop (unit : MemDepUnit) : List Nat → Except Failure MemDepUnit
  | [] => .ok unit
  | woken :: rest =>
    if 0 < (unit.entries woken).memDeps then
      let entry := { unit.entries woken with memDeps := (unit.entries woken).memDeps - 1 }
      let unit := unit.setEntry woken entry
      if entry.memDeps = 0 && entry.regsReady && !entry.squashed then
        match unit.moveToReady woken with
        | .error failure => .error failure
        | .ok unit => unit.wakeLoop rest
      else unit.wakeLoop rest
    else .error .noDependences

def wakeDependents (seqNum : Nat) : Except Failure MemDepUnit :=
  if (unit.entries seqNum).inst.hasDependents then
    if seqNum ∈ unit.memDepHash then
      match unit.wakeLoop (unit.entries seqNum).dependInsts with
      | .error failure => .error failure
      | .ok unit => .ok (unit.setEntry seqNum { unit.entries seqNum with dependInsts := [] })
    else .error .notInHash
  else .ok unit

def completed (seqNum : Nat) : Except Failure MemDepUnit :=
  if seqNum ∈ unit.memDepHash then
    .ok { unit with
      memDepHash := unit.memDepHash.filter (· ≠ seqNum)
      instList := unit.instList.filter (· ≠ seqNum) }
  else .error .notInHash

def eraseStoreBarrier : Except Failure MemDepUnit :=
  if inst.isStoreBarrier then
    if unit.storeBarrierSNs.isEmpty then .error .noBarrier
    else .ok { unit with storeBarrierSNs := unit.storeBarrierSNs.filter (· ≠ inst.seqNum) }
  else .ok unit

def eraseLoadBarrier : Except Failure MemDepUnit :=
  if inst.isLoadBarrier then
    if unit.loadBarrierSNs.isEmpty then .error .noBarrier
    else .ok { unit with loadBarrierSNs := unit.loadBarrierSNs.filter (· ≠ inst.seqNum) }
  else .ok unit

def completeInst (seqNum : Nat) : Except Failure MemDepUnit := do
  let unit ← unit.wakeDependents seqNum
  let unit ← unit.completed seqNum
  let unit ← unit.eraseStoreBarrier (unit.entries seqNum).inst
  unit.eraseLoadBarrier (unit.entries seqNum).inst

/-! ## Squash -/

def squashInst (seqNum : Nat) : MemDepUnit :=
  { unit.setEntry seqNum { unit.entries seqNum with squashed := true } with
    loadBarrierSNs := unit.loadBarrierSNs.filter (· ≠ seqNum)
    storeBarrierSNs := unit.storeBarrierSNs.filter (· ≠ seqNum)
    memDepHash := unit.memDepHash.filter (· ≠ seqNum)
    instList := unit.instList.dropLast }

/-- The second loop of `squash`; it ends at the latest with an empty list. -/
def squashLoop (squashedNum : Nat) : Nat → MemDepUnit → Except Failure MemDepUnit
  | 0, unit => .ok unit
  | fuel + 1, unit =>
    match unit.instList.getLast? with
    | none => .ok unit
    | some seqNum =>
      if squashedNum < seqNum then
        if seqNum ∈ unit.memDepHash then squashLoop squashedNum fuel (unit.squashInst seqNum)
        else .error .notInHash
      else .ok unit

def squash (squashedNum : Nat) : Except Failure MemDepUnit :=
  squashLoop squashedNum unit.instList.length
    { unit with instsToReplay := unit.instsToReplay.filter (· ≤ squashedNum) }

end MemDepUnit

/-! ## Runs -/

/-- The unit, and what has happened to the instructions of the thread. -/
structure Run where
  unit : MemDepUnit := {}
  inserted : List MemInst := []
  /-- Inserted by `insert`. -/
  speculative : List Nat := []
  /-- Taken from the ready list for execution, and not rescheduled since. -/
  issued : List Nat := []
  completed : List Nat := []
  squashed : List Nat := []

inductive MemDepEvent where
  | insert (inst : MemInst) (readyToIssue : Bool) (dep : Option Nat)
  | insertNonSpec (inst : MemInst)
  | insertBarrier (barrInst : MemInst)
  | regsReady (seqNum : Nat)
  | nonSpecInstReady (seqNum : Nat)
  | issue (seqNum : Nat)
  | reschedule (seqNum : Nat)
  | replay
  | completeInst (seqNum : Nat)
  | squash (squashedNum : Nat)
  deriving DecidableEq, Repr

namespace Run

def isYoungest (run : Run) (inst : MemInst) : Bool :=
  run.inserted.all (·.seqNum < inst.seqNum)

def withUnit (run : Run) (result : Except MemDep.Failure MemDepUnit) : Option Run :=
  result.toOption.map fun unit => { run with unit := unit }

/-- One call. The instruction queue reports as ready for execution without
speculation only what it has inserted so, and reschedules only what it has issued. -/
def step (run : Run) : MemDepEvent → Option Run
  | .insert inst readyToIssue dep =>
    if run.isYoungest inst && dep.all (· ∈ run.unit.depPredStores) then
      { run with
        inserted := run.inserted ++ [inst]
        speculative := run.speculative ++ [inst.seqNum] }.withUnit
          (run.unit.insert inst readyToIssue dep)
    else none
  | .insertNonSpec inst =>
    if run.isYoungest inst then
      { run with inserted := run.inserted ++ [inst] }.withUnit (run.unit.insertNonSpec inst)
    else none
  | .insertBarrier barrInst =>
    if run.isYoungest barrInst then
      some { run with
        inserted := run.inserted ++ [barrInst], unit := run.unit.insertBarrier barrInst }
    else none
  | .regsReady seqNum => run.withUnit (run.unit.regsReady seqNum)
  | .nonSpecInstReady seqNum =>
    if seqNum ∈ run.speculative then none else run.withUnit (run.unit.nonSpecInstReady seqNum)
  | .issue seqNum =>
    if seqNum ∈ run.unit.readyList then
      some { run with
        unit := { run.unit with readyList := run.unit.readyList.erase seqNum }
        issued := run.issued ++ [seqNum] }
    else none
  | .reschedule seqNum =>
    if seqNum ∈ run.issued then
      some { run with
        unit := run.unit.reschedule seqNum, issued := run.issued.erase seqNum }
    else none
  | .replay => run.withUnit run.unit.replay
  | .completeInst seqNum =>
    { run with completed := run.completed ++ [seqNum] }.withUnit (run.unit.completeInst seqNum)
  | .squash squashedNum =>
    { run with
      squashed := run.squashed ++
        (run.inserted.map MemInst.seqNum).filter (squashedNum < ·) }.withUnit
      (run.unit.squash squashedNum)

end Run

end Runahead.O3.MemDep
