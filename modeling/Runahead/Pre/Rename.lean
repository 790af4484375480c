import Runahead.O3.Rename

/-!
# The rename unit of the PRE CPU

`pre/rename.cc`: rename map, free list and history buffer as in the other models,
together with the precise register deallocation queue (PRDQ), which gives back
registers early while the CPU is in PRE mode. Each physical register carries the
flags that keep the two ways to free it apart. A panic ends the run.
-/

set_option autoImplicit false

namespace Runahead.Pre

open O3 (RenameHistory)

/-- The flags of `PhysRegId` for PRE. -/
structure RegFlags where
  renamedInNormalMode : Bool := false
  renamedInPreMode : Bool := false
  wasFreed : Bool := false
  deriving DecidableEq, Repr

def RegFlags.freed : RegFlags where
  wasFreed := true

structure PrdqEntry where
  physRegToFree : PhysRegId
  instId : Nat
  executed : Bool := false
  deriving DecidableEq, Repr

structure RenameUnit where
  renameMap : RegId → PhysRegId
  freeList : List PhysRegId
  /-- Newest entry first. -/
  historyBuffer : List RenameHistory
  flags : PhysRegId → RegFlags
  /-- Oldest entry first. -/
  prdq : List PrdqEntry
  inPreMode : Bool

namespace RenameUnit

variable (useRRR : Bool) (unit : RenameUnit) (inst : Nat)

def addReg (reg : PhysRegId) : RenameUnit :=
  { unit with
    freeList := unit.freeList ++ [reg]
    flags := Function.update unit.flags reg .freed }

/-! ## Squash and commit -/

def undoEntry (entry : RenameHistory) : RenameUnit :=
  if entry.newPhysReg ≠ entry.prevPhysReg then
    let unit := { unit with
      renameMap := Function.update unit.renameMap entry.archReg entry.prevPhysReg }
    if (unit.flags entry.newPhysReg).wasFreed then unit else unit.addReg entry.newPhysReg
  else unit

def doSquashLoop (squashedSeqNum : Nat) : List RenameHistory → RenameUnit → RenameUnit
  | [], unit => { unit with historyBuffer := [] }
  | entry :: older, unit =>
    if squashedSeqNum < entry.instSeqNum then
      doSquashLoop squashedSeqNum older (unit.undoEntry entry)
    else { unit with historyBuffer := entry :: older }

def doSquash (squashedSeqNum : Nat) : RenameUnit :=
  doSquashLoop squashedSeqNum unit.historyBuffer unit

/-- One iteration of `removeFromHistory`, which panics if the register is free already. -/
def removeEntry (entry : RenameHistory) : Option RenameUnit :=
  if (unit.flags entry.prevPhysReg).wasFreed then none
  else if entry.newPhysReg ≠ entry.prevPhysReg then some (unit.addReg entry.prevPhysReg)
  else some unit

def removeFromHistoryLoop (instSeqNum : Nat) : List RenameHistory → RenameUnit → Option RenameUnit
  | [], unit => some { unit with historyBuffer := [] }
  | entry :: newer, unit =>
    if entry.instSeqNum ≤ instSeqNum then
      (unit.removeEntry entry).bind (removeFromHistoryLoop instSeqNum newer)
    else some { unit with historyBuffer := (entry :: newer).reverse }

def removeFromHistory (instSeqNum : Nat) : Option RenameUnit :=
  removeFromHistoryLoop instSeqNum unit.historyBuffer.reverse unit

/-! ## Rename -/

def prdqAddEntry (oldReg : PhysRegId) : RenameUnit :=
  if useRRR then
    { unit with prdq := unit.prdq ++ [{ physRegToFree := oldReg, instId := inst }] }
  else unit

/-- `UnifiedRenameMap::rename`: the new mapping and the free list after it. -/
def renameReg (dest : DestOperand) : Option (PhysRegId × List PhysRegId) :=
  if dest.reg.isFixedMapping || dest.keepsMapping then
    some (unit.renameMap dest.reg, unit.freeList)
  else (O3.RenameState.getReg unit.freeList dest.reg.regClass).map fun reg =>
    (reg, unit.freeList.erase reg)

/-- The flags of a register that an instruction gets; nothing in the ROB is renamed any more. -/
def givenFlags (inPreMode : Bool) (flags : RegFlags) : RegFlags :=
  { flags with
    renamedInNormalMode := flags.renamedInNormalMode || !inPreMode
    renamedInPreMode := flags.renamedInPreMode || inPreMode
    wasFreed := false }

/-- One iteration of `renameDestRegs`; it panics if the register has been renamed in
both modes. -/
def renameDestReg (dest : DestOperand) : Option RenameUnit :=
  (unit.renameReg dest).bind fun renamed =>
    let prevReg := unit.renameMap dest.reg
    let flags := givenFlags unit.inPreMode (unit.flags renamed.1)
    if flags.renamedInPreMode && flags.renamedInNormalMode && renamed.1 ≠ prevReg then none
    else
      let unit := if unit.inPreMode then unit.prdqAddEntry useRRR inst prevReg else unit
      some { unit with
        renameMap := Function.update unit.renameMap dest.reg renamed.1
        freeList := renamed.2
        flags := Function.update unit.flags renamed.1 flags
        historyBuffer :=
          { instSeqNum := inst, archReg := dest.reg, newPhysReg := renamed.1,
            prevPhysReg := prevReg } :: unit.historyBuffer }

def renameDestRegs (dests : List DestOperand) : Option RenameUnit :=
  dests.foldlM (fun unit dest => unit.renameDestReg useRRR inst dest) unit

/-! ## PRDQ -/

def prdqMarkInstExecuted : RenameUnit :=
  { unit with
    prdq := unit.prdq.map fun entry =>
      if entry.instId = inst then { entry with executed := true } else entry }

/-- A history entry of the instruction that retires from the PRDQ: its previous register
is freed unless a normal instruction may still need it. -/
def prdqFreeReg (entry : RenameHistory) : Option RenameUnit :=
  if (unit.flags entry.prevPhysReg).renamedInNormalMode then some unit
  else if entry.newPhysReg = entry.prevPhysReg then some unit
  else if (unit.flags entry.prevPhysReg).wasFreed then none
  else some (unit.addReg entry.prevPhysReg)

/-- The history entries of an instruction, oldest first, as the walk from the end of the
buffer meets them. -/
def historyOf : List RenameHistory :=
  (unit.historyBuffer.reverse.takeWhile fun entry => entry.instSeqNum ≤ inst).filter
    fun entry => entry.instSeqNum = inst

/-- `prdqRetireEntry`; the result says whether something has retired. -/
def prdqRetireEntry : Option (Bool × RenameUnit) :=
  match unit.prdq with
  | [] => some (false, unit)
  | front :: _ =>
    if front.executed then
      let popped := { unit with
        prdq := unit.prdq.dropWhile fun entry => entry.executed && entry.instId = front.instId }
      ((unit.historyOf front.instId).foldlM prdqFreeReg popped).map fun unit => (true, unit)
    else some (false, unit)

def enterPreMode : RenameUnit := { unit with inPreMode := true }

/-- `exitPreMode` with `emptyPRDQ`. -/
def exitPreMode : RenameUnit :=
  { unit with
    inPreMode := false
    prdq := if useRRR then [] else unit.prdq }

end RenameUnit

end Runahead.Pre
