import Runahead.DynInst
import Runahead.Library.UndoLog

/-!
# The rename unit of runaheado3

`rename.cc`, `rename_map.cc` and `free_list.hh`: speculative rename map, free
list and history buffer. The per-class free lists are one list, in which each
class keeps its own order. Switching the vector rename mode is left out.
-/

set_option autoImplicit false

namespace Runahead.O3

open Library

structure RenameHistory where
  instSeqNum : Nat
  archReg : RegId
  newPhysReg : PhysRegId
  prevPhysReg : PhysRegId
  deriving DecidableEq, Repr

/-- The history buffer is an undo log of the rename map. -/
def historyView : Overwrite RenameHistory RegId PhysRegId where
  key := RenameHistory.archReg
  new := RenameHistory.newPhysReg
  prev := RenameHistory.prevPhysReg

structure RenameState where
  renameMap : RegId → PhysRegId
  freeList : List PhysRegId
  /-- Newest entry first. -/
  historyBuffer : List RenameHistory

namespace RenameState

def undoEntry (state : RenameState) (entry : RenameHistory) : RenameState :=
  if entry.newPhysReg ≠ entry.prevPhysReg then
    { state with
      renameMap := Function.update state.renameMap entry.archReg entry.prevPhysReg
      freeList := state.freeList ++ [entry.newPhysReg] }
  else state

def doSquashLoop (squashedSeqNum : Nat) : List RenameHistory → RenameState → RenameState
  | [], state => { state with historyBuffer := [] }
  | entry :: older, state =>
    if squashedSeqNum < entry.instSeqNum then
      doSquashLoop squashedSeqNum older (state.undoEntry entry)
    else { state with historyBuffer := entry :: older }

variable (state : RenameState) (squashedSeqNum : Nat)

def doSquash : RenameState :=
  doSquashLoop squashedSeqNum state.historyBuffer state

def getReg (freeList : List PhysRegId) (regClass : RegClass) : Option PhysRegId :=
  freeList.find? (fun reg => reg.regClass = regClass)

/-- `UnifiedRenameMap::rename`: the new mapping and the free list after it. -/
def renameReg (dest : DestOperand) : Option (PhysRegId × List PhysRegId) :=
  if dest.reg.isFixedMapping || dest.keepsMapping then
    some (state.renameMap dest.reg, state.freeList)
  else
    match getReg state.freeList dest.reg.regClass with
    | none => none
    | some reg => some (reg, state.freeList.erase reg)

def renameDestReg (inst : Nat) (dest : DestOperand) : Option (PhysRegId × RenameState) :=
  match state.renameReg dest with
  | none => none
  | some (phys, freeList) =>
    some (phys, {
      renameMap := Function.update state.renameMap dest.reg phys
      freeList := freeList
      historyBuffer :=
        { instSeqNum := inst, archReg := dest.reg, newPhysReg := phys,
          prevPhysReg := state.renameMap dest.reg } :: state.historyBuffer })

/-- `renameDestRegs`: the new unit and the mappings given to the instruction.
It refuses when no register of a class is free. -/
def renameDestRegs (state : RenameState) (inst : Nat) :
    List DestOperand → Option (RenameState × List (RegId × PhysRegId))
  | [] => some (state, [])
  | dest :: rest =>
    match state.renameDestReg inst dest with
    | none => none
    | some (phys, state) =>
      match state.renameDestRegs inst rest with
      | none => none
      | some (state, renamed) => some (state, (dest.reg, phys) :: renamed)

def removeFromHistoryLoop (instSeqNum : Nat) :
    List RenameHistory → List PhysRegId → List RenameHistory × List PhysRegId
  | [], freeList => ([], freeList)
  | entry :: newer, freeList =>
    if entry.instSeqNum ≤ instSeqNum then
      removeFromHistoryLoop instSeqNum newer
        (if entry.newPhysReg ≠ entry.prevPhysReg then freeList ++ [entry.prevPhysReg]
        else freeList)
    else (entry :: newer, freeList)

def removeFromHistory (instSeqNum : Nat) : RenameState :=
  let removed := removeFromHistoryLoop instSeqNum state.historyBuffer.reverse state.freeList
  { state with historyBuffer := removed.1.reverse, freeList := removed.2 }

/-! ## Squashing -/

/-- The entries that a squash undoes, newest first. -/
def squashedEntries : List RenameHistory :=
  state.historyBuffer.takeWhile (fun entry => squashedSeqNum < entry.instSeqNum)

theorem doSquash_historyBuffer :
    (state.doSquash squashedSeqNum).historyBuffer =
      state.historyBuffer.dropWhile (fun entry => squashedSeqNum < entry.instSeqNum) := by
  have loop : ∀ (entries : List RenameHistory) (state : RenameState),
      (doSquashLoop squashedSeqNum entries state).historyBuffer =
        entries.dropWhile (fun entry => squashedSeqNum < entry.instSeqNum) := by
    intro entries
    induction entries with
    | nil => intro state; rfl
    | cons entry older ih =>
      intro state
      by_cases younger : squashedSeqNum < entry.instSeqNum
      · simp [doSquashLoop, younger, ih]
      · simp [doSquashLoop, younger]
  exact loop _ _

theorem doSquash_freeList :
    (state.doSquash squashedSeqNum).freeList = state.freeList ++
      (state.squashedEntries squashedSeqNum).filterMap (fun entry =>
        if entry.newPhysReg = entry.prevPhysReg then none else some entry.newPhysReg) := by
  have loop : ∀ (entries : List RenameHistory) (state : RenameState),
      (doSquashLoop squashedSeqNum entries state).freeList = state.freeList ++
        (entries.takeWhile (fun entry => squashedSeqNum < entry.instSeqNum)).filterMap
          (fun entry => if entry.newPhysReg = entry.prevPhysReg then none
            else some entry.newPhysReg) := by
    intro entries
    induction entries with
    | nil => intro state; simp [doSquashLoop]
    | cons entry older ih =>
      intro state
      by_cases younger : squashedSeqNum < entry.instSeqNum
      · simp only [doSquashLoop, younger, ↓reduceIte, ih, decide_true, List.takeWhile_cons]
        by_cases kept : entry.newPhysReg = entry.prevPhysReg
        · simp [undoEntry, kept]
        · simp [undoEntry, kept]
      · simp [doSquashLoop, younger]
  exact loop _ _

end RenameState

end Runahead.O3
