import Mathlib.Data.List.Basic

/-!
# Dynamic instructions

Registers, decoded instructions and the dynamic instructions shared by all
pipeline stages (`reg_class.hh`, `dyn_inst_parent.{hh,cc}` and the status bits
of `dyn_inst.hh`). The simulator passes reference-counted pointers between its
stages. Here one table maps sequence numbers to instructions, and every queue
holds sequence numbers.
-/

set_option autoImplicit false

namespace Runahead

abbrev ReqId := Nat
abbrev Addr := Nat
abbrev ThreadID := Nat

inductive RegClass where
  | int | float | vec | vecElem | vecPred | cc | misc
  deriving DecidableEq, Repr

structure RegId where
  regClass : RegClass
  index : Nat
  deriving DecidableEq, Repr

structure PhysRegId where
  regClass : RegClass
  index : Nat
  deriving DecidableEq, Repr

/-- `PhysRegId::isFixedMapping`: misc registers are never renamed. -/
def RegId.isFixedMapping (reg : RegId) : Bool := reg.regClass = .misc
def PhysRegId.isFixedMapping (reg : PhysRegId) : Bool := reg.regClass = .misc

/-- A destination operand. `keepsMapping` says that the rename map hands out
the previous mapping again, which it does for the zero register and while the
previous mapping still has pinned writes left. -/
structure DestOperand where
  reg : RegId
  keepsMapping : Bool := false
  deriving DecidableEq, Repr

structure StaticInst where
  isLoad : Bool := false
  isStore : Bool := false
  isAtomic : Bool := false
  isStoreConditional : Bool := false
  isNonSpeculative : Bool := false
  isReadBarrier : Bool := false
  isWriteBarrier : Bool := false
  isNop : Bool := false
  isControl : Bool := false
  isSquashAfter : Bool := false
  isDelayedCommit : Bool := false
  isMicroop : Bool := false
  isLastMicroop : Bool := false
  srcRegs : List RegId := []
  destRegs : List DestOperand := []
  deriving DecidableEq, Repr

variable (inst : StaticInst)

def StaticInst.isMemRef : Bool :=
  inst.isLoad || inst.isStore || inst.isAtomic

/-- Instructions that take effect in memory when they execute and not when
they commit: atomic operations and store-conditionals. -/
def StaticInst.writesAtExecute : Bool :=
  inst.isAtomic || inst.isStoreConditional

/-- Instructions that `dispatchInsts` hands to the instruction queue as
non-speculative: they issue only after commit has released them. A load counts
as a load first, even if it is a barrier too. -/
def StaticInst.needsRelease : Bool :=
  if inst.isAtomic then true
  else if inst.isLoad then inst.isNonSpeculative
  else if inst.isStore then inst.isStoreConditional || inst.isNonSpeculative
  else if inst.isReadBarrier || inst.isWriteBarrier then true
  else !inst.isNop && inst.isNonSpeculative

/-- The loop of `reqCompleted`, which steps past the element that follows an erased one. -/
def reqCompleted {Req : Type} [DecidableEq Req] (req : Req) : List Req → List Req
  | [] => []
  | first :: rest =>
    if first = req then
      match rest with
      | [] => []
      | next :: later => next :: reqCompleted req later
    else first :: reqCompleted req rest

@[simp] theorem reqCompleted_nil {Req : Type} [DecidableEq Req] (req : Req) :
    reqCompleted req [] = [] := rfl

structure DynInst where
  staticInst : StaticInst := {}
  pc : Addr := 0
  /-- Where the program continues after this instruction (`advancePC`). -/
  nextPc : Addr := 0
  renamedSrcs : List PhysRegId := []
  /-- Flattened destination registers with the physical registers given to them. -/
  renamedDests : List (RegId × PhysRegId) := []
  dispatched : Bool := false
  issued : Bool := false
  executed : Bool := false
  canCommit : Bool := false
  squashed : Bool := false
  fault : Bool := false
  /-- Released by commit (`scheduleNonSpec`). -/
  released : Bool := false
  memOpDone : Bool := false
  /-- A packet of the instruction's request has been sent to the cache. -/
  sent : Bool := false
  runaheadInst : Bool := false
  invalid : Bool := false
  triggeredRunahead : Bool := false
  missedInL2 : Bool := false
  outstandingReqs : List ReqId := []
  deriving DecidableEq, Repr

namespace DynInst

variable (inst : DynInst)

def setSquashed : DynInst := { inst with squashed := true }
def setExecuted : DynInst := { inst with executed := true }
def setIssued : DynInst := { inst with issued := true }
def clearIssued : DynInst := { inst with issued := false }
def setSent : DynInst := { inst with sent := true }
def setReleased : DynInst := { inst with released := true }
def setRenamedSrcs (renamed : List PhysRegId) : DynInst :=
  { inst with renamedSrcs := renamed }
def setRenamedDests (renamed : List (RegId × PhysRegId)) : DynInst :=
  { inst with renamedDests := renamed }
def setCanCommit : DynInst := { inst with canCommit := true }
def clearCanCommit : DynInst := { inst with canCommit := false }
def setRunaheadInst : DynInst := { inst with runaheadInst := true }
def setInvalid : DynInst := { inst with invalid := true }
def setL2Miss : DynInst := { inst with missedInL2 := true }
def resetL2Miss : DynInst := { inst with missedInL2 := false }

def finish (fault : Bool) : DynInst :=
  { inst with executed := true, memOpDone := true, fault := fault }

def addReqs (reqs : List ReqId) : DynInst :=
  { inst with outstandingReqs := inst.outstandingReqs ++ reqs }

/-- `DynInstParent::reqCompleted`. -/
def reqCompleted (inst : DynInst) (req : ReqId) : DynInst :=
  { inst with outstandingReqs := Runahead.reqCompleted req inst.outstandingReqs }

/-- `numOutstandingRequests` is declared `bool`: it only tells whether there are any. -/
def numOutstandingRequests : Bool := !inst.outstandingReqs.isEmpty

/-- `setTriggeredRunahead`; its assertion fails without an outstanding request. -/
def setTriggeredRunahead : Option DynInst :=
  if inst.numOutstandingRequests then
    some { inst with triggeredRunahead := true, runaheadInst := true }
  else none

/-- `isInvalid` tests whether the instruction or one of its sources is invalid
and stores the answer in the instruction. -/
def isInvalid (inv : PhysRegId → Bool) : DynInst :=
  { inst with invalid := inst.invalid || inst.renamedSrcs.any inv }

theorem isInvalid_cases (inst : DynInst) (inv : PhysRegId → Bool) :
    inst.isInvalid inv = inst ∨ inst.isInvalid inv = inst.setInvalid := by
  unfold isInvalid
  cases test : inst.invalid || inst.renamedSrcs.any inv with
  | false => exact .inl (by rw [← (Bool.or_eq_false_iff.mp test).1])
  | true => exact .inr rfl

end DynInst

abbrev InstTable := Nat → DynInst

namespace InstTable

variable (insts : InstTable)

def modify (seqNum : Nat) (change : DynInst → DynInst) : InstTable :=
  fun other => if other = seqNum then change (insts other) else insts other

def modifyAll (selected : Nat → Bool) (change : DynInst → DynInst) : InstTable :=
  fun other => if selected other then change (insts other) else insts other

theorem modify_apply (seqNum other : Nat) (change : DynInst → DynInst) :
    insts.modify seqNum change other =
      if other = seqNum then change (insts other) else insts other := rfl

theorem modifyAll_apply (selected : Nat → Bool) (other : Nat) (change : DynInst → DynInst) :
    insts.modifyAll selected change other =
      if selected other then change (insts other) else insts other := rfl

@[simp] theorem modify_self (seqNum : Nat) (change : DynInst → DynInst) :
    insts.modify seqNum change seqNum = change (insts seqNum) := by
  simp [modify]

variable {seqNum : Nat}

theorem modify_other {other : Nat} (change : DynInst → DynInst) (different : other ≠ seqNum) :
    insts.modify seqNum change other = insts other := by
  simp [modify, different]

/-- A field that the change keeps is the same everywhere. -/
theorem modify_keeps {Field : Type} {insts : InstTable}
    {change : DynInst → DynInst} (field : DynInst → Field)
    (same : field (change (insts seqNum)) = field (insts seqNum)) (other : Nat) :
    field (insts.modify seqNum change other) = field (insts other) := by
  rw [modify_apply]
  split
  · next here => rw [here, same]
  · rfl

theorem modify_modify (seqNum : Nat) (first second : DynInst → DynInst) :
    (insts.modify seqNum first).modify seqNum second =
      insts.modify seqNum fun inst => second (first inst) := by
  funext other
  by_cases same : other = seqNum
  · simp [same]
  · simp [modify_other, same]

theorem modify_const (seqNum : Nat) (change : DynInst → DynInst) :
    (insts.modify seqNum fun _ => change (insts seqNum)) = insts.modify seqNum change := by
  funext other
  by_cases same : other = seqNum <;> simp [modify, same]

theorem modify_same {inst : DynInst}
    (same : inst = insts seqNum) : (insts.modify seqNum fun _ => inst) = insts := by
  funext other
  by_cases here : other = seqNum <;> simp [modify, here, same]

end InstTable

end Runahead
