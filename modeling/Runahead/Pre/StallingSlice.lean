import Mathlib.Data.Finset.Insert
import Mathlib.Logic.Function.Basic
import Runahead.DynInst
import Runahead.Library.Transition

/-!
# The stalling slice table

Decode adds the producers of an instruction that hits in the table (SST) to it. Rename
records for each register index the address of the last instruction that writes a register
with this index. No squash undoes that, and it leaves out the class and the thread.
-/

set_option autoImplicit false

namespace Runahead.Pre

open Library List

structure SliceInst where
  seqNum : Nat
  threadNumber : ThreadID := 0
  instAddr : Addr
  srcRegs : List RegId := []
  destRegs : List RegId := []
  squashed : Bool := false

/-- The table and the last producers, beside a record of the renames, newest first. -/
structure SliceRun where
  useSST : Bool := true
  inPreMode : Bool := false
  sst : Finset Addr := ∅
  regToLastProducer : Nat → Option Addr := fun _ => none
  renamed : List SliceInst := []

inductive SliceEvent where
  | decode (inst : SliceInst)
  | rename (inst : SliceInst)
  | squash (tid : ThreadID) (seqNum : Nat)
  | enterPreMode (inst : SliceInst)
  | exitPreMode

def addToSST (sst : Finset Addr) (pc : Addr) : Finset Addr := insert pc sst

namespace SliceInst

variable (inst : SliceInst)

def getArchSrcRegIndicies : List Nat := inst.srcRegs.map RegId.index

def squash (tid : ThreadID) (seqNum : Nat) : SliceInst :=
  { inst with squashed := inst.squashed || inst.threadNumber = tid && seqNum < inst.seqNum }

def writesIndex (index : Nat) : Bool := (inst.destRegs.map RegId.index).contains index

/-- An older instruction that has not been squashed and writes the register itself. -/
def isWriterFor (writer : SliceInst) (reg : RegId) : Bool :=
  !writer.squashed && writer.threadNumber = inst.threadNumber && writer.seqNum < inst.seqNum &&
    writer.destRegs.contains reg

end SliceInst

namespace SliceRun

open SliceInst

variable (run : SliceRun) (inst : SliceInst)

/-- What `decodeInsts` does about the table; the flag says whether rename gets the instruction. -/
def decodeInst : Bool × SliceRun :=
  if run.inPreMode && run.useSST then
    if inst.instAddr ∈ run.sst then
      (true, { run with
        sst := (inst.getArchSrcRegIndicies.filterMap run.regToLastProducer).foldl
          addToSST run.sst })
    else (false, run)
  else (true, run)

def renameDestRegs : SliceRun :=
  { run with
    regToLastProducer := inst.destRegs.foldl
      (fun (map : Nat → Option Addr) reg => Function.update map reg.index (some inst.instAddr))
      run.regToLastProducer
    renamed := inst :: run.renamed }

def step : SliceEvent → Option SliceRun
  | .decode inst => some (run.decodeInst inst).2
  | .rename inst => some (run.renameDestRegs inst)
  | .squash tid seqNum => some { run with renamed := run.renamed.map (·.squash tid seqNum) }
  | .enterPreMode inst =>
    some (if run.inPreMode then run
      else { run with inPreMode := true, sst := addToSST run.sst inst.instAddr })
  | .exitPreMode => if run.inPreMode then some { run with inPreMode := false } else none

def lastRenamed (index : Nat) : Option SliceInst := run.renamed.find? (·.writesIndex index)

def lastWriter (reg : RegId) : Option SliceInst := run.renamed.find? (inst.isWriterFor · reg)

/-- The map follows the renames, whatever has been squashed. -/
def Follows : Prop :=
  ∀ index, run.regToLastProducer index = (run.lastRenamed index).map instAddr

variable {run inst}

theorem mem_foldl_addToSST (pc : Addr) (pcs : List Addr) (sst : Finset Addr) :
    pc ∈ pcs.foldl addToSST sst ↔ pc ∈ sst ∨ pc ∈ pcs := by
  induction pcs generalizing sst with
  | nil => simp
  | cons first rest ih =>
    rw [foldl_cons, ih, addToSST, Finset.mem_insert, mem_cons]
    tauto

theorem foldl_update (pc : Addr) (index : Nat) (dests : List RegId) (map : Nat → Option Addr) :
    dests.foldl (fun (map : Nat → Option Addr) reg => Function.update map reg.index (some pc)) map
      index = if (dests.map RegId.index).contains index then some pc else map index := by
  induction dests generalizing map with
  | nil => simp
  | cons reg rest ih =>
    rw [foldl_cons, ih, Function.update_apply]
    by_cases here : index = reg.index <;> simp [here]

theorem step_follows {event : SliceEvent} {next : SliceRun} (follows : run.Follows)
    (stepped : run.step event = some next) : next.Follows := by
  intro index
  cases event with
  | decode inst =>
    cases stepped
    unfold decodeInst
    split
    · split <;> exact follows index
    · exact follows index
  | rename inst =>
    cases stepped
    refine (foldl_update ..).trans ?_
    simp only [lastRenamed, renameDestRegs, find?_cons, writesIndex]
    cases (inst.destRegs.map RegId.index).contains index with
    | false => exact follows index
    | true => rfl
  | squash tid seqNum =>
    cases stepped
    refine (follows index).trans ?_
    rw [lastRenamed, lastRenamed, find?_map, Option.map_map]
    rfl
  | enterPreMode inst =>
    cases stepped
    split <;> exact follows index
  | exitPreMode =>
    obtain ⟨_, rfl⟩ := fired stepped
    exact follows index

/-- The last rename for the index is the last writer, if it is a writer at all. -/
theorem lastWriter_eq {reg : RegId}
    (writes : ∀ writer, run.lastRenamed reg.index = some writer →
      inst.isWriterFor writer reg = true) :
    run.lastWriter inst reg = run.lastRenamed reg.index := by
  have named (writer : SliceInst) (isWriter : inst.isWriterFor writer reg = true) :
      writer.writesIndex reg.index = true := by
    simp only [isWriterFor, writesIndex, Bool.and_eq_true, contains_iff_mem] at isWriter ⊢
    exact mem_map_of_mem isWriter.2
  cases last : run.lastRenamed reg.index with
  | none => exact find?_eq_none.mpr fun writer known isWriter =>
      find?_eq_none.mp last writer known (named writer isWriter)
  | some writer =>
    obtain ⟨_, newer, older, split, others⟩ := find?_eq_some_iff_append.mp last
    refine find?_eq_some_iff_append.mpr ⟨writes writer last, newer, older, split, ?_⟩
    intro other known
    have := others other known
    grind

def reader : SliceInst := { seqNum := 9, instAddr := 200, srcRegs := [⟨.int, 1⟩] }

/-- The last writer of `r1` is at 100, and decode adds 104 only. -/
def addsOther (run : SliceRun) : Bool :=
  (run.lastWriter reader ⟨.int, 1⟩).map instAddr = some 100 && run.sst = {200} &&
    (run.decodeInst reader).2.sst = {104, 200}

end SliceRun

end Runahead.Pre
