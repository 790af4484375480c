import Mathlib.Data.List.Count
import Runahead.O3.InstQueue

/-!
# What the operations of the instruction queue leave alone

Only dispatch adds instructions, only dispatch, squash and commit change the
instruction lists, and only dispatch, squash and the wake-up of registers deal with
the dependency graph. Everything else moves instructions between lists and changes
their status bits.
-/

set_option autoImplicit false

namespace Runahead.O3

open Library Function List
open Option (ite_none_right_eq_some bind_eq_some_iff map_eq_some_iff)

namespace IqInst

/-- What no operation changes once an instruction has been inserted. -/
def core (inst : IqInst) : StaticInst × ThreadID × List PhysRegId × List PhysRegId :=
  (inst.staticInst, inst.threadNumber, inst.srcRegs.map SrcOperand.reg, inst.destRegs)

/-- The core of an instruction with the state of its sources. -/
def operands (inst : IqInst) : StaticInst × ThreadID × List SrcOperand × List PhysRegId × Nat :=
  (inst.staticInst, inst.threadNumber, inst.srcRegs, inst.destRegs, inst.readyRegs)

theorem core_of_operands {inst other : IqInst} (same : inst.operands = other.operands) :
    inst.core = other.core := by
  simp only [operands, Prod.mk.injEq] at same
  simp only [core, same]

end IqInst

namespace InstructionQueue

variable {state next middle : InstructionQueue} {inst : Nat}

/-! ## Loops of the wake-up -/

variable {reg : PhysRegId} (Holds : InstructionQueue → Prop)

theorem wakeChain_invariant {fuel : Nat}
    (wakes : ∀ node middle last, node ∈ middle.dependGraph → node.1 = reg → Holds middle →
      middle.wakeDependent node = some last → Holds last)
    (holds : Holds state) (woken : wakeChain reg fuel state = some next) : Holds next := by
  induction fuel generalizing state with
  | zero =>
    cases woken
    exact holds
  | succ fuel ih =>
    unfold wakeChain at woken
    split at woken
    · cases woken
      exact holds
    · next node found =>
      obtain ⟨middle, first, rest⟩ := bind_eq_some_iff.mp woken
      have own : node.1 = reg := by simpa using find?_some found
      exact ih (wakes node state middle (mem_of_find?_eq_some found) own holds first) rest

theorem wakeReg_invariant
    (wakes : ∀ node middle last, node ∈ middle.dependGraph → Holds middle →
      middle.wakeDependent node = some last → Holds last)
    (sets : ∀ middle, Holds middle → Holds (middle.setRegScoreboard reg true))
    (holds : Holds state) (woken : state.wakeReg reg = some next) : Holds next := by
  unfold wakeReg at woken
  split at woken
  · cases woken
    exact holds
  · obtain ⟨middle, chain, woken⟩ := bind_eq_some_iff.mp woken
    obtain ⟨_, rfl⟩ := fired woken
    refine sets middle (wakeChain_invariant Holds ?_ holds chain)
    exact fun node middle last member _ => wakes node middle last member

theorem wakeMemDependents_invariant
    (wakes : ∀ pair middle last, pair ∈ middle.memDependents → Holds middle →
      middle.wakeMemDependent pair = some last → Holds last)
    (holds : Holds state) (woken : state.wakeMemDependents inst = some next) : Holds next := by
  have chain (fuel : Nat) {state : InstructionQueue} (holds : Holds state)
      (woken : wakeMemChain inst fuel state = some next) : Holds next := by
    induction fuel generalizing state with
    | zero =>
      cases woken
      exact holds
    | succ fuel ih =>
      unfold wakeMemChain at woken
      split at woken
      · cases woken
        exact holds
      · next pair found =>
        obtain ⟨middle, first, rest⟩ := bind_eq_some_iff.mp woken
        exact ih (wakes pair state middle (mem_of_find?_eq_some found) holds first) rest
  unfold wakeMemDependents at woken
  split at woken
  · exact chain _ holds woken
  · cases woken
    exact holds

theorem scheduleNonSpec_eq (scheduled : state.scheduleNonSpec inst = some next) :
    inst ∈ state.lists .nonSpecInsts ∧
      ((state.pop .nonSpecInsts inst).modify inst IqInst.setCanIssue).addReadyInst inst = next := by
  obtain ⟨member, scheduled⟩ := ite_none_right_eq_some.mp scheduled
  refine ⟨member, ?_⟩
  split at scheduled
  · exact Option.some.inj (ite_none_right_eq_some.mp scheduled).2
  · exact Option.some.inj scheduled

/-! ## What stays the same -/

structure SameInsts (state next : InstructionQueue) : Prop where
  core : ∀ inst, (next.insts inst).core = (state.insts inst).core
  instList : next.instList = state.instList
  inserted : next.inserted = state.inserted

structure SameOperands (state next : InstructionQueue) : Prop where
  operands : ∀ inst, (next.insts inst).operands = (state.insts inst).operands
  instList : next.instList = state.instList
  inserted : next.inserted = state.inserted
  dependGraph : next.dependGraph = state.dependGraph
  regScoreboard : next.regScoreboard = state.regScoreboard

namespace SameInsts

theorem refl (state : InstructionQueue) : state.SameInsts state :=
  ⟨fun _ => rfl, rfl, rfl⟩

theorem trans (first : state.SameInsts middle) (second : middle.SameInsts next) :
    state.SameInsts next :=
  ⟨fun inst => (second.core inst).trans (first.core inst),
    second.instList.trans first.instList, second.inserted.trans first.inserted⟩

theorem threadNumber (same : state.SameInsts next) (inst : Nat) :
    (next.insts inst).threadNumber = (state.insts inst).threadNumber :=
  congrArg (fun core => core.2.1) (same.core inst)

end SameInsts

namespace SameOperands

theorem refl (state : InstructionQueue) : state.SameOperands state :=
  ⟨fun _ => rfl, rfl, rfl, rfl, rfl⟩

theorem trans (first : state.SameOperands middle) (second : middle.SameOperands next) :
    state.SameOperands next :=
  ⟨fun inst => (second.operands inst).trans (first.operands inst),
    second.instList.trans first.instList, second.inserted.trans first.inserted,
    second.dependGraph.trans first.dependGraph, second.regScoreboard.trans first.regScoreboard⟩

theorem sameInsts (same : state.SameOperands next) : state.SameInsts next :=
  ⟨fun inst => IqInst.core_of_operands (same.operands inst), same.instList, same.inserted⟩

end SameOperands

theorem operands_update {dyn : IqInst} (keeps : dyn.operands = (state.insts inst).operands)
    (other : Nat) :
    (update state.insts inst dyn other).operands = (state.insts other).operands := by
  rw [update_apply]
  split
  · next same => rw [keeps, same]
  · rfl

/-- Besides, nobody loses what it has been told: who is squashed stays so, a ready
instruction issues, and the memory dependence unit does not forget that registers are ready. -/
structure Advances (state next : InstructionQueue) : Prop extends SameOperands state next where
  squashed : ∀ inst, (next.insts inst).squashed = false → (state.insts inst).squashed = false
  ready : ∀ inst, (state.insts inst).isMemRef = false → (next.insts inst).squashed = false →
    inst ∈ state.lists .readyInsts ∨ (state.insts inst).issued = true →
    inst ∈ next.lists .readyInsts ∨ (next.insts inst).issued = true
  entries : ∀ inst entry, next.memDepHash inst = some entry →
    ∃ before, state.memDepHash inst = some before ∧
      (before.regsReady = true → entry.regsReady = true)

namespace Advances

theorem refl (state : InstructionQueue) : state.Advances state :=
  ⟨.refl _, fun _ alive => alive, fun _ _ _ told => told, fun _ entry found => ⟨entry, found, id⟩⟩

theorem isMemRef (first : state.Advances middle) (inst : Nat) :
    (middle.insts inst).isMemRef = (state.insts inst).isMemRef :=
  congrArg (fun operands => operands.1.isMemRef) (first.operands inst)

theorem trans (first : state.Advances middle) (second : middle.Advances next) :
    state.Advances next where
  toSameOperands := first.toSameOperands.trans second.toSameOperands
  squashed inst alive := first.squashed inst (second.squashed inst alive)
  ready inst plain alive told :=
    second.ready inst ((first.isMemRef inst).trans plain) alive
      (first.ready inst plain (second.squashed inst alive) told)
  entries inst entry found := by
    obtain ⟨between, here, later⟩ := second.entries inst entry found
    obtain ⟨before, there, earlier⟩ := first.entries inst between here
    exact ⟨before, there, later ∘ earlier⟩

theorem of_update (inst : Nat) (dyn : IqInst) (insts : next.insts = update state.insts inst dyn)
    (operands : dyn.operands = (state.insts inst).operands)
    (squashed : dyn.squashed = false → (state.insts inst).squashed = false)
    (issued : (state.insts inst).isMemRef = false → (state.insts inst).issued = true →
      dyn.issued = true)
    (ready : ∀ other ∈ state.lists .readyInsts, other ∈ next.lists .readyInsts ∨
      other = inst ∧ (dyn.issued = true ∨ dyn.squashed = true))
    (rest : next.instList = state.instList ∧ next.inserted = state.inserted ∧
      next.dependGraph = state.dependGraph ∧ next.regScoreboard = state.regScoreboard ∧
      next.memDepHash = state.memDepHash) : state.Advances next where
  operands other := by
    rw [insts]
    exact operands_update operands other
  instList := rest.1
  inserted := rest.2.1
  dependGraph := rest.2.2.1
  regScoreboard := rest.2.2.2.1
  squashed other alive := by
    rw [insts, update_apply] at alive
    split at alive
    · next same => exact same ▸ squashed alive
    · exact alive
  ready other plain alive told := by
    rw [insts, update_apply] at alive ⊢
    rcases told with member | before
    · rcases ready other member with stays | ⟨same, gone⟩
      · exact .inl stays
      · rw [if_pos same] at alive ⊢
        exact .inr (gone.resolve_right fun marked => clash alive marked)
    · refine .inr ?_
      split
      · next same =>
        subst same
        exact issued plain before
      · exact before
  entries other entry found := ⟨entry, rest.2.2.2.2 ▸ found, id⟩

theorem of_lists (lists : IqList → List Nat) (ready : state.lists .readyInsts ⊆ lists .readyInsts) :
    state.Advances { state with lists := lists } :=
  ⟨⟨fun _ => rfl, rfl, rfl, rfl, rfl⟩, fun _ alive => alive,
    fun _ _ _ told => told.imp_left fun member => ready member, fun _ entry found =>
      ⟨entry, found, id⟩⟩

end Advances

/-! ## Operations that only move instructions -/

theorem scheduleNonSpec_advances (scheduled : state.scheduleNonSpec inst = some next) :
    state.Advances next := by
  obtain ⟨_, rfl⟩ := scheduleNonSpec_eq scheduled
  exact .of_update inst (state.insts inst).setCanIssue rfl rfl id (fun _ => id)
    (fun other member => .inl (mem_append_left _ member)) ⟨rfl, rfl, rfl, rfl, rfl⟩

theorem issue_advances (issued : state.issue inst = some next) : state.Advances next := by
  simp only [issue, ite_none_right_eq_some] at issued
  obtain ⟨_, issued⟩ := issued
  have gone : ∀ other ∈ state.lists .readyInsts,
      other ∈ (state.lists .readyInsts).erase inst ∨ other = inst := by
    intro other member
    by_cases same : other = inst
    · exact .inr same
    · exact .inl ((mem_erase_of_ne same).mpr member)
  split at issued
  · next squashed =>
    cases issued
    exact .of_update inst (state.insts inst) (update_eq_self _ _).symm rfl id (fun _ => id)
      (fun other member => (gone other member).imp_right fun same => ⟨same, .inr squashed⟩)
      ⟨rfl, rfl, rfl, rfl, rfl⟩
  · cases issued
    split
    · exact .of_update inst (state.insts inst).setIssued rfl rfl id (fun _ _ => rfl)
        (fun other member => (gone other member).imp_right fun same => ⟨same, .inl rfl⟩)
        ⟨rfl, rfl, rfl, rfl, rfl⟩
    · exact .of_update inst (state.insts inst).setIssued rfl rfl id (fun _ _ => rfl)
        (fun other member => (gone other member).imp_right fun same => ⟨same, .inl rfl⟩)
        ⟨rfl, rfl, rfl, rfl, rfl⟩

theorem instToCommit_advances (state : InstructionQueue) (inst : Nat) (fault : Bool) :
    state.Advances (state.instToCommit inst fault) :=
  .of_update inst ((state.insts inst).setFault fault).setExecuted rfl rfl id (fun _ => id)
    (fun _ member => .inl member) ⟨rfl, rfl, rfl, rfl, rfl⟩

theorem executed_advances {outcome : IssueOutcome}
    (executed : state.executed inst outcome = some next) : state.Advances next := by
  -- Only memory instructions go back to be issued again.
  have sentBack (dyn : IqInst) (memory : (state.insts inst).isMemRef = true)
      (plain : (state.insts inst).isMemRef = false) : dyn.issued = true :=
    clash memory plain
  cases outcome with
  | finished fault =>
    cases executed
    exact instToCommit_advances state inst fault
  | deferred =>
    obtain ⟨_, rfl⟩ := fired executed
    exact .of_lists _ (List.Subset.refl _)
  | blocked =>
    obtain ⟨possible, rfl⟩ := fired executed
    exact .of_update inst (state.insts inst).clearIssued.clearCanIssue rfl rfl id
      (fun plain _ => sentBack _ (Bool.and_eq_true_iff.mp possible).1 plain)
      (fun _ member => .inl member) ⟨rfl, rfl, rfl, rfl, rfl⟩
  | rescheduled strictlyOrdered =>
    obtain ⟨possible, rfl⟩ := fired executed
    split <;> exact .of_update inst
      ((state.insts inst).setFault strictlyOrdered).clearIssued.clearCanIssue rfl rfl id
      (fun plain _ => sentBack _ (Bool.and_eq_true_iff.mp possible).1 plain)
      (fun _ member => .inl member) ⟨rfl, rfl, rfl, rfl, rfl⟩
  | accessed =>
    obtain ⟨_, rfl⟩ := fired executed
    exact .of_update inst ((state.insts inst).setFault false) rfl rfl id (fun _ => id)
      (fun _ member => .inl member) ⟨rfl, rfl, rfl, rfl, rfl⟩

theorem execute_advances {outcome : IssueOutcome}
    (executed : state.execute inst outcome = some next) : state.Advances next := by
  simp only [execute, ite_none_right_eq_some] at executed
  obtain ⟨_, executed⟩ := executed
  have popped : state.Advances (state.pop .instsToExecute inst) := .of_lists _ (List.Subset.refl _)
  split at executed
  · cases executed
    exact popped.trans (.of_update inst (state.insts inst).setExecuted rfl rfl id (fun _ => id)
      (fun _ member => .inl member) ⟨rfl, rfl, rfl, rfl, rfl⟩)
  · exact popped.trans (executed_advances executed)

theorem accessDone_advances {fault : Bool}
    (done : state.accessDone inst fault = some next) : state.Advances next := by
  simp only [accessDone, ite_none_right_eq_some] at done
  obtain ⟨_, done⟩ := done
  have popped : state.Advances (state.pop .accessing inst) := .of_lists _ (List.Subset.refl _)
  split at done
  · cases done
    exact popped
  · cases done
    exact popped.trans (instToCommit_advances _ inst fault)

theorem replay_advances {tid : ThreadID} (replayed : state.replay tid = some next) :
    state.Advances next := by
  obtain ⟨_, rfl⟩ := fired replayed
  exact .of_lists _ (subset_append_left _ _)

/-- What a completed instruction tells others: the ready list grows, and the memory dependence
unit removes entries or marks them. -/
structure Tells (state next : InstructionQueue) : Prop where
  insts : next.insts = state.insts
  rest : next.instList = state.instList ∧ next.inserted = state.inserted ∧
    next.dependGraph = state.dependGraph ∧ next.regScoreboard = state.regScoreboard
  ready : state.lists .readyInsts ⊆ next.lists .readyInsts
  toCommit : next.lists .toCommit = state.lists .toCommit
  entries : ∀ inst entry, next.memDepHash inst = some entry →
    ∃ before, state.memDepHash inst = some before ∧
      (before.regsReady = true → entry.regsReady = true)

namespace Tells

theorem refl (state : InstructionQueue) : state.Tells state :=
  ⟨rfl, ⟨rfl, rfl, rfl, rfl⟩, List.Subset.refl _, rfl, fun _ entry found => ⟨entry, found, id⟩⟩

theorem advances (tells : state.Tells next) : state.Advances next where
  operands inst := by rw [tells.insts]
  instList := tells.rest.1
  inserted := tells.rest.2.1
  dependGraph := tells.rest.2.2.1
  regScoreboard := tells.rest.2.2.2
  squashed inst alive := tells.insts ▸ alive
  ready inst _ _ told := by
    rw [tells.insts]
    exact told.imp_left fun member => tells.ready member
  entries := tells.entries

theorem trans (first : state.Tells middle) (second : middle.Tells next) : state.Tells next where
  insts := second.insts.trans first.insts
  rest := by
    rw [second.rest.1, second.rest.2.1, second.rest.2.2.1, second.rest.2.2.2]
    exact first.rest
  ready _ member := second.ready (first.ready member)
  toCommit := second.toCommit.trans first.toCommit
  entries := (first.advances.trans second.advances).entries

theorem setEntry {before entry : MemDepEntry} (found : state.memDepHash inst = some before)
    (better : before.regsReady = true → entry.regsReady = true) :
    state.Tells (state.setEntry inst entry) := by
  refine { refl state with entries := fun other after here => ?_ }
  change update state.memDepHash inst (some entry) other = some after at here
  rw [update_apply] at here
  split at here
  · next same =>
    cases here
    exact ⟨before, same ▸ found, better⟩
  · exact ⟨after, here, id⟩

variable (state)

theorem removeEntry (inst : Nat) :
    state.Tells (state.removeEntry inst) := by
  refine { refl state with entries := fun other after here => ?_ }
  change update state.memDepHash inst none other = some after at here
  rw [update_apply] at here
  split at here
  · cases here
  · exact ⟨after, here, id⟩

theorem addReadyInst (inst : Nat) : state.Tells (state.addReadyInst inst) :=
  { refl state with ready := subset_append_left _ _ }

end Tells

theorem wakeMemDependent_tells {pair : Nat × Nat}
    (woken : state.wakeMemDependent pair = some next) : state.Tells next := by
  have dropped : state.Tells (state.dropPair pair) := { Tells.refl state with }
  unfold wakeMemDependent at woken
  split at woken
  · cases woken
    exact dropped
  · next entry found =>
    obtain ⟨_, woken⟩ := Option.ite_none_left_eq_some.mp woken
    have counted : state.Tells ((state.dropPair pair).setEntry pair.2
        { entry with memDeps := entry.memDeps - 1 }) := dropped.trans (.setEntry found id)
    cases woken
    split
    · exact counted.trans (.addReadyInst _ _)
    · exact counted

theorem completeMemInst_tells (completed : state.completeMemInst inst = some next) :
    state.Tells next ∧ state.memDepHash inst ≠ none ∧ next.memDepHash inst = none := by
  obtain ⟨present, completed⟩ := ite_none_right_eq_some.mp completed
  obtain ⟨middle, woken, rfl⟩ := map_eq_some_iff.mp completed
  refine ⟨?_, Option.isSome_iff_ne_none.mp present, update_self _ _ _⟩
  exact (wakeMemDependents_invariant state.Tells
    (fun _ _ _ _ before first => before.trans (wakeMemDependent_tells first)) (.refl _)
    woken).trans (.removeEntry _ _)

theorem completeInst_advances (completed : state.completeInst inst = some next) :
    state.Advances next := by
  simp only [completeInst] at completed
  split at completed
  · obtain ⟨middle, removed, rfl⟩ := map_eq_some_iff.mp completed
    exact (completeMemInst_tells removed).1.advances.trans (.of_update inst
      (middle.insts inst).setMemOpDone rfl rfl id (fun _ => id) (fun _ member => .inl member)
      ⟨rfl, rfl, rfl, rfl, rfl⟩)
  · split at completed
    · exact (completeMemInst_tells completed).1.advances
    · cases completed
      exact .refl _

/-- The events that neither dispatch, write back, commit nor squash. -/
def moves : IqEvent → Bool
  | .dispatch .. | .writeback _ | .commit .. | .squash .. => false
  | _ => true

theorem step_advances {config : IqConfig} {event : IqEvent} (moving : moves event = true)
    (stepped : state.step config event = some next) : state.Advances next := by
  cases event with
  | dispatch | writeback | commit | squash => cases moving
  | scheduleNonSpec inst => exact scheduleNonSpec_advances stepped
  | issue inst => exact issue_advances stepped
  | execute inst outcome => exact execute_advances stepped
  | accessDone inst fault => exact accessDone_advances stepped
  | executeDeferred | executeBlocked =>
    obtain ⟨_, rfl⟩ := fired stepped
    exact .of_lists _ (subset_append_left _ _)
  | cacheUnblocked =>
    cases stepped
    exact .of_lists _ (List.Subset.refl _)
  | replay tid => exact replay_advances stepped
  | setSquashed inst =>
    cases stepped
    exact .of_update inst (state.insts inst).setSquashed rfl rfl
      (fun alive => absurd alive (by simp [IqInst.setSquashed])) (fun _ => id)
      (fun _ member => .inl member) ⟨rfl, rfl, rfl, rfl, rfl⟩

/-! ## Wake-up -/

theorem addIfReady_tells (added : state.addIfReady inst = some next) : state.Tells next := by
  unfold addIfReady at added
  split at added
  · split at added
    · unfold regsReady at added
      split at added
      · cases added
      · next entry found =>
        have marked : state.Tells (state.setEntry inst { entry with regsReady := true }) :=
          .setEntry found fun _ => rfl
        cases added
        split
        · exact marked.trans (.addReadyInst _ _)
        · exact marked
    · cases added
      exact .addReadyInst _ _
  · cases added
    exact .refl _

theorem addIfReady_advances (added : state.addIfReady inst = some next) : state.Advances next :=
  (addIfReady_tells added).advances

theorem core_update {dyn : IqInst} (keeps : dyn.core = (state.insts inst).core) (other : Nat) :
    (update state.insts inst dyn other).core = (state.insts other).core := by
  rw [update_apply]
  split
  · next same => rw [keeps, same]
  · rfl

theorem wakeDependent_sameInsts {node : PhysRegId × Nat}
    (woken : state.wakeDependent node = some next) : state.SameInsts next := by
  have marked : state.SameInsts ((state.dropNode node).modify node.2 IqInst.markSrcRegReady) :=
    ⟨core_update rfl, rfl, rfl⟩
  exact marked.trans (addIfReady_advances woken).sameInsts

theorem wakeReg_sameInsts (woken : state.wakeReg reg = some next) : state.SameInsts next :=
  wakeReg_invariant state.SameInsts
    (fun _ _ _ _ same first => same.trans (wakeDependent_sameInsts first))
    (fun _ same => ⟨same.core, same.instList, same.inserted⟩) (.refl _) woken

theorem writeback_sameInsts (written : state.writeback inst = some next) :
    state.SameInsts next := by
  obtain ⟨_, written⟩ := ite_none_right_eq_some.mp written
  split at written
  · obtain ⟨completed, first, rest⟩ := bind_eq_some_iff.mp written
    have before := (completeInst_advances first).sameInsts
    exact foldlM_invariant state.SameInsts
      (fun reg _ middle last same woken => same.trans (wakeReg_sameInsts woken))
      ⟨before.core, before.instList, before.inserted⟩ rest
  · cases written
    exact ⟨fun _ => rfl, rfl, rfl⟩

/-! ## Dispatch -/

variable (state)

theorem addOperand_sameInsts (operand : SrcOperand) :
    state.SameInsts (addOperand inst state operand) := by
  unfold addOperand
  split
  · exact .refl _
  · split
    · exact ⟨core_update rfl, rfl, rfl⟩
    · exact ⟨fun _ => rfl, rfl, rfl⟩

theorem addOperands_sameInsts (inst : Nat) (operands : List SrcOperand)
    (state : InstructionQueue) : state.SameInsts (operands.foldl (addOperand inst) state) := by
  induction operands generalizing state with
  | nil => exact .refl _
  | cons operand rest ih => exact (addOperand_sameInsts state operand).trans (ih _)

theorem addOperands_srcRegs (inst : Nat) (operands : List SrcOperand) (state : InstructionQueue) :
    ((operands.foldl (addOperand inst) state).insts inst).srcRegs =
      (state.insts inst).srcRegs := by
  induction operands generalizing state with
  | nil => rfl
  | cons operand rest ih =>
    refine (ih _).trans ?_
    unfold addOperand
    split
    · rfl
    · split
      · simp [modify, IqInst.markSrcRegReady]
      · rfl

theorem addToDependents_sameInsts (inst : Nat) :
    state.SameInsts (state.addToDependents inst) := by
  have added := addOperands_sameInsts inst (state.insts inst).srcRegs state
  refine added.trans ⟨core_update ?_, rfl, rfl⟩
  have same := added.core inst
  simp only [IqInst.core, Prod.mk.injEq] at same ⊢
  refine ⟨trivial, trivial, ?_, trivial⟩
  rw [same.2.2.1, readyOperands, map_map]
  rfl

theorem memDepInsert_sameInsts (inst : Nat)
    (producingStores : List Nat) : state.SameInsts (state.memDepInsert inst producingStores) := by
  simp only [memDepInsert]
  split
  · split
    · exact ⟨fun _ => rfl, rfl, rfl⟩
    · exact ⟨fun _ => rfl, rfl, rfl⟩
  · exact ⟨core_update rfl, rfl, rfl⟩

variable {state}

theorem addProducers_same {regs : List PhysRegId}
    (added : regs.foldlM addProducer state = some next) :
    ∃ board, next = { state with regScoreboard := board } := by
  refine foldlM_invariant (fun middle => ∃ board, middle = { state with regScoreboard := board })
    (fun reg _ middle last before stepped => ?_) ⟨state.regScoreboard, rfl⟩ added
  obtain ⟨board, rfl⟩ := before
  unfold addProducer at stepped
  split at stepped
  · exact ⟨board, (Option.some.inj stepped).symm⟩
  · exact ⟨_, (Option.some.inj (ite_none_right_eq_some.mp stepped).2).symm⟩

variable {renamed : IqInst}

theorem insert_sameInsts {producingStores : List Nat}
    (inserted : state.insert inst renamed producingStores = some next) :
    ∃ taken, state.takeEntry inst renamed = some taken ∧ taken.SameInsts next := by
  obtain ⟨taken, take, inserted⟩ := bind_eq_some_iff.mp inserted
  obtain ⟨produced, produce, inserted⟩ := bind_eq_some_iff.mp inserted
  obtain ⟨board, rfl⟩ := addProducers_same produce
  have dependents : taken.SameInsts { taken.addToDependents inst with regScoreboard := board } :=
    (addToDependents_sameInsts taken inst).trans ⟨fun _ => rfl, rfl, rfl⟩
  refine ⟨taken, take, ?_⟩
  split at inserted
  · cases inserted
    exact dependents.trans (memDepInsert_sameInsts _ inst producingStores)
  · exact dependents.trans (addIfReady_advances inserted).sameInsts

theorem insertNonSpec_sameInsts (inserted : state.insertNonSpec inst renamed = some next) :
    ∃ taken, state.takeEntry inst renamed = some taken ∧ taken.SameInsts next := by
  obtain ⟨taken, take, inserted⟩ := bind_eq_some_iff.mp inserted
  obtain ⟨produced, produce, rfl⟩ := map_eq_some_iff.mp inserted
  obtain ⟨board, rfl⟩ := addProducers_same produce
  refine ⟨taken, take, ?_⟩
  split
  · exact ⟨fun _ => rfl, rfl, rfl⟩
  · exact ⟨fun _ => rfl, rfl, rfl⟩

theorem dispatch_sameInsts {config : IqConfig} {producingStores : List Nat}
    (dispatched : state.dispatch config inst renamed producingStores = some next) :
    (∃ taken, state.takeEntry inst renamed = some taken ∧ taken.SameInsts next) ∨
      ∃ board, next = { state with regScoreboard := board } := by
  obtain ⟨_, dispatched⟩ := Option.ite_none_left_eq_some.mp dispatched
  split at dispatched
  · exact .inl (insertNonSpec_sameInsts dispatched)
  · split at dispatched
    · exact .inr (addProducers_same dispatched)
    · exact .inl (insert_sameInsts dispatched)

/-! ## Squash -/

/-- `doSquash` withdraws nodes of the instruction, or its place in `nonSpecInsts`. -/
theorem removeWaiting_eq (removed : state.removeWaiting inst = some next) :
    ∃ graph waiting, next = { state with
        dependGraph := graph, lists := update state.lists .nonSpecInsts waiting } ∧
      graph.Sublist state.dependGraph ∧ waiting.Sublist (state.lists .nonSpecInsts) ∧
      (∀ test, (∀ node, test node = true → node.2 ≠ inst) →
        graph.countP test = state.dependGraph.countP test) ∧
      ∀ other ≠ inst, waiting.count other = (state.lists .nonSpecInsts).count other := by
  simp only [removeWaiting] at removed
  split at removed
  · have dropped := foldlM_invariant (fun middle => ∃ graph, middle = { state with
        dependGraph := graph } ∧ graph.Sublist state.dependGraph ∧
        ∀ test, (∀ node, test node = true → node.2 ≠ inst) →
          graph.countP test = state.dependGraph.countP test)
      (fun operand _ middle last before stepped => ?_) ⟨_, rfl, .refl _, fun _ _ => rfl⟩ removed
    · obtain ⟨graph, rfl, fewer, others⟩ := dropped
      exact ⟨graph, _, by rw [update_eq_self], fewer, .refl _, others, fun _ _ => rfl⟩
    · obtain ⟨graph, rfl, fewer, others⟩ := before
      unfold removeDependent at stepped
      split at stepped
      · cases stepped
        exact ⟨graph, rfl, fewer, others⟩
      · obtain ⟨_, rfl⟩ := fired stepped
        refine ⟨_, rfl, erase_sublist.trans fewer, fun test apart => ?_⟩
        rw [countP_erase, if_neg fun own => apart _ own.2 rfl]
        exact others test apart
  · split at removed
    · cases removed
      exact ⟨_, _, rfl, .refl _, erase_sublist, fun _ _ => rfl,
        fun _ different => count_erase_of_ne different⟩
    · obtain ⟨_, rfl⟩ := fired removed
      exact ⟨_, _, by rw [update_eq_self], .refl _, .refl _, fun _ _ => rfl, fun _ _ => rfl⟩

end InstructionQueue

end Runahead.O3
