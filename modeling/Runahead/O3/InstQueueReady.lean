import Runahead.O3.InstQueueFrame

/-!
# Sources of the instructions in the queue

Which sources an instruction waits for is spread over its counter `readyRegs` and
the nodes of the dependency graph. `Sourced` relates both to a scoreboard, `Told`
says that an instruction with all of its sources has been passed on. The wake-up
of a register moves the scoreboard by this register; dispatch establishes both for
the new instruction.
-/

set_option autoImplicit false

namespace Runahead.O3

open Library Function List
open Option (ite_none_left_eq_some bind_eq_some_iff map_eq_some_iff)

def IqInst.sources (inst : IqInst) : List PhysRegId := inst.srcRegs.map SrcOperand.reg

namespace InstructionQueue

variable {state next : InstructionQueue} {inst : Nat} {reg : PhysRegId}

/-- With respect to a scoreboard, the instruction is on the list of each source that is not
ready, once for each operand, and has counted all others. -/
structure Sourced (board : PhysRegId → Bool) (state : InstructionQueue) (inst : Nat) : Prop where
  nodes : ∀ reg, state.dependGraph.count (reg, inst) =
    if board reg then 0 else (state.insts inst).sources.count reg
  readyRegs : (state.insts inst).readyRegs = (state.insts inst).sources.countP board

variable (state)

/-- The ready list or the memory dependence unit knows that the sources are ready. -/
def Notified (inst : Nat) : Prop :=
  if (state.insts inst).isMemRef then
    ∀ entry, state.memDepHash inst = some entry → entry.regsReady = true
  else inst ∈ state.lists .readyInsts ∨ (state.insts inst).issued = true

def Told (inst : Nat) : Prop :=
  inst ∈ state.inserted → (state.insts inst).squashed = false →
    (state.insts inst).staticInst.needsRelease = false →
    (state.insts inst).readyRegs = (state.insts inst).numSrcRegs → state.Notified inst

theorem sources_of_core {dyn other : IqInst} (same : dyn.core = other.core) :
    dyn.sources = other.sources :=
  congrArg (fun core => core.2.2.1) same

variable {board : PhysRegId → Bool} {state}

theorem Sourced.all_iff (sourced : state.Sourced board inst) :
    (state.insts inst).readyRegs = (state.insts inst).numSrcRegs ↔
      ∀ reg ∈ (state.insts inst).sources, board reg = true := by
  have length : (state.insts inst).numSrcRegs = (state.insts inst).sources.length :=
    (length_map _).symm
  rw [sourced.readyRegs, length]
  exact countP_eq_length

theorem Sourced.congr {other : PhysRegId → Bool} (sourced : state.Sourced board inst)
    (same : ∀ reg ∈ (state.insts inst).sources, other reg = board reg) :
    state.Sourced other inst := by
  constructor
  · intro reg
    rw [sourced.nodes reg]
    by_cases member : reg ∈ (state.insts inst).sources
    · rw [same reg member]
    · rw [count_eq_zero_of_not_mem member, ite_self, ite_self]
  · rw [sourced.readyRegs]
    exact countP_congr fun reg member => by rw [same reg member]

theorem Advances.sourced (advances : state.Advances next)
    (sourced : state.Sourced board inst) : next.Sourced board inst := by
  have sources := sources_of_core (advances.sameInsts.core inst)
  have counted : (next.insts inst).readyRegs = (state.insts inst).readyRegs :=
    congrArg (fun operands => operands.2.2.2.2) (advances.operands inst)
  constructor
  · rw [advances.dependGraph, sources]
    exact sourced.nodes
  · rw [counted, sources]
    exact sourced.readyRegs

theorem Advances.notified (advances : state.Advances next)
    (alive : (next.insts inst).squashed = false) (notified : state.Notified inst) :
    next.Notified inst := by
  unfold Notified at notified ⊢
  rw [advances.isMemRef inst]
  cases memory : (state.insts inst).isMemRef with
  | true =>
    rw [memory, if_pos rfl] at notified
    intro entry found
    obtain ⟨before, here, kept⟩ := advances.entries inst entry found
    exact kept (notified before here)
  | false =>
    rw [memory, if_neg Bool.false_ne_true] at notified
    exact advances.ready inst memory alive notified

theorem Advances.told (advances : state.Advances next) (told : state.Told inst) :
    next.Told inst := by
  intro present alive speculative all
  have operands := advances.operands inst
  simp only [IqInst.operands, Prod.mk.injEq] at operands
  obtain ⟨static, _, sources, _, counted⟩ := operands
  have length : (next.insts inst).numSrcRegs = (state.insts inst).numSrcRegs :=
    congrArg List.length sources
  refine advances.notified alive (told (advances.inserted ▸ present)
    (advances.squashed inst alive) (static ▸ speculative) ?_)
  rw [← counted, all, length]

/-! ## Wake-up -/

structure Woke (reg : PhysRegId) (state next : InstructionQueue) : Prop where
  others : ∀ other inst, other ≠ reg →
    next.dependGraph.count (other, inst) = state.dependGraph.count (other, inst)
  balance : ∀ inst, (next.insts inst).readyRegs + next.dependGraph.count (reg, inst) =
    (state.insts inst).readyRegs + state.dependGraph.count (reg, inst)
  regScoreboard : next.regScoreboard = state.regScoreboard

theorem Woke.refl (reg : PhysRegId) (state : InstructionQueue) : Woke reg state state :=
  ⟨fun _ _ _ => rfl, fun _ => rfl, rfl⟩

theorem Woke.trans {middle : InstructionQueue} (first : Woke reg state middle)
    (second : Woke reg middle next) : Woke reg state next :=
  ⟨fun other inst different =>
      (second.others other inst different).trans (first.others other inst different),
    fun inst => (second.balance inst).trans (first.balance inst),
    second.regScoreboard.trans first.regScoreboard⟩

theorem wakeDependent_woke {node : PhysRegId × Nat} (member : node ∈ state.dependGraph)
    (woken : state.wakeDependent node = some next) : Woke node.1 state next := by
  have advances := addIfReady_advances woken
  have graph : next.dependGraph = state.dependGraph.erase node := advances.dependGraph
  have counted (inst : Nat) : (next.insts inst).readyRegs =
      if inst = node.2 then (state.insts inst).readyRegs + 1 else (state.insts inst).readyRegs := by
    have same : (next.insts inst).readyRegs = _ :=
      congrArg (fun operands => operands.2.2.2.2) (advances.operands inst)
    rw [same]
    by_cases here : inst = node.2
    · simp [modify, dropNode, here, IqInst.operands, IqInst.markSrcRegReady]
    · simp [modify, dropNode, here, IqInst.operands]
  refine ⟨fun other inst different => ?_, fun inst => ?_, advances.regScoreboard⟩
  · rw [graph]
    exact count_erase_of_ne fun same => different (congrArg Prod.fst same)
  · rw [graph, counted]
    by_cases here : inst = node.2
    · subst here
      have positive : 0 < state.dependGraph.count (node.1, node.2) := count_pos_iff.mpr member
      have erased : (state.dependGraph.erase node).count (node.1, node.2) =
          state.dependGraph.count (node.1, node.2) - 1 := count_erase_self
      rw [if_pos rfl, erased]
      omega
    · rw [if_neg here, count_erase_of_ne fun same => here (congrArg Prod.snd same)]

theorem wakeChain_woke {fuel : Nat} (woken : wakeChain reg fuel state = some next) :
    Woke reg state next :=
  wakeChain_invariant (Woke reg state)
    (fun _ _ _ member own before first => by
      subst own
      exact before.trans (wakeDependent_woke member first)) (.refl reg state) woken

theorem count_of_noDependents (none : state.noDependents reg = true) (inst : Nat) :
    state.dependGraph.count (reg, inst) = 0 := by
  refine count_eq_zero.mpr fun member => ?_
  simp only [noDependents, Bool.not_eq_true', any_eq_false, decide_eq_true_eq] at none
  exact none _ member rfl

private theorem countP_update (unready : board reg = false) (regs : List PhysRegId) :
    regs.countP (update board reg true) = regs.countP board + regs.count reg := by
  induction regs with
  | nil => rfl
  | cons head rest ih =>
    rw [countP_cons, countP_cons, count_cons, ih]
    by_cases same : head = reg
    · subst same
      simp [unready]
      omega
    · simp only [update_of_ne same, beq_eq_false_iff_ne.mpr same]
      simp
      omega

theorem wakeReg_sourced (fixed : reg.isFixedMapping = true → board reg = true)
    (sourced : state.Sourced board inst) (woken : state.wakeReg reg = some next) :
    next.Sourced (update board reg true) inst := by
  have sources := sources_of_core ((wakeReg_sameInsts woken).core inst)
  unfold wakeReg at woken
  split at woken
  · next constant =>
    cases woken
    rwa [← fixed constant, update_eq_self]
  · obtain ⟨middle, chain, woken⟩ := bind_eq_some_iff.mp woken
    obtain ⟨none, rfl⟩ := fired woken
    have woke := wakeChain_woke chain
    have empty := count_of_noDependents none inst
    have before := sourced.nodes reg
    have counted : (middle.insts inst).readyRegs = (state.insts inst).readyRegs +
        state.dependGraph.count (reg, inst) := by
      have := woke.balance inst
      omega
    constructor
    · intro other
      by_cases same : other = reg
      · subst same
        rw [update_self, if_pos rfl]
        exact empty
      · rw [update_of_ne same, sources]
        exact (woke.others other inst same).trans (sourced.nodes other)
    · change (middle.insts inst).readyRegs = _
      rw [counted, sourced.readyRegs, sources, before]
      cases ready : board reg with
      | true =>
        rw [← ready, update_eq_self]
        simp [ready]
      | false => rw [countP_update ready, if_neg Bool.false_ne_true]

theorem addIfReady_notified (can : (state.insts inst).canIssue = true)
    (added : state.addIfReady inst = some next) : next.Notified inst := by
  have advances := addIfReady_advances added
  unfold Notified
  rw [advances.isMemRef inst]
  rw [addIfReady, if_pos can] at added
  split
  · next memory =>
    rw [if_pos memory] at added
    unfold regsReady at added
    split at added
    · cases added
    · next before _ =>
      intro entry found
      have same : next.memDepHash inst = some { before with regsReady := true } := by
        rw [← Option.some.inj added]
        split <;> simp [addReadyInst, push, setEntry]
      rw [same] at found
      cases found
      rfl
  · next plain =>
    rw [if_neg plain] at added
    cases added
    exact .inl (by simp [addReadyInst, push])

theorem wakeDependent_told {node : PhysRegId × Nat} (told : state.Told inst)
    (woken : state.wakeDependent node = some next) : next.Told inst := by
  have advances := addIfReady_advances woken
  by_cases here : inst = node.2
  · subst here
    intro present alive speculative all
    refine addIfReady_notified ?_ woken
    have operands := advances.operands node.2
    simp only [IqInst.operands, Prod.mk.injEq] at operands
    obtain ⟨_, _, sources, _, counted⟩ := operands
    have length : (next.insts node.2).numSrcRegs = (state.insts node.2).numSrcRegs := by
      refine (congrArg List.length sources).trans ?_
      simp [modify, dropNode, IqInst.markSrcRegReady, IqInst.numSrcRegs]
    have reached : (state.insts node.2).readyRegs + 1 = (state.insts node.2).numSrcRegs := by
      rw [← length, ← all, counted]
      simp [modify, dropNode, IqInst.markSrcRegReady]
    simp [modify, dropNode, IqInst.markSrcRegReady, reached]
  · refine advances.told ?_
    have same : ((state.dropNode node).modify node.2 IqInst.markSrcRegReady).insts inst =
        state.insts inst := update_of_ne here _ _
    unfold Told Notified at told ⊢
    rw [same]
    exact told

theorem wakeReg_told (told : state.Told inst) (woken : state.wakeReg reg = some next) :
    next.Told inst :=
  wakeReg_invariant (Told · inst) (fun _ _ _ _ told first => wakeDependent_told told first)
    (fun _ told => told) told woken

theorem wakeReg_regScoreboard (woken : state.wakeReg reg = some next) (other : PhysRegId) :
    next.regScoreboard other =
      (state.regScoreboard other || other == reg && !reg.isFixedMapping) := by
  unfold wakeReg at woken
  split at woken
  · next constant =>
    cases woken
    simp [constant]
  · next renamed =>
    obtain ⟨middle, chain, woken⟩ := bind_eq_some_iff.mp woken
    obtain ⟨_, rfl⟩ := fired woken
    simp only [setRegScoreboard, update_apply, (wakeChain_woke chain).regScoreboard]
    by_cases same : other = reg
    · simp [same, renamed]
    · simp [same]

/-! ## Dispatch -/

structure LeavesOthers (inst : Nat) (state next : InstructionQueue) : Prop where
  insts : ∀ other, other ≠ inst → next.insts other = state.insts other
  ready : ∀ other, other ∈ state.lists .readyInsts → other ∈ next.lists .readyInsts
  entries : ∀ other, other ≠ inst → next.memDepHash other = state.memDepHash other
  nodes : ∀ other reg, other ≠ inst →
    next.dependGraph.count (reg, other) = state.dependGraph.count (reg, other)
  inserted : ∀ other, other ≠ inst → (other ∈ next.inserted ↔ other ∈ state.inserted)
  toCommit : next.lists .toCommit = state.lists .toCommit

namespace LeavesOthers

theorem refl (inst : Nat) (state : InstructionQueue) : LeavesOthers inst state state :=
  ⟨fun _ _ => rfl, fun _ => id, fun _ _ => rfl, fun _ _ _ => rfl, fun _ _ => Iff.rfl, rfl⟩

theorem trans {middle : InstructionQueue} (first : LeavesOthers inst state middle)
    (second : LeavesOthers inst middle next) : LeavesOthers inst state next :=
  ⟨fun other different => (second.insts other different).trans (first.insts other different),
    fun other => second.ready other ∘ first.ready other,
    fun other different => (second.entries other different).trans (first.entries other different),
    fun other reg different =>
      (second.nodes other reg different).trans (first.nodes other reg different),
    fun other different => (second.inserted other different).trans (first.inserted other different),
    second.toCommit.trans first.toCommit⟩

variable (state)

theorem modify (inst : Nat) (change : IqInst → IqInst) :
    LeavesOthers inst state (state.modify inst change) :=
  ⟨fun _ different => update_of_ne different _ _, fun _ => id, fun _ _ => rfl,
    fun _ _ _ => rfl, fun _ _ => Iff.rfl, rfl⟩

theorem setEntry (inst : Nat) (entry : MemDepEntry) :
    LeavesOthers inst state (state.setEntry inst entry) :=
  ⟨fun _ _ => rfl, fun _ => id, fun _ different => update_of_ne different _ _,
    fun _ _ _ => rfl, fun _ _ => Iff.rfl, rfl⟩

theorem addPairs (inst : Nat) (pairs : List (Nat × Nat)) :
    LeavesOthers inst state (state.addPairs pairs) :=
  ⟨fun _ _ => rfl, fun _ => id, fun _ _ => rfl, fun _ _ _ => rfl, fun _ _ => Iff.rfl, rfl⟩

theorem push (list : IqList) (inst : Nat) (other : .toCommit ≠ list) :
    LeavesOthers inst state (state.push list inst) := by
  refine ⟨fun _ _ => rfl, fun other member => ?_, fun _ _ => rfl, fun _ _ _ => rfl,
    fun _ _ => Iff.rfl, update_of_ne other _ _⟩
  simp only [InstructionQueue.push, update_apply]
  split
  · next same => exact mem_append_left _ (same ▸ member)
  · exact member

variable {state}

theorem sourced {board : PhysRegId → Bool} {other : Nat} (leaves : LeavesOthers inst state next)
    (different : other ≠ inst) (sourced : state.Sourced board other) :
    next.Sourced board other := by
  constructor
  · intro reg
    rw [leaves.nodes other reg different, leaves.insts other different]
    exact sourced.nodes reg
  · rw [leaves.insts other different]
    exact sourced.readyRegs

theorem told {other : Nat} (leaves : LeavesOthers inst state next) (different : other ≠ inst)
    (told : state.Told other) : next.Told other := by
  unfold Told Notified at told ⊢
  rw [leaves.insts other different, leaves.entries other different]
  intro present alive speculative all
  have before := told ((leaves.inserted other different).mp present) alive speculative all
  split
  · next memory =>
    rw [if_pos memory] at before
    exact before
  · next plain =>
    rw [if_neg plain] at before
    exact before.imp_left (leaves.ready other)

end LeavesOthers

variable (state) (inst)

theorem addOperand_leaves (operand : SrcOperand) :
    LeavesOthers inst state (addOperand inst state operand) := by
  unfold addOperand
  split
  · exact .refl inst state
  · split
    · exact .modify state inst _
    · refine ⟨fun _ _ => rfl, fun _ => id, fun _ _ => rfl, fun other reg different => ?_,
        fun _ _ => Iff.rfl, rfl⟩
      exact count_cons_of_ne fun same => different (congrArg Prod.snd same).symm

theorem addOperands_leaves (operands : List SrcOperand) (state : InstructionQueue) :
    LeavesOthers inst state (operands.foldl (addOperand inst) state) := by
  induction operands generalizing state with
  | nil => exact .refl inst state
  | cons operand rest ih => exact (addOperand_leaves state inst operand).trans (ih _)

theorem addToDependents_leaves :
    LeavesOthers inst state (state.addToDependents inst) := by
  unfold addToDependents
  exact (addOperands_leaves inst _ state).trans (.modify _ inst _)

theorem memDepInsert_leaves (producingStores : List Nat) :
    LeavesOthers inst state (state.memDepInsert inst producingStores) := by
  simp only [memDepInsert]
  split
  · split
    · exact (LeavesOthers.setEntry state inst _).trans (.push _ .readyInsts inst (by decide))
    · exact .setEntry state inst _
  · exact ((LeavesOthers.setEntry state inst _).trans (.addPairs _ inst _)).trans (.modify _ inst _)

variable {state} {inst}

theorem addIfReady_leaves (added : state.addIfReady inst = some next) :
    LeavesOthers inst state next := by
  unfold addIfReady at added
  split at added
  · split at added
    · unfold regsReady at added
      split at added
      · cases added
      · cases added
        split
        · exact (LeavesOthers.setEntry state inst _).trans (.push _ .readyInsts inst (by decide))
        · exact .setEntry state inst _
    · cases added
      exact .push state .readyInsts inst (by decide)
  · cases added
    exact .refl inst state

variable {renamed : IqInst}

theorem takeEntry_leaves (taken : state.takeEntry inst renamed = some next) :
    LeavesOthers inst state next := by
  obtain ⟨_, taken⟩ := ite_none_left_eq_some.mp taken
  cases taken
  refine ⟨fun _ different => update_of_ne different _ _, fun _ => id, fun _ _ => rfl,
    fun _ _ _ => rfl, fun other different => ?_, rfl⟩
  simp [different]

theorem setBoard_leaves (state : InstructionQueue) (inst : Nat) (board : PhysRegId → Bool) :
    LeavesOthers inst state { state with regScoreboard := board } :=
  ⟨fun _ _ => rfl, fun _ => id, fun _ _ => rfl, fun _ _ _ => rfl, fun _ _ => Iff.rfl, rfl⟩

variable {config : IqConfig} {producingStores : List Nat}

theorem dispatch_leaves
    (dispatched : state.dispatch config inst renamed producingStores = some next) :
    LeavesOthers inst state next := by
  obtain ⟨_, dispatched⟩ := ite_none_left_eq_some.mp dispatched
  split at dispatched
  · obtain ⟨taken, take, dispatched⟩ := bind_eq_some_iff.mp dispatched
    obtain ⟨produced, produce, rfl⟩ := map_eq_some_iff.mp dispatched
    obtain ⟨board, rfl⟩ := addProducers_same produce
    have listed := ((takeEntry_leaves take).trans
      (.push taken .nonSpecInsts inst (by decide))).trans
      (setBoard_leaves _ inst board)
    split
    · exact listed.trans (.setEntry _ inst _)
    · exact listed
  · split at dispatched
    · obtain ⟨board, rfl⟩ := addProducers_same dispatched
      exact setBoard_leaves state inst board
    · obtain ⟨taken, take, dispatched⟩ := bind_eq_some_iff.mp dispatched
      obtain ⟨produced, produce, dispatched⟩ := bind_eq_some_iff.mp dispatched
      obtain ⟨board, rfl⟩ := addProducers_same produce
      have inserted := ((takeEntry_leaves take).trans (addToDependents_leaves taken inst)).trans
        (setBoard_leaves _ inst board)
      split at dispatched
      · cases dispatched
        exact inserted.trans (memDepInsert_leaves _ inst producingStores)
      · exact inserted.trans (addIfReady_leaves dispatched)

theorem addProducer_regScoreboard (added : state.addProducer reg = some next) (other : PhysRegId) :
    next.regScoreboard other =
      (state.regScoreboard other && !(other == reg && !reg.isFixedMapping)) := by
  unfold addProducer at added
  split at added
  · next constant =>
    cases added
    simp [constant]
  · next renamed =>
    obtain ⟨_, rfl⟩ := fired added
    simp only [setRegScoreboard, update_apply]
    by_cases same : other = reg
    · simp [same, renamed]
    · simp [same]

theorem addProducers_regScoreboard {regs : List PhysRegId}
    (added : regs.foldlM addProducer state = some next) (other : PhysRegId) :
    next.regScoreboard other =
      (state.regScoreboard other && !(regs.contains other && !other.isFixedMapping)) := by
  induction regs generalizing state with
  | nil =>
    cases added
    simp
  | cons reg rest ih =>
    obtain ⟨middle, first, added⟩ := bind_eq_some_iff.mp added
    rw [ih added, addProducer_regScoreboard first]
    by_cases same : other = reg
    · subst same
      cases other.isFixedMapping <;> simp
    · simp [beq_eq_false_iff_ne.mpr same, same]

/-- What the loop of `addToDependents` does for its own instruction: a source that rename has
not found ready is counted if the queue knows it as ready, and waited for otherwise. -/
theorem addOperands_own (inst : Nat) (operands : List SrcOperand) (state : InstructionQueue) :
    (operands.foldl (addOperand inst) state).regScoreboard = state.regScoreboard ∧
    (∀ reg, (operands.foldl (addOperand inst) state).dependGraph.count (reg, inst) =
      state.dependGraph.count (reg, inst) + operands.countP fun operand =>
        operand.reg == reg && !operand.ready && !operand.reg.isFixedMapping &&
          !state.regScoreboard operand.reg) ∧
    ((operands.foldl (addOperand inst) state).insts inst).readyRegs =
      (state.insts inst).readyRegs + operands.countP fun operand =>
        !operand.ready && !operand.reg.isFixedMapping && state.regScoreboard operand.reg := by
  induction operands generalizing state with
  | nil => exact ⟨rfl, fun _ => rfl, rfl⟩
  | cons operand rest ih =>
    obtain ⟨board, nodes, counted⟩ := ih (addOperand inst state operand)
    have same : (addOperand inst state operand).regScoreboard = state.regScoreboard := by
      unfold addOperand
      split
      · rfl
      · split <;> rfl
    rw [foldl_cons, board, counted, same]
    refine ⟨rfl, fun reg => ?_, ?_⟩
    · rw [nodes, countP_cons, same]
      unfold addOperand
      split
      · next known => rcases Bool.or_eq_true_iff.mp known with known | known <;> simp [known]
      · next unready =>
        split
        · next ready => simp [modify, ready]
        · next missing =>
          simp only [Bool.or_eq_true, not_or, Bool.not_eq_true] at unready missing
          simp only [addNode, count_cons, unready, missing]
          by_cases here : operand.reg = reg
          · simp [here]
            omega
          · simp [here]
    · rw [countP_cons]
      unfold addOperand
      split
      · next known => rcases Bool.or_eq_true_iff.mp known with known | known <;> simp [known]
      · next unready =>
        simp only [Bool.or_eq_true, not_or, Bool.not_eq_true] at unready
        split
        · next ready =>
          simp [modify, IqInst.markSrcRegReady, unready, ready]
          omega
        · next missing => simp [addNode, missing]

theorem dispatch_regScoreboard
    (dispatched : state.dispatch config inst renamed producingStores = some next)
    (other : PhysRegId) :
    next.regScoreboard other = (state.regScoreboard other &&
      !(renamed.destRegs.contains other && !other.isFixedMapping)) := by
  have taken_same {taken : InstructionQueue} (take : state.takeEntry inst renamed = some taken) :
      taken.insts inst = renamed ∧ taken.regScoreboard = state.regScoreboard := by
    obtain ⟨_, take⟩ := ite_none_left_eq_some.mp take
    cases take
    exact ⟨update_self _ _ _, rfl⟩
  obtain ⟨_, dispatched⟩ := ite_none_left_eq_some.mp dispatched
  split at dispatched
  · obtain ⟨taken, take, dispatched⟩ := bind_eq_some_iff.mp dispatched
    obtain ⟨produced, produce, rfl⟩ := map_eq_some_iff.mp dispatched
    obtain ⟨own, board⟩ := taken_same take
    have added := addProducers_regScoreboard produce other
    have own : ((taken.push .nonSpecInsts inst).insts inst).destRegs = renamed.destRegs :=
      congrArg IqInst.destRegs own
    rw [own] at added
    have same : ∀ queue : InstructionQueue, (if renamed.isMemRef ||
        renamed.staticInst.isReadBarrier || renamed.staticInst.isWriteBarrier
        then queue.setEntry inst {} else queue).regScoreboard = queue.regScoreboard := by
      intro queue
      split <;> rfl
    rw [same, added, ← board]
    rfl
  · split at dispatched
    · exact addProducers_regScoreboard dispatched other
    · obtain ⟨taken, take, dispatched⟩ := bind_eq_some_iff.mp dispatched
      obtain ⟨produced, produce, dispatched⟩ := bind_eq_some_iff.mp dispatched
      obtain ⟨own, board⟩ := taken_same take
      have added := addProducers_regScoreboard produce other
      have core := congrArg (fun core => core.2.2.2)
        ((addToDependents_sameInsts taken inst).core inst)
      have own : ((taken.addToDependents inst).insts inst).destRegs = renamed.destRegs :=
        core.trans (congrArg IqInst.destRegs own)
      have before : (taken.addToDependents inst).regScoreboard = state.regScoreboard :=
        (addOperands_own inst _ taken).1.trans board
      rw [own, before] at added
      rw [← added]
      split at dispatched
      · cases dispatched
        simp only [memDepInsert]
        split
        · split <;> rfl
        · rfl
      · exact congrFun (addIfReady_advances dispatched).regScoreboard other

theorem addOperands_canIssue (inst : Nat) (operands : List SrcOperand) (state : InstructionQueue)
    (notices : (state.insts inst).readyRegs = (state.insts inst).numSrcRegs →
      (state.insts inst).canIssue = true) :
    ((operands.foldl (addOperand inst) state).insts inst).readyRegs =
      ((operands.foldl (addOperand inst) state).insts inst).numSrcRegs →
    ((operands.foldl (addOperand inst) state).insts inst).canIssue = true := by
  induction operands generalizing state with
  | nil => exact notices
  | cons operand rest ih =>
    refine ih _ ?_
    unfold addOperand
    split
    · exact notices
    · split
      · intro all
        simp only [modify, update_self, IqInst.markSrcRegReady, IqInst.numSrcRegs] at all ⊢
        simp [all]
      · exact notices

private theorem countP_split {α : Type} {first second total : α → Bool} {list : List α}
    (split : ∀ item ∈ list, total item = (first item || second item) ∧
      (first item && second item) = false) :
    list.countP first + list.countP second = list.countP total := by
  induction list with
  | nil => rfl
  | cons head rest ih =>
    cases one : first head <;> cases other : second head <;> simp_all <;> omega

/-- What rename has found ready is ready, and about everything else the queue is right. -/
structure Agrees (board regScoreboard : PhysRegId → Bool) (operands : List SrcOperand) : Prop where
  ready : ∀ operand ∈ operands, operand.ready = true → board operand.reg = true
  unready : ∀ operand ∈ operands, operand.ready = false →
    operand.reg.isFixedMapping = false ∧ regScoreboard operand.reg = board operand.reg

theorem Agrees.waiting {regScoreboard : PhysRegId → Bool} {operands : List SrcOperand}
    (agrees : Agrees board regScoreboard operands) (reg : PhysRegId) :
    (operands.countP fun operand => operand.reg == reg && !operand.ready &&
      !operand.reg.isFixedMapping && !regScoreboard operand.reg) =
      if board reg then 0 else (operands.map SrcOperand.reg).count reg := by
  cases ready : board reg with
  | true =>
    refine countP_eq_zero.mpr fun operand member => ?_
    by_cases here : operand.reg = reg
    · cases known : operand.ready with
      | true => simp
      | false =>
        have := (agrees.unready operand member known).2
        rw [here, ready] at this
        simp [here, this]
    · simp [here]
  | false =>
    rw [if_neg Bool.false_ne_true, List.count, countP_map]
    refine countP_congr fun operand member => ?_
    by_cases here : operand.reg = reg
    · cases known : operand.ready with
      | true =>
        have := agrees.ready operand member known
        rw [here, ready] at this
        exact absurd this Bool.false_ne_true
      | false =>
        have := agrees.unready operand member known
        rw [here, ready] at this
        simp [here, this]
    · simp [here]

theorem Agrees.counted {regScoreboard : PhysRegId → Bool} {operands : List SrcOperand}
    (agrees : Agrees board regScoreboard operands) :
    operands.countP SrcOperand.ready + (operands.countP fun operand =>
      !operand.ready && !operand.reg.isFixedMapping && regScoreboard operand.reg) =
      (operands.map SrcOperand.reg).countP board := by
  rw [countP_map]
  refine countP_split fun operand member => ?_
  cases known : operand.ready with
  | true => simp [agrees.ready operand member known]
  | false => simp [(agrees.unready operand member known).1, (agrees.unready operand member known).2]

theorem addToDependents_sourced (absent : ∀ reg, state.dependGraph.count (reg, inst) = 0)
    (counted : (state.insts inst).readyRegs = (state.insts inst).srcRegs.countP SrcOperand.ready)
    (agrees : Agrees board state.regScoreboard (state.insts inst).srcRegs) :
    (state.addToDependents inst).Sourced board inst := by
  obtain ⟨_, nodes, ready⟩ := addOperands_own inst (state.insts inst).srcRegs state
  have sources := sources_of_core ((addToDependents_sameInsts state inst).core inst)
  constructor
  · intro reg
    rw [sources]
    refine (nodes reg).trans ?_
    rw [absent, Nat.zero_add]
    exact agrees.waiting reg
  · rw [sources]
    have same : ((state.addToDependents inst).insts inst).readyRegs =
        (((state.insts inst).srcRegs.foldl (addOperand inst) state).insts inst).readyRegs := by
      simp [addToDependents, modify]
    rw [same, ready, counted]
    exact agrees.counted

theorem memDepInsert_sourced (sourced : state.Sourced board inst)
    (producingStores : List Nat) : (state.memDepInsert inst producingStores).Sourced
      board inst := by
  have same := memDepInsert_sameInsts state inst producingStores
  have graph : (state.memDepInsert inst producingStores).dependGraph = state.dependGraph ∧
      ((state.memDepInsert inst producingStores).insts inst).readyRegs =
        (state.insts inst).readyRegs := by
    simp only [memDepInsert]
    split
    · split <;> exact ⟨rfl, rfl⟩
    · exact ⟨rfl, by simp [modify, addPairs, setEntry, IqInst.clearCanIssue]⟩
  constructor
  · rw [graph.1, sources_of_core (same.core inst)]
    exact sourced.nodes
  · rw [graph.2, sources_of_core (same.core inst)]
    exact sourced.readyRegs

theorem memDepInsert_notified (memory : (state.insts inst).isMemRef = true)
    (can : (state.insts inst).canIssue = true) (producingStores : List Nat) :
    (state.memDepInsert inst producingStores).Notified inst := by
  have same := (memDepInsert_sameInsts state inst producingStores).core inst
  have still : ((state.memDepInsert inst producingStores).insts inst).isMemRef = true :=
    (congrArg (fun core => core.1.isMemRef) same).trans memory
  unfold Notified
  rw [if_pos still]
  intro entry found
  have regs : ∃ deps, (state.memDepInsert inst producingStores).memDepHash inst =
      some { regsReady := (state.insts inst).canIssue, memDeps := deps } := by
    simp only [memDepInsert]
    split
    · exact ⟨0, by simp [can, addReadyInst, push, setEntry]⟩
    · exact ⟨_, by simp [modify, addPairs, setEntry]; rfl⟩
  obtain ⟨deps, same⟩ := regs
  rw [same] at found
  cases found
  exact can

theorem insert_sourced (absent : ∀ reg, state.dependGraph.count (reg, inst) = 0)
    (agrees : Agrees board state.regScoreboard renamed.srcRegs)
    (inserted : state.insert inst (.renamed renamed.staticInst renamed.threadNumber
      renamed.srcRegs renamed.destRegs) producingStores = some next) :
    next.Sourced board inst ∧ next.Told inst := by
  obtain ⟨taken, take, inserted⟩ := bind_eq_some_iff.mp inserted
  obtain ⟨produced, produce, inserted⟩ := bind_eq_some_iff.mp inserted
  obtain ⟨regScoreboard, rfl⟩ := addProducers_same produce
  have own : taken.insts inst = .renamed renamed.staticInst renamed.threadNumber renamed.srcRegs
      renamed.destRegs ∧ taken.dependGraph = state.dependGraph ∧
      taken.regScoreboard = state.regScoreboard := by
    obtain ⟨_, take⟩ := ite_none_left_eq_some.mp take
    cases take
    exact ⟨update_self _ _ _, rfl, rfl⟩
  obtain ⟨dyn, graph, board'⟩ := own
  have sourced : ({ taken.addToDependents inst with regScoreboard := regScoreboard }).Sourced
      board inst := by
    have := addToDependents_sourced (graph ▸ absent) (by rw [dyn]; rfl)
      (show Agrees board taken.regScoreboard (taken.insts inst).srcRegs by
        rw [dyn, board']
        exact agrees)
    exact ⟨this.nodes, this.readyRegs⟩
  have notices : ((taken.addToDependents inst).insts inst).readyRegs =
      ((taken.addToDependents inst).insts inst).numSrcRegs →
      ((taken.addToDependents inst).insts inst).canIssue = true := by
    have added := addOperands_canIssue inst (taken.insts inst).srcRegs taken (by
      rw [dyn]
      simp [IqInst.renamed, IqInst.numSrcRegs])
    have length := congrArg List.length (addOperands_srcRegs inst (taken.insts inst).srcRegs taken)
    simpa [addToDependents, modify, IqInst.numSrcRegs, readyOperands, length] using added
  have static : ((taken.addToDependents inst).insts inst).isMemRef = renamed.isMemRef := by
    have := congrArg (fun core => core.1.isMemRef)
      ((addToDependents_sameInsts taken inst).core inst)
    rw [dyn] at this
    exact this
  split at inserted
  · next memory =>
    cases inserted
    refine ⟨memDepInsert_sourced sourced producingStores, fun _ _ _ all => ?_⟩
    refine memDepInsert_notified ?_ ?_ producingStores
    · exact static.trans memory
    refine notices (sourced.all_iff.mpr ?_)
    rw [← sources_of_core ((memDepInsert_sameInsts _ inst producingStores).core inst)]
    exact (memDepInsert_sourced sourced producingStores).all_iff.mp all
  · have advances := addIfReady_advances inserted
    refine ⟨advances.sourced sourced, fun _ _ _ all => ?_⟩
    refine addIfReady_notified ?_ inserted
    refine notices (sourced.all_iff.mpr ?_)
    rw [← sources_of_core (advances.sameInsts.core inst)]
    exact (advances.sourced sourced).all_iff.mp all

theorem dispatch_sourced (new : inst ∉ state.inserted)
    (absent : ∀ reg, state.dependGraph.count (reg, inst) = 0)
    (agrees : Agrees board state.regScoreboard renamed.srcRegs)
    (dispatched : state.dispatch config inst (.renamed renamed.staticInst renamed.threadNumber
      renamed.srcRegs renamed.destRegs) producingStores = some next)
    (present : inst ∈ next.inserted) :
    (next.insts inst).core = renamed.core ∧ (renamed.staticInst.needsRelease = false →
      next.Sourced board inst ∧ next.Told inst) := by
  have core : (next.insts inst).core = renamed.core := by
    rcases dispatch_sameInsts dispatched with ⟨taken, take, same⟩ | ⟨board, rfl⟩
    · obtain ⟨_, take⟩ := ite_none_left_eq_some.mp take
      cases take
      rw [same.core inst]
      simp [IqInst.core, IqInst.renamed]
    · exact absurd present new
  refine ⟨core, fun speculative => ?_⟩
  obtain ⟨_, dispatched⟩ := ite_none_left_eq_some.mp dispatched
  split at dispatched
  · next release => exact clash speculative release
  · split at dispatched
    · obtain ⟨_, rfl⟩ := addProducers_same dispatched
      exact absurd present new
    · exact insert_sourced absent agrees dispatched

/-! ## Squash -/

structure Spares (state next : InstructionQueue) : Prop where
  insts : ∀ inst, (next.insts inst).squashed = false → next.insts inst = state.insts inst
  nodes : ∀ inst reg, (next.insts inst).squashed = false →
    next.dependGraph.count (reg, inst) = state.dependGraph.count (reg, inst)
  core : ∀ inst, (next.insts inst).core = (state.insts inst).core
  executed : ∀ inst, (next.insts inst).executed = (state.insts inst).executed
  inserted : next.inserted = state.inserted
  regScoreboard : next.regScoreboard = state.regScoreboard
  ready : next.lists .readyInsts = state.lists .readyInsts
  toCommit : next.lists .toCommit = state.lists .toCommit
  entries : ∀ inst entry, next.memDepHash inst = some entry → state.memDepHash inst = some entry

namespace Spares

theorem refl (state : InstructionQueue) : state.Spares state :=
  ⟨fun _ _ => rfl, fun _ _ _ => rfl, fun _ => rfl, fun _ => rfl, rfl, rfl, rfl, rfl, fun _ _ => id⟩

theorem trans {middle : InstructionQueue} (first : state.Spares middle)
    (second : middle.Spares next) : state.Spares next where
  insts inst alive := by
    have same := second.insts inst alive
    exact same.trans (first.insts inst (same ▸ alive))
  nodes inst reg alive := by
    have same := second.insts inst alive
    exact (second.nodes inst reg alive).trans (first.nodes inst reg (same ▸ alive))
  core inst := (second.core inst).trans (first.core inst)
  executed inst := (second.executed inst).trans (first.executed inst)
  inserted := second.inserted.trans first.inserted
  regScoreboard := second.regScoreboard.trans first.regScoreboard
  ready := second.ready.trans first.ready
  toCommit := second.toCommit.trans first.toCommit
  entries inst entry := first.entries inst entry ∘ second.entries inst entry

theorem sourced {board : PhysRegId → Bool} (spares : state.Spares next)
    (alive : (next.insts inst).squashed = false) (sourced : state.Sourced board inst) :
    next.Sourced board inst := by
  constructor
  · intro reg
    rw [spares.nodes inst reg alive, spares.insts inst alive]
    exact sourced.nodes reg
  · rw [spares.insts inst alive]
    exact sourced.readyRegs

theorem told (spares : state.Spares next) (told : state.Told inst) : next.Told inst := by
  intro present alive speculative all
  have same := spares.insts inst alive
  rw [same] at alive speculative all
  have notified := told (spares.inserted ▸ present) alive speculative all
  unfold Notified at notified ⊢
  rw [same, spares.ready]
  split
  · next memory =>
    rw [if_pos memory] at notified
    exact fun entry found => notified entry (spares.entries inst entry found)
  · next plain =>
    rw [if_neg plain] at notified
    exact notified

end Spares

theorem squashEntry_spares (squashed : state.squashEntry inst = some next) : state.Spares next := by
  obtain ⟨_, removed, rfl⟩ := map_eq_some_iff.mp squashed
  obtain ⟨graph, waiting, rfl, _, _, nodes, _⟩ := removeWaiting_eq removed
  have other (spared : Nat) (alive : (update state.insts inst
      (state.insts inst).setSquashedInIQ.setIssued spared).squashed = false) : spared ≠ inst := by
    rintro rfl
    simp [IqInst.setSquashedInIQ, IqInst.setIssued] at alive
  refine
    { Spares.refl state with
      insts := fun spared alive => update_of_ne (other spared alive) _ _
      nodes := fun spared reg alive => nodes _ fun node own => ?_
      core := core_update rfl
      executed := fun spared => ?_
      toCommit := by simp [modify, release] }
  · rw [eq_of_beq own]
    exact other spared alive
  · simp only [modify, release, update_apply]
    split
    · next same => rw [same]; rfl
    · rfl

variable {tid : ThreadID}

theorem unlist_spares (unlisted : state.unlist tid inst = some next) :
    state.Spares next := by
  obtain ⟨_, rfl⟩ := fired unlisted
  exact { Spares.refl state with }

theorem squashInst_spares (squashed : squashInst tid state inst = some next) :
    state.Spares next := by
  simp only [squashInst] at squashed
  split at squashed
  · cases squashed
    exact .refl _
  · split at squashed
    · obtain ⟨middle, first, rest⟩ := bind_eq_some_iff.mp squashed
      exact (squashEntry_spares first).trans (unlist_spares rest)
    · exact unlist_spares squashed

theorem squash_spares {seqNum : Nat}
    (squashed : state.squash tid seqNum = some next) : state.Spares next := by
  obtain ⟨middle, walked, rfl⟩ := map_eq_some_iff.mp squashed
  have walk := foldlM_invariant state.Spares
    (fun victim _ before after spares stepped => spares.trans (squashInst_spares stepped))
    (.refl _) walked
  refine walk.trans { Spares.refl middle with entries := fun inst entry found => ?_ }
  simp only [memDepSquash] at found
  split at found
  · cases found
  · exact found

end InstructionQueue

end Runahead.O3
