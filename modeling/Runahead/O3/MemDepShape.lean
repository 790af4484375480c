import Mathlib.Data.List.Nodup
import Runahead.O3.MemDepUnit

/-!
# The operations of the memory dependence unit in closed form

`memDeps` counts the dependents lists that an instruction is on. With this count
exact for the instructions in the hash, no operation fails one of its assertions,
and each of them is a plain update of the unit.
-/

set_option autoImplicit false

namespace Runahead.O3.MemDep

open Function List

namespace MemDepUnit

variable {unit next : MemDepUnit} {seqNum : Nat}

/-! ## The operations in closed form -/

def wake (unit : MemDepUnit) (dependInsts : List Nat) : MemDepUnit :=
  { unit with
    entries := fun other =>
      if other ∈ dependInsts then
        { unit.entries other with memDeps := (unit.entries other).memDeps - 1 }
      else unit.entries other
    readyList := unit.readyList ++ dependInsts.filter fun other =>
      (unit.entries other).memDeps = 1 && (unit.entries other).regsReady &&
        !(unit.entries other).squashed }

theorem wake_nil : unit.wake [] = unit := by
  simp [wake]

theorem wake_cons {woken : Nat} {rest : List Nat} (distinct : woken ∉ rest) :
    unit.wake (woken :: rest) =
      wake { unit.setEntry woken { unit.entries woken with
          memDeps := (unit.entries woken).memDeps - 1 } with
        readyList := unit.readyList ++
          if (unit.entries woken).memDeps = 1 && (unit.entries woken).regsReady &&
            !(unit.entries woken).squashed then [woken] else [] } rest := by
  have others : ∀ other ∈ rest, other ≠ woken := fun other member same => distinct (same ▸ member)
  unfold wake
  congr 1
  · funext other
    by_cases here : other = woken
    · subst here
      simp [setEntry, distinct]
    · simp [setEntry, here]
  · rw [append_assoc]
    congr 1
    rw [filter_cons]
    have same : rest.filter (fun other => (unit.entries other).memDeps = 1 &&
        (unit.entries other).regsReady && !(unit.entries other).squashed) =
        rest.filter fun other =>
          ((unit.setEntry woken { unit.entries woken with
            memDeps := (unit.entries woken).memDeps - 1 }).entries other).memDeps = 1 &&
          ((unit.setEntry woken { unit.entries woken with
            memDeps := (unit.entries woken).memDeps - 1 }).entries other).regsReady &&
          !((unit.setEntry woken { unit.entries woken with
            memDeps := (unit.entries woken).memDeps - 1 }).entries other).squashed := by
      refine filter_congr fun other member => ?_
      simp [setEntry, others other member]
    rw [same]
    split <;> rfl

theorem wakeLoop_eq {dependInsts : List Nat} (distinct : dependInsts.Nodup)
    (positive : ∀ other ∈ dependInsts, 0 < (unit.entries other).memDeps) :
    unit.wakeLoop dependInsts = .ok (unit.wake dependInsts) := by
  induction dependInsts generalizing unit with
  | nil => exact congrArg Except.ok wake_nil.symm
  | cons woken rest ih =>
    obtain ⟨outside, distinct⟩ := nodup_cons.mp distinct
    have first := positive woken mem_cons_self
    have later : ∀ other ∈ rest, 0 < ((unit.setEntry woken { unit.entries woken with
        memDeps := (unit.entries woken).memDeps - 1 }).entries other).memDeps := by
      intro other member
      have different : other ≠ woken := fun same => outside (same ▸ member)
      simp only [setEntry, update_of_ne different]
      exact positive other (mem_cons_of_mem _ member)
    unfold wakeLoop
    rw [wake_cons outside, if_pos first]
    have last : ((unit.entries woken).memDeps - 1 = 0) ↔ (unit.entries woken).memDeps = 1 := by
      omega
    simp only [last]
    split
    case isTrue ready =>
      have unsquashed : (unit.entries woken).squashed = false := by
        simp only [Bool.and_eq_true, Bool.not_eq_true'] at ready
        exact ready.2
      have moved : (unit.setEntry woken { unit.entries woken with
          memDeps := (unit.entries woken).memDeps - 1 }).moveToReady woken =
          .ok { unit.setEntry woken { unit.entries woken with
            memDeps := (unit.entries woken).memDeps - 1 } with
            readyList := unit.readyList ++ [woken] } := by
        simp [moveToReady, setEntry, unsquashed]
      rw [moved]
      exact ih distinct later
    case isFalse =>
      rw [append_nil]
      exact ih distinct later

def producers (unit : MemDepUnit) (seqNum : Nat) : Nat :=
  unit.memDepHash.countP fun producer => seqNum ∈ (unit.entries producer).dependInsts

structure Shape (unit : MemDepUnit) : Prop where
  hashNodup : unit.memDepHash.Nodup
  listed : ∀ seqNum, seqNum ∈ unit.instList ↔ seqNum ∈ unit.memDepHash
  ordered : unit.instList.Pairwise (· < ·)
  named : ∀ seqNum, (unit.entries seqNum).inst.seqNum = seqNum
  unsquashed : ∀ seqNum ∈ unit.memDepHash, (unit.entries seqNum).squashed = false
  loadNodup : unit.loadBarrierSNs.Nodup
  loadBarriers : ∀ seqNum, seqNum ∈ unit.loadBarrierSNs ↔
    seqNum ∈ unit.memDepHash ∧ (unit.entries seqNum).inst.isLoadBarrier = true
  storeNodup : unit.storeBarrierSNs.Nodup
  storeBarriers : ∀ seqNum, seqNum ∈ unit.storeBarrierSNs ↔
    seqNum ∈ unit.memDepHash ∧ (unit.entries seqNum).inst.isStoreBarrier = true
  younger : ∀ producer ∈ unit.memDepHash, ∀ seqNum ∈ (unit.entries producer).dependInsts,
    producer < seqNum
  dependNodup : ∀ producer ∈ unit.memDepHash, (unit.entries producer).dependInsts.Nodup
  wakers : ∀ producer ∈ unit.memDepHash, (unit.entries producer).inst.hasDependents = false →
    (unit.entries producer).dependInsts = []
  counted : ∀ seqNum ∈ unit.memDepHash, (unit.entries seqNum).memDeps = unit.producers seqNum
  enough : ∀ seqNum, (unit.producers seqNum : Int) ≤ (unit.entries seqNum).memDeps

theorem Shape.positive (shape : unit.Shape) (member : seqNum ∈ unit.memDepHash) :
    ∀ other ∈ (unit.entries seqNum).dependInsts, 0 < (unit.entries other).memDeps := by
  intro other inside
  have counted : 0 < unit.producers other :=
    countP_pos_iff.mpr ⟨seqNum, member, decide_eq_true inside⟩
  have enough := shape.enough other
  omega

/-! ### Completion -/

def release (unit : MemDepUnit) (seqNum : Nat) : MemDepUnit :=
  (unit.wake (unit.entries seqNum).dependInsts).setEntry seqNum
    { (unit.wake (unit.entries seqNum).dependInsts).entries seqNum with dependInsts := [] }

theorem wakeDependents_eq (shape : unit.Shape) (member : seqNum ∈ unit.memDepHash) :
    unit.wakeDependents seqNum = .ok (unit.release seqNum) := by
  unfold wakeDependents
  split
  · rw [wakeLoop_eq (shape.dependNodup seqNum member) (shape.positive member)]
    rfl
  case isFalse without =>
    have empty := shape.wakers seqNum member (Bool.eq_false_iff.mpr without)
    have same : { unit.entries seqNum with dependInsts := [] } = unit.entries seqNum := by
      rw [← empty]
    unfold release
    rw [empty, wake_nil, same, setEntry, update_eq_self]

def finish (unit : MemDepUnit) (seqNum : Nat) : MemDepUnit :=
  { unit.release seqNum with
    memDepHash := unit.memDepHash.filter (· ≠ seqNum)
    instList := unit.instList.filter (· ≠ seqNum)
    loadBarrierSNs := unit.loadBarrierSNs.filter (· ≠ seqNum)
    storeBarrierSNs := unit.storeBarrierSNs.filter (· ≠ seqNum) }

theorem release_inst (unit : MemDepUnit) (seqNum other : Nat) :
    ((unit.release seqNum).entries other).inst = (unit.entries other).inst := by
  have woken : ∀ other, ((unit.wake (unit.entries seqNum).dependInsts).entries other).inst =
      (unit.entries other).inst := by
    intro other
    simp only [wake]
    split <;> rfl
  unfold release setEntry
  by_cases here : other = seqNum
  · subst here
    simp only [update_self]
    exact woken other
  · simp only [update_of_ne here]
    exact woken other

variable {numbers storeEntries : List Nat}

theorem filter_ne_of_not_mem (outside : seqNum ∉ numbers) : numbers.filter (· ≠ seqNum) = numbers :=
  filter_eq_self.mpr fun _ member => decide_eq_true fun same => outside (same ▸ member)

/-- The number of a barrier is erased without a failed assertion. -/
theorem eraseBarrier_eq {isBarrier : Bool}
    (outstanding : isBarrier = true ↔ seqNum ∈ numbers) (erased : List Nat → MemDepUnit) :
    (if isBarrier then
      if numbers.isEmpty then Except.error Failure.noBarrier
      else .ok (erased (numbers.filter (· ≠ seqNum)))
    else .ok (erased numbers)) = .ok (erased (numbers.filter (· ≠ seqNum))) := by
  split
  case isTrue barrier =>
    refine if_neg fun empty => ?_
    have inside := outstanding.mp barrier
    rw [List.isEmpty_iff.mp empty] at inside
    cases inside
  case isFalse other =>
    rw [filter_ne_of_not_mem fun inside => other (outstanding.mpr inside)]

variable {inst : MemInst}

theorem eraseStoreBarrier_eq
    (outstanding : inst.isStoreBarrier = true ↔ inst.seqNum ∈ unit.storeBarrierSNs) :
    unit.eraseStoreBarrier inst =
      .ok { unit with storeBarrierSNs := unit.storeBarrierSNs.filter (· ≠ inst.seqNum) } :=
  eraseBarrier_eq outstanding fun numbers => { unit with storeBarrierSNs := numbers }

theorem eraseLoadBarrier_eq
    (outstanding : inst.isLoadBarrier = true ↔ inst.seqNum ∈ unit.loadBarrierSNs) :
    unit.eraseLoadBarrier inst =
      .ok { unit with loadBarrierSNs := unit.loadBarrierSNs.filter (· ≠ inst.seqNum) } :=
  eraseBarrier_eq outstanding fun numbers => { unit with loadBarrierSNs := numbers }

theorem completeInst_eq (shape : unit.Shape) (member : seqNum ∈ unit.memDepHash) :
    unit.completeInst seqNum = .ok (unit.finish seqNum) := by
  have inst := release_inst unit seqNum seqNum
  have named := shape.named seqNum
  have loads : (unit.entries seqNum).inst.isLoadBarrier = true ↔
      (unit.entries seqNum).inst.seqNum ∈ unit.loadBarrierSNs := by
    rw [named, shape.loadBarriers, and_iff_right member]
  have stores : (unit.entries seqNum).inst.isStoreBarrier = true ↔
      (unit.entries seqNum).inst.seqNum ∈ unit.storeBarrierSNs := by
    rw [named, shape.storeBarriers, and_iff_right member]
  have completed : (unit.release seqNum).completed seqNum = .ok { unit.release seqNum with
      memDepHash := unit.memDepHash.filter (· ≠ seqNum)
      instList := unit.instList.filter (· ≠ seqNum) } := if_pos member
  simp only [completeInst, wakeDependents_eq shape member, completed, bind, Except.bind, inst]
  rw [eraseStoreBarrier_eq (by exact stores)]
  simp only [inst]
  rw [eraseLoadBarrier_eq (by exact loads), named]
  rfl

theorem countP_filter_ne (test : Nat → Bool) (distinct : numbers.Nodup)
    (member : seqNum ∈ numbers) :
    (numbers.filter (· ≠ seqNum)).countP test + (if test seqNum then 1 else 0) =
      numbers.countP test := by
  induction numbers with
  | nil => cases member
  | cons first rest ih =>
    obtain ⟨outside, distinct⟩ := nodup_cons.mp distinct
    rcases mem_cons.mp member with rfl | later
    · rw [filter_cons_of_neg (by simp), filter_ne_of_not_mem outside, countP_cons]
    · have different : first ≠ seqNum := fun same => outside (same ▸ later)
      have before := ih distinct later
      rw [filter_cons_of_pos (by simpa using different), countP_cons, countP_cons]
      omega

theorem finish_eq (shape : unit.Shape) (member : seqNum ∈ unit.memDepHash) :
    ∃ dependInsts : Nat → List Nat,
      (∀ other, other ≠ seqNum → dependInsts other = (unit.entries other).dependInsts) ∧
      unit.finish seqNum = { unit with
        entries := fun other => { unit.entries other with
          dependInsts := dependInsts other
          memDeps := (unit.entries other).memDeps -
            if other ∈ (unit.entries seqNum).dependInsts then 1 else 0 }
        readyList := unit.readyList ++ (unit.entries seqNum).dependInsts.filter fun other =>
          (unit.entries other).memDeps = 1 && (unit.entries other).regsReady &&
            !(unit.entries other).squashed
        memDepHash := unit.memDepHash.filter (· ≠ seqNum)
        instList := unit.instList.filter (· ≠ seqNum)
        loadBarrierSNs := unit.loadBarrierSNs.filter (· ≠ seqNum)
        storeBarrierSNs := unit.storeBarrierSNs.filter (· ≠ seqNum) } := by
  have outside : seqNum ∉ (unit.entries seqNum).dependInsts := fun inside =>
    Nat.lt_irrefl seqNum (shape.younger seqNum member seqNum inside)
  refine ⟨fun other => if other = seqNum then [] else (unit.entries other).dependInsts,
    fun other different => if_neg different,
    congrArg (fun entries => { unit.finish seqNum with entries := entries })
      (funext fun other => ?_)⟩
  by_cases here : other = seqNum
  · subst here
    simp [release, setEntry, wake, outside]
  · by_cases woken : other ∈ (unit.entries seqNum).dependInsts
    · simp [release, setEntry, wake, here, woken]
    · simp [release, setEntry, wake, here, woken]

theorem Shape.finish (shape : unit.Shape) (member : seqNum ∈ unit.memDepHash) :
    (unit.finish seqNum).Shape := by
  obtain ⟨dependInsts, kept, same⟩ := finish_eq shape member
  rw [same]
  have hash : ∀ {other}, other ∈ unit.memDepHash.filter (· ≠ seqNum) ↔
      other ∈ unit.memDepHash ∧ other ≠ seqNum := by simp
  have producers : ∀ other, (((unit.memDepHash.filter (· ≠ seqNum)).countP fun producer =>
      other ∈ dependInsts producer : Nat) : Int) = unit.producers other -
        if other ∈ (unit.entries seqNum).dependInsts then 1 else 0 := by
    intro other
    have split := countP_filter_ne (fun producer =>
      decide (other ∈ (unit.entries producer).dependInsts)) shape.hashNodup member
    have counted : (unit.memDepHash.filter (· ≠ seqNum)).countP (fun producer =>
        other ∈ dependInsts producer) = (unit.memDepHash.filter (· ≠ seqNum)).countP fun producer =>
        other ∈ (unit.entries producer).dependInsts :=
      countP_congr fun producer inside => by rw [kept producer (hash.mp inside).2]
    simp only [decide_eq_true_eq] at split
    rw [counted, producers, ← split]
    split <;> simp
  exact
    { hashNodup := shape.hashNodup.filter _
      listed := fun other => by simp [shape.listed]
      ordered := shape.ordered.filter _
      named := shape.named
      unsquashed := fun other inside => shape.unsquashed other (hash.mp inside).1
      loadNodup := shape.loadNodup.filter _
      loadBarriers := fun other => by simp [shape.loadBarriers, and_right_comm]
      storeNodup := shape.storeNodup.filter _
      storeBarriers := fun other => by simp [shape.storeBarriers, and_right_comm]
      younger := fun producer inside other depends =>
        shape.younger producer (hash.mp inside).1 other
        (kept producer (hash.mp inside).2 ▸ depends)
      dependNodup := fun producer inside => (congrArg Nodup (kept producer (hash.mp inside).2)).mpr
        (shape.dependNodup producer (hash.mp inside).1)
      wakers := fun producer inside without => (kept producer (hash.mp inside).2).trans
        (shape.wakers producer (hash.mp inside).1 without)
      counted := fun other inside =>
        (congrArg (· - _) (shape.counted other (hash.mp inside).1)).trans (producers other).symm
      enough := fun other =>
        Int.le_trans (Int.le_of_eq (producers other))
          (Int.sub_le_sub_right (shape.enough other) _) }

/-! ### Squash -/

def removeYounger (unit : MemDepUnit) (squashedNum : Nat) : MemDepUnit :=
  { unit with
    entries := fun other =>
      if squashedNum < other ∧ other ∈ unit.memDepHash then
        { unit.entries other with squashed := true }
      else unit.entries other
    loadBarrierSNs := unit.loadBarrierSNs.filter (· ≤ squashedNum)
    storeBarrierSNs := unit.storeBarrierSNs.filter (· ≤ squashedNum)
    memDepHash := unit.memDepHash.filter (· ≤ squashedNum)
    instList := unit.instList.filter (· ≤ squashedNum) }

variable {squashedNum : Nat}

theorem filter_ne_filter (beyond : squashedNum < seqNum) :
    (numbers.filter (· ≠ seqNum)).filter (· ≤ squashedNum) =
      numbers.filter (· ≤ squashedNum) := by
  rw [filter_filter]
  refine filter_congr fun other _ => ?_
  by_cases within : other ≤ squashedNum
  · have different : other ≠ seqNum := Nat.ne_of_lt (Nat.lt_of_le_of_lt within beyond)
    simp [within, different]
  · simp [within]

theorem removeYounger_squashInst (member : seqNum ∈ unit.memDepHash)
    (last : unit.instList.getLast? = some seqNum) (beyond : squashedNum < seqNum) :
    (unit.squashInst seqNum).removeYounger squashedNum = unit.removeYounger squashedNum := by
  have queue := dropLast_append_getLast? seqNum last
  unfold removeYounger
  congr 1
  · funext other
    by_cases here : other = seqNum
    · subst here
      simp [squashInst, setEntry, beyond, member]
    · simp [squashInst, setEntry, here]
  · exact filter_ne_filter beyond
  · conv_rhs => rw [← queue]
    simp [squashInst, beyond]
  · exact filter_ne_filter beyond
  · exact filter_ne_filter beyond

structure Listed (unit : MemDepUnit) : Prop where
  listed : ∀ seqNum, seqNum ∈ unit.instList ↔ seqNum ∈ unit.memDepHash
  ordered : unit.instList.Pairwise (· < ·)
  loads : unit.loadBarrierSNs ⊆ unit.memDepHash
  stores : unit.storeBarrierSNs ⊆ unit.memDepHash

theorem Listed.squashInst (listed : unit.Listed) (last : unit.instList.getLast? = some seqNum) :
    (unit.squashInst seqNum).Listed := by
  have queue := dropLast_append_getLast? seqNum last
  have ordered := listed.ordered
  rw [← queue] at ordered
  have below : ∀ other ∈ unit.instList.dropLast, other < seqNum := fun other inside =>
    (pairwise_append.mp ordered).2.2 other inside seqNum (mem_singleton.mpr rfl)
  refine ⟨?_, (pairwise_append.mp ordered).1, ?_, ?_⟩
  · intro other
    have before := listed.listed other
    rw [← queue, mem_append, mem_singleton] at before
    change other ∈ unit.instList.dropLast ↔ other ∈ unit.memDepHash.filter (· ≠ seqNum)
    rw [mem_filter, ← before, decide_eq_true_eq]
    constructor
    · intro inside
      exact ⟨.inl inside, Nat.ne_of_lt (below other inside)⟩
    · rintro ⟨inside | here, different⟩
      · exact inside
      · exact absurd here different
  · intro other inside
    obtain ⟨inside, different⟩ := mem_filter.mp inside
    exact mem_filter.mpr ⟨listed.loads inside, different⟩
  · intro other inside
    obtain ⟨inside, different⟩ := mem_filter.mp inside
    exact mem_filter.mpr ⟨listed.stores inside, different⟩

theorem removeYounger_of_bounded (listed : unit.Listed)
    (bounded : ∀ other ∈ unit.memDepHash, other ≤ squashedNum) :
    unit.removeYounger squashedNum = unit := by
  have kept : ∀ numbers : List Nat, numbers ⊆ unit.memDepHash →
      numbers.filter (· ≤ squashedNum) = numbers := fun numbers inside =>
    filter_eq_self.mpr fun other member => decide_eq_true (bounded other (inside member))
  have entries : (fun other => if squashedNum < other ∧ other ∈ unit.memDepHash then
      { unit.entries other with squashed := true } else unit.entries other) = unit.entries := by
    funext other
    exact if_neg fun both => Nat.not_le.mpr both.1 (bounded other both.2)
  unfold removeYounger
  rw [entries, kept _ (fun _ member => member), kept _ listed.loads, kept _ listed.stores,
    kept _ fun other member => (listed.listed other).mp member]

theorem removeYounger_of_empty (listed : unit.Listed)
    (empty : unit.instList = []) : unit.removeYounger squashedNum = unit := by
  refine removeYounger_of_bounded listed fun other inside => ?_
  rw [← listed.listed, empty] at inside
  cases inside

theorem squashLoop_eq {fuel : Nat} (listed : unit.Listed) (enough : unit.instList.length ≤ fuel) :
    squashLoop squashedNum fuel unit = .ok (unit.removeYounger squashedNum) := by
  induction fuel generalizing unit with
  | zero =>
    have empty := eq_nil_of_length_eq_zero (Nat.le_zero.mp enough)
    rw [removeYounger_of_empty listed empty]
    rfl
  | succ fuel ih =>
    unfold squashLoop
    split
    case h_1 empty =>
      rw [removeYounger_of_empty listed (getLast?_eq_none_iff.mp empty)]
    case h_2 seqNum last =>
      have member := (listed.listed seqNum).mp (mem_of_getLast? last)
      have queue := dropLast_append_getLast? seqNum last
      split
      case isTrue beyond =>
        rw [← removeYounger_squashInst member last beyond]
        refine ih (listed.squashInst last) ?_
        change unit.instList.dropLast.length ≤ fuel
        rw [length_dropLast]
        omega
      case isFalse within =>
        have ordered := listed.ordered
        rw [← queue] at ordered
        have bounded : ∀ other ∈ unit.memDepHash, other ≤ squashedNum := by
          intro other inside
          rw [← listed.listed, ← queue] at inside
          rcases mem_append.mp inside with before | here
          · have below := (pairwise_append.mp ordered).2.2 other before seqNum
              (mem_singleton.mpr rfl)
            omega
          · rw [mem_singleton.mp here]
            omega
        rw [removeYounger_of_bounded listed bounded]

theorem Shape.toListed (shape : unit.Shape) : unit.Listed where
  listed := shape.listed
  ordered := shape.ordered
  loads := fun other inside => ((shape.loadBarriers other).mp inside).1
  stores := fun other inside => ((shape.storeBarriers other).mp inside).1

theorem squash_eq (shape : unit.Shape) (squashedNum : Nat) :
    unit.squash squashedNum = .ok
      { unit.removeYounger squashedNum with
        instsToReplay := unit.instsToReplay.filter (· ≤ squashedNum) } := by
  have listed : Listed { unit with
      instsToReplay := unit.instsToReplay.filter (· ≤ squashedNum) } :=
    ⟨shape.listed, shape.ordered, shape.toListed.loads, shape.toListed.stores⟩
  exact squashLoop_eq listed (Nat.le_refl _)

theorem removeYounger_producers (shape : unit.Shape) (squashedNum other : Nat) :
    (unit.removeYounger squashedNum).producers other ≤ unit.producers other ∧
      (other ≤ squashedNum →
        (unit.removeYounger squashedNum).producers other = unit.producers other) := by
  have same : (unit.removeYounger squashedNum).producers other =
      (unit.memDepHash.filter (· ≤ squashedNum)).countP fun producer =>
        other ∈ (unit.entries producer).dependInsts := by
    refine countP_congr fun producer _ => ?_
    simp only [removeYounger]
    split <;> rfl
  rw [same]
  refine ⟨filter_sublist.countP_le, fun within => ?_⟩
  rw [countP_filter]
  refine countP_congr fun producer inside => ?_
  simp only [Bool.and_eq_true, decide_eq_true_eq, and_iff_left_iff_imp]
  intro depends
  exact Nat.le_of_lt (Nat.lt_of_lt_of_le (shape.younger producer inside other depends) within)

theorem removeYounger_eq (unit : MemDepUnit) (squashedNum : Nat) :
    ∃ squashed : Nat → Bool,
      (∀ other ≤ squashedNum, squashed other = (unit.entries other).squashed) ∧
      unit.removeYounger squashedNum = { unit with
        entries := fun other => { unit.entries other with squashed := squashed other }
        loadBarrierSNs := unit.loadBarrierSNs.filter (· ≤ squashedNum)
        storeBarrierSNs := unit.storeBarrierSNs.filter (· ≤ squashedNum)
        memDepHash := unit.memDepHash.filter (· ≤ squashedNum)
        instList := unit.instList.filter (· ≤ squashedNum) } := by
  refine ⟨fun other => decide (squashedNum < other ∧ other ∈ unit.memDepHash) ||
    (unit.entries other).squashed, fun other within => by simp [Nat.not_lt.mpr within], ?_⟩
  unfold removeYounger
  congr 1
  funext other
  split
  case isTrue gone => simp [gone]
  case isFalse kept => simp [kept]

theorem Shape.removeYounger (shape : unit.Shape) (squashedNum : Nat) :
    (unit.removeYounger squashedNum).Shape := by
  have producers := removeYounger_producers shape squashedNum
  obtain ⟨squashed, kept, same⟩ := removeYounger_eq unit squashedNum
  rw [same] at producers ⊢
  have hash : ∀ {other}, other ∈ unit.memDepHash.filter (· ≤ squashedNum) ↔
      other ∈ unit.memDepHash ∧ other ≤ squashedNum := by simp
  refine
    { hashNodup := shape.hashNodup.filter _
      listed := fun other => by simp [shape.listed]
      ordered := shape.ordered.filter _
      named := shape.named
      unsquashed := ?_
      loadNodup := shape.loadNodup.filter _
      loadBarriers := fun other => by simp [shape.loadBarriers, and_right_comm]
      storeNodup := shape.storeNodup.filter _
      storeBarriers := fun other => by simp [shape.storeBarriers, and_right_comm]
      younger := fun producer inside => shape.younger producer (hash.mp inside).1
      dependNodup := fun producer inside => shape.dependNodup producer (hash.mp inside).1
      wakers := fun producer inside => shape.wakers producer (hash.mp inside).1
      counted := ?_
      enough := ?_ }
  · intro other inside
    obtain ⟨inside, within⟩ := hash.mp inside
    exact (kept other within).trans (shape.unsquashed other inside)
  · intro other inside
    obtain ⟨inside, within⟩ := hash.mp inside
    rw [(producers other).2 within]
    exact shape.counted other inside
  · intro other
    exact Int.le_trans (Int.ofNat_le.mpr (producers other).1) (shape.enough other)

/-! ### Insertion -/

def enter (unit : MemDepUnit) (inst : MemInst) (readyToIssue : Bool) (storeEntries : List Nat) :
    MemDepUnit :=
  { unit with
    entries := fun other =>
      if other = inst.seqNum then
        { inst := inst, regsReady := readyToIssue, memDeps := storeEntries.length }
      else if other ∈ storeEntries then
        { unit.entries other with
          dependInsts := (unit.entries other).dependInsts ++ [inst.seqNum] }
      else unit.entries other
    memDepHash := inst.seqNum :: unit.memDepHash
    instList := unit.instList ++ [inst.seqNum] }

def place (unit : MemDepUnit) (inst : MemInst) (readyToIssue : Bool) (storeEntries : List Nat) :
    MemDepUnit :=
  (unit.enter inst readyToIssue storeEntries).insertBarrierSN inst

structure Older (unit : MemDepUnit) (seqNum : Nat) : Prop where
  hash : ∀ other ∈ unit.memDepHash, other < seqNum
  dependents : ∀ producer ∈ unit.memDepHash, ∀ other ∈ (unit.entries producer).dependInsts,
    other < seqNum

theorem Older.not_mem (older : unit.Older seqNum) : seqNum ∉ unit.memDepHash :=
  fun inside => Nat.lt_irrefl seqNum (older.hash seqNum inside)

theorem enter_entries_nil (unit : MemDepUnit) (inst : MemInst) (readyToIssue : Bool) :
    (unit.enter inst readyToIssue []).entries = update unit.entries inst.seqNum
      { inst := inst, regsReady := readyToIssue } := by
  funext other
  simp [enter, update_apply]

theorem addEntry_eq (older : unit.Older inst.seqNum) :
    unit.addEntry inst = unit.enter inst false [] := by
  have hash : unit.memDepHash.insert inst.seqNum = inst.seqNum :: unit.memDepHash :=
    insert_of_not_mem older.not_mem
  have entries := enter_entries_nil unit inst false
  simp only [addEntry, setEntry, hash, ← entries]
  rfl

theorem insertBarrier_eq (older : unit.Older inst.seqNum) :
    unit.insertBarrier inst = unit.place inst false [] :=
  congrArg (insertBarrierSN · inst) (addEntry_eq older)

theorem addEntry_setEntry (older : unit.Older inst.seqNum) (readyToIssue : Bool) (memDeps : Int) :
    (unit.addEntry inst).setEntry inst.seqNum
      { (unit.addEntry inst).entries inst.seqNum with
        regsReady := readyToIssue, memDeps := memDeps } =
      { unit.enter inst readyToIssue [] with
        entries := update unit.entries inst.seqNum
          { inst := inst, regsReady := readyToIssue, memDeps := memDeps } } := by
  rw [addEntry_eq older]
  simp only [setEntry, enter_entries_nil, update_self, update_idem]
  rfl

theorem addDependent_eq (fresh : inst.seqNum ∉ storeEntries) (readyToIssue : Bool) :
    addDependent { unit.enter inst readyToIssue [] with
      entries := update unit.entries inst.seqNum
        { inst := inst, regsReady := readyToIssue, memDeps := storeEntries.length } }
      inst.seqNum storeEntries = unit.enter inst readyToIssue storeEntries := by
  unfold addDependent enter
  congr 1
  funext other
  by_cases here : other = inst.seqNum
  · subst here
    simp [fresh]
  · simp [here]

variable {readyToIssue : Bool}

theorem resolve_eq (older : unit.Older inst.seqNum) (inside : storeEntries ⊆ unit.memDepHash) :
    (unit.addEntry inst).resolve inst readyToIssue storeEntries =
      .ok { unit.enter inst readyToIssue storeEntries with
        readyList := unit.readyList ++
          if storeEntries.isEmpty && readyToIssue then [inst.seqNum] else [] } := by
  have fresh : inst.seqNum ∉ storeEntries := fun member => older.not_mem (inside member)
  unfold resolve
  simp only [addEntry_setEntry older]
  cases storeEntries with
  | nil =>
    have entries := enter_entries_nil unit inst readyToIssue
    cases readyToIssue with
    | false => simp [← entries, enter]
    | true => simp [← entries, enter, moveToReady]
  | cons first rest =>
    simp only [isEmpty_cons, Bool.false_eq_true, ↓reduceIte, Bool.false_and, append_nil]
    exact congrArg Except.ok (addDependent_eq fresh readyToIssue)

def waitsFor (unit : MemDepUnit) (inst : MemInst) (dep : Option Nat) : List Nat :=
  (unit.producingStores inst dep).filter (· ∈ unit.memDepHash)

theorem insertPredicted_ok (told : unit.insertPredicted inst = .ok next) :
    next = { unit with
      depPredStores := unit.depPredStores ++
        if inst.isStore || inst.isAtomic then [inst.seqNum] else [] } := by
  unfold insertPredicted at told
  split at told
  case isTrue store =>
    rw [if_pos store]
    exact (Except.ok.inj told).symm
  case isFalse other =>
    split at told
    · rw [if_neg other, append_nil]
      exact (Except.ok.inj told).symm
    · cases told

theorem insertNonSpec_ok (older : unit.Older inst.seqNum)
    (inserted : unit.insertNonSpec inst = .ok next) :
    next = { unit.place inst false [] with
      depPredStores := unit.depPredStores ++
        if inst.isStore || inst.isAtomic then [inst.seqNum] else [] } := by
  have told := insertPredicted_ok inserted
  rw [insertBarrier_eq older] at told
  exact told

theorem insert_ok {dep : Option Nat} (older : unit.Older inst.seqNum)
    (before : ∀ store ∈ unit.producingStores inst dep, store ≠ inst.seqNum)
    (inserted : unit.insert inst readyToIssue dep = .ok next) :
    next = { unit.place inst readyToIssue (unit.waitsFor inst dep) with
      readyList := unit.readyList ++
        if (unit.waitsFor inst dep).isEmpty && readyToIssue then [inst.seqNum] else []
      depPredStores := unit.depPredStores ++
        if inst.isStore || inst.isAtomic then [inst.seqNum] else [] } := by
  have same : (unit.producingStores inst dep).filter (· ∈ (unit.addEntry inst).memDepHash) =
      unit.waitsFor inst dep := by
    refine filter_congr fun store inside => ?_
    rw [addEntry_eq older]
    simp [enter, before store inside]
  have inside : unit.waitsFor inst dep ⊆ unit.memDepHash := fun store member =>
    of_decide_eq_true (mem_filter.mp member).2
  unfold insert at inserted
  simp only [same, resolve_eq older inside] at inserted
  exact insertPredicted_ok inserted

theorem place_entries (unit : MemDepUnit) (inst : MemInst) (readyToIssue : Bool)
    (storeEntries : List Nat) (other : Nat) :
    (unit.place inst readyToIssue storeEntries).entries other =
      if other = inst.seqNum then
        { inst := inst, regsReady := readyToIssue, memDeps := storeEntries.length }
      else if other ∈ storeEntries then
        { unit.entries other with
          dependInsts := (unit.entries other).dependInsts ++ [inst.seqNum] }
      else unit.entries other := rfl

theorem place_dependInsts
    (older : unit.Older inst.seqNum) {producer : Nat} (inside : producer ∈ unit.memDepHash) :
    ((unit.place inst readyToIssue storeEntries).entries producer).dependInsts =
      (unit.entries producer).dependInsts ++
        if producer ∈ storeEntries then [inst.seqNum] else [] := by
  have different : producer ≠ inst.seqNum := Nat.ne_of_lt (older.hash producer inside)
  rw [place_entries, if_neg different]
  by_cases waited : producer ∈ storeEntries
  · rw [if_pos waited, if_pos waited]
  · rw [if_neg waited, if_neg waited, append_nil]

theorem countP_mem_of_subset {part : List Nat} (distinct : numbers.Nodup)
    (partDistinct : part.Nodup) (inside : part ⊆ numbers) :
    numbers.countP (· ∈ part) = part.length := by
  have same : (numbers.filter (· ∈ part)).Perm part := by
    refine (perm_ext_iff_of_nodup (distinct.filter _) partDistinct).mpr fun number => ?_
    rw [mem_filter, decide_eq_true_eq]
    exact and_iff_right_of_imp fun member => inside member
  rw [countP_eq_length_filter]
  exact same.length_eq

theorem place_producers (shape : unit.Shape)
    (older : unit.Older inst.seqNum) (readyToIssue : Bool) (distinct : storeEntries.Nodup)
    (inside : storeEntries ⊆ unit.memDepHash) (other : Nat) :
    (unit.place inst readyToIssue storeEntries).producers other =
      if other = inst.seqNum then storeEntries.length else unit.producers other := by
  have newest : ((unit.place inst readyToIssue storeEntries).entries inst.seqNum).dependInsts =
      [] := by
    rw [place_entries, if_pos rfl]
  have counted : (unit.place inst readyToIssue storeEntries).producers other =
      unit.memDepHash.countP fun producer =>
        other ∈ ((unit.place inst readyToIssue storeEntries).entries producer).dependInsts := by
    refine countP_cons_of_neg ?_
    simp [newest]
  rw [counted]
  split
  case isTrue here =>
    subst here
    rw [← countP_mem_of_subset shape.hashNodup distinct inside]
    refine countP_congr fun producer member => ?_
    have outside : inst.seqNum ∉ (unit.entries producer).dependInsts := fun depends =>
      Nat.lt_irrefl _ (older.dependents producer member _ depends)
    rw [place_dependInsts older member]
    by_cases waited : producer ∈ storeEntries
    · simp [waited]
    · simp [waited, outside]
  case isFalse different =>
    refine countP_congr fun producer member => ?_
    rw [place_dependInsts older member]
    by_cases waited : producer ∈ storeEntries
    · simp [waited, different]
    · simp [waited]

theorem mem_insert_barrier {isBarrier : Bool} {other : Nat} :
    other ∈ (if isBarrier then numbers.insert seqNum else numbers) ↔
      other ∈ numbers ∨ isBarrier = true ∧ other = seqNum := by
  cases isBarrier with
  | false => simp
  | true => simp [mem_insert_iff, or_comm]

theorem place_loadBarrierSNs (unit : MemDepUnit) (inst : MemInst) (readyToIssue : Bool)
    (storeEntries : List Nat) (other : Nat) :
    other ∈ (unit.place inst readyToIssue storeEntries).loadBarrierSNs ↔
      other ∈ unit.loadBarrierSNs ∨ inst.isLoadBarrier = true ∧ other = inst.seqNum :=
  mem_insert_barrier

theorem place_storeBarrierSNs (unit : MemDepUnit) (inst : MemInst) (readyToIssue : Bool)
    (storeEntries : List Nat) (other : Nat) :
    other ∈ (unit.place inst readyToIssue storeEntries).storeBarrierSNs ↔
      other ∈ unit.storeBarrierSNs ∨ inst.isStoreBarrier = true ∧ other = inst.seqNum :=
  mem_insert_barrier

theorem Shape.place (shape : unit.Shape)
    (older : unit.Older inst.seqNum) (readyToIssue : Bool) (distinct : storeEntries.Nodup)
    (inside : storeEntries ⊆ unit.memDepHash)
    (wakers : ∀ store ∈ storeEntries, (unit.entries store).inst.hasDependents = true) :
    (unit.place inst readyToIssue storeEntries).Shape := by
  have different : ∀ other ∈ unit.memDepHash, other ≠ inst.seqNum := fun other member =>
    Nat.ne_of_lt (older.hash other member)
  have newest : (unit.place inst readyToIssue storeEntries).entries inst.seqNum =
      { inst := inst, regsReady := readyToIssue, memDeps := storeEntries.length } := if_pos rfl
  have kept : ∀ other, other ≠ inst.seqNum →
      ((unit.place inst readyToIssue storeEntries).entries other).inst = (unit.entries other).inst ∧
      ((unit.place inst readyToIssue storeEntries).entries other).squashed =
        (unit.entries other).squashed ∧
      ((unit.place inst readyToIssue storeEntries).entries other).memDeps =
        (unit.entries other).memDeps := by
    intro other different
    rw [place_entries, if_neg different]
    split <;> exact ⟨rfl, rfl, rfl⟩
  have hash : ∀ other, other ∈ (unit.place inst readyToIssue storeEntries).memDepHash ↔
      other = inst.seqNum ∨ other ∈ unit.memDepHash := fun other => mem_cons
  have producers := place_producers shape older readyToIssue distinct inside
  refine
    { hashNodup := nodup_cons.mpr ⟨older.not_mem, shape.hashNodup⟩
      listed := ?_
      ordered := ?_
      named := ?_
      unsquashed := ?_
      loadNodup := ?_
      loadBarriers := ?_
      storeNodup := ?_
      storeBarriers := ?_
      younger := ?_
      dependNodup := ?_
      wakers := ?_
      counted := ?_
      enough := ?_ }
  · intro other
    rw [hash, ← shape.listed]
    change other ∈ unit.instList ++ [inst.seqNum] ↔ _
    rw [mem_append, mem_singleton, or_comm]
  · refine pairwise_append.mpr ⟨shape.ordered, pairwise_singleton _ _, ?_⟩
    intro other member last here
    rw [mem_singleton.mp here]
    exact older.hash other ((shape.listed other).mp member)
  · intro other
    by_cases here : other = inst.seqNum
    · rw [here, newest]
    · rw [(kept other here).1]
      exact shape.named other
  · intro other member
    rcases (hash other).mp member with rfl | before
    · rw [newest]
    · rw [(kept other (different other before)).2.1]
      exact shape.unsquashed other before
  · change List.Nodup (if _ then _ else _)
    split
    · exact List.Nodup.insert shape.loadNodup
    · exact shape.loadNodup
  · intro other
    rw [place_loadBarrierSNs, hash, shape.loadBarriers]
    by_cases here : other = inst.seqNum
    · rw [here, newest]
      simp [older.not_mem]
    · rw [(kept other here).1]
      simp [here]
  · change List.Nodup (if _ then _ else _)
    split
    · exact List.Nodup.insert shape.storeNodup
    · exact shape.storeNodup
  · intro other
    rw [place_storeBarrierSNs, hash, shape.storeBarriers]
    by_cases here : other = inst.seqNum
    · rw [here, newest]
      simp [older.not_mem]
    · rw [(kept other here).1]
      simp [here]
  · intro producer member other depends
    rcases (hash producer).mp member with rfl | before
    · rw [newest] at depends
      cases depends
    · rw [place_dependInsts older before] at depends
      rcases mem_append.mp depends with old | added
      · exact shape.younger producer before other old
      · split at added
        · rw [mem_singleton.mp added]
          exact older.hash producer before
        · cases added
  · intro producer member
    rcases (hash producer).mp member with rfl | before
    · rw [newest]
      exact nodup_nil
    · rw [place_dependInsts older before]
      have outside : inst.seqNum ∉ (unit.entries producer).dependInsts := fun depends =>
        Nat.lt_irrefl _ (older.dependents producer before _ depends)
      refine nodup_append.mpr ⟨shape.dependNodup producer before, ?_, ?_⟩
      · split
        · exact nodup_singleton _
        · exact nodup_nil
      · intro old member added here same
        split at here
        · rw [mem_singleton.mp here] at same
          exact outside (same ▸ member)
        · cases here
  · intro producer member without
    rcases (hash producer).mp member with rfl | before
    · rw [newest]
    · rw [(kept producer (different producer before)).1] at without
      have waited : producer ∉ storeEntries := fun waited =>
        absurd ((wakers producer waited).symm.trans without) (by decide)
      rw [place_dependInsts older before, if_neg waited, append_nil]
      exact shape.wakers producer before without
  · intro other member
    rcases (hash other).mp member with rfl | before
    · rw [producers, newest, if_pos rfl]
    · rw [producers, (kept other (different other before)).2.2, if_neg (different other before)]
      exact shape.counted other before
  · intro other
    by_cases here : other = inst.seqNum
    · refine Int.le_of_eq ?_
      rw [producers, here, newest, if_pos rfl]
    · rw [producers, (kept other here).2.2, if_neg here]
      exact shape.enough other

end MemDepUnit

end Runahead.O3.MemDep
