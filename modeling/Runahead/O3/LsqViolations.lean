import Mathlib.Order.Bounds.Basic
import Runahead.O3.LsqAccess
import Runahead.O3.LsqUnitOrder

/-!
# Memory order violations

`checkViolations` scans the load queue from the position that a store recorded when
it was inserted. It stops at the first load it reports or at the first load that is
younger than the violator it already has, so that the violator it leaves is the oldest
one only because the queue is in program order.
-/

set_option autoImplicit false

namespace Runahead.O3.Lsq

open List

structure LoadState where
  access : Access
  effAddrValid : Bool
  strictlyOrdered : Bool := false
  hitExternalSnoop : Bool := false
  possibleLoadViolation : Bool := false
  deriving DecidableEq, Repr

structure CheckedInst where
  seqNum : Nat
  access : Access
  isLoad : Bool := false
  deriving DecidableEq, Repr

/-- "Detected fault with inst [sn:%lli] and [sn:%lli] at address %#x". -/
structure M5PanicFault where
  inst : Nat
  load : Nat
  address : Addr
  deriving DecidableEq, Repr

structure CheckResult where
  loads : Nat → LoadState
  memDepViolator : Option Nat
  fault : Option M5PanicFault

/-- The loop of `checkViolations`; loads are found by their sequence numbers. -/
def checkViolations (depCheckShift : Nat) (inst : CheckedInst) :
    List LQEntry → (Nat → LoadState) → Option Nat → CheckResult
  | [], loads, memDepViolator => ⟨loads, memDepViolator, none⟩
  | entry :: younger, loads, memDepViolator =>
    let load := loads entry.seqNum
    let detected : CheckResult :=
      ⟨loads, some entry.seqNum,
        some ⟨inst.seqNum, entry.seqNum, load.access.firstBlock depCheckShift⟩⟩
    if !load.effAddrValid || load.strictlyOrdered then
      checkViolations depCheckShift inst younger loads memDepViolator
    else if Access.overlaps depCheckShift inst.access load.access then
      if inst.isLoad then
        if load.hitExternalSnoop && memDepViolator.all (entry.seqNum < ·) then detected
        else
          checkViolations depCheckShift inst younger
            (Function.update loads entry.seqNum { load with possibleLoadViolation := true })
            memDepViolator
      else if memDepViolator.any (· < entry.seqNum) then ⟨loads, memDepViolator, none⟩
      else detected
    else checkViolations depCheckShift inst younger loads memDepViolator

/-- The load has its address, may be reordered, and touches the blocks of the access. -/
def LoadState.exposed (depCheckShift : Nat) (access : Access) (load : LoadState) : Bool :=
  load.effAddrValid && !load.strictlyOrdered && Access.overlaps depCheckShift access load.access

theorem checkViolations_store {depCheckShift : Nat} {inst : CheckedInst}
    (isStore : inst.isLoad = false) (queue : List LQEntry) (loads : Nat → LoadState)
    (memDepViolator : Option Nat) :
    checkViolations depCheckShift inst queue loads memDepViolator =
      match queue.find? fun entry => (loads entry.seqNum).exposed depCheckShift inst.access with
      | none => ⟨loads, memDepViolator, none⟩
      | some entry =>
        if memDepViolator.any (· < entry.seqNum) then ⟨loads, memDepViolator, none⟩
        else ⟨loads, some entry.seqNum,
          some ⟨inst.seqNum, entry.seqNum,
            (loads entry.seqNum).access.firstBlock depCheckShift⟩⟩ := by
  induction queue with
  | nil => rfl
  | cons entry younger ih =>
    unfold checkViolations
    rw [ih, find?_cons]
    by_cases skipped : (!(loads entry.seqNum).effAddrValid ||
        (loads entry.seqNum).strictlyOrdered) = true
    · have hidden : (loads entry.seqNum).exposed depCheckShift inst.access = false := by
        rw [Bool.or_eq_true, Bool.not_eq_true'] at skipped
        rcases skipped with invalid | ordered
        · simp [LoadState.exposed, invalid]
        · simp [LoadState.exposed, ordered]
      simp only [skipped, ↓reduceIte, hidden]
    · obtain ⟨valid, reordered⟩ : (loads entry.seqNum).effAddrValid = true ∧
          (loads entry.seqNum).strictlyOrdered = false := by simpa using skipped
      have exposed : (loads entry.seqNum).exposed depCheckShift inst.access =
          Access.overlaps depCheckShift inst.access (loads entry.seqNum).access := by
        simp [LoadState.exposed, valid, reordered]
      simp only [skipped, ↓reduceIte, exposed, isStore, Bool.false_eq_true]
      cases Access.overlaps depCheckShift inst.access (loads entry.seqNum).access <;> rfl

namespace LSQUnit

variable {config : Config} {unit next : LSQUnit} {lqIt seqNum : Nat}

/-- The position that a store has recorded separates the older loads from the younger
ones, as the position of a load separates the stores. -/
structure SplitAt (unit : LSQUnit) (lqIt seqNum : Nat) : Prop where
  placed : Placed unit.loadHead (unit.loadQueue.map (·.seqNum)) { seqNum := seqNum, sqIt := lqIt }
  lower : unit.loadHead ≤ lqIt
  distinct : ∀ load ∈ unit.loadQueue, load.seqNum ≠ seqNum

def loadsFrom (unit : LSQUnit) (lqIt : Nat) : List LQEntry :=
  unit.loadQueue.drop (lqIt - unit.loadHead)

theorem SplitAt.mem_loadsFrom (split : unit.SplitAt lqIt seqNum) {load : LQEntry} :
    load ∈ unit.loadsFrom lqIt ↔ load ∈ unit.loadQueue ∧ seqNum < load.seqNum := by
  have separates : ∀ index entry, unit.loadQueue[index]? = some entry →
      (unit.loadHead + index < lqIt ↔ entry.seqNum < seqNum) := fun index entry found =>
    split.placed.separates index entry.seqNum (by rw [List.getElem?_map, found]; rfl)
  constructor
  · intro member
    obtain ⟨index, found⟩ := mem_iff_getElem?.mp member
    unfold loadsFrom at found
    rw [List.getElem?_drop] at found
    have inQueue := mem_of_getElem? found
    have side := separates _ _ found
    have other := split.distinct load inQueue
    exact ⟨inQueue, by omega⟩
  · rintro ⟨member, younger⟩
    obtain ⟨index, found⟩ := mem_iff_getElem?.mp member
    have side := separates _ _ found
    refine mem_iff_getElem?.mpr ⟨index - (lqIt - unit.loadHead), ?_⟩
    unfold loadsFrom
    rw [List.getElem?_drop, Nat.add_sub_cancel' (by omega)]
    exact found

def Endangered (depCheckShift : Nat) (unit : LSQUnit) (loads : Nat → LoadState)
    (store : CheckedInst) (load : LQEntry) : Prop :=
  load ∈ unit.loadQueue ∧ store.seqNum < load.seqNum ∧
    (loads load.seqNum).exposed depCheckShift store.access = true

theorem find?_oldest {exposed : LQEntry → Bool} {queue : List LQEntry} {found : LQEntry}
    (ordered : queue.Pairwise fun older younger => older.seqNum < younger.seqNum)
    (first : queue.find? exposed = some found) :
    ∀ load ∈ queue, exposed load = true → found.seqNum ≤ load.seqNum := by
  intro load member visible
  obtain ⟨-, before, after, rfl, hidden⟩ := find?_eq_some_iff_append.mp first
  rcases mem_append.mp member with earlier | later
  · exact absurd visible (by simpa using hidden load earlier)
  · rcases mem_cons.mp later with rfl | later
    · exact Nat.le_refl _
    · have behind := (pairwise_append.mp ordered).2.1
      exact Nat.le_of_lt ((pairwise_cons.mp behind).1 load later)

/-- The three ways in which a store's scan ends. -/
inductive ScanEnd (depCheckShift : Nat) (unit : LSQUnit) (loads : Nat → LoadState)
    (store : CheckedInst) (memDepViolator : Option Nat) : CheckResult → Prop where
  | unhurt (none : ∀ load, ¬ unit.Endangered depCheckShift loads store load) :
      ScanEnd depCheckShift unit loads store memDepViolator ⟨loads, memDepViolator, .none⟩
  | known (load : LQEntry) (violator : Nat)
      (oldest : ∀ other, unit.Endangered depCheckShift loads store other →
        load.seqNum ≤ other.seqNum)
      (recorded : memDepViolator = some violator) (older : violator < load.seqNum) :
      ScanEnd depCheckShift unit loads store memDepViolator ⟨loads, memDepViolator, .none⟩
  | detected (load : LQEntry) (fault : M5PanicFault)
      (endangered : unit.Endangered depCheckShift loads store load)
      (oldest : ∀ other, unit.Endangered depCheckShift loads store other →
        load.seqNum ≤ other.seqNum)
      (notYounger : ∀ violator, memDepViolator = some violator → load.seqNum ≤ violator) :
      ScanEnd depCheckShift unit loads store memDepViolator ⟨loads, some load.seqNum, some fault⟩

theorem checkViolations_scanEnd {depCheckShift : Nat} {loads : Nat → LoadState}
    {store : CheckedInst} {memDepViolator : Option Nat} (isStore : store.isLoad = false)
    (ordered : unit.loadQueue.Pairwise fun older younger => older.seqNum < younger.seqNum)
    (split : unit.SplitAt lqIt store.seqNum) :
    ScanEnd depCheckShift unit loads store memDepViolator
      (checkViolations depCheckShift store (unit.loadsFrom lqIt) loads memDepViolator) := by
  have behind : (unit.loadsFrom lqIt).Pairwise fun older younger =>
    older.seqNum < younger.seqNum := ordered.sublist (drop_sublist _ _)
  have scanned : ∀ load, unit.Endangered depCheckShift loads store load ↔
      load ∈ unit.loadsFrom lqIt ∧
        (loads load.seqNum).exposed depCheckShift store.access = true := by
    intro load
    rw [split.mem_loadsFrom, Endangered, and_assoc]
  rw [checkViolations_store isStore]
  cases first : (unit.loadsFrom lqIt).find? fun entry =>
      (loads entry.seqNum).exposed depCheckShift store.access with
  | none =>
    refine .unhurt fun load endangered => ?_
    obtain ⟨member, visible⟩ := (scanned load).mp endangered
    exact find?_eq_none.mp first load member visible
  | some load =>
    have oldest : ∀ other, unit.Endangered depCheckShift loads store other →
        load.seqNum ≤ other.seqNum := by
      intro other endangered
      obtain ⟨member, visible⟩ := (scanned other).mp endangered
      exact find?_oldest behind first other member visible
    dsimp only
    split
    case isTrue younger =>
      obtain ⟨violator, recorded, older⟩ := (Option.any_eq_true _ _).mp younger
      exact .known load violator oldest recorded (of_decide_eq_true older)
    case isFalse notYounger =>
      have visible : (loads load.seqNum).exposed depCheckShift store.access = true := by
        simpa using find?_some first
      have endangered := (scanned load).mpr ⟨mem_of_find?_eq_some first, visible⟩
      refine .detected load _ endangered oldest ?_
      intro violator recorded
      simpa [recorded] using notYounger

section ScanEnd

variable {depCheckShift : Nat} {loads : Nat → LoadState} {store : CheckedInst}
variable {memDepViolator : Option Nat} {result : CheckResult}

def candidates (depCheckShift : Nat) (unit : LSQUnit) (loads : Nat → LoadState)
    (store : CheckedInst) (memDepViolator : Option Nat) : Set Nat :=
  {candidate | memDepViolator = some candidate ∨
    ∃ load, unit.Endangered depCheckShift loads store load ∧ load.seqNum = candidate}

section

variable (ended : ScanEnd depCheckShift unit loads store memDepViolator result)
include ended

theorem ScanEnd.isLeast {number : Nat} (recorded : result.memDepViolator = some number) :
    IsLeast (unit.candidates depCheckShift loads store memDepViolator) number := by
  cases ended with
  | unhurt none =>
    refine ⟨.inl recorded, ?_⟩
    rintro candidate (before | ⟨load, endangered, -⟩)
    · exact Nat.le_of_eq (Option.some.inj (recorded.symm.trans before))
    · exact absurd endangered (none load)
  | known load violator oldest before older =>
    obtain rfl := Option.some.inj (before.symm.trans recorded)
    refine ⟨.inl recorded, ?_⟩
    rintro candidate (before | ⟨other, endangered, rfl⟩)
    · exact Nat.le_of_eq (Option.some.inj (recorded.symm.trans before))
    · exact Nat.le_trans (Nat.le_of_lt older) (oldest other endangered)
  | detected load fault endangered oldest notYounger =>
    obtain rfl := Option.some.inj recorded
    refine ⟨.inr ⟨load, endangered, rfl⟩, ?_⟩
    rintro candidate (before | ⟨other, endangered, rfl⟩)
    · exact notYounger candidate before
    · exact oldest other endangered

theorem ScanEnd.recorded {candidate : Nat}
    (member : candidate ∈ unit.candidates depCheckShift loads store memDepViolator) :
    ∃ violator, result.memDepViolator = some violator ∧ violator ≤ candidate := by
  have present : ∃ violator, result.memDepViolator = some violator := by
    cases ended with
    | unhurt none =>
      rcases member with before | ⟨load, endangered, -⟩
      · exact ⟨candidate, before⟩
      · exact absurd endangered (none load)
    | known load violator oldest before older => exact ⟨violator, before⟩
    | detected load fault endangered oldest notYounger => exact ⟨load.seqNum, rfl⟩
  obtain ⟨violator, recorded⟩ := present
  exact ⟨violator, recorded, (ended.isLeast recorded).2 member⟩

theorem ScanEnd.fault_iff :
    result.fault.isSome = true ↔ ∃ load, unit.Endangered depCheckShift loads store load ∧
      ∀ violator, memDepViolator = some violator → load.seqNum ≤ violator := by
  cases ended with
  | unhurt none =>
    refine ⟨fun fault => absurd fault Bool.false_ne_true, ?_⟩
    rintro ⟨load, endangered, -⟩
    exact absurd endangered (none load)
  | known load violator oldest before older =>
    refine ⟨fun fault => absurd fault Bool.false_ne_true, ?_⟩
    rintro ⟨other, endangered, notYounger⟩
    have bound := notYounger violator before
    have above := oldest other endangered
    omega
  | detected load fault endangered oldest notYounger =>
    exact ⟨fun _ => ⟨load, endangered, notYounger⟩, fun _ => rfl⟩

end

end ScanEnd

/-! ## The recorded positions in a run -/

section Positions

variable {store : SQEntry}

theorem SplitAt.congr (split : unit.SplitAt lqIt seqNum) (head : next.loadHead = unit.loadHead)
    (queue : next.loadQueue = unit.loadQueue) : next.SplitAt lqIt seqNum := by
  refine ⟨?_, ?_, ?_⟩
  · rw [head, queue]
    exact split.placed
  · rw [head]
    exact split.lower
  · rw [queue]
    exact split.distinct

theorem SplitAt.new (newest : ∀ load ∈ unit.loadQueue, load.seqNum < seqNum) :
    unit.SplitAt (unit.loadHead + unit.loadQueue.length) seqNum where
  placed := by
    refine .new ?_ (by rw [length_map])
    intro number member
    obtain ⟨load, inQueue, rfl⟩ := mem_map.mp member
    exact newest load inQueue
  lower := Nat.le_add_right _ _
  distinct := fun load member => Nat.ne_of_lt (newest load member)

variable {load : LQEntry}

theorem SplitAt.append (split : unit.SplitAt lqIt seqNum)
    (younger : seqNum < load.seqNum) (head : next.loadHead = unit.loadHead)
    (queue : next.loadQueue = unit.loadQueue ++ [load]) : next.SplitAt lqIt seqNum where
  placed := by
    rw [head, queue, map_append]
    exact split.placed.append younger
  lower := by
    rw [head]
    exact split.lower
  distinct := by
    rw [queue]
    intro other member
    rcases mem_append.mp member with before | here
    · exact split.distinct other before
    · rw [mem_singleton.mp here]
      exact Nat.ne_of_gt younger

theorem SplitAt.commitLoad (split : unit.SplitAt lqIt seqNum)
    {rest : List LQEntry} (queue : unit.loadQueue = load :: rest) (older : load.seqNum < seqNum) :
    unit.commitLoad.SplitAt lqIt seqNum where
  placed := by
    have dropped : Placed (unit.loadHead + 1) ((unit.loadQueue.map (·.seqNum)).drop 1)
        { seqNum := seqNum, sqIt := lqIt } := split.placed.drop (by simp [queue])
    rw [drop_one, ← map_tail] at dropped
    exact dropped
  lower := by
    have front := split.placed.separates 0 load.seqNum (by simp [queue])
    exact Nat.succ_le_of_lt (front.mpr older)
  distinct := fun other member => split.distinct other (mem_of_mem_tail member)

theorem SplitAt.commitLoads {youngestInst : Nat} (notCommitted : youngestInst < seqNum)
    (fuel : Nat) (split : unit.SplitAt lqIt seqNum) :
    (commitLoads youngestInst fuel unit).SplitAt lqIt seqNum :=
  commitLoads_invariant (SplitAt · lqIt seqNum) (fun _ _ _ queue committed split =>
    split.commitLoad queue (Nat.lt_of_le_of_lt committed notCommitted)) fuel split

theorem SplitAt.squashLoad (split : unit.SplitAt lqIt seqNum)
    (last : unit.loadQueue.getLast? = some load) (younger : seqNum < load.seqNum) :
    unit.squashLoad.SplitAt lqIt seqNum := by
  have numbers : (unit.loadQueue.map (·.seqNum)).getLast? = some load.seqNum := by
    rw [getLast?_map, last]
    rfl
  have placed := split.placed.dropLast numbers (Nat.le_of_lt younger)
  rw [← map_dropLast] at placed
  have distinct : ∀ other ∈ unit.loadQueue.dropLast, other.seqNum ≠ seqNum :=
    fun other member => split.distinct other (dropLast_subset _ member)
  unfold LSQUnit.squashLoad
  split
  · exact ⟨placed, split.lower, distinct⟩
  · exact ⟨placed, split.lower, distinct⟩

theorem SplitAt.squashLoads {squashedNum : Nat} (fuel : Nat) (split : unit.SplitAt lqIt seqNum)
    (younger : ∀ load ∈ unit.loadQueue, squashedNum < load.seqNum → seqNum < load.seqNum) :
    (squashLoads squashedNum fuel unit).SplitAt lqIt seqNum := by
  refine (squashLoads_invariant (fun middle => middle.SplitAt lqIt seqNum ∧
    middle.loadQueue ⊆ unit.loadQueue) ?_ fuel ⟨split, List.Subset.refl _⟩).1
  intro middle load last squashed before
  refine ⟨before.1.squashLoad last (younger load (before.2 (mem_of_getLast? last)) squashed), ?_⟩
  exact fun _ kept => before.2 (squashLoad_squashed.loads kept)

/-- What the second loop of `squash` leaves is old enough, or in front of a store that
may write back. -/
theorem squashStores_kept {squashedNum fuel : Nat} (counted : unit.stores = unit.storeQueue.length)
    (ordered : unit.storeQueue.Pairwise fun older younger => older.seqNum < younger.seqNum)
    (enough : unit.storeQueue.length ≤ fuel)
    (ended : squashStores squashedNum fuel unit = .ok next) :
    ∀ store ∈ next.storeQueue, store.seqNum ≤ squashedNum ∨
      ∃ marked ∈ next.storeQueue, marked.canWB = true ∧ store.seqNum ≤ marked.seqNum := by
  induction fuel generalizing unit with
  | zero =>
    obtain rfl := Except.ok.inj ended
    rw [eq_nil_of_length_eq_zero (Nat.le_zero.mp enough)]
    exact fun _ member => absurd member not_mem_nil
  | succ fuel ih =>
    unfold squashStores at ended
    split at ended
    case h_1 empty =>
      obtain rfl := Except.ok.inj ended
      rw [getLast?_eq_none_iff.mp empty]
      exact fun _ member => absurd member not_mem_nil
    case h_2 youngest last =>
      have member := mem_of_getLast? last
      have positive := length_pos_of_mem member
      have bounded : ∀ store ∈ unit.storeQueue, store.seqNum ≤ youngest.seqNum := by
        intro store inQueue
        rw [← dropLast_append_getLast? youngest last] at ordered inQueue
        rcases mem_append.mp inQueue with before | here
        · exact Nat.le_of_lt ((pairwise_append.mp ordered).2.2 store before youngest
            (mem_singleton.mpr rfl))
        · exact Nat.le_of_eq (congrArg SQEntry.seqNum (mem_singleton.mp here))
      split at ended
      case isTrue squashed =>
        split at ended
        case isTrue marked =>
          obtain rfl := Except.ok.inj ended
          exact fun store inQueue => .inr ⟨youngest, member, marked, bounded store inQueue⟩
        case isFalse =>
          split at ended
          · cases ended
          have fewer : unit.squashStore.storeQueue.length = unit.storeQueue.length - 1 :=
            length_dropLast
          refine ih ?_ (ordered.sublist (dropLast_sublist _)) (by omega) ended
          change unit.stores - 1 = (unit.squashStore.storeQueue.length : Int)
          omega
      case isFalse kept =>
        obtain rfl := Except.ok.inj ended
        have old : youngest.seqNum ≤ squashedNum := by omega
        exact fun store inQueue => .inl (Nat.le_trans (bounded store inQueue) old)

end Positions

end LSQUnit

/-! ### Runs that remember the positions -/

structure Positioned where
  unit : LSQUnit := {}
  lqIt : Nat → Nat := fun _ => 0

namespace Positioned

open Library LSQUnit

variable {config : Config} {state next : Positioned}

def recordPosition (state : Positioned) : LsqEvent → Nat → Nat
  | .insertStore store =>
    Function.update state.lqIt store.seqNum (state.unit.loadHead + state.unit.loadQueue.length)
  | _ => state.lqIt

def step (config : Config) (state : Positioned) (event : LsqEvent) : Option Positioned :=
  (state.unit.step config event).map fun unit =>
    { unit := unit, lqIt := state.recordPosition event }

def Split (state : Positioned) : Prop :=
  ∀ store ∈ state.unit.storeQueue, store.canWB = false →
    state.unit.SplitAt (state.lqIt store.seqNum) store.seqNum

theorem Split.keep (split : state.Split) (lqIt : next.lqIt = state.lqIt)
    (head : next.unit.loadHead = state.unit.loadHead)
    (queue : next.unit.loadQueue = state.unit.loadQueue)
    (stores : ∀ store ∈ next.unit.storeQueue, store.canWB = false →
      ∃ old ∈ state.unit.storeQueue, store.seqNum = old.seqNum ∧ old.canWB = false) :
    next.Split := by
  intro store member unmarked
  obtain ⟨old, inside, same, before⟩ := stores store member unmarked
  rw [lqIt, same]
  exact (split old inside before).congr head queue

variable {unit : LSQUnit}

section

variable (split : state.Split)
include split

theorem Split.written
    (written : Written state.unit unit) : Split { state with unit := unit } := by
  refine split.keep rfl written.loadHead written.loads ?_
  intro store member unmarked
  obtain ⟨old, inside, same, sameMark⟩ := written.stores store member
  exact ⟨old, inside, same, sameMark.symm.trans unmarked⟩

theorem Split.insertLoad {seqNum : Nat}
    {isDataPrefetch : Bool} (youngest : state.unit.isYoungest seqNum = true)
    (inserted : state.unit.insertLoad config seqNum isDataPrefetch = .ok unit) :
    Split { state with unit := unit } := by
  obtain ⟨-, afterStores⟩ := isYoungest_iff.mp youngest
  obtain ⟨_, rfl⟩ := succeeded inserted
  intro store member unmarked
  have younger : store.seqNum < seqNum := afterStores store member
  exact (split store member unmarked).append younger rfl rfl

theorem Split.insertStore {store : SQEntry} (youngest : state.unit.isYoungest store.seqNum = true)
    (inserted : state.unit.insertStore config store = .ok unit) :
    Split { unit := unit, lqIt := state.recordPosition (.insertStore store) } := by
  obtain ⟨afterLoads, afterStores⟩ := isYoungest_iff.mp youngest
  obtain ⟨_, rfl⟩ := succeeded inserted
  intro entry member unmarked
  dsimp only [recordPosition]
  rcases mem_append.mp member with before | here
  · rw [Function.update_of_ne (Nat.ne_of_lt (afterStores entry before))]
    exact (split entry before unmarked).congr rfl rfl
  · rw [mem_singleton.mp here, Function.update_self]
    exact (SplitAt.new afterLoads).congr rfl rfl

theorem Split.executeStore (store : SQEntry) (size : Nat) :
    Split { state with unit := state.unit.executeStore store size } := by
  have frame : (state.unit.executeStore store size).loadHead = state.unit.loadHead ∧
      (state.unit.executeStore store size).loadQueue = state.unit.loadQueue := by
    unfold LSQUnit.executeStore
    split
    · exact ⟨rfl, rfl⟩
    · split <;> exact ⟨rfl, rfl⟩
  refine split.keep rfl frame.1 frame.2 ?_
  intro entry member unmarked
  dsimp only [LSQUnit.executeStore] at member
  split at member
  · exact ⟨entry, member, rfl, unmarked⟩
  split at member
  · obtain ⟨old, inside, rfl | ⟨-, rfl⟩⟩ := mem_updateStore member
    · exact ⟨_, inside, rfl, unmarked⟩
    · exact absurd unmarked.symm Bool.false_ne_true
  · obtain ⟨old, inside, rfl | ⟨-, rfl⟩⟩ := mem_updateStore member
    · exact ⟨_, inside, rfl, unmarked⟩
    · exact ⟨old, inside, rfl, unmarked⟩

theorem Split.commit (inv : state.unit.Inv) (youngestInst : Nat) :
    Split { state with unit := state.unit.commit youngestInst } := by
  have left : Squashed (state.unit.commitStores youngestInst) (state.unit.commit youngestInst) :=
    commitLoads_squashed youngestInst _
  intro store member unmarked
  have member := left.stores member
  have marked := commitStoresLoop_fst youngestInst inv.storesOrdered
  simp only [LSQUnit.commitStores, marked] at member
  obtain ⟨old, inside, rfl⟩ := mem_map.mp member
  rw [(commitEntry_same youngestInst old).1]
  unfold commitEntry at unmarked
  split at unmarked
  case isTrue => exact absurd unmarked.symm Bool.false_ne_true
  case isFalse notCommitted =>
    have before : (state.unit.commitStores youngestInst).SplitAt (state.lqIt old.seqNum)
        old.seqNum := (split old inside unmarked).congr rfl rfl
    exact before.commitLoads (Nat.not_le.mp notCommitted) _

/-- A store that a squash leaves is older than the loads the squash takes: it is not
squashed itself, or it stands in front of a store that may write back, and such a store
is older than every load. -/
theorem Split.squash (inv : state.unit.Inv) (waiting : state.unit.Waiting)
    (ahead : state.unit.Ahead) {squashedNum : Nat}
    (squashed : state.unit.squash squashedNum = .ok unit) :
    Split { state with unit := unit } := by
  obtain ⟨_, same, -, -, kept⟩ := squash_spec inv waiting squashedNum
  obtain rfl := Except.ok.inj (squashed.symm.trans same)
  have loadsInv := inv.squashLoads squashedNum state.unit.loadQueue.length
  have bounded := squashStores_kept loadsInv.stores loadsInv.storesOrdered (Nat.le_refl _) squashed
  obtain ⟨head, queue⟩ := squashStores_loads squashed
  intro store member unmarked
  refine ((split store (kept.stores member) unmarked).squashLoads _ ?_).congr head queue
  intro load inQueue young
  rcases bounded store member with old | ⟨marked, inside, canWB, behind⟩
  · exact Nat.lt_of_le_of_lt old young
  · exact Nat.lt_of_le_of_lt behind (ahead.older marked (kept.stores inside) canWB load inQueue)

end

theorem step_split {event : LsqEvent} (before : state.unit.ConsistentAhead) (split : state.Split)
    (moved : state.step config event = some next) : next.Split := by
  obtain ⟨⟨inv, waiting⟩, ahead⟩ := before
  obtain ⟨unit, stepped, rfl⟩ := Option.map_eq_some_iff.mp moved
  cases event with
  | insertLoad seqNum isDataPrefetch =>
    obtain ⟨youngest, stepped⟩ := Option.ite_none_right_eq_some.mp stepped
    exact split.insertLoad youngest (ok_of_toOption stepped)
  | insertStore store =>
    obtain ⟨youngest, stepped⟩ := Option.ite_none_right_eq_some.mp stepped
    exact split.insertStore youngest (ok_of_toOption stepped)
  | executeLoad loadIdx coverage =>
    simp only [LSQUnit.step] at stepped
    split at stepped
    · cases stepped
    · rcases read_ok (ok_of_toOption stepped) with rfl | ⟨_, _, _, _, _, rfl⟩
      · exact split
      · exact split.keep rfl rfl rfl fun store member unmarked => ⟨store, member, rfl, unmarked⟩
  | executeStore seqNum size =>
    simp only [LSQUnit.step] at stepped
    split at stepped
    · cases stepped
    · obtain ⟨_, stepped⟩ := Option.ite_none_left_eq_some.mp stepped
      obtain rfl := Option.some.inj stepped
      exact split.executeStore _ size
  | commit youngestInst =>
    obtain rfl := Option.some.inj stepped
    exact split.commit inv youngestInst
  | writebackStore result => exact split.written (writebackStore_written inv stepped)
  | retry accepted => exact split.written (writebackBlockedStore_written inv stepped)
  | complete seqNum =>
    obtain ⟨_, stepped⟩ := Option.ite_none_right_eq_some.mp stepped
    obtain rfl := Option.some.inj stepped
    exact split.written (completeStore_written config _ seqNum)
  | squash squashedNum => exact split.squash inv waiting ahead (ok_of_toOption stepped)

theorem step_unit {event : LsqEvent} (moved : state.step config event = some next) :
    state.unit.step config event = some next.unit := by
  obtain ⟨unit, stepped, rfl⟩ := Option.map_eq_some_iff.mp moved
  exact stepped

/-- In every run in which store-conditionals and atomics execute in order, a store that
is still to execute scans exactly the younger loads, and the queue is ordered. -/
theorem reachable_split
    (reached : Reaches (step config) (fun state => executesInOrder state.unit) {} state) :
    state.unit.ConsistentAhead ∧ state.Split := by
  induction reached with
  | refl =>
    exact ⟨⟨initial_consistent, ⟨by simp, by simp⟩⟩, fun _ member => absurd member not_mem_nil⟩
  | tail _ allowed moved ih =>
    obtain ⟨before, split⟩ := ih
    have stepped := step_unit moved
    exact ⟨⟨step_consistent before.consistent stepped,
      step_ahead before.consistent before.ahead allowed stepped⟩,
      step_split before split moved⟩

/-- A store with an older and a younger load. -/
theorem reachable_split_betweenLoads :
    ∃ state : Positioned, state.lqIt 3 = 2 ∧ state.unit.SplitAt 2 3 := by
  obtain ⟨state, reached, observed⟩ := reaches_of_observed (step fourEntries)
    (fun state => executesInOrder state.unit) {}
    [.insertLoad 2 false, .insertStore { seqNum := 3 }, .insertLoad 5 false]
    (fun state => decide (state.lqIt 3 = 2 ∧ ∃ store ∈ state.unit.storeQueue,
      store.seqNum = 3 ∧ store.canWB = false)) (by decide +kernel)
  obtain ⟨position, store, member, same, unmarked⟩ := of_decide_eq_true observed
  have split := (reachable_split reached).2 store member unmarked
  rw [same, position] at split
  exact ⟨state, position, split⟩

end Positioned

namespace LSQUnit

variable {unit : LSQUnit} {lqIt : Nat}

/-- A store leaves the oldest violator and faults for it, unless an older one is
recorded. Inside the address space the loads it endangers are those with a byte in a
block of its own bytes. -/
theorem store_violations_minimal {depCheckShift : Nat} {loads : Nat → LoadState}
    {store : CheckedInst} {memDepViolator : Option Nat} (isStore : store.isLoad = false)
    (ordered : unit.loadQueue.Pairwise fun older younger => older.seqNum < younger.seqNum)
    (split : unit.SplitAt lqIt store.seqNum) :
    let result :=
      checkViolations depCheckShift store (unit.loadsFrom lqIt) loads memDepViolator
    (∀ number, result.memDepViolator = some number ↔
      IsLeast (unit.candidates depCheckShift loads store memDepViolator) number) ∧
    (result.fault.isSome = true ↔ ∃ load, unit.Endangered depCheckShift loads store load ∧
      ∀ violator, memDepViolator = some violator → load.seqNum ≤ violator) ∧
    (∀ load, unit.Endangered depCheckShift loads store load →
      ∃ violator, result.memDepViolator = some violator ∧ violator ≤ load.seqNum) ∧
    ∀ load : LoadState, store.access.Fits → load.access.Fits →
      load.effAddrValid = true → load.strictlyOrdered = false →
      (load.exposed depCheckShift store.access = true ↔
        ∃ first second, store.access.Covers first ∧ load.access.Covers second ∧
          first / 2 ^ depCheckShift = second / 2 ^ depCheckShift) := by
  have ended : ScanEnd depCheckShift unit loads store memDepViolator
      (checkViolations depCheckShift store (unit.loadsFrom lqIt) loads memDepViolator) :=
    checkViolations_scanEnd isStore ordered split
  refine ⟨?_, ended.fault_iff, ?_, ?_⟩
  · intro number
    refine ⟨ended.isLeast, fun least => ?_⟩
    obtain ⟨violator, recorded, -⟩ := ended.recorded least.1
    rw [recorded, (ended.isLeast recorded).unique least]
  · intro load endangered
    exact ended.recorded (.inr ⟨load, endangered, rfl⟩)
  · intro load storeFits loadFits valid reordered
    have exposed : load.exposed depCheckShift store.access =
        Access.overlaps depCheckShift store.access load.access := by
      simp [LoadState.exposed, valid, reordered]
    rw [exposed]
    exact Access.overlaps_iff storeFits loadFits

def loadEntry (seqNum : Nat) : LQEntry := { seqNum := seqNum, sqIt := 1 }

def threeLoads : LSQUnit := { loadQueue := [loadEntry 2, loadEntry 5, loadEntry 7] }

def readsWord (_ : Nat) : LoadState := { access := ⟨0x104, 4⟩, effAddrValid := true }

def lateStore : CheckedInst := { seqNum := 3, access := ⟨0x100, 8⟩ }

theorem threeLoads_splitAt : threeLoads.SplitAt 2 3 := by
  have first : SplitAt { loadQueue := [loadEntry 2] } 2 3 :=
    .new (forall_mem_singleton.mpr (by decide))
  have second : SplitAt { loadQueue := [loadEntry 2, loadEntry 5] } 2 3 :=
    first.append (by decide) rfl rfl
  exact second.append (by decide) rfl rfl

/-- The store replaces the recorded violator 7 by 5. -/
theorem store_violations_minimal_threeLoads :
    (checkViolations 4 lateStore (threeLoads.loadsFrom 2) readsWord (some 7)).memDepViolator =
      some 5 ∧
    ∃ violator, (checkViolations 4 lateStore (threeLoads.loadsFrom 2) readsWord
      (some 7)).memDepViolator = some violator ∧ violator ≤ 7 :=
  ⟨by decide, (store_violations_minimal rfl (by decide) threeLoads_splitAt).2.2.1
    (loadEntry 7) ⟨by decide, by decide, by decide⟩⟩

end LSQUnit

end Runahead.O3.Lsq
