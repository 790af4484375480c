import Runahead.O3.LsqStall
import Runahead.Library.Transition

/-!
# Waiting loads and recorded store positions

A load that waits for a store is replayed before its store leaves the queue, so a
squash never finds the stall of a squashed store. The position that a load has
recorded stays at or behind `storeWBIt` as long as store-conditionals and atomics
execute only when no older load is in the queue.
-/

set_option autoImplicit false

namespace Runahead.O3.Lsq.LSQUnit

open Library List

variable {config : Config} {unit next : LSQUnit} {store : SQEntry} {seqNum : Nat}
variable {change : SQEntry → SQEntry}

/-! ## The stalled load -/

/-- The store that a load waits for is in its queue and not completed, and the load
is in its own queue unless the store may already write back. -/
def Waiting (unit : LSQUnit) : Prop :=
  unit.stalled = true → ∃ store ∈ unit.storeQueue,
    store.seqNum = unit.stallingStoreIsn ∧ store.completed = false ∧
      (store.canWB = true ∨
        ∃ load, unit.loadAt unit.stallingLoadIdx = some load ∧ store.seqNum < load.seqNum)

theorem Waiting.keep (waiting : unit.Waiting) (kept : StallStaysOrEnds unit next)
    (loads : next.stalled = true → ∀ load, unit.loadAt unit.stallingLoadIdx = some load →
      next.loadAt unit.stallingLoadIdx = some load) : next.Waiting := by
  intro stalled
  have same := kept stalled
  obtain ⟨store, member, number, uncompleted, reason⟩ := waiting (same.stalled.symm.trans stalled)
  obtain ⟨entry, inside, sameNumber, unfinished, -, marked⟩ :=
    same.store store member number uncompleted
  refine ⟨entry, inside, sameNumber.trans same.stallingStoreIsn.symm, unfinished,
    reason.imp marked ?_⟩
  rintro ⟨load, found, older⟩
  rw [same.stallingLoadIdx, sameNumber, ← number]
  exact ⟨load, loads stalled load found, older⟩

theorem Waiting.stays (waiting : unit.Waiting)
    (stays : StallStays unit next ∧ LoadsStay unit next fun _ => True) : next.Waiting :=
  waiting.keep (fun _ => stays.1) fun _ load found => stays.2 _ load found trivial

theorem Waiting.written (waiting : unit.Waiting)
    (stays : StallStaysOrEnds unit next ∧ LoadsStay unit next fun _ => True) : next.Waiting :=
  waiting.keep stays.1 fun _ load found => stays.2 _ load found trivial

variable {load : LQEntry}

/-- The store that a load finds is older than the load, not sent and not completed. -/
theorem Inv.searched (inv : unit.Inv) {index : Nat}
    (inQueue : load ∈ unit.loadQueue) (behind : unit.storeWBIt ≤ index)
    (before : index < load.sqIt) (position : unit.storeAt index = some store) :
    store ∈ unit.storeQueue ∧ store.seqNum < load.seqNum ∧ store.isSent = false ∧
      store.completed = false := by
  obtain ⟨inside, position⟩ := storeAt_eq_some.mp position
  have left : store ∈ unit.storeQueue.drop unit.passed := by
    refine mem_of_getElem? (i := index - unit.storeWBIt) ?_
    rw [List.getElem?_drop, ← position]
    have lower := inv.lower
    congr 1
    unfold passed
    omega
  have older : store.seqNum < load.seqNum := by
    refine ((inv.placed load inQueue).separates (index - unit.storeHead) store.seqNum ?_).mp ?_
    · rw [List.getElem?_map, position]
      rfl
    · omega
  exact ⟨mem_of_mem_drop left, older, inv.unsent store left⟩

theorem Waiting.read (waiting : unit.Waiting) (inv : unit.Inv) {loadIdx : Nat}
    {coverage : Nat → AddrRangeCoverage} (found : unit.loadAt loadIdx = some load)
    (executed : unit.read config load loadIdx coverage = .ok next) : next.Waiting := by
  rcases read_ok executed with rfl | ⟨index, store, behind, before, position, rfl⟩
  · exact waiting
  · intro _
    have inQueue := mem_of_getElem? (loadAt_eq_some.mp found).2
    obtain ⟨member, older, -, uncompleted⟩ := inv.searched inQueue behind before position
    exact ⟨store, member, rfl, uncompleted, .inr ⟨load, found, older⟩⟩

/-! ### Commit and squash -/

theorem commitStores_marked (inv : unit.Inv) (youngestInst : Nat) :
    ∀ store ∈ (unit.commitStores youngestInst).storeQueue, store.seqNum ≤ youngestInst →
      store.canWB = true := by
  intro store member bounded
  have marked := commitStoresLoop_fst youngestInst inv.storesOrdered
  simp only [LSQUnit.commitStores, marked] at member
  obtain ⟨old, _, rfl⟩ := mem_map.mp member
  rw [(commitEntry_same youngestInst old).1] at bounded
  unfold commitEntry
  rw [if_pos bounded]

structure Squashed (unit next : LSQUnit) : Prop where
  storeWBIt : next.storeWBIt = unit.storeWBIt
  loads : next.loadQueue ⊆ unit.loadQueue
  stores : next.storeQueue ⊆ unit.storeQueue
  marked : ∀ store ∈ unit.storeQueue, store.canWB = true → store ∈ next.storeQueue

theorem Squashed.refl (unit : LSQUnit) : Squashed unit unit :=
  ⟨rfl, List.Subset.refl _, List.Subset.refl _, fun _ member _ => member⟩

theorem Squashed.trans {between : LSQUnit} (first : Squashed unit between)
    (second : Squashed between next) : Squashed unit next where
  storeWBIt := second.storeWBIt.trans first.storeWBIt
  loads := fun _ member => first.loads (second.loads member)
  stores := fun _ member => first.stores (second.stores member)
  marked := fun store member canWB =>
    second.marked store (first.marked store member canWB) canWB

theorem commitLoads_squashed (youngestInst fuel : Nat) :
    Squashed unit (commitLoads youngestInst fuel unit) := by
  refine commitLoads_invariant (Squashed unit) ?_ fuel (.refl unit)
  intro middle _ _ _ _ squashed
  have popped : Squashed middle middle.commitLoad :=
    ⟨rfl, fun _ => mem_of_mem_tail, List.Subset.refl _, fun _ member _ => member⟩
  exact squashed.trans popped

/-- A waiting load commits only with the store that it waits for. -/
theorem Waiting.commit (waiting : unit.Waiting) (inv : unit.Inv) (youngestInst : Nat) :
    (unit.commit youngestInst).Waiting := by
  intro stalled
  obtain ⟨kept, loads⟩ := commit_stays inv youngestInst
  obtain ⟨store, member, number, uncompleted, reason⟩ :=
    waiting (kept.stalled.symm.trans stalled)
  obtain ⟨entry, inside, sameNumber, unfinished, -, marked⟩ :=
    kept.store store member number uncompleted
  refine ⟨entry, inside, sameNumber.trans kept.stallingStoreIsn.symm, unfinished, ?_⟩
  rcases reason with canWB | ⟨load, found, older⟩
  · exact .inl (marked canWB)
  rw [kept.stallingLoadIdx]
  rcases Nat.lt_or_ge youngestInst load.seqNum with younger | committed
  · exact .inr ⟨load, loads _ load found younger, by omega⟩
  · refine .inl (commitStores_marked inv youngestInst entry ?_ (by omega))
    exact (commitLoads_squashed youngestInst _).stores inside

theorem Waiting.squashLoads (waiting : unit.Waiting) (squashedNum fuel : Nat) :
    (squashLoads squashedNum fuel unit).Waiting :=
  have squashed := squashLoads_stall squashedNum fuel
  waiting.keep squashed.stays squashed.load

/-- When the loads behind the squashed one are gone, no load waits for a store that
is squashed. -/
theorem Waiting.unrelated (waiting : unit.Waiting) (inv : unit.Inv) {squashedNum : Nat}
    (bounded : ∀ load ∈ unit.loadQueue, load.seqNum ≤ squashedNum)
    (member : store ∈ unit.storeQueue) (squashed : squashedNum < store.seqNum)
    (unmarked : store.canWB = false) (stalled : unit.stalled = true) :
    store.seqNum ≠ unit.stallingStoreIsn := by
  intro same
  obtain ⟨waited, inside, number, _, reason⟩ := waiting stalled
  obtain rfl := ordered_unique inv.storesOrdered member inside (same.trans number.symm)
  rcases reason with canWB | ⟨load, found, older⟩
  · exact clash unmarked canWB
  · have below := bounded load (mem_of_getElem? (loadAt_eq_some.mp found).2)
    omega

theorem squashLoad_squashed : Squashed unit unit.squashLoad := by
  unfold squashLoad
  split <;> exact ⟨rfl, dropLast_subset _, List.Subset.refl _, fun _ member _ => member⟩

theorem squashLoads_squashed (squashedNum fuel : Nat) :
    Squashed unit (squashLoads squashedNum fuel unit) :=
  squashLoads_invariant (Squashed unit)
    (fun _ _ _ _ squashed => squashed.trans squashLoad_squashed) fuel (.refl unit)

theorem squashStore_squashed (last : unit.storeQueue.getLast? = some store)
    (unmarked : store.canWB = false) : Squashed unit unit.squashStore where
  storeWBIt := rfl
  loads := List.Subset.refl _
  stores := dropLast_subset _
  marked := by
    intro entry member canWB
    rw [← dropLast_append_getLast? store last] at member
    rcases mem_append.mp member with before | here
    · exact before
    · rw [mem_singleton.mp here] at canWB
      exact clash unmarked canWB

/-- The second loop of `squash` ends without the panic. -/
theorem squashStores_spec (squashedNum fuel : Nat) (inv : unit.Inv) (waiting : unit.Waiting)
    (bounded : ∀ load ∈ unit.loadQueue, load.seqNum ≤ squashedNum) :
    ∃ next, squashStores squashedNum fuel unit = .ok next ∧ next.Inv ∧ next.Waiting ∧
      Squashed unit next := by
  induction fuel generalizing unit with
  | zero => exact ⟨unit, rfl, inv, waiting, .refl unit⟩
  | succ fuel ih =>
    unfold squashStores
    split
    · exact ⟨unit, rfl, inv, waiting, .refl unit⟩
    case h_2 store last =>
      split
      case isFalse => exact ⟨unit, rfl, inv, waiting, .refl unit⟩
      case isTrue younger =>
        split
        case isTrue => exact ⟨unit, rfl, inv, waiting, .refl unit⟩
        case isFalse unmarked =>
          have unmarked := Bool.eq_false_iff.mpr unmarked
          have unrelated := waiting.unrelated inv bounded (mem_of_getLast? last) younger.2 unmarked
          rw [if_neg (by simpa using unrelated)]
          have smaller := inv.squashStore last unmarked fun load member =>
            Nat.le_of_lt (Nat.lt_of_le_of_lt (bounded load member) younger.2)
          have popped := squashStore_stall last younger.2 unrelated
          obtain ⟨next, ended, nextInv, nextWaiting, squashed⟩ :=
            ih smaller (waiting.keep popped.stays popped.load) bounded
          exact ⟨next, ended, nextInv, nextWaiting,
            (squashStore_squashed last unmarked).trans squashed⟩

theorem squash_spec (inv : unit.Inv) (waiting : unit.Waiting) (squashedNum : Nat) :
    ∃ next, unit.squash squashedNum = .ok next ∧ next.Inv ∧ next.Waiting ∧
      Squashed unit next := by
  obtain ⟨next, ended, nextInv, nextWaiting, squashed⟩ :=
    squashStores_spec squashedNum _ (inv.squashLoads squashedNum _)
      (waiting.squashLoads squashedNum _)
      (squashLoads_bounded inv squashedNum (Nat.le_refl _))
  exact ⟨next, ended, nextInv, nextWaiting, (squashLoads_squashed squashedNum _).trans squashed⟩

/-! ## Recorded positions -/

/-- Stores that may write back are older than every load in the queue, and no load
has recorded a position in front of `storeWBIt`. -/
structure Ahead (unit : LSQUnit) : Prop where
  position : ∀ load ∈ unit.loadQueue, unit.storeWBIt ≤ load.sqIt
  older : ∀ store ∈ unit.storeQueue, store.canWB = true →
    ∀ load ∈ unit.loadQueue, store.seqNum < load.seqNum

theorem Ahead.keep (ahead : unit.Ahead)
    (storeWBIt : ∀ load ∈ unit.loadQueue, next.storeWBIt ≤ load.sqIt)
    (loads : next.loadQueue ⊆ unit.loadQueue)
    (stores : ∀ store ∈ next.storeQueue, store.canWB = true →
      ∃ old ∈ unit.storeQueue, store.seqNum = old.seqNum ∧ old.canWB = true) : next.Ahead where
  position := fun load member => storeWBIt load (loads member)
  older := by
    intro store member canWB load inQueue
    obtain ⟨old, inside, same, before⟩ := stores store member canWB
    rw [same]
    exact ahead.older old inside before load (loads inQueue)

theorem Ahead.squashed (ahead : unit.Ahead) (squashed : Squashed unit next) : next.Ahead := by
  refine ahead.keep ?_ squashed.loads ?_
  · intro load member
    rw [squashed.storeWBIt]
    exact ahead.position load member
  · intro store member canWB
    exact ⟨store, squashed.stores member, rfl, canWB⟩

theorem Ahead.past (ahead : unit.Ahead) (inv : unit.Inv)
    (found : unit.storeAt unit.storeWBIt = some store) (canWB : store.canWB = true) :
    ∀ load ∈ unit.loadQueue, unit.storeWBIt + 1 ≤ load.sqIt := by
  intro load member
  obtain ⟨inside, position⟩ := storeAt_eq_some.mp found
  have older := ahead.older store (mem_of_getElem? position) canWB load member
  have numbered : (unit.storeQueue.map (·.seqNum))[unit.storeWBIt - unit.storeHead]? =
      some store.seqNum := by
    rw [List.getElem?_map, position]
    rfl
  have before := ((inv.placed load member).separates _ _ numbered).mpr older
  omega

def Origin (before after : List SQEntry) : Prop :=
  ∀ entry ∈ after, ∃ old ∈ before, entry.seqNum = old.seqNum ∧ entry.canWB = old.canWB

theorem Origin.trans {first second third : List SQEntry} (left : Origin first second)
    (right : Origin second third) : Origin first third := by
  intro entry member
  obtain ⟨middle, inside, number, mark⟩ := right entry member
  obtain ⟨old, before, sameNumber, sameMark⟩ := left middle inside
  exact ⟨old, before, number.trans sameNumber, mark.trans sameMark⟩

theorem Origin.of_subset {before after : List SQEntry} (subset : after ⊆ before) :
    Origin before after :=
  fun entry member => ⟨entry, subset member, rfl, rfl⟩

theorem updateEntry_origin (queue : List SQEntry) (seqNum : Nat) (change : SQEntry → SQEntry)
    (same : ∀ entry, (change entry).seqNum = entry.seqNum ∧
      (change entry).canWB = entry.canWB) : Origin queue (updateEntry queue seqNum change) := by
  intro entry member
  obtain ⟨old, inside, rfl⟩ := mem_map.mp member
  refine ⟨old, inside, ?_⟩
  split
  · exact same old
  · exact ⟨rfl, rfl⟩

theorem completeStore_origin (config : Config) (unit : LSQUnit) (seqNum : Nat) :
    Origin unit.storeQueue (unit.completeStore config seqNum).storeQueue := by
  have left : (unit.completeStore config seqNum).storeQueue =
      (unit.completedUnit seqNum).storeQueue := (unstall_frame _ seqNum).1
  have marked := updateEntry_origin unit.storeQueue seqNum
    (fun entry => { entry with completed := true }) fun _ => ⟨rfl, rfl⟩
  rw [left]
  exact marked.trans (.of_subset popFront_subset)

structure Written (unit next : LSQUnit) : Prop where
  storeWBIt : next.storeWBIt = unit.storeWBIt ∨ next.storeWBIt = unit.storeWBIt + 1 ∧
    ∃ store, unit.storeAt unit.storeWBIt = some store ∧ store.canWB = true
  loadHead : next.loadHead = unit.loadHead
  loads : next.loadQueue = unit.loadQueue
  stores : Origin unit.storeQueue next.storeQueue

theorem Ahead.written (ahead : unit.Ahead) (inv : unit.Inv) (written : Written unit next) :
    next.Ahead := by
  refine ahead.keep ?_ (fun _ member => written.loads ▸ member) ?_
  · intro load member
    rcases written.storeWBIt with same | ⟨moved, store, found, canWB⟩
    · rw [same]
      exact ahead.position load member
    · rw [moved]
      exact ahead.past inv found canWB load member
  · intro store member canWB
    obtain ⟨old, inside, same, sameMark⟩ := written.stores store member
    exact ⟨old, inside, same, sameMark.symm.trans canWB⟩

theorem sendStore_written (found : unit.storeAt unit.storeWBIt = some store)
    (canWB : store.canWB = true) (config : Config) (seqNum : Nat) (accepted : Bool) :
    Written unit (unit.sendStore config seqNum accepted) := by
  unfold LSQUnit.sendStore
  split
  · obtain ⟨storeQueue, loadHead, loadQueue, -⟩ := unstall_frame
      { unit.updateStore seqNum fun entry => { entry with isSent := true } with
        isStoreBlocked := false } seqNum
    have stores := updateEntry_origin unit.storeQueue seqNum
      (fun entry => { entry with isSent := true }) fun _ => ⟨rfl, rfl⟩
    exact ⟨.inr ⟨rfl, store, found, canWB⟩, loadHead, loadQueue, storeQueue ▸ stores⟩
  · exact ⟨.inl rfl, rfl, rfl, .of_subset (List.Subset.refl _)⟩

theorem writebackStore_written (inv : unit.Inv) {result : WriteResult}
    (ran : unit.writebackStore config result = some next) : Written unit next := by
  obtain ⟨store, found, canWB, -, written⟩ := writebackStore_some inv ran
  cases written with
  | complete change same =>
    have changed := updateEntry_origin unit.storeQueue store.seqNum change
      fun entry => ⟨(same entry).1, (same entry).2.1⟩
    obtain ⟨loadHead, loadQueue⟩ := completeStore_loads config
      (unit.updateStore store.seqNum change) store.seqNum
    exact ⟨.inr ⟨rfl, store, found, canWB⟩, loadHead, loadQueue,
      changed.trans (completeStore_origin config _ store.seqNum)⟩
  | skip isDataPrefetch =>
    exact ⟨.inr ⟨rfl, store, found, canWB⟩, rfl, rfl, .of_subset (List.Subset.refl _)⟩
  | send accepted =>
    have committed := updateEntry_origin unit.storeQueue store.seqNum
      (fun entry => { entry with committed := true }) fun _ => ⟨rfl, rfl⟩
    have sent := sendStore_written (@storeAt_updateStore _ _ (fun entry =>
      { entry with committed := true }) _ found) canWB config store.seqNum accepted
    exact ⟨sent.storeWBIt.imp_right fun moved => ⟨moved.1, store, found, canWB⟩, sent.loadHead,
      sent.loads, committed.trans sent.stores⟩

theorem writebackBlockedStore_written (inv : unit.Inv) {accepted : Bool}
    (ran : unit.writebackBlockedStore config accepted = some next) : Written unit next := by
  obtain ⟨blocked, ran⟩ := Option.ite_none_right_eq_some.mp ran
  obtain ⟨store, found, rfl⟩ := Option.map_eq_some_iff.mp ran
  obtain ⟨waiting, here, canWB⟩ := inv.blocked blocked
  exact sendStore_written here canWB config store.seqNum accepted

theorem completeStore_written (config : Config) (unit : LSQUnit) (seqNum : Nat) :
    Written unit (unit.completeStore config seqNum) where
  storeWBIt := .inl completeStore_keeps_storeWBIt
  loadHead := (completeStore_loads config unit seqNum).1
  loads := (completeStore_loads config unit seqNum).2
  stores := completeStore_origin config unit seqNum

theorem Ahead.insertLoad (ahead : unit.Ahead) (inv : unit.Inv) {isDataPrefetch : Bool}
    (youngest : unit.isYoungest seqNum = true)
    (inserted : unit.insertLoad config seqNum isDataPrefetch = .ok next) : next.Ahead := by
  obtain ⟨-, afterStores⟩ := isYoungest_iff.mp youngest
  obtain ⟨_, rfl⟩ := succeeded inserted
  refine ⟨?_, ?_⟩
  · intro load member
    rcases mem_append.mp member with before | here
    · exact ahead.position load before
    · rw [mem_singleton.mp here]
      exact inv.upper
  · intro store inside canWB load member
    rcases mem_append.mp member with before | here
    · exact ahead.older store inside canWB load before
    · rw [mem_singleton.mp here]
      exact afterStores store inside

theorem Ahead.insertStore (ahead : unit.Ahead)
    (inserted : unit.insertStore config store = .ok next) : next.Ahead := by
  obtain ⟨_, rfl⟩ := succeeded inserted
  refine ahead.keep ahead.position (List.Subset.refl _) ?_
  intro entry member canWB
  rcases mem_append.mp member with before | here
  · exact ⟨entry, before, rfl, canWB⟩
  · rw [mem_singleton.mp here] at canWB
    exact clash rfl canWB

theorem Ahead.read (ahead : unit.Ahead) {loadIdx : Nat} {coverage : Nat → AddrRangeCoverage}
    (executed : unit.read config load loadIdx coverage = .ok next) : next.Ahead := by
  rcases read_ok executed with rfl | ⟨_, _, _, _, _, rfl⟩
  · exact ahead
  · exact ⟨ahead.position, ahead.older⟩

/-- A store-conditional or atomic executes when no load in the queue is older. -/
def executesInOrder (unit : LSQUnit) : LsqEvent → Bool
  | .executeStore seqNum _ =>
    (unit.storeQueue.find? (·.seqNum = seqNum)).all fun store =>
      !(store.isStoreConditional || store.isAtomic) || unit.loadQueue.all (seqNum < ·.seqNum)
  | _ => true

theorem Ahead.executeStore (ahead : unit.Ahead) {size : Nat}
    (inOrder : (store.isStoreConditional || store.isAtomic) = true →
      ∀ load ∈ unit.loadQueue, store.seqNum < load.seqNum) :
    (unit.executeStore store size).Ahead := by
  unfold LSQUnit.executeStore
  split
  · exact ahead
  split
  case isTrue early =>
    refine ⟨ahead.position, ?_⟩
    intro entry member canWB load inQueue
    obtain ⟨old, inside, rfl | ⟨same, rfl⟩⟩ := mem_updateStore member
    · exact ahead.older _ inside canWB load inQueue
    · change old.seqNum < load.seqNum
      rw [same]
      exact inOrder early load inQueue
  case isFalse =>
    have sized := updateEntry_origin unit.storeQueue store.seqNum
      (fun entry => { entry with size := size }) fun _ => ⟨rfl, rfl⟩
    refine ahead.keep ahead.position (List.Subset.refl _) ?_
    intro entry member canWB
    obtain ⟨old, inside, number, mark⟩ := sized entry member
    exact ⟨old, inside, number, mark.symm.trans canWB⟩

/-- The loads that are left are younger than every store that commit marks. -/
theorem Ahead.commit (ahead : unit.Ahead) (inv : unit.Inv) (youngestInst : Nat) :
    (unit.commit youngestInst).Ahead := by
  have committed := inv.commitStores youngestInst
  have left : Squashed (unit.commitStores youngestInst) (unit.commit youngestInst) :=
    commitLoads_squashed youngestInst _
  have younger : ∀ load ∈ (unit.commit youngestInst).loadQueue, youngestInst < load.seqNum :=
    commitLoads_bounded committed youngestInst (Nat.le_refl _)
  refine ⟨?_, ?_⟩
  · intro load member
    rw [left.storeWBIt]
    exact ahead.position load (left.loads member)
  · intro store member canWB load inQueue
    have marked := commitStoresLoop_fst youngestInst inv.storesOrdered
    have member := left.stores member
    simp only [LSQUnit.commitStores, marked] at member
    obtain ⟨old, inside, rfl⟩ := mem_map.mp member
    rw [(commitEntry_same youngestInst old).1]
    by_cases bounded : old.seqNum ≤ youngestInst
    · exact Nat.lt_of_le_of_lt bounded (younger load inQueue)
    · unfold commitEntry at canWB
      rw [if_neg bounded] at canWB
      exact ahead.older old inside canWB load (left.loads inQueue)

/-! ## Runs -/

structure Consistent (unit : LSQUnit) : Prop where
  inv : unit.Inv
  waiting : unit.Waiting

theorem initial_consistent : Consistent {} where
  inv :=
    { loads := rfl, stores := rfl, loadsOrdered := .nil, storesOrdered := .nil
      storesToWB := rfl, lower := Nat.le_refl _, upper := Nat.le_refl _
      passedCanWB := by simp
      passedDone := by simp
      unsent := by simp
      placed := by simp
      blocked := fun blocked => clash rfl blocked }
  waiting := fun stalled => clash rfl stalled

theorem ok_of_toOption {result : Except Failure LSQUnit} (kept : result.toOption = some next) :
    result = .ok next := by
  cases result with
  | error failure => cases kept
  | ok value => exact congrArg Except.ok (Option.some.inj kept)

theorem step_consistent {event : LsqEvent} (before : unit.Consistent)
    (stepped : unit.step config event = some next) : next.Consistent := by
  obtain ⟨inv, waiting⟩ := before
  cases event with
  | insertLoad seqNum isDataPrefetch =>
    obtain ⟨youngest, stepped⟩ := Option.ite_none_right_eq_some.mp stepped
    have inserted := ok_of_toOption stepped
    exact ⟨inv.insertLoad isDataPrefetch youngest inserted,
      waiting.stays (insertLoad_stays inserted _)⟩
  | insertStore store =>
    obtain ⟨youngest, stepped⟩ := Option.ite_none_right_eq_some.mp stepped
    have inserted := ok_of_toOption stepped
    exact ⟨inv.insertStore youngest inserted, waiting.stays (insertStore_stays inserted _)⟩
  | executeLoad loadIdx coverage =>
    simp only [step] at stepped
    split at stepped
    · cases stepped
    case h_2 load found =>
      have executed := ok_of_toOption stepped
      exact ⟨inv.read executed, waiting.read inv found executed⟩
  | executeStore seqNum size =>
    simp only [step] at stepped
    split at stepped
    · cases stepped
    case h_2 store found =>
      obtain ⟨unmarked, stepped⟩ := Option.ite_none_left_eq_some.mp stepped
      obtain rfl := Option.some.inj stepped
      exact ⟨inv.executeStore (mem_of_find?_eq_some found) (Bool.eq_false_iff.mpr unmarked)
        size, waiting.stays (executeStore_stays unit store size _)⟩
  | commit youngestInst =>
    obtain rfl := Option.some.inj stepped
    exact ⟨inv.commit youngestInst, waiting.commit inv youngestInst⟩
  | writebackStore result =>
    exact ⟨inv.writebackStore stepped, waiting.written (writebackStore_stays inv stepped _)⟩
  | retry accepted =>
    exact ⟨inv.writebackBlockedStore accepted stepped,
      waiting.written (writebackBlockedStore_stays stepped _)⟩
  | complete seqNum =>
    obtain ⟨requested, stepped⟩ := Option.ite_none_right_eq_some.mp stepped
    obtain rfl := Option.some.inj stepped
    obtain ⟨store, member, sent⟩ := any_eq_true.mp requested
    simp only [Bool.and_eq_true, decide_eq_true_eq, Bool.not_eq_true'] at sent
    obtain ⟨⟨rfl, isSent⟩, uncompleted⟩ := sent
    exact ⟨inv.completeStore member isSent uncompleted,
      waiting.written (completeStore_staysWhole config unit store.seqNum _)⟩
  | squash squashedNum =>
    obtain ⟨ended, squashed, endedInv, endedWaiting, -⟩ := squash_spec inv waiting squashedNum
    have same := (ok_of_toOption stepped).symm.trans squashed
    obtain rfl := Except.ok.inj same
    exact ⟨endedInv, endedWaiting⟩

theorem step_ahead {event : LsqEvent} (before : unit.Consistent) (ahead : unit.Ahead)
    (allowed : unit.executesInOrder event = true)
    (stepped : unit.step config event = some next) : next.Ahead := by
  obtain ⟨inv, waiting⟩ := before
  cases event with
  | insertLoad seqNum isDataPrefetch =>
    obtain ⟨youngest, stepped⟩ := Option.ite_none_right_eq_some.mp stepped
    exact ahead.insertLoad inv youngest (ok_of_toOption stepped)
  | insertStore store =>
    obtain ⟨_, stepped⟩ := Option.ite_none_right_eq_some.mp stepped
    exact ahead.insertStore (ok_of_toOption stepped)
  | executeLoad loadIdx coverage =>
    simp only [step] at stepped
    split at stepped
    · cases stepped
    · exact ahead.read (ok_of_toOption stepped)
  | executeStore seqNum size =>
    simp only [step] at stepped
    split at stepped
    · cases stepped
    case h_2 store found =>
      obtain ⟨_, stepped⟩ := Option.ite_none_left_eq_some.mp stepped
      obtain rfl := Option.some.inj stepped
      refine ahead.executeStore fun early load inQueue => ?_
      have holds := find?_some found
      have same : store.seqNum = seqNum := of_decide_eq_true holds
      simp only [executesInOrder, found, Option.all_some, early, Bool.not_true, Bool.false_or,
        all_eq_true, decide_eq_true_eq] at allowed
      rw [same]
      exact allowed load inQueue
  | commit youngestInst =>
    obtain rfl := Option.some.inj stepped
    exact ahead.commit inv youngestInst
  | writebackStore result => exact ahead.written inv (writebackStore_written inv stepped)
  | retry accepted => exact ahead.written inv (writebackBlockedStore_written inv stepped)
  | complete seqNum =>
    obtain ⟨_, stepped⟩ := Option.ite_none_right_eq_some.mp stepped
    obtain rfl := Option.some.inj stepped
    exact ahead.written inv (completeStore_written config unit seqNum)
  | squash squashedNum =>
    obtain ⟨ended, squashed, -, -, kept⟩ := squash_spec inv waiting squashedNum
    have same := (ok_of_toOption stepped).symm.trans squashed
    obtain rfl := Except.ok.inj same
    exact ahead.squashed kept

theorem reachable_consistent {allowed : LSQUnit → LsqEvent → Bool}
    (reached : Reaches (step config) allowed {} unit) : unit.Consistent :=
  reached.invariant initial_consistent fun before _ stepped => step_consistent before stepped

structure ConsistentAhead (unit : LSQUnit) : Prop where
  consistent : unit.Consistent
  ahead : unit.Ahead

theorem reachable_ahead (reached : Reaches (step config) executesInOrder {} unit) :
    unit.ConsistentAhead := by
  refine reached.invariant ⟨initial_consistent, ⟨by simp, by simp⟩⟩ ?_
  intro middle final event before allowed stepped
  exact ⟨step_consistent before.consistent stepped,
    step_ahead before.consistent before.ahead allowed stepped⟩

/-- Where `storeWBIt` stands: everything before it is sent, completed or skipped,
nothing from it on is. -/
structure FirstUnsent (unit : LSQUnit) : Prop where
  inside : unit.storeHead ≤ unit.storeWBIt ∧ unit.storeWBIt ≤ unit.storeEnd
  before : ∀ index store, unit.storeAt index = some store → index < unit.storeWBIt →
    store.isSent = true ∨ store.completed = true ∨ store.isDataPrefetch = true
  behind : ∀ index store, unit.storeAt index = some store → unit.storeWBIt ≤ index →
    store.isSent = false ∧ store.completed = false

theorem Inv.firstUnsent (inv : unit.Inv) : unit.FirstUnsent where
  inside := ⟨inv.lower, inv.upper⟩
  before := by
    intro index store found before
    obtain ⟨inside, position⟩ := storeAt_eq_some.mp found
    refine inv.passedDone store (mem_of_getElem? (i := index - unit.storeHead) ?_)
    rw [List.getElem?_take_of_lt (by unfold passed; omega)]
    exact position
  behind := by
    intro index store found behind
    obtain ⟨inside, position⟩ := storeAt_eq_some.mp found
    have lower := inv.lower
    refine inv.unsent store (mem_of_getElem? (i := index - unit.storeWBIt) ?_)
    rw [List.getElem?_drop, ← position]
    congr 1
    unfold passed
    omega

/-- The representation of the unit in every run, and the recorded positions in the
runs whose store-conditionals and atomics execute in order. -/
theorem lsq_representation (reached : Reaches (step config) anyEvent {} unit) :
    unit.loads = unit.loadQueue.length ∧ unit.stores = unit.storeQueue.length ∧
    unit.loadQueue.Pairwise (fun older younger => older.seqNum < younger.seqNum) ∧
    unit.storeQueue.Pairwise (fun older younger => older.seqNum < younger.seqNum) ∧
    unit.storesToWB = unit.storeQueue.countP (fun store => store.canWB && !store.completed) ∧
    unit.FirstUnsent ∧
    (∀ squashedNum next, unit.squash squashedNum = .ok next →
      ∀ store ∈ unit.storeQueue, store.canWB = true → store ∈ next.storeQueue) ∧
    (∀ squashedNum, unit.squash squashedNum ≠ .error .stillStalled) ∧
    (Reaches (step config) executesInOrder {} unit →
      ∀ load ∈ unit.loadQueue, unit.storeWBIt ≤ load.sqIt) := by
  obtain ⟨inv, waiting⟩ := reachable_consistent reached
  refine ⟨inv.loads, inv.stores, inv.loadsOrdered, inv.storesOrdered, inv.storesToWB,
    inv.firstUnsent, ?_, ?_, ?_⟩
  · intro squashedNum next ended store member canWB
    obtain ⟨final, squashed, -, -, kept⟩ := squash_spec inv waiting squashedNum
    obtain rfl := Except.ok.inj (ended.symm.trans squashed)
    exact kept.marked store member canWB
  · intro squashedNum failed
    obtain ⟨final, squashed, -⟩ := squash_spec inv waiting squashedNum
    cases failed.symm.trans squashed
  · intro inOrder load member
    exact (reachable_ahead inOrder).ahead.position load member

def fourEntries : Config := { lqEntries := 4, sqEntries := 4, needsTSO := false }

/-- A load waits for a store behind it that it overlaps only in part; the store
commits and is sent, and the load is replayed. -/
def waitingLoad : List LsqEvent :=
  [.insertStore { seqNum := 3 }, .insertLoad 5 false, .insertStore { seqNum := 7 },
    .executeStore 3 8, .executeLoad 1 fun _ => .partialAddrRangeCoverage, .commit 3,
    .writebackStore (.send true)]

theorem lsq_representation_waitingLoad :
    ∃ unit : LSQUnit, unit.storeQueue.map (·.seqNum) = [3, 7] ∧ unit.storeWBIt = 2 ∧
      unit.loadQueue.map (·.sqIt) = [2] ∧ unit.storesToWB = 1 ∧
      (∀ squashedNum, unit.squash squashedNum ≠ .error .stillStalled) ∧
      ∀ load ∈ unit.loadQueue, unit.storeWBIt ≤ load.sqIt := by
  obtain ⟨unit, reached, observed⟩ := reaches_of_observed (step fourEntries) executesInOrder {}
    waitingLoad (fun unit => decide (unit.storeQueue.map (·.seqNum) = [3, 7] ∧
      unit.storeWBIt = 2 ∧ unit.loadQueue.map (·.sqIt) = [2] ∧ unit.storesToWB = 1))
    (by decide +kernel)
  obtain ⟨stores, storeWBIt, positions, storesToWB⟩ := of_decide_eq_true observed
  obtain ⟨-, -, -, -, -, -, -, noPanic, inFront⟩ :=
    lsq_representation (reached.weaken fun _ _ _ => rfl)
  exact ⟨unit, stores, storeWBIt, positions, storesToWB, noPanic, inFront reached⟩

/-- An atomic that executes in front of an older load is sent, and `storeWBIt` passes
the position of the load. -/
def earlyAtomic : List LsqEvent :=
  [.insertLoad 5 false, .insertStore { seqNum := 9, isAtomic := true }, .executeStore 9 8,
    .writebackStore (.send true)]

/-- The second store writes nothing. It completes behind a store that waits for its
answer, and is never sent. -/
def emptyStore : List LsqEvent :=
  [.insertStore { seqNum := 3 }, .insertStore { seqNum := 4 }, .executeStore 3 8,
    .executeStore 4 0, .commit 4, .writebackStore (.send true), .writebackStore (.send true)]

theorem lsq_representation_fails :
    (∃ unit, Reaches (step fourEntries) anyEvent {} unit ∧
      ∃ load ∈ unit.loadQueue, load.sqIt < unit.storeWBIt) ∧
    ∃ unit, Reaches (step fourEntries) anyEvent {} unit ∧ unit.storeWBIt = 3 ∧
      ∃ store, unit.storeAt 2 = some store ∧ store.isSent = false := by
  constructor
  · obtain ⟨unit, reached, observed⟩ := reaches_of_observed (step fourEntries) anyEvent {}
      earlyAtomic (fun unit => unit.loadQueue.any (·.sqIt < unit.storeWBIt)) (by decide +kernel)
    obtain ⟨load, member, passed⟩ := any_eq_true.mp observed
    exact ⟨unit, reached, load, member, of_decide_eq_true passed⟩
  · obtain ⟨unit, reached, observed⟩ := reaches_of_observed (step fourEntries) anyEvent {}
      emptyStore (fun unit => decide (unit.storeWBIt = 3) && (unit.storeAt 2).any (!·.isSent))
      (by decide +kernel)
    obtain ⟨storeWBIt, unsent⟩ := Bool.and_eq_true_iff.mp observed
    obtain ⟨store, found, isSent⟩ := (Option.any_eq_true _ _).mp unsent
    exact ⟨unit, reached, of_decide_eq_true storeWBIt, store, found, by simpa using isSent⟩

end Runahead.O3.Lsq.LSQUnit
