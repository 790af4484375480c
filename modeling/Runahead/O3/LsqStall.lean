import Runahead.O3.LsqUnitInv

/-!
# What keeps a stall

The load/store queue unit remembers one load that waits and the store it waits for.
Here is what each operation leaves of the two: the store stays unsent and not
completed as long as the stall stays, and a squash that ends the stall squashes the
load.
-/

set_option autoImplicit false

namespace Runahead.O3.Lsq

open Library List

namespace LSQUnit

variable {config : Config} {unit next : LSQUnit} {store : SQEntry} {seqNum : Nat}
variable {change : SQEntry → SQEntry}

/-! ## What a write-back changes -/

theorem unstall_stalled (stalled : (unit.unstall seqNum).stalled = true) :
    unit.unstall seqNum = unit ∧ unit.stallingStoreIsn ≠ seqNum := by
  unfold unstall at stalled ⊢
  split at stalled
  · cases stalled
  case isFalse other =>
    refine ⟨if_neg other, fun same => other ?_⟩
    simp [stalled, same]

variable {entry : SQEntry}

theorem mem_popCompleted {rest : List SQEntry}
    (queue : unit.storeQueue = store :: rest) (completed : store.completed = true)
    (member : entry ∈ unit.storeQueue) (uncompleted : entry.completed = false) :
    entry ∈ unit.popCompleted.storeQueue := by
  rw [popCompleted_eq queue completed]
  have whole := takeWhile_append_dropWhile (p := SQEntry.completed) (l := unit.storeQueue)
  rw [← whole] at member
  rcases mem_append.mp member with front | behind
  · have done := all_eq_true.mp all_takeWhile entry front
    exact clash done uncompleted
  · have left : (unit.storeQueue.takeWhile (·.completed) ++
        unit.storeQueue.dropWhile (·.completed)).drop
        (unit.storeQueue.takeWhile (·.completed)).length =
        unit.storeQueue.dropWhile (·.completed) := drop_left
    rw [whole] at left
    rwa [left]

variable (unit)

theorem unstall_frame (seqNum : Nat) : (unit.unstall seqNum).storeQueue = unit.storeQueue ∧
    (unit.unstall seqNum).loadHead = unit.loadHead ∧
    (unit.unstall seqNum).loadQueue = unit.loadQueue ∧
    (unit.unstall seqNum).stallingLoadIdx = unit.stallingLoadIdx := by
  unfold LSQUnit.unstall
  split <;> exact ⟨rfl, rfl, rfl, rfl⟩

def popFront (seqNum : Nat) : LSQUnit :=
  if unit.storeQueue.head?.any (·.seqNum = seqNum) then unit.popCompleted else unit

theorem popFront_frame (seqNum : Nat) : (unit.popFront seqNum).loadHead = unit.loadHead ∧
    (unit.popFront seqNum).loadQueue = unit.loadQueue ∧
    (unit.popFront seqNum).stalled = unit.stalled ∧
    (unit.popFront seqNum).stallingStoreIsn = unit.stallingStoreIsn ∧
    (unit.popFront seqNum).stallingLoadIdx = unit.stallingLoadIdx := by
  unfold popFront
  split <;> exact ⟨rfl, rfl, rfl, rfl, rfl⟩

variable {unit}

theorem popFront_subset : (unit.popFront seqNum).storeQueue ⊆ unit.storeQueue := by
  unfold popFront
  split
  · exact drop_subset _ _
  · exact List.Subset.refl _

theorem mem_popFront (member : entry ∈ unit.storeQueue) (uncompleted : entry.completed = false)
    (completed : ∀ store ∈ unit.storeQueue, store.seqNum = seqNum → store.completed = true) :
    entry ∈ (unit.popFront seqNum).storeQueue := by
  unfold popFront
  split
  case isFalse => exact member
  case isTrue front =>
    obtain ⟨first, head, same⟩ := (Option.any_eq_true _ _).mp front
    obtain ⟨rest, queue⟩ := head?_eq_some_iff.mp head
    have done := completed first (by simp [queue]) (of_decide_eq_true same)
    exact mem_popCompleted queue done member uncompleted

def completedUnit (unit : LSQUnit) (seqNum : Nat) : LSQUnit :=
  popFront { unit.updateStore seqNum fun entry => { entry with completed := true } with
    storesToWB := unit.storesToWB - 1 } seqNum

theorem completedUnit_frame (unit : LSQUnit) (seqNum : Nat) :
    (unit.completedUnit seqNum).loadHead = unit.loadHead ∧
    (unit.completedUnit seqNum).loadQueue = unit.loadQueue ∧
    (unit.completedUnit seqNum).stalled = unit.stalled ∧
    (unit.completedUnit seqNum).stallingStoreIsn = unit.stallingStoreIsn ∧
    (unit.completedUnit seqNum).stallingLoadIdx = unit.stallingLoadIdx :=
  popFront_frame _ seqNum

theorem completeStore_loads (config : Config) (unit : LSQUnit) (seqNum : Nat) :
    (unit.completeStore config seqNum).loadHead = unit.loadHead ∧
    (unit.completeStore config seqNum).loadQueue = unit.loadQueue := by
  obtain ⟨-, loadHead, loadQueue, -⟩ := unstall_frame (unit.completedUnit seqNum) seqNum
  obtain ⟨sameHead, sameQueue, -⟩ := completedUnit_frame unit seqNum
  exact ⟨loadHead.trans sameHead, loadQueue.trans sameQueue⟩

theorem sendStore_loads (config : Config) (unit : LSQUnit) (seqNum : Nat) (accepted : Bool) :
    (unit.sendStore config seqNum accepted).loadHead = unit.loadHead ∧
    (unit.sendStore config seqNum accepted).loadQueue = unit.loadQueue := by
  cases accepted with
  | false => exact ⟨rfl, rfl⟩
  | true =>
    obtain ⟨-, loadHead, loadQueue, -⟩ := unstall_frame
      { unit.updateStore seqNum fun entry => { entry with isSent := true } with
        isStoreBlocked := false } seqNum
    exact ⟨loadHead, loadQueue⟩

theorem mem_completeStore (member : entry ∈ unit.storeQueue)
    (other : entry.seqNum ≠ seqNum) (uncompleted : entry.completed = false) :
    entry ∈ (unit.completeStore config seqNum).storeQueue := by
  change entry ∈ ((unit.completedUnit seqNum).unstall seqNum).storeQueue
  rw [(unstall_frame _ seqNum).1]
  refine mem_popFront ?_ uncompleted fun _ inside same => updateEntry_completed inside same
  exact mem_map.mpr ⟨entry, member, if_neg other⟩

theorem loadAt_congr (head : next.loadHead = unit.loadHead)
    (queue : next.loadQueue = unit.loadQueue) (index : Nat) :
    next.loadAt index = unit.loadAt index := by
  unfold loadAt
  rw [head, queue]

/-! ## What the unit keeps -/

def LoadsStay (unit next : LSQUnit) (stays : Nat → Prop) : Prop :=
  ∀ index load, unit.loadAt index = some load → stays load.seqNum → next.loadAt index = some load

/-- A store that is not completed stays in the queue, neither sent nor completed, and may
still write back if it might before. -/
def StoreStays (unit next : LSQUnit) (seqNum : Nat) : Prop :=
  ∀ store ∈ unit.storeQueue, store.seqNum = seqNum → store.completed = false →
    ∃ kept ∈ next.storeQueue, kept.seqNum = seqNum ∧ kept.completed = false ∧
      kept.isSent = store.isSent ∧ (store.canWB = true → kept.canWB = true)

/-- The stall does not change, and its store stays. -/
structure StallStays (unit next : LSQUnit) : Prop where
  stalled : next.stalled = unit.stalled
  stallingStoreIsn : next.stallingStoreIsn = unit.stallingStoreIsn
  stallingLoadIdx : next.stallingLoadIdx = unit.stallingLoadIdx
  store : StoreStays unit next unit.stallingStoreIsn

theorem StoreStays.refl (unit : LSQUnit) (seqNum : Nat) : StoreStays unit unit seqNum :=
  fun store member same uncompleted => ⟨store, member, same, uncompleted, rfl, id⟩

variable {between : LSQUnit}

theorem StoreStays.trans (first : StoreStays unit between seqNum)
    (second : StoreStays between next seqNum) : StoreStays unit next seqNum := by
  intro store member same uncompleted
  obtain ⟨middle, inside, number, unfinished, sent, marked⟩ := first store member same uncompleted
  obtain ⟨kept, remains, sameNumber, done, sameSent, stillMarked⟩ :=
    second middle inside number unfinished
  exact ⟨kept, remains, sameNumber, done, sameSent.trans sent, stillMarked ∘ marked⟩

theorem LoadsStay.of_queue (head : next.loadHead = unit.loadHead)
    (queue : next.loadQueue = unit.loadQueue) (stays : Nat → Prop) : LoadsStay unit next stays :=
  fun index _ found _ => (loadAt_congr head queue index).trans found

theorem LoadsStay.trans {stays : Nat → Prop}
    (first : LoadsStay unit between stays) (second : LoadsStay between next stays) :
    LoadsStay unit next stays :=
  fun index load found kept => second index load (first index load found kept) kept

theorem StallStays.refl (unit : LSQUnit) : StallStays unit unit :=
  ⟨rfl, rfl, rfl, .refl unit _⟩

theorem StallStays.trans (first : StallStays unit between)
    (second : StallStays between next) : StallStays unit next where
  stalled := second.stalled.trans first.stalled
  stallingStoreIsn := second.stallingStoreIsn.trans first.stallingStoreIsn
  stallingLoadIdx := second.stallingLoadIdx.trans first.stallingLoadIdx
  store := first.store.trans (first.stallingStoreIsn ▸ second.store)

theorem StoreStays.mapEntries
    (same : ∀ entry, (change entry).seqNum = entry.seqNum ∧
      (change entry).isSent = entry.isSent ∧ (change entry).completed = entry.completed ∧
      (entry.canWB = true → (change entry).canWB = true))
    (queue : next.storeQueue = unit.storeQueue.map change) (seqNum : Nat) :
    StoreStays unit next seqNum := by
  rintro store member rfl uncompleted
  obtain ⟨number, sent, completed, marked⟩ := same store
  refine ⟨change store, ?_, number, completed.trans uncompleted, sent, marked⟩
  rw [queue]
  exact mem_map_of_mem member

/-! ### Insertion and execution -/

theorem insertLoad_stays {isDataPrefetch : Bool}
    (inserted : unit.insertLoad config seqNum isDataPrefetch = .ok next) (stays : Nat → Prop) :
    StallStays unit next ∧ LoadsStay unit next stays := by
  obtain ⟨_, rfl⟩ := succeeded inserted
  refine ⟨⟨rfl, rfl, rfl, .refl unit _⟩, ?_⟩
  intro index load found _
  obtain ⟨inside, found⟩ := loadAt_eq_some.mp found
  have bound := (List.getElem?_eq_some_iff.mp found).1
  exact loadAt_eq_some.mpr ⟨inside, (List.getElem?_append_left bound).trans found⟩

theorem insertStore_stays (inserted : unit.insertStore config store = .ok next)
    (stays : Nat → Prop) : StallStays unit next ∧ LoadsStay unit next stays := by
  obtain ⟨_, rfl⟩ := succeeded inserted
  refine ⟨⟨rfl, rfl, rfl, ?_⟩, .of_queue rfl rfl stays⟩
  intro entry member same uncompleted
  exact ⟨entry, mem_append_left _ member, same, uncompleted, rfl, id⟩

theorem updateStore_stays (unit : LSQUnit) (seqNum : Nat)
    (same : ∀ entry, (change entry).seqNum = entry.seqNum ∧
      (change entry).isSent = entry.isSent ∧ (change entry).completed = entry.completed ∧
      (entry.canWB = true → (change entry).canWB = true)) :
    StallStays unit (unit.updateStore seqNum change) := by
  refine ⟨rfl, rfl, rfl, .mapEntries (fun entry => ?_) rfl _⟩
  split
  · exact same entry
  · exact ⟨rfl, rfl, rfl, id⟩

theorem executeStore_stays (unit : LSQUnit) (store : SQEntry) (size : Nat)
    (stays : Nat → Prop) : StallStays unit (unit.executeStore store size) ∧
      LoadsStay unit (unit.executeStore store size) stays := by
  unfold LSQUnit.executeStore
  split
  · exact ⟨.refl unit, .of_queue rfl rfl stays⟩
  split
  · have marked : StallStays unit (unit.updateStore store.seqNum fun entry =>
        { entry with size := size, canWB := true }) :=
      updateStore_stays unit store.seqNum fun _ => ⟨rfl, rfl, rfl, fun _ => rfl⟩
    exact ⟨⟨rfl, rfl, rfl, marked.store⟩, .of_queue rfl rfl stays⟩
  · refine ⟨updateStore_stays unit store.seqNum ?_, .of_queue rfl rfl stays⟩
    exact fun _ => ⟨rfl, rfl, rfl, id⟩

/-! ### Commit -/

theorem commitStores_stays (inv : unit.Inv) (youngestInst : Nat) :
    StallStays unit (unit.commitStores youngestInst) := by
  refine ⟨rfl, rfl, rfl, .mapEntries (fun entry => ?_)
    (commitStoresLoop_fst youngestInst inv.storesOrdered) _⟩
  obtain ⟨number, completed, sent, -⟩ := commitEntry_same youngestInst entry
  exact ⟨number, sent, completed, commitEntry_canWB youngestInst⟩

variable {load : LQEntry}

theorem commitLoad_loadsStay {youngestInst : Nat} {rest : List LQEntry}
    (queue : unit.loadQueue = load :: rest) (bounded : load.seqNum ≤ youngestInst) :
    LoadsStay unit unit.commitLoad (youngestInst < ·) := by
  intro index kept found younger
  obtain ⟨inside, found⟩ := loadAt_eq_some.mp found
  rcases Nat.lt_or_ge unit.loadHead index with later | here
  · refine loadAt_eq_some.mpr ⟨later, ?_⟩
    change unit.loadQueue.tail[index - (unit.loadHead + 1)]? = some kept
    rw [List.getElem?_tail, ← found]
    congr 1
    omega
  · have first : index - unit.loadHead = 0 := by omega
    rw [first, queue] at found
    obtain rfl := Option.some.inj found
    omega

theorem commitLoads_stays (youngestInst fuel : Nat) (unit : LSQUnit) :
    StallStays unit (commitLoads youngestInst fuel unit) ∧
      LoadsStay unit (commitLoads youngestInst fuel unit) (youngestInst < ·) := by
  refine commitLoads_invariant (fun next => StallStays unit next ∧
    LoadsStay unit next (youngestInst < ·)) ?_ fuel ⟨.refl unit, .of_queue rfl rfl _⟩
  intro middle load rest queue committed stays
  have popped : StallStays middle middle.commitLoad := ⟨rfl, rfl, rfl, .refl middle _⟩
  exact ⟨stays.1.trans popped, stays.2.trans (commitLoad_loadsStay queue committed)⟩

theorem commit_stays (inv : unit.Inv) (youngestInst : Nat) :
    StallStays unit (unit.commit youngestInst) ∧
      LoadsStay unit (unit.commit youngestInst) (youngestInst < ·) := by
  obtain ⟨stall, loads⟩ := commitLoads_stays youngestInst
    (unit.commitStores youngestInst).loadQueue.length (unit.commitStores youngestInst)
  have same : LoadsStay unit (unit.commitStores youngestInst) (youngestInst < ·) :=
    .of_queue rfl rfl _
  exact ⟨(commitStores_stays inv youngestInst).trans stall, same.trans loads⟩

/-! ### Write-back -/

def StallStaysOrEnds (unit next : LSQUnit) : Prop :=
  next.stalled = true → StallStays unit next

theorem StoreStays.updateOther {other : Nat} (different : seqNum ≠ other) :
    StoreStays unit (unit.updateStore other change) seqNum := by
  rintro store member rfl uncompleted
  exact ⟨store, mem_map.mpr ⟨store, member, if_neg different⟩, rfl, uncompleted, rfl, id⟩

theorem StoreStays.completeOther {other : Nat} (different : seqNum ≠ other) :
    StoreStays unit (unit.completeStore config other) seqNum := by
  rintro store member rfl uncompleted
  exact ⟨store, mem_completeStore member different uncompleted, rfl, uncompleted, rfl, id⟩

/-- A stall that outlives `completeStore` is the stall on another store. -/
theorem completeStore_stalled (stalled : (unit.completeStore config seqNum).stalled = true) :
    unit.stalled = true ∧
      (unit.completeStore config seqNum).stallingStoreIsn = unit.stallingStoreIsn ∧
      (unit.completeStore config seqNum).stallingLoadIdx = unit.stallingLoadIdx ∧
      unit.stallingStoreIsn ≠ seqNum := by
  obtain ⟨-, -, before, isn, loadIdx⟩ := completedUnit_frame unit seqNum
  obtain ⟨same, other⟩ := unstall_stalled stalled
  refine ⟨before.symm.trans (congrArg LSQUnit.stalled same ▸ stalled), ?_, ?_, isn ▸ other⟩
  · exact (congrArg LSQUnit.stallingStoreIsn same).trans isn
  · exact (congrArg LSQUnit.stallingLoadIdx same).trans loadIdx

theorem completeStore_stays (config : Config) (unit : LSQUnit) (seqNum : Nat)
    (change : SQEntry → SQEntry) :
    StallStaysOrEnds unit ((unit.updateStore seqNum change).completeStore config seqNum) := by
  intro stalled
  obtain ⟨before, isn, loadIdx, other⟩ := completeStore_stalled stalled
  exact ⟨stalled.trans before.symm, isn, loadIdx,
    (StoreStays.updateOther other).trans (.completeOther other)⟩

theorem sendStore_stays (config : Config) (unit : LSQUnit) (seqNum : Nat) (accepted : Bool)
    (change : SQEntry → SQEntry) (same : ∀ entry, (change entry).seqNum = entry.seqNum ∧
      (change entry).isSent = entry.isSent ∧ (change entry).completed = entry.completed ∧
      (entry.canWB = true → (change entry).canWB = true)) :
    StallStaysOrEnds unit ((unit.updateStore seqNum change).sendStore config seqNum accepted) := by
  intro stalled
  have changed := updateStore_stays unit seqNum same
  cases accepted with
  | false => exact ⟨rfl, rfl, rfl, changed.store⟩
  | true =>
    have sent : (unstall { (unit.updateStore seqNum change).updateStore seqNum fun entry =>
      { entry with isSent := true } with isStoreBlocked := false } seqNum).stalled = true :=
      stalled
    obtain ⟨kept, other⟩ := unstall_stalled sent
    have before : unit.stalled = true := (congrArg LSQUnit.stalled kept).symm.trans sent
    refine ⟨stalled.trans before.symm, (congrArg LSQUnit.stallingStoreIsn kept :),
      (congrArg LSQUnit.stallingLoadIdx kept :), ?_⟩
    have stays : StoreStays unit ((unit.updateStore seqNum change).updateStore seqNum fun entry =>
        { entry with isSent := true }) unit.stallingStoreIsn :=
      (StoreStays.updateOther other).trans (.updateOther other)
    intro store member number uncompleted
    obtain ⟨entry, inside, rest⟩ := stays store member number uncompleted
    exact ⟨entry, (congrArg LSQUnit.storeQueue kept).symm ▸ inside, rest⟩

theorem writebackStore_stays (inv : unit.Inv) {result : WriteResult}
    (ran : unit.writebackStore config result = some next) (stays : Nat → Prop) :
    StallStaysOrEnds unit next ∧ LoadsStay unit next stays := by
  obtain ⟨store, -, -, -, written⟩ := writebackStore_some inv ran
  cases written with
  | complete change same =>
    obtain ⟨loadHead, loadQueue⟩ :=
      completeStore_loads config (unit.updateStore store.seqNum change) store.seqNum
    refine ⟨fun stalled => ?_, .of_queue loadHead loadQueue stays⟩
    have kept := completeStore_stays config unit store.seqNum change stalled
    exact ⟨kept.stalled, kept.stallingStoreIsn, kept.stallingLoadIdx, kept.store⟩
  | skip isDataPrefetch =>
    exact ⟨fun _ => ⟨rfl, rfl, rfl, .refl unit _⟩, .of_queue rfl rfl stays⟩
  | send accepted =>
    obtain ⟨loadHead, loadQueue⟩ := sendStore_loads config (unit.updateStore store.seqNum
      fun entry => { entry with committed := true }) store.seqNum accepted
    refine ⟨?_, .of_queue loadHead loadQueue stays⟩
    exact sendStore_stays config unit store.seqNum accepted _ fun _ => ⟨rfl, rfl, rfl, id⟩

theorem writebackBlockedStore_stays {accepted : Bool}
    (ran : unit.writebackBlockedStore config accepted = some next) (stays : Nat → Prop) :
    StallStaysOrEnds unit next ∧ LoadsStay unit next stays := by
  obtain ⟨_, ran⟩ := Option.ite_none_right_eq_some.mp ran
  obtain ⟨store, _, rfl⟩ := Option.map_eq_some_iff.mp ran
  obtain ⟨loadHead, loadQueue⟩ := sendStore_loads config unit store.seqNum accepted
  refine ⟨?_, .of_queue loadHead loadQueue stays⟩
  have kept := sendStore_stays config unit store.seqNum accepted (fun entry => entry)
    fun _ => ⟨rfl, rfl, rfl, id⟩
  rwa [updateStore_same] at kept

theorem completeStore_staysWhole (config : Config) (unit : LSQUnit) (seqNum : Nat)
    (stays : Nat → Prop) : StallStaysOrEnds unit (unit.completeStore config seqNum) ∧
      LoadsStay unit (unit.completeStore config seqNum) stays := by
  obtain ⟨loadHead, loadQueue⟩ := completeStore_loads config unit seqNum
  refine ⟨?_, .of_queue loadHead loadQueue stays⟩
  have kept := completeStore_stays config unit seqNum fun entry => entry
  rwa [updateStore_same] at kept

/-! ### Squash -/

theorem loadAt_loadTail (last : unit.loadQueue.getLast? = some load) :
    unit.loadAt unit.loadTail = some load := by
  have occupied : 0 < unit.loadQueue.length := by
    refine length_pos_of_ne_nil fun empty => ?_
    simp [empty] at last
  unfold loadTail
  refine loadAt_eq_some.mpr ⟨by omega, ?_⟩
  rw [getLast?_eq_getElem?] at last
  rw [← last]
  congr 1
  omega

theorem squashLoad_loadAt {index : Nat}
    (found : unit.loadAt index = some load) (different : index ≠ unit.loadTail) :
    unit.squashLoad.loadAt index = some load := by
  have head : unit.squashLoad.loadHead = unit.loadHead := by
    unfold squashLoad
    split <;> rfl
  have queue : unit.squashLoad.loadQueue = unit.loadQueue.dropLast := by
    unfold squashLoad
    split <;> rfl
  obtain ⟨inside, found⟩ := loadAt_eq_some.mp found
  have bound := (List.getElem?_eq_some_iff.mp found).1
  unfold loadTail at different
  refine loadAt_eq_some.mpr ⟨head ▸ inside, ?_⟩
  rw [head, queue, List.getElem?_dropLast, if_pos (by omega)]
  exact found

variable {squashedNum : Nat}

theorem squashLoad_loadsStay
    (last : unit.loadQueue.getLast? = some load) (younger : squashedNum < load.seqNum) :
    LoadsStay unit unit.squashLoad (· ≤ squashedNum) := by
  intro index kept found older
  refine squashLoad_loadAt found ?_
  rintro rfl
  obtain rfl := Option.some.inj (found.symm.trans (loadAt_loadTail last))
  omega

/-- What a squash does to the stall: it stays, or the load that waits is squashed. -/
structure SquashesStall (unit next : LSQUnit) (squashedNum : Nat) : Prop where
  stays : StallStaysOrEnds unit next
  load : next.stalled = true → ∀ load, unit.loadAt unit.stallingLoadIdx = some load →
    next.loadAt unit.stallingLoadIdx = some load
  ended : unit.stalled = true → next.stalled = false →
    ∀ load, unit.loadAt unit.stallingLoadIdx = some load → squashedNum < load.seqNum
  stores : ∀ store ∈ unit.storeQueue, store.seqNum ≤ squashedNum → store ∈ next.storeQueue
  loads : LoadsStay unit next (· ≤ squashedNum)

theorem SquashesStall.refl (unit : LSQUnit) (squashedNum : Nat) :
    SquashesStall unit unit squashedNum where
  stays := fun _ => .refl unit
  load := fun _ _ found => found
  ended := fun stalled idle => clash stalled idle
  stores := fun _ member _ => member
  loads := .of_queue rfl rfl _

theorem SquashesStall.trans (first : SquashesStall unit between squashedNum)
    (second : SquashesStall between next squashedNum)
    (nextIdle : between.stalled = false → next.stalled = false) :
    SquashesStall unit next squashedNum := by
  have between_stalled : next.stalled = true → between.stalled = true := by
    intro stalled
    refine (Bool.not_eq_false _).mp fun idle => ?_
    exact clash (nextIdle idle) stalled
  refine ⟨?_, ?_, ?_, ?_, first.loads.trans second.loads⟩
  · intro stalled
    exact (first.stays (between_stalled stalled)).trans (second.stays stalled)
  · intro stalled load found
    have kept := first.stays (between_stalled stalled)
    have middle := first.load (between_stalled stalled) load found
    rw [← kept.stallingLoadIdx] at middle ⊢
    exact second.load stalled load middle
  · intro stalled unstalled load found
    cases middle : between.stalled with
    | false => exact first.ended stalled middle load found
    | true =>
      have kept := first.stays middle
      rcases Nat.lt_or_ge squashedNum load.seqNum with younger | older
      · exact younger
      · refine second.ended middle unstalled load ?_
        rw [kept.stallingLoadIdx]
        exact first.loads _ load found older
  · intro store member older
    exact second.stores store (first.stores store member older) older

theorem squashLoad_idle (idle : unit.stalled = false) : unit.squashLoad.stalled = false := by
  unfold squashLoad
  split
  · rfl
  · exact idle

theorem squashLoad_stall
    (last : unit.loadQueue.getLast? = some load) (younger : squashedNum < load.seqNum) :
    SquashesStall unit unit.squashLoad squashedNum where
  stays := by
    unfold squashLoad
    split
    · exact fun stalled => absurd stalled Bool.false_ne_true
    · exact fun _ => ⟨rfl, rfl, rfl, .refl unit _⟩
  load := by
    intro stalled waiting found
    refine squashLoad_loadAt found fun here => ?_
    unfold squashLoad at stalled
    split at stalled
    · exact absurd stalled Bool.false_ne_true
    case isFalse other =>
      have stalled : unit.stalled = true := stalled
      exact other (by simp [stalled, here])
  ended := by
    intro stalled idle waiting found
    unfold squashLoad at idle
    split at idle
    case isTrue here =>
      have here : unit.loadTail = unit.stallingLoadIdx := by simpa [stalled] using here
      rw [← here] at found
      obtain rfl := Option.some.inj (found.symm.trans (loadAt_loadTail last))
      exact younger
    case isFalse => exact clash stalled idle
  stores := by
    intro store member _
    unfold squashLoad
    split <;> exact member
  loads := squashLoad_loadsStay last younger

theorem squashLoads_stall (squashedNum fuel : Nat) :
    SquashesStall unit (squashLoads squashedNum fuel unit) squashedNum :=
  squashLoads_invariant (SquashesStall unit · squashedNum)
    (fun _ _ last younger stall => stall.trans (squashLoad_stall last younger) squashLoad_idle)
    fuel (.refl unit squashedNum)

/-- The second loop takes neither the store of a stall nor an older store. -/
theorem squashStore_stall (last : unit.storeQueue.getLast? = some store)
    (younger : squashedNum < store.seqNum)
    (other : unit.stalled = true → store.seqNum ≠ unit.stallingStoreIsn) :
    SquashesStall unit unit.squashStore squashedNum := by
  have kept : ∀ entry ∈ unit.storeQueue, entry.seqNum ≠ store.seqNum →
      entry ∈ unit.storeQueue.dropLast := by
    intro entry member different
    rw [← dropLast_append_getLast? store last] at member
    rcases mem_append.mp member with before | here
    · exact before
    · exact absurd (congrArg SQEntry.seqNum (mem_singleton.mp here)) different
  have loads : LoadsStay unit unit.squashStore (· ≤ squashedNum) := fun _ _ found _ => found
  refine ⟨fun stalled => ⟨rfl, rfl, rfl, ?_⟩, fun _ _ found => found, ?_, ?_, loads⟩
  · intro entry member same uncompleted
    exact ⟨entry, kept entry member fun here => other stalled (here.symm.trans same), same,
      uncompleted, rfl, id⟩
  · exact fun stalled idle => clash stalled idle
  · intro entry member older
    exact kept entry member fun here => by omega

theorem squashStores_stall {fuel : Nat} (ended : squashStores squashedNum fuel unit = .ok next) :
    SquashesStall unit next squashedNum ∧ next.stalled = unit.stalled := by
  refine squashStores_invariant (fun next => SquashesStall unit next squashedNum ∧
    next.stalled = unit.stalled) ?_ ⟨.refl unit squashedNum, rfl⟩ ended
  intro middle store last younger other stall
  exact ⟨stall.1.trans (squashStore_stall last younger other) id, stall.2⟩

theorem squash_stall (ended : unit.squash squashedNum = .ok next) :
    SquashesStall unit next squashedNum := by
  obtain ⟨stores, same⟩ := squashStores_stall ended
  exact (squashLoads_stall squashedNum _).trans stores fun idle => same.trans idle

theorem squashStores_loads {fuel : Nat} (ended : squashStores squashedNum fuel unit = .ok next) :
    next.loadHead = unit.loadHead ∧ next.loadQueue = unit.loadQueue :=
  squashStores_invariant (fun next => next.loadHead = unit.loadHead ∧
    next.loadQueue = unit.loadQueue) (fun _ _ _ _ _ same => same) ⟨rfl, rfl⟩ ended

theorem squash_bounded (inv : unit.Inv) (ended : unit.squash squashedNum = .ok next) :
    ∀ load ∈ next.loadQueue, load.seqNum ≤ squashedNum := by
  intro load member
  rw [(squashStores_loads ended).2] at member
  exact squashLoads_bounded inv squashedNum (Nat.le_refl _) load member

end LSQUnit

end Runahead.O3.Lsq
