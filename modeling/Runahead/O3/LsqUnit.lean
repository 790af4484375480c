import Runahead.Library.Transition
import Mathlib.Data.List.Basic

/-!
# The load/store queue unit of runaheado3

`lsq_unit.cc`: the two queues of one thread, their counters, the iterator to
the next store to write back, and the load that waits for a store. Indices grow
for ever as in `CircularQueue`; a queue is its list of entries and the index of
the first one. Addresses, data and hardware transactions are left out: the
environment says which stores a load overlaps and what the cache answers.
-/

set_option autoImplicit false

namespace Runahead.O3.Lsq

/-- The part of a store queue entry, its instruction and its request that
decides how the unit handles it. -/
structure SQEntry where
  seqNum : Nat
  isStoreConditional : Bool := false
  isAtomic : Bool := false
  isDataPrefetch : Bool := false
  /-- The request is load-locked/store-conditional or a release: it is sent only
  from the head of the queue. -/
  isOrdered : Bool := false
  size : Nat := 0
  canWB : Bool := false
  committed : Bool := false
  completed : Bool := false
  /-- All packets of the request have been sent (`LSQRequest::isSent`). -/
  isSent : Bool := false
  deriving DecidableEq, Repr

structure LQEntry where
  seqNum : Nat
  isDataPrefetch : Bool := false
  /-- The end of the store queue when the load was inserted. -/
  sqIt : Nat
  deriving DecidableEq, Repr

structure Config where
  lqEntries : Nat
  sqEntries : Nat
  needsTSO : Bool

structure LSQUnit where
  storeHead : Nat := 1
  storeQueue : List SQEntry := []
  loadHead : Nat := 1
  loadQueue : List LQEntry := []
  loads : Int := 0
  stores : Int := 0
  storesToWB : Int := 0
  storeWBIt : Nat := 1
  stalled : Bool := false
  stallingStoreIsn : Nat := 0
  stallingLoadIdx : Nat := 0
  isStoreBlocked : Bool := false
  storeInFlight : Bool := false
  deriving DecidableEq, Repr

/-- Assertions, panics and uses of a cleared entry. -/
inductive Failure where
  /-- `insertLoad`, `insertStore`: the queue is full. -/
  | queueFull
  /-- `read`: `assert(store_it >= storeWBIt)`. -/
  | storePassed
  /-- `read`: "Should not check one of these". -/
  | checkedCompleted
  /-- `read` compares with a load that has left the queue, and its slot is empty. -/
  | noInstruction
  /-- `squash`: "Is stalled should have been cleared by stalling load!". -/
  | stillStalled
  deriving DecidableEq, Repr

/-- How much of a load's data a store has. -/
inductive AddrRangeCoverage where
  | partialAddrRangeCoverage | fullAddrRangeCoverage | noAddrRangeCoverage
  deriving DecidableEq, Repr

/-- The store that ends the search of `read`, with its coverage. -/
inductive SearchResult where
  | access
  | forward (store : SQEntry)
  | stall (store : SQEntry)

/-- What happens to a store that is written back. -/
inductive WriteResult where
  /-- The locked write of a store-conditional fails. -/
  | failed
  /-- The access is local to the CPU. -/
  | localAccess
  | send (accepted : Bool)
  deriving DecidableEq, Repr

namespace LSQUnit

variable (unit : LSQUnit)

def storeEnd : Nat := unit.storeHead + unit.storeQueue.length

def loadTail : Nat := unit.loadHead + unit.loadQueue.length - 1

def storeAt (index : Nat) : Option SQEntry :=
  if unit.storeHead ≤ index then unit.storeQueue[index - unit.storeHead]? else none

def loadAt (index : Nat) : Option LQEntry :=
  if unit.loadHead ≤ index then unit.loadQueue[index - unit.loadHead]? else none

variable (config : Config)

/-- `loadQueue[index]` reads the slot of the circular queue that the index leads to. If
the load has left the queue, a later one may have taken its slot. -/
def loadSlot (unit : LSQUnit) (index : Nat) : Option LQEntry :=
  (unit.loadAt index).or <|
    ((List.range unit.loadQueue.length).find? fun offset =>
      (unit.loadHead + offset) % (config.lqEntries + 1) =
        index % (config.lqEntries + 1)).bind (unit.loadQueue[·]?)

def updateEntry (queue : List SQEntry) (seqNum : Nat) (change : SQEntry → SQEntry) : List SQEntry :=
  queue.map fun entry => if entry.seqNum = seqNum then change entry else entry

def updateStore (seqNum : Nat) (change : SQEntry → SQEntry) : LSQUnit :=
  { unit with storeQueue := updateEntry unit.storeQueue seqNum change }

/-! ## Insertion -/

def insertLoad (unit : LSQUnit) (seqNum : Nat) (isDataPrefetch : Bool) : Except Failure LSQUnit :=
  if unit.loadQueue.length < config.lqEntries + 1 && unit.loads < config.lqEntries + 1 then
    .ok { unit with
      loadQueue := unit.loadQueue ++
        [{ seqNum := seqNum, isDataPrefetch := isDataPrefetch, sqIt := unit.storeEnd }]
      loads := unit.loads + 1 }
  else .error .queueFull

/-- The entry is new: only what the instruction itself says is set. -/
def insertStore (unit : LSQUnit) (store : SQEntry) : Except Failure LSQUnit :=
  if unit.storeQueue.length < config.sqEntries + 1 && unit.stores < config.sqEntries + 1 then
    .ok { unit with
      storeQueue := unit.storeQueue ++
        [{ store with
          size := 0, canWB := false, committed := false, completed := false, isSent := false }]
      stores := unit.stores + 1 }
  else .error .queueFull

/-! ## Execution -/

/-- The loop of `read`, from `distance` entries behind `storeWBIt` downwards. -/
def searchStores (unit : LSQUnit) (coverage : Nat → AddrRangeCoverage) : Nat → SearchResult
  | 0 => .access
  | distance + 1 =>
    match unit.storeAt (unit.storeWBIt + distance) with
    | none => .access
    | some store =>
      if store.size = 0 then unit.searchStores coverage distance
      else
        match coverage store.seqNum with
        | .noAddrRangeCoverage => unit.searchStores coverage distance
        | .fullAddrRangeCoverage => .forward store
        | .partialAddrRangeCoverage => .stall store

/-- The load waits for the store, unless an older load already waits for one. -/
def stallLoad (unit : LSQUnit) (load : LQEntry) (loadIdx : Nat)
    (store : SQEntry) : Except Failure LSQUnit :=
  let stalledUnit := { unit with
    stalled := true, stallingStoreIsn := store.seqNum, stallingLoadIdx := loadIdx }
  if !unit.stalled then .ok stalledUnit
  else
    match unit.loadSlot config unit.stallingLoadIdx with
    | none => .error .noInstruction
    | some stalling => if load.seqNum < stalling.seqNum then .ok stalledUnit else .ok unit

/-- `read` from the search of the store queue on. -/
def read (unit : LSQUnit) (load : LQEntry) (loadIdx : Nat)
    (coverage : Nat → AddrRangeCoverage) : Except Failure LSQUnit :=
  if load.sqIt < unit.storeWBIt then .error .storePassed
  else if load.isDataPrefetch then .ok unit
  else
    match unit.searchStores coverage (load.sqIt - unit.storeWBIt) with
    | .access => .ok unit
    | .forward _ => .ok unit
    | .stall store =>
      if store.completed then .error .checkedCompleted
      else unit.stallLoad config load loadIdx store

/-- `executeStore`. The access writes `size` bytes into the queue; nothing is
written when translation is delayed, the store faults or is predicated false. -/
def executeStore (store : SQEntry) (size : Nat) : LSQUnit :=
  if size = 0 then unit
  else if store.isStoreConditional || store.isAtomic then
    { unit.updateStore store.seqNum fun entry => { entry with size := size, canWB := true } with
      storesToWB := unit.storesToWB + 1 }
  else unit.updateStore store.seqNum fun entry => { entry with size := size }

/-! ## Commit -/

/-- The loop of `commitStores`: the queue and the number of stores that may
write back from now on. -/
def commitStoresLoop (youngestInst : Nat) : List SQEntry → List SQEntry × Nat
  | [] => ([], 0)
  | store :: rest =>
    if store.canWB then
      let (queue, marked) := commitStoresLoop youngestInst rest
      (store :: queue, marked)
    else if youngestInst < store.seqNum then (store :: rest, 0)
    else
      let (queue, marked) := commitStoresLoop youngestInst rest
      ({ store with canWB := true } :: queue, marked + 1)

def commitStores (youngestInst : Nat) : LSQUnit :=
  let committed := commitStoresLoop youngestInst unit.storeQueue
  { unit with storeQueue := committed.1, storesToWB := unit.storesToWB + committed.2 }

def commitLoad : LSQUnit :=
  { unit with
    loadHead := unit.loadHead + 1
    loadQueue := unit.loadQueue.tail
    loads := unit.loads - 1 }

/-- The loop of `commitLoads`; it ends at the latest with an empty queue. -/
def commitLoads (youngestInst : Nat) : Nat → LSQUnit → LSQUnit
  | 0, unit => unit
  | fuel + 1, unit =>
    match unit.loadQueue with
    | [] => unit
    | load :: _ =>
      if unit.loads ≠ 0 ∧ load.seqNum ≤ youngestInst then
        commitLoads youngestInst fuel unit.commitLoad
      else unit

/-- What the IEW stage does for the committed instructions of a cycle. -/
def commit (youngestInst : Nat) : LSQUnit :=
  let unit := unit.commitStores youngestInst
  commitLoads youngestInst unit.loadQueue.length unit

/-! ## Write-back -/

/-- The waiting load is replayed when its store is sent or completed. -/
def unstall (seqNum : Nat) : LSQUnit :=
  if unit.stalled && seqNum = unit.stallingStoreIsn then
    { unit with stalled := false, stallingStoreIsn := 0 }
  else unit

/-- The completed entries at the front of the queue, from the second one on. -/
def completedRun (storeQueue : List SQEntry) : Nat :=
  1 + (storeQueue.tail.takeWhile (·.completed)).length

def popCompleted : LSQUnit :=
  let popped := completedRun unit.storeQueue
  { unit with
    storeHead := unit.storeHead + popped
    storeQueue := unit.storeQueue.drop popped
    stores := unit.stores - popped }

def completeStore (unit : LSQUnit) (seqNum : Nat) : LSQUnit :=
  let unit := { unit.updateStore seqNum fun entry => { entry with completed := true } with
    storesToWB := unit.storesToWB - 1 }
  let unit :=
    if unit.storeQueue.head?.any (·.seqNum = seqNum) then unit.popCompleted else unit
  { unit.unstall seqNum with
    storeInFlight := !config.needsTSO && unit.storeInFlight }

def storePostSend (config : Config) (unit : LSQUnit) (seqNum : Nat) : LSQUnit :=
  { unit.unstall seqNum with
    storeInFlight := config.needsTSO || unit.storeInFlight
    storeWBIt := unit.storeWBIt + 1 }

/-- `sendPacketToCache` for the store at `storeWBIt`, and `storePostSend` if the
cache has taken all packets. -/
def sendStore (unit : LSQUnit) (seqNum : Nat) (accepted : Bool) : LSQUnit :=
  if accepted then
    { unit.updateStore seqNum fun entry => { entry with isSent := true } with
      isStoreBlocked := false }.storePostSend config seqNum
  else { unit with isStoreBlocked := true }

/-- One iteration of the loop in `writebackStores`; `none` when the loop ends. -/
def writebackStore (unit : LSQUnit) (result : WriteResult) : Option LSQUnit :=
  match unit.storeAt unit.storeWBIt with
  | none => none
  | some store =>
    if 0 < unit.storesToWB && store.canWB && (!config.needsTSO || !unit.storeInFlight) &&
        !unit.isStoreBlocked then
      if store.size = 0 then
        some ({ unit with storeWBIt := unit.storeWBIt + 1 }.completeStore config store.seqNum)
      else if store.isDataPrefetch then some { unit with storeWBIt := unit.storeWBIt + 1 }
      else if store.isOrdered && unit.storeWBIt ≠ unit.storeHead then none
      else
        let unit := unit.updateStore store.seqNum fun entry => { entry with committed := true }
        match result with
        | .failed =>
          if store.isStoreConditional then
            let unit := (unit.updateStore store.seqNum fun entry =>
              { entry with isSent := true }).completeStore config store.seqNum
            some { unit with
              storeWBIt :=
                if unit.storeQueue.isEmpty then unit.storeEnd else unit.storeWBIt + 1 }
          else none
        | .localAccess =>
          if store.isStoreConditional then none
          else
            let unit := unit.completeStore config store.seqNum
            some { unit with storeWBIt := unit.storeWBIt + 1 }
        | .send accepted => some (unit.sendStore config store.seqNum accepted)
    else none

/-- `writebackBlockedStore`, also called by `recvRetry`. -/
def writebackBlockedStore (unit : LSQUnit) (accepted : Bool) : Option LSQUnit :=
  if unit.isStoreBlocked then
    (unit.storeAt unit.storeWBIt).map fun store => unit.sendStore config store.seqNum accepted
  else none

/-! ## Squash -/

def squashLoad : LSQUnit :=
  let unit :=
    if unit.stalled && unit.loadTail = unit.stallingLoadIdx then
      { unit with stalled := false, stallingStoreIsn := 0, stallingLoadIdx := 0 }
    else unit
  { unit with loadQueue := unit.loadQueue.dropLast, loads := unit.loads - 1 }

/-- The first loop of `squash`; it ends at the latest with an empty queue. -/
def squashLoads (squashedNum : Nat) : Nat → LSQUnit → LSQUnit
  | 0, unit => unit
  | fuel + 1, unit =>
    match unit.loadQueue.getLast? with
    | none => unit
    | some load =>
      if unit.loads ≠ 0 ∧ squashedNum < load.seqNum then
        squashLoads squashedNum fuel unit.squashLoad
      else unit

def squashStore : LSQUnit :=
  { unit with storeQueue := unit.storeQueue.dropLast, stores := unit.stores - 1 }

def squashStores (squashedNum : Nat) : Nat → LSQUnit → Except Failure LSQUnit
  | 0, unit => .ok unit
  | fuel + 1, unit =>
    match unit.storeQueue.getLast? with
    | none => .ok unit
    | some store =>
      if unit.stores ≠ 0 ∧ squashedNum < store.seqNum then
        if store.canWB then .ok unit
        else if unit.stalled && store.seqNum = unit.stallingStoreIsn then .error .stillStalled
        else squashStores squashedNum fuel unit.squashStore
      else .ok unit

def squash (squashedNum : Nat) : Except Failure LSQUnit :=
  let unit := squashLoads squashedNum unit.loadQueue.length unit
  squashStores squashedNum unit.storeQueue.length unit

end LSQUnit

/-! ## Events -/

inductive LsqEvent where
  | insertLoad (seqNum : Nat) (isDataPrefetch : Bool)
  | insertStore (store : SQEntry)
  | executeLoad (loadIdx : Nat) (coverage : Nat → AddrRangeCoverage)
  | executeStore (seqNum : Nat) (size : Nat)
  | commit (youngestInst : Nat)
  | writebackStore (result : WriteResult)
  | retry (accepted : Bool)
  | complete (seqNum : Nat)
  | squash (squashedNum : Nat)

namespace LSQUnit

def isYoungest (unit : LSQUnit) (seqNum : Nat) : Bool :=
  unit.loadQueue.all (·.seqNum < seqNum) && unit.storeQueue.all (·.seqNum < seqNum)

/-- One event. A store executes once, and the cache answers the requests it got. -/
def step (config : Config) (unit : LSQUnit) : LsqEvent → Option LSQUnit
  | .insertLoad seqNum isDataPrefetch =>
    if unit.isYoungest seqNum then (unit.insertLoad config seqNum isDataPrefetch).toOption
    else none
  | .insertStore store =>
    if unit.isYoungest store.seqNum then (unit.insertStore config store).toOption else none
  | .executeLoad loadIdx coverage =>
    match unit.loadAt loadIdx with
    | none => none
    | some load => (unit.read config load loadIdx coverage).toOption
  | .executeStore seqNum size =>
    match unit.storeQueue.find? (·.seqNum = seqNum) with
    | none => none
    | some store => if store.canWB then none else some (unit.executeStore store size)
  | .commit youngestInst => some (unit.commit youngestInst)
  | .writebackStore result => unit.writebackStore config result
  | .retry accepted => unit.writebackBlockedStore config accepted
  | .complete seqNum =>
    if unit.storeQueue.any fun store =>
        decide (store.seqNum = seqNum) && store.isSent && !store.completed then
      some (unit.completeStore config seqNum)
    else none
  | .squash squashedNum => (unit.squash squashedNum).toOption

end LSQUnit

end Runahead.O3.Lsq
