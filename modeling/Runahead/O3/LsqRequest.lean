import Runahead.Library.Transition

/-!
# The life of an LSQ request

An `LSQRequest` is created by `pushRequest` and belongs to its load or store queue entry
until the entry is cleared or the request is discarded. If a translation, a packet or a
scheduled write-back is still outstanding then, the request destroys itself when that ends.
The run below follows one request together with what its callers look at: the flags of its
instruction, those of its queue entry, and the part of the CPU's tick.

A member call on a destroyed request and a failed assertion are both `none`.
-/

set_option autoImplicit false

namespace Runahead.O3.Lsq

/-! ## The request -/

inductive RequestState where
  | notIssued
  | translation
  | request
  | fault
  | partialFault
  deriving DecidableEq, Repr

/-- The flags that `release` may set. -/
inductive ReleaseReason where
  | lsqEntryFreed
  | discarded
  deriving DecidableEq, Repr

structure LSQRequest where
  isLoad : Bool
  isSplit : Bool
  isStoreConditional : Bool
  isAtomic : Bool
  isLocalAccess : Bool
  state : RequestState := .notIssued
  /-- The result of each fragment's translation, once there is one. -/
  fault : List (Option Bool)
  numTranslatedFragments : Nat := 0
  numInTranslationFragments : Nat := 0
  numPackets : Nat := 0
  numReceivedPackets : Nat := 0
  numOutstandingPackets : Nat := 0
  /-- Whether the sender state, if there is one, is alive. -/
  senderState : Option Bool := none
  translationStarted : Bool := false
  translationFinished : Bool := false
  translationSquashed : Bool := false
  sent : Bool := false
  complete : Bool := false
  lsqEntryFreed : Bool := false
  discarded : Bool := false
  writebackScheduled : Bool := false
  writebackDone : Bool := false
  deriving DecidableEq, Repr

namespace LSQRequest

variable (request : LSQRequest)

def isReleased : Bool := request.lsqEntryFreed || request.discarded

def writebackPending : Bool :=
  request.writebackScheduled && !request.writebackDone

def isAnyOutstandingRequest : Bool :=
  decide (0 < request.numInTranslationFragments) ||
    decide (0 < request.numOutstandingPackets) || request.writebackPending

def isTranslationComplete : Bool :=
  request.translationStarted && request.state != .translation

def isMemAccessRequired : Bool :=
  request.state == .request || (request.state == .partialFault && request.isLoad)

def accessible : Nat :=
  (request.fault.takeWhile (· == some false)).length

def wbStore : Bool := request.isStoreConditional || request.isAtomic

def packetSent : LSQRequest := { request with sent := true }

def packetNotSent : LSQRequest := { request with sent := false }

/-- The loop of `SplitDataRequest::sendPacketToCache` for a cache that takes so many
packets. -/
def sendSplitPackets : Nat → LSQRequest → LSQRequest
  | accepts, request =>
    if request.numReceivedPackets + request.numOutstandingPackets < request.numPackets then
      match accepts with
      | 0 => request.packetNotSent
      | accepts + 1 =>
        sendSplitPackets accepts
          { request.packetSent with
            numOutstandingPackets := request.numOutstandingPackets + 1 }
    else request

def sendPacketToCache (accepts : Nat) (request : LSQRequest) : Option LSQRequest :=
  if request.isSplit then some (request.sendSplitPackets accepts)
  else if request.numOutstandingPackets = 0 then
    match accepts with
    | 0 => some request.packetNotSent
    | _ + 1 => some { request.packetSent with numOutstandingPackets := 1 }
  else none

/-- `buildPackets`; retries do not create new packets. -/
def buildPackets : Option LSQRequest :=
  let built :=
    if request.numPackets = 0 then { request with numPackets := request.accessible } else request
  if 0 < built.numPackets then some built else none

end LSQRequest

/-! ## A run of one request -/

/-- The CPU's tick: the IEW stage first takes squashes, then executes instructions, sends
stores and lets committed instructions leave; the events of the tick follow. -/
inductive TickPhase where
  | signals
  | execute
  | events
  deriving DecidableEq, Repr

structure RequestRun where
  request : LSQRequest
  /-- Flags of the instruction. -/
  squashed : Bool := false
  executed : Bool := false
  /-- The instruction queue will execute the instruction, possibly again. -/
  waiting : Bool := true
  /-- The queue entry holds the request. -/
  owned : Bool := true
  /-- Flags of a store queue entry. -/
  canWB : Bool := false
  committed : Bool := false
  completed : Bool := false
  phase : TickPhase := .execute
  /-- A write-back is scheduled for this tick. -/
  due : Bool := false
  /-- The calls of `release`. -/
  releases : List ReleaseReason := []
  /-- The number of times that the destructor has run. -/
  destroyed : Nat := 0
  deriving DecidableEq, Repr

namespace RequestRun

variable (run : RequestRun)

def destroy : Option RequestRun :=
  if run.request.isAnyOutstandingRequest then none
  else some { run with destroyed := run.destroyed + 1 }

/-- A member call needs a request that has not been destroyed. -/
def call (body : RequestRun → Option RequestRun) : Option RequestRun :=
  if run.destroyed = 0 then body run else none

def release (reason : ReleaseReason) (run : RequestRun) : Option RequestRun :=
  run.call fun run =>
    let run := { run with releases := reason :: run.releases }
    if run.request.isAnyOutstandingRequest then
      let request := { run.request with senderState := run.request.senderState.map fun _ => false }
      match reason with
      | .lsqEntryFreed => some { run with request := { request with lsqEntryFreed := true } }
      | .discarded => some { run with request := { request with discarded := true } }
    else run.destroy

def clear : Option RequestRun :=
  if run.owned then ({ run with owned := false }).release .lsqEntryFreed else some run

def discard : Option RequestRun :=
  ({ run with owned := false }).release .discarded

def packetReplied : Option RequestRun :=
  run.call fun run =>
    if 0 < run.request.numOutstandingPackets then
      let run := { run with
        request.numOutstandingPackets := run.request.numOutstandingPackets - 1 }
      if run.request.numOutstandingPackets = 0 ∧ run.request.isReleased then run.destroy
      else some run
    else none

def writebackScheduled (run : RequestRun) : Option RequestRun :=
  run.call fun run =>
    if run.request.writebackScheduled then none
    else some { run with request.writebackScheduled := true }

def writebackDone (run : RequestRun) : Option RequestRun :=
  run.call fun run =>
    let run := { run with request.writebackDone := true }
    if run.request.isReleased then run.destroy else some run

def squashTranslation : Option RequestRun :=
  run.call fun run =>
    if run.request.numInTranslationFragments = 0 then
      let run := { run with request.translationSquashed := true }
      if run.request.isReleased then run.destroy else some run
    else none

/-! ### Translation -/

def translatedState (request : LSQRequest) : RequestState :=
  if 0 < request.accessible then
    if request.accessible = request.fault.length then .request else .partialFault
  else .fault

def finish (fragment : Nat) (fault : Bool) (run : RequestRun) : Option RequestRun :=
  run.call fun run =>
    let request := { run.request with
      fault := run.request.fault.set fragment (some fault)
      numInTranslationFragments := run.request.numInTranslationFragments - 1
      numTranslatedFragments := run.request.numTranslatedFragments + 1 }
    let run := { run with request := request }
    if request.numTranslatedFragments = request.fault.length then
      if run.squashed then run.squashTranslation
      else
        some { run with
          request := { request with
            translationFinished := true, state := translatedState request } }
    else some run

/-- `sendFragmentToTranslation`; the translation may end at once. -/
def sendFragmentToTranslation (fragment : Nat) (result : Option Bool) : Option RequestRun :=
  let run := { run with
    request.numInTranslationFragments := run.request.numInTranslationFragments + 1 }
  match result with
  | none => some run
  | some fault => run.finish fragment fault

def sendFragments (run : RequestRun) : Nat → List (Option Bool) → Option RequestRun
  | _, [] => some run
  | fragment, result :: results =>
    match run.sendFragmentToTranslation fragment result with
    | none => none
    | some run => run.sendFragments (fragment + 1) results

/-- `initiateTranslation`; the list says which translations end at once, and how. -/
def initiateTranslation (results : List (Option Bool)) (run : RequestRun) : Option RequestRun :=
  if 0 < run.request.fault.length then
    let request := { run.request with state := .translation, translationStarted := true }
    ({ run with request := request }).sendFragments 0 results
  else
    -- No byte is enabled: the instruction is executed without an access.
    some { run with executed := true, waiting := false }

/-! ### Loads -/

/-- What `LSQUnit::read` finds for a load. -/
inductive ReadOutcome where
  | strictlyOrdered
  | localAccess (delayed : Bool)
  | forward
  | partialHit
  | access (accepts : Nat)
  deriving DecidableEq, Repr

def scheduleWriteback (delayed : Bool) (run : RequestRun) : Option RequestRun :=
  (run.writebackScheduled).map fun run => { run with due := !delayed }

def discardSenderState : Option RequestRun :=
  match run.request.senderState with
  | none => none
  | some _ => some { run with request.senderState := some false }

/-- Forwarding; packets that are under way already are answered in vain. -/
def forward : Option RequestRun :=
  if run.request.isAnyOutstandingRequest then
    if 0 < run.request.numOutstandingPackets then
      run.discardSenderState.bind (scheduleWriteback false)
    else none
  else run.scheduleWriteback false

/-- The sender state, the packets and the attempt to send them. -/
def sendToCache (accepts : Nat) (run : RequestRun) : Option RequestRun :=
  let request := { run.request with senderState := run.request.senderState.or (some true) }
  (request.buildPackets.bind (LSQRequest.sendPacketToCache accepts)).map fun request =>
    { run with request := request }

def read (outcome : ReadOutcome) (run : RequestRun) : Option RequestRun :=
  let run := { run with waiting := false }
  match outcome with
  | .strictlyOrdered => run.discard
  | .localAccess delayed => run.scheduleWriteback delayed
  | .forward => run.forward
  | .partialHit => run.discard
  | .access accepts =>
    (run.sendToCache accepts).map fun run => { run with waiting := !run.request.sent }

/-! ### Stores -/

/-- `LSQUnit::write` and the flags of the entry that `executeStore` sets. -/
def write : RequestRun :=
  if run.request.wbStore then { run with waiting := false, canWB := true }
  else { run with waiting := false, executed := true }

/-- `completeStore`; a store at the head leaves the queue. -/
def completeStore (atHead : Bool) (run : RequestRun) : Option RequestRun :=
  let run := { run with completed := true }
  if atHead then run.clear else some run

/-- What `writebackStores` finds for the store it is at. -/
inductive StoreOutcome where
  | noData
  | conditionalFails
  | localAccess
  | access (accepts : Nat)
  deriving DecidableEq, Repr

def writebackStore (outcome : StoreOutcome) (atHead : Bool) (run : RequestRun) :
    Option RequestRun :=
  match outcome with
  | .noData => run.completeStore atHead
  | .conditionalFails =>
    let request := { run.request.packetSent with complete := true }
    (({ run with committed := true, request := request }).scheduleWriteback true).bind
      (completeStore atHead)
  | .localAccess => ({ run with committed := true }).completeStore atHead
  | .access accepts =>
    -- The flag that a store conditional sets before is overwritten by the attempt.
    ({ run with committed := true }).sendToCache accepts

/-! ### Replies and write-backs -/

def completeDataAccess (atHead : Bool) (run : RequestRun) : Option RequestRun :=
  if run.squashed then some run
  else if run.request.isLoad then some { run with executed := true }
  else if run.request.wbStore then
    ({ run with executed := true }).writebackDone.bind (completeStore atHead)
  else run.completeStore atHead

def recvTimingResp (atHead : Bool) (run : RequestRun) : Option RequestRun :=
  run.call fun run =>
    if run.request.isSplit then
      let request := { run.request with
        numReceivedPackets := run.request.numReceivedPackets + 1 }
      if request.numReceivedPackets = request.numPackets then
        ({ run with request := { request with complete := true } }).completeDataAccess atHead
      else some { run with request := request }
    else if run.request.numOutstandingPackets = 1 then
      ({ run with request.complete := true }).completeDataAccess atHead
    else none

def reply (atHead : Bool) (run : RequestRun) : Option RequestRun :=
  match run.request.senderState with
  | none => none
  | some true => (run.recvTimingResp atHead).bind packetReplied
  | some false => run.packetReplied

def processWriteback : Option RequestRun :=
  let run := { run with due := false }
  if run.squashed then run.writebackDone
  else ({ run with executed := true }).writebackDone

/-! ### Events -/

inductive Event where
  | initiateTranslation (results : List (Option Bool))
  | finish (fragment : Nat) (fault : Bool)
  | executeLoad (outcome : ReadOutcome)
  | executeStore
  | writebackStore (outcome : StoreOutcome) (atHead : Bool)
  | reply (atHead : Bool)
  | processWriteback
  /-- The reorder buffer marks the instruction squashed. -/
  | squashInst
  /-- The load and store queue squashes the instruction. -/
  | squash
  | commitLoad
  | commitStore
  /-- A completed store comes to the head of the queue. -/
  | leave
  | nextPhase
  deriving DecidableEq, Repr

def nextPhase : RequestRun :=
  match run.phase with
  | .signals => { run with phase := .execute }
  | .execute => { run with phase := .events }
  | .events => { run with phase := .signals }

def step : Event → Option RequestRun
  | .initiateTranslation results => run.initiateTranslation results
  | .finish fragment fault => run.finish fragment fault
  | .executeLoad outcome =>
    if run.request.isMemAccessRequired then run.read outcome
    else some { run with waiting := false, executed := true }
  | .executeStore =>
    if run.request.isMemAccessRequired then some run.write
    else some { run with waiting := false, executed := true }
  | .writebackStore outcome atHead => run.writebackStore outcome atHead
  | .reply atHead => run.reply atHead
  | .processWriteback => run.processWriteback
  | .squashInst => some { run with squashed := true }
  | .squash => ({ run with squashed := true }).clear
  | .commitLoad => run.clear
  | .commitStore => some { run with canWB := true }
  | .leave => run.clear
  | .nextPhase => some run.nextPhase

def executable : Bool :=
  run.phase == .execute && run.owned && run.waiting && !run.squashed && !run.executed

/-- The outcomes that the kind of the request admits. -/
def readAdmits : ReadOutcome → Bool
  | .strictlyOrdered => true
  | .localAccess _ => run.request.isLocalAccess
  | .forward => !run.request.isLocalAccess
  | .partialHit => !run.request.isLocalAccess
  | .access _ => !run.request.isLocalAccess

def storeAdmits : StoreOutcome → Bool
  | .noData => !run.committed && !run.request.isMemAccessRequired
  | .conditionalFails =>
    !run.committed && run.request.isMemAccessRequired && run.request.isStoreConditional
  | .localAccess =>
    !run.committed && run.request.isMemAccessRequired && run.request.isLocalAccess &&
      !run.request.isStoreConditional
  | .access _ => run.request.isMemAccessRequired && !run.request.isLocalAccess

/-- When the callers act on the request. -/
def callers : Event → Bool
  | .initiateTranslation results =>
    run.executable && !run.request.translationStarted && results.length == run.request.fault.length
  | .finish fragment _ =>
    run.request.translationStarted && run.request.fault[fragment]? == some none
  | .executeLoad outcome =>
    run.executable && run.request.isLoad && run.request.isTranslationComplete &&
      run.readAdmits outcome
  | .executeStore =>
    run.executable && !run.request.isLoad && run.request.isTranslationComplete
  | .writebackStore outcome _ =>
    !run.request.isLoad && run.owned && run.canWB && !run.completed && !run.request.sent &&
      run.storeAdmits outcome
  | .reply _ => decide (0 < run.request.numOutstandingPackets)
  | .processWriteback => run.request.writebackPending && run.phase == .events
  | .squashInst => true
  | .squash => run.phase == .signals && run.owned && !run.canWB
  | .commitLoad => run.request.isLoad && run.owned && run.executed
  | .commitStore => !run.request.isLoad && run.owned && run.executed && !run.canWB
  | .leave => !run.request.isLoad && run.owned && run.completed
  | .nextPhase => run.phase != .events || !run.due

end RequestRun

end Runahead.O3.Lsq
