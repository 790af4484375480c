import Runahead.O3.LsqAccess
import Runahead.O3.LsqUnitOrder

/-!
# Store-to-load forwarding

`read` with the addresses and data of the accesses. The search of the store queue is
that of `LSQUnit.read`; here the coverage of a store is computed from the bounds of the
two accesses as the code does it, and the data of a forwarded load is copied from the
buffer that `write` has filled.
-/

set_option autoImplicit false

namespace Runahead.O3.Lsq

open List

abbrev Byte := BitVec 8

/-- The commands of hardware transactional memory, which are sent like loads. -/
inductive HtmCmd where
  | start | commit | cancel | abort
  deriving DecidableEq, Repr

structure LoadRequest where
  /-- `mainRequest()->getVaddr()` and `getSize()`. -/
  access : Access
  isLLSC : Bool := false
  isStrictlyOrdered : Bool := false
  isAtCommit : Bool := false
  isLocalAccess : Bool := false
  htmCmd : Option HtmCmd := none
  /-- `Request::NO_ACCESS`. -/
  noAccess : Bool := false
  deriving DecidableEq, Repr

/-- The loads that get as far as the search of the store queue. -/
structure LoadRequest.Plain (req : LoadRequest) : Prop where
  reordered : req.isStrictlyOrdered = false
  remote : req.isLocalAccess = false
  noCommand : req.htmCmd = none

/-- The request of a store, and what the buffer of its queue entry held before. -/
structure StoreRequest where
  effAddr : Addr
  strictlyOrdered : Bool := false
  cacheBlockZero : Bool := false
  clean : Bool := false
  invalidate : Bool := false
  isMasked : Bool := false
  data : Nat → Byte
  stale : Nat → Byte

namespace StoreRequest

variable (store : StoreRequest)

def isCacheMaintenance : Bool := store.clean || store.invalidate

/-- `Request::STORE_NO_DATA`, which `write` takes for `isAllZeros`. -/
def storeNoData : Bool :=
  store.cacheBlockZero || store.clean || store.invalidate

def written (isAtomic : Bool) (size offset : Nat) : Byte :=
  if !store.cacheBlockZero && !store.isCacheMaintenance && !isAtomic && offset < size then
    store.data offset
  else store.stale offset

def byte (offset : Nat) : Byte :=
  if store.cacheBlockZero then 0 else store.data offset

end StoreRequest

/-- The four comparisons of `read` and what follows from them. -/
def addrRangeCoverage (req : LoadRequest) (isAtomic isMasked : Bool) (store : Access) :
    AddrRangeCoverage :=
  let reqStart := req.access.effAddr
  let reqEnd := reqStart + BitVec.ofNat 64 req.access.effSize
  let storeStart := store.effAddr
  let storeEnd := storeStart + BitVec.ofNat 64 store.effSize
  let storeHasLowerLimit := decide (storeStart ≤ reqStart)
  let storeHasUpperLimit := decide (reqEnd ≤ storeEnd)
  let lowerLoadHasStorePart := decide (reqStart < storeEnd)
  let upperLoadHasStorePart := decide (storeStart < reqEnd)
  if !isAtomic && storeHasLowerLimit && storeHasUpperLimit && !req.isLLSC then
    if isMasked then .partialAddrRangeCoverage else .fullAddrRangeCoverage
  else if
      (!req.isLLSC &&
        ((storeHasLowerLimit && lowerLoadHasStorePart) ||
          (storeHasUpperLimit && upperLoadHasStorePart) ||
          (lowerLoadHasStorePart && upperLoadHasStorePart))) ||
      (req.isLLSC &&
        ((storeHasLowerLimit || upperLoadHasStorePart) &&
          (storeHasUpperLimit || lowerLoadHasStorePart))) ||
      (isAtomic &&
        ((storeHasLowerLimit || upperLoadHasStorePart) &&
          (storeHasUpperLimit || lowerLoadHasStorePart))) then
    .partialAddrRangeCoverage
  else .noAddrRangeCoverage

def entryCoverage (req : LoadRequest) (stores : Nat → StoreRequest) (entry : SQEntry) :
    AddrRangeCoverage :=
  let store := stores entry.seqNum
  if store.strictlyOrdered || store.isCacheMaintenance then .noAddrRangeCoverage
  else addrRangeCoverage req entry.isAtomic store.isMasked ⟨store.effAddr, entry.size⟩

/-- What becomes of a load. -/
inductive ReadOutcome where
  /-- "Strictly ordered load": it faults and is tried again at commit. -/
  | strictlyOrdered
  | localAccess
  | transaction
  | memory
  | forwarded (memData : List Byte)
  | rescheduled
  deriving DecidableEq, Repr

namespace LSQUnit

def coverage (unit : LSQUnit) (req : LoadRequest) (stores : Nat → StoreRequest) (seqNum : Nat) :
    AddrRangeCoverage :=
  match unit.storeQueue.find? (·.seqNum = seqNum) with
  | none => .noAddrRangeCoverage
  | some entry => entryCoverage req stores entry

def forwardData (req : LoadRequest) (stores : Nat → StoreRequest) (entry : SQEntry) : List Byte :=
  let store := stores entry.seqNum
  let shiftAmt := (req.access.effAddr - store.effAddr).toNat
  (List.range req.access.effSize).map fun offset =>
    if store.storeNoData then 0
    else store.written entry.isAtomic entry.size (shiftAmt + offset)

def readRequest (config : Config) (unit : LSQUnit) (load : LQEntry) (loadIdx : Nat)
    (req : LoadRequest) (stores : Nat → StoreRequest) : Except Failure (LSQUnit × ReadOutcome) :=
  if req.isStrictlyOrdered && (loadIdx ≠ unit.loadHead || !req.isAtCommit) then
    .ok (unit, .strictlyOrdered)
  else if req.isLocalAccess then .ok (unit, .localAccess)
  else if (req.htmCmd = some .start || req.htmCmd = some .commit) && req.noAccess then
    .ok (unit, .transaction)
  else if load.sqIt < unit.storeWBIt then .error .storePassed
  else if load.isDataPrefetch then .ok (unit, .memory)
  else
    match unit.searchStores (unit.coverage req stores) (load.sqIt - unit.storeWBIt) with
    | .access => .ok (unit, .memory)
    | .forward entry => .ok (unit, .forwarded (forwardData req stores entry))
    | .stall entry =>
      if entry.completed then .error .checkedCompleted
      else (unit.stallLoad config load loadIdx entry).map (·, .rescheduled)

variable {config : Config} {unit : LSQUnit} {load : LQEntry} {loadIdx : Nat} {req : LoadRequest}
variable {stores : Nat → StoreRequest}

theorem readRequest_plain (plain : req.Plain) :
    unit.readRequest config load loadIdx req stores =
      if load.sqIt < unit.storeWBIt then .error .storePassed
      else if load.isDataPrefetch then .ok (unit, .memory)
      else
        match unit.searchStores (unit.coverage req stores) (load.sqIt - unit.storeWBIt) with
        | .access => .ok (unit, .memory)
        | .forward entry => .ok (unit, .forwarded (forwardData req stores entry))
        | .stall entry =>
          if entry.completed then .error .checkedCompleted
          else (unit.stallLoad config load loadIdx entry).map (·, .rescheduled) := by
  unfold readRequest
  rw [if_neg (by simp [plain.reordered]), if_neg (by simp [plain.remote]),
    if_neg (by simp [plain.noCommand])]

/-- The unit does what `LSQUnit.read` does with the computed coverage. -/
theorem readRequest_refines_read (plain : req.Plain) :
    (unit.readRequest config load loadIdx req stores).map Prod.fst =
      unit.read config load loadIdx (unit.coverage req stores) := by
  rw [readRequest_plain plain]
  unfold read
  split
  · rfl
  split
  · rfl
  cases unit.searchStores (unit.coverage req stores) (load.sqIt - unit.storeWBIt) with
  | access => rfl
  | forward entry => rfl
  | stall entry =>
    dsimp only
    split
    · rfl
    · cases unit.stallLoad config load loadIdx entry <;> rfl

end LSQUnit

/-! ## Coverage byte by byte -/

namespace Access

/-- The access has a byte, and the last byte of the address space is none of its own:
then the end that the code computes is behind the start. -/
structure Inner (access : Access) : Prop where
  nonempty : 0 < access.effSize
  below : access.effAddr.toNat + access.effSize < 2 ^ 64

def Overlaps (first second : Access) : Prop :=
  ∃ address, first.Covers address ∧ second.Covers address

def Includes (outer inner : Access) : Prop :=
  ∀ address, inner.Covers address → outer.Covers address

variable {first second : Access}

/-- The access ends with the last byte of the address space, and the end that the code
computes is zero. -/
def AtTop (access : Access) : Prop := access.effAddr.toNat + access.effSize = 2 ^ 64

theorem Inner.end_toNat (inner : first.Inner) :
    (first.effAddr + BitVec.ofNat 64 first.effSize).toNat =
      first.effAddr.toNat + first.effSize := by
  have below := inner.below
  rw [BitVec.toNat_add, BitVec.toNat_ofNat]
  omega

theorem AtTop.end_toNat (top : first.AtTop) :
    (first.effAddr + BitVec.ofNat 64 first.effSize).toNat = 0 := by
  unfold AtTop at top
  rw [BitVec.toNat_add, BitVec.toNat_ofNat]
  omega

theorem Fits.inner (fits : first.Fits) (below : ¬ first.AtTop) : first.Inner :=
  ⟨fits.nonempty, Nat.lt_of_le_of_ne fits.inside below⟩

theorem meets_iff (firstSome : 0 < first.effSize) (secondSome : 0 < second.effSize) :
    first.Overlaps second ↔ first.effAddr.toNat < second.effAddr.toNat + second.effSize ∧
      second.effAddr.toNat < first.effAddr.toNat + first.effSize := by
  constructor
  · rintro ⟨address, ⟨_, _⟩, ⟨_, _⟩⟩
    omega
  · rintro ⟨low, high⟩
    refine ⟨max first.effAddr.toNat second.effAddr.toNat, ⟨?_, ?_⟩, ⟨?_, ?_⟩⟩ <;> omega

theorem includes_iff (nonempty : 0 < second.effSize) :
    first.Includes second ↔ first.effAddr.toNat ≤ second.effAddr.toNat ∧
      second.effAddr.toNat + second.effSize ≤ first.effAddr.toNat + first.effSize := by
  constructor
  · intro includes
    have low := includes second.effAddr.toNat ⟨Nat.le_refl _, by omega⟩
    have high := includes (second.effAddr.toNat + second.effSize - 1) ⟨by omega, by omega⟩
    exact ⟨low.1, by have bound := high.2; omega⟩
  · rintro ⟨low, high⟩ address ⟨notBelow, notAbove⟩
    exact ⟨by omega, by omega⟩

end Access

/-- A store can give a load its data: it is neither masked nor atomic, it has all bytes of
the load, and the load is not load-linked. -/
def Forwards (req : LoadRequest) (isAtomic isMasked : Bool) (store : Access) : Prop :=
  isMasked = false ∧ isAtomic = false ∧ store.Includes req.access ∧ req.isLLSC = false

section Coverage

variable {req : LoadRequest} {isAtomic isMasked : Bool} {store : Access}

section

variable (reqInner : req.access.Inner)
include reqInner

/-- The comparisons of addresses are comparisons of numbers. -/
theorem addrRangeCoverage_none (storeInner : store.Inner) (apart : ¬ req.access.Overlaps store) :
    addrRangeCoverage req isAtomic isMasked store = .noAddrRangeCoverage := by
  rw [Access.meets_iff reqInner.nonempty storeInner.nonempty] at apart
  simp only [addrRangeCoverage, BitVec.le_def, BitVec.lt_def, reqInner.end_toNat,
    storeInner.end_toNat]
  have reqSome := reqInner.nonempty
  have storeSome := storeInner.nonempty
  generalize req.access.effAddr.toNat = reqStart at apart
  generalize store.effAddr.toNat = storeStart at apart
  generalize req.access.effSize = reqSize at apart reqSome
  generalize store.effSize = storeSize at apart storeSome
  -- The load starts behind the store or ends in front of it.
  rcases Nat.lt_or_ge reqStart (storeStart + storeSize) with front | behind
  · have upper : ¬ storeStart < reqStart + reqSize := fun upper => apart ⟨front, upper⟩
    have lower : ¬ storeStart ≤ reqStart := by omega
    simp [upper, lower]
  · have upper : ¬ reqStart + reqSize ≤ storeStart + storeSize := by omega
    have lower : ¬ reqStart < storeStart + storeSize := by omega
    simp [upper, lower]

theorem addrRangeCoverage_full (storeInner : store.Inner)
    (forwards : Forwards req isAtomic isMasked store) :
    addrRangeCoverage req isAtomic isMasked store = .fullAddrRangeCoverage := by
  obtain ⟨unmasked, plain, includes, notLLSC⟩ := forwards
  obtain ⟨lower, upper⟩ := (Access.includes_iff reqInner.nonempty).mp includes
  simp only [addrRangeCoverage, BitVec.le_def, BitVec.lt_def, reqInner.end_toNat,
    storeInner.end_toNat]
  simp [unmasked, plain, notLLSC, lower, upper]

theorem addrRangeCoverage_overlapping (storeInner : store.Inner)
    (together : req.access.Overlaps store) (stalls : ¬ Forwards req isAtomic isMasked store) :
    addrRangeCoverage req isAtomic isMasked store = .partialAddrRangeCoverage := by
  obtain ⟨lowerPart, upperPart⟩ := (Access.meets_iff reqInner.nonempty
    storeInner.nonempty).mp together
  unfold Forwards at stalls
  rw [Access.includes_iff reqInner.nonempty] at stalls
  simp only [addrRangeCoverage, BitVec.le_def, BitVec.lt_def, reqInner.end_toNat,
    storeInner.end_toNat]
  cases isAtomic with
  | true => simp [lowerPart, upperPart]
  | false =>
    cases llsc : req.isLLSC with
    | true => simp [lowerPart, upperPart]
    | false =>
      -- What is left is a masked store, or one that has only a part of the load.
      cases isMasked with
      | true => simp [lowerPart, upperPart]
      | false =>
        have outside : ¬ (store.effAddr.toNat ≤ req.access.effAddr.toNat ∧
            req.access.effAddr.toNat + req.access.effSize ≤ store.effAddr.toNat + store.effSize) :=
          fun inside => stalls ⟨rfl, rfl, inside, llsc⟩
        simp [lowerPart, upperPart, outside]

theorem inner_classified (storeInner : store.Inner) :
    (addrRangeCoverage req isAtomic isMasked store = .noAddrRangeCoverage ↔
      ¬ req.access.Overlaps store) ∧
    (addrRangeCoverage req isAtomic isMasked store = .fullAddrRangeCoverage →
      store.Includes req.access) := by
  by_cases forwards : Forwards req isAtomic isMasked store
  · have full := addrRangeCoverage_full reqInner storeInner forwards
    have includes := forwards.2.2.1
    refine ⟨iff_of_false (by rw [full]; decide) (not_not.mpr ?_), fun _ => includes⟩
    have covered : req.access.Covers req.access.effAddr.toNat :=
      ⟨Nat.le_refl _, Nat.lt_add_of_pos_right reqInner.nonempty⟩
    exact ⟨_, covered, includes _ covered⟩
  by_cases together : req.access.Overlaps store
  · rw [addrRangeCoverage_overlapping reqInner storeInner together forwards]
    exact ⟨iff_of_false (by decide) (not_not.mpr together), fun full => absurd full (by decide)⟩
  · rw [addrRangeCoverage_none reqInner storeInner together]
    exact ⟨iff_of_true rfl together, fun full => absurd full (by decide)⟩

end

/-- What a wrapped end does not lead astray. A load at the top needs a store that starts no
later: one at the top as well, or one that has its first byte and would not be forwarded. A
store at the top needs a load in front of it. -/
def Classifiable (req : LoadRequest) (isAtomic isMasked : Bool) (store : Access) : Prop :=
  (req.access.AtTop → store.effAddr.toNat ≤ req.access.effAddr.toNat ∧
    (store.AtTop ∨ req.access.effAddr.toNat < store.effAddr.toNat + store.effSize ∧
      (isMasked || isAtomic || req.isLLSC) = true)) ∧
  (store.AtTop → ¬ req.access.AtTop →
    req.access.effAddr.toNat + req.access.effSize ≤ store.effAddr.toNat)

/-- The exact condition on two accesses inside the address space under which the coverage is
none only for disjoint ranges, and full only for a store that has the whole load. -/
theorem addrRangeCoverage_classifies (reqFits : req.access.Fits) (storeFits : store.Fits) :
    ((addrRangeCoverage req isAtomic isMasked store = .noAddrRangeCoverage ↔
        ¬ req.access.Overlaps store) ∧
      (addrRangeCoverage req isAtomic isMasked store = .fullAddrRangeCoverage →
        store.Includes req.access)) ↔ Classifiable req isAtomic isMasked store := by
  have reqInside := reqFits.inside
  have storeInside := storeFits.inside
  have reqSome := reqFits.nonempty
  have storeSome := storeFits.nonempty
  by_cases reqTop : req.access.AtTop
  · rw [Access.meets_iff reqSome storeSome, Access.includes_iff reqSome]
    by_cases storeTop : store.AtTop
    · -- Two wrapped ends: only the comparison of the starts is left.
      simp only [addrRangeCoverage, BitVec.le_def, BitVec.lt_def, reqTop.end_toNat,
        storeTop.end_toNat, Classifiable, reqTop, storeTop]
      unfold Access.AtTop at reqTop storeTop
      cases isAtomic <;> cases isMasked <;> cases req.isLLSC <;> grind
    · -- The end of the load seems to be in front of that of the store.
      simp only [addrRangeCoverage, BitVec.le_def, BitVec.lt_def, reqTop.end_toNat,
        (storeFits.inner storeTop).end_toNat, Classifiable, reqTop, storeTop]
      unfold Access.AtTop at reqTop storeTop
      cases isAtomic <;> cases isMasked <;> cases req.isLLSC <;> grind
  · by_cases storeTop : store.AtTop
    · -- The store seems to end in front of the load, and the answer is always none.
      rw [Access.meets_iff reqSome storeSome, Access.includes_iff reqSome]
      simp only [addrRangeCoverage, BitVec.le_def, BitVec.lt_def,
        (reqFits.inner reqTop).end_toNat, storeTop.end_toNat, Classifiable, reqTop, storeTop]
      unfold Access.AtTop at reqTop storeTop
      cases isAtomic <;> cases isMasked <;> cases req.isLLSC <;> grind
    · exact iff_of_true (inner_classified (reqFits.inner reqTop) (storeFits.inner storeTop))
        ⟨fun top => absurd top reqTop, fun top => absurd top storeTop⟩

/-- A load below a store that ends at the top. -/
theorem top_store_classified :
    addrRangeCoverage { access := ⟨0x100, 4⟩ } false false ⟨0xFFFFFFFFFFFFFFF8, 8⟩ =
        .noAddrRangeCoverage ↔ ¬ Access.Overlaps ⟨0x100, 4⟩ ⟨0xFFFFFFFFFFFFFFF8, 8⟩ :=
  ((addrRangeCoverage_classifies ⟨by decide, by decide⟩ ⟨by decide, by decide⟩).mpr
    ⟨fun top => absurd top (by simp [Access.AtTop]), fun _ _ => by decide⟩).1

/-- The end of a load of the last bytes wraps to zero, in front of the end of each store. -/
theorem last_word_misclassified :
    Access.Fits ⟨0xFFFFFFFFFFFFFFF8, 8⟩ ∧ Access.Fits ⟨0xFFFFFFFFFFFFFFF0, 8⟩ ∧
      ¬ Access.Overlaps ⟨0xFFFFFFFFFFFFFFF8, 8⟩ ⟨0xFFFFFFFFFFFFFFF0, 8⟩ ∧
      addrRangeCoverage { access := ⟨0xFFFFFFFFFFFFFFF8, 8⟩ } false false
        ⟨0xFFFFFFFFFFFFFFF0, 8⟩ = .fullAddrRangeCoverage := by
  refine ⟨⟨by decide, by decide⟩, ⟨by decide, by decide⟩, ?_, by decide⟩
  rintro ⟨address, ⟨notBelow, -⟩, ⟨-, notAbove⟩⟩
  exact absurd (Nat.lt_of_le_of_lt notBelow notAbove) (by decide)

end Coverage

namespace LSQUnit

/-! ## The search -/

variable {config : Config} {unit : LSQUnit} {load : LQEntry} {loadIdx : Nat} {req : LoadRequest}
variable {stores : Nat → StoreRequest} {covers : Nat → AddrRangeCoverage}

def Skipped (covers : Nat → AddrRangeCoverage) (entry : SQEntry) : Prop :=
  entry.size = 0 ∨ covers entry.seqNum = .noAddrRangeCoverage

/-- The entry is the last one of the window that is not passed over. -/
structure Decides (unit : LSQUnit) (covers : Nat → AddrRangeCoverage) (distance : Nat)
    (entry : SQEntry) : Prop where
  inWindow : ∃ before < distance, unit.storeAt (unit.storeWBIt + before) = some entry ∧
    ∀ later other, before < later → later < distance →
      unit.storeAt (unit.storeWBIt + later) = some other → Skipped covers other
  sized : entry.size ≠ 0

def Filled (unit : LSQUnit) (distance : Nat) : Prop :=
  ∀ before < distance, ∃ entry, unit.storeAt (unit.storeWBIt + before) = some entry

variable {distance : Nat}

theorem searchStores_skipped
    (skipped : ∀ before < distance, ∀ entry,
      unit.storeAt (unit.storeWBIt + before) = some entry → Skipped covers entry) :
    unit.searchStores covers distance = .access := by
  induction distance with
  | zero => rfl
  | succ distance ih =>
    have earlier := ih fun before inside => skipped before (Nat.lt_succ_of_lt inside)
    unfold searchStores
    split
    · rfl
    case h_2 entry found =>
      rcases skipped distance (Nat.lt_succ_self _) entry found with empty | apart
      · rw [if_pos empty]
        exact earlier
      · split
        · exact earlier
        · rw [apart]
          exact earlier

variable {entry : SQEntry}

theorem searchStores_decided (filled : unit.Filled distance)
    (decides : unit.Decides covers distance entry) :
    (covers entry.seqNum = .fullAddrRangeCoverage →
      unit.searchStores covers distance = .forward entry) ∧
    (covers entry.seqNum = .partialAddrRangeCoverage →
      unit.searchStores covers distance = .stall entry) := by
  obtain ⟨⟨before, inside, found, skipped⟩, sized⟩ := decides
  induction distance with
  | zero => exact absurd inside (Nat.not_lt_zero _)
  | succ distance ih =>
    unfold searchStores
    rcases Nat.lt_or_ge before distance with earlier | last
    · obtain ⟨other, here⟩ := filled distance (Nat.lt_succ_self _)
      have rest := ih (fun position bound => filled position (Nat.lt_succ_of_lt bound)) earlier
        fun later other after bound => skipped later other after (Nat.lt_succ_of_lt bound)
      have passed := skipped distance other earlier (Nat.lt_succ_self _) here
      simp only [here]
      split
      · exact rest
      case isFalse sizedOther =>
        rw [passed.resolve_left sizedOther]
        exact rest
    · obtain rfl : before = distance := by omega
      simp only [found, if_neg sized]
      constructor
      · intro full
        rw [full]
      · intro part
        rw [part]

theorem skipped_or_decides (covers : Nat → AddrRangeCoverage) (filled : unit.Filled distance) :
    (∀ before < distance, ∀ entry, unit.storeAt (unit.storeWBIt + before) = some entry →
      Skipped covers entry) ∨ ∃ entry, unit.Decides covers distance entry ∧
        covers entry.seqNum ≠ .noAddrRangeCoverage := by
  induction distance with
  | zero => exact .inl fun before inside => absurd inside (Nat.not_lt_zero before)
  | succ distance ih =>
    obtain ⟨last, here⟩ := filled distance (Nat.lt_succ_self _)
    by_cases skipped : Skipped covers last
    · have inFront := ih fun before inside => filled before (Nat.lt_succ_of_lt inside)
      rcases inFront with all | ⟨entry, ⟨⟨before, inside, found, later⟩, sized⟩, covered⟩
      · left
        intro before inside entry found
        rcases Nat.lt_or_ge before distance with earlier | atEnd
        · exact all before earlier entry found
        · obtain rfl : before = distance := by omega
          obtain rfl := Option.some.inj (here.symm.trans found)
          exact skipped
      · refine .inr ⟨entry, ⟨⟨before, Nat.lt_succ_of_lt inside, found, ?_⟩, sized⟩, covered⟩
        intro position other after bound present
        rcases Nat.lt_or_ge position distance with earlier | atEnd
        · exact later position other after earlier present
        · obtain rfl : position = distance := by omega
          obtain rfl := Option.some.inj (here.symm.trans present)
          exact skipped
    · obtain ⟨sized, covered⟩ := not_or.mp skipped
      refine .inr ⟨last, ⟨⟨distance, Nat.lt_succ_self _, here, ?_⟩, sized⟩, covered⟩
      intro position other after bound
      omega

/-! ## The older stores from `storeWBIt` on -/

def accessOf (stores : Nat → StoreRequest) (entry : SQEntry) : Access :=
  ⟨(stores entry.seqNum).effAddr, entry.size⟩

structure Considered (unit : LSQUnit) (stores : Nat → StoreRequest) (load : LQEntry)
    (entry : SQEntry) : Prop where
  behind : entry ∈ unit.storeQueue.drop unit.passed
  older : entry.seqNum < load.seqNum
  sized : entry.size ≠ 0
  reordered : (stores entry.seqNum).strictlyOrdered = false
  data : (stores entry.seqNum).isCacheMaintenance = false

section Window

variable {entry : SQEntry}

theorem Inv.window (inv : unit.Inv) (member : load ∈ unit.loadQueue)
    (position : unit.storeWBIt ≤ load.sqIt) :
    (entry ∈ unit.storeQueue.drop unit.passed ∧ entry.seqNum < load.seqNum) ↔
      ∃ before < load.sqIt - unit.storeWBIt,
        unit.storeAt (unit.storeWBIt + before) = some entry := by
  have lower := inv.lower
  have separates := (inv.placed load member).separates
  constructor
  · rintro ⟨behind, older⟩
    obtain ⟨index, found⟩ := mem_iff_getElem?.mp behind
    rw [List.getElem?_drop] at found
    have side := (separates _ _ (by rw [List.getElem?_map, found]; rfl)).mpr older
    unfold passed at found side
    refine ⟨index, by omega, storeAt_eq_some.mpr ⟨by omega, ?_⟩⟩
    rw [← found]
    congr 1
    omega
  · rintro ⟨before, inside, found⟩
    obtain ⟨-, found⟩ := storeAt_eq_some.mp found
    have side := (separates _ _ (by rw [List.getElem?_map, found]; rfl)).mp (by omega)
    refine ⟨mem_iff_getElem?.mpr ⟨before, ?_⟩, side⟩
    rw [List.getElem?_drop, ← found]
    unfold passed
    congr 1
    omega

theorem Inv.filled (inv : unit.Inv) (member : load ∈ unit.loadQueue) :
    unit.Filled (load.sqIt - unit.storeWBIt) := by
  intro before inside
  have lower := inv.lower
  have bound := (inv.placed load member).inside
  rw [length_map] at bound
  have within : unit.storeWBIt + before - unit.storeHead < unit.storeQueue.length := by omega
  exact ⟨_, storeAt_eq_some.mpr ⟨by omega, List.getElem?_eq_getElem within⟩⟩

theorem Inv.coverage_eq (inv : unit.Inv) (member : entry ∈ unit.storeQueue) :
    unit.coverage req stores entry.seqNum = entryCoverage req stores entry := by
  unfold coverage
  split
  case h_1 missing =>
    exact absurd (decide_eq_true rfl) (find?_eq_none.mp missing entry member)
  case h_2 other found =>
    have holds := find?_some found
    have same : other.seqNum = entry.seqNum := of_decide_eq_true holds
    rw [ordered_unique inv.storesOrdered (mem_of_find?_eq_some found) member same]

theorem entryCoverage_considered (considered : unit.Considered stores load entry) :
    entryCoverage req stores entry =
      addrRangeCoverage req entry.isAtomic (stores entry.seqNum).isMasked
        (accessOf stores entry) := by
  unfold entryCoverage
  simp only [considered.reordered, considered.data, Bool.or_self, Bool.false_eq_true, ↓reduceIte]
  rfl

/-- The search passes over a store of the window unless it is considered and shares a
byte with the load. -/
theorem Inv.skipped_iff (inv : unit.Inv) (reqInner : req.access.Inner)
    (inner : ∀ entry, unit.Considered stores load entry → (accessOf stores entry).Inner)
    (behind : entry ∈ unit.storeQueue.drop unit.passed) (older : entry.seqNum < load.seqNum) :
    Skipped (unit.coverage req stores) entry ↔
      ¬ (unit.Considered stores load entry ∧ req.access.Overlaps (accessOf stores entry)) := by
  unfold Skipped
  rw [inv.coverage_eq (drop_subset _ _ behind)]
  by_cases considered : unit.Considered stores load entry
  · rw [entryCoverage_considered considered]
    have storeInner := inner entry considered
    by_cases together : req.access.Overlaps (accessOf stores entry)
    · refine ⟨fun skipped => ?_, fun apart => absurd ⟨considered, together⟩ apart⟩
      have covered : addrRangeCoverage req entry.isAtomic (stores entry.seqNum).isMasked
          (accessOf stores entry) ≠ .noAddrRangeCoverage := by
        by_cases forwards : Forwards req entry.isAtomic (stores entry.seqNum).isMasked
            (accessOf stores entry)
        · rw [addrRangeCoverage_full reqInner storeInner forwards]
          decide
        · rw [addrRangeCoverage_overlapping reqInner storeInner together forwards]
          decide
      exact absurd skipped (not_or.mpr ⟨considered.sized, covered⟩)
    · exact ⟨fun _ both => together both.2,
        fun _ => .inr (addrRangeCoverage_none reqInner storeInner together)⟩
  · refine ⟨fun _ both => considered both.1, fun _ => ?_⟩
    by_cases empty : entry.size = 0
    · exact .inl empty
    · refine .inr (if_pos ?_)
      rw [Bool.or_eq_true, ← Bool.not_eq_false, ← Bool.not_eq_false]
      by_contra kept
      obtain ⟨reordered, data⟩ := not_or.mp kept
      exact considered ⟨behind, older, empty, not_not.mp reordered, not_not.mp data⟩

end Window

def bytesFor (req : LoadRequest) (store : StoreRequest) : List Byte :=
  (List.range req.access.effSize).map fun offset =>
    store.byte (req.access.effAddr.toNat + offset - store.effAddr.toNat)

theorem forwardData_eq (considered : unit.Considered stores load entry)
    (reqInner : req.access.Inner)
    (forwards : Forwards req entry.isAtomic (stores entry.seqNum).isMasked
      (accessOf stores entry)) :
    forwardData req stores entry = bytesFor req (stores entry.seqNum) := by
  obtain ⟨-, notAtomic, includes, -⟩ := forwards
  obtain ⟨lower, upper⟩ := (Access.includes_iff reqInner.nonempty).mp includes
  have lower : (stores entry.seqNum).effAddr.toNat ≤ req.access.effAddr.toNat := lower
  have upper : req.access.effAddr.toNat + req.access.effSize ≤
    (stores entry.seqNum).effAddr.toNat + entry.size := upper
  have maintenance := considered.data
  obtain ⟨unclean, valid⟩ := Bool.or_eq_false_iff.mp maintenance
  have shift : (req.access.effAddr - (stores entry.seqNum).effAddr).toNat =
      req.access.effAddr.toNat - (stores entry.seqNum).effAddr.toNat := by
    rw [BitVec.toNat_sub]
    omega
  refine map_congr_left fun offset member => ?_
  have inside := mem_range.mp member
  have place : (req.access.effAddr - (stores entry.seqNum).effAddr).toNat + offset =
      req.access.effAddr.toNat + offset - (stores entry.seqNum).effAddr.toNat := by omega
  have copied : req.access.effAddr.toNat + offset - (stores entry.seqNum).effAddr.toNat <
      entry.size := by omega
  rw [place]
  unfold StoreRequest.storeNoData StoreRequest.written StoreRequest.byte
  cases (stores entry.seqNum).cacheBlockZero with
  | true => simp
  | false =>
    simp [unclean, valid, StoreRequest.isCacheMaintenance, notAtomic, copied]

theorem stallLoad_ok
    (stalling : unit.stalled = true → ∃ other,
      unit.loadSlot config unit.stallingLoadIdx = some other) :
    ∃ next, unit.stallLoad config load loadIdx entry = .ok next := by
  unfold stallLoad
  split
  · exact ⟨_, rfl⟩
  case isFalse stalled =>
    obtain ⟨other, found⟩ := stalling (by simpa using stalled)
    rw [found]
    dsimp only
    split
    · exact ⟨_, rfl⟩
    · exact ⟨_, rfl⟩

theorem Inv.storeAt_ordered (inv : unit.Inv) {first second : Nat} {older younger : SQEntry}
    (before : first < second) (firstFound : unit.storeAt first = some older)
    (secondFound : unit.storeAt second = some younger) : older.seqNum < younger.seqNum := by
  obtain ⟨lower, firstFound⟩ := storeAt_eq_some.mp firstFound
  obtain ⟨-, secondFound⟩ := storeAt_eq_some.mp secondFound
  obtain ⟨firstBound, rfl⟩ := List.getElem?_eq_some_iff.mp firstFound
  obtain ⟨secondBound, rfl⟩ := List.getElem?_eq_some_iff.mp secondFound
  exact pairwise_iff_getElem.mp inv.storesOrdered _ _ firstBound secondBound (by omega)

theorem readRequest_decided (loadIdx : Nat) (inv : unit.Inv)
    (member : load ∈ unit.loadQueue) (position : unit.storeWBIt ≤ load.sqIt) (plain : req.Plain)
    (notPrefetch : load.isDataPrefetch = false) (reqInner : req.access.Inner)
    (storeInner : (accessOf stores entry).Inner)
    (stalling : unit.stalled = true → ∃ other,
      unit.loadSlot config unit.stallingLoadIdx = some other)
    (considered : unit.Considered stores load entry)
    (together : req.access.Overlaps (accessOf stores entry))
    (decides : unit.Decides (unit.coverage req stores) (load.sqIt - unit.storeWBIt) entry) :
    (Forwards req entry.isAtomic (stores entry.seqNum).isMasked (accessOf stores entry) →
      unit.readRequest config load loadIdx req stores =
        .ok (unit, .forwarded (bytesFor req (stores entry.seqNum)))) ∧
    (¬ Forwards req entry.isAtomic (stores entry.seqNum).isMasked (accessOf stores entry) →
      ∃ next, unit.readRequest config load loadIdx req stores = .ok (next, .rescheduled)) := by
  have covers : unit.coverage req stores entry.seqNum =
      addrRangeCoverage req entry.isAtomic (stores entry.seqNum).isMasked (accessOf stores entry) :=
    (inv.coverage_eq (drop_subset _ _ considered.behind)).trans
      (entryCoverage_considered considered)
  obtain ⟨forward, stall⟩ := searchStores_decided (inv.filled member) decides
  rw [readRequest_plain plain, if_neg (Nat.not_lt.mpr position), if_neg (by simp [notPrefetch])]
  constructor
  · intro forwards
    have full := covers.trans (addrRangeCoverage_full reqInner storeInner forwards)
    rw [forward full]
    dsimp only
    rw [forwardData_eq considered reqInner forwards]
  · intro stalls
    have part := covers.trans (addrRangeCoverage_overlapping reqInner storeInner together stalls)
    obtain ⟨next, stalled⟩ : ∃ next, unit.stallLoad config load loadIdx entry = .ok next :=
      stallLoad_ok stalling
    rw [stall part]
    dsimp only
    rw [if_neg (by simp [(inv.unsent entry considered.behind).2]), stalled]
    exact ⟨next, rfl⟩

/-- A load goes to memory exactly if no older store from `storeWBIt` on shares a byte
with it; otherwise the youngest such store forwards its bytes or holds the load back. -/
theorem store_load_forwarding (inv : unit.Inv) (member : load ∈ unit.loadQueue)
    (position : unit.storeWBIt ≤ load.sqIt) (plain : req.Plain)
    (notPrefetch : load.isDataPrefetch = false) (reqInner : req.access.Inner)
    (inner : ∀ entry, unit.Considered stores load entry → (accessOf stores entry).Inner)
    (stalling : unit.stalled = true → ∃ other,
      unit.loadSlot config unit.stallingLoadIdx = some other) :
    (unit.readRequest config load loadIdx req stores = .ok (unit, .memory) ↔
      ∀ entry, unit.Considered stores load entry → ¬ req.access.Overlaps (accessOf stores entry)) ∧
    ∀ entry, unit.Considered stores load entry → req.access.Overlaps (accessOf stores entry) →
      (∀ other, unit.Considered stores load other → req.access.Overlaps (accessOf stores other) →
        other.seqNum ≤ entry.seqNum) →
      (Forwards req entry.isAtomic (stores entry.seqNum).isMasked (accessOf stores entry) →
        unit.readRequest config load loadIdx req stores =
          .ok (unit, .forwarded (bytesFor req (stores entry.seqNum)))) ∧
      (¬ Forwards req entry.isAtomic (stores entry.seqNum).isMasked (accessOf stores entry) →
        ∃ next, unit.readRequest config load loadIdx req stores = .ok (next, .rescheduled)) := by
  have window : ∀ entry, (entry ∈ unit.storeQueue.drop unit.passed ∧
      entry.seqNum < load.seqNum) ↔ ∃ before < load.sqIt - unit.storeWBIt,
        unit.storeAt (unit.storeWBIt + before) = some entry :=
    fun _ => inv.window member position
  have skipped : ∀ before < load.sqIt - unit.storeWBIt, ∀ entry,
      unit.storeAt (unit.storeWBIt + before) = some entry →
      (Skipped (unit.coverage req stores) entry ↔
        ¬ (unit.Considered stores load entry ∧
          req.access.Overlaps (accessOf stores entry))) := by
    intro before inside entry found
    obtain ⟨behind, older⟩ := (window entry).mpr ⟨before, inside, found⟩
    exact inv.skipped_iff reqInner inner behind older
  constructor
  · constructor
    · intro accessed entry considered together
      rcases skipped_or_decides (unit.coverage req stores) (inv.filled member) with
        all | ⟨deciding, decides, covered⟩
      · obtain ⟨before, inside, found⟩ := (window entry).mp ⟨considered.behind, considered.older⟩
        exact (skipped before inside entry found).mp (all before inside entry found)
          ⟨considered, together⟩
      · obtain ⟨before, inside, found, -⟩ := decides.inWindow
        have kept := mt (skipped before inside deciding found).mpr
          (not_or.mpr ⟨decides.sized, covered⟩)
        obtain ⟨considered, together⟩ := not_not.mp kept
        obtain ⟨forward, stall⟩ := readRequest_decided loadIdx inv member position
          plain notPrefetch reqInner (inner deciding considered) stalling considered
            together decides
        by_cases forwards : Forwards req deciding.isAtomic (stores deciding.seqNum).isMasked
            (accessOf stores deciding)
        · cases (forward forwards).symm.trans accessed
        · obtain ⟨next, rescheduled⟩ := stall forwards
          cases rescheduled.symm.trans accessed
    · intro apart
      have nothing : unit.searchStores (unit.coverage req stores)
          (load.sqIt - unit.storeWBIt) = .access := by
        refine searchStores_skipped fun before inside entry found => ?_
        exact (skipped before inside entry found).mpr fun both => apart entry both.1 both.2
      rw [readRequest_plain plain, if_neg (Nat.not_lt.mpr position),
        if_neg (by simp [notPrefetch]), nothing]
  · intro entry considered together youngest
    obtain ⟨before, inside, found⟩ := (window entry).mp ⟨considered.behind, considered.older⟩
    refine readRequest_decided loadIdx inv member position plain notPrefetch reqInner
      (inner entry considered) stalling considered together ⟨⟨before, inside, found, ?_⟩,
        considered.sized⟩
    intro later other after bound present
    refine (skipped later bound other present).mpr fun both => ?_
    have older := youngest other both.1 both.2
    have younger := inv.storeAt_ordered (Nat.add_lt_add_left after _) found present
    omega

section Example

open Library

def storeEntry (seqNum : Nat) : SQEntry := { seqNum := seqNum, size := 8 }

variable (isDataPrefetch : Bool)

def wordLoad : LQEntry :=
  { seqNum := 5, isDataPrefetch := isDataPrefetch, sqIt := 3 }

def twoStores : LSQUnit :=
  { storeQueue := [storeEntry 2, storeEntry 4], loadQueue := [wordLoad isDataPrefetch]
    loads := 1, stores := 2 }

def storeOf (seqNum : Nat) : StoreRequest :=
  { effAddr := 0x100, data := fun _ => BitVec.ofNat 8 seqNum, stale := fun _ => 0 }

def wordRequest : LoadRequest := { access := ⟨0x104, 4⟩ }

theorem twoStores_reached :
    Reaches (step fourEntries) anyEvent {} (twoStores isDataPrefetch) := by
  obtain ⟨unit, reached, observed⟩ := reaches_of_observed (step fourEntries) anyEvent {}
    [.insertStore { seqNum := 2 }, .insertStore { seqNum := 4 }, .insertLoad 5 isDataPrefetch,
      .executeStore 2 8, .executeStore 4 8]
    (fun unit => decide (unit = twoStores isDataPrefetch)) (by cases isDataPrefetch <;> decide)
  rw [← of_decide_eq_true observed]
  exact reached

theorem storeEntry_inner (seqNum : Nat) : (accessOf storeOf (storeEntry seqNum)).Inner :=
  ⟨Nat.succ_pos _, by simp [accessOf, storeOf, storeEntry]⟩

theorem twoStores_entries {isDataPrefetch : Bool} {entry : SQEntry}
    (considered : (twoStores isDataPrefetch).Considered storeOf load entry) :
    entry = storeEntry 2 ∨ entry = storeEntry 4 := by
  have member := drop_subset _ _ considered.behind
  simpa [twoStores] using member

theorem twoStores_youngest :
    (twoStores isDataPrefetch).Considered storeOf (wordLoad isDataPrefetch) (storeEntry 4) ∧
      wordRequest.access.Overlaps (accessOf storeOf (storeEntry 4)) :=
  ⟨⟨by cases isDataPrefetch <;> decide, by simp [wordLoad, storeEntry], by decide, rfl, rfl⟩,
    0x104, by decide, by decide⟩

/-- The load gets the bytes of the younger store. -/
theorem store_load_forwarding_twoStores :
    (twoStores false).readRequest fourEntries (wordLoad false) 1 wordRequest storeOf =
      .ok (twoStores false, .forwarded (bytesFor wordRequest (storeOf 4))) ∧
    bytesFor wordRequest (storeOf 4) = [4, 4, 4, 4] := by
  refine ⟨?_, by decide⟩
  have inv := (reachable_consistent (twoStores_reached false)).inv
  obtain ⟨considered, together⟩ := twoStores_youngest false
  refine ((store_load_forwarding inv (by decide) (by decide) ⟨rfl, rfl, rfl⟩ rfl
    ⟨by decide, by decide⟩ ?_ (fun stalled => absurd stalled Bool.false_ne_true)).2
    (storeEntry 4) considered together ?_).1 ⟨rfl, rfl, ?_, rfl⟩
  · intro entry considered
    rcases twoStores_entries considered with rfl | rfl
    · exact storeEntry_inner 2
    · exact storeEntry_inner 4
  · intro other considered _
    rcases twoStores_entries considered with rfl | rfl
    · decide
    · decide
  · exact (Access.includes_iff (by decide)).mpr (by decide)

/-- The first load waits for the store with number 3. It is tried again before that store
is sent, gets its data from the store with number 4, and commits. -/
def forgottenLoad : List LsqEvent :=
  [.insertStore { seqNum := 3 }, .insertStore { seqNum := 4 }, .insertLoad 5 false,
    .insertLoad 7 false, .executeStore 3 8,
    .executeLoad 1 fun _ => .partialAddrRangeCoverage, .executeStore 4 8,
    .executeLoad 1 fun _ => .fullAddrRangeCoverage, .commit 5]

def halfCovering (seqNum : Nat) : StoreRequest :=
  { storeOf seqNum with effAddr := if seqNum = 3 then 0x100 else 0x104 }

/-- A data prefetch goes to memory although a store has its bytes, a load that is to be
rescheduled is compared with a load that has left the queue, and the assertion on the
position fails for a load that an atomic has overtaken. -/
theorem store_load_forwarding_fails :
    (∃ unit, Reaches (step fourEntries) anyEvent {} unit ∧ ∃ load ∈ unit.loadQueue,
      unit.readRequest fourEntries load 1 wordRequest storeOf = .ok (unit, .memory) ∧
      ∃ entry, unit.Considered storeOf load entry ∧
        wordRequest.access.Overlaps (accessOf storeOf entry)) ∧
    (∃ unit, Reaches (step fourEntries) anyEvent {} unit ∧ ∃ load ∈ unit.loadQueue,
      unit.readRequest fourEntries load 2 { access := ⟨0x108, 8⟩ } halfCovering =
        .error .noInstruction) ∧
    ∃ unit, Reaches (step fourEntries) anyEvent {} unit ∧ ∃ load ∈ unit.loadQueue,
      (∀ entry, ¬ unit.Considered storeOf load entry) ∧
      unit.readRequest fourEntries load 1 wordRequest storeOf = .error .storePassed := by
  refine ⟨?_, ?_, ?_⟩
  · obtain ⟨considered, together⟩ := twoStores_youngest true
    exact ⟨twoStores true, twoStores_reached true, wordLoad true, by decide, rfl,
      storeEntry 4, considered, together⟩
  · obtain ⟨unit, reached, observed⟩ := reaches_of_observed (step fourEntries) anyEvent {}
      forgottenLoad (fun unit => unit.loadQueue.any fun load => decide
        (unit.readRequest fourEntries load 2 { access := ⟨0x108, 8⟩ } halfCovering = .error
          .noInstruction))
      (by decide +kernel)
    obtain ⟨load, member, failed⟩ := any_eq_true.mp observed
    exact ⟨unit, reached, load, member, of_decide_eq_true failed⟩
  · obtain ⟨unit, reached, observed⟩ := reaches_of_observed (step fourEntries) anyEvent {}
      earlyAtomic (fun unit => unit.loadQueue.any fun load => decide
        ((∀ entry ∈ unit.storeQueue, load.seqNum < entry.seqNum) ∧
          unit.readRequest fourEntries load 1 wordRequest storeOf = .error .storePassed))
            (by decide +kernel)
    obtain ⟨load, member, failed⟩ := any_eq_true.mp observed
    obtain ⟨younger, failed⟩ := of_decide_eq_true failed
    refine ⟨unit, reached, load, member, fun entry considered => ?_, failed⟩
    exact Nat.lt_asymm considered.older (younger entry (drop_subset _ _ considered.behind))

end Example

end LSQUnit

end Runahead.O3.Lsq
