import Runahead.O3.LsqUnitOrder

/-!
# Replay of rescheduled loads

A load that a store covers only in part goes back to the memory dependence unit,
and so does a strictly ordered load that is not at the head of the ROB. The unit
keeps both in one list and replays the whole list at once: when the store that
the load/store queue is stalled on is sent or completed, and when commit lets a
strictly ordered load go ahead.
-/

set_option autoImplicit false

namespace Runahead.O3.Lsq

open Library List

structure RescheduledInst where
  seqNum : Nat
  strictlyOrdered : Bool
  deriving DecidableEq, Repr

namespace LSQUnit

/-- `read` reschedules the load for a store that covers it in part. -/
def reschedules (unit : LSQUnit) (load : LQEntry) (coverage : Nat → AddrRangeCoverage) : Bool :=
  !load.isDataPrefetch &&
    match unit.searchStores coverage (load.sqIt - unit.storeWBIt) with
    | .stall _ => true
    | _ => false

def Outstanding (unit : LSQUnit) (seqNum : Nat) : Prop :=
  ∃ store ∈ unit.storeQueue, store.seqNum = seqNum ∧ store.isSent = false ∧ store.completed = false

end LSQUnit

/-- The queue unit and the list of the memory dependence unit. `replayed` are the
loads that the last event has replayed; `failed` says that the replay has used the
instruction of an empty slot. -/
structure ReplayRun where
  unit : LSQUnit := {}
  instsToReplay : List RescheduledInst := []
  replayed : List Nat := []
  failed : Bool := false
  deriving DecidableEq, Repr

inductive ReplayEvent where
  | lsq (event : LsqEvent)
  /-- A strictly ordered load executes before it is at the head of the ROB. -/
  | strictlyOrdered (loadIdx : Nat)
  /-- Commit lets the strictly ordered load at the head of the ROB go ahead. -/
  | replayStrictlyOrdered

namespace ReplayRun

variable (run : ReplayRun)

def partialHits : List Nat :=
  (run.instsToReplay.filter (!·.strictlyOrdered)).map (·.seqNum)

def reschedule (seqNum : Nat) (strictlyOrdered : Bool) : ReplayRun :=
  { run with instsToReplay := run.instsToReplay ++ [⟨seqNum, strictlyOrdered⟩] }

def replay : ReplayRun :=
  { run with instsToReplay := [], replayed := run.instsToReplay.map (·.seqNum) }

/-- `replayMemInst` finds the memory dependence unit through the stalling load. -/
def replayMemInst (config : Config) (run : ReplayRun) (loadIdx : Nat) : ReplayRun :=
  if (run.unit.loadSlot config loadIdx).isSome then run.replay else { run with failed := true }

def squashReplay (squashedNum : Nat) : ReplayRun :=
  { run with instsToReplay := run.instsToReplay.filter (·.seqNum ≤ squashedNum) }

/-- What an event of the queue unit means for the list, given the unit after it. -/
def observe (config : Config) (run : ReplayRun) (next : LSQUnit) : LsqEvent → ReplayRun
  | .executeLoad loadIdx coverage =>
    match run.unit.loadAt loadIdx with
    | none => { run with unit := next }
    | some load =>
      if run.unit.reschedules load coverage then
        { run with unit := next }.reschedule load.seqNum false
      else { run with unit := next }
  | .squash squashedNum => { run with unit := next }.squashReplay squashedNum
  | .writebackStore _ | .retry _ | .complete _ =>
    if run.unit.stalled && !next.stalled then
      { run.replayMemInst config run.unit.stallingLoadIdx with unit := next }
    else { run with unit := next }
  | _ => { run with unit := next }

def step (config : Config) (run : ReplayRun) (event : ReplayEvent) : Option ReplayRun :=
  let run := { run with replayed := [] }
  if run.failed then none
  else
    match event with
    | .lsq event => (run.unit.step config event).map fun next => run.observe config next event
    | .strictlyOrdered loadIdx =>
      (run.unit.loadAt loadIdx).map fun load => run.reschedule load.seqNum true
    | .replayStrictlyOrdered => some run.replay

/-- What the other stages guarantee: a load executes only when it is not in the list,
nothing commits at or behind a load that has not executed, and commit lets a
strictly ordered load go ahead when it is the oldest one and all stores are
written back. -/
def scheduled : ReplayEvent → Bool
  | .lsq (.executeLoad loadIdx _) | .strictlyOrdered loadIdx =>
    (run.unit.loadAt loadIdx).all fun load => run.instsToReplay.all (·.seqNum ≠ load.seqNum)
  | .lsq (.commit youngestInst) => run.instsToReplay.all (youngestInst < ·.seqNum)
  | .replayStrictlyOrdered =>
    run.unit.storesToWB = 0 && run.unit.loadQueue.head?.any fun load =>
      run.instsToReplay.contains ⟨load.seqNum, true⟩
  | _ => true

/-- A strictly ordered load goes ahead only when no other load waits for a store. -/
def replaysAlone (event : ReplayEvent) : Bool :=
  run.scheduled event &&
    match event with
    | .replayStrictlyOrdered => run.partialHits.isEmpty
    | _ => true

/-! ## Waiting loads -/

variable {config : Config} {run next : ReplayRun} {unit : LSQUnit}

/-- The load of the stall is the oldest of the waiting loads, and its store is older
still. -/
structure Stall (unit : LSQUnit) (waiting : List Nat) : Prop where
  store : unit.Outstanding unit.stallingStoreIsn
  load : ∃ load, unit.loadAt unit.stallingLoadIdx = some load ∧ load.seqNum ∈ waiting ∧
    unit.stallingStoreIsn < load.seqNum ∧ ∀ seqNum ∈ waiting, load.seqNum ≤ seqNum

structure Inv (run : ReplayRun) : Prop where
  consistent : run.unit.Consistent
  alive : run.failed = false
  present : ∀ inst ∈ run.instsToReplay, ∃ index load,
    run.unit.loadAt index = some load ∧ load.seqNum = inst.seqNum
  idle : run.unit.stalled = false → run.partialHits = []
  stall : run.unit.stalled = true → Stall run.unit run.partialHits

/-- The loads that wait for the store of the stall are replayed or squashed, or the
store is still neither sent nor completed. -/
def Settles (run next : ReplayRun) : Prop :=
  next.unit.Outstanding run.unit.stallingStoreIsn ∨
    ∀ load ∈ run.partialHits, load ∈ next.replayed ∨
      ∀ entry ∈ next.unit.loadQueue, entry.seqNum ≠ load

variable {after : LSQUnit} {seqNum loadIdx : Nat}

theorem outstanding_stays
    (outstanding : unit.Outstanding seqNum) (kept : LSQUnit.StoreStays unit after seqNum) :
    after.Outstanding seqNum := by
  obtain ⟨store, member, number, unsent, uncompleted⟩ := outstanding
  obtain ⟨entry, inside, same, unfinished, sent, -⟩ := kept store member number uncompleted
  exact ⟨entry, inside, same, sent.trans unsent, unfinished⟩

theorem mem_partialHits :
    seqNum ∈ run.partialHits ↔ ⟨seqNum, false⟩ ∈ run.instsToReplay := by
  constructor
  · intro member
    obtain ⟨inst, waiting, rfl⟩ := mem_map.mp member
    obtain ⟨inside, hit⟩ := mem_filter.mp waiting
    have hit : inst.strictlyOrdered = false := by simpa using hit
    exact hit ▸ inside
  · intro member
    exact mem_map.mpr ⟨_, mem_filter.mpr ⟨member, rfl⟩, rfl⟩

variable {stays : Nat → Prop}

theorem Stall.keep {waiting : List Nat}
    (stall : Stall unit waiting) (kept : LSQUnit.StallStays unit after)
    (loads : LSQUnit.LoadsStay unit after stays) (stay : ∀ seqNum ∈ waiting, stays seqNum) :
    Stall after waiting := by
  obtain ⟨load, found, member, younger, oldest⟩ := stall.load
  refine ⟨kept.stallingStoreIsn.symm ▸ outstanding_stays stall.store kept.store, load, ?_,
    member, ?_, oldest⟩
  · rw [kept.stallingLoadIdx]
    exact loads _ load found (stay load.seqNum member)
  · rw [kept.stallingStoreIsn]
    exact younger

theorem Inv.keep (inv : run.Inv)
    (consistent : after.Consistent) (kept : LSQUnit.StallStaysOrEnds run.unit after)
    (ended : after.stalled = false → run.unit.stalled = false)
    (loads : LSQUnit.LoadsStay run.unit after stays)
    (stay : ∀ inst ∈ run.instsToReplay, stays inst.seqNum) :
    Inv { run with unit := after } where
  consistent := consistent
  alive := inv.alive
  present := by
    intro inst member
    obtain ⟨index, load, found, same⟩ := inv.present inst member
    exact ⟨index, load, loads index load found (same ▸ stay inst member), same⟩
  idle := fun idle => inv.idle (ended idle)
  stall := by
    intro stalled
    have same := kept stalled
    refine (inv.stall (same.stalled.symm.trans stalled)).keep same loads ?_
    exact fun _ member => stay _ (mem_partialHits.mp member)

theorem Inv.untouched (inv : run.Inv)
    (consistent : after.Consistent) (kept : LSQUnit.StallStays run.unit after)
    (loads : LSQUnit.LoadsStay run.unit after stays)
    (stay : ∀ inst ∈ run.instsToReplay, stays inst.seqNum) :
    Inv { run with unit := after } ∧
      (run.unit.stalled = true → Settles run { run with unit := after }) := by
  refine ⟨inv.keep consistent (fun _ => kept) (fun idle => kept.stalled.symm.trans idle) loads
    stay, fun stalled => ?_⟩
  exact .inl (outstanding_stays (inv.stall stalled).store kept.store)

theorem Inv.replay (inv : run.Inv) (consistent : after.Consistent)
    (idle : after.stalled = false) : Inv { run.replay with unit := after } where
  consistent := consistent
  alive := inv.alive
  present := fun _ member => absurd member not_mem_nil
  idle := fun _ => rfl
  stall := fun stalled => clash idle stalled

theorem settles_replay (run : ReplayRun) (after : LSQUnit) :
    Settles run { run.replay with unit := after } := by
  refine .inr fun load member => .inl ?_
  exact mem_map_of_mem (mem_partialHits.mp member)

variable {load : LQEntry}

theorem loadSlot_of_loadAt
    (found : unit.loadAt loadIdx = some load) : unit.loadSlot config loadIdx = some load := by
  rw [LSQUnit.loadSlot, found, Option.some_or]

theorem Inv.written (inv : run.Inv) (consistent : after.Consistent)
    (kept : LSQUnit.StallStaysOrEnds run.unit after)
    (loads : LSQUnit.LoadsStay run.unit after fun _ => True) :
    let final := if run.unit.stalled && !after.stalled then
      { run.replayMemInst config run.unit.stallingLoadIdx with unit := after }
      else { run with unit := after }
    final.Inv ∧ (run.unit.stalled = true → Settles run final) := by
  intro final
  cases stalled : after.stalled with
  | true =>
    have same : final = { run with unit := after } := by
      refine if_neg ?_
      simp [stalled]
    rw [same]
    exact inv.untouched consistent (kept stalled) loads fun _ _ => trivial
  | false =>
    cases before : run.unit.stalled with
    | false =>
      have same : final = { run with unit := after } := by
        refine if_neg ?_
        simp [before]
      rw [same]
      refine ⟨inv.keep consistent kept (fun _ => before) loads fun _ _ => trivial, ?_⟩
      exact fun absurdity => absurd absurdity Bool.false_ne_true
    | true =>
      obtain ⟨load, found, -⟩ := (inv.stall before).load
      have same : final = { run.replay with unit := after } := by
        have ends : (run.unit.stalled && !after.stalled) = true := by simp [before, stalled]
        refine (if_pos ends).trans ?_
        unfold replayMemInst
        rw [loadSlot_of_loadAt found]
        rfl
      rw [same]
      exact ⟨inv.replay consistent stalled, fun _ => settles_replay run after⟩

/-! ### Execution of a load -/

/-- What `read` does when it reschedules the load, and that it does nothing otherwise. -/
theorem read_reschedules {coverage : Nat → AddrRangeCoverage}
    (present : unit.stalled = true → ∃ stalling, unit.loadAt unit.stallingLoadIdx = some stalling)
    (executed : unit.read config load loadIdx coverage = .ok after) :
    (unit.reschedules load coverage = false ∧ after = unit) ∨
    (unit.reschedules load coverage = true ∧ ∃ index store, unit.storeWBIt ≤ index ∧
      index < load.sqIt ∧ unit.storeAt index = some store ∧
      ((after = { unit with
          stalled := true, stallingStoreIsn := store.seqNum, stallingLoadIdx := loadIdx } ∧
          (unit.stalled = true → ∃ stalling,
            unit.loadAt unit.stallingLoadIdx = some stalling ∧ load.seqNum < stalling.seqNum)) ∨
        (after = unit ∧ unit.stalled = true ∧ ∃ stalling,
          unit.loadAt unit.stallingLoadIdx = some stalling ∧
            stalling.seqNum ≤ load.seqNum))) := by
  unfold LSQUnit.read at executed
  unfold LSQUnit.reschedules
  split at executed
  · cases executed
  split at executed
  case isTrue isDataPrefetch =>
    refine .inl ⟨?_, (Except.ok.inj executed).symm⟩
    rw [isDataPrefetch]
    rfl
  case isFalse demand =>
    have demand : load.isDataPrefetch = false := Bool.eq_false_iff.mpr demand
    rw [demand]
    split at executed
    case h_1 result =>
      rw [result]
      exact .inl ⟨rfl, (Except.ok.inj executed).symm⟩
    case h_2 result =>
      rw [result]
      exact .inl ⟨rfl, (Except.ok.inj executed).symm⟩
    case h_3 store result =>
      rw [result]
      obtain ⟨before, bound, found⟩ := LSQUnit.searchStores_stall result
      split at executed
      · cases executed
      refine .inr ⟨rfl, unit.storeWBIt + before, store, Nat.le_add_right _ _, by omega, found, ?_⟩
      unfold LSQUnit.stallLoad at executed
      split at executed
      case isTrue free =>
        have free : unit.stalled = false := by simpa using free
        refine .inl ⟨(Except.ok.inj executed).symm, fun stalled => ?_⟩
        exact clash free stalled
      case isFalse stalled =>
        have stalled : unit.stalled = true := by simpa using stalled
        obtain ⟨stalling, waiting⟩ := present stalled
        rw [loadSlot_of_loadAt waiting] at executed
        dsimp only at executed
        split at executed
        case isTrue older =>
          exact .inl ⟨(Except.ok.inj executed).symm, fun _ => ⟨stalling, waiting, older⟩⟩
        case isFalse younger =>
          exact .inr ⟨(Except.ok.inj executed).symm, stalled, stalling, waiting,
            Nat.not_lt.mp younger⟩

theorem partialHits_reschedule (run : ReplayRun) (seqNum : Nat) :
    (run.reschedule seqNum false).partialHits = run.partialHits ++ [seqNum] := by
  simp [partialHits, reschedule]

theorem partialHits_rescheduleStrictly (run : ReplayRun) (seqNum : Nat) :
    (run.reschedule seqNum true).partialHits = run.partialHits := by
  simp [partialHits, reschedule]

theorem Inv.present_reschedule (inv : run.Inv)
    (found : run.unit.loadAt loadIdx = some load) (strictlyOrdered : Bool) :
    ∀ inst ∈ (run.reschedule load.seqNum strictlyOrdered).instsToReplay, ∃ index entry,
      run.unit.loadAt index = some entry ∧ entry.seqNum = inst.seqNum := by
  intro inst member
  rcases mem_append.mp member with before | here
  · exact inv.present inst before
  · rw [mem_singleton.mp here]
    exact ⟨loadIdx, load, found, rfl⟩

theorem Inv.stallOn (inv : run.Inv) {index : Nat} {store : SQEntry}
    (found : run.unit.loadAt loadIdx = some load) (behind : run.unit.storeWBIt ≤ index)
    (before : index < load.sqIt) (position : run.unit.storeAt index = some store)
    (oldest : run.unit.stalled = true → ∃ stalling,
      run.unit.loadAt run.unit.stallingLoadIdx = some stalling ∧ load.seqNum < stalling.seqNum) :
    Stall { run.unit with
      stalled := true, stallingStoreIsn := store.seqNum, stallingLoadIdx := loadIdx }
      (run.partialHits ++ [load.seqNum]) := by
  have inQueue := mem_of_getElem? (LSQUnit.loadAt_eq_some.mp found).2
  obtain ⟨member, older, unsent, uncompleted⟩ :=
    inv.consistent.inv.searched inQueue behind before position
  refine ⟨⟨store, member, rfl, unsent, uncompleted⟩, load, found,
    mem_append_right _ mem_cons_self, older, fun seqNum waiting => ?_⟩
  rcases mem_append.mp waiting with waited | here
  · cases stalled : run.unit.stalled with
    | false =>
      rw [inv.idle stalled] at waited
      cases waited
    | true =>
      obtain ⟨stalling, here, younger⟩ := oldest stalled
      obtain ⟨first, foundFirst, -, -, least⟩ := (inv.stall stalled).load
      obtain rfl := Option.some.inj (here.symm.trans foundFirst)
      exact Nat.le_of_lt (Nat.lt_of_lt_of_le younger (least seqNum waited))
  · exact Nat.le_of_eq (mem_singleton.mp here).symm

theorem Inv.executeLoad (inv : run.Inv) {coverage : Nat → AddrRangeCoverage}
    (found : run.unit.loadAt loadIdx = some load) (consistent : after.Consistent)
    (executed : run.unit.read config load loadIdx coverage = .ok after) :
    let final := run.observe config after (.executeLoad loadIdx coverage)
    final.Inv ∧ (run.unit.stalled = true → Settles run final) := by
  intro final
  have opened : final = if run.unit.reschedules load coverage then
      { run with unit := after }.reschedule load.seqNum false else { run with unit := after } := by
    change run.observe config after (.executeLoad loadIdx coverage) = _
    simp only [observe, found]
  have present := fun stalled => (inv.stall stalled).load.imp fun _ facts => facts.1
  rcases read_reschedules present executed with ⟨direct, rfl⟩ | ⟨waits, index, store, rest⟩
  · rw [opened, direct, if_neg Bool.false_ne_true]
    exact ⟨inv, fun stalled => .inl (inv.stall stalled).store⟩
  obtain ⟨behind, before, position, outcome⟩ := rest
  rw [opened, if_pos waits]
  rcases outcome with ⟨rfl, oldest⟩ | ⟨rfl, stalled, stalling, here, older⟩
  · refine ⟨⟨consistent, inv.alive, inv.present_reschedule found false, ?_, ?_⟩, ?_⟩
    · exact fun idle => absurd idle.symm Bool.false_ne_true
    · intro _
      rw [partialHits_reschedule]
      exact inv.stallOn found behind before position oldest
    · exact fun stalled => .inl (inv.stall stalled).store
  · refine ⟨⟨consistent, inv.alive, inv.present_reschedule found false, ?_, ?_⟩, ?_⟩
    · exact fun idle => absurd (stalled.symm.trans idle).symm Bool.false_ne_true
    · intro _
      rw [partialHits_reschedule]
      obtain ⟨first, foundFirst, member, younger, least⟩ := (inv.stall stalled).load
      obtain rfl := Option.some.inj (here.symm.trans foundFirst)
      refine ⟨(inv.stall stalled).store, stalling, here, mem_append_left _ member, younger,
        fun seqNum waiting => ?_⟩
      rcases mem_append.mp waiting with waited | last
      · exact least seqNum waited
      · rw [mem_singleton.mp last]
        exact older
    · exact fun stalled => .inl (inv.stall stalled).store

/-! ### Squash -/

theorem mem_squashReplay {squashedNum : Nat} :
    seqNum ∈ (run.squashReplay squashedNum).partialHits ↔
      seqNum ∈ run.partialHits ∧ seqNum ≤ squashedNum := by
  rw [mem_partialHits, mem_partialHits]
  unfold squashReplay
  rw [mem_filter, decide_eq_true_eq]

/-- The squash takes the load of the stall and with it every load that waits, or it
takes neither the load nor the store. -/
theorem Inv.squash (inv : run.Inv) {squashedNum : Nat}
    (consistent : after.Consistent) (squashed : run.unit.squash squashedNum = .ok after) :
    let final := { run with unit := after }.squashReplay squashedNum
    final.Inv ∧ (run.unit.stalled = true → Settles run final) := by
  intro final
  have effect := LSQUnit.squash_stall squashed
  have hits : ∀ seqNum, seqNum ∈ final.partialHits ↔
      seqNum ∈ run.partialHits ∧ seqNum ≤ squashedNum := fun _ => mem_squashReplay
  refine ⟨⟨consistent, inv.alive, ?_, ?_, ?_⟩, ?_⟩
  · intro inst member
    obtain ⟨inside, older⟩ := mem_filter.mp member
    obtain ⟨index, load, found, same⟩ := inv.present inst inside
    have older : inst.seqNum ≤ squashedNum := of_decide_eq_true older
    exact ⟨index, load, effect.loads index load found (same ▸ older), same⟩
  · intro idle
    refine eq_nil_iff_forall_not_mem.mpr fun seqNum member => ?_
    obtain ⟨waited, older⟩ := (hits seqNum).mp member
    cases stalled : run.unit.stalled with
    | false =>
      rw [inv.idle stalled] at waited
      cases waited
    | true =>
      obtain ⟨load, found, -, -, oldest⟩ := (inv.stall stalled).load
      have younger := effect.ended stalled idle load found
      have least := oldest seqNum waited
      omega
  · intro stalled
    have kept := effect.stays stalled
    have before := inv.stall (kept.stalled.symm.trans stalled)
    obtain ⟨load, found, member, younger, oldest⟩ := before.load
    obtain ⟨store, inside, same, unfinished⟩ := outstanding_stays before.store kept.store
    have stays := effect.load stalled load found
    have inQueue := mem_of_getElem? (LSQUnit.loadAt_eq_some.mp stays).2
    have bounded := LSQUnit.squash_bounded inv.consistent.inv squashed load inQueue
    refine ⟨⟨store, inside, same.trans kept.stallingStoreIsn.symm, unfinished⟩, load,
      (congrArg _ kept.stallingLoadIdx).trans stays, (hits _).mpr ⟨member, bounded⟩, ?_, ?_⟩
    · exact Nat.lt_of_le_of_lt (Nat.le_of_eq kept.stallingStoreIsn) younger
    · exact fun seqNum waiting => oldest seqNum ((hits seqNum).mp waiting).1
  · intro stalled
    have before := inv.stall stalled
    obtain ⟨load, found, member, younger, oldest⟩ := before.load
    obtain ⟨store, inside, same, unfinished⟩ := before.store
    rcases Nat.lt_or_ge squashedNum store.seqNum with taken | kept
    · refine .inr fun seqNum waited => .inr fun entry inQueue here => ?_
      have bounded := LSQUnit.squash_bounded inv.consistent.inv squashed entry inQueue
      have least := oldest seqNum waited
      omega
    · exact .inl ⟨store, effect.stores store inside kept, same, unfinished⟩

/-! ### Runs -/

theorem Inv.forget (inv : run.Inv) : Inv { run with replayed := [] } :=
  ⟨inv.consistent, inv.alive, inv.present, inv.idle, inv.stall⟩

theorem Inv.lsqEvent (inv : run.Inv) {event : LsqEvent}
    (allowed : run.scheduled (.lsq event) = true)
    (stepped : run.unit.step config event = some after) :
    (run.observe config after event).Inv ∧
      (run.unit.stalled = true → Settles run (run.observe config after event)) := by
  have consistent := LSQUnit.step_consistent inv.consistent stepped
  cases event with
  | insertLoad seqNum isDataPrefetch =>
    obtain ⟨_, stepped⟩ := Option.ite_none_right_eq_some.mp stepped
    obtain ⟨kept, loads⟩ := LSQUnit.insertLoad_stays (LSQUnit.ok_of_toOption stepped) fun _ => True
    exact inv.untouched consistent kept loads fun _ _ => trivial
  | insertStore store =>
    obtain ⟨_, stepped⟩ := Option.ite_none_right_eq_some.mp stepped
    obtain ⟨kept, loads⟩ := LSQUnit.insertStore_stays (LSQUnit.ok_of_toOption stepped) fun _ => True
    exact inv.untouched consistent kept loads fun _ _ => trivial
  | executeLoad loadIdx coverage =>
    simp only [LSQUnit.step] at stepped
    split at stepped
    · cases stepped
    case h_2 load found =>
      exact inv.executeLoad found consistent (LSQUnit.ok_of_toOption stepped)
  | executeStore seqNum size =>
    simp only [LSQUnit.step] at stepped
    split at stepped
    · cases stepped
    case h_2 store _ =>
      obtain ⟨_, stepped⟩ := Option.ite_none_left_eq_some.mp stepped
      obtain rfl := Option.some.inj stepped
      obtain ⟨kept, loads⟩ := LSQUnit.executeStore_stays run.unit store size fun _ => True
      exact inv.untouched consistent kept loads fun _ _ => trivial
  | commit youngestInst =>
    obtain rfl := Option.some.inj stepped
    obtain ⟨kept, loads⟩ := LSQUnit.commit_stays inv.consistent.inv youngestInst
    refine inv.untouched consistent kept loads fun inst member => ?_
    exact of_decide_eq_true (all_eq_true.mp allowed inst member)
  | writebackStore result =>
    obtain ⟨kept, loads⟩ := LSQUnit.writebackStore_stays inv.consistent.inv stepped _
    exact inv.written consistent kept loads
  | retry accepted =>
    obtain ⟨kept, loads⟩ := LSQUnit.writebackBlockedStore_stays stepped _
    exact inv.written consistent kept loads
  | complete seqNum =>
    obtain ⟨_, stepped⟩ := Option.ite_none_right_eq_some.mp stepped
    obtain rfl := Option.some.inj stepped
    obtain ⟨kept, loads⟩ := LSQUnit.completeStore_staysWhole config run.unit seqNum _
    exact inv.written consistent kept loads
  | squash squashedNum => exact inv.squash consistent (LSQUnit.ok_of_toOption stepped)

theorem step_inv {event : ReplayEvent} (inv : run.Inv) (allowed : run.replaysAlone event = true)
    (stepped : run.step config event = some next) :
    next.Inv ∧ (run.unit.stalled = true → Settles run next) := by
  obtain ⟨_, stepped⟩ := Option.ite_none_left_eq_some.mp stepped
  obtain ⟨scheduled, alone⟩ := Bool.and_eq_true_iff.mp allowed
  cases event with
  | lsq event =>
    obtain ⟨after, ran, rfl⟩ := Option.map_eq_some_iff.mp stepped
    exact inv.forget.lsqEvent scheduled ran
  | strictlyOrdered loadIdx =>
    obtain ⟨load, found, rfl⟩ := Option.map_eq_some_iff.mp stepped
    have hits := partialHits_rescheduleStrictly { run with replayed := [] } load.seqNum
    refine ⟨⟨inv.consistent, inv.alive, inv.forget.present_reschedule found true, ?_, ?_⟩, ?_⟩
    · exact fun idle => hits.trans (inv.idle idle)
    · exact fun stalled => hits.symm ▸ inv.stall stalled
    · exact fun stalled => .inl (inv.stall stalled).store
  | replayStrictlyOrdered =>
    obtain rfl := Option.some.inj stepped
    have nothing : run.partialHits = [] := List.isEmpty_iff.mp alone
    have idle : run.unit.stalled = false := by
      refine Bool.eq_false_iff.mpr fun stalled => ?_
      obtain ⟨load, -, member, -⟩ := (inv.stall stalled).load
      rw [nothing] at member
      cases member
    exact ⟨inv.forget.replay inv.consistent idle, fun stalled =>
      clash idle stalled⟩

theorem initial_inv : Inv {} where
  consistent := LSQUnit.initial_consistent
  alive := rfl
  present := fun _ member => absurd member not_mem_nil
  idle := fun _ => rfl
  stall := fun stalled => absurd stalled Bool.false_ne_true

/-- In every run whose strictly ordered loads go ahead only when no other load waits for
a store, a load that a store covers in part waits for a store that is in the queue, not
sent and older than all waiting loads, and no event takes this store without replaying
or squashing all of them. -/
theorem no_load_forgotten (reached : Reaches (step config) replaysAlone {} run) :
    run.failed = false ∧
    (run.partialHits ≠ [] → run.unit.stalled = true ∧
      run.unit.Outstanding run.unit.stallingStoreIsn ∧
      (∀ load ∈ run.partialHits, run.unit.stallingStoreIsn < load ∧
        ∃ entry ∈ run.unit.loadQueue, entry.seqNum = load) ∧
      ∀ event next, run.replaysAlone event = true → run.step config event = some next →
        next.unit.Outstanding run.unit.stallingStoreIsn ∨
        ∀ load ∈ run.partialHits, load ∈ next.replayed ∨
          ∀ entry ∈ next.unit.loadQueue, entry.seqNum ≠ load) := by
  have inv : run.Inv := reached.invariant initial_inv fun before allowed stepped =>
    (step_inv before allowed stepped).1
  refine ⟨inv.alive, fun waits => ?_⟩
  have stalled : run.unit.stalled = true :=
    (Bool.not_eq_false _).mp fun idle => waits (inv.idle idle)
  obtain ⟨oldest, -, -, younger, least⟩ := (inv.stall stalled).load
  refine ⟨stalled, (inv.stall stalled).store, ?_, ?_⟩
  · intro load member
    refine ⟨Nat.lt_of_lt_of_le younger (least load member), ?_⟩
    obtain ⟨index, entry, found, same⟩ := inv.present _ (mem_partialHits.mp member)
    exact ⟨entry, mem_of_getElem? (LSQUnit.loadAt_eq_some.mp found).2, same⟩
  · intro event next allowed stepped
    exact (step_inv inv allowed stepped).2 stalled

def twoLoads : List ReplayEvent :=
  [.lsq (.insertStore { seqNum := 3 }), .lsq (.insertLoad 5 false), .lsq (.insertLoad 6 false),
    .lsq (.executeStore 3 4), .lsq (.executeLoad 2 fun _ => .partialAddrRangeCoverage),
    .lsq (.executeLoad 1 fun _ => .partialAddrRangeCoverage), .lsq (.commit 3)]

theorem no_load_forgotten_twoLoads :
    ∃ run : ReplayRun, run.partialHits = [6, 5] ∧ run.unit.stallingStoreIsn = 3 ∧
      (run.step LSQUnit.fourEntries (.lsq (.writebackStore (.send true)))).any
        (fun next => next.replayed = [6, 5]) = true ∧
      run.failed = false ∧ run.unit.Outstanding 3 := by
  obtain ⟨run, reached, observed⟩ := reaches_of_observed (step LSQUnit.fourEntries) replaysAlone {}
    twoLoads (fun run => decide (run.partialHits = [6, 5] ∧ run.unit.stallingStoreIsn = 3 ∧
      (run.step LSQUnit.fourEntries (.lsq (.writebackStore (.send true)))).any
        (fun next => next.replayed = [6, 5]) = true)) (by decide +kernel)
  obtain ⟨hits, isn, replayed⟩ := of_decide_eq_true observed
  obtain ⟨alive, waits⟩ := no_load_forgotten reached
  obtain ⟨-, outstanding, -⟩ := waits (by rw [hits]; exact cons_ne_nil _ _)
  exact ⟨run, hits, isn, replayed, alive, isn ▸ outstanding⟩

/-- A strictly ordered load (1) and a load (4) that a store (2) covers in part wait. At
the head of the ROB the strictly ordered load is let ahead, and both are replayed, but
the unit stays stalled. Load 4 now finds its data in store 3 and commits, while load 5
is covered by store 3 in part. -/
def forgottenLoad : List ReplayEvent :=
  [.lsq (.insertLoad 1 false), .lsq (.insertStore { seqNum := 2 }),
    .lsq (.insertStore { seqNum := 3 }), .lsq (.insertLoad 4 false), .lsq (.insertLoad 5 false),
    .strictlyOrdered 1, .lsq (.executeStore 2 4),
    .lsq (.executeLoad 2 fun _ => .partialAddrRangeCoverage), .replayStrictlyOrdered,
    .lsq (.executeStore 3 8), .lsq (.executeLoad 2 fun _ => .fullAddrRangeCoverage),
    .lsq (.executeLoad 3 fun _ => .partialAddrRangeCoverage),
    .lsq (.executeLoad 1 fun _ => .noAddrRangeCoverage), .lsq (.commit 4)]

/-- The store of the stall is sent, and the unit asks for the instruction of a load that
is gone: load 5 is not replayed, and nothing stalls for it. -/
theorem no_load_forgotten_fails :
    ∃ before after : ReplayRun, Reaches (step LSQUnit.fourEntries) scheduled {} before ∧
      before.partialHits = [5] ∧ before.unit.stallingStoreIsn = 2 ∧
      before.step LSQUnit.fourEntries (.lsq (.writebackStore (.send true))) = some after ∧
      after.failed = true ∧ after.partialHits = [5] ∧ after.replayed = [] ∧
      after.unit.stalled = false ∧ 5 ∈ after.unit.loadQueue.map (·.seqNum) := by
  obtain ⟨run, reached, observed⟩ := reaches_of_observed (step LSQUnit.fourEntries) scheduled {}
    forgottenLoad (fun run => decide (run.partialHits = [5] ∧ run.unit.stallingStoreIsn = 2 ∧
      (run.step LSQUnit.fourEntries (.lsq (.writebackStore (.send true)))).any (fun after =>
        decide (after.failed = true ∧ after.partialHits = [5] ∧ after.replayed = [] ∧
          after.unit.stalled = false ∧ 5 ∈ after.unit.loadQueue.map (·.seqNum))) = true))
    (by decide +kernel)
  obtain ⟨hits, isn, sent⟩ := of_decide_eq_true observed
  obtain ⟨after, stepped, facts⟩ := (Option.any_eq_true _ _).mp sent
  exact ⟨run, after, reached, hits, isn, stepped, of_decide_eq_true facts⟩

end ReplayRun

end Runahead.O3.Lsq
