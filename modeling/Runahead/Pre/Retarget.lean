import Runahead.Pre.SquashArbitration

/-!
# The restart point of the squash at the exit from PRE mode

The squash at the exit from PRE mode names the last instruction that entered the
reorder buffer before PRE mode. Earlier squashes may have gone further back; commit
then looks for the youngest instruction of the buffer that is not younger than
`youngestSeqNum` and restarts fetch there.

Squashed instructions stay in the buffer until they reach its head. The instructions
that commit marks as completed are those that the IEW stage has written into the
queue slot which commit reads.
-/

set_option autoImplicit false

namespace Runahead.Pre

open Library List

structure RobEntry where
  inst : SquashInst
  squashed : Bool := false
  deriving DecidableEq, Repr

/-- `ROB::findFirstNotOlderInst`; `none` is its panic. -/
def findFirstNotOlderInst (rob : List RobEntry) (seqNum : Nat) : Option RobEntry :=
  rob.reverse.find? fun entry => decide (entry.inst.seqNum ≤ seqNum)

structure Redirect where
  doneSeqNum : Nat
  pc : Addr
  deriving DecidableEq, Repr

/-- Commit, the reorder buffer and the queue from the IEW stage to commit. -/
structure Retarget where
  stage : SquashStage := { inPre := false }
  /-- Instructions that the IEW stage has completed in its current time slot. -/
  written : List Nat := []
  fromIEW : IewSlot := {}
  fromIEWInsts : List Nat := []
  rob : List RobEntry := []
  canCommit : List Nat := []
  youngestSeqNum : Nat := 0
  lastCommitedSeqNum : Nat := 0
  trigger : Nat := 0
  lastInstBeforePRE : SquashInst := { seqNum := 0 }
  /-- Commit has looked at the slot of this tick. -/
  handled : Bool := false
  /-- `commitStatus` is `ROBSquashing`. -/
  squashing : Bool := false
  /-- A squash has been accepted since the entry into PRE mode. -/
  squashedSinceEntry : Bool := false
  deriving DecidableEq, Repr

inductive RetargetEvent where
  /-- The trigger's last response arrives. -/
  | exitPreMode
  | checkMisprediction (inst : SquashInst)
  | startExecute
  | execute (inst : SquashInst) (violator : Option SquashInst)
  /-- `squashAll` for a trap, a thread context or an instruction that squashes after itself. -/
  | squashAll
  /-- Commit looks at the squash fields of the slot. -/
  | commit (trapPending : Bool)
  /-- `getInsts` for one instruction; some need no execution. -/
  | insertInst (inst : SquashInst) (isNop : Bool)
  /-- The head leaves the buffer, committed or squashed. -/
  | retireHead
  | enterPreMode
  /-- The next tick; the buffer may need more time for marking. -/
  | advance (doneSquashing : Bool)
  deriving DecidableEq, Repr

namespace Retarget

variable (state : Retarget) {next : Retarget}

def exitPending : Bool :=
  state.stage.slot.squashAfterPRE || state.fromIEW.squashAfterPRE

/-- The instruction may execute: it is in the buffer, not completed and not yet marked as
squashed, or it is one of the younger ones that PRE mode keeps out of the buffer. In PRE
mode the trigger waits. -/
def mayExecute (inst : SquashInst) : Bool :=
  !state.canCommit.contains inst.seqNum && !(state.stage.inPre && inst.seqNum == state.trigger) &&
    (state.rob.any (fun entry =>
        entry.inst.seqNum == inst.seqNum && (!entry.squashed || state.squashing)) ||
      (state.stage.inPre || state.exitPending) &&
        state.rob.all fun entry => decide (entry.inst.seqNum < inst.seqNum))

/-- The sequence number and the restart point of the request, after commit has adjusted it;
`none` is the panic of the search. -/
def target : Option (Nat × Addr) :=
  if state.fromIEW.squashAfterPRE && state.fromIEW.squashedSeqNum > state.youngestSeqNum then
    (findFirstNotOlderInst state.rob state.youngestSeqNum).map fun entry =>
      (entry.inst.seqNum, entry.inst.pcState)
  else some (state.fromIEW.squashedSeqNum, state.fromIEW.pc)

def redirect (target : Nat × Addr) : Redirect where
  doneSeqNum := if state.fromIEW.includeSquashInst then target.1 - 1 else target.1
  pc := target.2

def robSquash (rob : List RobEntry) (seqNum : Nat) : List RobEntry :=
  rob.map fun entry =>
    { entry with squashed := entry.squashed || entry.inst.seqNum > seqNum }

/-- The squash that commit starts, if any; the outer `none` is the panic of the search. -/
def commitSquash (trapPending : Bool) : Option (Option Redirect) :=
  state.target.map fun target =>
    if state.fromIEW.squash && !trapPending && target.1 ≤ state.youngestSeqNum then
      some (state.redirect target)
    else none

def startSquash (squash : Redirect) : Retarget :=
  { state with
    rob := robSquash state.rob squash.doneSeqNum
    youngestSeqNum := squash.doneSeqNum
    squashing := true
    squashedSinceEntry := true }

def iewEvent : RetargetEvent → Option SquashEvent
  | .exitPreMode => some (.exitPreMode state.lastInstBeforePRE)
  | .checkMisprediction inst =>
    if state.mayExecute inst then some (.checkMisprediction inst) else none
  | .startExecute => some .startExecute
  | .execute inst violator =>
    -- A violation is found on an instruction younger than the executing one.
    if state.mayExecute inst && violator.all (fun other => decide (inst.seqNum < other.seqNum)) then
      some (.execute inst violator)
    else none
  | _ => none

def completes : RetargetEvent → List Nat
  | .exitPreMode => [state.trigger]
  | .checkMisprediction inst => [inst.seqNum]
  | .execute inst _ => if inst.executed then [inst.seqNum] else []
  | _ => []

def stepIew (event : RetargetEvent) : Option Retarget := do
  let stage ← state.stage.step (← state.iewEvent event)
  some { state with stage, written := state.written ++ state.completes event }

/-- Instructions enter and leave the buffer in ticks in which commit does not squash. -/
def running : Bool := state.handled && !state.squashing

def step : RetargetEvent → Option Retarget
  | .squashAll =>
    if state.handled then none
    else some { state with
      rob := state.rob.map fun entry => { entry with squashed := true }
      youngestSeqNum := state.lastCommitedSeqNum
      squashing := true
      squashedSinceEntry := true }
  | .commit trapPending =>
    -- In PRE mode nothing commits, so no trap becomes pending.
    if state.handled || trapPending && (state.stage.inPre || state.exitPending) then none
    else (state.commitSquash trapPending).map fun squash =>
      { squash.elim state state.startSquash with fromIEW := {}, handled := true }
  | .insertInst inst isNop =>
    -- What was renamed in PRE mode, or before a squash, does not enter the buffer.
    if state.running && !state.stage.inPre && !(state.exitPending && state.squashedSinceEntry) &&
        decide (state.youngestSeqNum < inst.seqNum) &&
        state.rob.all (fun entry => decide (entry.inst.seqNum < inst.seqNum)) then
      some { state with
        rob := state.rob ++ [{ inst }]
        youngestSeqNum := inst.seqNum
        canCommit := state.canCommit ++ if isNop then [inst.seqNum] else [] }
    else none
  | .retireHead =>
    match state.rob with
    | [] => none
    | head :: rest =>
      if state.running && head.squashed then some { state with rob := rest }
      else if state.running && state.canCommit.contains head.inst.seqNum then
        some { state with rob := rest, lastCommitedSeqNum := head.inst.seqNum }
      else none
  | .enterPreMode =>
    match state.rob.head?, state.rob.getLast? with
    | some head, some last =>
      -- The head waits for memory.
      if state.running && !state.stage.inPre && !head.squashed &&
          !(state.written ++ state.fromIEWInsts ++ state.canCommit).contains head.inst.seqNum then
        some { state with
          stage := { state.stage with inPre := true }
          trigger := head.inst.seqNum
          lastInstBeforePRE := last.inst
          squashedSinceEntry := false }
      else none
    | _, _ => none
  | .advance doneSquashing =>
    if state.handled then
      some { state with
        stage := { state.stage with slot := {}, issued := [] }
        written := []
        fromIEW := state.stage.slot
        fromIEWInsts := state.written
        canCommit := state.canCommit ++ state.fromIEWInsts
        handled := false
        squashing := state.squashing && !doneSquashing }
    else none
  | event => state.stepIew event

/-- Nothing but the exit's own request speaks for it, no `squashAll` intervenes between the
entry and the exit squash, and PRE mode starts with no squashed instruction in the buffer. -/
def admits (event : RetargetEvent) : Bool :=
  match event with
  | .squashAll => !state.stage.inPre && !state.exitPending
  | .enterPreMode => state.rob.all fun entry => !entry.squashed
  | event => (state.iewEvent event).all state.stage.overwritesAll

end Retarget

def IewSlot.kept (slot : IewSlot) : Nat :=
  if slot.includeSquashInst then slot.squashedSeqNum - 1 else slot.squashedSeqNum

def IewSlot.ordinary (slot : IewSlot) : Bool := slot.squash && !slot.squashAfterPRE

abbrev InOrder (rob : List RobEntry) : Prop :=
  rob.Pairwise fun older younger => older.inst.seqNum < younger.inst.seqNum

namespace Retarget

variable {state next : Retarget}

def engaged (state : Retarget) : Bool := state.stage.inPre || state.exitPending

def HeadKept (rob : List RobEntry) (kept : Nat) : Prop :=
  ∀ head ∈ rob.head?, head.inst.seqNum ≤ kept

/-- The trigger is at the head of the buffer, valid and not completed. -/
structure Waiting (state : Retarget) : Prop where
  head : state.rob.head?.map (·.inst.seqNum) = some state.trigger
  valid : state.trigger ≤ state.youngestSeqNum
  stalled : state.trigger ∉ state.canCommit
  late : state.fromIEW.squashAfterPRE = false → state.trigger ∉ state.fromIEWInsts
  unwritten : state.stage.inPre = true → state.trigger ∉ state.written
  /-- All squashed instructions are younger than the youngest valid one. -/
  suffix : ∀ entry ∈ state.rob, entry.squashed = true → state.youngestSeqNum < entry.inst.seqNum
  unsquashed : state.squashedSinceEntry = false → ∀ entry ∈ state.rob, entry.squashed = false

/-- An ordinary request of the current slot keeps the head, also if instructions commit in this
tick: one that it keeps cannot commit. -/
def SlotSafe (state : Retarget) : Prop :=
  state.squashing = true ∧ HeadKept state.rob state.stage.slot.kept ∨
    ∃ entry ∈ state.rob, entry.squashed = false ∧ entry.inst.seqNum ∉ state.canCommit ∧
      entry.inst.seqNum ≤ state.stage.slot.kept

structure Inv (state : Retarget) : Prop where
  sorted : InOrder state.rob
  positive : ∀ entry ∈ state.rob, 0 < entry.inst.seqNum
  valid : ∀ entry ∈ state.rob, entry.squashed = false → entry.inst.seqNum ≤ state.youngestSeqNum
  single : state.stage.Single
  fromSingle : state.fromIEW = {} ∨ ∃ request : SquashRequest, state.fromIEW = request.publish
  consumed : state.handled = true → state.fromIEW = {}
  exitSlot : state.stage.slot.squashAfterPRE = true →
    state.stage.inPre = false ∧ state.trigger ∈ state.written
  exitFrom : state.fromIEW.squashAfterPRE = true →
    state.stage.inPre = false ∧ state.stage.slot.squashAfterPRE = false
  waiting : state.engaged = true → Waiting state
  slotSafe : state.stage.slot.ordinary = true → SlotSafe state
  fromSafe : state.fromIEW.ordinary = true → HeadKept state.rob state.fromIEW.kept

theorem inv_initial : Inv {} where
  sorted := .nil
  positive := by rintro _ ⟨⟩
  valid := by rintro _ ⟨⟩
  single := .inl ⟨rfl, rfl⟩
  fromSingle := .inl rfl
  consumed _ := rfl
  exitSlot := by rintro ⟨⟩
  exitFrom := by rintro ⟨⟩
  waiting := by rintro ⟨⟩
  slotSafe := by rintro ⟨⟩
  fromSafe := by rintro ⟨⟩

end Retarget

section Buffer

variable {rob : List RobEntry} {entry : RobEntry} {kept : Nat}

theorem InOrder.head_le (sorted : InOrder rob) (member : entry ∈ rob) {head : RobEntry}
    (first : rob.head? = some head) : head.inst.seqNum ≤ entry.inst.seqNum := by
  obtain ⟨rest, rfl⟩ := head?_eq_some_iff.mp first
  rcases mem_cons.mp member with rfl | later
  · exact Nat.le_refl _
  · exact Nat.le_of_lt (rel_of_pairwise_cons sorted later)

theorem InOrder.headKept (sorted : InOrder rob) (member : entry ∈ rob)
    (bound : entry.inst.seqNum ≤ kept) : Retarget.HeadKept rob kept :=
  fun _ first => Nat.le_trans (sorted.head_le member first) bound

theorem InOrder.mark (sorted : InOrder rob) (mark : RobEntry → Bool) :
    InOrder (rob.map fun entry => { entry with squashed := mark entry }) :=
  pairwise_map.mpr sorted

theorem head?_mark (mark : RobEntry → Bool) :
    (rob.map fun entry => { entry with squashed := mark entry }).head?.map (·.inst.seqNum) =
      rob.head?.map (·.inst.seqNum) := by
  cases rob <;> rfl

theorem Retarget.HeadKept.mark (headKept : Retarget.HeadKept rob kept) (mark : RobEntry → Bool) :
    Retarget.HeadKept (rob.map fun entry => { entry with squashed := mark entry }) kept := by
  cases rob with
  | nil => rintro _ ⟨⟩
  | cons head rest =>
    intro marked first
    cases first
    exact headKept head rfl

end Buffer

namespace SquashStage

variable {stage next : SquashStage} {event : SquashEvent}

theorem step_slot (admitted : stage.overwritesAll event = true)
    (stepped : stage.step event = some next) :
    next.slot = stage.slot ∨
      ∃ request, stage.request event = some request ∧ next.slot = request.publish := by
  have issued {request : SquashRequest} (made : stage.request event = some request) :
      request.apply stage.slot = stage.slot ∨
        ∃ request, stage.request event = some request ∧
          SquashRequest.apply stage.slot request = request.publish := by
    cases wins : request.wins stage.slot with
    | false => exact .inl (SquashRequest.apply_of_loses wins)
    | true =>
      have clean : request.isClean stage.slot = true := by
        simpa [overwritesAll, made, wins] using admitted
      exact .inr ⟨request, made, SquashRequest.apply_of_wins wins clean⟩
  unfold step at stepped
  split at stepped
  · next request made =>
    obtain ⟨_, rfl⟩ := fired stepped
    refine (issued made).imp_right ?_
    rintro ⟨other, same, published⟩
    cases made.symm.trans same
    exact ⟨request, made, published⟩
  · cases stepped
    exact .inl rfl
  · next request _ _ made =>
    cases stepped
    refine (issued made).imp_right ?_
    rintro ⟨other, same, published⟩
    cases made.symm.trans same
    exact ⟨request, made, published⟩
  · cases stepped
    exact .inl rfl

theorem step_inPre (stepped : stage.step event = some next) :
    (∃ inst, event = .exitPreMode inst ∧ stage.inPre = true ∧ next.inPre = false) ∨
      (∀ inst, event ≠ .exitPreMode inst) ∧ next.inPre = stage.inPre := by
  cases event with
  | exitPreMode inst =>
    obtain ⟨inPre, rfl⟩ := fired stepped
    exact .inl ⟨inst, rfl, inPre, rfl⟩
  | startExecute =>
    cases stepped
    exact .inr ⟨by simp, rfl⟩
  | checkMisprediction | execute =>
    refine .inr ⟨by simp, ?_⟩
    unfold step at stepped
    split at stepped
    · next same _ => cases same
    · next same => cases same
    · cases stepped
      rfl
    · cases stepped
      rfl

theorem request_kept {request : SquashRequest} (made : stage.request event = some request) :
    (∃ inst, event = .exitPreMode inst ∧ request = .runaheadExit inst) ∨
      request.publish.squashAfterPRE = false ∧
        ∃ inst, (event = .checkMisprediction inst ∨ ∃ violator, event = .execute inst violator) ∧
          (request.publish.kept = inst.seqNum ∨
            ∃ violator, event = .execute inst (some violator) ∧
              request.publish.kept = violator.seqNum - 1) := by
  cases event with
  | exitPreMode inst =>
    cases made
    exact .inl ⟨inst, rfl, rfl⟩
  | startExecute => cases made
  | checkMisprediction inst =>
    obtain ⟨_, rfl⟩ := fired made
    exact .inr ⟨rfl, inst, .inl rfl, .inl rfl⟩
  | execute inst violator =>
    obtain ⟨_, made⟩ := Option.ite_none_right_eq_some.mp made
    split at made
    · cases made
      exact .inr ⟨rfl, inst, .inr ⟨violator, rfl⟩, .inl rfl⟩
    · obtain ⟨other, rfl, made⟩ := Option.map_eq_some_iff.mp made
      cases made
      exact .inr ⟨rfl, inst, .inr ⟨_, rfl⟩, .inr ⟨other, rfl, rfl⟩⟩

end SquashStage

namespace Retarget

variable {state next : Retarget}

theorem Waiting.entry (waiting : Waiting state) :
    ∃ head, state.rob.head? = some head ∧ head ∈ state.rob ∧
      head.inst.seqNum = state.trigger ∧ head.squashed = false := by
  obtain ⟨head, first, number⟩ := Option.map_eq_some_iff.mp waiting.head
  have member := mem_of_head? first
  refine ⟨head, first, member, number, ?_⟩
  cases squashed : head.squashed with
  | false => rfl
  | true =>
    have younger := waiting.suffix head member squashed
    have valid := waiting.valid
    omega

variable {inst : SquashInst}

theorem slotSafe_of_mayExecute (inv : Inv state)
    (executes : state.mayExecute inst = true) {stage : SquashStage} {written : List Nat}
    (kept : inst.seqNum ≤ stage.slot.kept) : SlotSafe { state with stage, written } := by
  simp only [mayExecute, Bool.and_eq_true, Bool.or_eq_true, Bool.not_eq_true',
    contains_eq_mem, decide_eq_false_iff_not, any_eq_true, beq_iff_eq,
    all_eq_true, decide_eq_true_eq] at executes
  obtain ⟨⟨waits, _⟩, ⟨entry, member, number, live⟩ | ⟨mode, younger⟩⟩ := executes
  · have bound : entry.inst.seqNum ≤ stage.slot.kept := number ▸ kept
    rcases live with valid | squashing
    · exact .inr ⟨entry, member, valid, number ▸ waits, bound⟩
    · exact .inl ⟨squashing, inv.sorted.headKept member bound⟩
  · have waiting := inv.waiting (by simpa [engaged] using mode)
    obtain ⟨head, _, member, number, valid⟩ := waiting.entry
    refine .inr ⟨head, member, valid, number ▸ waiting.stalled, ?_⟩
    exact Nat.le_trans (Nat.le_of_lt (younger head member)) kept

variable {event : RetargetEvent}

theorem stepIew_spec (stepped : state.stepIew event = some next) :
    ∃ seen stage, state.iewEvent event = some seen ∧ state.stage.step seen = some stage ∧
      next = { state with stage, written := state.written ++ state.completes event } := by
  obtain ⟨seen, saw, stepped⟩ := Option.bind_eq_some_iff.mp stepped
  obtain ⟨stage, moved, stepped⟩ := Option.bind_eq_some_iff.mp stepped
  exact ⟨seen, stage, saw, moved, (Option.some.inj stepped).symm⟩

theorem iewEvent_exit (saw : state.iewEvent event = some (.exitPreMode inst)) :
    event = .exitPreMode := by
  cases event with
  | exitPreMode => rfl
  | checkMisprediction other => cases (fired saw).2
  | execute other violator => cases (fired saw).2
  | _ => cases saw

theorem iewEvent_kept {seen : SquashEvent} {request : SquashRequest}
    (saw : state.iewEvent event = some seen) (made : state.stage.request seen = some request)
    (ordinary : request.publish.squashAfterPRE = false) :
    ∃ inst, state.mayExecute inst = true ∧ inst.seqNum ≤ request.publish.kept := by
  rcases SquashStage.request_kept made with ⟨inst, _, rfl⟩ | ⟨_, inst, origin, kept⟩
  · cases ordinary
  · refine ⟨inst, ?_⟩
    cases event with
    | exitPreMode | startExecute =>
      cases saw
      rcases origin with origin | ⟨violator, origin⟩ <;> cases origin
    | checkMisprediction other =>
      obtain ⟨executes, rfl⟩ := fired saw
      rcases origin with origin | ⟨violator, origin⟩ <;> cases origin
      rcases kept with kept | ⟨violator, origin, _⟩
      · exact ⟨executes, Nat.le_of_eq kept.symm⟩
      · cases origin
    | execute other violator =>
      obtain ⟨guards, rfl⟩ := fired saw
      obtain ⟨executes, younger⟩ := Bool.and_eq_true_iff.mp guards
      rcases origin with origin | ⟨violator, origin⟩ <;> cases origin
      rcases kept with kept | ⟨violator, origin, kept⟩
      · exact ⟨executes, Nat.le_of_eq kept.symm⟩
      · cases origin
        have younger : inst.seqNum < violator.seqNum := of_decide_eq_true younger
        exact ⟨executes, by omega⟩
    | _ => cases saw

/-- In PRE mode only the exit completes the trigger. -/
theorem trigger_notMem_completes {seen : SquashEvent} (inPre : state.stage.inPre = true)
    (saw : state.iewEvent event = some seen) (running : event ≠ .exitPreMode) :
    state.trigger ∉ state.completes event := by
  have differs {inst : SquashInst} (executes : state.mayExecute inst = true) :
      inst.seqNum ≠ state.trigger := by
    simp only [mayExecute, inPre, Bool.true_and, Bool.and_eq_true, Bool.not_eq_true',
      beq_eq_false_iff_ne] at executes
    exact executes.1.2
  cases event with
  | exitPreMode => exact absurd rfl running
  | startExecute => exact not_mem_nil
  | checkMisprediction inst =>
    obtain ⟨executes, _⟩ := Option.ite_none_right_eq_some.mp saw
    exact fun member => differs executes (mem_singleton.mp member).symm
  | execute inst violator =>
    obtain ⟨executes, _⟩ := Option.ite_none_right_eq_some.mp saw
    have differs := differs (Bool.and_eq_true_iff.mp executes).1
    simp only [completes]
    split
    · exact fun member => differs (mem_singleton.mp member).symm
    · exact not_mem_nil
  | _ => cases saw

theorem stepIew_inv (inv : Inv state)
    (admitted : (state.iewEvent event).all state.stage.overwritesAll = true)
    (stepped : state.stepIew event = some next) : Inv next := by
  obtain ⟨seen, stage, saw, moved, rfl⟩ := stepIew_spec stepped
  have admitted : state.stage.overwritesAll seen = true := by simpa [saw] using admitted
  have slot := SquashStage.step_slot admitted moved
  have mode := SquashStage.step_inPre moved
  -- The exit's mark appears only at the exit.
  have marked : stage.slot.squashAfterPRE = true → state.stage.slot.squashAfterPRE = true ∨
      event = .exitPreMode ∧ state.stage.inPre = true ∧ stage.inPre = false := by
    intro mark
    rcases slot with same | ⟨request, made, published⟩
    · exact .inl (same ▸ mark)
    · rcases SquashStage.request_kept made with ⟨inst, rfl, _⟩ | ⟨ordinary, _⟩
      · rcases mode with ⟨_, _, inPre, left⟩ | ⟨other, _⟩
        · exact .inr ⟨iewEvent_exit saw, inPre, left⟩
        · exact absurd rfl (other inst)
      · rw [published, ordinary] at mark
        cases mark
  have left : stage.inPre = true → state.stage.inPre = true := by
    intro inPre
    rcases mode with ⟨_, _, _, left⟩ | ⟨_, same⟩
    · exact clash inPre left
    · exact same ▸ inPre
  have engaged (active : Retarget.engaged { state with
      stage, written := state.written ++ state.completes event } = true) :
      state.engaged = true := by
    simp only [Retarget.engaged, exitPending, Bool.or_eq_true] at active ⊢
    rcases active with inPre | mark | mark
    · exact .inl (left inPre)
    · exact (marked mark).elim (fun mark => .inr (.inl mark)) fun exit => .inl exit.2.1
    · exact .inr (.inr mark)
  refine
    { inv with
      single := SquashStage.step_single inv.single admitted moved
      exitSlot := fun mark => ?_
      exitFrom := fun mark => ?_
      waiting := fun active => ?_
      slotSafe := fun ordinary => ?_ }
  · rcases marked mark with before | ⟨rfl, _, outside⟩
    · obtain ⟨outside, written⟩ := inv.exitSlot before
      refine ⟨?_, mem_append_left _ written⟩
      exact Bool.eq_false_iff.mpr fun inPre => Bool.eq_false_iff.mp outside (left inPre)
    · exact ⟨outside, mem_append_right _ (mem_singleton.mpr rfl)⟩
  · obtain ⟨outside, clear⟩ := inv.exitFrom mark
    refine ⟨Bool.eq_false_iff.mpr fun inPre => Bool.eq_false_iff.mp outside (left inPre), ?_⟩
    refine Bool.eq_false_iff.mpr fun mark => ?_
    rcases marked mark with before | ⟨_, inPre, _⟩
    · exact clash before clear
    · exact clash inPre outside
  · have waiting := inv.waiting (engaged active)
    refine { waiting with unwritten := fun inPre => ?_ }
    have still : event ≠ .exitPreMode := by
      rintro rfl
      cases saw
      rcases mode with ⟨_, _, _, left⟩ | ⟨other, _⟩
      · exact clash inPre left
      · exact absurd rfl (other _)
    refine fun member => (mem_append.mp member).elim (waiting.unwritten (left inPre)) ?_
    exact trigger_notMem_completes (left inPre) saw still
  · rcases slot with same | ⟨request, made, published⟩
    · have safe := inv.slotSafe (same ▸ ordinary)
      simp only [SlotSafe, same] at safe ⊢
      exact safe
    · have ordinary := (Bool.and_eq_true_iff.mp ordinary).2
      rw [published, Bool.not_eq_true'] at ordinary
      obtain ⟨inst, executes, kept⟩ := iewEvent_kept saw made ordinary
      exact slotSafe_of_mayExecute inv executes (published ▸ kept)

theorem SlotSafe.headKept (sorted : InOrder state.rob) (safe : SlotSafe state) :
    HeadKept state.rob state.stage.slot.kept := by
  rcases safe with ⟨_, headKept⟩ | ⟨entry, member, _, _, bound⟩
  · exact headKept
  · exact sorted.headKept member bound

theorem squashAll_inv (inv : Inv state) (idle : state.engaged = false)
    (stepped : state.step .squashAll = some next) : Inv next := by
  obtain ⟨_, stepped⟩ := Option.ite_none_left_eq_some.mp stepped
  cases stepped
  exact
    { inv with
      sorted := inv.sorted.mark fun _ => true
      positive := fun entry member => by
        obtain ⟨before, present, rfl⟩ := mem_map.mp member
        exact inv.positive before present
      valid := fun entry member valid => by
        obtain ⟨before, _, rfl⟩ := mem_map.mp member
        cases valid
      waiting := fun active => clash active idle
      slotSafe := fun ordinary =>
        .inl ⟨rfl, ((inv.slotSafe ordinary).headKept inv.sorted).mark fun _ => true⟩
      fromSafe := fun ordinary => (inv.fromSafe ordinary).mark fun _ => true }

theorem Inv.exit_includes (inv : Inv state) (mark : state.fromIEW.squashAfterPRE = true) :
    state.fromIEW.includeSquashInst = true ∧ state.fromIEW.squash = true := by
  rcases inv.fromSingle with empty | ⟨request, published⟩
  · rw [empty] at mark
    cases mark
  · rw [published] at mark ⊢
    cases request with
    | runaheadExit inst => exact ⟨rfl, rfl⟩
    | branch inst => cases mark
    | memOrder violator => cases mark

theorem findFirstNotOlderInst_spec {rob : List RobEntry} {seqNum : Nat} {entry : RobEntry}
    (sorted : InOrder rob) (found : findFirstNotOlderInst rob seqNum = some entry) :
    entry ∈ rob ∧ entry.inst.seqNum ≤ seqNum ∧
      ∀ other ∈ rob, other.inst.seqNum ≤ seqNum → other.inst.seqNum ≤ entry.inst.seqNum := by
  obtain ⟨bound, after, before, split, younger⟩ := find?_eq_some_iff_append.mp found
  have reversed : rob = before.reverse ++ entry :: after.reverse := by
    simpa using congrArg List.reverse split
  subst reversed
  refine ⟨by simp, of_decide_eq_true bound, fun other member valid => ?_⟩
  have ordered := (pairwise_append.mp sorted).2.2
  simp only [mem_append, mem_reverse, mem_cons] at member ordered
  rcases member with older | rfl | later
  · exact Nat.le_of_lt (ordered other older entry (.inl rfl))
  · exact Nat.le_refl _
  · exact absurd (decide_eq_true valid) (by simpa using younger other later)

theorem Inv.findFirstNotOlderInst_some (inv : Inv state) (engaged : state.engaged = true) :
    ∃ entry, findFirstNotOlderInst state.rob state.youngestSeqNum = some entry := by
  have waiting := inv.waiting engaged
  obtain ⟨head, _, member, number, _⟩ := waiting.entry
  refine Option.isSome_iff_exists.mp (find?_isSome.mpr ⟨head, by simpa using member, ?_⟩)
  exact decide_eq_true (number ▸ waiting.valid)

theorem Inv.exit_target (inv : Inv state) (mark : state.fromIEW.squashAfterPRE = true) :
    ∃ target, state.target = some target ∧ target.1 ≤ state.youngestSeqNum := by
  by_cases younger : state.fromIEW.squashedSeqNum > state.youngestSeqNum
  · obtain ⟨entry, found⟩ :=
      inv.findFirstNotOlderInst_some (by simp [engaged, exitPending, mark])
    refine ⟨_, by simp only [target, mark, younger, found]; rfl, ?_⟩
    exact (findFirstNotOlderInst_spec inv.sorted found).2.1
  · refine ⟨(state.fromIEW.squashedSeqNum, state.fromIEW.pc), ?_, Nat.le_of_not_lt younger⟩
    simp [target, younger]

variable {trapPending : Bool}

theorem commitSquash_spec {squash : Redirect}
    (started : state.commitSquash trapPending = some (some squash)) :
    ∃ target, state.target = some target ∧ state.fromIEW.squash = true ∧
      target.1 ≤ state.youngestSeqNum ∧ squash = state.redirect target := by
  obtain ⟨target, adjusted, started⟩ := Option.map_eq_some_iff.mp started
  obtain ⟨accepted, started⟩ := Option.ite_none_right_eq_some.mp started
  simp only [Bool.and_eq_true, decide_eq_true_eq] at accepted
  exact ⟨target, adjusted, accepted.1.1, accepted.2, (Option.some.inj started).symm⟩

theorem redirect_le (state : Retarget) (target : Nat × Addr) :
    (state.redirect target).doneSeqNum ≤ target.1 := by
  simp only [redirect]
  split
  · exact Nat.sub_le _ _
  · exact Nat.le_refl _

theorem ordinary_redirect {target : Nat × Addr}
    (ordinary : state.fromIEW.squashAfterPRE = false) (adjusted : state.target = some target) :
    (state.redirect target).doneSeqNum = state.fromIEW.kept := by
  simp only [Retarget.target, ordinary, Bool.false_and, Bool.false_eq_true, if_false,
    Option.some.injEq] at adjusted
  subst adjusted
  rfl

theorem Inv.exit_starts (inv : Inv state) (mark : state.fromIEW.squashAfterPRE = true) :
    ∃ target, state.target = some target ∧
      state.commitSquash false = some (some (state.redirect target)) := by
  obtain ⟨target, adjusted, valid⟩ := inv.exit_target mark
  refine ⟨target, adjusted, ?_⟩
  simp [commitSquash, adjusted, (inv.exit_includes mark).2, valid]

theorem commit_ignored_inv (inv : Inv state)
    (possible : (trapPending && (state.stage.inPre || state.exitPending)) = false)
    (ignored : state.commitSquash trapPending = some none) :
    Inv { state with fromIEW := {}, handled := true } := by
  have ordinary : state.fromIEW.squashAfterPRE = false := by
    refine Bool.eq_false_iff.mpr fun mark => ?_
    obtain ⟨target, adjusted, starts⟩ := inv.exit_starts mark
    have noTrap : trapPending = false := by
      simpa [exitPending, mark] using possible
    rw [noTrap, starts] at ignored
    cases ignored
  refine
    { inv with
      fromSingle := .inl rfl
      consumed := fun _ => rfl
      exitFrom := by rintro ⟨⟩
      waiting := fun active => ?_
      fromSafe := by rintro ⟨⟩ }
  have engaged : state.engaged = true := by
    simpa [engaged, exitPending, ordinary] using active
  have waiting := inv.waiting engaged
  exact { waiting with late := fun _ => waiting.late ordinary }

theorem commit_started_inv {squash : Redirect} (inv : Inv state)
    (started : state.commitSquash trapPending = some (some squash)) :
    Inv { state.startSquash squash with fromIEW := {}, handled := true } := by
  obtain ⟨target, adjusted, requested, valid, rfl⟩ := commitSquash_spec started
  have older := Nat.le_trans (state.redirect_le target) valid
  refine
    { inv with
      sorted := inv.sorted.mark _
      positive := fun entry member => ?_
      valid := fun entry member valid => ?_
      fromSingle := .inl rfl
      consumed := fun _ => rfl
      exitFrom := by rintro ⟨⟩
      waiting := fun active => ?_
      slotSafe := fun ordinary =>
        .inl ⟨rfl, ((inv.slotSafe ordinary).headKept inv.sorted).mark _⟩
      fromSafe := by rintro ⟨⟩ }
  · obtain ⟨before, present, rfl⟩ := mem_map.mp member
    exact inv.positive before present
  · obtain ⟨before, _, rfl⟩ := mem_map.mp member
    exact Nat.le_of_not_lt (of_decide_eq_false (Bool.or_eq_false_iff.mp valid).2)
  · have active : state.stage.inPre = true ∨ state.stage.slot.squashAfterPRE = true := by
      simpa [engaged, exitPending, startSquash] using active
    -- The exit squash itself would end the episode.
    have ordinary : state.fromIEW.squashAfterPRE = false := by
      refine Bool.eq_false_iff.mpr fun mark => ?_
      obtain ⟨outside, clear⟩ := inv.exitFrom mark
      rcases active with inPre | slot
      · exact clash inPre outside
      · exact clash slot clear
    have waiting := inv.waiting (by
      simp only [engaged, exitPending, Bool.or_eq_true]
      exact active.imp_right .inl)
    have headKept := inv.fromSafe (by simp [IewSlot.ordinary, requested, ordinary])
    obtain ⟨head, first, _, number, _⟩ := waiting.entry
    have kept := ordinary_redirect ordinary adjusted
    refine
      { waiting with
        head := (head?_mark _).trans waiting.head
        valid := ?_
        late := fun _ => waiting.late ordinary
        suffix := fun entry member squashed => ?_
        unsquashed := by rintro ⟨⟩ }
    · have bound := headKept head first
      rw [number, ← kept] at bound
      exact bound
    · obtain ⟨before, present, rfl⟩ := mem_map.mp member
      rcases Bool.or_eq_true_iff.mp squashed with earlier | now
      · exact Nat.lt_of_le_of_lt older (waiting.suffix before present earlier)
      · exact of_decide_eq_true now

theorem commit_inv (inv : Inv state)
    (stepped : state.step (.commit trapPending) = some next) : Inv next := by
  obtain ⟨guards, stepped⟩ := Option.ite_none_left_eq_some.mp stepped
  have possible := (Bool.or_eq_false_iff.mp (Bool.eq_false_iff.mpr guards)).2
  obtain ⟨squash, outcome, rfl⟩ := Option.map_eq_some_iff.mp stepped
  cases squash with
  | none => exact commit_ignored_inv inv possible outcome
  | some squash => exact commit_started_inv inv outcome

theorem insertInst_inv {isNop : Bool} (inv : Inv state)
    (stepped : state.step (.insertInst inst isNop) = some next) : Inv next := by
  obtain ⟨guards, rfl⟩ := fired stepped
  simp only [Bool.and_eq_true, Bool.not_eq_true', decide_eq_true_eq, all_eq_true, running] at guards
  obtain ⟨⟨⟨⟨⟨handled, running⟩, outside⟩, quiet⟩, youngest⟩, younger⟩ := guards
  have fresh {seqNum : Nat} (known : ∃ entry ∈ state.rob, entry.inst.seqNum = seqNum)
      (waits : seqNum ∉ state.canCommit) :
      seqNum ∉ state.canCommit ++ if isNop then [inst.seqNum] else [] := by
    obtain ⟨entry, member, rfl⟩ := known
    have differs := Nat.ne_of_lt (younger entry member)
    cases isNop <;> simp [waits, differs]
  refine
    { inv with
      sorted := ?_
      positive := fun entry member => ?_
      valid := fun entry member valid => ?_
      waiting := fun active => ?_
      slotSafe := fun ordinary => ?_
      fromSafe := fun ordinary => ?_ }
  · refine pairwise_append.mpr ⟨inv.sorted, pairwise_singleton _ _, ?_⟩
    intro entry member last new
    cases mem_singleton.mp new
    exact younger entry member
  · rcases mem_append.mp member with before | new
    · exact inv.positive entry before
    · cases mem_singleton.mp new
      exact Nat.lt_of_le_of_lt (Nat.zero_le _) youngest
  · rcases mem_append.mp member with before | new
    · exact Nat.le_of_lt (younger entry before)
    · cases mem_singleton.mp new
      exact Nat.le_refl _
  · have active : state.engaged = true := active
    have waiting := inv.waiting active
    have quiet : state.squashedSinceEntry = false := by
      simp only [engaged, outside, Bool.false_or] at active
      simpa [active] using quiet
    obtain ⟨head, first, member, number, _⟩ := waiting.entry
    have unsquashed : ∀ entry ∈ state.rob ++ [⟨inst, false⟩], entry.squashed = false := by
      intro entry member
      rcases mem_append.mp member with before | new
      · exact waiting.unsquashed quiet entry before
      · cases mem_singleton.mp new
        rfl
    refine
      { waiting with
        head := ?_
        valid := Nat.le_of_lt (number ▸ younger head member)
        stalled := fresh ⟨head, member, number⟩ waiting.stalled
        suffix := fun entry member squashed =>
          clash (unsquashed entry member) squashed
        unsquashed := fun _ => unsquashed }
    simp only [head?_append_of_ne_nil _ (ne_nil_of_mem member)]
    exact waiting.head
  · rcases inv.slotSafe ordinary with ⟨squashing, _⟩ | ⟨entry, member, valid, waits, bound⟩
    · exact clash squashing running
    · exact .inr ⟨entry, mem_append_left _ member, valid, fresh ⟨entry, member, rfl⟩ waits, bound⟩
  · have ordinary : state.fromIEW.ordinary = true := ordinary
    rw [inv.consumed handled] at ordinary
    cases ordinary

theorem retireHead_spec (stepped : state.step .retireHead = some next) :
    ∃ head rest lastCommited, state.rob = head :: rest ∧ state.running = true ∧
      (head.squashed = true ∨ head.inst.seqNum ∈ state.canCommit) ∧
      next = { state with rob := rest, lastCommitedSeqNum := lastCommited } := by
  simp only [step] at stepped
  split at stepped
  · cases stepped
  · next head rest buffer =>
    split at stepped
    · next squashed =>
      obtain ⟨running, squashed⟩ := Bool.and_eq_true_iff.mp squashed
      exact ⟨head, rest, _, buffer, running, .inl squashed, (Option.some.inj stepped).symm⟩
    · obtain ⟨completed, stepped⟩ := Option.ite_none_right_eq_some.mp stepped
      obtain ⟨running, completed⟩ := Bool.and_eq_true_iff.mp completed
      exact ⟨head, rest, _, buffer, running, .inr (contains_iff_mem.mp completed),
        (Option.some.inj stepped).symm⟩

theorem mem_rest {head entry : RobEntry} {rest : List RobEntry} (buffer : state.rob = head :: rest)
    (leaves : head.squashed = true ∨ head.inst.seqNum ∈ state.canCommit)
    (member : entry ∈ state.rob) (valid : entry.squashed = false)
    (waits : entry.inst.seqNum ∉ state.canCommit) : entry ∈ rest := by
  rw [buffer] at member
  rcases mem_cons.mp member with rfl | later
  · rcases leaves with squashed | completed
    · exact clash squashed valid
    · exact absurd completed waits
  · exact later

theorem retireHead_inv (inv : Inv state) (stepped : state.step .retireHead = some next) :
    Inv next := by
  obtain ⟨head, rest, _, buffer, running, leaves, rfl⟩ := retireHead_spec stepped
  obtain ⟨handled, running⟩ := Bool.and_eq_true_iff.mp running
  have sorted : InOrder (head :: rest) := buffer ▸ inv.sorted
  have within {entry : RobEntry} (member : entry ∈ rest) : entry ∈ state.rob :=
    buffer ▸ mem_cons_of_mem head member
  refine
    { inv with
      sorted := (pairwise_cons.mp sorted).2
      positive := fun entry member => inv.positive entry (within member)
      valid := fun entry member => inv.valid entry (within member)
      waiting := fun active => ?_
      slotSafe := fun ordinary => ?_
      fromSafe := fun ordinary => ?_ }
  · -- The trigger does not leave.
    have waiting := inv.waiting active
    obtain ⟨entry, first, member, number, valid⟩ := waiting.entry
    have later := mem_rest buffer leaves member valid (number ▸ waiting.stalled)
    rw [buffer] at first
    cases first
    exact absurd (rel_of_pairwise_cons sorted later) (Nat.lt_irrefl _)
  · rcases inv.slotSafe ordinary with ⟨squashing, _⟩ | ⟨entry, member, valid, waits, bound⟩
    · rw [squashing] at running
      cases running
    · exact .inr ⟨entry, mem_rest buffer leaves member valid waits, valid, waits, bound⟩
  · have ordinary : state.fromIEW.ordinary = true := ordinary
    rw [inv.consumed handled] at ordinary
    cases ordinary

theorem enterPreMode_inv (inv : Inv state) (clean : ∀ entry ∈ state.rob, entry.squashed = false)
    (stepped : state.step .enterPreMode = some next) : Inv next := by
  simp only [step] at stepped
  split at stepped
  · next head last first _ =>
    obtain ⟨guards, rfl⟩ := fired stepped
    simp only [Bool.and_eq_true, Bool.not_eq_true', running, contains_eq_mem,
      mem_append, decide_eq_false_iff_not, not_or] at guards
    obtain ⟨⟨⟨⟨handled, _⟩, outside⟩, valid⟩, ⟨unwritten, late⟩, stalled⟩ := guards
    have unmarked : state.fromIEW.squashAfterPRE = false := by rw [inv.consumed handled]
    refine
      { inv with
        exitSlot := fun mark => ?_
        exitFrom := fun mark => clash mark unmarked
        waiting := fun _ => ?_ }
    · -- An exit squash under way means that the head has just completed.
      have waiting := inv.waiting (by simp [engaged, exitPending, show
        state.stage.slot.squashAfterPRE = true from mark])
      have number := waiting.head
      simp only [first, Option.map_some, Option.some.injEq] at number
      exact absurd (inv.exitSlot mark).2 (number ▸ unwritten)
    · exact
        { head := by simp [first]
          valid := inv.valid head (mem_of_head? first) valid
          stalled := stalled
          late := fun _ => late
          unwritten := fun _ => unwritten
          suffix := fun entry member squashed =>
            clash (clean entry member) squashed
          unsquashed := fun _ => clean }
  · cases stepped

theorem advance_inv {doneSquashing : Bool} (inv : Inv state)
    (stepped : state.step (.advance doneSquashing) = some next) : Inv next := by
  obtain ⟨handled, rfl⟩ := fired stepped
  have unmarked : state.fromIEW.squashAfterPRE = false := by rw [inv.consumed handled]
  refine
    { inv with
      single := .inl ⟨rfl, rfl⟩
      fromSingle := ?_
      consumed := by rintro ⟨⟩
      exitSlot := by rintro ⟨⟩
      exitFrom := fun mark => ⟨(inv.exitSlot mark).1, rfl⟩
      waiting := fun active => ?_
      slotSafe := by rintro ⟨⟩
      fromSafe := fun ordinary => (inv.slotSafe ordinary).headKept inv.sorted }
  · rcases inv.single with ⟨empty, _⟩ | ⟨request, _, published⟩
    · exact .inl empty
    · exact .inr ⟨request, published⟩
  · have active : (state.stage.inPre || state.stage.slot.squashAfterPRE) = true := by
      simpa [engaged, exitPending] using active
    have waiting := inv.waiting (by simpa [engaged, exitPending, unmarked] using active)
    refine
      { waiting with
        stalled := fun member => ?_
        late := fun clear => ?_
        unwritten := fun _ => not_mem_nil }
    · exact (mem_append.mp member).elim waiting.stalled (waiting.late unmarked)
    · have clear : state.stage.slot.squashAfterPRE = false := clear
      rw [clear, Bool.or_false] at active
      exact waiting.unwritten active

theorem step_inv (inv : Inv state) (admitted : state.admits event = true)
    (stepped : state.step event = some next) : Inv next := by
  cases event with
  | squashAll =>
    refine squashAll_inv inv ?_ stepped
    simpa [engaged, admits] using admitted
  | commit trapPending => exact commit_inv inv stepped
  | insertInst inst isNop => exact insertInst_inv inv stepped
  | retireHead => exact retireHead_inv inv stepped
  | enterPreMode =>
    refine enterPreMode_inv inv ?_ stepped
    simpa [admits] using admitted
  | advance doneSquashing => exact advance_inv inv stepped
  | exitPreMode | checkMisprediction | startExecute | execute =>
    refine stepIew_inv inv ?_ stepped
    exact admitted

theorem reaches_inv (reached : Reaches step admits {} state) : Inv state :=
  reached.invariant inv_initial step_inv

/-- The restart point of an adjusted exit squash: the search finds the youngest valid
instruction of the buffer, the squash is started, it keeps everything older, and fetch restarts
at the found instruction or, if that is kept, after it. -/
theorem exit_restarts (state : Retarget) (reached : Reaches step admits {} state)
    (mark : state.fromIEW.squashAfterPRE = true)
    (younger : state.youngestSeqNum < state.fromIEW.squashedSeqNum) :
    ∃ entry squash, findFirstNotOlderInst state.rob state.youngestSeqNum = some entry ∧
      entry.squashed = false ∧
      (∀ other ∈ state.rob, other.squashed = false → other.inst.seqNum ≤ entry.inst.seqNum) ∧
      state.commitSquash false = some (some squash) ∧
      (∀ other ∈ state.rob, other.inst.seqNum < entry.inst.seqNum →
        other.inst.seqNum ≤ squash.doneSeqNum) ∧
      squash.pc = if entry.inst.seqNum ≤ squash.doneSeqNum then entry.inst.nextPc
        else entry.inst.pcState := by
  have inv := reaches_inv reached
  have engaged : state.engaged = true := by simp [engaged, exitPending, mark]
  obtain ⟨entry, found⟩ := inv.findFirstNotOlderInst_some engaged
  obtain ⟨target, adjusted, starts⟩ := inv.exit_starts mark
  obtain ⟨member, bound, youngest⟩ := findFirstNotOlderInst_spec inv.sorted found
  have positive := inv.positive entry member
  have chosen : target = (entry.inst.seqNum, entry.inst.pcState) := by
    have guards : (state.fromIEW.squashAfterPRE &&
        decide (state.fromIEW.squashedSeqNum > state.youngestSeqNum)) = true := by
      simp [mark, younger]
    rw [Retarget.target, if_pos guards, found] at adjusted
    exact (Option.some.inj adjusted).symm
  subst chosen
  have done : (state.redirect (entry.inst.seqNum, entry.inst.pcState)).doneSeqNum =
      entry.inst.seqNum - 1 := if_pos (inv.exit_includes mark).1
  refine ⟨entry, _, found, ?_, ?_, starts, ?_, ?_⟩
  · refine Bool.eq_false_iff.mpr fun squashed => ?_
    have := (inv.waiting engaged).suffix entry member squashed
    omega
  · exact fun other present valid => youngest other present (inv.valid other present valid)
  · intro other _ older
    omega
  · rw [if_neg (by omega)]
    rfl

def insertLoad : RetargetEvent := .insertInst { seqNum := 3, pcState := 8, nextPc := 12 } false

def branch : SquashInst := { seqNum := 5, pcState := 16, nextPc := 64, mispredicted := true }

/-- PRE mode starts behind a load, a mispredicted branch squashes, then the trigger returns. -/
theorem exit_restarts_after_branch :
    ∃ state, Reaches step admits {} state ∧ state.youngestSeqNum = 5 ∧
      state.fromIEW.squashedSeqNum = 10 ∧
      ∃ entry squash, findFirstNotOlderInst state.rob state.youngestSeqNum = some entry ∧
        state.commitSquash false = some (some squash) ∧
        squash.pc = if entry.inst.seqNum ≤ squash.doneSeqNum then entry.inst.nextPc
          else entry.inst.pcState := by
  obtain ⟨state, reached, observed⟩ := reaches_of_observed step admits {}
    [.commit false, insertLoad, .insertInst branch false,
      .insertInst { seqNum := 10, pcState := 20, nextPc := 24 } false, .enterPreMode,
      .advance true, .startExecute, .execute branch none,
      .commit false, .advance true, .exitPreMode, .commit false, .advance true]
    (fun state => decide (state.fromIEW.squashAfterPRE = true ∧ state.youngestSeqNum = 5 ∧
      state.fromIEW.squashedSeqNum = 10)) (by decide +kernel)
  obtain ⟨mark, youngest, last⟩ := of_decide_eq_true observed
  obtain ⟨entry, squash, found, _, _, starts, _, restarts⟩ :=
    exit_restarts state reached mark (by rw [youngest, last]; decide)
  exact ⟨state, reached, youngest, last, entry, squash, found, starts, restarts⟩

/-- Two mispredicted branches and the exit in between: commit keeps the older branch and
restarts fetch at that very branch. -/
theorem exit_repeats_branch :
    ∃ state, Reaches step anyEvent {} state ∧ state.fromIEW.squashAfterPRE = true ∧
      state.youngestSeqNum < state.fromIEW.squashedSeqNum ∧
      ∃ entry squash, findFirstNotOlderInst state.rob state.youngestSeqNum = some entry ∧
        state.commitSquash false = some (some squash) ∧
        entry.inst.seqNum ≤ squash.doneSeqNum ∧ squash.pc = entry.inst.pcState ∧
        entry.inst.nextPc ≠ entry.inst.pcState := by
  obtain ⟨state, reached, observed⟩ := reaches_of_observed step anyEvent {}
    [.commit false, insertLoad, .insertInst branch false,
      .insertInst { seqNum := 8, pcState := 20, nextPc := 96, mispredicted := true } false,
      .insertInst { seqNum := 10, pcState := 24, nextPc := 28 } false, .enterPreMode,
      .advance true, .startExecute, .execute branch none,
      .commit false, .advance true, .exitPreMode, .startExecute,
      .execute { seqNum := 8, pcState := 20, nextPc := 96, mispredicted := true } none,
      .commit false, .advance true]
    (fun state => decide (state.fromIEW.squashAfterPRE = true ∧
      state.youngestSeqNum < state.fromIEW.squashedSeqNum ∧
      findFirstNotOlderInst state.rob state.youngestSeqNum = some ⟨branch, false⟩ ∧
      state.commitSquash false = some (some ⟨5, 16⟩))) (by decide +kernel)
  obtain ⟨mark, younger, found, starts⟩ := of_decide_eq_true observed
  exact ⟨state, reached, mark, younger, _, _, found, starts, by decide, rfl, by decide⟩

end Retarget

end Runahead.Pre
