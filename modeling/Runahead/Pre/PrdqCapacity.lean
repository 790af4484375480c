import Mathlib.Data.List.Basic
import Runahead.Pre.Prdq

/-!
# The capacity of the PRDQ

Nothing compares the size of the PRDQ with `prdqEntries`. Rename waits for free entries of
the ROB, IQ, LQ and SQ and for free registers. Of these only the registers bound the PRDQ: an
entry stays as long as an older instruction has not executed, and its own instruction may
have left the other queues by then.
-/

set_option autoImplicit false

namespace Runahead.Pre

open Library List RenameUnit
open Option (bind_eq_some_iff map_eq_some_iff)
open O3 (RenameHistory)

/-- The numbers of entries, with the defaults of `PreO3CPU.py`. -/
structure QueueSizes where
  numROBEntries : Nat := 192
  numIQEntries : Nat := 64
  lqEntries : Nat := 32
  sqEntries : Nat := 32

/-- Which queue of the LSQ an instruction needs; atomic operations count as stores. -/
inductive MemQueue where
  | load
  | store
  | none
  deriving DecidableEq, Repr

/-- The rename unit and the instructions that hold an entry of a queue, or that have been
renamed and are on their way to one. -/
structure RenameStage where
  run : PrdqRun
  rob : List Nat := []
  iq : List Nat := []
  lq : List Nat := []
  sq : List Nat := []

inductive RenameEvent where
  | rename (inst : Nat) (queue : MemQueue) (dests : List DestOperand)
  /-- An instruction that is no memory reference leaves the IQ, or never enters it (a nop). -/
  | issue (inst : Nat)
  /-- `setExecuted`; a memory reference has held its IQ entry until now. -/
  | execute (inst : Nat)
  | retire
  | squash (seqNum : Nat)
  | commit (seqNum : Nat)
  /-- A committed store leaves the SQ. -/
  | writeback (inst : Nat)
  | enterPreMode
  | exitPreMode
  deriving DecidableEq, Repr

namespace RenameStage

variable {stage next : RenameStage} {sizes : QueueSizes} {event : RenameEvent}

def isMemRef (stage : RenameStage) (inst : Nat) : Bool :=
  decide (inst ∈ stage.lq) || decide (inst ∈ stage.sq)

/-- When the other stages let the event happen. A full ROB does not stop rename in PRE mode, and
the load at its head, which has missed, lets nothing commit before PRE mode ends. -/
def admits (sizes : QueueSizes) (stage : RenameStage) : RenameEvent → Bool
  | .rename _ queue _ =>
    decide (stage.iq.length < sizes.numIQEntries) &&
      (stage.run.unit.inPreMode || decide (stage.rob.length < sizes.numROBEntries)) &&
      match queue with
      | .load => decide (stage.lq.length < sizes.lqEntries)
      | .store => decide (stage.sq.length < sizes.sqEntries)
      | .none => true
  | .issue inst => decide (inst ∈ stage.iq) && !stage.isMemRef inst
  | .execute inst => stage.isMemRef inst || decide (inst ∉ stage.iq)
  | .commit _ => !stage.run.unit.inPreMode
  | .enterPreMode => decide (stage.rob.length = sizes.numROBEntries)
  | _ => true

def queues (stage : RenameStage) : RenameEvent → RenameStage
  | .rename inst queue _ =>
    { stage with
      rob := if stage.run.unit.inPreMode then stage.rob else inst :: stage.rob
      iq := inst :: stage.iq
      lq := if queue = .load then inst :: stage.lq else stage.lq
      sq := if queue = .store then inst :: stage.sq else stage.sq }
  | .issue inst | .execute inst => { stage with iq := stage.iq.erase inst }
  | .squash seqNum =>
    { stage with
      rob := stage.rob.filter (· ≤ seqNum)
      iq := stage.iq.filter (· ≤ seqNum)
      lq := stage.lq.filter (· ≤ seqNum)
      sq := stage.sq.filter (· ≤ seqNum) }
  | .commit seqNum =>
    { stage with
      rob := stage.rob.filter (seqNum < ·)
      lq := stage.lq.filter (seqNum < ·) }
  | .writeback inst => { stage with sq := stage.sq.erase inst }
  | _ => stage

end RenameStage

def RenameEvent.prdqEvent : RenameEvent → Option PrdqEvent
  | .rename inst _ dests => some (.rename inst dests)
  | .issue _ | .writeback _ => none
  | .execute inst => some (.execute inst)
  | .retire => some .retire
  | .squash seqNum => some (.squash seqNum)
  | .commit seqNum => some (.commit seqNum)
  | .enterPreMode => some .enterPreMode
  | .exitPreMode => some .exitPreMode

namespace RenameStage

def step (sizes : QueueSizes) (stage : RenameStage) (event : RenameEvent) : Option RenameStage :=
  if stage.admits sizes event then
    match event.prdqEvent with
    | some seen => (stage.run.step seen).map fun run => { stage.queues event with run := run }
    | none => some (stage.queues event)
  else none

def initial (renameMap : RegId → PhysRegId) (freeList : List PhysRegId) : RenameStage where
  run := .initial renameMap freeList

end RenameStage

namespace RenameUnit

variable {unit next : RenameUnit} {written : List RegClass} {inst : Nat}

def freeRegs (unit : RenameUnit) (written : List RegClass) : Nat :=
  unit.freeList.countP fun reg => decide (reg.regClass ∈ written)

def takesFree (written : List RegClass) (dest : DestOperand) : Bool :=
  !(dest.reg.isFixedMapping || dest.keepsMapping) && decide (dest.reg.regClass ∈ written)

theorem renameDestReg_freeRegs {dest : DestOperand} (takes : takesFree written dest = true)
    (renamed : unit.renameDestReg true inst dest = some next) :
    next.freeRegs written + 1 = unit.freeRegs written := by
  simp only [takesFree, Bool.and_eq_true, Bool.not_eq_true', decide_eq_true_eq] at takes
  obtain ⟨given, chosen, renamed⟩ := bind_eq_some_iff.mp renamed
  obtain ⟨_, renamed⟩ := Option.ite_none_left_eq_some.mp renamed
  rw [renameReg, if_neg (by simp [takes.1])] at chosen
  obtain ⟨reg, found, rfl⟩ := map_eq_some_iff.mp chosen
  have free : reg ∈ unit.freeList := mem_of_find?_eq_some found
  have counted : decide (reg.regClass ∈ written) = true := by
    have sameClass : reg.regClass = dest.reg.regClass := by simpa using find?_some found
    simpa [sameClass] using takes.2
  cases renamed
  have taken := (perm_cons_erase free).countP_eq fun reg => decide (reg.regClass ∈ written)
  rw [countP_cons, counted, if_pos rfl] at taken
  exact taken.symm

/-- Renaming destinations turns free registers into entries of the PRDQ. -/
theorem renameDestRegs_budget {dests : List DestOperand} (inside : unit.inPreMode = true)
    (takes : ∀ dest ∈ dests, takesFree written dest = true)
    (renamed : unit.renameDestRegs true inst dests = some next) :
    next.prdq.length + next.freeRegs written = unit.prdq.length + unit.freeRegs written := by
  have finished := foldlM_invariant
    (fun middle => middle.inPreMode = true ∧ middle.prdq.length + middle.freeRegs written =
      unit.prdq.length + unit.freeRegs written)
    (fun dest member middle last before stepped => ?_) ⟨inside, rfl⟩ renamed
  · exact finished.2
  · obtain ⟨entry, -, -, mode, prdq⟩ := renameDestReg_lists stepped
    have taken := renameDestReg_freeRegs (takes dest member) stepped
    rw [if_pos before.1] at prdq
    refine ⟨mode.trans before.1, ?_⟩
    rw [prdq, length_append, length_singleton]
    omega

theorem prdqFreeReg_freeRegs {entry : RenameHistory} (freed : unit.prdqFreeReg entry = some next) :
    next.freeRegs written ≤ unit.freeRegs written + 1 := by
  have kept : unit.freeRegs written ≤ unit.freeRegs written + 1 := Nat.le_succ _
  unfold prdqFreeReg at freed
  split at freed
  · cases freed
    exact kept
  · split at freed
    · cases freed
      exact kept
    · obtain ⟨_, freed⟩ := Option.ite_none_left_eq_some.mp freed
      cases freed
      simp only [addReg, freeRegs, countP_append]
      exact Nat.add_le_add_left countP_le_length _

theorem foldlM_prdqFreeReg_freeRegs {entries : List RenameHistory}
    (walked : entries.foldlM prdqFreeReg unit = some next) :
    next.freeRegs written ≤ unit.freeRegs written + entries.length := by
  induction entries generalizing unit with
  | nil =>
    cases walked
    exact Nat.le_refl _
  | cons entry rest ih =>
    obtain ⟨middle, first, walked⟩ := bind_eq_some_iff.mp walked
    have one : middle.freeRegs written ≤ unit.freeRegs written + 1 := prdqFreeReg_freeRegs first
    have others := ih walked
    rw [length_cons]
    omega

theorem doSquash_undoes_nothing {seqNum : Nat}
    (spared : ∀ entry ∈ unit.historyBuffer, entry.instSeqNum ≤ seqNum) :
    unit.doSquash seqNum = unit := by
  unfold doSquash
  cases entries : unit.historyBuffer with
  | nil => rw [doSquashLoop, ← entries]
  | cons entry older =>
    have oldest := spared entry (by simp [entries])
    rw [doSquashLoop, if_neg (Nat.not_lt.mpr oldest), ← entries]

end RenameUnit

namespace PrdqRun

open RenameUnit (takesFree)

variable {run next : PrdqRun} {unit : RenameUnit} {written : List RegClass} {prdqMaxSize : Nat}

/-- An instruction has as many entries in the PRDQ as in the history buffer, until it retires. -/
theorem Mirrors.historyOf_length {entrySeqNum : Nat} {retired : List Nat} {front : PrdqEntry}
    (mirrors : Mirrors entrySeqNum retired unit) (inside : unit.inPreMode = true)
    (member : front ∈ unit.prdq) :
    (unit.historyOf front.instId).length ≤
      (unit.prdq.filter fun entry => decide (entry.instId = front.instId)).length := by
  have keys := mirrors.mirror inside
  have listed : front.key ∈ unit.prdq.map PrdqEntry.key := mem_map_of_mem member
  rw [keys] at listed
  obtain ⟨first, here, same⟩ := mem_map.mp listed
  have firstPending := (mem_filter.mp (mem_reverse.mp here)).2
  have firstId : first.instSeqNum = front.instId := congrArg Prod.fst same
  -- all entries of the instruction are pending together
  have together : (unit.historyBuffer.filter (pending entrySeqNum retired)).filter
      (fun entry => decide (entry.instSeqNum = front.instId)) =
        unit.historyBuffer.filter fun entry => decide (entry.instSeqNum = front.instId) := by
    rw [filter_filter]
    refine filter_congr fun entry _ => ?_
    by_cases own : entry.instSeqNum = front.instId
    · simpa [own, pending, firstId] using firstPending
    · simp [own]
  have counts := congrArg
    (fun keys => (keys.filter fun key : Nat × PhysRegId => decide (key.1 = front.instId)).length)
    keys
  simp only [filter_map, length_map, filter_reverse, length_reverse] at counts
  refine Nat.le_trans ((takeWhile_sublist _).filter _).length_le (Nat.le_of_eq ?_)
  rw [filter_reverse, length_reverse, ← together]
  exact counts.symm

/-- What retires from the PRDQ gives back at most one register per entry. -/
theorem prdqRetireEntry_budget {retired : Bool × RenameUnit} (inv : run.Inv)
    (inside : run.unit.inPreMode = true) (done : run.unit.prdqRetireEntry = some retired) :
    retired.2.prdq.length + retired.2.freeRegs written ≤
      run.unit.prdq.length + run.unit.freeRegs written := by
  obtain ⟨-, -, ⟨-, same⟩ | ⟨front, rest, _, split, executed, rfl, prdq, walked⟩⟩ :=
    prdqRetireEntry_lists done
  · rw [same]
  · have freed : retired.2.freeRegs written ≤
        run.unit.freeRegs written + (run.unit.historyOf front.instId).length :=
      (foldlM_prdqFreeReg_freeRegs walked :)
    have entries := inv.mirrors.historyOf_length inside (by simp [split] : front ∈ run.unit.prdq)
    have parts := run.unit.prdq.length_eq_length_filter_add
      fun entry => decide (entry.instId = front.instId)
    rw [prdq, inv.mirrors.retired_prdq split executed]
    simp only [ne_eq, decide_not]
    omega

/-- The registers that are free and the entries of the PRDQ fit together. -/
structure Budget (written : List RegClass) (prdqMaxSize : Nat) (run : PrdqRun) : Prop where
  inv : run.Inv
  fits : run.unit.inPreMode = true → run.unit.prdq.length + run.unit.freeRegs written ≤ prdqMaxSize

/-- PRE mode starts with no more free registers of the classes `written` than the PRDQ has
entries, each destination renamed in it takes such a register, and no squash in it undoes a
rename. -/
def withinRegisters (written : List RegClass) (prdqMaxSize : Nat) (run : PrdqRun) : PrdqEvent → Bool
  | .rename _ dests => !run.unit.inPreMode || dests.all (takesFree written)
  | .squash seqNum =>
    !run.unit.inPreMode || run.unit.historyBuffer.all fun entry => entry.instSeqNum ≤ seqNum
  | .enterPreMode =>
    run.unit.inPreMode || decide (run.unit.freeRegs written ≤ prdqMaxSize)
  | _ => true

theorem withinRegisters_sparesPre {event : PrdqEvent}
    (admitted : run.withinRegisters written prdqMaxSize event = true) :
    run.sparesPre event = true := by
  cases event with
  | squash seqNum =>
    simp only [withinRegisters, sparesPre, Bool.or_eq_true, all_eq_true] at admitted ⊢
    exact admitted.imp_right fun spared entry member => .inl (spared entry member)
  | _ => rfl

theorem step_budget {event : PrdqEvent} (budget : run.Budget written prdqMaxSize)
    (admitted : run.withinRegisters written prdqMaxSize event = true)
    (waits : ∀ seqNum, event = .commit seqNum → run.unit.inPreMode = false)
    (stepped : run.step event = some next) : next.Budget written prdqMaxSize := by
  refine ⟨step_inv budget.inv (withinRegisters_sparesPre admitted) stepped, fun inside => ?_⟩
  cases event with
  | rename inst dests =>
    obtain ⟨_, stepped⟩ := Option.ite_none_right_eq_some.mp stepped
    obtain ⟨unit, renamed, rfl⟩ := map_eq_some_iff.mp stepped
    have mode : unit.inPreMode = run.unit.inPreMode := foldlM_invariant
      (fun middle => middle.inPreMode = run.unit.inPreMode) (fun dest _ middle last before given =>
        (renameDestReg_lists given).choose_spec.2.2.1.trans before) rfl renamed
    have before := mode.symm.trans inside
    simp only [withinRegisters, before, Bool.not_true, Bool.false_or, all_eq_true] at admitted
    exact (renameDestRegs_budget before admitted renamed).trans_le (budget.fits before)
  | execute inst =>
    cases stepped
    split at inside
    · next before =>
      simpa [before, prdqMarkInstExecuted, freeRegs] using budget.fits before
    · next outside => exact absurd inside outside
  | retire =>
    obtain ⟨retired, done, rfl⟩ := map_eq_some_iff.mp stepped
    have before := (prdqRetireEntry_lists done).2.1.symm.trans inside
    exact Nat.le_trans (prdqRetireEntry_budget budget.inv before done) (budget.fits before)
  | squash seqNum =>
    cases stepped
    have before := (run.unit.doSquash_lists seqNum).2.2.symm.trans inside
    simp only [withinRegisters, before, Bool.not_true, Bool.false_or, all_eq_true,
      decide_eq_true_eq] at admitted
    simpa only [doSquash_undoes_nothing admitted] using budget.fits before
  | commit seqNum =>
    obtain ⟨_, stepped⟩ := Option.ite_none_left_eq_some.mp stepped
    obtain ⟨unit, removed, rfl⟩ := map_eq_some_iff.mp stepped
    obtain ⟨_, -, -, -, mode⟩ := removeFromHistory_lists removed
    exact clash (mode.symm.trans inside) (waits seqNum rfl)
  | enterPreMode =>
    simp only [step] at stepped
    split at stepped
    · next before =>
      cases stepped
      exact budget.fits before
    · next outside =>
      cases stepped
      have empty := budget.inv.mirrors.outside (Bool.of_not_eq_true outside)
      simp only [withinRegisters, outside, Bool.false_or, decide_eq_true_eq] at admitted
      change run.unit.prdq.length + run.unit.freeRegs written ≤ prdqMaxSize
      rwa [empty, length_nil, Nat.zero_add]
  | exitPreMode =>
    obtain ⟨_, rfl⟩ := fired stepped
    cases inside

end PrdqRun

namespace RenameStage

variable {stage next : RenameStage} {sizes : QueueSizes} {event : RenameEvent}
  {written : List RegClass} {prdqMaxSize : Nat}

@[simp]
theorem queues_run (stage : RenameStage) (event : RenameEvent) :
    (stage.queues event).run = stage.run := by
  cases event <;> rfl

def withinRegisters (written : List RegClass) (prdqMaxSize : Nat) (stage : RenameStage)
    (event : RenameEvent) : Bool :=
  event.prdqEvent.all (stage.run.withinRegisters written prdqMaxSize)

theorem step_budget (budget : stage.run.Budget written prdqMaxSize)
    (admitted : stage.withinRegisters written prdqMaxSize event = true)
    (stepped : stage.step sizes event = some next) : next.run.Budget written prdqMaxSize := by
  obtain ⟨admits, stepped⟩ := Option.ite_none_right_eq_some.mp stepped
  cases seen : event.prdqEvent with
  | none =>
    rw [seen] at stepped
    cases stepped
    rw [queues_run]
    exact budget
  | some prdqEvent =>
    rw [seen] at stepped
    obtain ⟨run, taken, rfl⟩ := map_eq_some_iff.mp stepped
    rw [withinRegisters, seen] at admitted
    refine PrdqRun.step_budget budget admitted ?_ taken
    rintro seqNum rfl
    cases event <;> cases seen
    simpa [RenameStage.admits] using admits

/-- The ROB fills with a load that misses and with instructions without a destination. In PRE
mode a second load misses; the instructions after it execute and leave the IQ. -/
def loadHoldsPrdq (sizes : QueueSizes) (younger : Nat) : List RenameEvent :=
  .rename 1 .load [] :: ((List.range (sizes.numROBEntries - 1)).flatMap fun index =>
      [.rename (index + 2) .none [], .issue (index + 2), .execute (index + 2)]) ++
    .enterPreMode :: .rename (sizes.numROBEntries + 1) .load [{ reg := ⟨.int, 0⟩ }] ::
      (List.range younger).flatMap fun index =>
        let inst := sizes.numROBEntries + 2 + index
        [.rename inst .none [{ reg := ⟨.int, 1⟩ }], .issue inst, .execute inst, .retire]

/-- Integer registers beyond the 32 that are mapped at first. -/
def intRegs (free : Nat) : RenameStage :=
  initial (fun reg => ⟨reg.regClass, reg.index⟩)
    ((List.range free).map fun index => ⟨.int, index + 32⟩)

end RenameStage

end Runahead.Pre
