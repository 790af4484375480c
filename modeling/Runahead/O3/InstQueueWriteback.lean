import Runahead.O3.EntryConservation
import Runahead.O3.InstQueueReady

/-!
# Write-back happens once

Nothing in IEW keeps an instruction from being written back twice. A memory
instruction is protected by its entry in the memory dependence unit, which is
removed by the first write-back, and any other by having executed only once.
-/

set_option autoImplicit false

namespace Runahead.O3.InstructionQueue

open Library Function List
open Option (ite_none_right_eq_some bind_eq_some_iff)

variable {config : IqConfig} {state next : InstructionQueue} {inst : Nat} {reg : PhysRegId}

structure SameProgress (state next : InstructionQueue) : Prop where
  executed : ∀ inst, (next.insts inst).executed = (state.insts inst).executed
  squashed : ∀ inst, (next.insts inst).squashed = (state.insts inst).squashed
  toCommit : next.lists .toCommit = state.lists .toCommit
  entries : ∀ inst, state.memDepHash inst = none → next.memDepHash inst = none

namespace SameProgress

theorem refl (state : InstructionQueue) : state.SameProgress state :=
  ⟨fun _ => rfl, fun _ => rfl, rfl, fun _ => id⟩

theorem trans {middle : InstructionQueue} (first : state.SameProgress middle)
    (second : middle.SameProgress next) : state.SameProgress next :=
  ⟨fun inst => (second.executed inst).trans (first.executed inst),
    fun inst => (second.squashed inst).trans (first.squashed inst),
    second.toCommit.trans first.toCommit,
    fun inst => second.entries inst ∘ first.entries inst⟩

theorem modify (state : InstructionQueue) (inst : Nat) (change : IqInst → IqInst)
    (executed : ∀ dyn, (change dyn).executed = dyn.executed)
    (squashed : ∀ dyn, (change dyn).squashed = dyn.squashed) :
    state.SameProgress (state.modify inst change) := by
  refine ⟨fun other => ?_, fun other => ?_, rfl, fun _ => id⟩
  · simp only [InstructionQueue.modify, update_apply]
    split
    · next same => rw [executed, same]
    · rfl
  · simp only [InstructionQueue.modify, update_apply]
    split
    · next same => rw [squashed, same]
    · rfl

theorem of_tells (tells : state.Tells next) : state.SameProgress next where
  executed _ := by rw [tells.insts]
  squashed _ := by rw [tells.insts]
  toCommit := tells.toCommit
  entries inst none := by
    by_contra back
    obtain ⟨entry, found⟩ := Option.ne_none_iff_exists'.mp back
    obtain ⟨before, known, _⟩ := tells.entries inst entry found
    exact absurd known (by simp [none])

end SameProgress

theorem wakeDependent_sameProgress {node : PhysRegId × Nat}
    (woken : state.wakeDependent node = some next) : state.SameProgress next := by
  have dropped : state.SameProgress (state.dropNode node) :=
    ⟨fun _ => rfl, fun _ => rfl, rfl, fun _ => id⟩
  exact (dropped.trans (.modify _ node.2 IqInst.markSrcRegReady (fun _ => rfl) fun _ => rfl)).trans
    (.of_tells (addIfReady_tells woken))

theorem wakeReg_sameProgress (woken : state.wakeReg reg = some next) : state.SameProgress next :=
  wakeReg_invariant state.SameProgress
    (fun _ _ _ _ same first => same.trans (wakeDependent_sameProgress first))
    (fun _ same => ⟨same.executed, same.squashed, same.toCommit, same.entries⟩) (.refl _) woken

theorem completeInst_sameProgress (completed : state.completeInst inst = some next) :
    state.SameProgress next ∧ ((state.insts inst).isMemRef = true →
      state.memDepHash inst ≠ none ∧ next.memDepHash inst = none) := by
  simp only [completeInst] at completed
  split at completed
  · obtain ⟨middle, first, rfl⟩ := Option.map_eq_some_iff.mp completed
    obtain ⟨tells, present, gone⟩ := completeMemInst_tells first
    have marked : middle.SameProgress ((middle.modify inst IqInst.setMemOpDone).release inst) := by
      have modified := SameProgress.modify middle inst IqInst.setMemOpDone
        (fun _ => rfl) fun _ => rfl
      exact ⟨modified.executed, modified.squashed, modified.toCommit, modified.entries⟩
    exact ⟨(SameProgress.of_tells tells).trans marked, fun _ => ⟨present, gone⟩⟩
  · next plain =>
    refine ⟨?_, fun memory => absurd memory plain⟩
    split at completed
    · exact .of_tells (completeMemInst_tells completed).1
    · cases completed
      exact .refl _

theorem wakeDependents_sameProgress (woken : state.wakeDependents inst = some next) :
    state.SameProgress next ∧ ((state.insts inst).isMemRef = true →
      state.memDepHash inst ≠ none ∧ next.memDepHash inst = none) := by
  obtain ⟨completed, first, rest⟩ := bind_eq_some_iff.mp woken
  obtain ⟨before, removed⟩ := completeInst_sameProgress first
  have after := foldlM_invariant completed.SameProgress
    (fun reg _ middle last same stepped => same.trans (wakeReg_sameProgress stepped))
    (.refl _) rest
  exact ⟨before.trans after, fun memory =>
    ⟨(removed memory).1, after.entries inst (removed memory).2⟩⟩

def writesBack (state : InstructionQueue) : IqEvent → List Nat
  | .writeback inst =>
    if !(state.insts inst).squashed && (state.insts inst).executed && !(state.insts inst).fault
    then [inst] else []
  | _ => []

variable {event : IqEvent}

theorem mem_writesBack (member : inst ∈ state.writesBack event) :
    event = .writeback inst ∧ state.writesBack (.writeback inst) = [inst] := by
  cases event with
  | writeback other =>
    simp only [writesBack, mem_ite_nil_right, mem_singleton] at member ⊢
    obtain ⟨valid, rfl⟩ := member
    exact ⟨rfl, if_pos valid⟩
  | _ => cases member

theorem writeback_spec (written : state.writeback inst = some next) :
    inst ∈ state.lists .toCommit ∧
      (state.writesBack (.writeback inst) = [] ∧ next = state.pop .toCommit inst ∨
        state.writesBack (.writeback inst) = [inst] ∧ (state.insts inst).squashed = false ∧
          (state.pop .toCommit inst).wakeDependents inst = some next) := by
  obtain ⟨member, written⟩ := ite_none_right_eq_some.mp written
  refine ⟨member, ?_⟩
  split at written
  · next valid =>
    refine .inr ⟨if_pos valid, ?_, written⟩
    simp only [Bool.and_eq_true, Bool.not_eq_true'] at valid
    exact valid.1.1
  · next invalid =>
    cases written
    exact .inl ⟨if_neg invalid, rfl⟩

theorem Conserved.not_executed (conserved : state.Conserved config)
    (alive : (state.insts inst).squashed = false) (placed : (state.view inst).places ≠ 0) :
    (state.insts inst).executed = false := by
  have ok := conserved.inv.ok inst
  have present := ok.inserted_of_places placed
  have seat := ok.seat present (ok.not_squashedInIQ present alive)
  cases done : (state.insts inst).executed with
  | false => rfl
  | true =>
    have one : (state.view inst).dyn.executed.toNat = 1 := congrArg Bool.toNat done
    omega

/-- How far an instruction is with its write-back: it gets to `toCommit` by executing. -/
def Delivers (inst : Nat) (state next : InstructionQueue) (wroteBack : List Nat) : Prop :=
  (next.lists .toCommit).count inst + wroteBack.count inst + (state.insts inst).executed.toNat ≤
    (state.lists .toCommit).count inst + (next.insts inst).executed.toNat

theorem Delivers.of_same (toCommit : next.lists .toCommit = state.lists .toCommit)
    (executed : (state.insts inst).executed = true → (next.insts inst).executed = true) :
    Delivers inst state next [] := by
  unfold Delivers
  rw [toCommit, count_nil]
  cases before : (state.insts inst).executed with
  | true => simp [executed before]
  | false => simp

variable {middle : InstructionQueue} {done : Nat}

theorem Delivers.instToCommit {fault : Bool} (insts : middle.insts = state.insts)
    (toCommit : middle.lists .toCommit = state.lists .toCommit)
    (unexecuted : (state.insts done).executed = false) :
    Delivers inst state (middle.instToCommit done fault) [] := by
  simp only [Delivers, InstructionQueue.instToCommit, push, modify, update_self, insts,
    toCommit, count_nil, count_append, update_apply]
  by_cases same : inst = done
  · subst same
    simp [unexecuted, IqInst.setExecuted]
  · rw [if_neg same, count_singleton]
    simp [beq_eq_false_iff_ne.mpr (Ne.symm same)]

theorem executed_delivers {outcome : IssueOutcome}
    (insts : middle.insts = state.insts) (plain : (state.insts inst).isMemRef = false)
    (toCommit : middle.lists .toCommit = state.lists .toCommit)
    (unexecuted : (state.insts done).executed = false)
    (executed : middle.executed done outcome = some next) : Delivers inst state next [] := by
  have other (memory : (middle.insts done).isMemRef = true) : inst ≠ done := by
    rintro rfl
    rw [insts, plain] at memory
    cases memory
  cases outcome with
  | finished fault =>
    cases executed
    exact .instToCommit insts toCommit unexecuted
  | deferred =>
    obtain ⟨_, rfl⟩ := fired executed
    exact .of_same (by simp [push, toCommit]) (by simp [push, insts])
  | blocked =>
    obtain ⟨memory, rfl⟩ := fired executed
    have different := other (Bool.and_eq_true_iff.mp memory).1
    refine .of_same (by simp [push, modify, toCommit]) ?_
    simp [push, modify, update_of_ne different, insts]
  | rescheduled strictlyOrdered =>
    obtain ⟨memory, executed⟩ := ite_none_right_eq_some.mp executed
    have different := other (Bool.and_eq_true_iff.mp memory).1
    cases executed
    cases strictlyOrdered with
    | true =>
      simp [Delivers, push, modify, update_of_ne different, insts, toCommit,
        beq_eq_false_iff_ne.mpr (Ne.symm different), count_append, count_singleton]
    | false => simp [Delivers, push, modify, update_of_ne different, insts, toCommit]
  | accessed =>
    obtain ⟨memory, rfl⟩ := fired executed
    refine .of_same (by simp [push, modify, toCommit]) ?_
    simp [push, modify, update_of_ne (other memory), insts]

theorem executed_of_modify {other : Nat} {change : IqInst → IqInst}
    (keeps : ∀ dyn, dyn.executed = true → (change dyn).executed = true)
    (executed : (state.insts inst).executed = true) :
    ((state.modify other change).insts inst).executed = true := by
  simp only [modify, update_apply]
  split
  · next same => exact keeps _ (same ▸ executed)
  · exact executed

def concernsWriteback : IqEvent → Bool
  | .execute .. | .accessDone .. | .writeback _ => true
  | _ => false

theorem step_sameCommit (other : concernsWriteback event = false)
    (stepped : state.step config event = some next) :
    next.lists .toCommit = state.lists .toCommit ∧ ∀ inst ∈ state.inserted,
      (state.insts inst).executed = true → (next.insts inst).executed = true := by
  cases event with
  | execute | accessDone | writeback => cases other
  | dispatch inst renamed producingStores =>
    obtain ⟨new, stepped⟩ := ite_none_right_eq_some.mp stepped
    have leaves := dispatch_leaves stepped
    refine ⟨leaves.toCommit, fun other present => ?_⟩
    have different : other ≠ inst := by
      rintro rfl
      exact (mem_of_isNew new).1 present
    rw [leaves.insts other different]
    exact id
  | scheduleNonSpec inst =>
    obtain ⟨_, rfl⟩ := scheduleNonSpec_eq stepped
    exact ⟨by simp [addReadyInst, push, pop, modify], fun _ _ => executed_of_modify fun _ => id⟩
  | issue inst =>
    obtain ⟨_, stepped⟩ := ite_none_right_eq_some.mp stepped
    split at stepped
    · cases stepped
      exact ⟨by simp [pop], fun _ _ => id⟩
    · cases stepped
      split
      · exact ⟨by simp [push, pop, modify], fun _ _ => executed_of_modify fun _ => id⟩
      · exact ⟨by simp [push, pop, modify, release], fun _ _ => executed_of_modify fun _ => id⟩
  | executeDeferred | executeBlocked =>
    obtain ⟨_, rfl⟩ := fired stepped
    exact ⟨by simp [addReadyInst, push, pop], fun _ _ => id⟩
  | cacheUnblocked =>
    cases stepped
    exact ⟨by simp [cacheUnblocked, setLists], fun _ _ => id⟩
  | replay tid =>
    obtain ⟨_, rfl⟩ := fired stepped
    exact ⟨by simp [setLists], fun _ _ => id⟩
  | commit tid seqNum =>
    cases stepped
    exact ⟨rfl, fun _ _ => id⟩
  | squash tid seqNum =>
    have spares := squash_spares stepped
    refine ⟨spares.toCommit, fun inst _ => ?_⟩
    rw [spares.executed]
    exact id
  | setSquashed inst =>
    cases stepped
    exact ⟨rfl, fun _ _ => executed_of_modify fun _ => id⟩

theorem places_of_underway {list : IqList} (member : inst ∈ state.lists list)
    (underway : list = .instsToExecute ∨ list = .accessing) :
    (state.view inst).places ≠ 0 := by
  have counted : 0 < (state.view inst).lists list := count_pos_iff.mpr member
  rcases underway with rfl | rfl <;> simp only [EntryView.places] <;> omega

theorem step_delivers (conserved : state.Conserved config)
    (present : inst ∈ state.inserted) (plain : (state.insts inst).isMemRef = false)
    (stepped : state.step config event = some next) :
    Delivers inst state next (state.writesBack event) := by
  cases concerns : concernsWriteback event with
  | false =>
    have none : state.writesBack event = [] := by
      cases event <;> first | rfl | cases concerns
    obtain ⟨toCommit, executed⟩ := step_sameCommit concerns stepped
    rw [none]
    exact .of_same toCommit (executed inst present)
  | true =>
    cases event with
    | execute other outcome =>
      obtain ⟨member, stepped⟩ := ite_none_right_eq_some.mp stepped
      split at stepped
      · cases stepped
        refine .of_same (by simp [pop, modify]) ?_
        exact executed_of_modify fun _ _ => rfl
      · next alive =>
        refine executed_delivers ?_ plain ?_ (conserved.not_executed
          (Bool.of_not_eq_true alive) (places_of_underway member (.inl rfl))) stepped
        · rfl
        · simp [pop]
    | accessDone other fault =>
      obtain ⟨member, stepped⟩ := ite_none_right_eq_some.mp stepped
      split at stepped
      · cases stepped
        exact .of_same (by simp [pop]) id
      · next alive =>
        cases stepped
        refine .instToCommit ?_ ?_ (conserved.not_executed
          (Bool.of_not_eq_true alive) (places_of_underway member (.inr rfl)))
        · rfl
        · simp [pop]
    | writeback other =>
      obtain ⟨member, written⟩ := writeback_spec stepped
      have counted : 0 < (state.lists .toCommit).count other := count_pos_iff.mpr member
      have popped : ((state.pop .toCommit other).lists .toCommit).count inst =
          (state.lists .toCommit).count inst - if inst = other then 1 else 0 := by
        simp only [pop, update_self, count_erase]
        by_cases same : inst = other
        · simp [same]
        · simp [same, Ne.symm same]
      rcases written with ⟨none, rfl⟩ | ⟨one, alive, woken⟩
      · rw [none, Delivers, popped, count_nil]
        simp only [pop]
        omega
      · have same := (wakeDependents_sameProgress woken).1
        rw [one, Delivers, same.toCommit, popped, same.executed, count_singleton]
        by_cases same : inst = other
        · subst same
          simp only [pop, beq_self_eq_true, if_true]
          omega
        · simp only [pop, same, if_false, beq_eq_false_iff_ne.mpr (Ne.symm same)]
          simp
    | _ => cases concerns

theorem executed_toCommit {outcome : IssueOutcome}
    (executed : state.executed done outcome = some next) :
    ∀ inst ∈ next.lists .toCommit, inst ∈ state.lists .toCommit ∨ inst = done := by
  intro inst member
  cases outcome with
  | finished fault =>
    cases executed
    simpa [instToCommit, push, modify] using member
  | deferred =>
    obtain ⟨_, rfl⟩ := fired executed
    exact .inl (by simpa [push] using member)
  | blocked =>
    obtain ⟨_, rfl⟩ := fired executed
    exact .inl (by simpa [push, modify] using member)
  | rescheduled strictlyOrdered =>
    obtain ⟨_, rfl⟩ := fired executed
    cases strictlyOrdered with
    | true => simpa [push, modify] using member
    | false => exact .inl (by simpa [push, modify] using member)
  | accessed =>
    obtain ⟨_, rfl⟩ := fired executed
    exact .inl (by simpa [push, modify] using member)

theorem step_toCommit (conserved : state.Conserved config)
    (stepped : state.step config event = some next) :
    ∀ inst ∈ next.lists .toCommit, inst ∈ state.lists .toCommit ∨ inst ∈ state.inserted := by
  have present {inst : Nat} {list : IqList} (member : inst ∈ state.lists list)
      (underway : list = .instsToExecute ∨ list = .accessing) : inst ∈ state.inserted :=
    count_pos_iff.mp (Nat.lt_of_lt_of_eq Nat.zero_lt_one
      ((conserved.inv.ok inst).inserted_of_places (places_of_underway member underway)).symm)
  intro inst member
  cases concerns : concernsWriteback event with
  | false => exact .inl ((step_sameCommit concerns stepped).1 ▸ member)
  | true =>
    cases event with
    | execute other outcome =>
      obtain ⟨underway, stepped⟩ := ite_none_right_eq_some.mp stepped
      split at stepped
      · cases stepped
        exact .inl (by simpa [pop, modify] using member)
      · refine (executed_toCommit stepped inst member).imp (fun before => ?_) ?_
        · simpa [pop] using before
        · rintro rfl
          exact present underway (.inl rfl)
    | accessDone other fault =>
      obtain ⟨underway, stepped⟩ := ite_none_right_eq_some.mp stepped
      split at stepped
      · cases stepped
        exact .inl (by simpa [pop] using member)
      · cases stepped
        have here : inst ∈ state.lists .toCommit ∨ inst = other := by
          simpa [instToCommit, push, pop, modify] using member
        refine here.imp_right ?_
        rintro rfl
        exact present underway (.inr rfl)
    | writeback other =>
      refine .inl ?_
      have popped : inst ∈ (state.pop .toCommit other).lists .toCommit →
          inst ∈ state.lists .toCommit := by
        intro member
        exact mem_of_mem_erase member
      rcases (writeback_spec stepped).2 with ⟨_, rfl⟩ | ⟨_, _, woken⟩
      · exact popped member
      · exact popped ((wakeDependents_sameProgress woken).1.toCommit ▸ member)
    | _ => cases concerns

theorem step_entries (present : inst ∈ state.inserted)
    (removed : state.memDepHash inst = none) (stepped : state.step config event = some next) :
    next.memDepHash inst = none := by
  by_contra back
  obtain ⟨entry, found⟩ := Option.ne_none_iff_exists'.mp back
  cases event with
  | dispatch other renamed producingStores =>
    obtain ⟨new, stepped⟩ := ite_none_right_eq_some.mp stepped
    have different : inst ≠ other := by
      rintro rfl
      exact (mem_of_isNew new).1 present
    exact back (((dispatch_leaves stepped).entries inst different).trans removed)
  | writeback other =>
    rcases (writeback_spec stepped).2 with ⟨_, rfl⟩ | ⟨_, _, woken⟩
    · exact back removed
    · exact back ((wakeDependents_sameProgress woken).1.entries inst removed)
  | commit tid seqNum =>
    cases stepped
    exact back removed
  | squash tid seqNum =>
    exact absurd ((squash_spares stepped).entries inst entry found) (by simp [removed])
  | scheduleNonSpec | issue | execute | accessDone | executeDeferred | executeBlocked
  | cacheUnblocked | replay | setSquashed =>
    obtain ⟨before, known, _⟩ := (step_advances rfl stepped).entries inst entry found
    exact absurd known (by simp [removed])

structure WroteBack (state : InstructionQueue) (wroteBack : List Nat) : Prop where
  inserted : ∀ inst, inst ∈ wroteBack ∨ inst ∈ state.lists .toCommit → inst ∈ state.inserted
  plain : ∀ inst ∈ state.inserted, (state.insts inst).isMemRef = false →
    (state.lists .toCommit).count inst + wroteBack.count inst ≤ (state.insts inst).executed.toNat
  memory : ∀ inst ∈ wroteBack, (state.insts inst).isMemRef = true → state.memDepHash inst = none

theorem WroteBack.fresh {wroteBack : List Nat} (inv : state.WroteBack wroteBack)
    (written : state.writeback inst = some next)
    (valid : state.writesBack (.writeback inst) = [inst]) : inst ∉ wroteBack := by
  intro again
  obtain ⟨member, ⟨invalid, _⟩ | ⟨_, _, woken⟩⟩ := writeback_spec written
  · exact absurd (valid.symm.trans invalid) (by simp)
  cases memory : (state.insts inst).isMemRef with
  | true => exact ((wakeDependents_sameProgress woken).2 memory).1 (inv.memory inst again memory)
  | false =>
    have bound := inv.plain inst (inv.inserted inst (.inl again)) memory
    have pending : 0 < (state.lists .toCommit).count inst := count_pos_iff.mpr member
    have done : 0 < wroteBack.count inst := count_pos_iff.mpr again
    have := Bool.toNat_le (state.insts inst).executed
    omega

/-- What a dispatched or older instruction is does not change, and none is forgotten. -/
theorem step_core (present : inst ∈ state.inserted)
    (stepped : state.step config event = some next) :
    inst ∈ next.inserted ∧ (next.insts inst).core = (state.insts inst).core := by
  cases event with
  | dispatch other renamed producingStores =>
    obtain ⟨new, stepped⟩ := ite_none_right_eq_some.mp stepped
    have leaves := dispatch_leaves stepped
    have different : inst ≠ other := by
      rintro rfl
      exact (mem_of_isNew new).1 present
    exact ⟨(leaves.inserted inst different).mpr present,
      congrArg IqInst.core (leaves.insts inst different)⟩
  | writeback other =>
    have same := writeback_sameInsts stepped
    exact ⟨same.inserted ▸ present, same.core inst⟩
  | commit tid seqNum =>
    cases stepped
    exact ⟨present, rfl⟩
  | squash tid seqNum =>
    have spares := squash_spares stepped
    exact ⟨spares.inserted ▸ present, spares.core inst⟩
  | scheduleNonSpec | issue | execute | accessDone | executeDeferred | executeBlocked
  | cacheUnblocked | replay | setSquashed =>
    have same := (step_advances rfl stepped).sameInsts
    exact ⟨same.inserted ▸ present, same.core inst⟩

theorem isMemRef_of_core {dyn other : IqInst} (same : dyn.core = other.core) :
    dyn.isMemRef = other.isMemRef :=
  congrArg (fun core => core.1.isMemRef) same

theorem step_wroteBack {wroteBack : List Nat} (conserved : state.Conserved config)
    (inv : state.WroteBack wroteBack) (stepped : state.step config event = some next) :
    next.WroteBack (wroteBack ++ state.writesBack event) := by
  have present : ∀ inst, inst ∈ wroteBack ++ state.writesBack event → inst ∈ state.inserted := by
    intro inst member
    rcases mem_append.mp member with before | now
    · exact inv.inserted inst (.inl before)
    · obtain ⟨rfl, _⟩ := mem_writesBack now
      exact inv.inserted inst (.inr (writeback_spec stepped).1)
  refine ⟨fun inst member => ?_, fun inst inserted plain => ?_, fun inst member memory => ?_⟩
  · have before : inst ∈ state.inserted := by
      rcases member with written | pending
      · exact present inst written
      · exact (step_toCommit conserved stepped inst pending).elim
          (fun waiting => inv.inserted inst (.inr waiting)) id
    exact (step_core before stepped).1
  · by_cases before : inst ∈ state.inserted
    · rw [isMemRef_of_core (step_core before stepped).2] at plain
      have delivers := step_delivers conserved before plain stepped
      have bound := inv.plain inst before plain
      unfold Delivers at delivers
      rw [count_append]
      omega
    · have pending : (next.lists .toCommit).count inst = 0 := by
        refine count_eq_zero.mpr fun pending => before ?_
        exact (step_toCommit conserved stepped inst pending).elim
          (fun waiting => inv.inserted inst (.inr waiting)) id
      have written : (wroteBack ++ state.writesBack event).count inst = 0 :=
        count_eq_zero.mpr fun written => before (present inst written)
      omega
  · have before := present inst member
    rw [isMemRef_of_core (step_core before stepped).2] at memory
    rcases mem_append.mp member with earlier | now
    · exact step_entries before (inv.memory inst earlier memory) stepped
    · obtain ⟨rfl, valid⟩ := mem_writesBack now
      obtain ⟨_, ⟨invalid, _⟩ | ⟨_, _, woken⟩⟩ := writeback_spec stepped
      · exact absurd (valid.symm.trans invalid) (by simp)
      · exact ((wakeDependents_sameProgress woken).2 memory).2

/-! ## Steps as seen by the scoreboard -/

structure Wakes (regs : List PhysRegId) (state next : InstructionQueue) : Prop where
  core : ∀ inst, (next.insts inst).core = (state.insts inst).core
  inserted : next.inserted = state.inserted
  squashed : ∀ inst, (next.insts inst).squashed = false → (state.insts inst).squashed = false
  regScoreboard : ∀ reg, next.regScoreboard reg =
    (state.regScoreboard reg || regs.contains reg && !reg.isFixedMapping)
  sourced : ∀ board inst, (∀ reg, reg.isFixedMapping = true → board reg = true) →
    (next.insts inst).squashed = false → state.Sourced board inst →
    next.Sourced (fun reg => board reg || regs.contains reg) inst
  told : ∀ inst, state.Told inst → next.Told inst

theorem Wakes.of_advances (advances : state.Advances next) : Wakes [] state next where
  core := advances.sameInsts.core
  inserted := advances.inserted
  squashed := advances.squashed
  regScoreboard reg := by simp [advances.regScoreboard]
  sourced board inst _ _ sourced := by simpa using advances.sourced sourced
  told inst := advances.told

theorem Wakes.of_spares (spares : state.Spares next) : Wakes [] state next where
  core := spares.core
  inserted := spares.inserted
  squashed inst alive := spares.insts inst alive ▸ alive
  regScoreboard reg := by simp [spares.regScoreboard]
  sourced board inst _ alive sourced := by simpa using spares.sourced alive sourced
  told inst := spares.told

theorem Wakes.trans {first second : List PhysRegId}
    (before : Wakes first state middle) (after : Wakes second middle next) :
    Wakes (first ++ second) state next where
  core inst := (after.core inst).trans (before.core inst)
  inserted := after.inserted.trans before.inserted
  squashed inst := before.squashed inst ∘ after.squashed inst
  regScoreboard reg := by
    rw [after.regScoreboard, before.regScoreboard]
    cases reg.isFixedMapping <;> simp [Bool.or_assoc]
  sourced board inst fixed alive sourced := by
    have between := before.sourced board inst fixed (after.squashed inst alive) sourced
    have last := after.sourced _ inst
      (fun reg constant => by simp [fixed reg constant]) alive between
    simpa [Bool.or_assoc] using last
  told inst := after.told inst ∘ before.told inst

theorem wakeReg_wakes (woken : state.wakeReg reg = some next) : Wakes [reg] state next where
  core := (wakeReg_sameInsts woken).core
  inserted := (wakeReg_sameInsts woken).inserted
  squashed inst alive := (wakeReg_sameProgress woken).squashed inst ▸ alive
  regScoreboard other := by
    rw [wakeReg_regScoreboard woken]
    by_cases same : other = reg
    · simp [same]
    · simp [same, beq_eq_false_iff_ne.mpr same]
  sourced board inst fixed _ sourced := by
    have after := wakeReg_sourced (fixed reg) sourced woken
    have same : update board reg true = fun other => board other || [reg].contains other := by
      funext other
      by_cases here : other = reg
      · simp [here]
      · simp [here]
    rwa [same] at after
  told inst told := wakeReg_told told woken

theorem wakeRegs_wakes {regs : List PhysRegId} (woken : regs.foldlM wakeReg state = some next) :
    Wakes regs state next := by
  induction regs generalizing state with
  | nil =>
    cases woken
    exact .of_advances (.refl _)
  | cons reg rest ih =>
    obtain ⟨middle, first, woken⟩ := bind_eq_some_iff.mp woken
    exact (wakeReg_wakes first).trans (ih woken)

def wakes (state : InstructionQueue) (event : IqEvent) : List PhysRegId :=
  (state.writesBack event).flatMap fun inst => (state.insts inst).destRegs

theorem step_wakes (other : ∀ inst renamed stores, event ≠ .dispatch inst renamed stores)
    (stepped : state.step config event = some next) : Wakes (state.wakes event) state next := by
  cases event with
  | dispatch inst renamed stores => exact absurd rfl (other inst renamed stores)
  | writeback inst =>
    have popped : Wakes [] state (state.pop .toCommit inst) :=
      .of_advances (.of_lists _ (by simp))
    rcases (writeback_spec stepped).2 with ⟨none, rfl⟩ | ⟨one, _, woken⟩
    · simpa [wakes, none] using popped
    · obtain ⟨completed, first, rest⟩ := bind_eq_some_iff.mp woken
      have all := (popped.trans (.of_advances (completeInst_advances first))).trans
        (wakeRegs_wakes rest)
      rw [wakes, one, flatMap_singleton]
      exact all
  | commit tid seqNum =>
    cases stepped
    exact ⟨fun _ => rfl, rfl, fun _ => id, fun _ => by simp [wakes, writesBack, commit],
      fun board inst _ _ sourced => by simpa [wakes, writesBack] using
        (⟨sourced.nodes, sourced.readyRegs⟩ : Sourced board (state.commit tid seqNum) inst),
      fun _ told => told⟩
  | squash tid seqNum => exact .of_spares (squash_spares stepped)
  | scheduleNonSpec | issue | execute | accessDone | executeDeferred | executeBlocked
  | cacheUnblocked | replay | setSquashed => exact .of_advances (step_advances rfl stepped)

end Runahead.O3.InstructionQueue
