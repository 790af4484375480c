import Runahead.O3.Pipeline

/-!
# The stages preserve the pipeline invariant

One lemma for each event of a cycle except commit's own.
-/

set_option autoImplicit false

namespace Runahead.O3

open Library List InstTable
open Option (ite_none_right_eq_some)

/-! ## Lists in program order -/

theorem pairwise_concat {list : List Nat} {last : Nat} (ordered : list.Pairwise (· < ·))
    (above : ∀ inst ∈ list, inst < last) : (list ++ [last]).Pairwise (· < ·) := by
  refine pairwise_append.mpr ⟨ordered, pairwise_singleton _ _, ?_⟩
  intro inst member other same
  rw [mem_singleton.mp same]
  exact above inst member

theorem mem_tail_dropWhile {list : List Nat} {position inst : Nat}
    (ordered : list.Pairwise (· < ·)) (inside : position ∈ list) :
    inst ∈ (list.dropWhile (· != position)).tail ↔ inst ∈ list ∧ position < inst := by
  induction list with
  | nil => cases inside
  | cons first rest ih =>
    obtain ⟨least, ordered⟩ := pairwise_cons.mp ordered
    by_cases same : first = position
    · subst same
      simp only [dropWhile_cons, bne_self_eq_false, Bool.false_eq_true, ↓reduceIte,
        tail_cons, mem_cons]
      constructor
      · exact fun member => ⟨.inr member, least inst member⟩
      · rintro ⟨rfl | member, above⟩
        · exact absurd above (Nat.lt_irrefl _)
        · exact member
    · have inside : position ∈ rest := (mem_cons.mp inside).resolve_left (Ne.symm same)
      have different : (first != position) = true := by simpa using same
      simp only [dropWhile_cons, different, ↓reduceIte, ih ordered inside, mem_cons]
      have := least position inside
      constructor
      · exact And.imp_left .inr
      · rintro ⟨rfl | member, above⟩
        · omega
        · exact ⟨member, above⟩

namespace IewStruct

variable (slot : IewStruct)

@[simp] theorem squashDueToBranch_insts (seqNum : Nat) (nextPc : Addr) :
    (slot.squashDueToBranch seqNum nextPc).insts = slot.insts := by
  unfold squashDueToBranch
  split <;> rfl

@[simp] theorem squashDueToRunaheadExit_insts (seqNum : Nat) (pc : Addr) :
    (slot.squashDueToRunaheadExit seqNum pc).insts = slot.insts := by
  unfold squashDueToRunaheadExit
  split <;> rfl

@[simp] theorem squashDueToMemOrder_insts (seqNum : Nat) (pc : Addr) :
    (slot.squashDueToMemOrder seqNum pc).insts = slot.insts := by
  unfold squashDueToMemOrder
  split <;> rfl

theorem squashedInst_le : slot.squashedInst ≤ slot.squashedSeqNum := by
  unfold squashedInst
  split <;> omega

end IewStruct

namespace State

variable {config : Config} {state next : State} {inst : Nat}

/-! ## Memory system -/

theorem PipelineInv.withInsts (inv : state.PipelineInv config) (insts : InstTable)
    (steps : ∀ inst, StatusStep (state.insts inst) (insts inst))
    (squashed : ∀ inst, (insts inst).squashed = (state.insts inst).squashed)
    (ready : ∀ inst, (state.insts inst).canCommit = true → (insts inst).canCommit = true) :
    (state.withInsts insts).PipelineInv config where
  queues := inv.queues.withInsts insts (fun inst => (steps inst).dispatched)
    fun inst => (steps inst).squashed
  status := inv.status.withInsts insts steps
  squash := inv.squash.withInsts insts
    (fun inst _ before => ⟨(squashed inst).trans before.1, ready inst before.2⟩)
    fun inst _ now => .inl ((squashed inst).symm.trans now)
  toCycleInv := { inv.toCycleInv with
    flushed := fun signal phase inst member =>
      (squashed inst).trans (inv.flushed signal phase inst member) }

theorem PipelineInv.modifyInst (inv : state.PipelineInv config) (inst : Nat)
    (change : DynInst → DynInst)
    (changed : StatusStep (state.insts inst) (change (state.insts inst)))
    (squashed : (change (state.insts inst)).squashed = (state.insts inst).squashed)
    (ready : (change (state.insts inst)).canCommit = (state.insts inst).canCommit) :
    (state.modifyInst inst change).PipelineInv config := by
  exact inv.withInsts _ (StatusStep.modify inv.status.each changed)
    (modify_keeps DynInst.squashed squashed)
    fun other before => (modify_keeps DynInst.canCommit ready other).trans before

theorem exitRunaheadMode_pipeline (inv : state.PipelineInv config) :
    state.exitRunaheadMode.PipelineInv config where
  queues := { inv.queues with }
  status := { inv.status with
    completed := fun inst member => inv.status.completed inst (by
      simpa [exitRunaheadMode] using member) }
  squash := { inv.squash with }
  toCycleInv := { inv.toCycleInv with }

/-- A response removes its request, and the last one clears the miss. The last
response of the trigger also ends runahead mode. -/
theorem memResponse_cases {req : ReqId} (stepped : state.memResponse inst req = some next) :
    (state.insts inst).outstandingReqs ≠ [] ∧ (state.insts inst).executed = false ∧
      (next = state.modifyInst inst (·.reqCompleted req) ∨
        ((state.insts inst).reqCompleted req).outstandingReqs = [] ∧
          (next = state.modifyInst inst (fun dyn => (dyn.reqCompleted req).resetL2Miss) ∨
            state.core.inRunahead = true ∧ (state.insts inst).triggeredRunahead = true ∧
              next = (state.modifyInst inst
                fun dyn => (dyn.reqCompleted req).resetL2Miss).exitRunaheadMode)) := by
  simp only [memResponse, modifyInst_modifyInst] at stepped
  split at stepped
  · next possible =>
    simp only [Bool.and_eq_true, contains_iff_mem, Bool.not_eq_true'] at possible
    refine ⟨ne_nil_of_mem possible.1, possible.2, ?_⟩
    split at stepped
    · cases stepped
      exact .inl rfl
    · next last =>
      simp only [modifyInst_insts, modify_self, DynInst.numOutstandingRequests,
        Bool.not_eq_true', Bool.not_eq_false, List.isEmpty_iff] at last
      refine .inr ⟨last, ?_⟩
      split at stepped
      · next exits =>
        cases stepped
        simp only [modifyInst_insts, modify_self, Bool.and_eq_true] at exits
        exact .inr ⟨exits.1, exits.2, rfl⟩
      · cases stepped
        exact .inl rfl
  · cases stepped

theorem memResponse_pipeline {req : ReqId} (inv : state.PipelineInv config)
    (stepped : state.memResponse inst req = some next) : next.PipelineInv config := by
  have completed := StatusStep.reqCompleted (inv.status.each inst) req
  have reset : (state.modifyInst inst
      fun dyn => (dyn.reqCompleted req).resetL2Miss).PipelineInv config :=
    inv.modifyInst inst _ (completed.trans (.resetL2Miss completed.ok)) rfl rfl
  obtain ⟨_, _, rfl | ⟨_, rfl | ⟨_, _, rfl⟩⟩⟩ := memResponse_cases stepped
  · exact inv.modifyInst inst _ completed rfl rfl
  · exact reset
  · exact exitRunaheadMode_pipeline reset

/-- A step that only takes notes: of a miss in L2, of a store that is sent or complete, of
a trap, of an instruction on its way to commit. -/
def LightStep (state next : State) : Prop :=
  ∃ (missed sent : Nat → Bool) (trapSquash : Bool) (completed : List Nat)
    (storeQueue : List SQEntry),
    (∀ inst, missed inst = true →
      (state.insts inst).missedInL2 = true ∨ (state.insts inst).outstandingReqs ≠ []) ∧
    (trapSquash = true → state.core.trapSquash = true ∨ state.core.trapInFlight = true) ∧
    (∀ inst ∈ completed, inst ∈ state.iewCurrent.insts ∨ (state.insts inst).executed = true) ∧
    next = { state with
      core := { state.core with
        insts := fun inst =>
          { state.insts inst with missedInL2 := missed inst, sent := sent inst }
        trapSquash := trapSquash }
      storeQueue := storeQueue
      iewCurrent := { state.iewCurrent with insts := completed } }

def Event.isLight : Event → Bool
  | .l2Miss _ | .completeStore _ | .trapFires | .instToCommit _ | .sendStore _ => true
  | _ => false

theorem step_light {event : Event} (light : Event.isLight event = true)
    (stepped : state.step config event = some next) : state.LightStep next := by
  cases event with
  | l2Miss inst =>
    obtain ⟨possible, rfl⟩ := fired (ite_none_right_eq_some.mp stepped).2
    simp only [Bool.and_eq_true] at possible
    have noted : state.modifyInst inst DynInst.setL2Miss = state.withInsts fun other =>
        { state.insts other with
          missedInL2 := decide (other = inst) || (state.insts other).missedInL2 } := by
      refine congrArg state.withInsts (funext fun other => ?_)
      rw [modify_apply]
      split <;> simp [*, DynInst.setL2Miss]
    rw [noted]
    refine ⟨_, _, _, _, _, fun other missed => ?_, .inl, fun _ => .inl, rfl⟩
    rcases Bool.or_eq_true_iff.mp missed with here | before
    · rw [of_decide_eq_true here]
      exact .inr (by simpa [DynInst.numOutstandingRequests] using possible.1.1)
    · exact .inl before
  | completeStore inst =>
    have stepped := (ite_none_right_eq_some.mp stepped).2
    simp only [completeStore] at stepped
    split at stepped
    · cases stepped
    · obtain ⟨_, rfl⟩ := fired stepped
      exact ⟨_, _, _, _, _, fun _ => .inl, .inl, fun _ => .inl, rfl⟩
  | trapFires =>
    obtain ⟨possible, rfl⟩ := fired (ite_none_right_eq_some.mp stepped).2
    simp only [Bool.and_eq_true] at possible
    exact ⟨_, _, _, _, _, fun _ => .inl, fun _ => .inr possible.1, fun _ => .inl, rfl⟩
  | instToCommit inst =>
    obtain ⟨executed, rfl⟩ := fired (ite_none_right_eq_some.mp stepped).2
    refine ⟨_, _, _, _, _, fun _ => .inl, .inl, fun other member => ?_, rfl⟩
    rcases mem_append.mp member with before | last
    · exact .inl before
    · rw [mem_singleton.mp last]
      exact .inr executed
  | sendStore inst =>
    have stepped := (ite_none_right_eq_some.mp stepped).2
    simp only [sendStore] at stepped
    split at stepped
    · cases stepped
    · obtain ⟨_, rfl⟩ := fired stepped
      have noted : state.modifyInst inst DynInst.setSent = state.withInsts fun other =>
          { state.insts other with
            sent := decide (other = inst) || (state.insts other).sent } := by
        refine congrArg state.withInsts (funext fun other => ?_)
        rw [modify_apply]
        split <;> simp [*, DynInst.setSent]
      rw [noted]
      exact ⟨_, _, _, _, _, fun _ => .inl, .inl, fun _ => .inl, rfl⟩
  | _ => cases light

theorem LightStep.pipeline (light : state.LightStep next) (inv : state.PipelineInv config) :
    next.PipelineInv config := by
  obtain ⟨_, _, _, _, _, missed, flying, executed, rfl⟩ := light
  have each := inv.status.each
  refine ⟨⟨{ inv.queues with }, { inv.status with
    each := fun inst => { each inst with
      missedDispatched := fun miss => (missed inst miss).elim (each inst).missedDispatched
        (each inst).requestsDispatched }
    completed := fun inst member => ?_ }, { inv.squash with
    progress := fun squashing => { inv.squash.progress squashing with }
    trapFired := fun fired => (flying fired).elim inv.squash.trapFired id }⟩,
    { inv.toCycleInv with }⟩
  rcases mem_append.mp member with current | sent
  · exact (executed inst current).elim
      (fun before => inv.status.completed inst (mem_append_left _ before)) id
  · exact inv.status.completed inst (mem_append_right _ sent)

theorem tcWrite_pipeline {pc : Addr} (inv : state.PipelineInv config)
    (stepped : state.tcWrite pc = some next) : next.PipelineInv config := by
  simp only [tcWrite] at stepped
  split at stepped
  · cases stepped
  · next possible =>
    cases stepped
    simp only [Bool.or_eq_true, not_or] at possible
    exact ⟨⟨{ inv.queues with }, { inv.status with },
      { inv.squash with trapAlone := fun flying => absurd flying possible.1 }⟩,
      { inv.toCycleInv with }⟩

/-! ## Execution -/

theorem StatusInv.modifyInst (inv : state.StatusInv) (change : DynInst → DynInst)
    {toExecute issuedNow : List Nat} (once : (toExecute ++ issuedNow).Nodup)
    (others : ∀ other, other ≠ inst →
      (other ∈ toExecute ++ issuedNow ↔ other ∈ state.toExecute ++ state.issuedNow))
    (pending : inst ∈ toExecute ++ issuedNow →
      (change (state.insts inst)).issued = true ∧ (change (state.insts inst)).executed = false)
    (ok : StatusOk (change (state.insts inst)))
    (dispatched : (change (state.insts inst)).dispatched = true)
    (executed : (state.insts inst).executed = true → (change (state.insts inst)).executed = true)
    (unready : (state.insts inst).dispatched = true →
        (state.insts inst).canCommit = false ∨ (state.insts inst).squashed = true ∨
        (state.insts inst).executed = true →
      (change (state.insts inst)).canCommit = false ∨
        (change (state.insts inst)).squashed = true ∨ (change (state.insts inst)).executed = true)
    (listed : (change (state.insts inst)).executed = true ∨
      (change (state.insts inst)).issued = false ∨
      (change (state.insts inst)).staticInst.isMemRef = true ∨ inst ∈ toExecute ++ issuedNow) :
    StatusInv { state.modifyInst inst change with
      toExecute := toExecute, issuedNow := issuedNow } := by
  -- every clause is settled at `inst` by the hypotheses and elsewhere by `inv`
  have table : ∀ other, State.insts { state.modifyInst inst change with
      toExecute := toExecute, issuedNow := issuedNow } other =
        if other = inst then change (state.insts other) else state.insts other :=
    (modify_apply state.insts inst · change)
  constructor
  · intro other
    rw [table]
    split
    · next same => exact same ▸ ok
    · exact inv.each other
  · exact once
  · intro other member
    rw [table]
    split
    · next same =>
      subst same
      exact ⟨dispatched, pending member⟩
    · next different => exact inv.issuedPending other ((others other different).mp member)
  · intro other
    rw [table]
    split
    · next same =>
      grind
    · next different =>
      intro dispatched issued executed
      exact (inv.issuedListed other dispatched issued executed).imp_right
        (Or.imp_right (others other different).mpr)
  · intro other member
    have before := inv.completed other member
    rw [table]
    split
    · next same => exact same ▸ executed (same ▸ before)
    · exact before
  · intro other which nonzero
    have before := inv.releasing other which nonzero
    rw [table]
    split
    · next same =>
      subst same
      exact ⟨dispatched, unready before.1 before.2⟩
    · exact before

theorem redirect_cases (state : State) (inst : Nat) (mispredicted : Bool) (violator : Option Nat) :
    state.redirect inst mispredicted violator = state ∨
      mispredicted = true ∧ state.redirect inst mispredicted violator =
        { state with
          fetchRedirect := true
          iewCurrent := state.iewCurrent.squashDueToBranch inst (state.insts inst).nextPc } ∨
      ∃ load, violator = some load ∧ state.redirect inst mispredicted violator =
        { state with
          fetchRedirect := true
          iewCurrent := state.iewCurrent.squashDueToMemOrder load (state.insts load).pc } := by
  unfold redirect
  split
  · split
    · next yes => exact .inr (.inl ⟨yes, rfl⟩)
    · split
      · exact .inl rfl
      · next load => exact .inr (.inr ⟨load, rfl, rfl⟩)
  · exact .inl rfl

theorem redirect_pipeline {mispredicted : Bool} {violator : Option Nat}
    (inv : state.PipelineInv config) :
    (state.redirect inst mispredicted violator).PipelineInv config := by
  have written : ∀ slot : IewStruct, slot.insts = state.iewCurrent.insts →
      PipelineInv config { state with fetchRedirect := true, iewCurrent := slot } := by
    intro slot same
    refine ⟨⟨{ inv.queues with }, { inv.status with completed := ?_ }, { inv.squash with }⟩,
      { inv.toCycleInv with }⟩
    intro inst member
    exact inv.status.completed inst (by simpa [same] using member)
  rcases redirect_cases state inst mispredicted violator with same | ⟨_, branch⟩ | ⟨_, _, order⟩
  · rw [same]
    exact inv
  · rw [branch]
    exact written _ (IewStruct.squashDueToBranch_insts ..)
  · rw [order]
    exact written _ (IewStruct.squashDueToMemOrder_insts ..)

theorem PipelineInv.execute (inv : state.PipelineInv config) {change : DynInst → DynInst}
    {toExecute issuedNow : List Nat}
    (status : StatusInv { state.modifyInst inst change with
      toExecute := toExecute, issuedNow := issuedNow })
    (issuing : state.phase ≠ .iew → issuedNow = [])
    (dispatched : (change (state.insts inst)).dispatched = (state.insts inst).dispatched)
    (squashed : (change (state.insts inst)).squashed = (state.insts inst).squashed)
    (ready : (state.insts inst).canCommit = true → (change (state.insts inst)).canCommit = true) :
    PipelineInv config { state.modifyInst inst change with
      toExecute := toExecute, issuedNow := issuedNow } := by
  have same := modify_keeps DynInst.squashed squashed
  have queues := inv.queues.withInsts _ (modify_keeps DynInst.dispatched dispatched)
    fun other before => (same other).trans before
  have squash := inv.squash.withInsts (state.insts.modify inst change)
    (fun other _ before => ⟨(same other).trans before.1, by
      by_cases here : other = inst
      · subst here
        rw [modify_self]
        exact ready before.2
      · rw [modify_other _ _ here]
        exact before.2⟩)
    (fun other _ now => .inl ((same other).symm.trans now))
  exact ⟨⟨{ queues with }, status, { squash with }⟩, { inv.toCycleInv with
    issuing := issuing
    flushed := fun signal phase other member =>
      (same other).trans (inv.flushed signal phase other member) }⟩

theorem writeback_pipeline {fault mispredicted : Bool} (inv : state.PipelineInv config)
    (stepped : state.writeback inst fault mispredicted = some next) :
    next.PipelineInv config := by
  simp only [writeback] at stepped
  split at stepped
  · next accepted =>
    simp only [Bool.and_eq_true, Bool.not_eq_true', contains_eq_mem,
      decide_eq_false_iff_not] at accepted
    obtain ⟨⟨⟨⟨⟨⟨⟨dispatched, issued⟩, unexecuted⟩, notQueued⟩, notIssuing⟩, _⟩, _⟩, _⟩ := accepted
    have unlisted : inst ∉ state.toExecute ++ state.issuedNow := by simp [notQueued, notIssuing]
    split at stepped
    · cases stepped
      exact inv
    · cases stepped
      exact redirect_pipeline (inv.execute (inv.status.modifyInst _ inv.status.issuedOnce
        (fun _ _ => Iff.rfl) (fun member => absurd member unlisted)
        ((inv.status.each inst).finish dispatched fault) dispatched (fun _ => rfl)
        (fun _ _ => .inr (.inr rfl)) (.inl rfl)) inv.issuing rfl rfl id)
  · cases stepped

/-- Executing an instruction takes it out of the functional units. Then it is
dropped, has its result, starts its memory access or tries again later. -/
theorem executeInst_cases {outcome : ExecOutcome}
    (stepped : state.executeInst inst outcome = some next) :
    inst ∈ state.toExecute ∧
      let rest := { state with toExecute := state.toExecute.erase inst }
      let dyn := state.insts inst
      ((dyn.squashed = true ∧ next = rest.modifyInst inst (·.setExecuted.setCanCommit)) ∨
        (dyn.squashed = false ∧ ∃ fault mispredicted violator,
          (mispredicted = true → dyn.staticInst.isControl = true) ∧
          rest.violatorPossible inst violator = true ∧
          next = (rest.modifyInst inst (·.finish fault)).redirect inst mispredicted violator) ∨
        (dyn.squashed = false ∧ dyn.staticInst.isMemRef = true ∧ ∃ reqs violator,
          rest.violatorPossible inst violator = true ∧
          next = State.redirect { rest.modifyInst inst (·.addReqs reqs) with
            storeQueue :=
              if dyn.staticInst.writesAtExecute then allowWriteback state.storeQueue inst
              else state.storeQueue } inst false violator) ∨
        (dyn.squashed = false ∧ dyn.staticInst.isMemRef = true ∧
          next = rest.modifyInst inst DynInst.clearIssued)) := by
  simp only [executeInst] at stepped
  split at stepped
  · cases stepped
  · next queued =>
    refine ⟨by simpa using queued, ?_⟩
    split at stepped
    · next squashed =>
      cases stepped
      exact .inl ⟨squashed, rfl⟩
    · next alive =>
      have alive : (state.insts inst).squashed = false := by simpa using alive
      cases outcome with
      | finish fault mispredicted violator =>
        obtain ⟨possible, rfl⟩ := fired stepped
        simp only [Bool.and_eq_true, Bool.or_eq_true, Bool.not_eq_true'] at possible
        refine .inr (.inl ⟨alive, fault, mispredicted, violator, ?_, possible.2, rfl⟩)
        rintro rfl
        simpa using possible.1
      | access reqs violator =>
        obtain ⟨possible, rfl⟩ := fired stepped
        simp only [Bool.and_eq_true] at possible
        exact .inr (.inr (.inl ⟨alive, possible.1.1, reqs, violator, possible.2, rfl⟩))
      | defer =>
        obtain ⟨memory, rfl⟩ := fired stepped
        exact .inr (.inr (.inr ⟨alive, memory, rfl⟩))

theorem StatusInv.not_mem_erase (inv : state.StatusInv) (member : inst ∈ state.toExecute) :
    inst ∉ state.toExecute.erase inst ++ state.issuedNow := by
  have split := nodup_append.mp inv.issuedOnce
  simp only [mem_append, not_or]
  exact ⟨List.Nodup.not_mem_erase split.1, fun other => split.2.2 inst member inst other rfl⟩

theorem executeInst_pipeline {outcome : ExecOutcome} (inv : state.PipelineInv config)
    (stepped : state.executeInst inst outcome = some next) : next.PipelineInv config := by
  obtain ⟨member, result⟩ := executeInst_cases stepped
  obtain ⟨dispatched, issued, unexecuted⟩ :=
    inv.status.issuedPending inst (mem_append_left _ member)
  have gone := inv.status.not_mem_erase member
  have once : (state.toExecute.erase inst ++ state.issuedNow).Nodup :=
    inv.status.issuedOnce.sublist (erase_sublist.append_right _)
  have others : ∀ other, other ≠ inst → (other ∈ state.toExecute.erase inst ++ state.issuedNow ↔
      other ∈ state.toExecute ++ state.issuedNow) := by
    intro other different
    simp only [mem_append, mem_erase_of_ne different]
  have ok := inv.status.each inst
  have status := fun change => inv.status.modifyInst change once others
    (fun member => absurd member gone)
  rcases result with ⟨_, rfl⟩ | ⟨_, fault, mispredicted, violator, _, _, rfl⟩ |
    ⟨_, memory, reqs, violator, _, rfl⟩ | ⟨_, _, rfl⟩
  · exact inv.execute (status _ (ok.setExecuted dispatched) dispatched (fun _ => rfl)
      (fun _ _ => .inr (.inr rfl)) (.inl rfl)) inv.issuing rfl rfl (fun _ => rfl)
  · exact redirect_pipeline (inv.execute (status _ (ok.finish dispatched fault)
      dispatched (fun _ => rfl) (fun _ _ => .inr (.inr rfl)) (.inl rfl)) inv.issuing rfl rfl id)
  · have requested := inv.execute (status (·.addReqs reqs)
      (StatusStep.addReqs ok dispatched reqs).ok dispatched id (fun _ => id)
      (.inr (.inr (.inl memory)))) inv.issuing rfl rfl id
    exact redirect_pipeline ⟨⟨{ requested.queues with }, { requested.status with },
      { requested.squash with }⟩, { requested.toCycleInv with }⟩
  · exact inv.execute (status _ ok.clearIssued dispatched id (fun _ => id)
      (.inr (.inl rfl))) inv.issuing rfl rfl id

theorem issueInst_pipeline (inv : state.PipelineInv config) (phase : state.phase = .iew)
    (stepped : state.issueInst inst = some next) : next.PipelineInv config := by
  obtain ⟨possible, rfl⟩ := fired stepped
  simp only [Bool.and_eq_true, Bool.or_eq_true, Bool.not_eq_true'] at possible
  obtain ⟨⟨⟨⟨dispatched, unissued⟩, unexecuted⟩, alive⟩, released⟩ := possible
  have fresh : inst ∉ state.toExecute ++ state.issuedNow := by
    intro member
    simp [(inv.status.issuedPending inst member).2.1] at unissued
  have once : (state.toExecute ++ (state.issuedNow ++ [inst])).Nodup := by
    rw [← append_assoc]
    exact List.Nodup.append inv.status.issuedOnce (nodup_singleton _) (by simpa using fresh)
  refine inv.execute (inv.status.modifyInst _ once ?_ (fun _ => ⟨rfl, unexecuted⟩)
    ((inv.status.each inst).setIssued dispatched released) dispatched id (fun _ => id)
    (.inr (.inr (.inr (by simp))))) (fun other => absurd phase other) rfl rfl id
  intro other different
  simp only [mem_append, mem_singleton, different, or_false]
  exact Iff.rfl

/-! ## Fetch and decode -/

theorem mem_instsNotInROB {taken offered : List Nat} (queues : state.QueueInv taken offered) :
    inst ∈ state.instsNotInROB ↔
      inst ∈ state.core.instList ∧ ∀ older ∈ state.core.rob.instList, older < inst := by
  have ordered := (pairwise_append.mp queues.robOrdered).1
  unfold instsNotInROB
  cases atTail : state.core.rob.readTailInst with
  | none =>
    have empty : state.core.rob.instList = [] := getLast?_eq_none_iff.mp atTail
    simp [empty]
  | some tail =>
    have last : tail ∈ state.core.rob.instList := mem_of_getLast? atTail
    rw [mem_tail_dropWhile queues.listOrdered (queues.listed tail (mem_append_left _ last))]
    refine and_congr_right fun _ => ⟨fun above older member => ?_, fun above => above tail last⟩
    exact Nat.lt_of_le_of_lt (Rob.le_readTailInst ordered atTail member) above

theorem QueueInv.shrink {taken offered frontEnd : List Nat} (queues : state.QueueInv taken offered)
    (sub : frontEnd.Sublist state.frontEnd) :
    QueueInv { state with frontEnd := frontEnd } taken offered := by
  have fewer : (state.renameQueue0 ++ frontEnd).Sublist (state.renameQueue0 ++ state.frontEnd) :=
    (List.Sublist.refl _).append sub
  have shorter (before : List Nat) : (before ++
    (offered ++ (state.renameQueue0 ++ frontEnd))).Sublist
      (before ++ state.waiting offered) := (List.Sublist.refl _).append
        ((List.Sublist.refl _).append fewer)
  exact { queues with
    pipelineOrdered := queues.pipelineOrdered.sublist (shorter _)
    robOrdered := queues.robOrdered.sublist (shorter _)
    bounded := fun inst member => queues.bounded inst ((shorter _).subset member)
    undispatched := fun inst member => queues.undispatched inst ((shorter _).subset member)
    listed := fun inst member => queues.listed inst ((shorter _).subset member)
    kept := fun inst member => queues.kept inst (((List.Sublist.refl _).append fewer).subset member)
    committedBelow := fun inst member => queues.committedBelow inst ((shorter _).subset member) }

theorem squashInsts_pipeline (inv : state.PipelineInv config) {victims frontEnd : List Nat}
    (inside : victims ⊆ state.core.instList) (sub : frontEnd.Sublist state.frontEnd)
    (spared : ∀ inst ∈ state.core.rob.instList ++ (state.renameQueue0 ++ frontEnd),
      inst ∉ victims) :
    PipelineInv config { state.squashInsts victims with frontEnd := frontEnd } := by
  let marked := state.insts.modifyAll (fun inst => victims.contains inst) DynInst.setSquashed
  have steps : ∀ inst, StatusStep (state.insts inst) (marked inst) :=
    StatusStep.modifyAll inv.status.each fun inst _ => .setSquashed (inv.status.each inst)
  have queues := (inv.queues.withInsts marked (fun inst => (steps inst).dispatched)
    fun inst => (steps inst).squashed).shrink sub
  have untouched : ∀ inst ∈ state.core.rob.instList, marked inst = state.insts inst :=
    fun inst member => if_neg (by simpa using spared inst (mem_append_left _ member))
  have squash := inv.squash.withInsts marked
    (fun inst member before => (untouched inst member).symm ▸ before)
    (fun inst member now => .inl (untouched inst member ▸ now))
  have status := inv.status.withInsts marked steps
  refine ⟨⟨{ queues with kept := ?_, removedBounded := ?_, removedSquashed := ?_ },
    { status with }, { squash with }⟩, { inv.toCycleInv with
    flushed := fun signal phase inst member =>
      (steps inst).squashed (inv.flushed signal phase inst member) }⟩
  · intro inst member removed
    rcases mem_append.mp removed with before | victim
    · exact queues.kept inst member before
    · exact spared inst member victim
  · intro inst removed
    rcases mem_append.mp removed with before | victim
    · exact inv.queues.removedBounded inst before
    · exact inv.queues.listBounded inst (inside victim)
  · intro inst removed offered
    rcases mem_append.mp removed with before | victim
    · exact queues.removedSquashed inst before offered
    · change (marked inst).squashed = true
      simp [marked, modifyAll_apply, victim, DynInst.setSquashed]

theorem startTick_pipeline (inv : state.PipelineInv config)
    (phase : state.phase = .betweenTicks) : state.startTick.PipelineInv config := by
  have fresh := inv.fresh (.inl phase)
  unfold startTick
  split
  · next signal =>
    have squashed := squashInsts_pipeline inv
      (fun inst victim => ((mem_instsNotInROB inv.queues).mp victim).1)
      (nil_sublist state.frontEnd) (by
        intro inst member
        have inside : inst ∈ state.core.rob.instList := by simpa [fresh] using member
        rw [mem_instsNotInROB inv.queues]
        exact fun both => Nat.lt_irrefl _ (both.2 inst inside))
    refine ⟨⟨{ squashed.queues with }, { squashed.status with }, { squashed.squash with }⟩,
      { squashed.toCycleInv with
        taken := by simp
        fresh := fun _ => fresh
        issuing := fun _ => inv.issuing (by simp [phase])
        flushed := ?_ }⟩
    intro _ _ inst member
    have waiting : inst ∈ state.waiting state.renameQueue1 := mem_append_left _ member
    have victim : inst ∈ state.instsNotInROB := by
      rw [mem_instsNotInROB inv.queues]
      exact ⟨inv.queues.listed inst (mem_append_right _ waiting), fun older inside =>
        (pairwise_append.mp inv.queues.robOrdered).2.2 older inside inst waiting⟩
    change (state.insts.modifyAll (fun inst => state.instsNotInROB.contains inst)
      DynInst.setSquashed inst).squashed = true
    rw [modifyAll_apply, if_pos (by simpa using victim)]
    rfl
  · next signal =>
    exact ⟨⟨{ inv.queues with }, { inv.status with }, { inv.squash with }⟩,
      { inv.toCycleInv with
        taken := by simp
        fresh := fun _ => fresh
        issuing := fun _ => inv.issuing (by simp [phase])
        flushed := fun now => absurd now signal }⟩

theorem decodeSquash_pipeline (inv : state.PipelineInv config)
    (member : inst ∈ state.frontEnd) : (state.decodeSquash inst).PipelineInv config := by
  refine squashInsts_pipeline inv filter_sublist.subset filter_sublist ?_
  have ordered := pairwise_append.mp inv.queues.robOrdered
  have tailOrdered := pairwise_append.mp (pairwise_append.mp ordered.2.1).2.1
  intro other found victim
  have younger : inst < other := by simpa using (mem_filter.mp victim).2
  rcases mem_append.mp found with inside | rest
  · have := ordered.2.2 other inside inst (mem_append_right _ (mem_append_right _ member))
    omega
  · rcases mem_append.mp rest with renamed | front
    · have := tailOrdered.2.2 other renamed inst member
      omega
    · have : other ≤ inst := by simpa using (mem_filter.mp front).2
      omega

section Fetch

variable (state) (staticInst : StaticInst) (pc nextPc : Addr)

theorem fetchInst_old {other : Nat} (different : other ≠ state.nextSeqNum) :
    (state.fetchInst staticInst pc nextPc).insts other = state.insts other :=
  if_neg different

theorem fetchInst_new : (state.fetchInst staticInst pc nextPc).insts state.nextSeqNum =
    { staticInst := staticInst, pc := pc, nextPc := nextPc,
      runaheadInst := state.core.inRunahead } :=
  if_pos rfl

variable {state}

theorem fetchInst_queues (inv : state.QueueInv [] state.renameQueue1) :
    (state.fetchInst staticInst pc nextPc).QueueInv [] state.renameQueue1 := by
  have grown : (state.fetchInst staticInst pc nextPc).waiting state.renameQueue1 =
      state.waiting state.renameQueue1 ++ [state.nextSeqNum] := by
    simp [waiting, fetchInst]
  have below : ∀ other ∈ state.toDispatch [] ++ state.waiting state.renameQueue1,
      other < state.nextSeqNum := by
    intro other member
    rcases mem_append.mp member with left | right
    · exact inv.dispatchBounded other left
    · exact inv.bounded other (mem_append_right _ right)
  -- What holds of the places before and of the new instruction holds of the places after.
  have placed : ∀ {holds : Nat → Prop} {others : List Nat}, (∀ other ∈ others, holds other) →
      holds state.nextSeqNum → ∀ other ∈ others ++ [state.nextSeqNum], holds other :=
    fun before new => forall_mem_append.mpr ⟨before, by simpa using new⟩
  have longer : ∀ front : List Nat,
      front ++ (state.fetchInst staticInst pc nextPc).waiting state.renameQueue1 =
        front ++ state.waiting state.renameQueue1 ++ [state.nextSeqNum] :=
    fun front => by rw [grown, append_assoc]
  exact {
    pipelineOrdered := longer _ ▸ pairwise_concat inv.pipelineOrdered below
    robOrdered := longer _ ▸ pairwise_concat inv.robOrdered inv.bounded
    dispatchBounded := fun other member => Nat.lt_succ_of_lt (inv.dispatchBounded other member)
    bounded := longer _ ▸ placed (fun other before => Nat.lt_succ_of_lt (inv.bounded other before))
      (Nat.lt_succ_self _)
    undispatched := by
      rw [longer]
      refine placed (fun other before => ?_) (by rw [fetchInst_new])
      rw [fetchInst_old _ _ _ _ (Nat.ne_of_lt (below other before))]
      exact inv.undispatched other before
    unborn := by
      intro other above
      rw [fetchInst_old _ _ _ _ (Nat.ne_of_gt above)]
      exact inv.unborn other (Nat.le_of_lt above)
    listOrdered := pairwise_concat inv.listOrdered inv.listBounded
    listBounded := placed (fun other before => Nat.lt_succ_of_lt (inv.listBounded other before))
      (Nat.lt_succ_self _)
    listed := longer _ ▸ placed (fun other before => mem_append_left _ (inv.listed other before))
      (mem_append_right _ (mem_singleton.mpr rfl))
    kept := by
      change ∀ other ∈ state.core.rob.instList ++
        (state.renameQueue0 ++ (state.frontEnd ++ [state.nextSeqNum])), _
      rw [← append_assoc state.renameQueue0, ← append_assoc]
      exact placed inv.kept fun removed => Nat.lt_irrefl _ (inv.removedBounded _ removed)
    removedBounded := fun other removed => Nat.lt_succ_of_lt (inv.removedBounded other removed)
    removedSquashed := fun other removed offered => by
      rw [fetchInst_old _ _ _ _ (Nat.ne_of_lt (inv.removedBounded other removed))]
      exact inv.removedSquashed other removed offered
    committedBelow := longer _ ▸ placed inv.committedBelow inv.committedBounded
    committedBounded := Nat.lt_succ_of_lt inv.committedBounded }

theorem fetchInst_status (queues : state.QueueInv [] state.renameQueue1) (inv : state.StatusInv) :
    (state.fetchInst staticInst pc nextPc).StatusInv := by
  have known : ∀ other, (state.insts other).dispatched = true →
      (state.fetchInst staticInst pc nextPc).insts other = state.insts other := by
    refine fun other dispatched => fetchInst_old _ _ _ _ ?_
    rintro rfl
    simp [queues.unborn _ (Nat.le_refl _)] at dispatched
  exact {
    each := fun other => by
      by_cases same : other = state.nextSeqNum
      · rw [same, fetchInst_new]
        constructor <;> simp
      · rw [fetchInst_old _ _ _ _ same]
        exact inv.each other
    issuedOnce := inv.issuedOnce
    issuedPending := fun other member => by
      have pending := inv.issuedPending other member
      rw [known other pending.1]
      exact pending
    issuedListed := fun other dispatched => by
      by_cases same : other = state.nextSeqNum
      · rw [same, fetchInst_new] at dispatched
        cases dispatched
      · rw [fetchInst_old _ _ _ _ same] at dispatched ⊢
        exact inv.issuedListed other dispatched
    completed := fun other member => by
      have executed := inv.completed other member
      rw [known other ((inv.each other).executedDispatched executed)]
      exact executed
    releasing := fun other which nonzero => by
      have before := inv.releasing other which nonzero
      rw [known other before.1]
      exact before }

theorem fetchInst_pipeline (inv : state.PipelineInv config) :
    (state.fetchInst staticInst pc nextPc).PipelineInv config := by
  have old : ∀ {other}, other ∈ state.core.rob.instList ++ state.waiting state.renameQueue1 →
      (state.fetchInst staticInst pc nextPc).insts other = state.insts other :=
    fun member => fetchInst_old _ _ _ _ (Nat.ne_of_lt (inv.queues.bounded _ member))
  refine ⟨⟨fetchInst_queues _ _ _ inv.queues, fetchInst_status _ _ _ inv.queues inv.status,
    { inv.squash with
      progress := fun squashing => ?_
      squashedReady := fun other member => ?_ }⟩,
    { inv.toCycleInv with flushed := fun signal phase other member => ?_ }⟩
  · refine { inv.squash.progress squashing with visited := fun other member younger => ?_ }
    rw [old (mem_append_left _ member)]
    exact (inv.squash.progress squashing).visited other member younger
  · rw [old (mem_append_left _ member)]
    exact inv.squash.squashedReady other member
  · rw [old (mem_append_right _ (mem_append_left _ member))]
    exact inv.flushed signal phase other member

end Fetch

/-! ## Rename -/

theorem startRename_pipeline (inv : state.PipelineInv config) (phase : state.phase = .fetch) :
    state.startRename.PipelineInv config :=
  ⟨⟨{ inv.queues with }, { inv.status with }, { inv.squash with }⟩, { inv.toCycleInv with
    taken := by rintro ⟨⟩
    fresh := fun early => early.elim (by rintro ⟨⟩) (by rintro ⟨⟩)
    issuing := fun _ => inv.issuing (by simp [phase])
    flushed := fun signal _ => inv.flushed signal (by simp [phase]) }⟩

theorem renameInst_cases (stepped : state.renameInst = some next) :
    ∃ inst rest, state.frontEnd = inst :: rest ∧
      ((state.insts inst).squashed = true ∧ next = { state with frontEnd := rest } ∨
      (state.insts inst).squashed = false ∧ ∃ rename renamed sources,
        ∃ srcs : Nat → List PhysRegId, state.rename.renameDestRegs inst
          (state.insts inst).staticInst.destRegs = some (rename, renamed) ∧
        next = { state with
          core := { state.core with
            insts := fun other => { state.insts other with
              renamedSrcs := srcs other
              renamedDests :=
                if other = inst then renamed else (state.insts other).renamedDests }
            inv := fun reg =>
              if (renamed.map (·.2)).contains reg then false
              else if !state.core.inRunahead && List.contains sources reg then false
              else state.core.inv reg }
          rename := rename
          frontEnd := rest
          renameQueue0 := state.renameQueue0 ++ [inst] }) := by
  unfold renameInst at stepped
  split at stepped
  · cases stepped
  · next inst rest front =>
    refine ⟨inst, rest, front, ?_⟩
    split at stepped
    · next squashed =>
      cases stepped
      exact .inl ⟨squashed, rfl⟩
    · next alive =>
      have static : ((state.renameSrcRegs inst).insts inst).staticInst =
          (state.insts inst).staticInst := by
        simp [renameSrcRegs, insts, DynInst.setRenamedSrcs]
      simp only [static] at stepped
      split at stepped
      · cases stepped
      · next rename renamed allocated =>
        have table : (state.renameSrcRegs inst).core.insts.modify inst
            (·.setRenamedDests renamed) = fun other => { state.insts other with
              renamedSrcs := ((state.renameSrcRegs inst).insts other).renamedSrcs
              renamedDests :=
                if other = inst then renamed else (state.insts other).renamedDests } := by
          funext other
          by_cases same : other = inst
          · subst same
            simp [renameSrcRegs, insts, DynInst.setRenamedSrcs, DynInst.setRenamedDests]
          · simp [renameSrcRegs, insts, modify_other _ _ same, same]
        rw [table] at stepped
        cases stepped
        exact .inr ⟨by simpa using alive, rename, renamed, _, _, allocated, rfl⟩

theorem renameInst_pipeline (inv : state.PipelineInv config) (phase : state.phase = .rename)
    (unblocked : state.fromCommit.robSquashing = false)
    (room : state.renameQueue0.length < config.renameWidth)
    (stepped : state.renameInst = some next) : next.PipelineInv config := by
  obtain ⟨inst, rest, front, ⟨squashed, rfl⟩ | ⟨alive, _, _, _, _, _, rfl⟩⟩ :=
    renameInst_cases stepped
  · have shorter : rest.Sublist state.frontEnd := front ▸ sublist_cons_self inst rest
    exact ⟨⟨inv.queues.shrink shorter, { inv.status with }, { inv.squash with }⟩,
      { inv.toCycleInv with }⟩
  · have moved : (state.renameQueue0 ++ [inst]) ++ rest = state.renameQueue0 ++ state.frontEnd := by
      rw [front, append_assoc, singleton_append]
    have queues : QueueInv { state with
        frontEnd := rest, renameQueue0 := state.renameQueue0 ++ [inst] } []
        state.renameQueue1 := by
      obtain ⟨pipelineOrdered, robOrdered, dispatchBounded, bounded, undispatched, unborn,
        listOrdered, listBounded, listed, kept, removedBounded, removedSquashed,
        committedBelow, committedBounded⟩ := inv.queues
      constructor <;> (try simp only [waiting, toDispatch, moved]) <;> assumption
    exact ⟨⟨{ queues with }, { inv.status with each := fun other =>
      { inv.status.each other with } },
      { inv.squash with progress := fun squashing => { inv.squash.progress squashing with } }⟩,
      { inv.toCycleInv with
        width0 := by simpa using Nat.succ_le_of_lt room
        fresh := by simp [phase]
        blocked := fun blocked => clash unblocked blocked }⟩

/-! ## IEW -/

def markSquashed (state : State) (gone queued : Nat → Bool) : InstTable := fun inst =>
  { state.insts inst with
    squashed := gone inst || (state.insts inst).squashed
    canCommit := queued inst || (state.insts inst).canCommit
    issued := queued inst || (state.insts inst).issued }

/-- The instructions that a squash of IEW marks, and those it marks in the issue queue. -/
structure IEWSquash (state : State) (gone queued : Nat → Bool) : Prop where
  younger : ∀ inst, gone inst = true → state.fromCommit.doneSeqNum < inst
  queuedGone : ∀ inst, queued inst = true → gone inst = true ∧ (state.insts inst).dispatched = true
  spared : ∀ inst, gone inst = false → state.fromCommit.doneSeqNum < inst →
    (state.insts inst).dispatched = true → (state.insts inst).issued = true ∧
      ((state.insts inst).staticInst.isMemRef = false ∨ (state.insts inst).memOpDone = true)

theorem startIEW_cases (state : State) :
    (state.fromCommit.squash = true ∧ ∃ gone queued : Nat → Bool, ∃ storeQueue,
      state.IEWSquash gone queued ∧ state.startIEW = { state with
        core := { state.core with insts := state.markSquashed gone queued }
        phase := .iew, fetchRedirect := false
        skidBuffer := [], renameQueue2 := [], storeQueue := storeQueue }) ∨
    (state.fromCommit.squash = false ∧ ∃ skidBuffer,
      (skidBuffer = state.skidBuffer ∨ skidBuffer = state.skidBuffer ++ state.renameQueue2) ∧
      state.startIEW = { state with
        rename := if state.fromCommit.doneSeqNum ≠ 0 then
          state.rename.removeFromHistory state.fromCommit.doneSeqNum else state.rename
        phase := .iew, fetchRedirect := false
        skidBuffer := skidBuffer, renameQueue2 := [] }) := by
  unfold startIEW
  simp only
  cases signal : state.fromCommit.squash with
  | true =>
    simp only [Bool.not_true, Bool.and_false, Bool.false_eq_true, ↓reduceIte]
    let seqNum := state.fromCommit.doneSeqNum
    let popped := squashedStores state.storeQueue seqNum
    let queued := fun inst => decide (seqNum < inst) && (state.insts inst).dispatched &&
      (!(state.insts inst).issued ||
        ((state.insts inst).staticInst.isMemRef && !(state.insts inst).memOpDone))
    let popping := fun inst => decide (seqNum < inst) &&
      (squashIQ state.insts seqNum inst).dispatched &&
        ((squashIQ state.insts seqNum inst).staticInst.isLoad ||
          (popped.map (·.seqNum)).contains inst)
    have table : squashLSQ (squashIQ state.insts seqNum) popped seqNum =
        state.markSquashed (fun inst => queued inst || popping inst) queued := by
      funext inst
      change (if popping inst then (squashIQ state.insts seqNum inst).setSquashed
        else squashIQ state.insts seqNum inst) = _
      have queue : squashIQ state.insts seqNum inst =
          if queued inst then squashInIQ (state.insts inst) else state.insts inst := rfl
      rw [queue, markSquashed]
      cases queued inst <;> cases popping inst <;> rfl
    refine .inl ⟨trivial, fun inst => queued inst || popping inst, queued, _, ⟨?_, ?_, ?_⟩,
      congrArg (fun insts => { state.withInsts insts with
        phase := .iew, fetchRedirect := false, skidBuffer := [], renameQueue2 := []
        storeQueue := state.storeQueue.take (state.storeQueue.length - popped.length) }) table⟩
    · intro inst marked
      simp only [queued, popping, Bool.or_eq_true, Bool.and_eq_true, decide_eq_true_eq] at marked
      exact marked.elim (·.1.1) (·.1.1)
    · intro inst marked
      simp only [marked, Bool.true_or, true_and]
      simp only [queued, Bool.and_eq_true] at marked
      exact marked.1.2
    · intro inst kept younger dispatched
      have outside := (Bool.or_eq_false_iff.mp kept).1
      simp only [queued, seqNum, younger, dispatched, decide_true, Bool.true_and,
        Bool.or_eq_false_iff,
        Bool.not_eq_eq_eq_not, Bool.not_false, Bool.and_eq_false_iff] at outside
      exact outside
  | false =>
    simp only [Bool.not_false, Bool.and_true, Bool.false_eq_true, ↓reduceIte, decide_eq_true_eq]
    refine .inr ⟨trivial, ?_⟩
    split
    · exact ⟨_, .inl rfl, rfl⟩
    · exact ⟨_, .inr rfl, rfl⟩

theorem startIEW_pipeline (inv : state.PipelineInv config) (phase : state.phase = .rename) :
    state.startIEW.PipelineInv config := by
  rcases startIEW_cases state with
    ⟨signal, gone, queued, storeQueue, marks, after⟩ |
      ⟨quiet, skidBuffer, kept, after⟩ <;> rw [after]
  · have steps : ∀ inst, StatusStep (state.insts inst) (state.markSquashed gone queued inst) :=
      fun inst => .squash (inv.status.each inst) _ _ _
        (fun marked => (marks.queuedGone inst marked).1) (marks.queuedGone inst)
    have queues := inv.queues.withInsts _ (fun inst => (steps inst).dispatched)
      fun inst => (steps inst).squashed
    have status := inv.status.withInsts _ steps
    have squash := inv.squash.withInsts (state.markSquashed gone queued)
      (fun inst _ before => ⟨(steps inst).squashed before.1, by simp [markSquashed, before.2]⟩) (by
        intro inst member now
        rcases Bool.or_eq_true_iff.mp now with marked | before
        · have signalled := inv.squash.signal signal
          exact .inr (.inr ⟨signalled.1, (signalled.2.2 inst member).mp
            (marks.younger inst marked)⟩)
        · exact .inl before)
    refine ⟨⟨{ queues with
      pipelineOrdered := (pairwise_append.mp inv.queues.pipelineOrdered).2.1
      dispatchBounded := by rintro _ ⟨⟩
      undispatched := fun inst member => queues.undispatched inst (mem_append_right _ member) },
      { status with }, { squash with }⟩, { inv.toCycleInv with
      taken := fun _ => rfl
      fresh := fun early => early.elim (by rintro ⟨⟩) (by rintro ⟨⟩)
      issuing := fun other => absurd rfl other
      flushed := fun signal _ inst member =>
        (steps inst).squashed (inv.flushed signal (by simp [phase]) inst member) }⟩
  · have cycle : CycleInv config { state with
        rename := if state.fromCommit.doneSeqNum ≠ 0 then
          state.rename.removeFromHistory state.fromCommit.doneSeqNum else state.rename
        phase := .iew, fetchRedirect := false, skidBuffer := skidBuffer, renameQueue2 := [] } :=
      { inv.toCycleInv with
        taken := fun _ => rfl
        fresh := by simp
        issuing := fun other => absurd rfl other
        flushed := fun signal => clash quiet signal }
    have shorter : (skidBuffer ++ ([] ++ [])).Sublist (state.toDispatch []) := by
      rcases kept with rfl | rfl <;> simp [toDispatch]
    exact ⟨⟨{ inv.queues with
      pipelineOrdered := inv.queues.pipelineOrdered.sublist (shorter.append_right _)
      dispatchBounded := fun inst member =>
        inv.queues.dispatchBounded inst (shorter.subset member)
      undispatched := fun inst member =>
        inv.queues.undispatched inst ((shorter.append_right _).subset member) },
      { inv.status with }, { inv.squash with }⟩, cycle⟩

theorem dispatchInst_pipeline (inv : state.PipelineInv config)
    (stepped : state.dispatchInst = some next) : next.PipelineInv config := by
  unfold dispatchInst at stepped
  split at stepped
  · cases stepped
  · next inst rest skid =>
    have split : state.toDispatch [] ++ state.waiting state.renameQueue1 =
        inst :: ((rest ++ (state.renameQueue2 ++ [])) ++ state.waiting state.renameQueue1) := by
      simp [toDispatch, skid]
    have ordered := inv.queues.pipelineOrdered
    rw [split] at ordered
    have unknown := inv.queues.undispatched
    rw [split] at unknown
    have shorter : (rest ++ (state.renameQueue2 ++ [])).Sublist (state.toDispatch []) := by
      simp [toDispatch, skid]
    have queues : QueueInv { state with skidBuffer := rest } [] state.renameQueue1 :=
      { inv.queues with
        pipelineOrdered := (pairwise_cons.mp ordered).2
        dispatchBounded := fun other member =>
          inv.queues.dispatchBounded other (shorter.subset member)
        undispatched := fun other member => unknown other (mem_cons_of_mem _ member) }
    simp only at stepped
    split at stepped
    · cases stepped
      exact ⟨⟨queues, { inv.status with }, { inv.squash with }⟩, { inv.toCycleInv with }⟩
    · next alive =>
      cases stepped
      have alive : (state.insts inst).squashed = false := by simpa using alive
      have fresh := unknown inst mem_cons_self
      have ok := (inv.status.each inst).dispatch fresh alive
      have dispatched : (dispatchUpdate (state.insts inst)).dispatched = true := by
        unfold dispatchUpdate
        split
        · rfl
        · split <;> rfl
      have sameSquashed : (dispatchUpdate (state.insts inst)).squashed = false := by
        unfold dispatchUpdate
        split
        · exact alive
        · split <;> exact alive
      have unlisted : inst ∉ state.toExecute ++ state.issuedNow := fun member => by
        simpa [fresh] using (inv.status.issuedPending inst member).1
      have unissued : (dispatchUpdate (state.insts inst)).executed = true ∨
          (dispatchUpdate (state.insts inst)).issued = false := by
        have before : (state.insts inst).issued = false := by
          simpa [fresh] using (inv.status.each inst).issuedDispatched
        unfold dispatchUpdate
        split
        · exact .inr before
        · split
          · exact .inl rfl
          · exact .inr before
      have status := inv.status.modifyInst dispatchUpdate inv.status.issuedOnce
        (fun _ _ => Iff.rfl) (fun member => absurd member unlisted) ok dispatched
        (fun executed => by simpa [fresh] using (inv.status.each inst).executedDispatched executed)
        (fun known => by simp [fresh] at known)
        (unissued.imp_right .inl)
      have other : ∀ other, other ≠ inst →
          state.insts.modify inst dispatchUpdate other = state.insts other :=
        fun other different => modify_other _ _ different
      have squashed := modify_keeps DynInst.squashed (sameSquashed.trans alive.symm)
      have squash := inv.squash.withInsts (state.insts.modify inst dispatchUpdate)
        (by
          intro seqNum _ before
          have different : seqNum ≠ inst := by
            rintro rfl
            exact clash alive before.1
          rw [other seqNum different]
          exact before)
        (fun seqNum _ now => .inl ((squashed seqNum).symm.trans now))
      refine ⟨⟨{ queues with undispatched := ?_, unborn := ?_, removedSquashed := ?_ },
        { status with }, { squash with }⟩, { inv.toCycleInv with flushed := ?_ }⟩
      · intro seqNum member
        have later := (pairwise_cons.mp ordered).1 seqNum member
        exact (congrArg DynInst.dispatched (other seqNum (Nat.ne_of_gt later))).trans
          (queues.undispatched seqNum member)
      · intro seqNum above
        have bound : inst < state.nextSeqNum :=
          inv.queues.dispatchBounded inst (by simp [toDispatch, skid])
        exact (congrArg DynInst.dispatched
          (other seqNum (Nat.ne_of_gt (Nat.lt_of_lt_of_le bound above)))).trans
          (inv.queues.unborn seqNum above)
      · exact fun seqNum removed member =>
          (squashed seqNum).trans (inv.queues.removedSquashed seqNum removed member)
      · exact fun signal phase seqNum member =>
          (squashed seqNum).trans (inv.flushed signal phase seqNum member)

end State

end Runahead.O3
