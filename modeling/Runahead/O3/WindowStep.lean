import Runahead.O3.Window

/-!
# The stages before commit keep the window quiet

The events that ask for a squash, the exit from runahead mode, and the starts of
the stages, where squashes are read.
-/

set_option autoImplicit false

namespace Runahead.O3.State

open Library List IewStruct
open Option (ite_none_right_eq_some)

variable {config : Config} {state next : State} {offered : List Nat} {inst : Nat}

/-! ## Squash requests -/

/-- Commit will refuse a squash request of the instruction, or the instruction is held. -/
def RequestOk (state : State) (offered : List Nat) (inst : Nat) : Prop :=
  (state.core.youngestSeqNum < inst ∧
    (state.core.commitStatus = .trapPending ∨ state.fromCommit.squash = true ∨
      ∀ other ∈ offered, (state.insts other).squashed = true)) ∨
  (state.Held inst ∧ (state.inWindow = true ∨ DynInst.isPending (state.insts inst) = true))

theorem WindowInv.trigger_le (inv : state.WindowInv) (inside : state.inWindow = true)
    (ok : state.RequestOk offered inst) : state.core.raTriggerInst ≤ inst := by
  rcases ok with ⟨younger, _⟩ | ⟨member | ⟨_, above⟩, _⟩
  · exact Nat.le_trans (inv.beforeYoungest inside) (Nat.le_of_lt younger)
  · exact inv.above inside inst member
  · exact above

theorem QuietInvAt.request (inv : state.QuietInvAt [] offered) {slot : IewStruct}
    (sameExit : slot.squashAfterRunahead = state.iewCurrent.squashAfterRunahead)
    (notExit : slot.squashAfterRunahead = false) (ok : state.RequestOk offered inst)
    (older : inst ≤ slot.squashedInst)
    (executed : slot.includeSquashInst = false →
      (state.insts slot.squashedSeqNum).executed = true) :
    QuietInvAt { state with fetchRedirect := true, iewCurrent := slot } [] offered := by
  have window : inWindow { state with fetchRedirect := true, iewCurrent := slot } =
      state.inWindow := by
    simp only [inWindow, sameExit]
  have held : ∀ {inst}, Held { state with fetchRedirect := true, iewCurrent := slot } inst ↔
      state.Held inst := by
    intro inst
    simp only [Held, window]
  refine ⟨{ inv.youngest with }, { inv.redirect with
    located := fun inst may => (inv.redirect.located inst may).imp_left held.mpr
    dispatchLocated := fun inst member =>
      (inv.redirect.dispatchLocated inst member).imp_right (Or.imp_left held.mpr)
    current := fun _ _ => ?_
    toCommit := fun asks exit => ?_
    branchExecuted := fun _ => executed }, ?_, ?_⟩
  · rcases ok with ⟨younger, why⟩ | ⟨inside, source⟩
    · exact .inl ⟨Nat.lt_of_lt_of_le younger (Nat.le_trans older slot.squashedInst_le), why⟩
    · exact .inr ⟨inst, held.mpr inside, older, window ▸ source⟩
  · refine (inv.redirect.toCommit asks exit).imp_right ?_
    rintro ⟨inst, inside, bound, source⟩
    exact ⟨inst, held.mpr inside, bound, window ▸ source⟩
  · exact {
      afterCommitted := fun inside => inv.window.afterCommitted (window ▸ inside)
      beforeYoungest := fun inside => inv.window.beforeYoungest (window ▸ inside)
      above := fun inside => inv.window.above (window ▸ inside)
      noSquashAfter := fun inside => inv.window.noSquashAfter (window ▸ inside)
      noThreadContext := fun inside => inv.window.noThreadContext (window ▸ inside)
      exitCurrent := fun exit => clash notExit exit
      exitToCommit := inv.window.exitToCommit }
  · exact {
      rob := fun outside => inv.marks.rob (window ▸ outside)
      waiting := fun outside => inv.marks.waiting (window ▸ outside) }

/-- The request of a mispredicted branch or of a memory order violation. The
slot of an exit is not taken over, because the request is not older than it. -/
theorem redirect_quiet (inv : state.QuietInvAt [] offered) {mispredicted : Bool}
    {violator : Option Nat} (executed : mispredicted = true → (state.insts inst).executed = true)
    (younger : ∀ load, violator = some load → inst < load)
    (ok : mispredicted = true ∨ violator ≠ none → state.RequestOk offered inst) :
    (state.redirect inst mispredicted violator).QuietInvAt [] offered := by
  have kept : QuietInvAt { state with fetchRedirect := true } [] offered :=
    ⟨{ inv.youngest with }, { inv.redirect with }, { inv.window with }, { inv.marks with }⟩
  have exitYounger : state.RequestOk offered inst →
      state.iewCurrent.squashAfterRunahead = true → state.iewCurrent.squash = true ∧
        state.iewCurrent.squashedSeqNum ≤ inst := by
    intro ok exit
    have slot := inv.window.exitCurrent exit
    refine ⟨slot.squash, slot.trigger ▸ inv.window.trigger_le ?_ ok⟩
    exact (inWindow_iff state).mpr (.inr (.inl exit))
  rcases redirect_cases state inst mispredicted violator with same | ⟨wrong, same⟩ |
    ⟨load, which, same⟩
  · rw [same]
    exact inv
  · rw [same]
    have ok := ok (.inl wrong)
    by_cases takes : (!state.iewCurrent.squash ||
        decide (inst < state.iewCurrent.squashedSeqNum)) = true
    · have notExit : state.iewCurrent.squashAfterRunahead = false := by
        by_contra exit
        obtain ⟨asks, bound⟩ := exitYounger ok (by simpa using exit)
        simp [asks, Nat.not_lt.mpr bound] at takes
      simp only [squashDueToBranch, if_pos takes]
      exact inv.request rfl notExit ok (by simp [squashedInst]) fun _ => executed wrong
    · simp only [squashDueToBranch, if_neg takes]
      exact kept
  · rw [same]
    have ok := ok (.inr (by simp [which]))
    have younger := younger load which
    by_cases takes : (!state.iewCurrent.squash ||
        decide (load ≤ state.iewCurrent.squashedSeqNum)) = true
    · have notExit : state.iewCurrent.squashAfterRunahead = false := by
        by_contra exit
        obtain ⟨asks, bound⟩ := exitYounger ok (by simpa using exit)
        have : ¬ load ≤ state.iewCurrent.squashedSeqNum := by omega
        simp [asks, this] at takes
      simp only [squashDueToMemOrder, if_pos takes]
      refine inv.request rfl notExit ok ?_ (by simp)
      simp only [squashedInst, ↓reduceIte]
      omega
    · simp only [squashDueToMemOrder, if_neg takes]
      exact kept

theorem QuietInv.requestOk (inv : state.QuietInv config)
    (dispatched : (state.insts inst).dispatched = true)
    (issued : (state.insts inst).issued = true) (unexecuted : (state.insts inst).executed = false)
    (alive : (state.insts inst).squashed = false)
    (kind : (state.insts inst).staticInst.isControl = true ∨
      (state.insts inst).staticInst.isMemRef = true) :
    state.RequestOk state.renameQueue1 inst := by
  have status := inv.pipeline.status.each inst
  have waits : (state.insts inst).canCommit = false := by
    have := status.ready
    have := status.issuedReleased issued
    grind
  have may : DynInst.mayRedirect (state.insts inst) = true := by
    simpa [DynInst.mayRedirect, dispatched, unexecuted, alive] using kind
  have pending : DynInst.isPending (state.insts inst) = true := by
    simp [DynInst.isPending, dispatched, waits, alive]
  rcases inv.quiet.redirect.located inst may with held | unseen | dropped | executing
  · exact .inr ⟨held, .inr pending⟩
  · exact .inl ⟨Nat.lt_of_le_of_lt (inv.quiet.youngest.signalled unseen.2.1) unseen.2.2,
      .inr (.inl unseen.2.1)⟩
  · exact .inl ⟨dropped.2.1, .inl dropped.1⟩
  · exact .inl ⟨executing.2.2.2.2, .inr (.inl executing.2.1)⟩

theorem Silent.requestOk (silent : state.Silent next) (inv : state.QuietInv config)
    (pending : DynInst.isPending (state.insts inst) = true →
      DynInst.isPending (next.insts inst) = true)
    (ok : state.RequestOk state.renameQueue1 inst) : next.RequestOk state.renameQueue1 inst := by
  unfold RequestOk
  rw [silent.frame.youngestSeqNum, silent.frame.commitStatus, silent.frame.fromCommit,
    silent.held, silent.inWindow]
  refine ok.imp (And.imp_right (Or.imp_right (Or.imp_right fun all other member => ?_)))
    (And.imp_right (Or.imp_right pending))
  have bound := inv.pipeline.queues.bounded other (mem_append_right _ (mem_append_left _ member))
  exact (silent.frame.insts other bound).squashed (all other member)

theorem execute_silent {change : DynInst → DynInst}
    (frame : state.CommitFrame (State.modifyInst
      { state with toExecute := state.toExecute.erase inst } inst change))
    (static : (change (state.insts inst)).staticInst = (state.insts inst).staticInst)
    (redirects : DynInst.mayRedirect (change (state.insts inst)) = true →
      DynInst.mayRedirect (state.insts inst) = true ∧ (state.insts inst).staticInst.isMemRef = true)
    (spared : DynInst.isPending (state.insts inst) = true →
      DynInst.isPending (change (state.insts inst)) = true)
    (alive : (state.insts inst).squashed = true ↔ (change (state.insts inst)).squashed = true) :
    state.Silent (State.modifyInst
      { state with toExecute := state.toExecute.erase inst } inst change) := by
  refine Silent.execute frame static (fun may => (redirects may).1) spared alive ?_
  intro other may notMemory member
  refine (mem_erase_of_ne ?_).mpr member
  rintro rfl
  rw [InstTable.modify_self] at may
  exact clash notMemory (redirects may).2

theorem executeInst_quiet {outcome : ExecOutcome} (inv : state.QuietInv config)
    (stepped : state.executeInst inst outcome = some next) :
    next.QuietInvAt [] next.renameQueue1 := by
  have framed := executeInst_frame inv.pipeline stepped
  rw [framed.renameQueue1]
  obtain ⟨member, result⟩ := executeInst_cases stepped
  obtain ⟨dispatched, issued, unexecuted⟩ :=
    inv.pipeline.status.issuedPending inst (mem_append_left _ member)
  have frame := fun change => execute_frame inv.pipeline member change
  have requestOk := inv.requestOk dispatched issued unexecuted
  have memory : ∀ violator, State.violatorPossible
      { state with toExecute := state.toExecute.erase inst } inst violator = true →
      (∀ load, violator = some load → inst < load) ∧
      (violator ≠ none → (state.insts inst).staticInst.isMemRef = true) := by
    intro violator possible
    cases violator with
    | none => exact ⟨(by simp), fun some => absurd rfl some⟩
    | some load =>
      simp only [violatorPossible, Bool.and_eq_true, decide_eq_true_eq] at possible
      exact ⟨fun _ same => by cases same; exact possible.1.2, fun _ => possible.1.1⟩
  rcases result with ⟨squashed, rfl⟩ | ⟨alive, fault, mispredicted, violator, control,
    possible, rfl⟩ |
    ⟨alive, isMemRef, reqs, violator, possible, rfl⟩ | ⟨alive, isMemRef, rfl⟩
  · refine (execute_silent (frame (·.setExecuted.setCanCommit) .setExecuted rfl .inl) rfl ?_ ?_
      .rfl).quiet inv
    · simp [DynInst.mayRedirect, DynInst.setExecuted, DynInst.setCanCommit]
    · simp [DynInst.isPending, squashed]
  · have silent := execute_silent (frame (·.finish fault) (.finish fault) rfl .inl)
      rfl (by simp [DynInst.mayRedirect, DynInst.finish]) id .rfl
    refine redirect_quiet (silent.quiet inv) (fun _ => ?_) (memory violator possible).1
      fun asks => ?_
    · change (state.insts.modify inst _ inst).executed = true
      rw [InstTable.modify_self]
      rfl
    · refine silent.requestOk inv (fun pending => ?_) (requestOk alive ?_)
      · change DynInst.isPending (state.insts.modify inst _ inst) = true
        rw [InstTable.modify_self]
        exact pending
      · exact asks.imp control (memory violator possible).2
  · have silent := execute_silent (frame (·.addReqs reqs) (.addReqs reqs) rfl fun _ => .inr issued)
      rfl (fun may => ⟨may, isMemRef⟩) id .rfl
    have silent : state.Silent { State.modifyInst { state with
        toExecute := state.toExecute.erase inst } inst (·.addReqs reqs) with
        storeQueue := if (state.insts inst).staticInst.writesAtExecute then
          allowWriteback state.storeQueue inst else state.storeQueue } :=
      { silent with frame := { silent.frame with } }
    refine redirect_quiet (silent.quiet inv) (by simp) (memory violator possible).1 fun asks => ?_
    refine silent.requestOk inv (fun pending => ?_) (requestOk alive (.inr isMemRef))
    change DynInst.isPending (state.insts.modify inst _ inst) = true
    rw [InstTable.modify_self]
    exact pending
  · exact (execute_silent (frame DynInst.clearIssued .clearIssued rfl .inl) rfl
      (fun may => ⟨may, isMemRef⟩) id .rfl).quiet inv

theorem writeback_quiet {fault mispredicted : Bool} (inv : state.QuietInv config)
    (stepped : state.writeback inst fault mispredicted = some next) :
    next.QuietInvAt [] next.renameQueue1 := by
  have framed := writeback_frame stepped
  rw [framed.renameQueue1]
  simp only [writeback] at stepped
  split at stepped
  · next possible =>
    simp only [Bool.and_eq_true, Bool.not_eq_true'] at possible
    obtain ⟨⟨⟨⟨⟨⟨⟨dispatched, issued⟩, unexecuted⟩, _⟩, _⟩, memory⟩, _⟩, _⟩ := possible
    split at stepped
    · cases stepped
      exact inv.quiet
    · next alive =>
      cases stepped
      have silent : state.Silent (state.modifyInst inst (·.finish fault)) :=
        .execute (.modifyInst state inst _ (.finish fault) rfl id id) rfl
          (by simp [DynInst.mayRedirect, DynInst.finish]) id .rfl fun _ _ _ => id
      refine redirect_quiet (silent.quiet inv) (fun _ => ?_) (by simp) fun _ => ?_
      · rw [modifyInst_insts, InstTable.modify_self]
        rfl
      · refine silent.requestOk inv (fun pending => ?_) (inv.requestOk dispatched issued
          unexecuted (by simpa using alive) (.inr memory))
        rw [modifyInst_insts, InstTable.modify_self]
        exact pending
  · cases stepped

/-! ## The exit from runahead mode -/

/-- The exit squash is older than any other request in its slot. -/
theorem exit_first (inv : state.QuietInvAt [] offered) (mode : state.core.inRunahead = true)
    (notExit : state.iewCurrent.squashAfterRunahead = false)
    (unexecuted : (state.insts state.core.raTriggerInst).executed = false) :
    (!state.iewCurrent.squash ||
      decide (state.core.raTriggerInst < state.iewCurrent.squashedSeqNum)) = true := by
  have inside : state.inWindow = true := (inWindow_iff state).mpr (.inl mode)
  cases asks : state.iewCurrent.squash with
  | false => rfl
  | true =>
    simp only [Bool.not_true, Bool.false_or, decide_eq_true_eq]
    rcases inv.redirect.current asks notExit with ⟨refused, _⟩ | ⟨inst, held, older, _⟩
    · exact Nat.lt_of_le_of_lt (inv.window.beforeYoungest inside) refused
    · have above : state.core.raTriggerInst ≤ inst :=
        held.elim (inv.window.above inside inst) And.right
      have started := inv.window.afterCommitted inside
      cases includes : state.iewCurrent.includeSquashInst with
      | true =>
        simp only [squashedInst, includes, ↓reduceIte] at older
        omega
      | false =>
        simp only [squashedInst, includes, Bool.false_eq_true, ↓reduceIte] at older
        have executed := inv.redirect.branchExecuted asks includes
        refine Nat.lt_of_le_of_ne (Nat.le_trans above older) fun same => ?_
        rw [← same, unexecuted] at executed
        cases executed

theorem exitRunaheadMode_slot (inv : state.QuietInvAt [] offered)
    (mode : state.core.inRunahead = true)
    (notExit : state.iewCurrent.squashAfterRunahead = false)
    (unexecuted : (state.insts state.core.raTriggerInst).executed = false) :
    state.exitRunaheadMode.iewCurrent = { state.iewCurrent with
      squash := true
      squashAfterRunahead := true
      squashedSeqNum := state.core.raTriggerInst
      includeSquashInst := true
      pc := (state.insts state.core.raTriggerInst).pc } := by
  have first := exit_first inv mode notExit unexecuted
  simp only [exitRunaheadMode, squashDueToRunaheadExit, if_pos first]

theorem exitRunaheadMode_quiet (inv : state.QuietInvAt [] offered)
    (mode : state.core.inRunahead = true)
    (notExit : state.iewCurrent.squashAfterRunahead = false)
    (unexecuted : (state.insts state.core.raTriggerInst).executed = false) :
    state.exitRunaheadMode.QuietInvAt [] offered := by
  have inside : state.inWindow = true := (inWindow_iff state).mpr (.inl mode)
  have slot := exitRunaheadMode_slot inv mode notExit unexecuted
  have exits : state.exitRunaheadMode.iewCurrent.squashAfterRunahead = true := by rw [slot]
  have includes : state.exitRunaheadMode.iewCurrent.includeSquashInst = true := by rw [slot]
  have still : state.exitRunaheadMode.inWindow = true := (inWindow_iff _).mpr (.inr (.inl exits))
  have held : ∀ {inst}, state.Held inst → state.exitRunaheadMode.Held inst :=
    fun held => held.imp_right fun both => ⟨still, both.2⟩
  refine ⟨{ inv.youngest with }, { inv.redirect with
    located := fun inst may => (inv.redirect.located inst may).imp_left held
    dispatchLocated := fun inst member =>
      (inv.redirect.dispatchLocated inst member).imp_right (Or.imp_left held)
    current := fun _ other => clash other exits
    toCommit := fun asks exit => (inv.redirect.toCommit asks exit).imp_right (by
      rintro ⟨inst, within, older, _⟩
      exact ⟨inst, held within, older, .inl still⟩)
    branchExecuted := fun _ excludes => clash excludes includes },
    {
    afterCommitted := fun _ => inv.window.afterCommitted inside
    beforeYoungest := fun _ => inv.window.beforeYoungest inside
    above := fun _ => inv.window.above inside
    noSquashAfter := fun _ => inv.window.noSquashAfter inside
    noThreadContext := fun _ => inv.window.noThreadContext inside
    exitCurrent := fun _ => ⟨by rw [slot], includes, by rw [slot]; rfl⟩
    exitToCommit := inv.window.exitToCommit },
    { rob := fun outside => clash outside still
      waiting := fun outside => clash outside still }⟩

/-- Only the trigger's own last response ends the mode. -/
theorem memResponse_trigger {req : ReqId} (inv : state.QuietInv config)
    (triggered : (state.insts inst).triggeredRunahead = true)
    (stepped : state.memResponse inst req = some next) : inst = state.core.raTriggerInst := by
  have pending := (memResponse_cases stepped).1
  have dispatched := (inv.pipeline.status.each inst).requestsDispatched pending
  exact (inv.trigger.triggers inst (inv.pipeline.dispatched_lt dispatched) triggered pending).2

theorem reqCompleted_silent (state : State) (inst : Nat) (req : ReqId) :
    state.Silent (state.modifyInst inst (·.reqCompleted req)) ∧
      state.Silent (state.modifyInst inst fun dyn => (dyn.reqCompleted req).resetL2Miss) := by
  have pendingAfter : ∀ dyn : DynInst, (dyn.reqCompleted req).outstandingReqs ≠ [] →
      dyn.outstandingReqs ≠ [] := by
    intro dyn pending empty
    simp [DynInst.reqCompleted, empty] at pending
  exact ⟨.execute (.modifyInst state inst _ (.reqCompleted req) rfl (pendingAfter _) id) rfl id
      id .rfl fun _ _ _ => id,
    .execute (.modifyInst state inst _ ((InstFrame.reqCompleted req).trans .resetL2Miss) rfl
      (pendingAfter _) id) rfl id id .rfl fun _ _ _ => id⟩

theorem memResponse_quiet {req : ReqId} (inv : state.QuietInv config)
    (stepped : state.memResponse inst req = some next) :
    next.QuietInvAt [] next.renameQueue1 ∧
      (state.core.inRunahead = true → next.core.inRunahead = false →
        next.iewCurrent.squashAfterRunahead = true) := by
  obtain ⟨completed, reset⟩ := reqCompleted_silent state inst req
  obtain ⟨_, unexecuted, rfl | ⟨_, rfl | ⟨mode, triggered, rfl⟩⟩⟩ := memResponse_cases stepped
  · exact ⟨completed.quiet inv, fun mode left => clash left mode⟩
  · exact ⟨reset.quiet inv, fun mode left => clash left mode⟩
  · have same := memResponse_trigger inv triggered stepped
    have notExit := (inv.mode.modeFirst mode).1
    have unexecuted : ((state.modifyInst inst fun dyn => (dyn.reqCompleted req).resetL2Miss).insts
        state.core.raTriggerInst).executed = false := by
      rw [← same, modifyInst_insts, InstTable.modify_self]
      exact unexecuted
    refine ⟨exitRunaheadMode_quiet (reset.quiet inv) mode notExit unexecuted, fun _ _ => ?_⟩
    rw [exitRunaheadMode_slot (reset.quiet inv) mode notExit unexecuted]

/-! ## The starts of the stages -/

theorem startTick_silent (inv : state.QuietInv config) (phase : state.phase = .betweenTicks) :
    state.Silent state.startTick := by
  have frame := startTick_frame state phase
  have pipeline := startTick_pipeline inv.pipeline phase
  have fresh := inv.pipeline.fresh (.inl phase)
  have unseen : ∀ inst, state.SquashUnseen 3 inst → state.startTick.SquashUnseen 3 inst := by
    rintro inst ⟨_, signal, younger⟩
    unfold startTick
    rw [if_pos signal]
    exact ⟨by simp [Phase.rank], signal, younger⟩
  have idle : ∀ {inst}, ¬ state.Executing inst :=
    fun executing => absurd (phase.symm.trans executing.1) (by decide)
  have flushed := pipeline.flushed
  unfold startTick at frame unseen flushed ⊢
  split
  · next signal =>
    simp only [signal, ↓reduceIte] at frame unseen flushed
    have silent : state.Silent state.squashFetch :=
      squashInsts_silent state (nil_subset _) fun inst inside victim =>
        Nat.lt_irrefl _ (((mem_instsNotInROB inv.pipeline.queues).mp victim).2 inst inside)
    refine { silent with
      frame := frame
      waiting := fun inst member => .inl ?_
      toDispatch := fun inst member => ⟨member, unseen inst⟩
      redirects := fun inst may => ?_ }
    · have inside : inst ∈ state.renameQueue1 := by
        simpa [waiting, squashFetch, squashInsts, fresh] using member
      exact ⟨mem_append_left _ inside, fun _ => .inl (flushed signal (by decide) inst inside)⟩
    · rcases silent.redirects inst may with ⟨before, _⟩ | ⟨_, _, other⟩
      · exact .inl ⟨before, fun before => .inl (unseen inst before), fun run => absurd run idle⟩
      · exact absurd (phase.symm.trans other) (by decide)
  · next quiet =>
    have same := Silent.refl state
    simp only [quiet, Bool.false_eq_true, ↓reduceIte] at frame unseen
    exact { same with
      frame := frame
      waiting := fun inst member => .inl ⟨member, fun unseen => absurd unseen.2.1 quiet⟩
      toDispatch := fun inst member => ⟨member, unseen inst⟩
      redirects := fun inst may =>
        .inl ⟨may, fun before => .inl (unseen inst before), fun run => absurd run idle⟩ }

theorem startRename_silent (phase : state.phase = .fetch) : state.Silent state.startRename := by
  have same := Silent.refl state
  have unseen : ∀ inst, state.SquashUnseen 3 inst → state.startRename.SquashUnseen 3 inst :=
    fun inst all => ⟨by simp [startRename, Phase.rank], all.2⟩
  exact { same with
    frame := startRename_frame state phase
    waiting := fun inst member => .inl ⟨member, fun unseen => by
      have := unseen.1
      simp [phase, Phase.rank] at this⟩
    toDispatch := fun inst member => ⟨member, unseen inst⟩
    redirects := fun inst may => .inl ⟨may, fun before => .inl (unseen inst before), fun run =>
      absurd (phase.symm.trans run.1) (by decide)⟩ }

theorem fetchInst_silent (inv : state.PipelineInv config) (staticInst : StaticInst)
    (pc nextPc : Addr) : state.Silent (state.fetchInst staticInst pc nextPc) := by
  have same := Silent.refl state
  have old := @fetchInst_old state staticInst pc nextPc
  have new := fetchInst_new state staticInst pc nextPc
  have inside : ∀ inst ∈ state.core.rob.instList,
      (state.fetchInst staticInst pc nextPc).insts inst = state.insts inst :=
    fun inst member => old (Nat.ne_of_lt (inv.queues.bounded inst (mem_append_left _ member)))
  refine { same with
    frame := fetchInst_frame state staticInst pc nextPc
    waiting := fun inst member => ?_
    redirects := fun inst may => .inl ?_
    spared := fun inst member pending => .inl ((inside inst member).symm ▸ pending)
    alive := fun inst member alive => .inl ((inside inst member).symm ▸ alive) }
  · have member : inst ∈ state.waiting state.renameQueue1 ∨ inst = state.nextSeqNum := by
      simpa [waiting, fetchInst, or_assoc] using member
    rcases member with before | rfl
    · exact .inl ⟨before, .inr⟩
    · rw [new]
      exact .inr ⟨Nat.le_refl _, id⟩
  · have different : inst ≠ state.nextSeqNum := by
      rintro rfl
      rw [new] at may
      simp [DynInst.mayRedirect] at may
    rw [old different] at may
    refine ⟨may, .inl, fun run => ?_⟩
    exact ⟨run.1, run.2.1, run.2.2.1, (old different).symm ▸ run.2.2.2.1, run.2.2.2.2⟩

theorem IEWSquash.survivor {gone queued : Nat → Bool} (marks : state.IEWSquash gone queued)
    (inv : state.QuietInv config) (phase : state.phase = .rename)
    (unseen : state.SquashUnseen 3 inst)
    (may : DynInst.mayRedirect (state.markSquashed gone queued inst) = true) :
    inst ∈ state.toExecute ∧ (state.insts inst).staticInst.isMemRef = false := by
  have status := inv.pipeline.status
  have idle := inv.pipeline.issuing (by simp [phase])
  simp only [markSquashed, DynInst.mayRedirect, Bool.and_eq_true, Bool.not_eq_true',
    Bool.or_eq_false_iff] at may
  obtain ⟨⟨⟨dispatched, unexecuted⟩, kept, alive⟩, _⟩ := may
  have passed := marks.spared inst kept unseen.2.2 dispatched
  have notMemory : (state.insts inst).staticInst.isMemRef = false :=
    passed.2.resolve_right fun done =>
      clash unexecuted ((status.each inst).memOpExecuted done)
  refine ⟨?_, notMemory⟩
  rcases status.issuedListed inst dispatched passed.1 unexecuted with squashed | memory | listed
  · exact clash alive squashed
  · exact clash notMemory memory
  · simpa [idle] using listed

theorem startIEW_silent (inv : state.QuietInv config) (phase : state.phase = .rename) :
    state.Silent state.startIEW := by
  have same := Silent.refl state
  have frame := startIEW_frame state phase
  have early : ∀ {inst}, ¬ state.SquashUnseen 1 inst := fun unseen => by
    have := unseen.1
    simp [phase, Phase.rank] at this
  have idle : ∀ {inst}, ¬ state.Executing inst :=
    fun executing => absurd (phase.symm.trans executing.1) (by decide)
  rcases startIEW_cases state with
    ⟨signal, gone, queued, _, marks, after⟩ | ⟨quiet, skidBuffer, kept, after⟩ <;>
    rw [after] at frame ⊢
  · have younger := inv.quiet.youngest.signalled signal
    have old : ∀ inst, gone inst = true → state.core.youngestSeqNum < inst := fun inst marked =>
      Nat.lt_of_le_of_lt younger (marks.younger inst marked)
    refine { same with
      frame := frame
      waiting := fun inst member => .inl ⟨member, fun unseen => absurd unseen early⟩
      toDispatch := by rintro _ ⟨⟩
      redirects := fun inst may => .inl ⟨?_, fun unseen => .inr ?_, fun run => absurd run idle⟩
      spared := fun inst _ pending => ?_
      alive := fun inst _ alive => ?_ }
    · change DynInst.mayRedirect (state.markSquashed gone queued inst) = true at may
      simp_all [markSquashed, DynInst.mayRedirect]
    · obtain ⟨member, notMemory⟩ := marks.survivor inv phase unseen may
      exact ⟨rfl, signal, member, notMemory, Nat.lt_of_le_of_lt younger unseen.2.2⟩
    · cases marked : gone inst with
      | true => exact .inr ⟨signal, old inst marked⟩
      | false =>
        have unqueued : queued inst = false :=
          Bool.eq_false_iff.mpr fun caught => clash marked (marks.queuedGone inst caught).1
        have kept : state.markSquashed gone queued inst = state.insts inst := by
          simp [markSquashed, marked, unqueued]
        exact .inl ((congrArg DynInst.isPending kept).trans pending)
    · cases marked : gone inst with
      | true => exact .inr (old inst marked)
      | false => exact .inl (Bool.or_eq_false_iff.mpr ⟨marked, alive⟩)
  · have later : ∀ {inst}, ¬ state.SquashUnseen 3 inst := fun unseen => clash quiet unseen.2.1
    exact { same with
      frame := frame
      waiting := fun inst member => .inl ⟨member, fun unseen => absurd unseen early⟩
      toDispatch := fun inst member => ⟨by
        rcases kept with rfl | rfl <;>
          simp only [toDispatch, append_nil, mem_append] at member ⊢ <;> tauto,
        fun unseen => absurd unseen later⟩
      redirects := fun inst may => .inl ⟨may, fun unseen => absurd unseen later,
        fun run => absurd run idle⟩ }

theorem dispatchInst_silent (inv : state.PipelineInv config) (phase : state.phase = .iew)
    (stepped : state.dispatchInst = some next) : state.Silent next := by
  have same := Silent.refl state
  have frame := dispatchInst_frame phase stepped
  obtain ⟨inst, rest, skid, cases⟩ := dispatchInst_cases stepped
  have member : inst ∈ state.toDispatch [] := by simp [toDispatch, skid]
  have shorter : ∀ other ∈ rest ++ (state.renameQueue2 ++ []), other ∈ state.toDispatch [] := by
    intro other within
    simp only [toDispatch, skid, cons_append]
    exact mem_cons_of_mem _ within
  rcases cases with rfl | ⟨alive, done, ready, _, rfl⟩
  · exact { same with
      frame := frame
      toDispatch := fun other within => ⟨shorter other within, id⟩ }
  · have undispatched := inv.queues.undispatched inst (mem_append_left _ member)
    have kept : ∀ other, other ≠ inst →
        state.markDispatched inst done ready other = state.insts other := by
      intro other different
      simp [markDispatched, different]
    refine { same with
      frame := frame
      toDispatch := fun other within => ⟨shorter other within, id⟩
      redirects := fun other may => ?_
      spared := fun other _ pending => .inl ?_ }
    · by_cases which : other = inst
      · subst which
        exact .inr ⟨member, alive, phase⟩
      · exact .inl ⟨(congrArg DynInst.mayRedirect (kept other which)).symm.trans may, .inl, id⟩
    · refine (congrArg DynInst.isPending (kept other ?_)).trans pending
      rintro rfl
      simp [DynInst.isPending, undispatched] at pending

/-- Every event other than a cycle of commit keeps a quiet window quiet. -/
theorem step_quiet {event : Event} (inv : state.QuietInv config)
    (allowed : state.quietWindow event = true) (stepped : state.step config event = some next) :
    (∃ env, event = .commitTick env) ∨ next.QuietInvAt [] next.renameQueue1 := by
  cases event with
  | commitTick env => exact .inl ⟨env, rfl⟩
  | memResponse inst req =>
    exact .inr (memResponse_quiet inv (ite_none_right_eq_some.mp stepped).2).1
  | writeback inst fault mispredicted =>
    exact .inr (writeback_quiet inv (ite_none_right_eq_some.mp stepped).2)
  | l2Miss | completeStore | trapFires | instToCommit | sendStore =>
    exact .inr ((step_light rfl stepped).silent.quiet inv)
  | tcWrite pc =>
    have outside : state.inWindow = false := by simpa [quietWindow] using allowed
    exact .inr ((tcWrite_silent outside (ite_none_right_eq_some.mp stepped).2).quiet inv)
  | startTick =>
    obtain ⟨phase, rfl⟩ := fired stepped
    exact .inr ((startTick_silent inv phase).quiet inv)
  | fetchInst staticInst pc nextPc =>
    obtain ⟨_, rfl⟩ := fired stepped
    exact .inr ((fetchInst_silent inv.pipeline staticInst pc nextPc).quiet inv)
  | decodeSquash inst =>
    obtain ⟨possible, rfl⟩ := fired stepped
    simp only [Bool.and_eq_true, contains_iff_mem] at possible
    exact .inr ((decodeSquash_silent inv.pipeline possible.2).quiet inv)
  | startRename =>
    obtain ⟨phase, rfl⟩ := fired stepped
    exact .inr ((startRename_silent phase).quiet inv)
  | renameInst =>
    exact .inr ((renameInst_silent (ite_none_right_eq_some.mp stepped).2).quiet inv)
  | startIEW =>
    obtain ⟨phase, rfl⟩ := fired stepped
    exact .inr ((startIEW_silent inv phase).quiet inv)
  | dispatchInst =>
    obtain ⟨possible, stepped⟩ := ite_none_right_eq_some.mp stepped
    simp only [Bool.and_eq_true, decide_eq_true_eq] at possible
    exact .inr ((dispatchInst_silent inv.pipeline possible.1 stepped).quiet inv)
  | executeInst inst outcome =>
    exact .inr (executeInst_quiet inv (ite_none_right_eq_some.mp stepped).2)
  | issueInst inst =>
    exact .inr ((issueInst_silent (ite_none_right_eq_some.mp stepped).2).quiet inv)

end Runahead.O3.State
