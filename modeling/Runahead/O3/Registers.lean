import Runahead.O3.Flush

/-!
# Physical registers are conserved

The rename unit of the CPU takes the steps of `RenameUnit` with one thread, in
the order in which the stages call it. In every run each register is therefore
in exactly one place. In runs with quiet windows the registers of the commit
rename map are not free either.
-/

set_option autoImplicit false

namespace Runahead.O3.State

open Library List

variable {config : Config} {env : CommitEnv} {state next : State} {unit : RenameUnit 1}

/-! ## The CPU takes the steps of the rename unit -/

structure Simulates (config : Config) (state : State) (unit : RenameUnit 1) : Prop where
  reached : Reaches (RenameUnit.step config) anyEvent (RenameUnit.initial config 1) unit
  thread : unit.thread 0 = state.rename
  followed : ∀ older ∈ (unit.historyBuffer 0).map RenameHistory.instSeqNum ++
      (unit.inFlight 0).map RenamedInst.seqNum,
    older < state.nextSeqNum ∧ ∀ inst ∈ state.frontEnd, older < inst
  known : ∀ inst, config.knows (state.insts inst).staticInst = true

theorem Simulates.history (inv : state.Simulates config unit) :
    unit.historyBuffer 0 = state.rename.historyBuffer :=
  congrArg RenameState.historyBuffer inv.thread

theorem Simulates.stay (inv : state.Simulates config unit) (rename : next.rename = state.rename)
    (grows : state.nextSeqNum ≤ next.nextSeqNum)
    (frontEnd : ∀ inst ∈ next.frontEnd, inst ∈ state.frontEnd ∨ state.nextSeqNum ≤ inst)
    (known : ∀ inst, config.knows (next.insts inst).staticInst = true) :
    next.Simulates config unit where
  reached := inv.reached
  thread := inv.thread.trans rename.symm
  followed older member := by
    obtain ⟨bounded, ahead⟩ := inv.followed older member
    refine ⟨Nat.lt_of_lt_of_le bounded grows, fun inst inside => ?_⟩
    rcases frontEnd inst inside with before | new
    · exact ahead inst before
    · exact Nat.lt_of_lt_of_le bounded new
  known := known

theorem Simulates.drop {final : RenameUnit 1} (op : RenameOp 1) (inv : state.Simulates config unit)
    (stepped : unit.step config op = some final) (thread : final.thread 0 = next.rename)
    (entries : next.rename.historyBuffer.Sublist state.rename.historyBuffer)
    (insts : (final.inFlight 0).Sublist (unit.inFlight 0))
    (nextSeqNum : next.nextSeqNum = state.nextSeqNum) (frontEnd : next.frontEnd = state.frontEnd)
    (known : ∀ inst, config.knows (next.insts inst).staticInst = true) :
    next.Simulates config final where
  reached := inv.reached.tail rfl stepped
  thread := thread
  followed older member := by
    have same : final.historyBuffer 0 = next.rename.historyBuffer :=
      congrArg RenameState.historyBuffer thread
    rw [same] at member
    rw [nextSeqNum, frontEnd]
    have before := ((entries.map _).append (insts.map _)).subset member
    rw [← inv.history] at before
    exact inv.followed older before
  known := known

private theorem setThread_inFlight (unit : RenameUnit 1) (state : RenameState)
    (inFlight : List RenamedInst) : (unit.setThread 0 state inFlight).inFlight 0 = inFlight := by
  simp [RenameUnit.setThread]

theorem startRename_simulates (inv : state.Simulates config unit) :
    ∃ final, state.startRename.Simulates config final := by
  unfold startRename
  split
  · refine ⟨_, inv.drop (.doSquash 0 state.fromCommit.doneSeqNum) rfl ?_ ?_ ?_ rfl rfl inv.known⟩
    · rw [RenameUnit.setThread_thread_self, inv.thread]
    · rw [RenameState.doSquash_historyBuffer]
      exact dropWhile_sublist _
    · rw [setThread_inFlight]
      exact filter_sublist
  · exact ⟨unit, inv.stay rfl (Nat.le_refl _) (fun inst => .inl) inv.known⟩

theorem startIEW_simulates (inv : state.Simulates config unit) :
    ∃ final, state.startIEW.Simulates config final := by
  rcases startIEW_cases state with ⟨_, _, _, _, _, after⟩ | ⟨_, _, _, after⟩ <;> rw [after]
  · exact ⟨unit, inv.stay rfl (Nat.le_refl _) (fun inst => .inl) inv.known⟩
  · split
    · refine ⟨_, inv.drop (.removeFromHistory 0 state.fromCommit.doneSeqNum) rfl ?_ ?_ ?_ rfl rfl
        inv.known⟩
      · rw [RenameUnit.setThread_thread_self, inv.thread]
      · exact RenameState.removeFromHistory_sublist _ _
      · rw [setThread_inFlight]
        exact filter_sublist
    · exact ⟨unit, inv.stay rfl (Nat.le_refl _) (fun inst => .inl) inv.known⟩

theorem renameInst_simulates (pipeline : state.PipelineInv config)
    (inv : state.Simulates config unit) (renames : state.renameInst = some next) :
    ∃ final, next.Simulates config final := by
  obtain ⟨inst, rest, front, ⟨_, rfl⟩ | ⟨_, renamed, mappings, _, _, accepted, rfl⟩⟩ :=
    renameInst_cases renames
  · exact ⟨unit, inv.stay rfl (Nat.le_refl _)
      (fun other member => .inl (front ▸ mem_cons_of_mem _ member)) inv.known⟩
  · have first : inst ∈ state.frontEnd := front ▸ mem_cons_self
    have later : ∀ other ∈ rest, inst < other := by
      have ordered := pipeline.queues.robOrdered
      rw [waiting, front] at ordered
      have ordered := (pairwise_append.mp (pairwise_append.mp (pairwise_append.mp
        ordered).2.1).2.1).2.1
      exact (pairwise_cons.mp ordered).1
    have follows : unit.followsAll 0 inst = true := by
      simp only [RenameUnit.followsAll, Bool.and_eq_true, all_eq_true, decide_eq_true_eq]
      exact ⟨fun entry member => (inv.followed _ (mem_append_left _
          (mem_map_of_mem member))).2 inst first,
        fun older member => (inv.followed _ (mem_append_right _
          (mem_map_of_mem member))).2 inst first⟩
    have knowsDests : RenameUnit.knowsDests config (state.insts inst).staticInst.destRegs = true :=
      inv.known inst
    obtain ⟨added, history, same, _⟩ := RenameState.renameDestRegs_history accepted
    let srcRegs := (state.insts inst).staticInst.srcRegs.filter fun reg =>
      reg.isFixedMapping || config.archRegs.contains reg
    have knowsSources : RenameUnit.knowsSources config srcRegs = true :=
      all_eq_true.mpr fun reg member => (mem_filter.mp member).2
    have stepped : unit.step config
        (.renameInst 0 inst srcRegs (state.insts inst).staticInst.destRegs) =
        some (unit.setThread 0 renamed (⟨inst, (srcRegs.filter (!·.isFixedMapping)).map
          (unit.renameMap 0)⟩ :: unit.inFlight 0)) := by
      simp only [RenameUnit.step, follows, knowsSources, knowsDests, Bool.and_true, ↓reduceIte,
        inv.thread, accepted]
    refine ⟨_, inv.reached.tail rfl stepped, RenameUnit.setThread_thread_self _ _ _ _,
      fun older member => ?_, inv.known⟩
    have bounded := pipeline.queues.bounded inst (by simp [waiting, first])
    have before : older = inst ∨ older ∈ (unit.historyBuffer 0).map RenameHistory.instSeqNum ++
        (unit.inFlight 0).map RenamedInst.seqNum := by
      simp only [RenameUnit.setThread, Function.update_self, history, map_append,
        map_cons, mem_append, mem_cons, mem_map] at member
      simp only [inv.history, mem_append, mem_map]
      rcases member with (⟨entry, new, rfl⟩ | old) | rfl | flying
      · exact .inl (same entry new)
      · exact .inr (.inl old)
      · exact .inl rfl
      · exact .inr (.inr flying)
    rcases before with rfl | before
    · exact ⟨bounded, later⟩
    · obtain ⟨below, ahead⟩ := inv.followed older before
      exact ⟨below, fun other member => ahead other (front ▸ mem_cons_of_mem _ member)⟩

theorem frontStep_simulates (pipeline : state.PipelineInv config)
    (inv : state.Simulates config unit) (step : FrontStep config state next) :
    ∃ final, next.Simulates config final := by
  cases step with
  | startTick phase =>
    refine ⟨unit, ?_⟩
    unfold startTick
    split
    · exact inv.stay rfl (Nat.le_refl _) (by rintro _ ⟨⟩) fun inst =>
        (squashInsts_staticInst state _ inst).symm ▸ inv.known inst
    · exact inv.stay rfl (Nat.le_refl _) (fun inst => .inl) inv.known
  | fetchInst phase silent knows =>
    refine ⟨unit, inv.stay rfl (Nat.le_succ _) (fun inst member => ?_) fun inst => ?_⟩
    · exact (mem_append.mp member).imp_right fun last =>
        Nat.le_of_eq (mem_singleton.mp last).symm
    · simp only [fetchInst, insts, InstTable.modify_apply]
      split
      · exact knows
      · exact inv.known inst
  | decodeSquash phase silent member =>
    exact ⟨unit, inv.stay rfl (Nat.le_refl _) (fun inst member => .inl (mem_filter.mp member).1)
      fun inst => (squashInsts_staticInst state _ inst).symm ▸ inv.known inst⟩
  | startRename phase => exact startRename_simulates inv
  | renameInst phase silent renames => exact renameInst_simulates pipeline inv renames
  | startIEW phase => exact startIEW_simulates inv

theorem step_simulates {event : Event} (pipeline : state.PipelineInv config)
    (inv : state.Simulates config unit) (stepped : state.step config event = some next) :
    ∃ final, next.Simulates config final := by
  rcases step_stages pipeline stepped with ⟨env, rfl⟩ | ⟨commit, frame | step⟩
  · obtain ⟨done, storeQueue, frame, rfl⟩ :=
      commitTick_frame (Option.ite_none_right_eq_some.mp stepped).2
    exact ⟨unit, inv.stay rfl (Nat.le_refl _) (fun inst => .inl) fun inst =>
      (frame.insts inst).static.symm ▸ inv.known inst⟩
  · refine ⟨unit, inv.stay frame.rename commit.grows (fun inst member => .inl ?_) fun inst =>
      (frame.bits inst).2.2.symm ▸ inv.known inst⟩
    exact frame.frontEnd ▸ member
  · exact frontStep_simulates pipeline inv step

theorem initial_simulates (config : Config) (pc : Addr) :
    (initial config pc).Simulates config (RenameUnit.initial config 1) where
  reached := .refl
  thread := by
    have mapped : RenameUnit.initialMap config (0 : Fin 1) = Config.initialMap := by
      funext reg
      simp [Config.initialMap, RenameUnit.initialMap]
    simp [RenameUnit.thread, RenameUnit.initial, initial, mapped, Config.initialFreeList]
  followed := by rintro _ ⟨⟩
  known := by simp [initial, Config.knows]

/-- In every run the rename unit of the CPU takes the steps of the rename unit. -/
theorem reachable_simulates {allowed : State → Event → Bool} {pc : Addr}
    (reached : Reaches (step config) allowed (initial config pc) state) :
    ∃ unit, state.Simulates config unit := by
  induction reached with
  | refl => exact ⟨_, initial_simulates config pc⟩
  | tail before _ stepped ih =>
    obtain ⟨unit, inv⟩ := ih
    exact step_simulates (reachable_pipeline before) inv stepped

/-! ## Where the registers are -/

theorem count_of_perm {pool places : List PhysRegId} (unique : pool.Nodup)
    (perm : places.Perm pool) (reg : PhysRegId) :
    places.count reg = if reg ∈ pool then 1 else 0 := by
  rw [perm.count_eq]
  split
  · next member => exact count_eq_one_of_mem unique member
  · next absent => exact count_eq_zero.mpr absent

theorem RenameInvAt.committed_held {offered : List Nat} (inv : state.RenameInvAt config offered)
    {reg : RegId} (known : reg ∈ config.archRegs) :
    state.core.commitRenameMap reg ∈ state.rename.registers config.archRegs := by
  rcases inv.tracks.kept reg with current | given
  · exact mem_append_right _ (mem_map.mpr ⟨reg, known, current⟩)
  · exact mem_append_left _ ((filter_sublist.filterMap _).subset given)

end Runahead.O3.State
