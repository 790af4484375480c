import Runahead.O3.Allocation
import Runahead.O3.RenameCommit

/-!
# INV bits

Which physical registers are invalid. A bit is set when the trigger enters
runahead mode and when an instruction leaves the ROB in the runahead branch of
`commitInsts`; it is cleared when rename gives the register out, and outside
runahead mode when it is renamed as a source. The invariant
says that the bits in use are those of the trigger and of the instructions that
have left the ROB without committing; here rename keeps it.
-/

set_option autoImplicit false

namespace Runahead.O3.State

open Library List
open Option (ite_none_right_eq_some)

variable {config : Config} {env : CommitEnv} {state next : State} {core : Core}
variable {taken offered : List Nat} {inst : Nat}

/-! ## Events that leave the bits alone -/

theorem startIEW_keeps (state : State) : state.startIEW.renameQueue0 = state.renameQueue0 ∧
    state.startIEW.core.inv = state.core.inv := by
  rcases startIEW_cases state with ⟨_, _, _, _, _, after⟩ | ⟨_, _, _, after⟩ <;> rw [after] <;>
    exact ⟨rfl, rfl⟩

structure KeepsBits (state next : State) : Prop where
  inv : next.core.inv = state.core.inv
  rename : next.rename = state.rename
  renameQueue0 : next.renameQueue0 = state.renameQueue0
  rank : state.phase.rank < 2 → next.phase.rank < 2

theorem step_keepsBits {event : Event} (stepped : state.step config event = some next) :
    (∃ env, event = .commitTick env) ∨ event = .startRename ∨ event = .renameInst ∨
      event = .startIEW ∨ state.KeepsBits next := by
  have early {phase : Phase} (rank : phase.rank = 1) : phase.rank < 2 := rank ▸ Nat.one_lt_two
  cases event with
  | commitTick env => exact .inl ⟨env, rfl⟩
  | startRename => exact .inr (.inl rfl)
  | renameInst => exact .inr (.inr (.inl rfl))
  | startIEW => exact .inr (.inr (.inr (.inl rfl)))
  | startTick =>
    obtain ⟨_, rfl⟩ := fired stepped
    unfold startTick
    split <;> exact .inr (.inr (.inr (.inr ⟨rfl, rfl, rfl, fun _ => early rfl⟩)))
  | fetchInst | decodeSquash =>
    obtain ⟨_, rfl⟩ := fired stepped
    exact .inr (.inr (.inr (.inr ⟨rfl, rfl, rfl, id⟩)))
  | memResponse | writeback | l2Miss | completeStore | trapFires | tcWrite | dispatchInst
  | executeInst | issueInst | instToCommit | sendStore =>
    have frame := step_renameFrame rfl stepped
    exact .inr (.inr (.inr (.inr
      ⟨frame.inv, frame.rename, frame.renameQueue0, fun early => frame.phase ▸ early⟩)))

/-! ## The invariant -/

/-- The instruction is neither in the ROB nor on its way from rename to it. -/
def Departed (state : State) (offered : List Nat) (inst : Nat) : Prop :=
  inst ∉ state.core.rob.instList ++ (offered ++ state.renameQueue0)

structure InvBitsAt (state : State) (offered : List Nat) : Prop where
  own : state.rename.OwnRegs
  /-- An invalid register that is not free belongs to the trigger or to an
  instruction that has left the ROB. -/
  sound : ∀ reg, reg ∉ state.rename.freeList → state.core.inv reg = true →
    ∃ entry ∈ state.uncommittedEntries, entry.newPhysReg = reg ∧
      (entry.instSeqNum = state.core.raTriggerInst ∧
          (state.insts entry.instSeqNum).runaheadInst = true ∨
        state.Departed offered entry.instSeqNum ∧
          (state.core.inRunahead = true → state.core.raTriggerInst ≤ entry.instSeqNum))
  complete : state.core.inRunahead = true → ∀ entry ∈ state.uncommittedEntries,
    entry.instSeqNum = state.core.raTriggerInst ∨ state.Departed offered entry.instSeqNum →
    state.SquashUnseen 2 entry.instSeqNum ∨ state.core.inv entry.newPhysReg = true

/-- What an event may do to the rename unit that changes no bits: entries leave
the history when their registers become free. -/
structure EntriesLeave (state next : State) : Prop where
  own : next.rename.OwnRegs
  free : state.rename.freeList ⊆ next.rename.freeList
  leave : ∀ entry ∈ state.uncommittedEntries,
    entry ∈ next.uncommittedEntries ∨ entry.newPhysReg ∈ next.rename.freeList
  stay : ∀ entry ∈ next.uncommittedEntries, entry ∈ state.uncommittedEntries
  unseen : ∀ entry ∈ next.uncommittedEntries, state.SquashUnseen 2 entry.instSeqNum →
    next.SquashUnseen 2 entry.instSeqNum

theorem InvBitsAt.entriesLeave (inv : state.InvBitsAt offered) (commit : state.CommitFrame next)
    (bounded : ∀ entry ∈ state.rename.historyBuffer, entry.instSeqNum < state.nextSeqNum)
    (leaves : state.EntriesLeave next) (queue : next.renameQueue0 = state.renameQueue0)
    (bits : next.core.inv = state.core.inv) : next.InvBitsAt offered := by
  have departed : ∀ {inst}, next.Departed offered inst ↔ state.Departed offered inst := by
    intro inst
    simp only [Departed, commit.rob, queue]
  have before : next.core.inRunahead = true → state.core.inRunahead = true := by
    intro mode
    rcases commit.mode with same | ended
    · exact same.1.symm.trans mode
    · exact clash ended.2.1 mode
  refine ⟨leaves.own, fun reg held invalid => ?_, fun mode entry member left => ?_⟩
  · rw [bits] at invalid
    obtain ⟨entry, member, rfl, why⟩ := inv.sound reg (fun free => held (leaves.free free)) invalid
    refine ⟨entry, (leaves.leave entry member).resolve_right held, rfl,
      why.imp (fun trigger => ?_) fun left => ⟨departed.mpr left.1, fun mode => ?_⟩⟩
    · have frame := commit.insts _ (bounded entry (mem_filter.mp member).1)
      exact ⟨trigger.1.trans commit.raTriggerInst.symm, frame.marked.trans trigger.2⟩
    · rw [commit.raTriggerInst]
      exact left.2 (before mode)
  · rw [departed, commit.raTriggerInst] at left
    rw [bits]
    exact (inv.complete (before mode) entry (leaves.stay entry member) left).imp_left
      (leaves.unseen entry member)

theorem EntriesLeave.same (own : state.rename.OwnRegs) (commit : state.CommitFrame next)
    (rename : next.rename = state.rename) (phase : state.phase.rank < 2 → next.phase.rank < 2) :
    state.EntriesLeave next := by
  have entries : next.uncommittedEntries = state.uncommittedEntries := by
    simp only [uncommittedEntries, rename, commit.lastCommitedSeqNum]
  refine ⟨rename ▸ own, fun reg free => rename ▸ free, fun entry member => .inl (entries ▸ member),
    fun entry member => entries ▸ member, fun entry _ unseen => ⟨phase unseen.1, ?_⟩⟩
  simpa only [commit.fromCommit] using unseen.2

/-! ## Rename -/

theorem startRename_leaves (own : state.rename.OwnRegs)
    (rename : state.RenameInvAt config offered) : state.EntriesLeave state.startRename := by
  unfold startRename
  split
  · next signal =>
    have members {entry : RenameHistory} :=
      @mem_doSquash _ state.fromCommit.doneSeqNum entry rename.ordered
    have free := RenameState.doSquash_freeList state.rename state.fromCommit.doneSeqNum
    refine ⟨own.doSquash _, fun reg member => ?_, fun entry member => ?_, fun entry member => ?_,
      fun entry member unseen => ?_⟩
    · change reg ∈ (state.rename.doSquash state.fromCommit.doneSeqNum).freeList
      rw [free]
      exact mem_append_left _ member
    · obtain ⟨inHistory, uncommitted⟩ := mem_filter.mp member
      by_cases kept : entry.instSeqNum ≤ state.fromCommit.doneSeqNum
      · exact .inl (mem_filter.mpr ⟨members.mpr ⟨inHistory, kept⟩, uncommitted⟩)
      · right
        rw [free]
        refine mem_append_right _ (mem_filterMap.mpr ⟨entry, ?_,
          if_neg (own.renamed entry inHistory)⟩)
        have split := state.rename.historyBuffer.takeWhile_append_dropWhile
          (p := fun entry => decide (state.fromCommit.doneSeqNum < entry.instSeqNum))
        rw [← split] at inHistory
        refine (mem_append.mp inHistory).resolve_right fun left => kept ?_
        rw [← RenameState.doSquash_historyBuffer] at left
        exact (members.mp left).2
    · obtain ⟨inHistory, uncommitted⟩ := mem_filter.mp member
      exact mem_filter.mpr ⟨(members.mp inHistory).1, uncommitted⟩
    · have kept := (members.mp (mem_filter.mp member).1).2
      exact absurd unseen.2.2 (Nat.not_lt.mpr kept)
  · next silent =>
    exact ⟨own, fun _ => id, fun _ => .inl, fun _ => id, fun _ _ unseen => absurd unseen.2.1 silent⟩

theorem removeFromHistory_free (rename : RenameState) (instSeqNum : Nat) :
    rename.freeList ⊆ (rename.removeFromHistory instSeqNum).freeList :=
  RenameState.removeFromHistory_invariant (fun after => rename.freeList ⊆ after.freeList) instSeqNum
    (fun _ _ _ _ sub _ member => mem_append_left _ (sub member)) fun _ => id

theorem startIEW_leaves (own : state.rename.OwnRegs)
    (rename : state.RenameInvAt config offered) (phase : state.phase = .rename) :
    state.EntriesLeave state.startIEW := by
  have unseen : ∀ inst, ¬ state.SquashUnseen 2 inst := by
    intro inst unseen
    have := unseen.1
    simp [phase, Phase.rank] at this
  rcases startIEW_cases state with ⟨_, _, _, _, _, after⟩ | ⟨quiet, _, _, after⟩ <;> rw [after]
  · exact ⟨own, fun _ => id, fun _ => .inl, fun _ => id, fun _ _ before => absurd before (unseen _)⟩
  · split
    · have entries : (state.rename.removeFromHistory
        state.fromCommit.doneSeqNum).historyBuffer.filter
          (fun entry => state.core.lastCommitedSeqNum < entry.instSeqNum) =
          state.uncommittedEntries :=
        filter_removeFromHistory _ fun entry uncommitted =>
          Nat.lt_of_le_of_lt (rename.removes quiet) (of_decide_eq_true uncommitted)
      exact ⟨own.removeFromHistory _, removeFromHistory_free _ _,
        fun entry member => .inl ((congrArg (entry ∈ ·) entries).mpr member),
        fun entry member => (congrArg (entry ∈ ·) entries).mp member,
        fun _ _ before => absurd before (unseen _)⟩
    · exact ⟨own, fun _ => id, fun _ => .inl, fun _ => id,
        fun _ _ before => absurd before (unseen _)⟩

theorem renameInst_invBits (run : state.RenamedInv config)
    (inv : state.InvBitsAt state.renameQueue1)
    (plain : ∀ inst rest, state.frontEnd = inst :: rest →
      (state.insts inst).staticInst.renamesAll = true)
    (stepped : state.renameInst = some next) : next.InvBitsAt state.renameQueue1 := by
  have rename := run.rename
  have poolUnique : config.physRegs.Nodup :=
    RenameUnit.physRegs_single config ▸ RenameUnit.physRegs_nodup config 1
  obtain ⟨inst, rest, front, ⟨_, rfl⟩ | ⟨_, renamed, mappings, sources, srcs, renames, rfl⟩⟩ :=
    renameInst_cases stepped
  · exact { inv with }
  · obtain ⟨added, extended⟩ := run.extends front renames
    have known : ∀ dest ∈ (state.insts inst).staticInst.destRegs,
        dest.reg.isFixedMapping = true ∨ dest.reg ∈ config.archRegs := by
      simpa [Config.knows, all_eq_true] using rename.known inst
    have allocates := RenameState.Allocates.renameDestRegs poolUnique
      (RenameUnit.archRegs_nodup config) (plain inst rest front) known rename.valid inv.own renames
    have unfree : ∀ entry ∈ state.rename.historyBuffer, entry.newPhysReg ∉ state.rename.freeList :=
      fun _ => rename.valid.entry_not_free inv.own poolUnique
    have mappings_added : ∀ {reg}, (mappings.map (·.2)).contains reg = true ↔
        ∃ entry ∈ added, entry.newPhysReg = reg := by
      intro reg
      simp [← extended.mapped]
    have waits : inst ∈ state.waiting state.renameQueue1 := by simp [waiting, front]
    refine ⟨allocates.own, fun reg held invalid => ?_, fun mode entry member left => ?_⟩
    · obtain ⟨notGiven, _, invalid⟩ : ¬ (mappings.map (·.2)).contains reg = true ∧
          (state.core.inRunahead = true ∨ reg ∉ sources) ∧ state.core.inv reg = true := by
        simpa using invalid
      have before : reg ∉ state.rename.freeList := by
        intro free
        obtain ⟨entry, member, rfl⟩ := mem_map.mp ((allocates.taken reg free).resolve_left held)
        rw [extended.history] at member
        rcases mem_append.mp member with new | old
        · exact notGiven (mappings_added.mpr ⟨entry, new, rfl⟩)
        · exact unfree entry old free
      obtain ⟨entry, member, sameReg, why⟩ := inv.sound reg before invalid
      have young := extended.older entry (mem_filter.mp member).1
      refine ⟨entry, ?_, sameReg, why.imp_right (And.imp_left fun departed => ?_)⟩
      · change entry ∈ renamed.historyBuffer.filter _
        rw [extended.uncommitted]
        exact mem_append_right _ member
      · have other : entry.instSeqNum ≠ inst := Nat.ne_of_lt young
        simpa [Departed, other] using departed
    · have member : entry ∈ added ++ state.uncommittedEntries := extended.uncommitted ▸ member
      have mode : state.core.inRunahead = true := mode
      rcases mem_append.mp member with new | old
      · -- The new instruction is younger than the trigger and waits for the ROB.
        rw [extended.same entry new] at left
        rcases left with trigger | departed
        · have inside := (inWindow_iff state).mpr (.inl mode)
          have := run.quiet.quiet.window.beforeYoungest inside
          have := run.quiet.quiet.youngest.below inst waits
          have trigger : inst = state.core.raTriggerInst := trigger
          omega
        · simp [Departed] at departed
      · have left : entry.instSeqNum = state.core.raTriggerInst ∨
            state.Departed state.renameQueue1 entry.instSeqNum := by
          refine left.imp_right fun departed inside => departed ?_
          simp only [mem_append] at inside ⊢
          tauto
        refine (inv.complete mode entry old left).imp_right fun invalid => ?_
        have kept : ¬ (mappings.map (·.2)).contains entry.newPhysReg = true := by
          intro taken
          obtain ⟨other, new, sameReg⟩ := mappings_added.mp taken
          rcases allocates.added other (extended.history ▸ mem_append_left _ new) with before | free
          · exact absurd (extended.same other new) (Nat.ne_of_lt (extended.older other before))
          · exact unfree entry (mem_filter.mp old).1 (sameReg ▸ free)
        exact (if_neg kept).trans ((if_neg (by simp [mode])).trans invalid)

end Runahead.O3.State
