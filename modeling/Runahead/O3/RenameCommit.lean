import Runahead.O3.RenameInv

/-!
# Commit keeps rename and commit in agreement

A cycle of commit is followed as for the window. Committing the head of the ROB
moves its mappings from the history to the commit rename map.
-/

set_option autoImplicit false

namespace Runahead.O3.State

open Library List O3.Core

variable {config : Config} {env : CommitEnv} {state next : State} {core : Core}
variable {taken offered : List Nat} {inst : Nat}

/-! ## The start of the cycle -/

structure SameForRename (old new : DynInst) : Prop where
  squashed : new.squashed = old.squashed
  renamedDests : new.renamedDests = old.renamedDests
  static : new.staticInst = old.staticInst

theorem SameForRename.refl (inst : DynInst) : SameForRename inst inst := ⟨rfl, rfl, rfl⟩

theorem SameForRename.marks {old new : DynInst} (only : Core.MarksOnly old new) :
    SameForRename old new := by
  obtain ⟨_, _, _, _, rfl⟩ := only
  exact ⟨rfl, rfl, rfl⟩

theorem RenameInvAt.withTable (inv : state.RenameInvAt config offered) {insts : InstTable}
    (same : ∀ inst, SameForRename (state.insts inst) (insts inst)) :
    (state.withInsts insts).RenameInvAt config offered :=
  { inv with
    known := fun inst => (same inst).static.symm ▸ inv.known inst
    doomed := fun entry member now =>
      inv.doomed entry member (now.imp_left (same entry.instSeqNum).squashed.symm.trans)
    mapped := fun inst member => (inv.mapped inst member).imp
      (fun before => before.trans (same inst).renamedDests.symm)
      (Or.imp_left (same inst).squashed.trans)
    listed := fun inst member => (inv.listed inst member).imp_right (Or.imp_right (Or.imp_right
      (Or.imp_left (same inst).squashed.trans))) }

theorem finishIEW_renameFrame (state : State) : state.RenameFrame state.finishIEW := by
  obtain ⟨insts, storeQueue, same, rfl | ⟨_, rfl⟩⟩ := finishIEW_cases state <;> rw [same]
  · exact { RenameFrame.refl state with }
  · exact { RenameFrame.modifyInst state _ DynInst.setReleased fun _ => ⟨rfl, rfl, rfl⟩ with }

theorem RenamedInv.reading (inv : state.RenamedInv config) (phase : state.phase = .iew) :
    (state.reading state.core).RenameInvAt config state.renameQueue1 := by
  have silent : state.core.toIEW = {} := inv.quiet.pipeline.quiet
  have seen : ∀ {rank inst}, rank ≤ 2 → ¬ state.SquashUnseen rank inst := by
    intro rank inst bound unseen
    have := unseen.1
    simp only [phase, Phase.rank] at this
    omega
  exact { inv.rename with
    located := fun entry member => (inv.rename.located entry member).imp_right (Or.imp_right
      (Or.imp_left fun unseen => absurd unseen (seen (Nat.le_refl 2))))
    doomed := fun entry member doomed =>
      absurd (inv.rename.doomed entry member doomed) (seen (Nat.le_refl 2))
    ahead := fun signal => by simp [State.reading, silent] at signal
    undone := fun signal => by simp [State.reading, silent] at signal
    keeps := fun signal => by simp [State.reading, silent] at signal
    removes := fun _ => by simp [State.reading, silent]
    listed := fun inst member => (inv.rename.listed inst member).imp_right (Or.imp_right
      (Or.imp_right (Or.imp_right (Or.imp_right fun unseen =>
        absurd unseen.1 (seen (by decide)))))) }

theorem SquashesOnly.renamedDests {old new : InstTable} (only : SquashesOnly old new) :
    (new inst).renamedDests = (old inst).renamedDests := by
  rcases only inst with same | same <;> rw [same]
  rfl

theorem SquashesOnly.staticInst {old new : InstTable} (only : SquashesOnly old new) :
    (new inst).staticInst = (old inst).staticInst := by
  rcases only inst with same | same <;> rw [same]
  rfl

theorem continueSquash_rename (inv : state.RenamedInv config) (phase : state.phase = .iew) :
    (state.reading (state.core.continueSquash config)).RenameInvAt config state.renameQueue1 := by
  have start := inv.reading phase
  have squash := inv.quiet.pipeline.squash
  unfold continueSquash
  split
  · next squashing =>
    have notTrapped : state.core.commitStatus ≠ .trapPending := by simp [squashing]
    have inside := (squash.progress squashing).inside
    split
    · next done =>
      have drained : ∀ inst ∈ state.core.rob.instList,
          state.core.rob.squashedSeqNum < inst → (state.insts inst).squashed = true :=
        fun inst member younger => ((squash.progress squashing).all_drained done member younger).1
      exact { start with
        located := fun entry member => (start.located entry member).imp_right (Or.imp_right
          (Or.imp_right fun dropped => absurd dropped.1 notTrapped))
        doomed := fun entry member doomed => start.doomed entry member
          (doomed.imp_right fun all => absurd all.2.1 (by rintro ⟨⟩))
        mapped := fun inst member => (start.mapped inst member).imp_right fun doomed =>
          .inl (doomed.elim id fun all => drained inst all.1 all.2.2)
        listed := fun inst member => (start.listed inst member).imp_right (Or.imp_right
          (Or.imp_right (Or.imp_right (Or.imp_left fun dropped =>
            absurd dropped.1 notTrapped)))) }
    · have only := SquashesOnly.of_doSquash config.squashWidth state.core.insts state.core.rob
      have changed := Rob.doSquash_apply config.squashWidth state.core.insts state.core.rob
      have sameList := Rob.doSquash_instList config.squashWidth state.core.insts state.core.rob
      have sameNumber :=
        Rob.doSquash_squashedSeqNum config.squashWidth state.core.insts state.core.rob
      generalize state.core.rob.doSquash config.squashWidth state.core.insts = squashing at *
      obtain ⟨insts, instList, squashIt, squashedSeqNum, doneSquashing⟩ := squashing
      subst sameList sameNumber
      refine { start with
        known := fun inst => only.staticInst.symm ▸ start.known inst
        doomed := fun entry member doomed => start.doomed entry member ?_
        mapped := fun inst member => (start.mapped inst member).imp
          (fun same => same.trans only.renamedDests.symm) (Or.imp_left only.squashed)
        listed := fun inst member => (start.listed inst member).imp_right (Or.imp_right
          (Or.imp_right (Or.imp_left only.squashed))) }
      rcases doomed with squashed | progress
      · rcases changed entry.instSeqNum with same | ⟨⟨position, points, behind⟩, younger, _⟩
        · exact .inl ((congrArg DynInst.squashed same).symm.trans squashed)
        · exact .inr ⟨Rob.backwardFrom_subset (inside position points) _ behind, squashing, younger⟩
      · exact .inr progress
  · exact start

theorem checkForInterrupts_rename (config : Config) (env : CommitEnv)
    (inv : (state.reading core).RenameInvAt config offered) :
    (state.reading (core.checkForInterrupts config env)).RenameInvAt config offered := by
  obtain ⟨_, _, same⟩ := checkForInterrupts_eq config env core
  rw [same]
  exact { inv with }

/-! ## Squashes -/

theorem RenameInvAt.spared (inv : state.RenameInvAt config offered)
    (silent : state.fromCommit.squash = false) {entry : RenameHistory}
    (member : entry ∈ state.uncommittedEntries) : ¬ state.Doomed entry.instSeqNum := fun doomed =>
  clash silent (inv.doomed entry member doomed).2.1

theorem broadcastSquash_rename (inv : (state.reading core).RenameInvAt config offered)
    {squashedInst youngest : Nat} {pc : Addr}
    (bounds : state.SquashBounds core offered squashedInst youngest)
    (silent : core.toIEW.squash = false) :
    (state.committing (core.broadcastSquash config squashedInst youngest pc)).RenameInvAt
      config offered := by
  have only := SquashesOnly.of_squash config.squashWidth core.insts core.rob squashedInst
  have changed := Rob.squash_apply config.squashWidth core.insts core.rob squashedInst
  have sameList := Rob.squash_instList config.squashWidth core.insts core.rob squashedInst
  have number := @Rob.squash_squashedSeqNum config.squashWidth core.rob core.insts squashedInst
  have unannounced : ∀ {rank inst}, ¬ (state.reading core).SquashUnseen rank inst :=
    fun unseen => clash silent unseen.2.1
  have spared : ∀ {entry}, entry ∈ (state.reading core).uncommittedEntries →
      ¬ (state.reading core).Doomed entry.instSeqNum := inv.spared silent
  unfold broadcastSquash
  generalize core.rob.squash config.squashWidth core.insts squashedInst = squashing at *
  obtain ⟨insts, instList, squashIt, squashedSeqNum, doneSquashing⟩ := squashing
  subst sameList
  refine { inv with
    known := fun inst => only.staticInst.symm ▸ inv.known inst
    located := fun entry member => ?_
    doomed := fun entry member doomed => ?_
    mapped := fun inst member => ?_
    ahead := fun _ => bounds.waiting
    undone := fun _ late => absurd late (by simp [committing, Phase.rank])
    keeps := fun _ => Nat.le_trans bounds.committed bounds.bound
    removes := by simp
    listed := fun inst member => ?_ }
  · rcases inv.located entry member with held | queued | unseen | dropped
    · exact (bounds.held held).imp_right fun younger =>
        .inr (.inl ⟨Nat.zero_lt_succ _, rfl, younger⟩)
    · exact .inr (.inl queued)
    · exact absurd unseen unannounced
    · exact .inr (.inr (.inl ⟨Nat.zero_lt_succ _, rfl, bounds.dropped _ dropped⟩))
  · refine ⟨Nat.zero_lt_succ _, rfl, ?_⟩
    rcases doomed with squashed | ⟨inRob, _, younger⟩
    · rcases changed entry.instSeqNum with same | ⟨_, younger, _⟩
      · exact absurd (.inl ((congrArg DynInst.squashed same).symm.trans squashed)) (spared member)
      · exact younger
    · exact number (ne_nil_of_mem inRob) ▸ younger
  · refine (inv.mapped inst member).imp (fun same => same.trans only.renamedDests.symm) ?_
    rintro (squashed | ⟨inRob, squashing, younger⟩)
    · exact .inl (only.squashed squashed)
    · refine .inr ⟨inRob, rfl, ?_⟩
      exact (number (ne_nil_of_mem inRob)).symm ▸ bounds.covers inst inRob squashing younger
  · rcases inv.listed inst member with inRob | waits | gone | squashed | dropped | unseen
    · exact .inl inRob
    · exact .inr (.inl waits)
    · exact .inr (.inr (.inl gone))
    · exact .inr (.inr (.inr (.inl (only.squashed squashed))))
    · exact .inr (.inr (.inr (.inr (.inr ⟨⟨Nat.zero_lt_succ _, rfl, bounds.dropped _ dropped⟩,
        dropped.2.2⟩))))
    · exact absurd unseen.1 unannounced

theorem RenameInvAt.refused (inv : (state.reading core).RenameInvAt config offered)
    (notExit : state.iewToCommit.squashAfterRunahead = false) :
    (state.committing core).RenameInvAt config offered := by
  have same : (state.committing core).inWindow = (state.reading core).inWindow := by
    simp [inWindow, State.reading, committing, notExit]
  exact { inv with
    located := fun entry member => (inv.located entry member).imp_left (Or.imp_right
      (And.imp_left same.trans)) }

theorem handleSquashes_rename (config : Config)
    (inv : (state.reading core).RenameInvAt config offered)
    (quiet : (state.reading core).QuietInvAt taken offered)
    (pipeline : (state.committing core).PipelineInvAt taken offered)
    (silent : core.toIEW.squash = false)
    (exitAlone : state.iewToCommit.squashAfterRunahead = true →
      (state.committing core).inWindow = false)
    (trapFree : (state.reading core).inWindow = true → core.commitStatus ≠ .trapPending) :
    (state.committing (core.handleSquashes config state.iewToCommit)).RenameInvAt
      config offered := by
  have step := handleSquashes_step config quiet pipeline trapFree
  generalize core.handleSquashes config state.iewToCommit = squashed at step
  cases step with
  | none _ _ notExit => exact inv.refused notExit
  | own outside _ =>
    have squashed : (state.committing (core.squashAll config)).RenameInvAt config offered :=
      broadcastSquash_rename inv (squashAll_bounds quiet pipeline.queues outside) silent
    exact { squashed with }
  | iew _ accepted =>
    exact broadcastSquash_rename inv (squashFromIEW_bounds quiet pipeline exitAlone accepted) silent

theorem RenameInvAt.passSquashed (inv : state.RenameInvAt config offered)
    (queues : state.QueueInv taken offered) (phase : state.phase = .betweenTicks)
    (found : ∀ inst ∈ offered, (state.insts inst).squashed = true ∨ state.SquashUnseen 3 inst) :
    state.RenameInvAt config [] := by
  have unseen : ∀ {rank inst}, 0 < rank → state.SquashUnseen 3 inst →
    state.SquashUnseen rank inst :=
    fun positive unseen => ⟨by simpa [phase, Phase.rank] using positive, unseen.2⟩
  have sub : state.waiting [] ⊆ state.waiting offered :=
    (sublist_append_right offered _).subset
  refine { inv with
    located := fun entry member => ?_
    mapped := fun inst member => inv.mapped inst ((mem_append.mp member).elim
      (mem_append_left _) fun queued =>
        mem_append_right _ (mem_append_right _ queued))
    ahead := fun signal inst member => inv.ahead signal inst (sub member)
    listed := fun inst member => ?_ }
  · rcases inv.located entry member with held | queued | later
    · exact .inl held
    · rcases mem_append.mp queued with offers | queued
      · rcases found _ offers with squashed | discards
        · exact .inr (.inr (.inl (inv.doomed entry member (.inl squashed))))
        · exact .inr (.inr (.inl (unseen (by decide) discards)))
      · exact .inr (.inl queued)
    · exact .inr (.inr later)
  · rcases inv.listed inst member with inRob | waits | later
    · exact .inl inRob
    · rcases mem_append.mp waits with offers | queued
      · rcases found inst offers with squashed | discards
        · exact .inr (.inr (.inr (.inl squashed)))
        · exact .inr (.inr (.inr (.inr (.inr ⟨unseen Nat.zero_lt_one discards, fun older inRob =>
            (pairwise_append.mp queues.robOrdered).2.2 older inRob inst waits⟩))))
      · exact .inr (.inl queued)
    · exact .inr (.inr later)

/-! ## Instructions from rename -/

theorem RenameInvAt.pass (inv : state.RenameInvAt config (inst :: offered))
    (silent : state.fromCommit.squash = false)
    (found : (state.insts inst).squashed = true ∨ state.Dropped inst) :
    state.RenameInvAt config offered := by
  refine { inv with
    located := fun entry member => ?_
    mapped := fun other member => inv.mapped other (by
      simp only [cons_append, mem_append, mem_cons] at member ⊢
      tauto)
    ahead := fun signal => clash silent signal
    listed := fun other member => ?_ }
  · rcases inv.located entry member with held | queued | later
    · exact .inl held
    · rcases mem_cons.mp queued with same | queued
      · rcases found with squashed | dropped
        · exact absurd (.inl (same ▸ squashed)) (inv.spared silent member)
        · exact .inr (.inr (.inr (same ▸ dropped)))
      · exact .inr (.inl queued)
    · exact .inr (.inr later)
  · rcases inv.listed other member with inRob | waits | later
    · exact .inl inRob
    · rcases mem_cons.mp waits with rfl | waits
      · exact .inr (.inr (.inr (found.imp_right .inl)))
      · exact .inr (.inl waits)
    · exact .inr (.inr later)

theorem append_rename (inv : state.LoopInv taken (inst :: offered) core)
    (rename : (state.committing core).RenameInvAt config (inst :: offered))
    (notTrapped : core.commitStatus ≠ .trapPending) :
    (state.committing { core with
      rob := { core.rob with instList := core.rob.instList ++ [inst] }
      youngestSeqNum := inst }).RenameInvAt config offered := by
  have doomed : ∀ {other}, (state.committing { core with
      rob := { core.rob with instList := core.rob.instList ++ [inst] }
      youngestSeqNum := inst }).Doomed other ↔ (state.committing core).Doomed other :=
    or_congr Iff.rfl ⟨fun progress => absurd progress.2.1 inv.running,
      fun progress => absurd progress.2.1 inv.running⟩
  refine { rename with
    located := fun entry member => ?_
    doomed := fun entry member now => rename.doomed entry member (doomed.mp now)
    mapped := fun other member => (rename.mapped other ?_).imp_right doomed.mpr
    ahead := fun signal => clash inv.noSignal signal
    listed := fun other member => ?_ }
  · rcases rename.located entry member with held | queued | unseen | dropped
    · exact .inl (held.imp_left (mem_append_left _))
    · rcases mem_cons.mp queued with same | queued
      · exact .inl (.inl (mem_append_right _ (by simp [same])))
      · exact .inr (.inl queued)
    · exact .inr (.inr (.inl unseen))
    · exact absurd dropped.1 notTrapped
  · have member : other ∈ (core.rob.instList ++ [inst]) ++ (offered ++ state.renameQueue0) := member
    rw [append_assoc, singleton_append] at member
    exact member
  · rcases rename.listed other member with inRob | waits | gone | squashed | dropped | unseen
    · exact .inl (mem_append_left _ inRob)
    · rcases mem_cons.mp waits with rfl | waits
      · exact .inl (mem_append_right _ (mem_singleton.mpr rfl))
      · exact .inr (.inl waits)
    · exact .inr (.inr (.inl gone))
    · exact .inr (.inr (.inr (.inl squashed)))
    · exact absurd dropped.1 notTrapped
    · exact clash inv.noSignal unseen.1.2.1

theorem getInst_rename {next : Core} (inv : state.LoopInv taken (inst :: offered) core)
    (quiet : (state.committing core).QuietInvAt taken (inst :: offered))
    (rename : (state.committing core).RenameInvAt config (inst :: offered))
    (accepted : core.getInst config inst = .ok next) :
    (state.committing next).RenameInvAt config offered := by
  rcases getInst_cases accepted with ⟨rfl, why⟩ | ⟨rfl, _, _, notTrapped⟩
  · refine rename.pass inv.noSignal ?_
    rcases why with squashed | squashing | trapped
    · exact .inl squashed
    · exact absurd squashing inv.running
    · refine .inr ⟨trapped, quiet.youngest.below inst mem_cons_self, fun older inRob => ?_⟩
      exact (pairwise_append.mp inv.pipeline.queues.robOrdered).2.2 older inRob inst mem_cons_self
  · exact (append_rename inv rename notTrapped).withTable fun other =>
      .marks (inserted_marks core inst other)

/-! ## The head of the ROB -/

theorem startTrap_rename (inv : state.LoopInv taken offered core)
    (rename : (state.committing core).RenameInvAt config offered) (handlerPc : Addr) :
    (state.committing (core.startTrap handlerPc)).RenameInvAt config offered :=
  { rename with
    located := fun entry member => (rename.located entry member).imp_right (Or.imp_right
      (Or.imp_right fun dropped => ⟨rfl, dropped.2⟩))
    doomed := fun entry member doomed => rename.doomed entry member
      (doomed.imp_right fun all => absurd all.2.1 (by rintro ⟨⟩))
    mapped := fun inst member => (rename.mapped inst member).imp_right
      (Or.imp_right fun all => absurd all.2.1 inv.running)
    listed := fun inst member => (rename.listed inst member).imp_right (Or.imp_right (Or.imp_right
      (Or.imp_right (Or.imp_left fun dropped => ⟨rfl, dropped.2⟩)))) }

theorem handleInterrupt_rename (inv : state.LoopInv taken offered core)
    (rename : (state.committing core).RenameInvAt config offered) :
    (state.committing (core.handleInterrupt env)).RenameInvAt config offered := by
  unfold handleInterrupt
  split
  · exact { rename with }
  · split
    · exact { startTrap_rename inv rename env.handlerPc with }
    · exact rename

variable {head : Nat}

theorem retireHead_rename {rest : List Nat} (inv : state.LoopInv taken offered core)
    (rename : (state.committing core).RenameInvAt config offered)
    (atHead : core.rob.instList = head :: rest)
    (entries : ∀ entry ∈ (state.committing core).uncommittedEntries, entry.instSeqNum = head →
      (state.committing core).inWindow = true ∧ core.raTriggerInst ≤ head) :
    (state.committing (core.retireHead head)).RenameInvAt config offered := by
  have list : (core.retireHead head).rob.instList = rest := by
    simp [retireHead, Rob.retireHead, atHead]
  have sub : ∀ {inst}, inst ∈ (core.retireHead head).rob.instList → inst ∈ core.rob.instList := by
    intro inst member
    rw [list] at member
    simp [atHead, member]
  have still : ∀ {inst}, inst ∈ core.rob.instList → inst ≠ head →
      inst ∈ (core.retireHead head).rob.instList := by
    intro inst member other
    rw [list]
    simpa [atHead, other] using member
  refine { rename with
    located := fun entry member => ?_
    doomed := fun entry member doomed => rename.doomed entry member
      (doomed.imp_right (And.imp_left fun inRob => sub inRob))
    mapped := fun inst member => ?_
    listed := fun inst member => ?_ }
  · rcases rename.located entry member with (inRob | window) | queued | unseen | dropped
    · by_cases here : entry.instSeqNum = head
      · exact .inl (.inr (here ▸ entries entry member here))
      · exact .inl (.inl (still inRob here))
    · exact .inl (.inr window)
    · exact .inr (.inl queued)
    · exact .inr (.inr (.inl unseen))
    · exact .inr (.inr (.inr ⟨dropped.1, dropped.2.1, fun older inRob =>
        dropped.2.2 older (sub inRob)⟩))
  · refine (rename.mapped inst ?_).imp_right (Or.imp_right fun all => absurd all.2.1 inv.running)
    exact (mem_append.mp member).elim (fun inRob => mem_append_left _ (sub inRob))
      (mem_append_right _)
  · rcases rename.listed inst member with inRob | waits | gone | squashed | dropped | unseen
    · by_cases here : inst = head
      · exact .inr (.inr (.inl (mem_append_right _ (by simp [here]))))
      · exact .inl (still inRob here)
    · exact .inr (.inl waits)
    · exact .inr (.inr (.inl (mem_append_left _ gone)))
    · exact .inr (.inr (.inr (.inl squashed)))
    · exact .inr (.inr (.inr (.inr (.inl ⟨dropped.1, dropped.2.1, fun older inRob =>
        dropped.2.2 older (sub inRob)⟩))))
    · exact clash inv.noSignal unseen.1.2.1

private theorem updateCommitRenameMap_append (map : RegId → PhysRegId)
    (older : List (RegId × PhysRegId)) (last : RegId × PhysRegId) :
    updateCommitRenameMap map (older ++ [last]) =
      Function.update (updateCommitRenameMap map older) last.1 last.2 := by
  induction older generalizing map with
  | nil =>
    funext reg
    simp [updateCommitRenameMap, Function.update_apply]
  | cons first older ih => exact ih _

/-- Committing the mappings of the log, oldest first, leads where the log leads. -/
theorem updateCommitRenameMap_tracks {base map : RegId → PhysRegId} {log : List RenameHistory}
    (tracks : Tracks historyView base log map) :
    updateCommitRenameMap base (log.reverse.map fun entry =>
      (entry.archReg, entry.newPhysReg)) = map := by
  induction tracks with
  | nil => rfl
  | @cons log map entry older recorded ih =>
    rw [reverse_cons, map_append, map_singleton, updateCommitRenameMap_append, ih]
    rfl

private theorem filter_oldest {history : List RenameHistory} {last : Nat}
    (ordered : history.Pairwise fun newer older => older.instSeqNum ≤ newer.instSeqNum)
    (later : last < head)
    (oldest : ∀ entry ∈ history, last < entry.instSeqNum → head ≤ entry.instSeqNum) :
    (history.filter fun entry => decide (last < entry.instSeqNum)) =
      (history.filter fun entry => decide (head < entry.instSeqNum)) ++
        history.filter fun entry => decide (entry.instSeqNum = head) := by
  induction history with
  | nil => rfl
  | cons first rest ih =>
    obtain ⟨above, ordered⟩ := pairwise_cons.mp ordered
    have same := ih ordered fun entry member => oldest entry (mem_cons_of_mem _ member)
    have reached := oldest first mem_cons_self
    rcases Nat.lt_trichotomy first.instSeqNum head with before | here | after
    · have committed : ¬ last < first.instSeqNum := by omega
      rw [filter_cons_of_neg (by simpa using committed), same,
        filter_cons_of_neg (by simp; omega), filter_cons_of_neg (by simp; omega)]
    · have none : (rest.filter fun entry => decide (head < entry.instSeqNum)) = [] :=
        filter_eq_nil_iff.mpr fun entry member => by
          have := above entry member
          simp only [decide_eq_true_eq]
          omega
      rw [filter_cons_of_pos (by simp; omega), same, none,
        filter_cons_of_neg (by simp; omega), none,
        filter_cons_of_pos (by simp; omega), nil_append, nil_append]
    · rw [filter_cons_of_pos (by simp; omega), same,
        filter_cons_of_pos (by simp; omega), filter_cons_of_neg (by simp; omega),
        cons_append]

/-- An instruction of the ROB that is not squashed has all its entries. -/
theorem RenameInvAt.mappings (rename : (state.committing core).RenameInvAt config offered)
    (inv : state.LoopInv taken offered core) (inRob : head ∈ core.rob.instList)
    (alive : (core.insts head).squashed = false) :
    mappingsOf state.rename.historyBuffer head = (core.insts head).renamedDests := by
  refine (rename.mapped head (mem_append_left _ inRob)).resolve_right ?_
  rintro (squashed | ⟨_, squashing, _⟩)
  · exact clash alive squashed
  · exact inv.running squashing

theorem commitInst_rename {rest : List Nat} (env : CommitEnv)
    (inv : state.LoopInv taken [] core) (rename : (state.committing core).RenameInvAt config [])
    (outside : (state.committing core).inWindow = false) (chosen : core.mayCommit = true)
    (atHead : core.rob.instList = head :: rest) (alive : (core.insts head).squashed = false) :
    (state.committing ((core.commitInst head).afterCommit env head)).RenameInvAt config [] := by
  have queues := inv.pipeline.queues
  have notTrapped : core.commitStatus ≠ .trapPending := by
    intro trapped
    simp [mayCommit, trapped] at chosen
  have inRob : head ∈ core.rob.instList := by simp [atHead]
  have uncommitted : core.lastCommitedSeqNum < head :=
    queues.committedBelow head (mem_append_left _ inRob)
  have oldest : ∀ entry ∈ state.rename.historyBuffer,
      core.lastCommitedSeqNum < entry.instSeqNum → head ≤ entry.instSeqNum := by
    intro entry member young
    have ordered := queues.robOrdered
    rw [committing_core, atHead, cons_append] at ordered
    have behind := (pairwise_cons.mp ordered).1
    rcases rename.located entry (mem_filter.mpr ⟨member, decide_eq_true young⟩) with
      (member | window) | queued | unseen | dropped
    · rcases mem_cons.mp (atHead ▸ member) with here | later
      · exact Nat.le_of_eq here.symm
      · exact Nat.le_of_lt (behind _ (mem_append_left _ later))
    · exact clash outside window.1
    · have queued : entry.instSeqNum ∈ state.renameQueue0 := queued
      have waits : entry.instSeqNum ∈ state.renameQueue0 ++ state.frontEnd :=
        mem_append_left _ queued
      exact Nat.le_of_lt (behind _ (mem_append_right _ waits))
    · exact clash inv.noSignal unseen.2.1
    · exact absurd dropped.1 notTrapped
  have mappings := rename.mappings inv inRob alive
  have tracks : Tracks historyView
      (updateCommitRenameMap core.commitRenameMap (core.insts head).renamedDests)
      (state.rename.historyBuffer.filter fun entry => decide (head < entry.instSeqNum))
      state.rename.renameMap := by
    have before : Tracks historyView core.commitRenameMap (state.rename.historyBuffer.filter
      fun entry => decide (core.lastCommitedSeqNum < entry.instSeqNum)) state.rename.renameMap :=
      rename.tracks
    have ordered : state.rename.historyBuffer.Pairwise fun newer older =>
      older.instSeqNum ≤ newer.instSeqNum := rename.ordered
    rw [filter_oldest ordered uncommitted oldest] at before
    obtain ⟨middle, older, newer⟩ := before.split
    rw [← mappings, mappingsOf, updateCommitRenameMap_tracks older]
    exact newer
  have younger : ∀ {entry}, entry ∈ (state.rename.historyBuffer.filter fun entry =>
      decide (head < entry.instSeqNum)) →
      entry ∈ (state.committing core).uncommittedEntries ∧ entry.instSeqNum ≠ head := by
    intro entry member
    obtain ⟨member, young⟩ := mem_filter.mp member
    simp only [decide_eq_true_eq] at young
    exact ⟨mem_filter.mpr ⟨member, decide_eq_true (Nat.lt_trans uncommitted young)⟩, by omega⟩
  obtain ⟨status, after, which, same⟩ := afterCommit_cases env (core.commitInst head) head
  have running : status ≠ .robSquashing ∧ status ≠ .trapPending := by
    rcases which with rfl | rfl
    · exact ⟨inv.running, notTrapped⟩
    · exact ⟨(by decide), (by decide)⟩
  have list : (core.retireHead head).rob.instList = rest := by
    simp [retireHead, Rob.retireHead, atHead]
  rw [same]
  refine { rename with
    tracks := tracks
    located := fun entry member => ?_
    doomed := fun entry member doomed =>
      absurd (doomed.imp_right fun all => absurd all.2.1 running.1)
        (rename.spared inv.noSignal (younger member).1)
    mapped := fun inst member => ?_
    ahead := fun signal => clash inv.noSignal signal
    undone := fun signal => clash inv.noSignal signal
    keeps := fun signal => clash inv.noSignal signal
    removes := fun _ => Nat.le_refl _
    listed := fun inst member => ?_ }
  · obtain ⟨before, different⟩ := younger member
    rcases rename.located entry before with (member | window) | queued | unseen | dropped
    · refine .inl (.inl ?_)
      change entry.instSeqNum ∈ (core.retireHead head).rob.instList
      rw [list]
      exact (mem_cons.mp (atHead ▸ member)).resolve_left different
    · exact clash outside window.1
    · exact .inr (.inl queued)
    · exact clash inv.noSignal unseen.2.1
    · exact absurd dropped.1 notTrapped
  · have member : inst ∈ (core.retireHead head).rob.instList ++ ([] ++ state.renameQueue0) := member
    rw [list] at member
    refine (rename.mapped inst ?_).imp_right (Or.imp_right fun all => absurd all.2.1 inv.running)
    rw [committing_core, atHead]
    exact mem_cons_of_mem _ member
  · rcases rename.listed inst member with inRob | waits | gone | squashed | dropped | unseen
    · rcases mem_cons.mp (atHead ▸ inRob) with here | later
      · exact .inr (.inr (.inl (mem_append_right _ (by simp [here]))))
      · refine .inl ?_
        change inst ∈ (core.retireHead head).rob.instList
        rwa [list]
    · exact .inr (.inl waits)
    · exact .inr (.inr (.inl (mem_append_left _ gone)))
    · exact .inr (.inr (.inr (.inl squashed)))
    · exact absurd dropped.1 notTrapped
    · exact clash inv.noSignal unseen.1.2.1

theorem enterRunahead_rename {next : Core}
    (rename : (state.committing core).RenameInvAt config offered)
    (outside : (state.committing core).inWindow = false)
    (entered : core.enterRunaheadMode [] head = .ok next) :
    (state.committing next).RenameInvAt config offered := by
  obtain ⟨_, _, insts, regs, rfl, only, _, _⟩ := enterRunaheadMode_cases entered
  have marked := rename.withTable fun inst => .marks (only inst)
  exact { marked with
    located := fun entry member => (marked.located entry member).imp_left (Or.imp_right
      fun both => clash outside both.1) }

theorem headStep_rename {next : Core} (inv : state.LoopInv taken [] core)
    (loop : state.ModeLoop core) (quiet : (state.committing core).QuietInvAt taken [])
    (rename : (state.committing core).RenameInvAt config [])
    (chosen : core.mayCommit = true ∨ core.instList = []) (step : Core.HeadStep env core next) :
    (state.committing next).RenameInvAt config [] := by
  have invalidates : ∀ head inst, SameForRename (core.insts inst)
      (core.insts.modify head DynInst.setInvalid inst) := fun head inst =>
    .marks ((Core.Invalidates.modify _ head).marks inst).1
  cases step with
  | stay => exact rename
  | enter atHead enters entered =>
    have normal := (enterRunaheadMode_cases entered).1
    simp only [entersRunahead, Bool.and_eq_true, Bool.not_eq_true'] at enters
    have dispatched := (inv.pipeline.status.each _).missedDispatched enters.1.2
    exact enterRunahead_rename rename
      (unmarked_outside loop atHead normal enters.2 dispatched) entered
  | invalidate atHead mode => exact rename.withTable (invalidates _)
  | @pseudoRetire head rest marked atHead mode which =>
    have retired : (state.committing (core.retireHead head)).RenameInvAt config [] := by
      refine retireHead_rename inv rename atHead fun entry member here => ?_
      by_contra left
      have outside : (state.committing core).inWindow = false := by
        by_contra inside
        have inside := Bool.of_not_eq_false inside
        exact left ⟨inside, quiet.window.above inside head (by simp [atHead])⟩
      have squashed := pseudoRetire_squashed inv quiet atHead mode outside
      exact rename.spared inv.noSignal member (.inl (here ▸ squashed))
    rcases which with rfl | rfl
    · exact { retired with }
    · have marked := retired.withTable (invalidates head)
      exact { marked with }
  | @dropSquashed head rest atHead normalMode unmarked squashed =>
    refine retireHead_rename inv rename atHead fun entry member here => ?_
    exact absurd (.inl (here ▸ squashed)) (rename.spared inv.noSignal member)
  | hold atHead readyHead => exact { rename with }
  | @release head rest atHead readyHead waiting drained =>
    have cleared : ∀ inst, SameForRename (core.insts inst)
        (core.insts.modify head DynInst.clearCanCommit inst) := by
      intro inst
      rw [InstTable.modify_apply]
      split
      · exact ⟨rfl, rfl, rfl⟩
      · exact .refl _
    exact { rename.withTable cleared with }
  | trap atHead readyHead executed faulted => exact startTrap_rename inv rename env.handlerPc
  | @commit head rest atHead readyHead executed faultless =>
    have dispatched := (inv.pipeline.status.each head).executedDispatched executed
    have outside := unmarked_outside loop atHead readyHead.normalMode readyHead.unmarked dispatched
    exact commitInst_rename env (inv.withPc _) { rename with } outside (inv.present chosen atHead)
      atHead readyHead.alive

/-! ## The whole cycle -/

theorem advance_rename (rename : (state.committing core).RenameInvAt config []) :
    { state with core := core.markCompletedInsts state.iewToCommit }.advance.RenameInvAt config
      state.renameQueue0 := by
  have same : ∀ inst, SameForRename (core.insts inst)
      ((core.markCompletedInsts state.iewToCommit).insts inst) := by
    intro inst
    simp only [markCompletedInsts, InstTable.modifyAll_apply]
    split
    · exact ⟨rfl, rfl, rfl⟩
    · exact .refl _
  have marked := rename.withTable same
  have window := advance_inWindow state core
  have shift : ∀ {inst}, inst ∈ ([] : List Nat) ++ state.renameQueue0 ↔
      inst ∈ state.renameQueue0 ++ [] := by simp
  refine { marked with
    located := fun entry member => ?_
    mapped := fun inst member => marked.mapped inst ?_
    listed := fun inst member => ?_ }
  · rcases marked.located entry member with held | queued | later
    · exact .inl (held.imp_right (And.imp_left window.trans))
    · exact .inr (.inl (shift.mp queued))
    · exact .inr (.inr later)
  · exact (mem_append.mp member).elim (mem_append_left _) fun queued =>
      mem_append_right _ (shift.mpr queued)
  · obtain ⟨member, kept⟩ := mem_filter.mp member
    rcases marked.listed inst member with inRob | waits | gone | later
    · exact .inl inRob
    · exact .inr (.inl waits)
    · have gone : inst ∈ (core.markCompletedInsts state.iewToCommit).removeList := gone
      simp [gone] at kept
    · exact .inr (.inr (.inr later))

theorem commitTick_rename (inv : state.RenamedInv config) (phase : state.phase = .iew)
    (waits : state.interruptsWait (.commitTick env) = true)
    (stepped : state.commitTick config env = some next) :
    next.RenameInvAt config next.renameQueue1 := by
  obtain ⟨idle, seen, done, sameInterrupts, rfl, finish⟩ := commitTick_cases stepped
  have waits := interruptsWait_finished waits sameInterrupts
  obtain ⟨phase, idle⟩ := finishIEW_ready phase idle
  have quiet := finishIEW_quiet inv.quiet
  have rename := (finishIEW_renameFrame state).renameInv (finishIEW_silent state).frame inv.quiet
    inv.rename
  generalize state.finishIEW = state at *
  have start := quiet.checked phase idle seen
  have enter := quiet.enter phase idle seen
  have checked := checkForInterrupts_rename config seen
    (continueSquash_rename ⟨quiet, rename, fun between =>
      absurd (phase.symm.trans between) (by decide)⟩ phase)
  have found := squashing_found quiet phase start.quiet start.pipeline done
  generalize (state.core.continueSquash config).checkForInterrupts config seen = core at *
  refine advance_rename ?_
  rcases finish with ⟨same, squashing⟩ | ⟨running, own, refused, filled, got, committed⟩
  · have handled := handleSquashes_rename config checked start.quiet start.pipeline start.silent
      start.exitAlone start.trapFree
    rw [← same] at handled
    have pipeline := handleSquashes_pipeline config state.iewToCommit start.pipeline
    rw [← same] at pipeline
    exact handled.passSquashed pipeline.queues rfl (found same squashing)
  · obtain ⟨notExit, entered⟩ := enter running own refused
    have ended := commitInsts_invariant
      (fun taken offered core => state.ModeLoop core ∧
        (state.committing core).QuietInvAt taken offered ∧
        (state.committing core).RenameInvAt config offered)
      entered ⟨start.loop, start.quiet.refused notExit, checked.refused notExit⟩
      (fun _ _ _ _ _ inv held accepted =>
        ⟨getInst_mode inv held.1 accepted, getInst_quiet inv held.2.1 accepted,
          getInst_rename inv held.2.1 held.2.2 accepted⟩)
      (fun _ _ _ held only => ⟨held.1.invalidates only, held.2.1.invalidates only,
        held.2.2.withTable fun inst => .marks (only.marks inst).1⟩)
      (fun _ inv held => ⟨handleInterrupt_mode held.1 waits, handleInterrupt_quiet inv held.2.1,
        handleInterrupt_rename inv held.2.2⟩)
      (fun _ _ inv held chosen step => ⟨headStep_mode inv held.1 chosen step,
        headStep_quiet inv held.1 held.2.1 chosen step,
        headStep_rename inv held.1 held.2.1 held.2.2 chosen step⟩)
      quiet.pipeline.width1 got committed
    exact ended.2.2.2

/-! ## Whole runs -/

theorem initial_renamed (config : Config) (pc : Addr) : (initial config pc).RenamedInv config where
  quiet := initial_quiet config pc
  rename := by
    refine ⟨⟨⟨⟨Config.initialMap, .nil⟩, by simp [initial]⟩, ?_⟩, .nil, ?_, ?_, ?_, ?_,
      ?_, ?_, ?_, ?_,
      ?_, ?_, ?_⟩ <;>
      simp [initial, uncommittedEntries, Config.knows, RenameState.registers, Config.physRegs]
  removed _ := rfl

theorem frontStep_rename (inv : state.RenamedInv config) (frame : state.CommitFrame next)
    (step : FrontStep config state next) :
    next.RenameInvAt config next.renameQueue1 ∧ next.phase ≠ .betweenTicks := by
  have started : state.phase ≠ .betweenTicks → next.phase ≠ .betweenTicks := by
    intro before between
    have later := frame.rank
    cases phase : state.phase <;> simp_all [Phase.rank]
  rw [frame.renameQueue1]
  cases step with
  | startTick phase => exact ⟨startTick_rename inv phase, (by rintro ⟨⟩)⟩
  | fetchInst phase silent knows =>
    exact ⟨fetchInst_rename inv silent knows _ _, started (by simp [phase])⟩
  | decodeSquash phase silent member =>
    exact ⟨decodeSquash_rename inv member, started (by simp [phase])⟩
  | startRename phase => exact ⟨startRename_rename inv phase, started (by simp [phase])⟩
  | renameInst phase silent renames =>
    exact ⟨renameInst_rename inv silent renames, started (by simp [phase])⟩
  | startIEW phase => exact ⟨startIEW_rename inv phase, started (by simp [phase])⟩

theorem step_renamed {event : Event} (inv : state.RenamedInv config)
    (allowed : state.quietWindow event = true)
    (stepped : state.step config event = some next) : next.RenamedInv config := by
  have quiet := step_quietRun inv.quiet allowed stepped
  rcases step_stages inv.quiet.pipeline stepped with ⟨env, rfl⟩ | ⟨commit, frame | step⟩
  · obtain ⟨phase, stepped⟩ := Option.ite_none_right_eq_some.mp stepped
    refine ⟨quiet, commitTick_rename inv phase (quietWindow_waits allowed) stepped, fun _ => ?_⟩
    obtain ⟨_, _, _, _, rfl, _⟩ := commitTick_cases stepped
    rfl
  · refine ⟨quiet, frame.renameInv commit inv.quiet inv.rename, fun between => ?_⟩
    rw [frame.removeList]
    exact inv.removed (frame.phase.symm.trans between)
  · obtain ⟨rename, started⟩ := frontStep_rename inv commit step
    exact ⟨quiet, rename, fun between => absurd between started⟩

theorem reachable_renamed {pc : Addr}
    (reached : Reaches (step config) quietWindow (initial config pc) state) :
    state.RenamedInv config :=
  reached.invariant (initial_renamed config pc) step_renamed

end Runahead.O3.State
