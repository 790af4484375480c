import Runahead.O3.WindowRun

/-!
# The exit squash is not lost

`exitRunaheadMode` writes its squash into the slot of `iewQueue` that commit
reads one cycle later. In runs with quiet windows no other request takes the
slot over, and commit accepts the squash.
-/

set_option autoImplicit false

namespace Runahead.O3.State

open Library

variable {config : Config} {env : CommitEnv} {state next : State}

/-- A step of a quiet run that starts in runahead mode. -/
def quietRunahead (state : State) (event : Event) : Bool :=
  state.core.inRunahead && state.quietWindow event

/-- A step of a quiet run in which commit does not read an exit squash. -/
def exitUnread (state : State) : Event → Bool
  | .commitTick env =>
    !state.iewToCommit.squashAfterRunahead && state.quietWindow (.commitTick env)
  | event => state.quietWindow event

variable {event : Event}

theorem exitUnread_quiet (allowed : state.exitUnread event = true) :
    state.quietWindow event = true := by
  cases event with
  | commitTick env =>
    simp only [exitUnread, Bool.and_eq_true] at allowed
    exact allowed.2
  | _ => exact allowed

/-- The trigger of a runahead period stays the same. -/
theorem step_trigger (inv : state.PipelineInv config)
    (mode : state.core.inRunahead = true) (stepped : state.step config event = some next) :
    next.core.raTriggerInst = state.core.raTriggerInst := by
  rcases step_frame inv stepped with ⟨env, rfl⟩ | frame
  · obtain ⟨done, _, frame, rfl⟩ := commitTick_frame (Option.ite_none_right_eq_some.mp stepped).2
    exact frame.trigger.resolve_right fun both => clash both.1 mode
  · exact frame.raTriggerInst

/-- What holds from the exit until commit reads its squash. -/
structure ExitOnItsWay (config : Config) (trigger : Nat) (state : State) : Prop where
  quiet : state.QuietInv config
  normal : state.core.inRunahead = false
  trigger : state.core.raTriggerInst = trigger
  slot : state.iewCurrent.squashAfterRunahead = true ∨ state.iewToCommit.squashAfterRunahead = true

theorem step_exitOnItsWay {trigger : Nat}
    (inv : state.ExitOnItsWay config trigger) (allowed : state.exitUnread event = true)
    (stepped : state.step config event = some next) : next.ExitOnItsWay config trigger := by
  have quiet := step_quietRun inv.quiet (exitUnread_quiet allowed) stepped
  rcases step_frame inv.quiet.pipeline stepped with ⟨env, rfl⟩ | frame
  · have unread : state.iewToCommit.squashAfterRunahead = false := by
      simp only [exitUnread, Bool.and_eq_true, Bool.not_eq_true'] at allowed
      exact allowed.1
    have current : state.iewCurrent.squashAfterRunahead = true :=
      inv.slot.resolve_right fun exit => clash unread exit
    obtain ⟨done, _, frame, rfl⟩ := commitTick_frame (Option.ite_none_right_eq_some.mp stepped).2
    -- The mode is not entered while the squash is on its way.
    have normal : done.inRunahead = false := by
      by_contra mode
      have := (quiet.mode.modeFirst (Bool.of_not_eq_false mode)).2
      exact clash this current
    refine ⟨quiet, normal, ?_, .inr current⟩
    have same := frame.trigger.resolve_right fun both => clash normal both.2
    exact same.trans inv.trigger
  · rcases frame.mode with ⟨sameMode, sameExit⟩ | ⟨mode, _⟩
    · refine ⟨quiet, sameMode.trans inv.normal, frame.raTriggerInst.trans inv.trigger, ?_⟩
      rw [sameExit, frame.iewToCommit]
      exact inv.slot
    · exact clash inv.normal mode

theorem quietRunahead_trigger {earlier : State} (inv : earlier.QuietInv config)
    (period : Library.Reaches (step config) quietRunahead earlier state) :
    state.QuietInv config ∧ state.core.raTriggerInst = earlier.core.raTriggerInst := by
  induction period with
  | refl => exact ⟨inv, rfl⟩
  | tail _ allowed stepped ih =>
    simp only [quietRunahead, Bool.and_eq_true] at allowed
    exact ⟨step_quietRun ih.1 allowed.2 stepped,
      (step_trigger ih.1.pipeline allowed.1 stepped).trans ih.2⟩

def follower : StaticInst := { destRegs := [{ reg := ⟨.int, 1⟩ }] }

/-- Commit enters runahead mode for the load, retires it without its data, and
finds the second instruction at the head of the ROB. -/
def missingPair : List Event :=
  cycle [.fetchInst load 100 104, .fetchInst follower 104 108] [.renameInst, .renameInst] [] {} ++
    idleCycles 1 ++ cycle [] [] [.dispatchInst, .dispatchInst, .issueInst 1] {} ++
    cycle [] [] [.executeInst 1 (.access [7] none)] {} ++ [.l2Miss 1] ++ idleCycles 2

def beforeCommit : List Event := [.startTick, .startRename, .startIEW]

/-- The response to the load ends the mode, and commit reads the exit squash. -/
def readsExit (state : State) : Bool :=
  state.core.inRunahead && (state.step smallConfig (.memResponse 1 7)).any fun exited =>
    !exited.core.inRunahead &&
      (Library.runGuarded (step smallConfig) exitUnread exited
        (idleCycles 1 ++ beforeCommit)).any fun reading =>
          reading.iewToCommit.squashAfterRunahead &&
            (reading.step smallConfig (.commitTick {})).isSome

end Runahead.O3.State
