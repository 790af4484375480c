import Mathlib.Data.Option.Basic

/-!
# Guarded runs of a partial step function

A machine is a step function that may refuse an event. A guard restricts the
events considered in a state; it is the place where assumptions about an
environment stand. Safety results are proved once per step and lifted to
whole runs by `Reaches.invariant`.
-/

set_option autoImplicit false

namespace Runahead.Library

/-- A flag is not both set and clear. -/
theorem clash {flag value : Bool} {Goal : Prop} (one : flag = value) (other : flag = !value) :
    Goal :=
  absurd (one.symm.trans other) (Bool.eq_not_self value).mp

variable {State Event : Type}

/-- A guarded step that is taken leads where its body says. -/
theorem fired {guard : Prop} [Decidable guard] {target next : State}
    (stepped : (if guard then some target else none) = some next) : guard ∧ target = next :=
  (Option.ite_none_right_eq_some.mp stepped).imp_right Option.some.inj

/-- The same for a step that reports why it is refused. -/
theorem succeeded {Failure : Type} {guard : Prop} [Decidable guard] {failure : Failure}
    {target next : State}
    (stepped : (if guard then .ok target else .error failure) = Except.ok next) :
    guard ∧ target = next := by
  split at stepped
  · next holds => exact ⟨holds, Except.ok.inj stepped⟩
  · cases stepped

/-- States reached from `start` by steps that the guard admits. -/
inductive Reaches (step : State → Event → Option State)
    (allowed : State → Event → Bool) (start : State) : State → Prop where
  | refl : Reaches step allowed start start
  | tail {middle final : State} {event : Event} :
      Reaches step allowed start middle → allowed middle event = true →
      step middle event = some final → Reaches step allowed start final

def anyEvent (_ : State) (_ : Event) : Bool := true

/-- Execute a list of events, refusing the run as soon as the guard or the
step function refuses an event. -/
def runGuarded (step : State → Event → Option State)
    (allowed : State → Event → Bool) : State → List Event → Option State
  | state, [] => some state
  | state, event :: rest =>
    if allowed state event then
      match step state event with
      | some next => runGuarded step allowed next rest
      | none => none
    else none

variable {step : State → Event → Option State} {allowed : State → Event → Bool}
  {start final : State}

theorem Reaches.invariant {state : State} {Holds : State → Prop}
    (reached : Reaches step allowed start state) (initial : Holds start)
    (preserved : ∀ {middle final : State} {event : Event},
      Holds middle → allowed middle event = true →
      step middle event = some final → Holds final) :
    Holds state := by
  induction reached with
  | refl => exact initial
  | tail _ admitted stepped ih => exact preserved ih admitted stepped

theorem Reaches.trans {first second third : State} (left : Reaches step allowed first second)
    (right : Reaches step allowed second third) :
    Reaches step allowed first third := by
  induction right with
  | refl => exact left
  | tail _ admitted stepped ih => exact ih.tail admitted stepped

theorem Reaches.single {event : Event} (admitted : allowed start event = true)
    (stepped : step start event = some final) :
    Reaches step allowed start final :=
  Reaches.refl.tail admitted stepped

theorem Reaches.weaken {weaker : State → Event → Bool} {state : State}
    (reached : Reaches step allowed start state)
    (implied : ∀ (middle : State) (event : Event),
      allowed middle event = true → weaker middle event = true) :
    Reaches step weaker start state := by
  induction reached with
  | refl => exact .refl
  | tail _ admitted stepped ih => exact ih.tail (implied _ _ admitted) stepped

variable {events : List Event}

theorem runGuarded_reaches (executed : runGuarded step allowed start events = some final) :
    Reaches step allowed start final := by
  induction events generalizing start with
  | nil =>
    cases executed
    exact .refl
  | cons event rest ih =>
    simp only [runGuarded] at executed
    split at executed
    · next admitted =>
      cases stepped : step start event with
      | none => simp [stepped] at executed
      | some next =>
        simp only [stepped] at executed
        exact (Reaches.single admitted stepped).trans (ih executed)
    · cases executed

/-- An observation of an executed list of events is an observation of a run. -/
theorem reaches_of_observed (step : State → Event → Option State)
    (allowed : State → Event → Bool) (start : State) (events : List Event)
    (observe : State → Bool)
    (observed : (runGuarded step allowed start events).any observe = true) :
    ∃ state, Reaches step allowed start state ∧ observe state = true := by
  cases executed : runGuarded step allowed start events with
  | none => simp [executed] at observed
  | some state =>
    rw [executed] at observed
    exact ⟨state, runGuarded_reaches executed, observed⟩

/-- What every step of a loop preserves holds after the loop. -/
theorem foldlM_invariant (Holds : State → Prop)
    (preserved : ∀ event ∈ events, ∀ middle last : State,
      Holds middle → step middle event = some last → Holds last)
    (initial : Holds start) (executed : events.foldlM step start = some final) :
    Holds final := by
  induction events generalizing start with
  | nil =>
    cases executed
    exact initial
  | cons event rest ih =>
    obtain ⟨next, stepped, executed⟩ := Option.bind_eq_some_iff.mp executed
    exact ih (fun later member => preserved later (List.mem_cons_of_mem _ member))
      (preserved event List.mem_cons_self _ _ initial stepped) executed

/-- If each step of a loop achieves something that no step undoes, the loop achieves all of it. -/
theorem foldlM_each (Holds : State → Prop) (Done : Event → State → Prop)
    (each : ∀ event ∈ events, ∀ middle last : State, Holds middle → step middle event = some last →
      Holds last ∧ Done event last ∧ ∀ other, Done other middle → Done other last)
    (initial : Holds start) (executed : events.foldlM step start = some final) :
    (∀ other, Done other start → Done other final) ∧ ∀ event ∈ events, Done event final := by
  induction events generalizing start with
  | nil =>
    cases executed
    exact ⟨fun _ done => done, (by simp)⟩
  | cons event rest ih =>
    obtain ⟨next, stepped, executed⟩ := Option.bind_eq_some_iff.mp executed
    obtain ⟨holds, done, kept⟩ := each event List.mem_cons_self _ _ initial stepped
    obtain ⟨keptLater, doneLater⟩ :=
      ih (fun later member => each later (List.mem_cons_of_mem _ member)) holds executed
    refine ⟨fun other before => keptLater other (kept other before), fun later member => ?_⟩
    rcases List.mem_cons.mp member with rfl | member
    · exact keptLater _ done
    · exact doneLater later member

end Runahead.Library
