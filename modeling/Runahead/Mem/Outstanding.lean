import Runahead.Mem.Caches

/-!
# Outstanding requests of flagged instructions

An instruction that is flagged as missed in the second-level cache has an outstanding
request: both caches flag only instructions with a target in one of their registers, and
a target leaves the registers before its response reaches the load/store queue, which
resets the flag with the last response.
-/

set_option autoImplicit false

namespace Runahead.Mem

open Library Function List Mshr
open Option (ite_none_right_eq_some bind_eq_some_iff map_eq_some_iff)

namespace Caches

variable {state next : Caches} {config : CacheConfig}

structure Inv (state : Caches) : Prop where
  wellFormed : ∀ slot, (state.l1 slot).WellFormed
  held : ∀ slot, ∀ target ∈ (state.l1 slot).waiting, state.stage target.req = .waiting slot
  distinct : ∀ slot, ((state.l1 slot).waiting.map (·.req)).Nodup
  /-- Of the requests in a register only the one in service has left the data cache. -/
  asked : ∀ slot, ∀ target ∈ (state.l1 slot).waiting, state.l2Stage target.req ≠ .notYet →
    (state.l1 slot).inService = true ∧ state.request slot = some target.req
  l2Held : ∀ slot, ∀ target ∈ (state.l2 slot).waiting, target.req.inst.isSome = true →
    state.l2Stage target.req = .waiting slot
  l2Distinct : ∀ slot, (((state.l2 slot).waiting.map (·.req)).filter (·.inst.isSome)).Nodup
  away : ∀ req slot, state.l2Stage req = .waiting slot → ∃ slot, state.stage req = .waiting slot
  unsent : ∀ req, state.stage req = .fresh ∨ state.stage req = .created →
    state.l2Stage req = .notYet
  /-- The instruction has recorded each of its requests that has not been answered. -/
  owned : ∀ req inst, req.inst = some inst → state.stage req ≠ .fresh → state.stage req ≠ .done →
    req ∈ state.outstandingReqs inst
  flagged : ∀ inst, state.missedInL2 inst = true → state.outstandingReqs inst ≠ []

theorem inv_initial : Inv {} where
  wellFormed _ := wellFormed_empty
  held := by rintro _ _ ⟨⟩
  distinct _ := .nil
  asked := by rintro _ _ ⟨⟩
  l2Held := by rintro _ _ ⟨⟩
  l2Distinct _ := .nil
  away := by rintro _ _ ⟨⟩
  unsent _ _ := rfl
  owned := fun _ _ _ fresh => absurd rfl fresh
  flagged := by rintro _ ⟨⟩

variable {slot inst l2Slot : Nat} {target : Target}

theorem Inv.outstanding_of_l1 (inv : Inv state)
    (member : target ∈ (state.l1 slot).waiting) (owner : target.req.inst = some inst) :
    target.req ∈ state.outstandingReqs inst := by
  have held := inv.held slot target member
  exact inv.owned target.req inst owner (by simp [held]) (by simp [held])

theorem Inv.outstanding_of_l2 (inv : Inv state)
    (member : target ∈ (state.l2 slot).waiting) (owner : target.req.inst = some inst) :
    target.req ∈ state.outstandingReqs inst := by
  obtain ⟨_, held⟩ := inv.away target.req slot (inv.l2Held slot target member (by simp [owner]))
  exact inv.owned target.req inst owner (by simp [held]) (by simp [held])

variable {req : Request}

/-- Whatever registers a request has been through, marking them flags only instructions with an
outstanding request. -/
theorem Inv.markMissed_flagged (inv : Inv state)
    (flagged : state.markMissed req inst = true) : state.outstandingReqs inst ≠ [] := by
  have marked (id : Level × Nat) {missed : Nat → Bool}
      (known : ∀ inst, missed inst = true → state.outstandingReqs inst ≠ []) (inst : Nat)
      (flagged : (state.mshr id).markTargetsMissedInL2 missed inst = true) :
      state.outstandingReqs inst ≠ [] := by
    rcases Bool.or_eq_true_iff.mp flagged with before | now
    · exact known inst before
    · obtain ⟨target, member, belongs⟩ := any_eq_true.mp now
      simp only [Target.belongsTo, Bool.and_eq_true, beq_iff_eq] at belongs
      have waits : target ∈ (state.mshr id).waiting :=
        mem_filter.mpr ⟨mem_append_left _ member, by simp [Target.waits, belongs.1]⟩
      obtain ⟨level, slot⟩ := id
      cases level with
      | l1 => exact ne_nil_of_mem (inv.outstanding_of_l1 waits belongs.2)
      | l2 => exact ne_nil_of_mem (inv.outstanding_of_l2 waits belongs.2)
  unfold markMissed at flagged
  split at flagged
  · have all (ids : List (Level × Nat)) {missed : Nat → Bool}
        (known : ∀ inst, missed inst = true → state.outstandingReqs inst ≠ []) (inst : Nat)
        (flagged : ids.foldl (fun missed id => (state.mshr id).markTargetsMissedInL2 missed)
          missed inst = true) : state.outstandingReqs inst ≠ [] := by
      induction ids generalizing missed with
      | nil => exact known inst flagged
      | cons id rest ih => exact ih (marked id known) flagged
    exact all _ inv.flagged inst flagged
  · exact inv.flagged inst flagged

theorem addReq_inv (inv : Inv state)
    (stepped : state.step config (.addReq req) = some next) : Inv next := by
  obtain ⟨inst, owner, stepped⟩ := bind_eq_some_iff.mp stepped
  obtain ⟨fresh, rfl⟩ := fired stepped
  have fresh : state.stage req = .fresh := eq_of_beq fresh
  have other {known : Request} (started : state.stage known ≠ .fresh) :
      update state.stage req .created known = state.stage known := by
    refine update_of_ne ?_ _ _
    rintro rfl
    exact started fresh
  refine
    { inv with
      held := fun slot target member => ?_
      away := fun known slot waits => ?_
      unsent := fun known stage => ?_
      owned := fun known owner' recorded started unanswered => ?_
      flagged := fun flagged missed => ?_ }
  · have held := inv.held slot target member
    exact (other (by simp [held])).trans held
  · obtain ⟨slot, held⟩ := inv.away known slot waits
    exact ⟨slot, (other (by simp [held])).trans held⟩
  · by_cases same : known = req
    · exact same ▸ inv.unsent req (.inl fresh)
    · simp only [update_of_ne same] at stage
      exact inv.unsent known stage
  · by_cases same : known = req
    · subst same
      cases owner.symm.trans recorded
      simp
    · simp only [update_of_ne same] at started unanswered
      have known := inv.owned known owner' recorded started unanswered
      by_cases mine : owner' = inst
      · subst mine
        simp only [update_self]
        exact mem_append_left _ known
      · simp only [update_of_ne mine]
        exact known
  · by_cases mine : flagged = inst
    · subst mine
      simp
    · simp only [update_of_ne mine]
      exact inv.flagged flagged missed

theorem hit_inv (inv : Inv state)
    (stepped : state.step config (.hit req) = some next) : Inv next := by
  obtain ⟨guards, rfl⟩ := fired stepped
  obtain ⟨created, _⟩ := Bool.and_eq_true_iff.mp guards
  have created : state.stage req = .created := eq_of_beq created
  have other {known : Request} {slot : Nat} (held : state.stage known = .waiting slot) :
      update state.stage req .returning known = .waiting slot := by
    rw [update_of_ne, held]
    rintro rfl
    cases created.symm.trans held
  refine
    { inv with
      held := fun slot target member => other (inv.held slot target member)
      away := fun known slot waits => ?_
      unsent := fun known stage => ?_
      owned := fun known inst recorded started unanswered => ?_ }
  · exact (inv.away known slot waits).imp fun _ held => other held
  · by_cases same : known = req
    · exact same ▸ inv.unsent req (.inr created)
    · simp only [update_of_ne same] at stage
      exact inv.unsent known stage
  · by_cases same : known = req
    · subst same
      exact inv.owned known inst recorded (by simp [created]) (by simp [created])
    · simp only [update_of_ne same] at started unanswered
      exact inv.owned known inst recorded started unanswered

/-- A request that may miss has not been put into a register yet. -/
theorem mayMiss_spec (allowed : state.mayMiss config target = true) :
    target.waits = true ∧ (state.stage target.req = .fresh ∨ state.stage target.req = .created) ∧
      (target.req.inst.isSome = true → state.stage target.req = .created) := by
  unfold mayMiss at allowed
  split at allowed
  · next inst owner =>
    simp only [Bool.and_eq_true, beq_iff_eq] at allowed
    exact ⟨by simp [Target.waits, allowed.1], .inr allowed.2, fun _ => allowed.2⟩
  · next owner =>
    simp only [Bool.and_eq_true, beq_iff_eq] at allowed
    exact ⟨allowed.1.1.1, .inl allowed.1.2, by simp [owner]⟩

theorem miss_inv (inv : Inv state)
    (stepped : state.step config (.miss target slot) = some next) : Inv next := by
  obtain ⟨allowed, stepped⟩ := ite_none_right_eq_some.mp stepped
  obtain ⟨result, handled, rfl⟩ := map_eq_some_iff.mp stepped
  obtain ⟨waits, early, created⟩ := mayMiss_spec allowed
  have adds := handleTimingReqMiss_adds waits handled
  have notYet := inv.unsent target.req early
  have notHeld {slot : Nat} : state.stage target.req ≠ .waiting slot := by
    rcases early with fresh | created
    · simp [fresh]
    · simp [created]
  have other {known : Request} {slot : Nat} (held : state.stage known = .waiting slot) :
      update state.stage target.req (.waiting result.slot) known = .waiting slot := by
    rw [update_of_ne, held]
    rintro rfl
    exact notHeld held
  refine
    { inv with
      wellFormed := fun slot => ?_
      held := fun slot known member => ?_
      distinct := fun slot => ?_
      asked := fun slot known member left => ?_
      away := fun known slot waits => (inv.away known slot waits).imp fun _ held => other held
      unsent := fun known stage => ?_
      owned := fun known inst recorded started unanswered => ?_
      flagged := fun inst flagged => ?_ }
  · by_cases here : slot = result.slot
    · subst here
      simp only [update_self]
      exact adds.wellFormed inv.wellFormed
    · simp only [update_of_ne here]
      exact inv.wellFormed slot
  · by_cases here : slot = result.slot
    · subst here
      simp only [update_self] at member
      rcases adds.mem member with rfl | ⟨before, _⟩
      · exact update_self ..
      · exact other (inv.held _ known before)
    · simp only [update_of_ne here] at member
      exact other (inv.held slot known member)
  · by_cases here : slot = result.slot
    · subst here
      simp only [update_self]
      rcases adds.waiting with ⟨joined, _⟩ | ⟨alone, _⟩
      · rw [joined, map_append]
        refine nodup_append.mpr ⟨inv.distinct _, by simp, ?_⟩
        intro req before new added same
        obtain ⟨known, member, rfl⟩ := mem_map.mp before
        cases mem_singleton.mp added
        exact notHeld (same ▸ inv.held _ known member)
      · simp [alone]
    · simp only [update_of_ne here]
      exact inv.distinct slot
  · by_cases here : slot = result.slot
    · subst here
      simp only [update_self] at member
      rcases adds.mem member with rfl | ⟨before, inService, head⟩
      · exact absurd notYet left
      · have asked := inv.asked _ known before left
        simp only [request, update_self, inService, head]
        exact asked
    · simp only [update_of_ne here] at member
      simp only [request, update_of_ne here]
      exact inv.asked slot known member left
  · by_cases same : known = target.req
    · simp only [same, update_self] at stage
      rcases stage with stage | stage <;> cases stage
    · simp only [update_of_ne same] at stage
      exact inv.unsent known stage
  · by_cases same : known = target.req
    · subst same
      have created := created (by simp [recorded])
      exact inv.owned _ inst recorded (by simp [created]) (by simp [created])
    · simp only [update_of_ne same] at started unanswered
      exact inv.owned known inst recorded started unanswered
  · rcases handleTimingReqMiss_flags handled flagged with before | mine
    · exact inv.flagged inst before
    · have created := created (by simp [mine])
      exact ne_nil_of_mem (inv.owned target.req inst mine (by simp [created]) (by simp [created]))

variable {mshr : Mshr}

/-- A register that keeps its waiting targets changes nothing about those of the others. -/
theorem update_keeps (keeps : Mshr.Keeps (state.l1 slot) mshr)
    (other : Nat) : Mshr.Keeps (state.l1 other) (update state.l1 slot mshr other) := by
  by_cases here : other = slot
  · subst here
    rw [update_self]
    exact keeps
  · rw [update_of_ne here]
    exact ⟨rfl, rfl, rfl, fun inService => ⟨inService, rfl⟩⟩

section

variable (inv : Inv state)
include inv

theorem Inv.updateL1 (wellFormed : mshr.WellFormed) (keeps : Mshr.Keeps (state.l1 slot) mshr) :
    Inv { state with l1 := update state.l1 slot mshr } := by
  have keeps := update_keeps keeps
  refine
    { inv with
      wellFormed := (forall_update_iff _ fun _ => Mshr.WellFormed).mpr
        ⟨wellFormed, fun other _ => inv.wellFormed other⟩
      held := fun other target member => inv.held other target ((keeps other).waiting ▸ member)
      distinct := fun other => ?_
      asked := fun other target member left => ?_ }
  · rw [(keeps other).waiting]
    exact inv.distinct other
  · obtain ⟨inService, first⟩ := inv.asked other target ((keeps other).waiting ▸ member) left
    obtain ⟨still, head⟩ := (keeps other).busy inService
    simp only [request, head]
    exact ⟨still, first⟩

theorem Inv.updateL2
    (fewer : (mshr.waiting.filter (·.req.inst.isSome)).Sublist
      ((state.l2 slot).waiting.filter (·.req.inst.isSome))) :
    Inv { state with l2 := update state.l2 slot mshr } := by
  have requests (mshr : Mshr) : (mshr.waiting.map (·.req)).filter (·.inst.isSome) =
      (mshr.waiting.filter (·.req.inst.isSome)).map (·.req) := filter_map
  refine
    { inv with
      l2Held := fun other target member owner => ?_
      l2Distinct := fun other => ?_ }
  · by_cases here : other = slot
    · subst here
      simp only [update_self] at member
      have member := fewer.subset (mem_filter.mpr ⟨member, owner⟩)
      exact inv.l2Held other target (mem_filter.mp member).1 owner
    · simp only [update_of_ne here] at member
      exact inv.l2Held other target member owner
  · by_cases here : other = slot
    · subst here
      have distinct := inv.l2Distinct other
      simp only [update_self]
      rw [requests] at distinct ⊢
      exact distinct.sublist (fewer.map _)
    · simp only [update_of_ne here]
      exact inv.l2Distinct other

theorem send_inv {pendingModifiedResp isForward : Bool}
    (stepped : state.step config (.send slot pendingModifiedResp isForward) = some next) :
    Inv next := by
  obtain ⟨guards, rfl⟩ := fired stepped
  simp only [Bool.and_eq_true, isAllocated, Bool.not_eq_true', isEmpty_eq_false_iff] at guards
  refine inv.updateL1 ?_ (markInService_keeps guards.2)
  exact { inv.wellFormed slot with busy := fun _ => guards.1 }

theorem snoop_inv {packet : SnoopPacket}
    (stepped : state.step config (.snoop slot packet) = some next) : Inv next := by
  cases stepped
  have wellFormed := inv.wellFormed slot
  exact inv.updateL1 (wellFormed.handleSnoop packet) (handleSnoop_keeps wellFormed packet)

theorem l2Other_inv
    (stepped : state.step config (.l2Other target l2Slot) = some next) : Inv next := by
  obtain ⟨foreign, stepped⟩ := ite_none_right_eq_some.mp stepped
  obtain ⟨result, handled, rfl⟩ := map_eq_some_iff.mp stepped
  have foreign : target.req.inst = none := by simpa using foreign
  unfold handleTimingReqMiss at handled
  split at handled
  · simp only [foreign] at handled
    cases handled
    refine inv.updateL2 ?_
    rw [waiting_allocateTarget, filter_append]
    split <;> simp [foreign]
  · obtain ⟨_, rfl⟩ := fired handled
    refine inv.updateL2 ?_
    have none : ((state.l2 l2Slot).allocate target.req.block target).waiting.filter
        (·.req.inst.isSome) = [] := by
      simp only [allocate, waiting, append_nil, filter_cons, filter_nil]
      split <;> simp [foreign]
    exact none ▸ nil_sublist _

theorem l2Send_inv {pendingModifiedResp isForward : Bool}
    (stepped : state.step config (.l2Send l2Slot pendingModifiedResp isForward) = some next) :
    Inv next := by
  obtain ⟨_, rfl⟩ := fired stepped
  exact inv.updateL2 (.refl _)

theorem l2Drop_inv
    (stepped : state.step config (.l2Drop l2Slot) = some next) : Inv next := by
  obtain ⟨_, rfl⟩ := fired stepped
  exact inv.updateL2 ((waiting_forceDeallocateTarget _).filter _)

theorem l2Snoop_inv {packet : SnoopPacket}
    (stepped : state.step config (.l2Snoop l2Slot packet) = some next) : Inv next := by
  cases stepped
  refine inv.updateL2 ?_
  rw [waiting_handleSnoop]

end

theorem request_mem (wellFormed : (state.l1 slot).WellFormed)
    (first : state.request slot = some req) :
    ∃ target ∈ (state.l1 slot).waiting, target.req = req ∧
      (state.l1 slot).targets.head? = some target ∧ target.waits = true := by
  obtain ⟨target, head, rfl⟩ := map_eq_some_iff.mp first
  have waits := wellFormed.first target head
  refine ⟨target, mem_filter.mpr ⟨?_, waits⟩, rfl, head, waits⟩
  exact mem_append_left _ (mem_of_head? head)

section

variable (inv : Inv state)
include inv

theorem Inv.leave {stage : L2Stage}
    (inService : (state.l1 slot).inService = true) (first : state.request slot = some req)
    (notYet : state.l2Stage req = .notYet) :
    (∀ other, ∀ target ∈ (state.l1 other).waiting,
      update state.l2Stage req stage target.req ≠ .notYet →
        (state.l1 other).inService = true ∧ state.request other = some target.req) ∧
    (∀ known slot, update state.l2Stage req stage known = .waiting slot →
      ∃ slot, state.stage known = .waiting slot) ∧
    (∀ known, state.stage known = .fresh ∨ state.stage known = .created →
      update state.l2Stage req stage known = .notYet) ∧
    ∀ other, ∀ target ∈ (state.l2 other).waiting, target.req.inst.isSome = true →
      update state.l2Stage req stage target.req = .waiting other := by
  obtain ⟨sender, member, rfl, _, _⟩ := request_mem (inv.wellFormed slot) first
  have held := inv.held slot sender member
  refine ⟨fun other target present left => ?_, fun known other waits => ?_, fun known early => ?_,
    fun other target present owner => ?_⟩
  · by_cases same : target.req = sender.req
    · have elsewhere := inv.held other target present
      rw [same, held] at elsewhere
      cases elsewhere
      exact ⟨inService, same ▸ first⟩
    · rw [update_of_ne same] at left
      exact inv.asked other target present left
  · by_cases same : known = sender.req
    · exact ⟨slot, same ▸ held⟩
    · rw [update_of_ne same] at waits
      exact inv.away known other waits
  · have differs : known ≠ sender.req := by
      rintro rfl
      rcases early with early | early <;> cases early.symm.trans held
    rw [update_of_ne differs]
    exact inv.unsent known early
  · have waits := inv.l2Held other target present owner
    have differs : target.req ≠ sender.req := by
      intro same
      cases (same ▸ notYet).symm.trans waits
    rw [update_of_ne differs]
    exact waits

theorem l2Hit_inv
    (stepped : state.step config (.l2Hit slot) = some next) : Inv next := by
  obtain ⟨req, first, stepped⟩ := bind_eq_some_iff.mp stepped
  obtain ⟨guards, rfl⟩ := fired stepped
  obtain ⟨inService, notYet⟩ := Bool.and_eq_true_iff.mp guards
  obtain ⟨asked, away, unsent, l2Held⟩ := inv.leave inService first (eq_of_beq notYet)
  exact { inv with asked, away, unsent, l2Held }

theorem l2Miss_inv {needsWritable : Bool}
    (stepped : state.step config (.l2Miss slot needsWritable l2Slot) = some next) : Inv next := by
  obtain ⟨req, first, stepped⟩ := bind_eq_some_iff.mp stepped
  obtain ⟨guards, stepped⟩ := ite_none_right_eq_some.mp stepped
  obtain ⟨result, handled, rfl⟩ := map_eq_some_iff.mp stepped
  obtain ⟨inService, notYet⟩ := Bool.and_eq_true_iff.mp guards
  have notYet : state.l2Stage req = .notYet := eq_of_beq notYet
  obtain ⟨asked, away, unsent, l2Held⟩ := inv.leave inService first notYet
  have adds := handleTimingReqMiss_adds rfl handled
  refine
    { inv with
      asked
      away
      unsent
      l2Held := fun other known member owner => ?_
      l2Distinct := fun other => ?_
      flagged := fun inst flagged => ?_ }
  · by_cases here : other = result.slot
    · subst here
      simp only [update_self] at member
      rcases adds.mem member with rfl | ⟨before, _⟩
      · exact update_self ..
      · exact l2Held _ known before owner
    · simp only [update_of_ne here] at member
      exact l2Held other known member owner
  · by_cases here : other = result.slot
    · subst here
      simp only [update_self]
      rcases adds.waiting with ⟨joined, _⟩ | ⟨alone, _⟩
      · rw [joined, map_append, filter_append]
        refine nodup_append.mpr ⟨inv.l2Distinct _, ?_, ?_⟩
        · exact List.Pairwise.filter _ (pairwise_singleton _ _)
        · intro before held new added same
          subst same
          obtain ⟨held, owner⟩ := mem_filter.mp held
          obtain ⟨known, member, rfl⟩ := mem_map.mp held
          have same : known.req = req := mem_singleton.mp (mem_filter.mp added).1
          have waits := inv.l2Held _ known member owner
          rw [same, notYet] at waits
          cases waits
      · rw [alone]
        exact List.Pairwise.filter _ (pairwise_singleton _ _)
    · simp only [update_of_ne here]
      exact inv.l2Distinct other
  · rcases handleTimingReqMiss_flags handled flagged with before | mine
    · exact inv.markMissed_flagged before
    · obtain ⟨target, member, rfl, _, _⟩ := request_mem (inv.wellFormed slot) first
      exact ne_nil_of_mem (inv.outstanding_of_l1 member mine)

theorem l2Response_inv {response : Response}
    (stepped : state.step config (.l2Response l2Slot response) = some next) : Inv next := by
  obtain ⟨_, rfl⟩ := fired stepped
  -- Only requests that were waiting in the register change.
  have unchanged {known : Request} {stage : L2Stage} (same : state.l2Stage known = stage)
      (differs : stage ≠ .waiting l2Slot) :
      (if state.l2Stage known = .waiting l2Slot ∧ known ∈ (state.l2 l2Slot).served response then
        L2Stage.answered else state.l2Stage known) = stage := by
    rw [if_neg, same]
    exact fun both => differs (same.symm.trans both.1)
  have split := (served_perm (state.l2 l2Slot) response).filter (·.inst.isSome)
  have distinct := split.nodup_iff.mpr (inv.l2Distinct l2Slot)
  rw [filter_append] at distinct
  obtain ⟨_, left, disjoint⟩ := nodup_append.mp distinct
  refine
    { inv with
      asked := fun slot target member left => ?_
      l2Held := fun other target member owner => ?_
      l2Distinct := fun other => ?_
      away := fun known other waits => ?_
      unsent := fun known early => ?_ }
  · refine inv.asked slot target member fun notYet => ?_
    exact left (unchanged notYet (by simp))
  · by_cases here : other = l2Slot
    · subst here
      simp only [update_self] at member
      have waits := inv.l2Held other target (mem_waiting_of_mem_recvTimingResp member) owner
      refine (if_neg fun both => ?_).trans waits
      exact disjoint _ (mem_filter.mpr ⟨both.2, owner⟩) _
        (mem_filter.mpr ⟨mem_map_of_mem member, owner⟩) rfl
    · simp only [update_of_ne here] at member
      exact unchanged (inv.l2Held other target member owner) (by simp [here])
  · by_cases here : other = l2Slot
    · subst here
      simp only [update_self]
      exact left
    · simp only [update_of_ne here]
      exact inv.l2Distinct other
  · simp only at waits
    split at waits
    · cases waits
    · exact inv.away known other waits
  · exact unchanged (inv.unsent known early) (by simp)

theorem response_inv {response : Response}
    (stepped : state.step config (.response slot response) = some next) : Inv next := by
  obtain ⟨req, first, stepped⟩ := bind_eq_some_iff.mp stepped
  obtain ⟨guards, rfl⟩ := fired stepped
  obtain ⟨_, answered⟩ := Bool.and_eq_true_iff.mp guards
  have answered : state.l2Stage req = .answered := eq_of_beq answered
  obtain ⟨sender, _, rfl, head, waits⟩ := request_mem (inv.wellFormed slot) first
  have heldHere {known : Request} (member : known ∈ (state.l1 slot).served response) :
      state.stage known = .waiting slot := by
    obtain ⟨target, present, rfl⟩ := mem_waiting_of_mem_served member
    exact inv.held slot target present
  have unchanged {known : Request} (stays : known ∉ (state.l1 slot).served response) :
      (if known ∈ (state.l1 slot).served response then
        if known.inst.isSome then Stage.returning else .done
      else state.stage known) = state.stage known := if_neg stays
  refine
    { inv with
      wellFormed := fun other => ?_
      held := fun other target member => ?_
      distinct := fun other => ?_
      asked := fun other target member left => ?_
      away := fun known l2Slot waits => ?_
      unsent := fun known early => ?_
      owned := fun known inst recorded started unanswered => ?_ }
  · by_cases here : other = slot
    · subst here
      simp only [update_self]
      exact (inv.wellFormed other).recvTimingResp response
    · simp only [update_of_ne here]
      exact inv.wellFormed other
  · by_cases here : other = slot
    · subst here
      simp only [update_self] at member
      have held := inv.held other target (mem_waiting_of_mem_recvTimingResp member)
      exact (unchanged (notMem_served_of_mem (inv.distinct other) member)).trans held
    · simp only [update_of_ne here] at member
      have held := inv.held other target member
      refine (unchanged fun served => here ?_).trans held
      exact Stage.waiting.inj (held.symm.trans (heldHere served))
  · by_cases here : other = slot
    · subst here
      simp only [update_self]
      have distinct := (served_perm (state.l1 other) response).nodup_iff.mpr (inv.distinct other)
      exact (nodup_append.mp distinct).2.1
    · simp only [update_of_ne here]
      exact inv.distinct other
  · by_cases here : other = slot
    · subst here
      simp only [update_self] at member
      -- The request that has left the data cache is the one that has just been served.
      have asked := inv.asked other target (mem_waiting_of_mem_recvTimingResp member) left
      have same : sender.req = target.req := Option.some.inj (first.symm.trans asked.2)
      have served : sender.req ∈ (state.l1 other).served response :=
        mem_served_of_head head waits
      rw [same] at served
      exact absurd served (notMem_served_of_mem (inv.distinct other) member)
    · simp only [update_of_ne here] at member
      simp only [request, update_of_ne here]
      exact inv.asked other target member left
  · have waits : state.l2Stage known = .waiting l2Slot := waits
    obtain ⟨other, held⟩ := inv.away known l2Slot waits
    refine ⟨other, (unchanged fun served => ?_).trans held⟩
    obtain ⟨target, present, rfl⟩ := mem_waiting_of_mem_served served
    have asked := inv.asked slot target present (by simp [waits])
    have same : sender.req = target.req := Option.some.inj (first.symm.trans asked.2)
    rw [← same, answered] at waits
    cases waits
  · by_cases served : known ∈ (state.l1 slot).served response
    · simp only [served, if_true] at early
      rcases early with early | early <;> split at early <;> cases early
    · simp only [served, if_false] at early
      exact inv.unsent known early
  · by_cases served : known ∈ (state.l1 slot).served response
    · have held := heldHere served
      exact inv.owned known inst recorded (by simp [held]) (by simp [held])
    · simp only [served, if_false] at started unanswered
      exact inv.owned known inst recorded started unanswered

theorem recvTimingResp_inv
    (stepped : state.step config (.recvTimingResp req) = some next) : Inv next := by
  obtain ⟨inst, owner, stepped⟩ := bind_eq_some_iff.mp stepped
  obtain ⟨returning, rfl⟩ := fired stepped
  have returning : state.stage req = .returning := eq_of_beq returning
  have other {known : Request} {slot : Nat} (held : state.stage known = .waiting slot) :
      update state.stage req .done known = .waiting slot := by
    rw [update_of_ne, held]
    rintro rfl
    cases returning.symm.trans held
  refine
    { inv with
      held := fun slot target member => other (inv.held slot target member)
      away := fun known slot waits => (inv.away known slot waits).imp fun _ held => other held
      unsent := fun known early => ?_
      owned := fun known owner' recorded started unanswered => ?_
      flagged := fun flagged missed => ?_ }
  · by_cases same : known = req
    · simp only [completeReq, same, update_self] at early
      rcases early with early | early <;> cases early
    · simp only [completeReq, update_of_ne same] at early
      exact inv.unsent known early
  · by_cases same : known = req
    · simp only [completeReq, same, update_self] at unanswered
      exact absurd rfl unanswered
    · simp only [completeReq, update_of_ne same] at started unanswered
      have known := inv.owned known owner' recorded started unanswered
      by_cases mine : owner' = inst
      · subst mine
        simp only [completeReq, update_self]
        exact mem_reqCompleted_of_ne same known
      · simp only [completeReq, update_of_ne mine]
        exact known
  · simp only [completeReq] at missed ⊢
    by_cases mine : flagged = inst
    · subst mine
      split at missed
      · rw [update_self] at missed
        cases missed
      · next remaining => simpa using remaining
    · rw [update_of_ne mine]
      split at missed
      · rw [update_of_ne mine] at missed
        exact inv.flagged flagged missed
      · exact inv.flagged flagged missed

theorem step_inv {event : CacheEvent}
    (stepped : state.step config event = some next) : Inv next := by
  cases event with
  | addReq req => exact addReq_inv inv stepped
  | execute inst =>
    cases stepped
    exact { inv with }
  | squash inst =>
    cases stepped
    exact { inv with }
  | enterRunahead inst =>
    obtain ⟨_, stepped⟩ := ite_none_right_eq_some.mp stepped
    obtain ⟨_, stepped⟩ := Option.ite_none_left_eq_some.mp stepped
    cases stepped
    exact { inv with }
  | hit req => exact hit_inv inv stepped
  | miss target slot => exact miss_inv inv stepped
  | send slot pendingModifiedResp isForward => exact send_inv inv stepped
  | l2Hit slot => exact l2Hit_inv inv stepped
  | l2Miss slot needsWritable l2Slot => exact l2Miss_inv inv stepped
  | l2Other target l2Slot => exact l2Other_inv inv stepped
  | l2Send l2Slot pendingModifiedResp isForward => exact l2Send_inv inv stepped
  | l2Drop l2Slot => exact l2Drop_inv inv stepped
  | snoop slot packet => exact snoop_inv inv stepped
  | l2Snoop l2Slot packet => exact l2Snoop_inv inv stepped
  | l2Response l2Slot response => exact l2Response_inv inv stepped
  | response slot response => exact response_inv inv stepped
  | recvTimingResp req => exact recvTimingResp_inv inv stepped

end

/-- A flagged instruction has an outstanding request, so that it can become the trigger of
runahead mode. -/
theorem missed_outstanding (config : CacheConfig) (state : Caches) (inst : Nat)
    (reached : Reaches (step config) anyEvent {} state) (flagged : state.missedInL2 inst = true) :
    state.outstandingReqs inst ≠ [] ∧ (state.setTriggeredRunahead inst).isSome = true := by
  have inv : Inv state := reached.invariant inv_initial fun inv _ stepped => step_inv inv stepped
  have outstanding := inv.flagged inst flagged
  refine ⟨outstanding, ?_⟩
  rw [setTriggeredRunahead, if_neg (by simpa using outstanding)]
  rfl

def load (inst : Nat) : Request := ⟨10 * inst, some inst, 7, false, false, false⟩

/-- A load misses in both caches, a second one joins its register. -/
theorem missed_outstanding_joined :
    ∃ state, Reaches (step ⟨4, 4⟩) anyEvent {} state ∧
      (state.missedInL2 1 = true ∧ state.missedInL2 2 = true) ∧
      (state.setTriggeredRunahead 1).isSome = true ∧
      (state.setTriggeredRunahead 2).isSome = true := by
  obtain ⟨state, reached, observed⟩ := reaches_of_observed (step ⟨4, 4⟩) anyEvent {}
    [.addReq (load 1), .addReq (load 2),
      .miss ⟨load 1, .fromCPU, false⟩ 0, .send 0 false false, .l2Miss 0 false 0,
      .miss ⟨load 2, .fromCPU, false⟩ 1]
    (fun state => decide (state.missedInL2 1 = true ∧ state.missedInL2 2 = true))
    (by decide +kernel)
  have flagged := of_decide_eq_true observed
  exact ⟨state, reached, flagged, (missed_outstanding _ state 1 reached flagged.1).2,
    (missed_outstanding _ state 2 reached flagged.2).2⟩

end Caches

end Runahead.Mem
