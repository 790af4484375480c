import Runahead.O3.LsqRequest

/-!
# Requests are destroyed once

The four handlers that may destroy a request each look at a part of what is outstanding.
That suffices because the parts exclude each other: packets are sent after the translation,
and a forwarding write-back that finds packets under way is due in the tick in which it is
scheduled, before the queue entry can be cleared.
-/

set_option autoImplicit false

namespace Runahead.O3.Lsq.RequestRun

open Library List LSQRequest

variable {run final : RequestRun} {answering remaining : Nat}

/-- While `answering` packets are being answered and `remaining` fragments have still to be
sent to the translation. -/
structure Life (answering remaining : Nat) (run : RequestRun) : Prop where
  releases_length : run.releases.length ≤ 1
  owned_iff : run.owned = true ↔ run.releases = []
  untranslated_none : run.request.numTranslatedFragments + run.request.fault.count none =
    run.request.fault.length
  translated : run.request.translationStarted = true →
    run.request.numInTranslationFragments + run.request.numTranslatedFragments + remaining =
      run.request.fault.length
  unstarted : run.request.translationStarted = false →
    run.request.numInTranslationFragments = 0 ∧ run.request.numTranslatedFragments = 0 ∧
      run.request.state = .notIssued
  early : run.request.state = .notIssued ∨ run.request.state = .translation →
    run.request.numOutstandingPackets = 0 ∧ run.request.writebackScheduled = false
  late : run.request.state ≠ .translation → run.request.numInTranslationFragments = 0
  accessible_pos : run.request.isMemAccessRequired = true → 0 < run.request.accessible
  translating : 0 < run.request.numInTranslationFragments →
    run.executed = false ∧ run.canWB = false ∧ run.completed = false
  orphan_squashed : 0 < run.request.numInTranslationFragments → run.owned = false →
    run.squashed = true
  both_due : run.request.writebackPending = true → 0 < run.request.numOutstandingPackets →
    run.due = true ∧ run.request.senderState = some false
  due_owned : run.due = true → run.owned = true ∧ run.phase ≠ .signals ∧
    run.request.isLoad = true ∧ run.request.writebackPending = true
  load_executed : run.request.isLoad = true → run.executed = true →
    run.request.writebackPending = false
  load_done : run.request.isLoad = true → run.request.writebackDone = true →
    run.request.writebackScheduled = true
  load_flags : run.request.isLoad = true → run.canWB = false ∧ run.completed = false
  waiting_fresh : run.waiting = true →
    run.request.writebackScheduled = false ∧ run.request.sent = false
  store_waiting : run.request.isLoad = false → run.waiting = true →
    run.canWB = false ∧ run.executed = false ∧ run.completed = false
  store_packets : run.request.isLoad = false → 0 < run.request.numOutstandingPackets →
    run.canWB = true
  store_committed : run.request.isLoad = false → 0 < run.request.numOutstandingPackets →
    run.committed = true
  store_completed : run.request.isLoad = false → run.completed = true →
    run.request.numOutstandingPackets = answering
  store_scheduled : run.request.isLoad = false → run.request.writebackScheduled = true →
    run.completed = true
  store_owned : run.request.isLoad = false → run.canWB = true → run.completed = false →
    run.owned = true
  sender_some : 0 < run.request.numOutstandingPackets → run.request.senderState ≠ none
  counts : run.request.isSplit = true → run.request.senderState ≠ some false →
    run.request.numReceivedPackets + run.request.numOutstandingPackets ≤
      run.request.numPackets + answering
  single : run.request.isSplit = false → run.request.numOutstandingPackets ≤ 1 ∧
    (run.request.sent = false → run.request.numOutstandingPackets = 0)
  local_unsent : run.request.isLocalAccess = true → run.request.numOutstandingPackets = 0
  answering_le : answering ≤ run.request.numOutstandingPackets

/-- A request exists as long as it is owned or something is outstanding. -/
structure Inv (answering remaining : Nat) (run : RequestRun) : Prop
    extends Life answering remaining run where
  destroyed_eq : run.destroyed = if run.owned || run.request.isAnyOutstandingRequest then 0 else 1
  released_iff : run.destroyed = 0 → (run.request.isReleased = true ↔ run.owned = false)

abbrev Returns (answering remaining : Nat) (result : Option RequestRun) : Prop :=
  ∃ final, result = some final ∧ Inv answering remaining final

variable {request : LSQRequest}

theorem isAnyOutstandingRequest_eq_false :
    request.isAnyOutstandingRequest = false ↔ request.numInTranslationFragments = 0 ∧
      request.numOutstandingPackets = 0 ∧ request.writebackPending = false := by
  unfold isAnyOutstandingRequest
  simp only [Bool.or_eq_false_iff, decide_eq_false_iff_not, Nat.not_lt, Nat.le_zero]
  exact and_assoc

theorem outstanding_of_translation (translating : 0 < request.numInTranslationFragments) :
    request.isAnyOutstandingRequest = true := by
  simp [isAnyOutstandingRequest, translating]

theorem outstanding_of_packets
    (packets : 0 < request.numOutstandingPackets) : request.isAnyOutstandingRequest = true := by
  simp [isAnyOutstandingRequest, packets]

theorem outstanding_of_writeback
    (pending : request.writebackPending = true) : request.isAnyOutstandingRequest = true := by
  simp [isAnyOutstandingRequest, pending]

theorem Inv.alive_of_owned (inv : Inv answering remaining run) (owned : run.owned = true) :
    run.destroyed = 0 := by
  have counted := inv.destroyed_eq
  rw [owned] at counted
  exact counted

theorem Inv.alive_of_outstanding (inv : Inv answering remaining run)
    (outstanding : run.request.isAnyOutstandingRequest = true) : run.destroyed = 0 := by
  have counted := inv.destroyed_eq
  rw [outstanding, Bool.or_true] at counted
  exact counted

theorem Inv.unreleased_of_owned (inv : Inv answering remaining run)
    (owned : run.owned = true) : run.request.isReleased = false := by
  refine Bool.eq_false_iff.mpr fun released => ?_
  have orphaned := (inv.released_iff (inv.alive_of_owned owned)).mp released
  exact clash orphaned owned

theorem Life.inv_of_owned (life : Life answering remaining run) (alive : run.destroyed = 0)
    (unreleased : run.request.isReleased = false) (owned : run.owned = true) :
    Inv answering remaining run where
  toLife := life
  destroyed_eq := by
    rw [owned]
    exact alive
  released_iff := fun _ => by
    rw [owned, unreleased]
    exact iff_of_false Bool.false_ne_true Bool.false_ne_true.symm

theorem Life.inv_of_outstanding (life : Life answering remaining run) (alive : run.destroyed = 0)
    (released_iff : run.request.isReleased = true ↔ run.owned = false)
    (outstanding : run.request.isAnyOutstandingRequest = true) :
    Inv answering remaining run where
  toLife := life
  destroyed_eq := by
    rw [outstanding, Bool.or_true]
    exact alive
  released_iff := fun _ => released_iff

theorem Life.settle (life : Life answering remaining run) (alive : run.destroyed = 0)
    (released_iff : run.request.isReleased = true ↔ run.owned = false)
    (quiet : run.owned = false → run.request.isAnyOutstandingRequest = false) :
    ∃ destroyed, (if run.request.isReleased then run.destroy else some run) =
        some { run with destroyed := destroyed } ∧
      Inv answering remaining { run with destroyed := destroyed } := by
  cases released : run.request.isReleased with
  | true =>
    have orphaned := released_iff.mp released
    have idle := quiet orphaned
    refine ⟨1, ?_, ?_⟩
    · rw [if_pos rfl, destroy, idle, alive]
      rfl
    · refine { life with destroyed_eq := ?_, released_iff := fun zero => ?_ }
      · change 1 = if run.owned || run.request.isAnyOutstandingRequest then 0 else 1
        rw [orphaned, idle]
        rfl
      · exact absurd zero Nat.one_ne_zero
  | false =>
    have owned : run.owned = true := by
      cases owned : run.owned with
      | true => rfl
      | false => exact clash released (released_iff.mpr owned)
    exact ⟨run.destroyed, rfl, life.inv_of_owned alive released owned⟩

/-! ## Release -/

theorem call_of_alive (body : RequestRun → Option RequestRun) (alive : run.destroyed = 0) :
    run.call body = body run := if_pos alive

variable (reason : ReleaseReason)

def orphan (request : LSQRequest) : LSQRequest :=
  { request with
    senderState := request.senderState.map fun _ => false
    lsqEntryFreed := request.lsqEntryFreed || reason == .lsqEntryFreed
    discarded := request.discarded || reason == .discarded }

theorem orphan_released (request : LSQRequest) :
    (orphan reason request).isReleased = true := by
  cases reason with
  | lsqEntryFreed => simp [orphan, isReleased]
  | discarded => simp [orphan, isReleased]

theorem release_of_outstanding (alive : run.destroyed = 0)
    (outstanding : run.request.isAnyOutstandingRequest = true) :
    run.release reason = some { run with
      releases := reason :: run.releases
      request := orphan reason run.request } := by
  unfold release
  rw [call_of_alive _ alive]
  cases reason with
  | lsqEntryFreed => simp [outstanding, orphan]
  | discarded => simp [outstanding, orphan]

theorem release_of_quiet (alive : run.destroyed = 0)
    (quiet : run.request.isAnyOutstandingRequest = false) :
    run.release reason =
      some { run with releases := reason :: run.releases, destroyed := 1 } := by
  unfold release
  rw [call_of_alive _ alive]
  simp [quiet, destroy, alive]

theorem Inv.release (inv : Inv answering remaining run) (reason : ReleaseReason)
    (owned : run.owned = true) (notDue : run.due = false)
    (squashed : 0 < run.request.numInTranslationFragments → run.squashed = true)
    (settled : run.request.isLoad = false → run.canWB = true → run.completed = true) :
    Returns answering remaining (({ run with owned := false }).release reason) := by
  have alive := inv.alive_of_owned owned
  have fresh : run.releases = [] := inv.owned_iff.mp owned
  have undue : ¬ run.due = true := Bool.eq_false_iff.mp notDue
  have life : Life answering remaining { run with
      owned := false, releases := reason :: run.releases } :=
    { inv.toLife with
      releases_length := by simp [fresh]
      owned_iff := by simp
      orphan_squashed := fun translating _ => squashed translating
      due_owned := fun due => absurd due undue
      store_owned := fun store canWB incomplete =>
        clash incomplete (settled store canWB) }
  cases outstanding : run.request.isAnyOutstandingRequest with
  | true =>
    refine ⟨_, release_of_outstanding reason alive outstanding, ?_⟩
    refine Life.inv_of_outstanding ?_ alive (iff_of_true (orphan_released reason _) rfl) outstanding
    exact { life with
      both_due := fun pending packets => absurd (inv.both_due pending packets).1 undue
      sender_some := fun packets missing =>
        inv.sender_some packets (Option.map_eq_none_iff.mp missing)
      counts := fun split live => inv.counts split fun dead =>
        live (congrArg (Option.map fun _ => false) dead) }
  | false =>
    refine ⟨_, release_of_quiet reason alive outstanding, ?_⟩
    exact { life with
      destroyed_eq := by
        rw [outstanding]
        rfl
      released_iff := fun zero => absurd zero Nat.one_ne_zero }

theorem Inv.clear (inv : Inv answering remaining run) (owned : run.owned = true)
    (notDue : run.due = false)
    (squashed : 0 < run.request.numInTranslationFragments → run.squashed = true)
    (settled : run.request.isLoad = false → run.canWB = true → run.completed = true) :
    Returns answering remaining run.clear := by
  unfold RequestRun.clear
  rw [if_pos owned]
  exact inv.release .lsqEntryFreed owned notDue squashed settled

/-! ## Replies -/

theorem Life.translated_of_packets (life : Life answering remaining run)
    (packets : 0 < run.request.numOutstandingPackets) :
    run.request.numInTranslationFragments = 0 := by
  refine life.late fun translating => ?_
  have unsent := (life.early (.inr translating)).1
  omega

theorem Inv.packetReplied (inv : Inv 1 remaining run) :
    Returns 0 remaining run.packetReplied := by
  have packets : 0 < run.request.numOutstandingPackets := inv.answering_le
  have alive := inv.alive_of_outstanding (outstanding_of_packets packets)
  have translated := inv.translated_of_packets packets
  have life : Life 0 remaining { run with
      request.numOutstandingPackets := run.request.numOutstandingPackets - 1 } :=
    { inv.toLife with
      early := fun early => by
        have unsent := (inv.early early).1
        omega
      both_due := fun pending more =>
        inv.both_due pending (Nat.lt_of_lt_of_le more (Nat.sub_le _ _))
      store_packets := fun store more =>
        inv.store_packets store (Nat.lt_of_lt_of_le more (Nat.sub_le _ _))
      store_committed := fun store more =>
        inv.store_committed store (Nat.lt_of_lt_of_le more (Nat.sub_le _ _))
      store_completed := fun store completed => by
        have last := inv.store_completed store completed
        change run.request.numOutstandingPackets - 1 = 0
        omega
      local_unsent := fun isLocal => by
        have none := inv.local_unsent isLocal
        omega
      sender_some := fun more => inv.sender_some (Nat.lt_of_lt_of_le more (Nat.sub_le _ _))
      counts := fun split live => by
        have counted := inv.counts split live
        change run.request.numReceivedPackets + (run.request.numOutstandingPackets - 1) ≤
          run.request.numPackets + 0
        omega
      single := fun single => by
        obtain ⟨few, unsent⟩ := inv.single single
        refine ⟨Nat.le_trans (Nat.sub_le _ _) few, fun notSent => ?_⟩
        have none := unsent notSent
        omega
      answering_le := Nat.zero_le _ }
  unfold RequestRun.packetReplied
  rw [call_of_alive _ alive]
  simp only [packets, if_true]
  by_cases last : run.request.numOutstandingPackets - 1 = 0
  · simp only [last, true_and]
    rw [last] at life
    obtain ⟨_, settled, inv⟩ := life.settle alive (inv.released_iff alive)
      fun orphaned => by
        refine isAnyOutstandingRequest_eq_false.mpr ⟨translated, rfl, ?_⟩
        refine Bool.eq_false_iff.mpr fun pending => ?_
        have owned := (inv.due_owned (inv.both_due pending packets).1).1
        exact clash orphaned owned
    exact ⟨_, settled, inv⟩
  · simp only [last, false_and, if_false]
    exact ⟨_, rfl, life.inv_of_outstanding alive (inv.released_iff alive)
      (outstanding_of_packets (Nat.pos_of_ne_zero last))⟩

theorem Life.not_due_of_store (life : Life answering remaining run)
    (store : run.request.isLoad = false) : run.due = false := by
  refine Bool.eq_false_iff.mpr fun due => ?_
  exact absurd (life.due_owned due).2.2.1 (Bool.eq_false_iff.mp store)

theorem Life.translated_of_canWB (life : Life answering remaining run)
    (canWB : run.canWB = true) : run.request.numInTranslationFragments = 0 := by
  refine Nat.eq_zero_of_not_pos fun translating => ?_
  exact clash (life.translating translating).2.1 canWB

theorem Inv.completeStore_of_completed (atHead : Bool)
    (inv : Inv answering remaining { run with completed := true })
    (store : run.request.isLoad = false) (owned : run.owned = true)
    (canWB : run.canWB = true) :
    Returns answering remaining (run.completeStore atHead) := by
  cases atHead with
  | false => exact ⟨_, rfl, inv⟩
  | true =>
    refine inv.clear owned (inv.not_due_of_store store) ?_ (fun _ _ => rfl)
    intro translating
    have translated := inv.translated_of_canWB canWB
    omega

theorem Inv.completeStore (inv : Inv answering remaining run) (atHead : Bool)
    (store : run.request.isLoad = false) (owned : run.owned = true) (canWB : run.canWB = true)
    (last : run.request.numOutstandingPackets = answering) :
    Returns answering remaining (run.completeStore atHead) := by
  have translated := inv.translated_of_canWB canWB
  have completed : Inv answering remaining { run with completed := true } :=
    { inv with
      translating := fun positive => absurd translated (Nat.ne_of_gt positive)
      load_flags := fun load => clash store load
      store_waiting := fun store waiting =>
        clash (inv.store_waiting store waiting).1 canWB
      store_completed := fun _ _ => last
      store_scheduled := fun _ _ => rfl
      store_owned := fun _ _ _ => owned }
  exact completed.completeStore_of_completed atHead store owned canWB

theorem Life.store_owned_of_packets (life : Life 0 remaining run)
    (store : run.request.isLoad = false) (packets : 0 < run.request.numOutstandingPackets) :
    run.owned = true := by
  refine life.store_owned store (life.store_packets store packets) ?_
  refine Bool.eq_false_iff.mpr fun completed => ?_
  have none := life.store_completed store completed
  omega

/-- `writebackDone` for a store that the memory has answered. -/
theorem Inv.writebackDone_of_owned (inv : Inv answering remaining run)
    (store : run.request.isLoad = false) (owned : run.owned = true)
    (idle : run.request.writebackPending = false) :
    run.writebackDone = some { run with request.writebackDone := true } ∧
      Inv answering remaining { run with request.writebackDone := true } := by
  have alive := inv.alive_of_owned owned
  have unreleased := inv.unreleased_of_owned owned
  have stays : ({ run.request with writebackDone := true } : LSQRequest).writebackPending =
      false := Bool.and_false _
  have busy : ({ run.request with writebackDone := true } : LSQRequest).isAnyOutstandingRequest =
      run.request.isAnyOutstandingRequest := by
    unfold isAnyOutstandingRequest
    rw [stays, idle]
  constructor
  · unfold writebackDone
    rw [call_of_alive _ alive]
    exact if_neg (Bool.eq_false_iff.mp unreleased)
  · exact { inv with
      destroyed_eq := by
        rw [busy]
        exact inv.destroyed_eq
      both_due := fun pending => clash stays pending
      due_owned := fun due =>
        absurd (inv.due_owned due).2.2.2 (Bool.eq_false_iff.mp idle)
      load_executed := fun _ _ => stays
      load_done := fun load => clash store load }

theorem Inv.completeDataAccess (inv : Inv 1 remaining run) (atHead : Bool)
    (live : run.request.senderState = some true)
    (storeOwned : run.request.isLoad = false → run.owned = true)
    (last : run.request.numOutstandingPackets = 1) :
    Returns 1 remaining (run.completeDataAccess atHead) := by
  have packets : 0 < run.request.numOutstandingPackets := inv.answering_le
  have translated := inv.translated_of_packets packets
  have idle : run.request.writebackPending = false := by
    refine Bool.eq_false_iff.mpr fun pending => ?_
    exact absurd ((inv.both_due pending packets).2.symm.trans live) (by decide)
  have executed : Inv 1 remaining { run with executed := true } :=
    { inv with
      translating := fun positive => absurd translated (Nat.ne_of_gt positive)
      load_executed := fun _ _ => idle
      store_waiting := fun store waiting =>
        clash (inv.store_waiting store waiting).1 (inv.store_packets store packets) }
  unfold RequestRun.completeDataAccess
  by_cases squashed : run.squashed = true
  · rw [if_pos squashed]
    exact ⟨run, rfl, inv⟩
  rw [if_neg squashed]
  by_cases load : run.request.isLoad = true
  · rw [if_pos load]
    exact ⟨_, rfl, executed⟩
  rw [if_neg load]
  have store := Bool.eq_false_iff.mpr load
  have owned := storeOwned store
  have canWB := inv.store_packets store packets
  by_cases writes : run.request.wbStore = true
  · rw [if_pos writes]
    obtain ⟨written, inv⟩ := executed.writebackDone_of_owned store owned idle
    rw [written]
    exact inv.completeStore atHead store owned canWB last
  · rw [if_neg writes]
    exact inv.completeStore atHead store owned canWB last

theorem Inv.recvTimingResp (inv : Inv 0 remaining run) (atHead : Bool)
    (packets : 0 < run.request.numOutstandingPackets)
    (live : run.request.senderState = some true) :
    Returns 1 remaining (run.recvTimingResp atHead) := by
  have alive := inv.alive_of_outstanding (outstanding_of_packets packets)
  have storeOwned : run.request.isLoad = false → run.owned = true :=
    fun store => inv.store_owned_of_packets store packets
  have answering : Inv 1 remaining { run with
      request.numReceivedPackets := run.request.numReceivedPackets + 1 } :=
    { inv with
      store_completed := fun store completed => by
        have none := inv.store_completed store completed
        omega
      counts := fun split live => by
        have counted := inv.counts split live
        change run.request.numReceivedPackets + 1 + run.request.numOutstandingPackets ≤
          run.request.numPackets + 1
        omega
      answering_le := packets }
  have opened : run.recvTimingResp atHead =
      if run.request.isSplit then
        if run.request.numReceivedPackets + 1 = run.request.numPackets then
          ({ run with request := { run.request with
            numReceivedPackets := run.request.numReceivedPackets + 1
            complete := true } }).completeDataAccess atHead
        else some { run with
          request.numReceivedPackets := run.request.numReceivedPackets + 1 }
      else if run.request.numOutstandingPackets = 1 then
        ({ run with request.complete := true }).completeDataAccess atHead
      else none := call_of_alive _ alive
  by_cases split : run.request.isSplit = true
  · rw [opened, if_pos split]
    have counted := inv.counts split (fun dead => absurd (live.symm.trans dead) (by decide))
    by_cases last : run.request.numReceivedPackets + 1 = run.request.numPackets
    · rw [if_pos last]
      have complete : Inv 1 remaining { run with request := { run.request with
          numReceivedPackets := run.request.numReceivedPackets + 1
          complete := true } } := { answering with }
      refine complete.completeDataAccess atHead live storeOwned ?_
      change run.request.numOutstandingPackets = 1
      omega
    · rw [if_neg last]
      exact ⟨_, rfl, answering⟩
  · have last : run.request.numOutstandingPackets = 1 :=
      Nat.le_antisymm (inv.single (Bool.eq_false_iff.mpr split)).1 packets
    rw [opened, if_neg split, if_pos last]
    have complete : Inv 1 remaining { run with request.complete := true } :=
      { answering with counts := fun whole => absurd whole split }
    exact complete.completeDataAccess atHead live storeOwned last

theorem Inv.reply (inv : Inv 0 remaining run) (atHead : Bool)
    (packets : 0 < run.request.numOutstandingPackets) :
    Returns 0 remaining (run.reply atHead) := by
  unfold RequestRun.reply
  cases sender : run.request.senderState with
  | none => exact absurd sender (inv.sender_some packets)
  | some live =>
    cases live with
    | true =>
      obtain ⟨received, accepted, answering⟩ := inv.recvTimingResp atHead packets sender
      obtain ⟨final, replied, inv⟩ := answering.packetReplied
      refine ⟨final, ?_, inv⟩
      rw [accepted]
      exact replied
    | false =>
      have answering : Inv 1 remaining run :=
        { inv with
          store_completed := fun store completed => by
            have none := inv.store_completed store completed
            omega
          counts := fun _ live => absurd sender live
          answering_le := packets }
      exact answering.packetReplied

/-! ## Write-backs -/

theorem Life.translated_of_writeback (life : Life answering remaining run)
    (pending : run.request.writebackPending = true) :
    run.request.numInTranslationFragments = 0 := by
  refine life.late fun translating => ?_
  have unscheduled := (life.early (.inr translating)).2
  have scheduled := (Bool.and_eq_true_iff.mp pending).1
  exact clash unscheduled scheduled

theorem Inv.processWriteback (inv : Inv 0 remaining run)
    (pending : run.request.writebackPending = true) :
    Returns 0 remaining run.processWriteback := by
  have alive := inv.alive_of_outstanding (outstanding_of_writeback pending)
  have translated := inv.translated_of_writeback pending
  have done : ({ run.request with writebackDone := true } : LSQRequest).writebackPending = false :=
    Bool.and_false _
  have scheduled := (Bool.and_eq_true_iff.mp pending).1
  have settles : ∀ executed : Bool, Returns 0 remaining
      (({ run with due := false, executed := executed }).writebackDone) := by
    intro executed
    have life : Life 0 remaining { run with
        due := false, executed := executed, request.writebackDone := true } :=
      { inv.toLife with
        translating := fun positive => absurd translated (Nat.ne_of_gt positive)
        both_due := fun pending => clash done pending
        due_owned := fun due => clash rfl due
        load_executed := fun _ _ => done
        load_done := fun _ _ => scheduled
        store_waiting := fun _ waiting =>
          clash (inv.waiting_fresh waiting).1 scheduled }
    obtain ⟨_, settled, inv⟩ := life.settle alive (inv.released_iff alive) fun orphaned => by
      -- A write-back that is due finds its request owned, so no packet is under way here.
      refine isAnyOutstandingRequest_eq_false.mpr ⟨translated, ?_, done⟩
      refine Nat.eq_zero_of_not_pos fun packets => ?_
      have owned := (inv.due_owned (inv.both_due pending packets).1).1
      exact clash orphaned owned
    exact ⟨_, (if_pos alive).trans settled, inv⟩
  by_cases squashed : run.squashed = true
  · obtain ⟨final, written, inv⟩ := settles run.executed
    exact ⟨final, (if_pos squashed).trans written, inv⟩
  · obtain ⟨final, written, inv⟩ := settles true
    exact ⟨final, (if_neg squashed).trans written, inv⟩

/-! ## Translation -/

variable {fragment : Nat}

theorem count_none_set {results : List (Option Bool)} (fault : Bool)
    (pending : results[fragment]? = some none) :
    (results.set fragment (some fault)).count none + 1 = results.count none := by
  obtain ⟨inside, same⟩ := List.getElem?_eq_some_iff.mp pending
  have positive : 0 < results.count none := count_pos_iff.mpr (same ▸ List.getElem_mem inside)
  rw [count_set inside, same]
  simp
  omega

theorem accessible_of_translatedState
    (required : ({ request with
      translationFinished := true
      state := translatedState request } : LSQRequest).isMemAccessRequired = true) :
    0 < request.accessible := by
  refine Nat.pos_of_ne_zero fun none => ?_
  have faulted : translatedState request = .fault := if_neg (by omega)
  simp [isMemAccessRequired, faulted] at required

theorem translatedState_late (request : LSQRequest) :
    ¬ (translatedState request = .notIssued ∨ translatedState request = .translation) := by
  unfold translatedState
  split
  · split <;> decide
  · decide

def withResult (fragment : Nat) (fault : Bool) (request : LSQRequest) : LSQRequest :=
  { request with
    fault := request.fault.set fragment (some fault)
    numInTranslationFragments := request.numInTranslationFragments - 1
    numTranslatedFragments := request.numTranslatedFragments + 1 }

theorem Life.of_result (life : Life 0 remaining run) (fault : Bool)
    (started : run.request.translationStarted = true)
    (translating : run.request.state = .translation)
    (pending : run.request.fault[fragment]? = some none)
    (sent : 0 < run.request.numInTranslationFragments) :
    Life 0 remaining { run with request := withResult fragment fault run.request } := by
  have counted := count_none_set fault pending
  have untranslated := life.untranslated_none
  have translated := life.translated started
  exact { life with
    untranslated_none := by
      change run.request.numTranslatedFragments + 1 + List.count none
        (run.request.fault.set fragment (some fault)) = (run.request.fault.set _ _).length
      rw [length_set]
      omega
    translated := fun _ => by
      change run.request.numInTranslationFragments - 1 +
        (run.request.numTranslatedFragments + 1) + remaining = (run.request.fault.set _ _).length
      rw [length_set]
      omega
    unstarted := fun unstarted => clash unstarted started
    late := fun ended => absurd translating ended
    accessible_pos := fun required => by
      change run.request.isMemAccessRequired = true at required
      simp [isMemAccessRequired, translating] at required
    translating := fun _ => life.translating sent
    orphan_squashed := fun _ => life.orphan_squashed sent }

theorem Inv.finish (inv : Inv 0 remaining run) (fault : Bool)
    (started : run.request.translationStarted = true)
    (pending : run.request.fault[fragment]? = some none)
    (whole : remaining = 0 ∨ run.owned = true)
    (sent : 0 < run.request.numInTranslationFragments) :
    ∃ request destroyed,
      run.finish fragment fault = some { run with request := request, destroyed := destroyed } ∧
      Inv 0 remaining { run with request := request, destroyed := destroyed } ∧
      request.fault = run.request.fault.set fragment (some fault) ∧
      request.translationStarted = true ∧
      (request.state = .translation ∨ remaining = 0) := by
  have alive := inv.alive_of_outstanding (outstanding_of_translation sent)
  have translating : run.request.state = .translation := by
    refine Decidable.byContradiction fun ended => ?_
    have none := inv.late ended
    omega
  obtain ⟨unsent, unscheduled⟩ := inv.early (.inr translating)
  have split := inv.translated started
  have life := inv.of_result fault started translating pending sent
  have length : (withResult fragment fault run.request).fault.length = run.request.fault.length :=
    length_set
  have opened : run.finish fragment fault =
      if run.request.numTranslatedFragments + 1 =
          (withResult fragment fault run.request).fault.length then
        if run.squashed then
          ({ run with request := withResult fragment fault run.request }).squashTranslation
        else some { run with request := { withResult fragment fault run.request with
          translationFinished := true
          state := translatedState (withResult fragment fault run.request) } }
      else some { run with request := withResult fragment fault run.request } :=
    call_of_alive _ alive
  rw [opened, length]
  by_cases all : run.request.numTranslatedFragments + 1 = run.request.fault.length
  · rw [if_pos all]
    have ended : run.request.numInTranslationFragments - 1 = 0 := by omega
    by_cases squashed : run.squashed = true
    · rw [if_pos squashed]
      have squashedLife : Life 0 remaining { run with
          request := { withResult fragment fault run.request with translationSquashed := true } } :=
        { life with }
      obtain ⟨_, settled, inv⟩ := squashedLife.settle alive (inv.released_iff alive)
        fun _ => isAnyOutstandingRequest_eq_false.mpr ⟨ended, unsent, by
          exact Bool.and_eq_false_imp.mpr fun scheduled =>
            clash unscheduled scheduled⟩
      exact ⟨_, _, (if_pos alive).trans ((if_pos ended).trans settled), inv, rfl, started,
        .inl translating⟩
    · rw [if_neg squashed]
      have owned : run.owned = true := by
        refine (Bool.not_eq_false _).mp fun orphaned => ?_
        exact squashed (inv.orphan_squashed sent orphaned)
      refine ⟨_, _, rfl, ?_, rfl, started, .inr (by omega)⟩
      refine Life.inv_of_owned ?_ alive (inv.unreleased_of_owned owned) owned
      exact { life with
        unstarted := fun unstarted => clash unstarted started
        early := fun early => absurd early (translatedState_late _)
        late := fun _ => ended
        accessible_pos := accessible_of_translatedState }
  · rw [if_neg all]
    refine ⟨_, _, rfl, ?_, rfl, started, .inl translating⟩
    rcases whole with whole | owned
    · have more : 0 < run.request.numInTranslationFragments - 1 := by
        have counted := count_none_set fault pending
        have untranslated := inv.untranslated_none
        omega
      exact life.inv_of_outstanding alive (inv.released_iff alive) (outstanding_of_translation more)
    · exact life.inv_of_owned alive (inv.unreleased_of_owned owned) owned

theorem Inv.sendFragmentToTranslation (inv : Inv 0 (remaining + 1) run)
    (result : Option Bool) (started : run.request.translationStarted = true)
    (translating : run.request.state = .translation) (owned : run.owned = true)
    (early : run.executed = false ∧ run.canWB = false ∧ run.completed = false)
    (pending : run.request.fault[fragment]? = some none) :
    ∃ request destroyed,
      run.sendFragmentToTranslation fragment result =
        some { run with request := request, destroyed := destroyed } ∧
      Inv 0 remaining { run with request := request, destroyed := destroyed } ∧
      (∀ later, fragment < later → request.fault[later]? = run.request.fault[later]?) ∧
      request.fault.length = run.request.fault.length ∧ request.translationStarted = true ∧
      (request.state = .translation ∨ remaining = 0) := by
  have alive := inv.alive_of_owned owned
  have split := inv.translated started
  have life : Life 0 remaining { run with
      request.numInTranslationFragments := run.request.numInTranslationFragments + 1 } :=
    { inv.toLife with
      translated := fun _ => by
        change run.request.numInTranslationFragments + 1 +
          run.request.numTranslatedFragments + remaining = run.request.fault.length
        omega
      unstarted := fun unstarted => clash unstarted started
      late := fun ended => absurd translating ended
      translating := fun _ => early
      orphan_squashed := fun _ orphaned => clash orphaned owned }
  have sent := life.inv_of_owned alive (inv.unreleased_of_owned owned) owned
  cases result with
  | none => exact ⟨_, _, rfl, sent, fun _ _ => rfl, rfl, started, .inl translating⟩
  | some fault =>
    obtain ⟨request, destroyed, finished, inv, faults, started, state⟩ :=
      sent.finish fault started pending (.inr owned) (Nat.succ_pos _)
    refine ⟨request, destroyed, finished, inv, ?_, ?_, started, state⟩
    · intro later after
      rw [faults]
      exact List.getElem?_set_ne (Nat.ne_of_lt after)
    · rw [faults]
      exact length_set

theorem Inv.sendFragments (results : List (Option Bool))
    (inv : Inv 0 results.length run) (started : run.request.translationStarted = true)
    (translating : run.request.state = .translation ∨ results.length = 0)
    (owned : run.owned = true)
    (early : run.executed = false ∧ run.canWB = false ∧ run.completed = false)
    (pending : ∀ later, fragment ≤ later → later < run.request.fault.length →
      run.request.fault[later]? = some none)
    (all : fragment + results.length = run.request.fault.length) :
    Returns 0 0 (run.sendFragments fragment results) := by
  induction results generalizing run fragment with
  | nil => exact ⟨run, rfl, inv⟩
  | cons result results ih =>
    rw [length_cons] at all
    have inside : fragment < run.request.fault.length := by omega
    have translating : run.request.state = .translation := by
      rcases translating with translating | ended
      · exact translating
      · exact absurd ended (Nat.succ_ne_zero _)
    obtain ⟨request, destroyed, sent, inv, kept, length, started, state⟩ :=
      inv.sendFragmentToTranslation result started translating owned early
        (pending fragment (Nat.le_refl _) inside)
    obtain ⟨final, rest, inv⟩ := ih inv started state owned early
      (fun later after below => by
        rw [kept later after]
        exact pending later (Nat.le_of_lt after) (length ▸ below))
      (by
        change fragment + 1 + results.length = request.fault.length
        omega)
    refine ⟨final, ?_, inv⟩
    rw [RequestRun.sendFragments, sent]
    exact rest

theorem idle_of_unscheduled
    (unscheduled : request.writebackScheduled = false) : request.writebackPending = false := by
  rw [writebackPending, unscheduled]
  rfl

theorem Inv.execute (inv : Inv answering remaining run)
    (translated : run.request.numInTranslationFragments = 0)
    (unscheduled : run.request.writebackScheduled = false) :
    Inv answering remaining { run with waiting := false, executed := true } :=
  { inv with
    translating := fun positive => absurd translated (Nat.ne_of_gt positive)
    load_executed := fun _ _ => idle_of_unscheduled unscheduled
    waiting_fresh := fun waiting => clash rfl waiting
    store_waiting := fun _ waiting => clash rfl waiting }

theorem Inv.initiateTranslation {results : List (Option Bool)}
    (inv : Inv 0 0 run) (owned : run.owned = true)
    (waiting : run.waiting = true) (unexecuted : run.executed = false)
    (unstarted : run.request.translationStarted = false)
    (all : results.length = run.request.fault.length) :
    Returns 0 0 (run.initiateTranslation results) := by
  obtain ⟨unsent, untranslated, notIssued⟩ := inv.unstarted unstarted
  have unscheduled := (inv.waiting_fresh waiting).1
  have early : run.canWB = false ∧ run.completed = false := by
    cases load : run.request.isLoad with
    | true => exact inv.load_flags load
    | false =>
      obtain ⟨canWB, -, incomplete⟩ := inv.store_waiting load waiting
      exact ⟨canWB, incomplete⟩
  unfold RequestRun.initiateTranslation
  by_cases nonempty : 0 < run.request.fault.length
  · rw [if_pos nonempty]
    have life : Life 0 results.length { run with
        request := { run.request with state := .translation, translationStarted := true } } :=
      { inv.toLife with
        translated := fun _ => by
          change run.request.numInTranslationFragments +
            run.request.numTranslatedFragments + results.length = run.request.fault.length
          omega
        unstarted := fun unstarted => absurd unstarted.symm Bool.false_ne_true
        early := fun _ => inv.early (.inl notIssued)
        late := fun ended => absurd rfl ended
        accessible_pos := fun required => by
          simp [isMemAccessRequired] at required }
    have started := life.inv_of_owned (inv.alive_of_owned owned)
      (inv.unreleased_of_owned owned) owned
    have counted := inv.untranslated_none
    rw [untranslated, Nat.zero_add] at counted
    have missing := count_eq_length.mp counted
    refine started.sendFragments results rfl (.inl rfl) owned ⟨unexecuted, early⟩ ?_ ?_
    · intro later _ below
      have same := missing (run.request.fault[later]) (List.getElem_mem below)
      exact (List.getElem?_eq_getElem below).trans (congrArg some same.symm)
    · change 0 + results.length = run.request.fault.length
      omega
  · rw [if_neg nonempty]
    exact ⟨_, rfl, inv.execute unsent unscheduled⟩

/-! ## Loads -/

theorem Inv.stopWaiting (inv : Inv answering remaining run) :
    Inv answering remaining { run with waiting := false } :=
  { inv with
    waiting_fresh := fun waiting => clash rfl waiting
    store_waiting := fun _ waiting => clash rfl waiting }

theorem Life.not_due_of_unscheduled (life : Life answering remaining run)
    (unscheduled : run.request.writebackScheduled = false) : run.due = false := by
  refine Bool.eq_false_iff.mpr fun due => ?_
  have scheduled := (Bool.and_eq_true_iff.mp (life.due_owned due).2.2.2).1
  exact clash unscheduled scheduled

theorem early_of_required (required : request.isMemAccessRequired = true) :
    ¬ (request.state = .notIssued ∨ request.state = .translation) := by
  rintro (state | state) <;> simp [isMemAccessRequired, state] at required

theorem scheduleWriteback_eq (delayed : Bool) (alive : run.destroyed = 0)
    (unscheduled : run.request.writebackScheduled = false) :
    run.scheduleWriteback delayed =
      some { run with request.writebackScheduled := true, due := !delayed } := by
  unfold scheduleWriteback writebackScheduled
  rw [call_of_alive _ alive, unscheduled]
  rfl

theorem Life.translated_of_complete (life : Life answering remaining run)
    (complete : run.request.isTranslationComplete = true) :
    run.request.numInTranslationFragments = 0 := by
  refine life.late fun translating => ?_
  simp [isTranslationComplete, translating] at complete

theorem Inv.scheduleWriteback (inv : Inv 0 remaining run) (delayed : Bool)
    (load : run.request.isLoad = true) (owned : run.owned = true)
    (unexecuted : run.executed = false) (notWaiting : run.waiting = false)
    (unscheduled : run.request.writebackScheduled = false) (phase : run.phase = .execute)
    (required : run.request.isMemAccessRequired = true)
    (vain : 0 < run.request.numOutstandingPackets →
      delayed = false ∧ run.request.senderState = some false) :
    Returns 0 remaining (run.scheduleWriteback delayed) := by
  have alive := inv.alive_of_owned owned
  have unwritten : run.request.writebackDone = false := by
    refine Bool.eq_false_iff.mpr fun done => ?_
    exact clash unscheduled (inv.load_done load done)
  have pending : ({ run.request with writebackScheduled := true } : LSQRequest).writebackPending =
      true := by
    change (true && !run.request.writebackDone) = true
    rw [unwritten]
    rfl
  refine ⟨_, scheduleWriteback_eq delayed alive unscheduled, ?_⟩
  refine Life.inv_of_owned ?_ alive (inv.unreleased_of_owned owned) owned
  exact { inv.toLife with
    early := fun early => absurd early (early_of_required required)
    both_due := fun _ packets => by
      obtain ⟨atOnce, dead⟩ := vain packets
      exact ⟨by rw [atOnce]; rfl, dead⟩
    due_owned := fun _ => ⟨owned, by rw [phase]; decide, load, pending⟩
    load_executed := fun _ executed => clash unexecuted executed
    load_done := fun _ _ => rfl
    waiting_fresh := fun waiting => clash notWaiting waiting
    store_scheduled := fun store => clash store load }

theorem Inv.forward (inv : Inv 0 remaining run) (load : run.request.isLoad = true)
    (owned : run.owned = true) (unexecuted : run.executed = false)
    (notWaiting : run.waiting = false) (unscheduled : run.request.writebackScheduled = false)
    (phase : run.phase = .execute) (required : run.request.isMemAccessRequired = true) :
    Returns 0 remaining run.forward := by
  have translated := inv.late fun translating => early_of_required required (.inr translating)
  have idle := idle_of_unscheduled unscheduled
  unfold RequestRun.forward
  by_cases outstanding : run.request.isAnyOutstandingRequest = true
  · have packets : 0 < run.request.numOutstandingPackets := by
      refine Nat.pos_of_ne_zero fun unsent => ?_
      have quiet := isAnyOutstandingRequest_eq_false.mpr ⟨translated, unsent, idle⟩
      exact clash quiet outstanding
    rw [if_pos outstanding, if_pos packets]
    have dead : Inv 0 remaining { run with request.senderState := some false } :=
      { inv with
        both_due := fun pending => clash idle pending
        sender_some := fun _ missing => Option.some_ne_none _ missing
        counts := fun _ live => absurd rfl live }
    have discarded : run.discardSenderState =
        some { run with request.senderState := some false } := by
      unfold discardSenderState
      cases sender : run.request.senderState with
      | none => exact absurd sender (inv.sender_some packets)
      | some _ => rfl
    rw [discarded]
    exact dead.scheduleWriteback false load owned unexecuted notWaiting unscheduled phase required
      (fun _ => ⟨rfl, rfl⟩)
  · rw [if_neg outstanding]
    refine inv.scheduleWriteback false load owned unexecuted notWaiting unscheduled phase
      required fun packets => ?_
    exact absurd (outstanding_of_packets packets) outstanding

/-! ## Sending -/

theorem sendSplitPackets_spec (accepts : Nat) (request : LSQRequest)
    (bound : request.numReceivedPackets + request.numOutstandingPackets ≤ request.numPackets ∨
      request.senderState = some false) :
    ∃ outstanding sent, request.sendSplitPackets accepts =
        { request with numOutstandingPackets := outstanding, sent := sent } ∧
      (request.numReceivedPackets + outstanding ≤ request.numPackets ∨
        request.senderState = some false) := by
  induction accepts generalizing request with
  | zero =>
    unfold sendSplitPackets
    split
    · exact ⟨request.numOutstandingPackets, false, rfl, bound⟩
    · exact ⟨request.numOutstandingPackets, request.sent, rfl, bound⟩
  | succ accepts ih =>
    unfold sendSplitPackets
    split
    · next more =>
      obtain ⟨outstanding, sent, looped, bound⟩ := ih
        { request.packetSent with
          numOutstandingPackets := request.numOutstandingPackets + 1 } (.inl more)
      exact ⟨outstanding, sent, looped, bound⟩
    · exact ⟨request.numOutstandingPackets, request.sent, rfl, bound⟩

def attempted (packets outstanding : Nat) (sent : Bool) (request : LSQRequest) : LSQRequest :=
  { request with
    senderState := request.senderState.or (some true)
    numPackets := packets
    numOutstandingPackets := outstanding
    sent := sent }

theorem Life.sendToCache_eq (life : Life 0 remaining run) (accepts : Nat)
    (unsent : run.request.sent = false)
    (required : run.request.isMemAccessRequired = true) :
    ∃ packets outstanding sent, run.sendToCache accepts =
        some { run with request := attempted packets outstanding sent run.request } ∧
      (run.request.isSplit = true → run.request.senderState ≠ some false →
        run.request.numReceivedPackets + outstanding ≤ packets) ∧
      (run.request.isSplit = false → outstanding ≤ 1 ∧ (sent = false → outstanding = 0)) := by
  obtain ⟨packets, built, positive, kept⟩ : ∃ packets,
      ({ run.request with senderState := run.request.senderState.or (some true) } :
        LSQRequest).buildPackets =
        some { run.request with
          senderState := run.request.senderState.or (some true)
          numPackets := packets } ∧
      0 < packets ∧ run.request.numPackets ≤ packets := by
    have accessible := life.accessible_pos required
    by_cases first : run.request.numPackets = 0
    · refine ⟨run.request.accessible, ?_, accessible, by omega⟩
      unfold buildPackets
      simp only [first, if_true]
      exact if_pos accessible
    · refine ⟨run.request.numPackets, ?_, Nat.pos_of_ne_zero first, Nat.le_refl _⟩
      unfold buildPackets
      simp only [first, if_false]
      exact if_pos (Nat.pos_of_ne_zero first)
  unfold sendToCache
  simp only [built, Option.bind_some]
  unfold sendPacketToCache
  by_cases split : run.request.isSplit = true
  · rw [if_pos split]
    have bound : run.request.numReceivedPackets + run.request.numOutstandingPackets ≤ packets ∨
        run.request.senderState.or (some true) = some false := by
      by_cases dead : run.request.senderState = some false
      · exact .inr (by rw [dead]; rfl)
      · exact .inl (Nat.le_trans (life.counts split dead) kept)
    obtain ⟨outstanding, sent, looped, bound⟩ := sendSplitPackets_spec accepts
      { run.request with
        senderState := run.request.senderState.or (some true)
        numPackets := packets } bound
    refine ⟨packets, outstanding, sent, by rw [looped]; rfl, fun _ live => ?_,
      fun single => clash single split⟩
    rcases bound with bound | dead
    · exact bound
    · cases sender : run.request.senderState with
      | none => simp [sender] at dead
      | some alive =>
        simp only [sender, Option.some_or] at dead
        exact absurd (sender.trans dead) live
  · have idle := (life.single (Bool.eq_false_iff.mpr split)).2 unsent
    rw [if_neg split, if_pos idle]
    cases accepts with
    | zero =>
      refine ⟨packets, 0, false, ?_, fun whole => absurd whole split,
        fun _ => ⟨Nat.zero_le _, fun _ => rfl⟩⟩
      simp [packetNotSent, attempted, idle]
    | succ accepts =>
      refine ⟨packets, 1, true, rfl, fun whole => absurd whole split,
        fun _ => ⟨Nat.le_refl _, fun sent => absurd sent.symm Bool.false_ne_true⟩⟩

section

variable (inv : Inv 0 remaining run)
include inv

theorem Inv.sendToCache (accepts : Nat) (owned : run.owned = true)
    (notWaiting : run.waiting = false) (unscheduled : run.request.writebackScheduled = false)
    (unsent : run.request.sent = false) (memory : run.request.isLocalAccess = false)
    (required : run.request.isMemAccessRequired = true)
    (store : run.request.isLoad = false →
      run.canWB = true ∧ run.committed = true ∧ run.completed = false) :
    ∃ packets outstanding sent, run.sendToCache accepts =
        some { run with request := attempted packets outstanding sent run.request } ∧
      Inv 0 remaining { run with request := attempted packets outstanding sent run.request } := by
  obtain ⟨packets, outstanding, sent, attempt, counts, single⟩ :=
    inv.sendToCache_eq accepts unsent required
  have idle := idle_of_unscheduled unscheduled
  refine ⟨packets, outstanding, sent, attempt, ?_⟩
  refine Life.inv_of_owned ?_ (inv.alive_of_owned owned) (inv.unreleased_of_owned owned) owned
  exact { inv.toLife with
    early := fun early => absurd early (early_of_required required)
    both_due := fun pending => clash idle pending
    waiting_fresh := fun waiting => clash notWaiting waiting
    store_packets := fun isStore _ => (store isStore).1
    store_committed := fun isStore _ => (store isStore).2.1
    store_completed := fun isStore completed =>
      clash (store isStore).2.2 completed
    sender_some := fun _ missing => by
      have both := Option.or_eq_none_iff.mp missing
      exact Option.some_ne_none _ both.2
    counts := fun split live => counts split fun dead => live (by
      change run.request.senderState.or (some true) = some false
      rw [dead]
      rfl)
    single := single
    local_unsent := fun isLocal => clash memory isLocal
    answering_le := Nat.zero_le _ }

theorem Inv.read {outcome : ReadOutcome}
    (load : run.request.isLoad = true) (owned : run.owned = true)
    (unexecuted : run.executed = false) (waiting : run.waiting = true)
    (phase : run.phase = .execute) (required : run.request.isMemAccessRequired = true)
    (admits : run.readAdmits outcome = true) :
    Returns 0 remaining (run.read outcome) := by
  obtain ⟨unscheduled, unsent⟩ := inv.waiting_fresh waiting
  have translated := inv.late fun translating => early_of_required required (.inr translating)
  have stopped := inv.stopWaiting
  have discards := stopped.release .discarded owned (inv.not_due_of_unscheduled unscheduled)
    (fun positive => absurd translated (Nat.ne_of_gt positive))
    (fun store => clash store load)
  cases outcome with
  | strictlyOrdered => exact discards
  | partialHit => exact discards
  | localAccess delayed =>
    refine stopped.scheduleWriteback delayed load owned unexecuted rfl unscheduled phase
      required fun packets => ?_
    have none := inv.local_unsent admits
    change 0 < run.request.numOutstandingPackets at packets
    omega
  | forward => exact stopped.forward load owned unexecuted rfl unscheduled phase required
  | access accepts =>
    have memory : run.request.isLocalAccess = false := by
      exact (Bool.not_eq_true' _).mp admits
    obtain ⟨packets, outstanding, sent, attempt, inv⟩ :=
      stopped.sendToCache accepts owned rfl unscheduled unsent memory required
        (fun store => clash store load)
    have retry : Inv 0 remaining { run with
        waiting := !sent, request := attempted packets outstanding sent run.request } :=
      { inv with
        waiting_fresh := fun blocked => ⟨unscheduled, (Bool.not_eq_true' _).mp blocked⟩
        store_waiting := fun store => clash store load }
    refine ⟨_, ?_, retry⟩
    unfold RequestRun.read
    simp only [attempt, Option.map_some]
    rfl

/-! ## Stores -/

theorem Inv.write (store : run.request.isLoad = false) (owned : run.owned = true)
    (translated : run.request.numInTranslationFragments = 0)
    (unscheduled : run.request.writebackScheduled = false) :
    Inv 0 remaining run.write := by
  unfold RequestRun.write
  split
  · exact { inv with
      translating := fun positive => absurd translated (Nat.ne_of_gt positive)
      load_flags := fun load => clash store load
      waiting_fresh := fun waiting => clash rfl waiting
      store_waiting := fun _ waiting => clash rfl waiting
      store_packets := fun _ _ => rfl
      store_owned := fun _ _ _ => owned }
  · exact inv.execute translated unscheduled

theorem Inv.conditionalFails (atHead : Bool)
    (store : run.request.isLoad = false) (owned : run.owned = true) (canWB : run.canWB = true)
    (notWaiting : run.waiting = false) (unscheduled : run.request.writebackScheduled = false)
    (required : run.request.isMemAccessRequired = true)
    (unsent : run.request.numOutstandingPackets = 0) :
    Returns 0 remaining (run.writebackStore .conditionalFails atHead) := by
  have alive := inv.alive_of_owned owned
  have translated := inv.translated_of_canWB canWB
  have life : Life 0 remaining { run with
      committed := true
      completed := true
      due := false
      request := { run.request with
        sent := true, complete := true, writebackScheduled := true } } :=
    { inv.toLife with
      early := fun early => absurd early (early_of_required required)
      translating := fun positive => absurd translated (Nat.ne_of_gt positive)
      both_due := fun _ packets => by
        change 0 < run.request.numOutstandingPackets at packets
        omega
      due_owned := fun due => clash rfl due
      load_executed := fun load => clash store load
      load_done := fun load => clash store load
      load_flags := fun load => clash store load
      waiting_fresh := fun waiting => clash notWaiting waiting
      store_waiting := fun _ waiting => clash notWaiting waiting
      store_committed := fun _ _ => rfl
      store_completed := fun _ _ => unsent
      store_scheduled := fun _ _ => rfl
      store_owned := fun _ _ _ => owned
      single := fun single => ⟨(inv.single single).1, fun sent => absurd sent.symm
        Bool.false_ne_true⟩ }
  have completed := life.inv_of_owned alive (inv.unreleased_of_owned owned) owned
  have scheduled : run.writebackStore .conditionalFails atHead = ({ run with
      committed := true
      due := false
      request := { run.request with
        sent := true, complete := true, writebackScheduled := true } }).completeStore atHead := by
    have event : ({ run with
        committed := true
        request := { run.request with sent := true, complete := true } }).scheduleWriteback true =
          some _ := scheduleWriteback_eq true alive unscheduled
    exact congrArg (Option.bind · (RequestRun.completeStore atHead)) event
  rw [scheduled]
  exact completed.completeStore_of_completed atHead store owned canWB

theorem Inv.writebackStore {outcome : StoreOutcome} (atHead : Bool)
    (store : run.request.isLoad = false) (owned : run.owned = true) (canWB : run.canWB = true)
    (incomplete : run.completed = false) (unsent : run.request.sent = false)
    (admits : run.storeAdmits outcome = true) :
    Returns 0 remaining (run.writebackStore outcome atHead) := by
  have notWaiting : run.waiting = false := by
    refine Bool.eq_false_iff.mpr fun waiting => ?_
    exact clash (inv.store_waiting store waiting).1 canWB
  have unscheduled : run.request.writebackScheduled = false := by
    refine Bool.eq_false_iff.mpr fun scheduled => ?_
    exact clash incomplete (inv.store_scheduled store scheduled)
  have first : run.committed = false → run.request.numOutstandingPackets = 0 := by
    intro uncommitted
    refine Nat.eq_zero_of_not_pos fun packets => ?_
    exact clash uncommitted (inv.store_committed store packets)
  have committed : Inv 0 remaining { run with committed := true } :=
    { inv with store_committed := fun _ _ => rfl }
  cases outcome with
  | noData =>
    simp only [storeAdmits, Bool.and_eq_true, Bool.not_eq_true'] at admits
    exact inv.completeStore atHead store owned canWB (first admits.1)
  | conditionalFails =>
    simp only [storeAdmits, Bool.and_eq_true, Bool.not_eq_true'] at admits
    exact inv.conditionalFails atHead store owned canWB notWaiting unscheduled admits.1.2
      (first admits.1.1)
  | localAccess =>
    simp only [storeAdmits, Bool.and_eq_true, Bool.not_eq_true'] at admits
    exact committed.completeStore atHead store owned canWB (first admits.1.1.1)
  | access accepts =>
    simp only [storeAdmits, Bool.and_eq_true, Bool.not_eq_true'] at admits
    obtain ⟨_, _, _, attempt, inv⟩ := committed.sendToCache accepts owned notWaiting unscheduled
      unsent admits.2 admits.1 (fun _ => ⟨canWB, rfl, incomplete⟩)
    exact ⟨_, attempt, inv⟩

end

/-! ## Runs -/

/-- What the callers know of an instruction that is executed. -/
structure Executable (run : RequestRun) : Prop where
  phase : run.phase = .execute
  owned : run.owned = true
  waiting : run.waiting = true
  unexecuted : run.executed = false

theorem executable_iff (executable : run.executable = true) : Executable run := by
  simp only [RequestRun.executable, Bool.and_eq_true, beq_iff_eq, Bool.not_eq_true'] at executable
  obtain ⟨⟨⟨⟨phase, owned⟩, waiting⟩, -⟩, unexecuted⟩ := executable
  exact ⟨phase, owned, waiting, unexecuted⟩

section

variable (inv : Inv 0 0 run)
include inv

theorem Inv.executeLoad {outcome : ReadOutcome}
    (admitted : run.callers (.executeLoad outcome) = true) :
    Returns 0 0 (run.step (.executeLoad outcome)) := by
  simp only [callers, Bool.and_eq_true] at admitted
  obtain ⟨⟨⟨executable, load⟩, complete⟩, admits⟩ := admitted
  obtain ⟨phase, owned, waiting, unexecuted⟩ := executable_iff executable
  change Returns 0 0 (if run.request.isMemAccessRequired then run.read outcome
    else some { run with waiting := false, executed := true })
  by_cases required : run.request.isMemAccessRequired = true
  · rw [if_pos required]
    exact inv.read load owned unexecuted waiting phase required admits
  · rw [if_neg required]
    exact ⟨_, rfl, inv.execute (inv.translated_of_complete complete) (inv.waiting_fresh waiting).1⟩

theorem Inv.executeStore (admitted : run.callers .executeStore = true) :
    Returns 0 0 (run.step .executeStore) := by
  simp only [callers, Bool.and_eq_true, Bool.not_eq_true'] at admitted
  obtain ⟨⟨executable, store⟩, complete⟩ := admitted
  obtain ⟨-, owned, waiting, -⟩ := executable_iff executable
  have translated := inv.translated_of_complete complete
  have unscheduled := (inv.waiting_fresh waiting).1
  change Returns 0 0 (if run.request.isMemAccessRequired then some run.write
    else some { run with waiting := false, executed := true })
  split
  · exact ⟨_, rfl, inv.write store owned translated unscheduled⟩
  · exact ⟨_, rfl, inv.execute translated unscheduled⟩

theorem Inv.squash (admitted : run.callers .squash = true) :
    Returns 0 0 (run.step .squash) := by
  simp only [callers, Bool.and_eq_true, beq_iff_eq, Bool.not_eq_true'] at admitted
  obtain ⟨⟨phase, owned⟩, unwritten⟩ := admitted
  have squashed : Inv 0 0 { run with squashed := true } :=
    { inv with orphan_squashed := fun _ _ => rfl }
  -- The queue is squashed before the tick executes anything: no write-back is due.
  have notDue : run.due = false :=
    Bool.eq_false_iff.mpr fun due => (inv.due_owned due).2.1 phase
  exact squashed.clear owned notDue (fun _ => rfl) (fun _ canWB => clash unwritten canWB)

theorem Inv.commitLoad (admitted : run.callers .commitLoad = true) :
    Returns 0 0 (run.step .commitLoad) := by
  simp only [callers, Bool.and_eq_true] at admitted
  obtain ⟨⟨load, owned⟩, executed⟩ := admitted
  have notDue : run.due = false := Bool.eq_false_iff.mpr fun due =>
    absurd (inv.due_owned due).2.2.2 (Bool.eq_false_iff.mp (inv.load_executed load executed))
  refine inv.clear owned notDue (fun translating => ?_) (fun store => clash store load)
  exact clash (inv.translating translating).1 executed

theorem Inv.commitStore (admitted : run.callers .commitStore = true) :
    Inv 0 0 { run with canWB := true } := by
  simp only [callers, Bool.and_eq_true, Bool.not_eq_true'] at admitted
  obtain ⟨⟨⟨store, owned⟩, executed⟩, -⟩ := admitted
  exact { inv with
    translating := fun translating =>
      clash (inv.translating translating).1 executed
    load_flags := fun load => clash store load
    store_waiting := fun store waiting =>
      clash (inv.store_waiting store waiting).2.1 executed
    store_packets := fun _ _ => rfl
    store_owned := fun _ _ _ => owned }

theorem Inv.leave (admitted : run.callers .leave = true) :
    Returns 0 0 (run.step .leave) := by
  simp only [callers, Bool.and_eq_true, Bool.not_eq_true'] at admitted
  obtain ⟨⟨store, owned⟩, completed⟩ := admitted
  refine inv.clear owned (inv.not_due_of_store store) (fun translating => ?_) (fun _ _ => completed)
  exact clash (inv.translating translating).2.2 completed

theorem Inv.enter (phase : TickPhase)
    (admits : run.due = true → phase ≠ .signals) : Inv 0 0 { run with phase := phase } :=
  { inv with
    due_owned := fun due => by
      obtain ⟨owned, -, load, pending⟩ := inv.due_owned due
      exact ⟨owned, admits due, load, pending⟩ }

theorem Inv.nextPhase (admitted : run.callers .nextPhase = true) :
    Inv 0 0 run.nextPhase := by
  simp only [callers, Bool.or_eq_true, bne_iff_ne, ne_eq, Bool.not_eq_true'] at admitted
  unfold RequestRun.nextPhase
  split
  · exact inv.enter .execute (fun _ => by decide)
  · exact inv.enter .events (fun _ => by decide)
  · next events =>
    have notDue : run.due = false := admitted.resolve_left (fun other => other events)
    exact inv.enter .signals (fun due => clash notDue due)

/-- Nothing that the callers do fails, and the invariant is kept. -/
theorem Inv.step {event : Event} (admitted : run.callers event = true) :
    Returns 0 0 (run.step event) := by
  cases event with
  | initiateTranslation results =>
    simp only [callers, Bool.and_eq_true, Bool.not_eq_true', beq_iff_eq] at admitted
    obtain ⟨⟨executable, unstarted⟩, all⟩ := admitted
    obtain ⟨-, owned, waiting, unexecuted⟩ := executable_iff executable
    exact inv.initiateTranslation owned waiting unexecuted unstarted all
  | finish fragment fault =>
    simp only [callers, Bool.and_eq_true, beq_iff_eq] at admitted
    obtain ⟨started, pending⟩ := admitted
    have sent : 0 < run.request.numInTranslationFragments := by
      have counted := count_none_set fault pending
      have untranslated := inv.untranslated_none
      have split := inv.translated started
      omega
    obtain ⟨_, _, finished, inv, -⟩ := inv.finish fault started pending (.inl rfl) sent
    exact ⟨_, finished, inv⟩
  | executeLoad outcome => exact inv.executeLoad admitted
  | executeStore => exact inv.executeStore admitted
  | writebackStore outcome atHead =>
    simp only [callers, Bool.and_eq_true, Bool.not_eq_true'] at admitted
    obtain ⟨⟨⟨⟨⟨store, owned⟩, canWB⟩, incomplete⟩, unsent⟩, admits⟩ := admitted
    exact inv.writebackStore atHead store owned canWB incomplete unsent admits
  | reply atHead => exact inv.reply atHead (of_decide_eq_true admitted)
  | processWriteback =>
    exact inv.processWriteback (Bool.and_eq_true_iff.mp admitted).1
  | squashInst =>
    exact ⟨_, rfl, { inv with orphan_squashed := fun _ _ => rfl }⟩
  | squash => exact inv.squash admitted
  | commitLoad => exact inv.commitLoad admitted
  | commitStore => exact ⟨_, rfl, inv.commitStore admitted⟩
  | leave => exact inv.leave admitted
  | nextPhase => exact ⟨_, rfl, inv.nextPhase admitted⟩

end

def created (isLoad isSplit isStoreConditional isAtomic isLocalAccess : Bool)
    (fragments : Nat) : RequestRun where
  request :=
    { isLoad := isLoad
      isSplit := isSplit
      isStoreConditional := isStoreConditional
      isAtomic := isAtomic
      isLocalAccess := isLocalAccess
      fault := List.replicate fragments none }

theorem created_inv (isLoad isSplit isStoreConditional isAtomic isLocalAccess : Bool)
    (fragments : Nat) :
    Inv 0 0 (created isLoad isSplit isStoreConditional isAtomic isLocalAccess fragments) where
  releases_length := Nat.zero_le _
  owned_iff := iff_of_true rfl rfl
  untranslated_none := by simp [created]
  translated := fun started => clash rfl started
  unstarted := fun _ => ⟨rfl, rfl, rfl⟩
  early := fun _ => ⟨rfl, rfl⟩
  late := fun _ => rfl
  accessible_pos := fun required => clash rfl required
  translating := fun _ => ⟨rfl, rfl, rfl⟩
  orphan_squashed := fun _ orphaned => absurd orphaned.symm Bool.false_ne_true
  both_due := fun pending => clash rfl pending
  due_owned := fun due => clash rfl due
  load_executed := fun _ _ => rfl
  load_done := fun _ done => clash rfl done
  load_flags := fun _ => ⟨rfl, rfl⟩
  waiting_fresh := fun _ => ⟨rfl, rfl⟩
  store_waiting := fun _ _ => ⟨rfl, rfl, rfl⟩
  store_packets := fun _ packets => absurd packets (Nat.lt_irrefl 0)
  store_committed := fun _ packets => absurd packets (Nat.lt_irrefl 0)
  store_completed := fun _ completed => clash rfl completed
  store_scheduled := fun _ scheduled => clash rfl scheduled
  store_owned := fun _ _ _ => rfl
  sender_some := fun packets => absurd packets (Nat.lt_irrefl 0)
  counts := fun _ _ => Nat.le_refl 0
  single := fun _ => ⟨Nat.zero_le 1, fun _ => rfl⟩
  local_unsent := fun _ => rfl
  answering_le := Nat.le_refl 0
  destroyed_eq := rfl
  released_iff := fun _ => iff_of_false Bool.false_ne_true Bool.false_ne_true.symm

theorem reachable_inv {isLoad isSplit isStoreConditional isAtomic isLocalAccess : Bool}
    {fragments : Nat}
    (reached : Reaches step callers
      (created isLoad isSplit isStoreConditional isAtomic isLocalAccess fragments) run) :
    Inv 0 0 run := by
  induction reached with
  | refl => exact created_inv _ _ _ _ _ _
  | tail _ admitted stepped inv =>
    obtain ⟨final, same, kept⟩ := inv.step admitted
    rw [stepped] at same
    cases same
    exact kept

/-- A request is destroyed at most once, exactly when it has been released or discarded and
nothing of it is outstanding any more. -/
structure DestroyedOnce (run : RequestRun) : Prop where
  released_once : run.releases.length ≤ 1
  owned_iff : run.owned = true ↔ run.releases = []
  destroyed_le_one : run.destroyed ≤ 1
  destroyed_iff : run.destroyed = 1 ↔
    run.releases ≠ [] ∧ run.request.isAnyOutstandingRequest = false
  /-- No assertion fails and no member is called on a destroyed request. -/
  callers_succeed : ∀ event, run.callers event = true → (run.step event).isSome = true

theorem Inv.destroyedOnce (inv : Inv 0 0 run) : DestroyedOnce run where
  released_once := inv.releases_length
  owned_iff := inv.owned_iff
  destroyed_le_one := by
    rw [inv.destroyed_eq]
    split <;> decide
  destroyed_iff := by
    rw [inv.destroyed_eq]
    cases owned : run.owned with
    | true => simp [inv.owned_iff.mp owned]
    | false =>
      have released : run.releases ≠ [] := fun none =>
        clash owned (inv.owned_iff.mpr none)
      cases outstanding : run.request.isAnyOutstandingRequest with
      | true => simp
      | false => simp [released]
  callers_succeed := by
    intro event admitted
    obtain ⟨final, stepped, -⟩ := inv.step admitted
    rw [stepped]
    rfl

/-- For every order of translations, packets, replies, write-backs, squashes and commits. -/
theorem request_ownership (isLoad isSplit isStoreConditional isAtomic isLocalAccess : Bool)
    (fragments : Nat) (run : RequestRun)
    (reached : Reaches step callers
      (created isLoad isSplit isStoreConditional isAtomic isLocalAccess fragments) run) :
    DestroyedOnce run :=
  (reachable_inv reached).destroyedOnce

/-- A split load that is forwarded while its first packet is under way, squashed, and
destroyed by the reply. -/
theorem request_ownership_forwardedLoad : ∃ run, DestroyedOnce run ∧ run.destroyed = 1 := by
  obtain ⟨run, reached, observed⟩ := Library.reaches_of_observed step callers
    (created true true false false false 2)
    [.initiateTranslation [some false, none], .finish 1 false, .executeLoad (.access 1),
      .executeLoad .forward, .nextPhase, .processWriteback, .nextPhase, .squash, .reply false]
    (fun run => decide (run.destroyed = 1)) (by decide +kernel)
  exact ⟨run, request_ownership _ _ _ _ _ _ run reached, of_decide_eq_true observed⟩

end Runahead.O3.Lsq.RequestRun
