import Runahead.O3.LsqUnit
import Mathlib.Data.List.Nodup

/-!
# The representation of the load/store queue unit

The counters, the order of the two queues, the place of `storeWBIt` and the store
positions that the loads have recorded, over every operation of the unit.
-/

set_option autoImplicit false

namespace Runahead.O3.Lsq

open List SQEntry

def SQEntry.pending (store : SQEntry) : Bool := store.canWB && !store.completed

namespace LSQUnit

open Library

variable {config : Config} {unit next : LSQUnit} {store : SQEntry} {seqNum : Nat}
variable {change : SQEntry → SQEntry}

def passed (unit : LSQUnit) : Nat := unit.storeWBIt - unit.storeHead

/-- The position that a load has recorded separates the older stores, given by
their numbers, from the younger ones. -/
structure Placed (storeHead : Nat) (numbers : List Nat) (load : LQEntry) : Prop where
  inside : load.sqIt ≤ storeHead + numbers.length
  separates : ∀ index number, numbers[index]? = some number →
    (storeHead + index < load.sqIt ↔ number < load.seqNum)

structure Inv (unit : LSQUnit) : Prop where
  loads : unit.loads = unit.loadQueue.length
  stores : unit.stores = unit.storeQueue.length
  loadsOrdered : unit.loadQueue.Pairwise fun older younger => older.seqNum < younger.seqNum
  storesOrdered : unit.storeQueue.Pairwise fun older younger => older.seqNum < younger.seqNum
  storesToWB : unit.storesToWB = unit.storeQueue.countP pending
  lower : unit.storeHead ≤ unit.storeWBIt
  upper : unit.storeWBIt ≤ unit.storeEnd
  passedCanWB : ∀ store ∈ unit.storeQueue.take unit.passed, store.canWB = true
  passedDone : ∀ store ∈ unit.storeQueue.take unit.passed,
    store.isSent = true ∨ store.completed = true ∨ store.isDataPrefetch = true
  unsent : ∀ store ∈ unit.storeQueue.drop unit.passed,
    store.isSent = false ∧ store.completed = false
  placed : ∀ load ∈ unit.loadQueue, Placed unit.storeHead (unit.storeQueue.map (·.seqNum)) load
  blocked : unit.isStoreBlocked = true →
    ∃ store, unit.storeAt unit.storeWBIt = some store ∧ store.canWB = true

/-! ## Entries of an ordered queue -/

section Queue

variable {queue : List SQEntry}

theorem map_seqNum_updateEntry (keeps : ∀ entry, (change entry).seqNum = entry.seqNum) :
    (updateEntry queue seqNum change).map (·.seqNum) = queue.map (·.seqNum) := by
  unfold updateEntry
  rw [map_map]
  refine map_congr_left fun entry _ => ?_
  simp only [Function.comp_apply]
  split
  · exact keeps entry
  · rfl

theorem ordered_iff_numbers :
    (queue.Pairwise fun older younger => older.seqNum < younger.seqNum) ↔
      (queue.map (·.seqNum)).Pairwise (· < ·) := pairwise_map.symm

section Ordered

variable (ordered : queue.Pairwise fun older younger => older.seqNum < younger.seqNum)

include ordered

theorem ordered_unique {left right : SQEntry} (inLeft : left ∈ queue) (inRight : right ∈ queue)
    (same : left.seqNum = right.seqNum) : left = right :=
  inj_on_of_nodup_map ((ordered_iff_numbers.mp ordered).imp Nat.ne_of_lt) inLeft inRight same

theorem updateEntry_ordered (keeps : ∀ entry, (change entry).seqNum = entry.seqNum) :
    (updateEntry queue seqNum change).Pairwise fun older younger =>
      older.seqNum < younger.seqNum := by
  rw [ordered_iff_numbers, map_seqNum_updateEntry keeps]
  exact ordered_iff_numbers.mp ordered

theorem updateEntry_split {front back : List SQEntry} (split : queue = front ++ store :: back) :
    updateEntry queue store.seqNum change = front ++ change store :: back := by
  subst split
  obtain ⟨_, later, between⟩ := pairwise_append.mp ordered
  obtain ⟨above, _⟩ := pairwise_cons.mp later
  have same : ∀ part : List SQEntry, (∀ entry ∈ part, entry.seqNum ≠ store.seqNum) →
      updateEntry part store.seqNum change = part := by
    intro part different
    refine (map_congr_left fun entry inside => ?_).trans (map_id part)
    rw [if_neg (different entry inside)]
    rfl
  have before := same front fun entry inside =>
    Nat.ne_of_lt (between entry inside store mem_cons_self)
  have after := same back fun entry inside => Nat.ne_of_gt (above entry inside)
  unfold updateEntry at before after ⊢
  rw [map_append, map_cons, before, after, if_pos rfl]

theorem countP_updateEntry (test : SQEntry → Bool) (change : SQEntry → SQEntry)
    (member : store ∈ queue) :
    (updateEntry queue store.seqNum change).countP test + (if test store then 1 else 0) =
      queue.countP test + (if test (change store) then 1 else 0) := by
  obtain ⟨front, back, split⟩ := append_of_mem member
  rw [updateEntry_split ordered split, split, countP_append, countP_append,
    countP_cons, countP_cons]
  omega

end Ordered

end Queue

theorem mem_updateStore {entry : SQEntry}
    (member : entry ∈ (unit.updateStore seqNum change).storeQueue) :
    ∃ old ∈ unit.storeQueue, entry = old ∨ old.seqNum = seqNum ∧ entry = change old := by
  obtain ⟨old, inside, rfl⟩ := mem_map.mp member
  refine ⟨old, inside, ?_⟩
  by_cases here : old.seqNum = seqNum
  · exact .inr ⟨here, if_pos here⟩
  · exact .inl (if_neg here)

variable {load : LQEntry}

theorem loadAt_eq_some {index : Nat} : unit.loadAt index = some load ↔
    unit.loadHead ≤ index ∧ unit.loadQueue[index - unit.loadHead]? = some load :=
  Option.ite_none_right_eq_some

theorem storeAt_eq_some {index : Nat} : unit.storeAt index = some store ↔
    unit.storeHead ≤ index ∧ unit.storeQueue[index - unit.storeHead]? = some store :=
  Option.ite_none_right_eq_some

theorem storeAt_updateStore {index : Nat} (found : unit.storeAt index = some store) :
    (unit.updateStore store.seqNum change).storeAt index = some (change store) := by
  obtain ⟨inside, found⟩ := storeAt_eq_some.mp found
  refine storeAt_eq_some.mpr ⟨inside, ?_⟩
  simp [updateStore, updateEntry, found]

theorem Inv.split (inv : unit.Inv) (found : unit.storeAt unit.storeWBIt = some store) :
    ∃ front back, unit.storeQueue = front ++ store :: back ∧ front.length = unit.passed := by
  unfold storeAt at found
  rw [if_pos inv.lower] at found
  obtain ⟨bound, here⟩ := List.getElem?_eq_some_iff.mp found
  have bound : unit.passed < unit.storeQueue.length := bound
  refine ⟨unit.storeQueue.take unit.passed, unit.storeQueue.drop (unit.passed + 1), ?_, ?_⟩
  · conv_lhs => rw [← take_append_drop unit.passed unit.storeQueue]
    rw [drop_eq_getElem_cons bound]
    exact congrArg (fun entry => _ ++ entry :: _) here
  · rw [length_take]
    exact Nat.min_eq_left (Nat.le_of_lt bound)

/-! ## Write-back -/

/-- A store that is sent, completed or skipped is behind `storeWBIt` afterwards. -/
theorem Inv.advance (inv : unit.Inv) (found : unit.storeAt unit.storeWBIt = some store)
    (unblocked : unit.isStoreBlocked = false) (canWB : store.canWB = true)
    (sameNum : ∀ entry, (change entry).seqNum = entry.seqNum)
    (keeps : (change store).canWB = true)
    (done : (change store).isSent = true ∨ (change store).completed = true ∨
      (change store).isDataPrefetch = true) :
    Inv { unit.updateStore store.seqNum change with
      storesToWB := unit.storesToWB - if (change store).completed then 1 else 0
      storeWBIt := unit.storeWBIt + 1 } := by
  obtain ⟨front, back, queue, length⟩ := inv.split found
  have ordered := inv.storesOrdered
  have lower := inv.lower
  have taken : unit.storeQueue.take unit.passed = front := by rw [queue, ← length]; simp
  have left : unit.storeQueue.drop unit.passed = store :: back := by rw [queue, ← length]; simp
  have unsent := inv.unsent store (by simp [left])
  have updated : updateEntry unit.storeQueue store.seqNum change =
      front ++ change store :: back := updateEntry_split ordered queue
  have moved : unit.storeWBIt + 1 - unit.storeHead = front.length + 1 := by
    rw [length, passed]
    omega
  have takenNow : (updateEntry unit.storeQueue store.seqNum change).take
      (unit.storeWBIt + 1 - unit.storeHead) = front ++ [change store] := by
    rw [updated, moved]
    simp [take_append, take_of_length_le]
  have leftNow : (updateEntry unit.storeQueue store.seqNum change).drop
      (unit.storeWBIt + 1 - unit.storeHead) = back := by
    rw [updated, moved]
    simp [drop_append, drop_of_length_le]
  have sameNumbers : (updateEntry unit.storeQueue store.seqNum change).map (·.seqNum) =
      unit.storeQueue.map (·.seqNum) := map_seqNum_updateEntry sameNum
  have counted := countP_updateEntry ordered pending change
    (show store ∈ unit.storeQueue by simp [queue])
  refine
    { inv with
      stores := ?_, storesOrdered := ?_, storesToWB := ?_, lower := ?_, upper := ?_
      passedCanWB := ?_, passedDone := ?_, unsent := ?_, placed := ?_
      blocked := fun blocked => clash blocked unblocked }
  · exact inv.stores.trans (by simp [updateStore, updateEntry])
  · exact updateEntry_ordered ordered sameNum
  · have wasPending : store.pending = true := by simp [pending, canWB, unsent.2]
    have nowPending : (change store).pending = !(change store).completed := by
      simp [pending, keeps]
    have before := inv.storesToWB
    rw [wasPending, nowPending] at counted
    simp only [updateStore]
    cases completed : (change store).completed <;> simp [completed] at counted ⊢ <;> omega
  · exact Nat.le_succ_of_le lower
  · have size : unit.storeQueue.length = front.length + (back.length + 1) := by simp [queue]
    simp only [storeEnd, updateStore, updateEntry, length_map]
    omega
  · intro entry member
    rcases mem_append.mp (takenNow ▸ member) with inFront | here
    · exact inv.passedCanWB entry (taken ▸ inFront)
    · rwa [mem_singleton.mp here]
  · intro entry member
    rcases mem_append.mp (takenNow ▸ member) with inFront | here
    · exact inv.passedDone entry (taken ▸ inFront)
    · rwa [mem_singleton.mp here]
  · intro entry member
    have inBack : entry ∈ back := leftNow ▸ member
    exact inv.unsent entry (by simp [left, inBack])
  · intro load member
    have before := inv.placed load member
    rwa [← sameNumbers] at before

section Entries

variable (sameNum : ∀ entry, (change entry).seqNum = entry.seqNum)
  (canWB : ∀ entry, entry.canWB = true → (change entry).canWB = true)
  (done : ∀ entry, entry.isSent = true ∨ entry.completed = true ∨ entry.isDataPrefetch = true →
    (change entry).isSent = true ∨ (change entry).completed = true ∨
      (change entry).isDataPrefetch = true)

include sameNum canWB done

theorem Inv.mapEntries (inv : unit.Inv) (storesToWB : Int)
    (unsent : ∀ entry ∈ unit.storeQueue.drop unit.passed,
      (change entry).isSent = false ∧ (change entry).completed = false)
    (counted : storesToWB = (unit.storeQueue.map change).countP pending) :
    Inv { unit with storeQueue := unit.storeQueue.map change, storesToWB := storesToWB } := by
  have length : (unit.storeQueue.map change).length = unit.storeQueue.length := length_map _
  have sameNumbers : (unit.storeQueue.map change).map (·.seqNum) =
      unit.storeQueue.map (·.seqNum) := by
    rw [map_map]
    exact map_congr_left fun entry _ => sameNum entry
  refine
    { inv with
      stores := ?_, storesOrdered := ?_, storesToWB := counted, upper := ?_, passedCanWB := ?_
      passedDone := ?_, unsent := ?_, placed := ?_, blocked := ?_ }
  · exact inv.stores.trans (congrArg _ length.symm)
  · rw [ordered_iff_numbers, sameNumbers]
    exact ordered_iff_numbers.mp inv.storesOrdered
  · exact Nat.le_trans inv.upper (Nat.add_le_add_left (Nat.le_of_eq length.symm) _)
  · intro entry member
    obtain ⟨old, inside, rfl⟩ := mem_map.mp (map_take ▸ member)
    exact canWB old (inv.passedCanWB old inside)
  · intro entry member
    obtain ⟨old, inside, rfl⟩ := mem_map.mp (map_take ▸ member)
    exact done old (inv.passedDone old inside)
  · intro entry member
    obtain ⟨old, inside, rfl⟩ := mem_map.mp (map_drop ▸ member)
    exact unsent old inside
  · intro load member
    rw [sameNumbers]
    exact inv.placed load member
  · intro blocked
    obtain ⟨store, found, before⟩ := inv.blocked blocked
    obtain ⟨inside, found⟩ := storeAt_eq_some.mp found
    refine ⟨change store, storeAt_eq_some.mpr ⟨inside, ?_⟩, canWB store before⟩
    exact List.getElem?_map.trans (congrArg (Option.map change) found)

theorem Inv.changeEntry (inv : unit.Inv) (seqNum : Nat) (storesToWB : Int)
    (unsent : ∀ entry ∈ unit.storeQueue.drop unit.passed, entry.seqNum = seqNum →
      (change entry).isSent = false ∧ (change entry).completed = false)
    (counted : storesToWB = (updateEntry unit.storeQueue seqNum change).countP pending) :
    Inv { unit.updateStore seqNum change with storesToWB := storesToWB } := by
  refine inv.mapEntries ?_ ?_ ?_ storesToWB ?_ counted
  · intro entry
    split
    · exact sameNum entry
    · rfl
  · intro entry before
    split
    · exact canWB entry before
    · exact before
  · intro entry before
    split
    · exact done entry before
    · exact before
  · intro entry behind
    split
    case isTrue here => exact unsent entry behind here
    case isFalse => exact inv.unsent entry behind

end Entries

theorem Inv.relabel (inv : unit.Inv) (seqNum : Nat)
    (sameNum : ∀ entry, (change entry).seqNum = entry.seqNum)
    (same : ∀ entry, (change entry).canWB = entry.canWB ∧
      (change entry).completed = entry.completed ∧ (change entry).isSent = entry.isSent ∧
      (change entry).isDataPrefetch = entry.isDataPrefetch) :
    (unit.updateStore seqNum change).Inv := by
  refine inv.changeEntry sameNum ?_ ?_ seqNum unit.storesToWB ?_ ?_
  · intro entry before
    exact (same entry).1.trans before
  · intro entry before
    obtain ⟨-, completed, isSent, isDataPrefetch⟩ := same entry
    rwa [completed, isSent, isDataPrefetch]
  · intro entry member _
    obtain ⟨-, completed, isSent, -⟩ := same entry
    rw [completed, isSent]
    exact inv.unsent entry member
  · refine inv.storesToWB.trans (congrArg _ ?_)
    unfold updateEntry
    rw [countP_map]
    refine countP_congr fun entry _ => ?_
    simp only [pending, Function.comp_apply]
    split
    · rw [(same entry).1, (same entry).2.1]
    · rfl

theorem Inv.sent_passed (inv : unit.Inv) (member : store ∈ unit.storeQueue)
    (isSent : store.isSent = true) : store ∈ unit.storeQueue.take unit.passed := by
  rw [← take_append_drop unit.passed unit.storeQueue] at member
  rcases mem_append.mp member with inFront | behind
  · exact inFront
  · exact clash isSent (inv.unsent store behind).1

theorem Inv.answer (inv : unit.Inv) (member : store ∈ unit.storeQueue)
    (isSent : store.isSent = true) (uncompleted : store.completed = false) :
    Inv { unit.updateStore store.seqNum fun entry => { entry with completed := true } with
      storesToWB := unit.storesToWB - 1 } := by
  have canWB := inv.passedCanWB store (inv.sent_passed member isSent)
  refine inv.changeEntry ?_ ?_ ?_ _ _ ?_ ?_
  · exact fun _ => rfl
  · exact fun _ before => before
  · intro entry _
    exact .inr (.inl rfl)
  · intro entry behind same
    have here := ordered_unique inv.storesOrdered (mem_of_mem_drop behind) member same
    exact clash isSent (here ▸ (inv.unsent entry behind).1)
  · have counted := countP_updateEntry inv.storesOrdered pending
      (fun entry => { entry with completed := true }) member
    have before := inv.storesToWB
    have wasPending : store.pending = true := by simp [pending, canWB, uncompleted]
    have nowDone : pending { store with completed := true } = false := by
      simp [pending]
    rw [wasPending, nowDone, if_pos rfl, if_neg Bool.false_ne_true] at counted
    omega

/-- A store that may not write back is behind `storeWBIt`. -/
theorem Inv.unmarked_behind (inv : unit.Inv) (member : store ∈ unit.storeQueue)
    (unmarked : store.canWB = false) : store ∈ unit.storeQueue.drop unit.passed := by
  rw [← take_append_drop unit.passed unit.storeQueue] at member
  rcases mem_append.mp member with inFront | behind
  · exact clash unmarked (inv.passedCanWB store inFront)
  · exact behind

theorem Inv.mark (inv : unit.Inv) (member : store ∈ unit.storeQueue)
    (unmarked : store.canWB = false) (size : Nat) :
    Inv { unit.updateStore store.seqNum fun entry => { entry with size := size, canWB := true } with
      storesToWB := unit.storesToWB + 1 } := by
  have behind := inv.unmarked_behind member unmarked
  refine inv.changeEntry ?_ ?_ ?_ _ _ ?_ ?_
  · exact fun _ => rfl
  · exact fun _ _ => rfl
  · exact fun _ before => before
  · intro entry later _
    exact inv.unsent entry later
  · have counted := countP_updateEntry inv.storesOrdered pending
      (fun entry => { entry with size := size, canWB := true }) member
    have before := inv.storesToWB
    have wasUnmarked : store.pending = false := by simp [pending, unmarked]
    have nowPending : pending { store with size := size, canWB := true } = true := by
      simp [pending, (inv.unsent store behind).2]
    rw [wasUnmarked, nowPending, if_pos rfl, if_neg Bool.false_ne_true] at counted
    omega

/-! ## Recorded positions -/

section Placed

variable {storeHead count number : Nat} {numbers : List Nat} {load : LQEntry}

theorem Placed.new (older : ∀ number ∈ numbers, number < load.seqNum)
    (position : load.sqIt = storeHead + numbers.length) : Placed storeHead numbers load where
  inside := Nat.le_of_eq position
  separates := by
    intro index number found
    obtain ⟨bound, rfl⟩ := List.getElem?_eq_some_iff.mp found
    have below := older _ (List.getElem_mem bound)
    omega

theorem Placed.append (placed : Placed storeHead numbers load) (younger : load.seqNum < number) :
    Placed storeHead (numbers ++ [number]) load where
  inside := by
    have inside := placed.inside
    rw [length_append, length_singleton]
    omega
  separates := by
    intro index entry found
    have inside := placed.inside
    rcases Nat.lt_or_ge index numbers.length with within | beyond
    · rw [List.getElem?_append_left within] at found
      exact placed.separates index entry found
    · rw [List.getElem?_append_right beyond] at found
      obtain ⟨bound, rfl⟩ := List.getElem?_eq_some_iff.mp found
      rw [List.getElem_singleton]
      omega

theorem Placed.drop (placed : Placed storeHead numbers load) (bound : count ≤ numbers.length) :
    Placed (storeHead + count) (numbers.drop count) load where
  inside := by
    have inside := placed.inside
    rw [length_drop]
    omega
  separates := by
    intro index number found
    rw [List.getElem?_drop] at found
    rw [Nat.add_assoc]
    exact placed.separates (count + index) number found

theorem Placed.dropLast (placed : Placed storeHead numbers load)
    (last : numbers.getLast? = some number) (younger : load.seqNum ≤ number) :
    Placed storeHead numbers.dropLast load where
  inside := by
    rw [getLast?_eq_getElem?] at last
    have separated := placed.separates _ _ last
    rw [length_dropLast]
    omega
  separates := by
    intro index entry found
    rw [List.getElem?_dropLast] at found
    obtain ⟨_, found⟩ := Option.ite_none_right_eq_some.mp found
    exact placed.separates index entry found

end Placed

theorem Inv.completed_passed (inv : unit.Inv) :
    (unit.storeQueue.takeWhile (·.completed)).length ≤ unit.passed := by
  rcases Nat.lt_or_ge unit.passed (unit.storeQueue.takeWhile (·.completed)).length with
    beyond | within
  · have bound := Nat.lt_of_lt_of_le beyond (List.takeWhile_prefix _).length_le
    have behind : unit.storeQueue[unit.passed] ∈ unit.storeQueue.drop unit.passed := by
      rw [drop_eq_getElem_cons bound]
      exact mem_cons_self
    have same : (unit.storeQueue.takeWhile (·.completed))[unit.passed] =
        unit.storeQueue[unit.passed] := (List.takeWhile_prefix _).getElem beyond
    have completed := all_eq_true.mp all_takeWhile _ (List.getElem_mem beyond)
    rw [same] at completed
    exact clash completed (inv.unsent _ behind).2
  · exact within

theorem popCompleted_eq {rest : List SQEntry} (queue : unit.storeQueue = store :: rest)
    (completed : store.completed = true) :
    unit.popCompleted = { unit with
      storeHead := unit.storeHead + (unit.storeQueue.takeWhile (·.completed)).length
      storeQueue := unit.storeQueue.drop (unit.storeQueue.takeWhile (·.completed)).length
      stores := unit.stores - (unit.storeQueue.takeWhile (·.completed)).length } := by
  have popped : completedRun unit.storeQueue =
      (unit.storeQueue.takeWhile (·.completed)).length := by
    unfold completedRun
    rw [queue, takeWhile_cons_of_pos completed, tail_cons, length_cons, Nat.add_comm]
  unfold popCompleted
  rw [popped]

theorem Inv.popCompleted {rest : List SQEntry} (inv : unit.Inv)
    (queue : unit.storeQueue = store :: rest) (completed : store.completed = true) :
    unit.popCompleted.Inv := by
  rw [popCompleted_eq queue completed]
  have within := inv.completed_passed
  have takenCompleted : ∀ entry ∈ unit.storeQueue.takeWhile (·.completed), entry.completed = true :=
    all_eq_true.mp all_takeWhile
  have bound : (unit.storeQueue.takeWhile (·.completed)).length ≤ unit.storeQueue.length :=
    (List.takeWhile_prefix _).length_le
  have taken : unit.storeQueue.take (unit.storeQueue.takeWhile (·.completed)).length =
      unit.storeQueue.takeWhile (·.completed) :=
    (prefix_iff_eq_take.mp (List.takeWhile_prefix _)).symm
  generalize (unit.storeQueue.takeWhile (·.completed)).length = popped at *
  have lower := inv.lower
  have upper := inv.upper
  unfold passed at within
  have remaining : unit.storeWBIt - (unit.storeHead + popped) = unit.passed - popped := by
    unfold passed
    omega
  have takenNow : (unit.storeQueue.drop popped).take (unit.storeWBIt - (unit.storeHead + popped)) =
      (unit.storeQueue.take unit.passed).drop popped := by
    rw [remaining, drop_take]
  have leftNow : (unit.storeQueue.drop popped).drop (unit.storeWBIt - (unit.storeHead + popped)) =
      unit.storeQueue.drop unit.passed := by
    rw [drop_drop, remaining]
    congr 1
    unfold passed
    omega
  refine
    { inv with
      stores := ?_, storesOrdered := inv.storesOrdered.drop, storesToWB := ?_, lower := ?_
      upper := ?_, passedCanWB := ?_, passedDone := ?_, unsent := ?_, placed := ?_
      blocked := ?_ }
  · have before := inv.stores
    rw [length_drop]
    change unit.stores - popped = ((unit.storeQueue.length - popped : Nat) : Int)
    omega
  · have noPending : (unit.storeQueue.take popped).countP pending = 0 := by
      rw [countP_eq_zero]
      intro entry member
      have done := takenCompleted entry (taken ▸ member)
      simp [pending, done]
    have before := inv.storesToWB
    rw [← take_append_drop popped unit.storeQueue, countP_append, noPending] at before
    exact before.trans (by rw [Nat.zero_add])
  · change unit.storeHead + popped ≤ unit.storeWBIt
    omega
  · unfold storeEnd at upper ⊢
    rw [length_drop]
    change unit.storeWBIt ≤ unit.storeHead + popped + (unit.storeQueue.length - popped)
    omega
  · intro entry member
    exact inv.passedCanWB entry (mem_of_mem_drop (takenNow ▸ member))
  · intro entry member
    exact inv.passedDone entry (mem_of_mem_drop (takenNow ▸ member))
  · intro entry member
    exact inv.unsent entry (leftNow ▸ member)
  · intro load member
    rw [map_drop]
    exact (inv.placed load member).drop (by rwa [length_map])
  · intro blocked
    obtain ⟨store, found, canWB⟩ := inv.blocked blocked
    refine ⟨store, ?_, canWB⟩
    unfold storeAt at found
    rw [if_pos lower] at found
    have inside : unit.storeHead + popped ≤ unit.storeWBIt := by omega
    refine (if_pos inside).trans ?_
    rw [List.getElem?_drop, remaining]
    have index : popped + (unit.passed - popped) = unit.storeWBIt - unit.storeHead := by
      omega
    rw [index]
    exact found

theorem Inv.unstall (inv : unit.Inv) (seqNum : Nat) (storeInFlight : Bool) :
    Inv { unit.unstall seqNum with storeInFlight := storeInFlight } := by
  unfold LSQUnit.unstall
  split <;> exact { inv with }

theorem Inv.finish (inv : unit.Inv) (seqNum : Nat) (storeInFlight : Bool)
    (completed : ∀ store ∈ unit.storeQueue, store.seqNum = seqNum → store.completed = true) :
    Inv { (if unit.storeQueue.head?.any (·.seqNum = seqNum) then unit.popCompleted
        else unit).unstall seqNum with storeInFlight := storeInFlight } := by
  split
  case isFalse => exact inv.unstall seqNum storeInFlight
  case isTrue front =>
    obtain ⟨first, head, same⟩ := (Option.any_eq_true _ _).mp front
    obtain ⟨rest, queue⟩ := head?_eq_some_iff.mp head
    have done := completed first (by simp [queue]) (of_decide_eq_true same)
    exact (inv.popCompleted queue done).unstall seqNum storeInFlight

variable {queue : List SQEntry}

theorem updateEntry_updateEntry {first second : SQEntry → SQEntry}
    (sameNum : ∀ entry, (first entry).seqNum = entry.seqNum) :
    updateEntry (updateEntry queue seqNum first) seqNum second =
      updateEntry queue seqNum fun entry => second (first entry) := by
  unfold updateEntry
  rw [map_map]
  refine map_congr_left fun entry _ => ?_
  simp only [Function.comp_apply]
  by_cases here : entry.seqNum = seqNum
  · rw [if_pos here, if_pos ((sameNum entry).trans here), if_pos here]
  · rw [if_neg here, if_neg here, if_neg here]

theorem updateStore_updateStore {first second : SQEntry → SQEntry}
    (sameNum : ∀ entry, (first entry).seqNum = entry.seqNum) :
    (unit.updateStore seqNum first).updateStore seqNum second =
      unit.updateStore seqNum fun entry => second (first entry) :=
  congrArg (fun queue => { unit with storeQueue := queue }) (updateEntry_updateEntry sameNum)

theorem updateEntry_completed {entry : SQEntry}
    (member : entry ∈ updateEntry queue seqNum fun entry => { entry with completed := true })
    (same : entry.seqNum = seqNum) : entry.completed = true := by
  obtain ⟨old, _, rfl⟩ := mem_map.mp member
  by_cases here : old.seqNum = seqNum
  · rw [if_pos here]
  · rw [if_neg here] at same
    exact absurd same here

theorem storePostSend_eq : unit.storePostSend config seqNum =
    { LSQUnit.unstall { unit with storeWBIt := unit.storeWBIt + 1 } seqNum with
      storeInFlight := config.needsTSO || unit.storeInFlight } := by
  unfold storePostSend LSQUnit.unstall
  split <;> rfl

theorem completeStore_storeWBIt (storeWBIt : Nat) :
    { unit.completeStore config seqNum with storeWBIt := storeWBIt } =
      completeStore config { unit with storeWBIt := storeWBIt } seqNum := by
  cases front : (updateEntry unit.storeQueue seqNum fun entry =>
      { entry with completed := true }).head?.any (·.seqNum = seqNum)
  · simp only [completeStore, updateStore, front, Bool.false_eq_true, ↓reduceIte, LSQUnit.unstall]
    split <;> rfl
  · simp only [completeStore, updateStore, front, ↓reduceIte, popCompleted, LSQUnit.unstall]
    split <;> rfl

theorem Inv.completeStore_behind (inv : unit.Inv) (found : unit.storeAt unit.storeWBIt = some store)
    (unblocked : unit.isStoreBlocked = false) (canWB : store.canWB = true)
    (sameNum : ∀ entry, (change entry).seqNum = entry.seqNum)
    (keeps : (change store).canWB = true) :
    Inv { (unit.updateStore store.seqNum change).completeStore config store.seqNum with
      storeWBIt := unit.storeWBIt + 1 } := by
  rw [completeStore_storeWBIt]
  have advanced : Inv { unit.updateStore store.seqNum fun entry =>
      { change entry with completed := true } with
      storesToWB := unit.storesToWB - 1
      storeWBIt := unit.storeWBIt + 1 } :=
    inv.advance found unblocked canWB sameNum keeps (.inr (.inl rfl))
  have marked : Inv { unit with
      storeQueue := updateEntry (updateEntry unit.storeQueue store.seqNum change) store.seqNum
        fun entry => { entry with completed := true }
      storesToWB := unit.storesToWB - 1
      storeWBIt := unit.storeWBIt + 1 } := by
    rw [updateEntry_updateEntry sameNum]
    exact advanced
  exact marked.finish store.seqNum _ fun entry member same => updateEntry_completed member same

theorem Inv.uncompleted (inv : unit.Inv) (found : unit.storeAt unit.storeWBIt = some store) :
    store.completed = false := by
  obtain ⟨front, back, queue, length⟩ := inv.split found
  refine (inv.unsent store ?_).2
  rw [queue, ← length, drop_left]
  exact mem_cons_self

theorem completeStore_keeps_storeWBIt :
    (unit.completeStore config seqNum).storeWBIt = unit.storeWBIt :=
  (congrArg LSQUnit.storeWBIt (completeStore_storeWBIt unit.storeWBIt)).symm

theorem Inv.storeWBIt_of_empty (inv : unit.Inv) (empty : unit.storeQueue.isEmpty = true) :
    unit.storeWBIt = unit.storeEnd := by
  have lower := inv.lower
  have upper := inv.upper
  have length : unit.storeQueue.length = 0 := by
    rw [List.isEmpty_iff.mp empty, length_nil]
  unfold storeEnd at upper ⊢
  omega

theorem Inv.sendStore (inv : unit.Inv) (found : unit.storeAt unit.storeWBIt = some store)
    (canWB : store.canWB = true) (accepted : Bool) :
    (unit.sendStore config store.seqNum accepted).Inv := by
  unfold LSQUnit.sendStore
  split
  · have unblocked : Inv { unit with isStoreBlocked := false } :=
      { inv with blocked := fun blocked => absurd blocked Bool.false_ne_true }
    have advanced : Inv { unit.updateStore store.seqNum fun entry =>
        { entry with isSent := true } with
        isStoreBlocked := false
        storesToWB := unit.storesToWB - if store.completed then 1 else 0
        storeWBIt := unit.storeWBIt + 1 } :=
      unblocked.advance found rfl canWB (fun _ => rfl) canWB (.inl rfl)
    rw [inv.uncompleted found, if_neg Bool.false_ne_true, Int.sub_zero] at advanced
    rw [storePostSend_eq]
    exact advanced.unstall store.seqNum (config.needsTSO || unit.storeInFlight)
  · exact { inv with blocked := fun _ => ⟨store, found, canWB⟩ }

theorem updateStore_same : (unit.updateStore seqNum fun entry => entry) = unit := by
  simp [updateStore, updateEntry]

theorem Inv.skipPrefetch (inv : unit.Inv) (found : unit.storeAt unit.storeWBIt = some store)
    (unblocked : unit.isStoreBlocked = false) (canWB : store.canWB = true)
    (isDataPrefetch : store.isDataPrefetch = true) :
    Inv { unit with storeWBIt := unit.storeWBIt + 1 } := by
  have advanced : Inv { unit.updateStore store.seqNum fun entry => entry with
      storesToWB := unit.storesToWB - if store.completed then 1 else 0
      storeWBIt := unit.storeWBIt + 1 } :=
    inv.advance found unblocked canWB (fun _ => rfl) canWB (.inr (.inr isDataPrefetch))
  rw [inv.uncompleted found, if_neg Bool.false_ne_true, Int.sub_zero, updateStore_same] at advanced
  exact advanced

/-- What an iteration of the loop in `writebackStores` does to its store: complete it
after a change of the flags that only describe the request, skip it, or send it. -/
inductive WritesBack (config : Config) (unit : LSQUnit) (store : SQEntry) : LSQUnit → Prop where
  | complete (change : SQEntry → SQEntry)
      (same : ∀ entry, (change entry).seqNum = entry.seqNum ∧ (change entry).canWB = entry.canWB ∧
        (change entry).completed = entry.completed) :
      WritesBack config unit store
        { (unit.updateStore store.seqNum change).completeStore config store.seqNum with
          storeWBIt := unit.storeWBIt + 1 }
  | skip (isDataPrefetch : store.isDataPrefetch = true) :
      WritesBack config unit store { unit with storeWBIt := unit.storeWBIt + 1 }
  | send (accepted : Bool) :
      WritesBack config unit store
        ((unit.updateStore store.seqNum fun entry => { entry with committed := true }).sendStore
          config store.seqNum accepted)

/-- A store-conditional that fails leaves `storeWBIt` behind itself, also when the
queue is empty afterwards. -/
theorem Inv.failed_storeWBIt (inv : unit.Inv) (found : unit.storeAt unit.storeWBIt = some store)
    (unblocked : unit.isStoreBlocked = false) (canWB : store.canWB = true)
    (change : SQEntry → SQEntry) (sameNum : ∀ entry, (change entry).seqNum = entry.seqNum)
    (keeps : (change store).canWB = true) :
    let completed := (unit.updateStore store.seqNum change).completeStore config store.seqNum
    (if completed.storeQueue.isEmpty then completed.storeEnd else completed.storeWBIt + 1) =
      unit.storeWBIt + 1 := by
  intro completed
  have behind : Inv { completed with storeWBIt := unit.storeWBIt + 1 } :=
    inv.completeStore_behind found unblocked canWB sameNum keeps
  split
  case isTrue empty => exact (behind.storeWBIt_of_empty empty).symm
  case isFalse => exact congrArg (· + 1) completeStore_keeps_storeWBIt

theorem writebackStore_some (inv : unit.Inv) {result : WriteResult}
    (ran : unit.writebackStore config result = some next) :
    ∃ store, unit.storeAt unit.storeWBIt = some store ∧ store.canWB = true ∧
      unit.isStoreBlocked = false ∧ WritesBack config unit store next := by
  unfold LSQUnit.writebackStore at ran
  split at ran
  case h_1 => cases ran
  case h_2 store found =>
    obtain ⟨ready, ran⟩ := Option.ite_none_right_eq_some.mp ran
    simp only [Bool.and_eq_true, Bool.not_eq_true'] at ready
    obtain ⟨⟨⟨_, canWB⟩, _⟩, unblocked⟩ := ready
    refine ⟨store, found, canWB, unblocked, ?_⟩
    split at ran
    · obtain rfl := Option.some.inj ran
      rw [← completeStore_storeWBIt]
      have completed : WritesBack config unit store
          { (unit.updateStore store.seqNum fun entry => entry).completeStore config
            store.seqNum with
            storeWBIt := unit.storeWBIt + 1 } := .complete _ fun _ => ⟨rfl, rfl, rfl⟩
      rwa [updateStore_same] at completed
    split at ran
    case isTrue isDataPrefetch =>
      obtain rfl := Option.some.inj ran
      exact .skip isDataPrefetch
    obtain ⟨_, ran⟩ := Option.ite_none_left_eq_some.mp ran
    cases result with
    | failed =>
      obtain ⟨_, ran⟩ := Option.ite_none_right_eq_some.mp ran
      obtain rfl := Option.some.inj ran
      have merged : (unit.updateStore store.seqNum fun entry =>
          { entry with committed := true }).updateStore store.seqNum (fun entry =>
          { entry with isSent := true }) = unit.updateStore store.seqNum fun entry =>
          { entry with committed := true, isSent := true } :=
        updateStore_updateStore fun _ => rfl
      rw [merged, inv.failed_storeWBIt found unblocked canWB
        (fun entry => { entry with committed := true, isSent := true }) (fun _ => rfl) canWB]
      exact .complete _ fun _ => ⟨rfl, rfl, rfl⟩
    | localAccess =>
      obtain ⟨_, ran⟩ := Option.ite_none_left_eq_some.mp ran
      obtain rfl := Option.some.inj ran
      rw [completeStore_keeps_storeWBIt]
      exact .complete _ fun _ => ⟨rfl, rfl, rfl⟩
    | send accepted =>
      obtain rfl := Option.some.inj ran
      exact .send accepted

theorem Inv.writebackStore (inv : unit.Inv) {result : WriteResult}
    (ran : unit.writebackStore config result = some next) : next.Inv := by
  obtain ⟨store, found, canWB, unblocked, written⟩ := writebackStore_some inv ran
  cases written with
  | complete change same =>
    exact inv.completeStore_behind found unblocked canWB (fun entry => (same entry).1)
      ((same store).2.1.trans canWB)
  | skip isDataPrefetch => exact inv.skipPrefetch found unblocked canWB isDataPrefetch
  | send accepted =>
    have committed : Inv (unit.updateStore store.seqNum fun entry =>
        { entry with committed := true }) :=
      inv.relabel store.seqNum (fun _ => rfl) fun _ => ⟨rfl, rfl, rfl, rfl⟩
    exact committed.sendStore (storeAt_updateStore found) canWB accepted

theorem Inv.writebackBlockedStore (inv : unit.Inv) (accepted : Bool)
    (ran : unit.writebackBlockedStore config accepted = some next) : next.Inv := by
  obtain ⟨blocked, ran⟩ := Option.ite_none_right_eq_some.mp ran
  obtain ⟨store, found, rfl⟩ := Option.map_eq_some_iff.mp ran
  obtain ⟨waiting, here, canWB⟩ := inv.blocked blocked
  obtain rfl := Option.some.inj (found.symm.trans here)
  exact inv.sendStore found canWB accepted

theorem Inv.completeStore (inv : unit.Inv) (member : store ∈ unit.storeQueue)
    (isSent : store.isSent = true) (uncompleted : store.completed = false) :
    (unit.completeStore config store.seqNum).Inv :=
  (inv.answer member isSent uncompleted).finish store.seqNum _ fun _ inside same =>
    updateEntry_completed inside same

/-! ## Insertion and execution -/

theorem isYoungest_iff : unit.isYoungest seqNum = true ↔
    (∀ load ∈ unit.loadQueue, load.seqNum < seqNum) ∧
      ∀ store ∈ unit.storeQueue, store.seqNum < seqNum := by
  simp [isYoungest]

theorem Inv.insertLoad (inv : unit.Inv) (isDataPrefetch : Bool)
    (youngest : unit.isYoungest seqNum = true)
    (inserted : unit.insertLoad config seqNum isDataPrefetch = .ok next) : next.Inv := by
  obtain ⟨afterLoads, afterStores⟩ := isYoungest_iff.mp youngest
  obtain ⟨_, rfl⟩ := succeeded inserted
  refine { inv with loads := ?_, loadsOrdered := ?_, placed := ?_ }
  · have before := inv.loads
    rw [length_append, length_singleton]
    exact (congrArg (· + 1) before).trans (by push_cast; rfl)
  · refine pairwise_append.mpr ⟨inv.loadsOrdered, pairwise_singleton _ _, ?_⟩
    intro older member younger here
    rw [mem_singleton.mp here]
    exact afterLoads older member
  · intro load member
    rcases mem_append.mp member with inQueue | here
    · exact inv.placed load inQueue
    · obtain rfl := mem_singleton.mp here
      refine .new ?_ ?_
      · intro number inside
        obtain ⟨store, inQueue, rfl⟩ := mem_map.mp inside
        exact afterStores store inQueue
      · rw [length_map]
        rfl

theorem Inv.insertStore (inv : unit.Inv) (youngest : unit.isYoungest store.seqNum = true)
    (inserted : unit.insertStore config store = .ok next) : next.Inv := by
  obtain ⟨afterLoads, afterStores⟩ := isYoungest_iff.mp youngest
  obtain ⟨_, rfl⟩ := succeeded inserted
  have bound : unit.passed ≤ unit.storeQueue.length := by
    have upper := inv.upper
    unfold storeEnd at upper
    unfold passed
    omega
  refine
    { inv with
      stores := ?_, storesOrdered := ?_, storesToWB := ?_, upper := ?_, passedCanWB := ?_
      passedDone := ?_, unsent := ?_, placed := ?_, blocked := ?_ }
  · have before := inv.stores
    rw [length_append, length_singleton]
    exact (congrArg (· + 1) before).trans (by push_cast; rfl)
  · refine pairwise_append.mpr ⟨inv.storesOrdered, pairwise_singleton _ _, ?_⟩
    intro older member younger here
    rw [mem_singleton.mp here]
    exact afterStores older member
  · rw [countP_append]
    exact inv.storesToWB
  · have upper := inv.upper
    unfold storeEnd at upper ⊢
    rw [length_append]
    exact Nat.le_trans upper (Nat.add_le_add_left (Nat.le_add_right _ _) _)
  · intro entry member
    exact inv.passedCanWB entry (take_append_of_le_length bound ▸ member)
  · intro entry member
    exact inv.passedDone entry (take_append_of_le_length bound ▸ member)
  · intro entry member
    have member := drop_append_of_le_length bound ▸ member
    rcases mem_append.mp member with behind | here
    · exact inv.unsent entry behind
    · rw [mem_singleton.mp here]
      exact ⟨rfl, rfl⟩
  · intro load member
    rw [map_append]
    exact (inv.placed load member).append (afterLoads load member)
  · intro blocked
    obtain ⟨store, found, canWB⟩ := inv.blocked blocked
    obtain ⟨inside, found⟩ := storeAt_eq_some.mp found
    have within := (List.getElem?_eq_some_iff.mp found).1
    exact ⟨store, storeAt_eq_some.mpr ⟨inside, (List.getElem?_append_left within).trans found⟩,
      canWB⟩

theorem Inv.executeStore (inv : unit.Inv) (member : store ∈ unit.storeQueue)
    (unmarked : store.canWB = false) (size : Nat) : (unit.executeStore store size).Inv := by
  unfold LSQUnit.executeStore
  split
  · exact inv
  · split
    · exact inv.mark member unmarked size
    · exact inv.relabel store.seqNum (fun _ => rfl) fun _ => ⟨rfl, rfl, rfl, rfl⟩

variable {coverage : Nat → AddrRangeCoverage}

theorem searchStores_stall {distance : Nat}
    (result : unit.searchStores coverage distance = .stall store) :
    ∃ before < distance, unit.storeAt (unit.storeWBIt + before) = some store := by
  induction distance with
  | zero => cases result
  | succ distance ih =>
    unfold searchStores at result
    have earlier : unit.searchStores coverage distance = .stall store →
        ∃ before < distance + 1, unit.storeAt (unit.storeWBIt + before) = some store := by
      intro result
      obtain ⟨before, bound, found⟩ := ih result
      exact ⟨before, Nat.lt_succ_of_lt bound, found⟩
    split at result
    · cases result
    case h_2 entry found =>
      split at result
      · exact earlier result
      · split at result
        · exact earlier result
        · cases result
        · obtain rfl := SearchResult.stall.inj result
          exact ⟨distance, Nat.lt_succ_self _, found⟩

/-- A load that executes either leaves the unit alone or waits for a store that it
found between `storeWBIt` and its own position. -/
theorem read_ok {loadIdx : Nat} (executed : unit.read config load loadIdx coverage = .ok next) :
    next = unit ∨ ∃ index store, unit.storeWBIt ≤ index ∧ index < load.sqIt ∧
      unit.storeAt index = some store ∧ next = { unit with
        stalled := true, stallingStoreIsn := store.seqNum, stallingLoadIdx := loadIdx } := by
  unfold read at executed
  split at executed
  · cases executed
  split at executed
  · exact .inl (Except.ok.inj executed).symm
  split at executed
  · exact .inl (Except.ok.inj executed).symm
  · exact .inl (Except.ok.inj executed).symm
  case h_3 store result =>
    obtain ⟨before, bound, found⟩ := searchStores_stall result
    split at executed
    · cases executed
    have waits : next = { unit with
        stalled := true, stallingStoreIsn := store.seqNum, stallingLoadIdx := loadIdx } →
        ∃ index store, unit.storeWBIt ≤ index ∧ index < load.sqIt ∧
          unit.storeAt index = some store ∧ next = { unit with
            stalled := true, stallingStoreIsn := store.seqNum, stallingLoadIdx := loadIdx } :=
      fun same => ⟨unit.storeWBIt + before, store, Nat.le_add_right _ _, by omega, found, same⟩
    unfold stallLoad at executed
    split at executed
    · exact .inr (waits (Except.ok.inj executed).symm)
    · split at executed
      · cases executed
      · split at executed
        · exact .inr (waits (Except.ok.inj executed).symm)
        · exact .inl (Except.ok.inj executed).symm

theorem Inv.read (inv : unit.Inv) {loadIdx : Nat}
    (executed : unit.read config load loadIdx coverage = .ok next) : next.Inv := by
  rcases read_ok executed with rfl | ⟨_, _, _, _, _, rfl⟩
  · exact inv
  · exact { inv with }

/-! ## Commit -/

def commitEntry (youngestInst : Nat) (store : SQEntry) : SQEntry :=
  if store.seqNum ≤ youngestInst then { store with canWB := true } else store

section

variable (youngestInst : Nat)

theorem commitEntry_marked (marked : store.canWB = true) :
    commitEntry youngestInst store = store := by
  unfold commitEntry
  split
  · rw [← marked]
  · rfl

theorem commitEntry_canWB (marked : store.canWB = true) :
    (commitEntry youngestInst store).canWB = true := by
  rw [commitEntry_marked youngestInst marked]
  exact marked

theorem commitEntry_same (store : SQEntry) :
    (commitEntry youngestInst store).seqNum = store.seqNum ∧
      (commitEntry youngestInst store).completed = store.completed ∧
      (commitEntry youngestInst store).isSent = store.isSent ∧
      (commitEntry youngestInst store).isDataPrefetch = store.isDataPrefetch := by
  unfold commitEntry
  split <;> exact ⟨rfl, rfl, rfl, rfl⟩

/-- The loop stops at the first store that is too young, and so are all behind it. -/
theorem commitStoresLoop_fst
    (ordered : queue.Pairwise fun older younger => older.seqNum < younger.seqNum) :
    (commitStoresLoop youngestInst queue).1 = queue.map (commitEntry youngestInst) := by
  induction ordered with
  | nil => rfl
  | @cons store rest above _ ih =>
    unfold commitStoresLoop
    rw [map_cons, ← ih]
    split
    case isTrue marked => rw [commitEntry_marked youngestInst marked]
    case isFalse =>
      split
      case isTrue young =>
        have later : rest.map (commitEntry youngestInst) = rest := by
          refine (map_congr_left fun entry inside => ?_).trans (map_id rest)
          exact if_neg (Nat.not_le.mpr (Nat.lt_trans young (above entry inside)))
        rw [ih, later]
        exact congrArg (· :: rest) (if_neg (Nat.not_le.mpr young)).symm
      case isFalse old =>
        exact congrArg (· :: _) (if_pos (Nat.not_lt.mp old)).symm

theorem commitStoresLoop_snd
    (uncompleted : ∀ store ∈ queue, store.canWB = false → store.completed = false) :
    (commitStoresLoop youngestInst queue).1.countP pending =
      queue.countP pending + (commitStoresLoop youngestInst queue).2 := by
  induction queue with
  | nil => rfl
  | cons store rest ih =>
    have before := ih fun entry inside => uncompleted entry (mem_cons_of_mem _ inside)
    unfold commitStoresLoop
    split
    · simp only [countP_cons]
      omega
    case isFalse unmarked =>
      have unmarked := Bool.eq_false_iff.mpr unmarked
      split
      · rfl
      · have wasUnmarked : store.pending = false := by simp [pending, unmarked]
        have nowPending : pending { store with canWB := true } = true := by
          simp [pending, uncompleted store mem_cons_self unmarked]
        simp only [countP_cons, wasUnmarked, nowPending, Bool.false_eq_true, ↓reduceIte]
        omega

end

theorem Inv.commitStores (inv : unit.Inv) (youngestInst : Nat) :
    (unit.commitStores youngestInst).Inv := by
  have marked := commitStoresLoop_fst youngestInst inv.storesOrdered
  have counted := commitStoresLoop_snd youngestInst fun store member unmarked =>
    (inv.unsent store (inv.unmarked_behind member unmarked)).2
  simp only [LSQUnit.commitStores, marked] at counted ⊢
  refine inv.mapEntries ?_ ?_ ?_ _ ?_ ?_
  · intro entry
    exact (commitEntry_same youngestInst entry).1
  · intro entry before
    exact commitEntry_canWB youngestInst before
  · intro entry before
    obtain ⟨-, completed, isSent, isDataPrefetch⟩ := commitEntry_same youngestInst entry
    rwa [completed, isSent, isDataPrefetch]
  · intro entry behind
    obtain ⟨-, completed, isSent, -⟩ := commitEntry_same youngestInst entry
    rw [completed, isSent]
    exact inv.unsent entry behind
  · have before := inv.storesToWB
    omega

theorem Inv.commitLoad (inv : unit.Inv) (occupied : unit.loadQueue ≠ []) :
    unit.commitLoad.Inv := by
  have loads : unit.loads - 1 = (unit.loadQueue.tail.length : Int) := by
    have before := inv.loads
    have positive := length_pos_of_ne_nil occupied
    rw [length_tail]
    omega
  exact
    { inv with
      loads := loads, loadsOrdered := inv.loadsOrdered.tail
      placed := fun load member => inv.placed load (mem_of_mem_tail member) }

variable (Holds : LSQUnit → Prop)

/-- The loop keeps what its body keeps. -/
theorem commitLoads_invariant {youngestInst : Nat}
    (preserved : ∀ unit load rest, unit.loadQueue = load :: rest → load.seqNum ≤ youngestInst →
      Holds unit → Holds unit.commitLoad) (fuel : Nat) (start : Holds unit) :
    Holds (commitLoads youngestInst fuel unit) := by
  induction fuel generalizing unit with
  | zero => exact start
  | succ fuel ih =>
    unfold LSQUnit.commitLoads
    split
    · exact start
    case h_2 load rest queue =>
      split
      case isTrue committed => exact ih (preserved unit load rest queue committed.2 start)
      case isFalse => exact start

theorem Inv.commitLoads (inv : unit.Inv) (youngestInst fuel : Nat) :
    (commitLoads youngestInst fuel unit).Inv :=
  commitLoads_invariant Inv
    (fun _ _ _ queue _ inv => inv.commitLoad (queue ▸ cons_ne_nil _ _)) fuel inv

theorem Inv.commit (inv : unit.Inv) (youngestInst : Nat) : (unit.commit youngestInst).Inv :=
  (inv.commitStores youngestInst).commitLoads youngestInst _

/-! ## Squash -/

theorem Inv.squashLoad (inv : unit.Inv) (occupied : unit.loadQueue ≠ []) :
    unit.squashLoad.Inv := by
  have loads : unit.loads - 1 = (unit.loadQueue.dropLast.length : Int) := by
    have before := inv.loads
    have positive := length_pos_of_ne_nil occupied
    rw [length_dropLast]
    omega
  have placed : ∀ load ∈ unit.loadQueue.dropLast,
      Placed unit.storeHead (unit.storeQueue.map (·.seqNum)) load :=
    fun load member => inv.placed load (dropLast_subset _ member)
  have ordered : unit.loadQueue.dropLast.Pairwise fun older younger =>
      older.seqNum < younger.seqNum := inv.loadsOrdered.sublist (dropLast_sublist _)
  unfold LSQUnit.squashLoad
  split
  · exact { inv with loads := loads, loadsOrdered := ordered, placed := placed }
  · exact { inv with loads := loads, loadsOrdered := ordered, placed := placed }

theorem squashLoads_invariant {squashedNum : Nat}
    (preserved : ∀ unit load, unit.loadQueue.getLast? = some load → squashedNum < load.seqNum →
      Holds unit → Holds unit.squashLoad) (fuel : Nat) (start : Holds unit) :
    Holds (squashLoads squashedNum fuel unit) := by
  induction fuel generalizing unit with
  | zero => exact start
  | succ fuel ih =>
    unfold LSQUnit.squashLoads
    split
    · exact start
    case h_2 load last =>
      split
      case isTrue squashed => exact ih (preserved unit load last squashed.2 start)
      case isFalse => exact start

variable {fuel : Nat}

theorem squashStores_invariant {squashedNum : Nat}
    (preserved : ∀ unit store, unit.storeQueue.getLast? = some store →
      squashedNum < store.seqNum → (unit.stalled = true → store.seqNum ≠ unit.stallingStoreIsn) →
      Holds unit → Holds unit.squashStore)
    (start : Holds unit) (ended : squashStores squashedNum fuel unit = .ok next) :
    Holds next := by
  induction fuel generalizing unit with
  | zero => exact Except.ok.inj ended ▸ start
  | succ fuel ih =>
    unfold squashStores at ended
    split at ended
    · exact Except.ok.inj ended ▸ start
    case h_2 store last =>
      split at ended
      case isFalse => exact Except.ok.inj ended ▸ start
      case isTrue squashed =>
        split at ended
        · exact Except.ok.inj ended ▸ start
        split at ended
        · cases ended
        case isFalse other =>
          exact ih (preserved unit store last squashed.2 (by simpa using other) start) ended

theorem Inv.squashLoads (inv : unit.Inv) (squashedNum fuel : Nat) :
    (squashLoads squashedNum fuel unit).Inv := by
  refine squashLoads_invariant Inv (fun unit load last _ inv => inv.squashLoad ?_) fuel inv
  rintro empty
  simp [empty] at last

theorem Inv.squashStore (inv : unit.Inv) (last : unit.storeQueue.getLast? = some store)
    (unmarked : store.canWB = false)
    (younger : ∀ load ∈ unit.loadQueue, load.seqNum ≤ store.seqNum) : unit.squashStore.Inv := by
  have queue : unit.storeQueue.dropLast ++ [store] = unit.storeQueue :=
    dropLast_append_getLast? store last
  have length : unit.storeQueue.length = unit.storeQueue.dropLast.length + 1 := by
    rw [← congrArg List.length queue, length_append, length_singleton]
  have within : unit.passed ≤ unit.storeQueue.dropLast.length := by
    rcases Nat.lt_or_ge unit.storeQueue.dropLast.length unit.passed with beyond | within
    · have front : store ∈ unit.storeQueue.take unit.passed := by
        rw [take_of_length_le (by omega)]
        exact mem_of_getLast? last
      exact clash unmarked (inv.passedCanWB store front)
    · exact within
  have taken : unit.storeQueue.dropLast.take unit.passed = unit.storeQueue.take unit.passed := by
    conv_rhs => rw [← queue]
    exact (take_append_of_le_length within).symm
  have left : unit.storeQueue.drop unit.passed =
      unit.storeQueue.dropLast.drop unit.passed ++ [store] := by
    conv_lhs => rw [← queue]
    exact drop_append_of_le_length within
  refine
    { inv with
      stores := ?_, storesOrdered := inv.storesOrdered.sublist (dropLast_sublist _)
      storesToWB := ?_, upper := ?_, passedCanWB := ?_, passedDone := ?_, unsent := ?_
      placed := ?_, blocked := ?_ }
  · have before := inv.stores
    change unit.stores - 1 = (unit.storeQueue.dropLast.length : Int)
    omega
  · have before := inv.storesToWB
    rw [← queue, countP_append] at before
    have notPending : [store].countP pending = 0 := by simp [pending, unmarked]
    rw [notPending] at before
    exact before
  · change unit.storeWBIt ≤ unit.storeHead + unit.storeQueue.dropLast.length
    unfold passed at within
    omega
  · intro entry member
    exact inv.passedCanWB entry (taken ▸ member)
  · intro entry member
    exact inv.passedDone entry (taken ▸ member)
  · intro entry member
    exact inv.unsent entry (left ▸ mem_append_left _ member)
  · intro load member
    have before := inv.placed load member
    refine map_dropLast ▸ before.dropLast ?_ (younger load member)
    rw [getLast?_map, last]
    rfl
  · intro blocked
    obtain ⟨waiting, found, canWB⟩ := inv.blocked blocked
    obtain ⟨inside, found⟩ := storeAt_eq_some.mp found
    refine ⟨waiting, storeAt_eq_some.mpr ⟨inside, ?_⟩, canWB⟩
    rw [← queue] at found
    rcases Nat.lt_or_ge (unit.storeWBIt - unit.storeHead) unit.storeQueue.dropLast.length with
      before | here
    · exact (List.getElem?_append_left before).symm.trans found
    · rw [List.getElem?_append_right here] at found
      obtain rfl := mem_singleton.mp (mem_of_getElem? found)
      exact clash canWB unmarked

theorem squashLoads_bounded (inv : unit.Inv) (squashedNum : Nat)
    (enough : unit.loadQueue.length ≤ fuel) :
    ∀ load ∈ (squashLoads squashedNum fuel unit).loadQueue, load.seqNum ≤ squashedNum := by
  induction fuel generalizing unit with
  | zero =>
    intro load member
    cases eq_nil_of_length_eq_zero (Nat.le_zero.mp enough) ▸ (member : load ∈ unit.loadQueue)
  | succ fuel ih =>
    intro load member
    unfold LSQUnit.squashLoads at member
    split at member
    case h_1 empty =>
      rw [getLast?_eq_none_iff.mp empty] at member
      cases member
    case h_2 youngest last =>
      have queue := dropLast_append_getLast? youngest last
      have occupied : unit.loadQueue ≠ [] := by
        intro empty
        simp [empty] at last
      split at member
      · refine ih (inv.squashLoad occupied) ?_ load member
        have fewer : unit.squashLoad.loadQueue.length = unit.loadQueue.length - 1 := by
          unfold LSQUnit.squashLoad
          split <;> exact length_dropLast
        omega
      case isFalse stopped =>
        have counted := inv.loads
        have positive := length_pos_of_ne_nil occupied
        have bounded : youngest.seqNum ≤ squashedNum := by omega
        have ordered := inv.loadsOrdered
        rw [← queue] at member ordered
        rcases mem_append.mp member with older | here
        · have below := (pairwise_append.mp ordered).2.2 load older youngest (mem_singleton.mpr rfl)
          omega
        · rw [mem_singleton.mp here]
          exact bounded

theorem commitLoads_bounded (inv : unit.Inv) (youngestInst : Nat)
    (enough : unit.loadQueue.length ≤ fuel) :
    ∀ load ∈ (commitLoads youngestInst fuel unit).loadQueue, youngestInst < load.seqNum := by
  induction fuel generalizing unit with
  | zero =>
    intro load member
    cases eq_nil_of_length_eq_zero (Nat.le_zero.mp enough) ▸ (member : load ∈ unit.loadQueue)
  | succ fuel ih =>
    intro load member
    unfold LSQUnit.commitLoads at member
    split at member
    case h_1 empty =>
      rw [empty] at member
      cases member
    case h_2 oldest rest queue =>
      have length : unit.loadQueue.length = rest.length + 1 := by rw [queue, length_cons]
      split at member
      · refine ih (inv.commitLoad (by simp [queue])) ?_ load member
        change unit.loadQueue.tail.length ≤ fuel
        rw [length_tail]
        omega
      case isFalse stopped =>
        have counted := inv.loads
        have bounded : youngestInst < oldest.seqNum := by omega
        have ordered := inv.loadsOrdered
        rw [queue] at member ordered
        rcases mem_cons.mp member with rfl | later
        · exact bounded
        · exact Nat.lt_trans bounded ((pairwise_cons.mp ordered).1 load later)

end LSQUnit

end Runahead.O3.Lsq
