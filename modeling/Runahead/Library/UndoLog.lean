import Mathlib.Data.List.Perm.Basic
import Mathlib.Data.List.Nodup
import Mathlib.Logic.Function.Basic

/-!
# Maps with an undo log

A map is overwritten one key at a time, and a log keeps for each overwrite the
new and the previous value, newest entry first. `Tracks` says that the log leads
from a base map to the current one. `Conserved` says that a pool of values is
divided among a free list, the values that overwritten keys gave up, and the
current values of the keys.
-/

set_option autoImplicit false

namespace Runahead.Library

open Function

variable {Entry Key Value : Type}

/-- How a log entry records an overwrite. -/
structure Overwrite (Entry Key Value : Type) where
  key : Entry → Key
  new : Entry → Value
  prev : Entry → Value

variable [DecidableEq Key] {view : Overwrite Entry Key Value}

/-- The log, read from its oldest entry on, leads from the first map to the
second, and every entry remembers what it overwrote. -/
inductive Tracks (view : Overwrite Entry Key Value) (base : Key → Value) :
    List Entry → (Key → Value) → Prop where
  | nil : Tracks view base [] base
  | cons {log : List Entry} {map : Key → Value} (entry : Entry) :
      Tracks view base log map → view.prev entry = map (view.key entry) →
      Tracks view base (entry :: log) (update map (view.key entry) (view.new entry))

variable {base map : Key → Value}

theorem Tracks.eq_base (tracked : Tracks view base [] map) :
    map = base := by
  cases tracked
  rfl

variable {entry : Entry} {log : List Entry}

section

variable (tracked : Tracks view base (entry :: log) map)
include tracked

/-- The newest entry says what its key has now. -/
theorem Tracks.current
    : map (view.key entry) = view.new entry := by
  cases tracked
  exact update_self ..

/-- Undoing the newest entry restores the map before it. -/
theorem Tracks.undo :
    Tracks view base log (update map (view.key entry) (view.prev entry)) := by
  cases tracked with
  | cons _ older recorded =>
    rw [update_idem, recorded, update_eq_self]
    exact older

/-- An entry that wrote the value it found left the map unchanged. -/
theorem Tracks.undo_kept
    (kept : view.new entry = view.prev entry) : Tracks view base log map := by
  cases tracked with
  | cons _ older recorded =>
    rw [kept, recorded, update_eq_self]
    exact older

end

theorem Tracks.split {newer older : List Entry} (tracked : Tracks view base (newer ++ older) map) :
    ∃ middle, Tracks view base older middle ∧ Tracks view middle newer map := by
  induction newer generalizing map with
  | nil => exact ⟨map, tracked, .nil⟩
  | cons entry newer ih =>
    cases tracked with
    | cons _ rest recorded =>
      obtain ⟨middle, below, above⟩ := ih rest
      exact ⟨middle, below, .cons entry above recorded⟩

theorem Tracks.append {middle : Key → Value} {newer older : List Entry}
    (below : Tracks view base older middle) (above : Tracks view middle newer map) :
    Tracks view base (newer ++ older) map := by
  induction above with
  | nil => exact below
  | cons entry _ recorded ih => exact .cons entry ih recorded

/-! ## Conservation of the values -/

section Conservation

variable [DecidableEq Value]

/-- What an overwritten key gave up, unless the entry wrote the value it found. -/
def given (view : Overwrite Entry Key Value) (entry : Entry) : Option Value :=
  if view.new entry = view.prev entry then none else some (view.prev entry)

/-- A value of the base is still current, or an entry of the log has it. -/
theorem Tracks.kept {base map : Key → Value} {log : List Entry}
    (tracked : Tracks view base log map) (key : Key) :
    map key = base key ∨ base key ∈ log.filterMap (given view) := by
  induction tracked with
  | nil => exact .inl rfl
  | @cons log map entry _ recorded ih =>
    rcases ih with current | before
    · by_cases here : key = view.key entry
      · subst here
        by_cases same : view.new entry = view.prev entry
        · left
          rw [update_self, same, recorded, current]
        · right
          refine List.mem_filterMap.mpr ⟨entry, List.mem_cons_self, ?_⟩
          rw [given, if_neg same, recorded, current]
      · left
        rw [update_of_ne here, current]
    · right
      simp only [List.mem_filterMap] at before ⊢
      obtain ⟨older, member, gave⟩ := before
      exact ⟨older, List.mem_cons_of_mem _ member, gave⟩

def Conserved (view : Overwrite Entry Key Value) (keys : List Key) (pool free : List Value)
    (log : List Entry) (map : Key → Value) : Prop :=
  (free ++ (log.filterMap (given view) ++ keys.map map)).Perm pool

omit [DecidableEq Value] in
theorem map_update_perm {keys : List Key} {key : Key} (unique : keys.Nodup)
    (member : key ∈ keys) (map : Key → Value) (value : Value) :
    (keys.map (update map key value)).Perm (value :: (keys.erase key).map map) := by
  have others : (keys.erase key).map (update map key value) =
      (keys.erase key).map map := by
    apply List.map_congr_left
    intro other inside
    have different : other ≠ key := fun same => unique.not_mem_erase (same ▸ inside)
    rw [update_of_ne different]
  have moved := (List.perm_cons_erase member).map (update map key value)
  rwa [List.map_cons, update_self, others] at moved

omit [DecidableEq Value] in
theorem map_perm_erase {keys : List Key} {key : Key} (member : key ∈ keys)
    (map : Key → Value) : (keys.map map).Perm (map key :: (keys.erase key).map map) :=
  (List.perm_cons_erase member).map map

variable {keys : List Key} {pool free : List Value} {log : List Entry} {map : Key → Value}

omit [DecidableEq Key] in
theorem Conserved.nodup (conserved : Conserved view keys pool free log map)
    (unique : pool.Nodup) : (free ++ (log.filterMap (given view) ++ keys.map map)).Nodup :=
  conserved.nodup_iff.mpr unique

/-- A key takes a value from the free list and gives up the one it had. -/
theorem Conserved.allocate (conserved : Conserved view keys pool free log map)
    (poolUnique : pool.Nodup) (keysUnique : keys.Nodup) (entry : Entry)
    (member : view.key entry ∈ keys) (available : view.new entry ∈ free)
    (recorded : view.prev entry = map (view.key entry)) :
    Conserved view keys pool (free.erase (view.new entry)) (entry :: log)
      (update map (view.key entry) (view.new entry)) := by
  have different : view.new entry ≠ view.prev entry := by
    intro same
    have apart := (List.nodup_append.mp (conserved.nodup poolUnique)).2.2
    refine apart _ available _ (List.mem_append_right _ ?_) same
    exact recorded ▸ List.mem_map.mpr ⟨_, member, rfl⟩
  refine List.Perm.trans ?_ conserved
  simp only [given, List.filterMap_cons, different, ↓reduceIte]
  calc free.erase (view.new entry) ++ (view.prev entry :: log.filterMap (given view) ++
          keys.map (update map (view.key entry) (view.new entry)))
      |>.Perm (free.erase (view.new entry) ++ (view.prev entry ::
          (log.filterMap (given view) ++
            (view.new entry :: (keys.erase (view.key entry)).map map)))) := by
        exact ((map_update_perm keysUnique member map _).append_left
          (view.prev entry :: log.filterMap (given view))).append_left _
    _ |>.Perm (view.new entry :: free.erase (view.new entry) ++
          (log.filterMap (given view) ++
            (view.prev entry :: (keys.erase (view.key entry)).map map))) := by
        rw [List.perm_iff_count]
        intro value
        simp only [List.count_append, List.count_cons]
        omega
    _ |>.Perm (free ++ (log.filterMap (given view) ++ keys.map map)) := by
        refine ((List.perm_cons_erase available).symm).append ?_
        rw [recorded]
        exact (map_perm_erase member map).symm.append_left _

/-- An entry that keeps the value of its key moves nothing. -/
theorem Conserved.keep (conserved : Conserved view keys pool free log map) (entry : Entry)
    (kept : view.new entry = view.prev entry)
    (recorded : view.prev entry = map (view.key entry)) :
    Conserved view keys pool free (entry :: log)
      (update map (view.key entry) (view.new entry)) := by
  rw [kept, recorded, update_eq_self]
  simpa [Conserved, given, kept] using conserved

variable {entry : Entry}

/-- Undoing the newest entry frees the value it wrote. -/
theorem Conserved.undo
    (conserved : Conserved view keys pool free (entry :: log) map) (keysUnique : keys.Nodup)
    (member : view.key entry ∈ keys) (current : map (view.key entry) = view.new entry)
    (different : view.new entry ≠ view.prev entry) :
    Conserved view keys pool (free ++ [view.new entry]) log
      (update map (view.key entry) (view.prev entry)) := by
  refine List.Perm.trans ?_ conserved
  simp only [given, List.filterMap_cons, different, ↓reduceIte]
  refine ((map_update_perm keysUnique member map _).append_left _ |>.append_left _).trans ?_
  refine List.Perm.trans ?_ ((map_perm_erase member map).symm.append_left _ |>.append_left _)
  rw [List.perm_iff_count]
  intro value
  simp only [List.count_append, List.count_cons, List.count_nil, current]
  omega

omit [DecidableEq Key] in
theorem Conserved.undo_kept (conserved : Conserved view keys pool free (entry :: log) map)
    (kept : view.new entry = view.prev entry) :
    Conserved view keys pool free log map := by
  simpa [Conserved, given, kept] using conserved

omit [DecidableEq Key] in
/-- Forgetting the oldest entry frees the value its key gave up. -/
theorem Conserved.release (conserved : Conserved view keys pool free (log ++ [entry]) map) :
    Conserved view keys pool (free ++ (given view entry).toList) log map := by
  refine List.Perm.trans ?_ conserved
  rw [List.perm_iff_count]
  intro value
  cases outcome : given view entry with
  | none => simp [List.filterMap_append, outcome]
  | some value' =>
    simp only [Option.toList_some, List.filterMap_append, List.filterMap_cons, outcome,
      List.filterMap_nil, List.count_append, List.count_cons, List.count_nil]
    omega

end Conservation

end Runahead.Library
