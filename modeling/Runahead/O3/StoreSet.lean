import Mathlib.Data.Fintype.Basic
import Mathlib.Data.List.Basic
import Mathlib.Logic.Function.Basic
import Runahead.Library.Transition

/-!
# The store set predictor

The SSIT sends the PC of a memory instruction to a store set, the LFST a store set to
the store of it that was inserted last. A valid LFST entry is meant to name a store
that is still to be issued. An entry is taken back when its store issues, through the
SSIT entry that the PC has then, or when its store is squashed, through the list of
the stores that have not been issued.
-/

set_option autoImplicit false

namespace Runahead.O3.StoreSets

open Function List Function

/-- The indices are computed from table sizes that are not zero. -/
structure StoreSetParams where
  clearPeriod : Nat
  SSITSize : Nat
  LFSTSize : Nat
  someSSIT : 0 < SSITSize
  someLFST : 0 < LFSTSize

structure PredInst where
  seqNum : Nat
  instAddr : Nat
  isStore : Bool := false
  isAtomic : Bool := false
  deriving DecidableEq, Repr

inductive Failure where
  /-- The loop of `squash` goes round without erasing an entry. -/
  | squashLoopsForever
  deriving DecidableEq, Repr

section Tables

variable (params : StoreSetParams)

/-- The index mask keeps an index below the size of the table. -/
def calcIndex (pc : Nat) : Fin params.SSITSize :=
  ⟨(pc >>> 2) &&& (params.SSITSize - 1),
    Nat.lt_of_le_of_lt Nat.and_le_right (Nat.sub_lt params.someSSIT Nat.one_pos)⟩

def calcSSID (pc : Nat) : Fin params.LFSTSize :=
  ⟨(pc ^^^ (pc >>> 10)) % params.LFSTSize, Nat.mod_lt _ params.someLFST⟩

/-- The map `storeList` is ordered by falling sequence numbers. -/
structure StoreSet where
  SSIT : Fin params.SSITSize → Fin params.LFSTSize := fun _ => ⟨0, params.someLFST⟩
  validSSIT : Fin params.SSITSize → Bool := fun _ => false
  LFST : Fin params.LFSTSize → Nat := fun _ => 0
  validLFST : Fin params.LFSTSize → Bool := fun _ => false
  storeList : List (Nat × Fin params.LFSTSize) := []
  memOpsPred : Nat := 0

end Tables

def assign {Value : Type} (seqNum : Nat) (value : Value) : List (Nat × Value) → List (Nat × Value)
  | [] => [(seqNum, value)]
  | entry :: older =>
    if seqNum < entry.1 then entry :: assign seqNum value older
    else if seqNum = entry.1 then (seqNum, value) :: older
    else (seqNum, value) :: entry :: older

namespace StoreSet

variable {params : StoreSetParams} (predictor : StoreSet params)

def violation (storePC loadPC : Nat) : StoreSet params :=
  let loadIndex := calcIndex params loadPC
  let storeIndex := calcIndex params storePC
  if predictor.validSSIT loadIndex then
    if predictor.validSSIT storeIndex then
      -- The store set with the lower number wins.
      if predictor.SSIT loadIndex < predictor.SSIT storeIndex then
        { predictor with
          SSIT := update predictor.SSIT storeIndex (predictor.SSIT loadIndex) }
      else
        { predictor with
          SSIT := update predictor.SSIT loadIndex (predictor.SSIT storeIndex) }
    else
      { predictor with
        validSSIT := update predictor.validSSIT storeIndex true
        SSIT := update predictor.SSIT storeIndex (predictor.SSIT loadIndex) }
  else if predictor.validSSIT storeIndex then
    { predictor with
      validSSIT := update predictor.validSSIT loadIndex true
      SSIT := update predictor.SSIT loadIndex (predictor.SSIT storeIndex) }
  else
    let newSet := calcSSID params loadPC
    { predictor with
      validSSIT :=
        update (update predictor.validSSIT loadIndex true) storeIndex true
      SSIT := update (update predictor.SSIT loadIndex newSet) storeIndex newSet }

def clear : StoreSet params :=
  { predictor with
    validSSIT := fun _ => false, validLFST := fun _ => false, storeList := [] }

def checkClear : StoreSet params :=
  if params.clearPeriod < predictor.memOpsPred + 1 then
    { predictor with memOpsPred := 0 }.clear
  else { predictor with memOpsPred := predictor.memOpsPred + 1 }

def storeSet? (pc : Nat) : Option (Fin params.LFSTSize) :=
  if predictor.validSSIT (calcIndex params pc) then some (predictor.SSIT (calcIndex params pc))
  else none

def insertStore (storePC seqNum : Nat) : StoreSet params :=
  let predictor := predictor.checkClear
  match predictor.storeSet? storePC with
  | none => predictor
  | some storeSSID =>
    { predictor with
      LFST := update predictor.LFST storeSSID seqNum
      validLFST := update predictor.validLFST storeSSID true
      storeList := assign seqNum storeSSID predictor.storeList }

def checkInst (pc : Nat) : Nat :=
  match predictor.storeSet? pc with
  | none => 0
  | some instSSID => if predictor.validLFST instSSID then predictor.LFST instSSID else 0

def issued (issuedPC issuedSeqNum : Nat) (isStore : Bool) : StoreSet params :=
  if isStore then
    let predictor :=
      { predictor with storeList := predictor.storeList.filter (·.1 ≠ issuedSeqNum) }
    match predictor.storeSet? issuedPC with
    | none => predictor
    | some storeSSID =>
      if predictor.validLFST storeSSID && predictor.LFST storeSSID == issuedSeqNum then
        { predictor with validLFST := update predictor.validLFST storeSSID false }
      else predictor
  else predictor

/-- The loop of `squash`, from the youngest store on. -/
def squashLoop (LFST : Fin params.LFSTSize → Nat) (squashedNum : Nat) :
    List (Nat × Fin params.LFSTSize) → (Fin params.LFSTSize → Bool) →
      Except Failure (List (Nat × Fin params.LFSTSize) × (Fin params.LFSTSize → Bool))
  | [], validLFST => .ok ([], validLFST)
  | (seqNum, idx) :: older, validLFST =>
    if seqNum ≤ squashedNum then .ok ((seqNum, idx) :: older, validLFST)
    else
      let younger := squashedNum < LFST idx
      if validLFST idx && younger then
        squashLoop LFST squashedNum older (update validLFST idx false)
      else if !validLFST idx && younger then squashLoop LFST squashedNum older validLFST
      else .error .squashLoopsForever

def squash (squashedNum : Nat) : Except Failure (StoreSet params) :=
  match squashLoop predictor.LFST squashedNum predictor.storeList predictor.validLFST with
  | .error failure => .error failure
  | .ok (storeList, validLFST) =>
    .ok { predictor with storeList := storeList, validLFST := validLFST }

end StoreSet

/-! ## Runs -/

/-- The predictor of a thread, and what has happened to the stores and atomics. -/
structure Run (params : StoreSetParams) where
  predictor : StoreSet params := {}
  inserted : List PredInst := []
  issued : List Nat := []
  squashed : List Nat := []

inductive PredEvent where
  /-- `MemDepUnit::insert` or `insertNonSpec` of a store or an atomic. -/
  | insert (inst : PredInst)
  | violation (storePC loadPC : Nat)
  /-- `MemDepUnit::issue`. -/
  | issue (inst : PredInst)
  | squash (squashedNum : Nat)
  /-- `MemDepUnit::takeOverFrom`. -/
  | clear
  deriving DecidableEq, Repr

namespace Run

variable {params : StoreSetParams}

/-- One call. Instructions are inserted in program order and issued at the PC at which
they have been inserted. -/
def step (run : Run params) : PredEvent → Option (Run params)
  | .insert inst =>
    if (inst.isStore || inst.isAtomic) && run.inserted.all (·.seqNum < inst.seqNum) then
      some { run with
        predictor := run.predictor.insertStore inst.instAddr inst.seqNum
        inserted := run.inserted ++ [inst] }
    else none
  | .violation storePC loadPC =>
    some { run with predictor := run.predictor.violation storePC loadPC }
  | .issue inst =>
    if inst ∈ run.inserted then
      some { run with
        predictor := run.predictor.issued inst.instAddr inst.seqNum inst.isStore
        issued := run.issued ++ [inst.seqNum] }
    else none
  | .squash squashedNum =>
    match run.predictor.squash squashedNum with
    | .error _ => none
    | .ok predictor =>
      some { run with
        predictor := predictor
        squashed := run.squashed ++ (run.inserted.map PredInst.seqNum).filter (squashedNum < ·) }
  | .clear => some { run with predictor := run.predictor.clear }

def Live (run : Run params) (seqNum : Nat) : Prop :=
  seqNum ∈ run.inserted.map PredInst.seqNum ∧ seqNum ∉ run.issued ∧ seqNum ∉ run.squashed

instance (run : Run params) (seqNum : Nat) : Decidable (run.Live seqNum) :=
  inferInstanceAs (Decidable (_ ∧ _ ∧ _))

/-- What issues and is the last store of a set is a store, and its PC is still in that
set. -/
def issuesInOwnSet (run : Run params) : PredEvent → Bool
  | .issue inst =>
    decide (∀ set, run.predictor.validLFST set = true → run.predictor.LFST set = inst.seqNum →
      inst.isStore = true ∧ run.predictor.storeSet? inst.instAddr = some set)
  | _ => true

end Run

/-! ## What the calls do to the tables -/

theorem assign_newest {Value : Type} {seqNum : Nat} {value : Value} {list : List (Nat × Value)}
    (newest : ∀ entry ∈ list, entry.1 < seqNum) :
    assign seqNum value list = (seqNum, value) :: list := by
  cases list with
  | nil => rfl
  | cons entry older =>
    have below := newest entry mem_cons_self
    unfold assign
    rw [if_neg (Nat.lt_asymm below), if_neg (Nat.ne_of_gt below)]

namespace StoreSet

variable {params : StoreSetParams} {predictor : StoreSet params}

theorem violation_tables (storePC loadPC : Nat) : let next := predictor.violation storePC loadPC
    next.LFST = predictor.LFST ∧ next.validLFST = predictor.validLFST ∧
      next.storeList = predictor.storeList := by
  unfold violation
  dsimp only
  split <;> split <;> first | exact ⟨rfl, rfl, rfl⟩ | (split <;> exact ⟨rfl, rfl, rfl⟩)

theorem insertStore_cases (predictor : StoreSet params) (storePC seqNum : Nat) :
    let next := predictor.insertStore storePC seqNum
    (next.LFST = predictor.LFST ∧ (∀ set, next.validLFST set = false) ∧ next.storeList = []) ∨
    (next.LFST = predictor.LFST ∧ next.validLFST = predictor.validLFST ∧
      next.storeList = predictor.storeList) ∨
    ∃ set, next.LFST = update predictor.LFST set seqNum ∧
      next.validLFST = update predictor.validLFST set true ∧
      next.storeList = assign seqNum set predictor.storeList := by
  unfold insertStore checkClear
  dsimp only
  by_cases wiped : params.clearPeriod < predictor.memOpsPred + 1
  · rw [if_pos wiped]
    exact .inl ⟨rfl, fun _ => rfl, rfl⟩
  · rw [if_neg wiped]
    split
    · exact .inr (.inl ⟨rfl, rfl, rfl⟩)
    · next set _ => exact .inr (.inr ⟨set, rfl, rfl, rfl⟩)

theorem issued_LFST (issuedPC issuedSeqNum : Nat) (isStore : Bool) :
    (predictor.issued issuedPC issuedSeqNum isStore).LFST = predictor.LFST := by
  unfold issued
  dsimp only
  split
  · split
    · rfl
    · split <;> rfl
  · rfl

theorem issued_storeList (issuedPC issuedSeqNum : Nat) (isStore : Bool) :
    (predictor.issued issuedPC issuedSeqNum isStore).storeList =
      if isStore then predictor.storeList.filter (·.1 ≠ issuedSeqNum)
      else predictor.storeList := by
  unfold issued
  dsimp only
  split
  · split
    · rfl
    · split <;> rfl
  · rfl

theorem issued_validLFST (issuedPC issuedSeqNum : Nat) (isStore : Bool)
    (set : Fin params.LFSTSize) :
    (predictor.issued issuedPC issuedSeqNum isStore).validLFST set =
      (predictor.validLFST set &&
        !(isStore && predictor.storeSet? issuedPC == some set &&
          predictor.LFST set == issuedSeqNum)) := by
  unfold issued
  cases isStore with
  | false => simp
  | true =>
    have same : { predictor with
        storeList := predictor.storeList.filter (·.1 ≠ issuedSeqNum) }.storeSet? issuedPC =
          predictor.storeSet? issuedPC := rfl
    simp only [↓reduceIte, same, Bool.true_and]
    cases found : predictor.storeSet? issuedPC with
    | none => simp
    | some own =>
      by_cases here : set = own
      · subst here
        by_cases names : predictor.validLFST set = true ∧ predictor.LFST set = issuedSeqNum
        · simp [names]
        · simp only [Bool.and_eq_true, beq_iff_eq]
          rcases Classical.not_and_iff_not_or_not.mp names with invalid | other
          · simp [invalid]
          · simp [other]
      · have different : (some own == some set) = false := by
          simpa using fun same => here same.symm
        dsimp only
        split
        · simp [here, different]
        · simp [different]

/-- Every entry younger than the squash is erased, and the set it belongs to loses its
last store. -/
theorem squashLoop_eq {LFST : Fin params.LFSTSize → Nat} {squashedNum : Nat}
    {list : List (Nat × Fin params.LFSTSize)} (validLFST : Fin params.LFSTSize → Bool)
    (falling : list.Pairwise fun younger older => older.1 < younger.1)
    (bounded : ∀ entry ∈ list, entry.1 ≤ LFST entry.2) :
    squashLoop LFST squashedNum list validLFST =
      .ok (list.filter (·.1 ≤ squashedNum), fun set =>
        validLFST set && !list.any fun entry => squashedNum < entry.1 && entry.2 == set) := by
  induction list generalizing validLFST with
  | nil => simp [squashLoop]
  | cons entry older ih =>
    obtain ⟨seqNum, idx⟩ := entry
    obtain ⟨below, falling⟩ := pairwise_cons.mp falling
    unfold squashLoop
    by_cases kept : seqNum ≤ squashedNum
    · have oldKept : ∀ entry ∈ older, entry.1 ≤ squashedNum := fun entry member =>
        Nat.le_trans (Nat.le_of_lt (below entry member)) kept
      have allKept : ∀ entry ∈ (seqNum, idx) :: older, entry.1 ≤ squashedNum :=
        forall_mem_cons.mpr ⟨kept, oldKept⟩
      rw [if_pos kept, filter_eq_self.mpr fun entry member =>
        decide_eq_true (allKept entry member)]
      have untouched : ∀ set, ((seqNum, idx) :: older).any
          (fun entry => squashedNum < entry.1 && entry.2 == set) = false := by
        intro set
        refine any_eq_false.mpr fun entry member => ?_
        simp [Nat.not_lt.mpr (allKept entry member)]
      simp [untouched]
    · have young : squashedNum < seqNum := Nat.not_le.mp kept
      have last : squashedNum < LFST idx :=
        Nat.lt_of_lt_of_le young (bounded _ mem_cons_self)
      have rest := fun validLFST => ih validLFST falling fun entry member =>
        bounded entry (mem_cons_of_mem _ member)
      rw [if_neg kept, filter_cons_of_neg (by simpa using young)]
      cases valid : validLFST idx with
      | true =>
        simp only [last, decide_true, Bool.and_self, ↓reduceIte, rest]
        refine congrArg (fun table => Except.ok (_, table)) (funext fun set => ?_)
        by_cases here : set = idx
        · simp [here, young]
        · have different : (idx == set) = false := by simpa using Ne.symm here
          simp [here, different]
      | false =>
        simp only [last, decide_true, Bool.and_true, Bool.not_false, Bool.false_eq_true,
          ↓reduceIte, rest]
        refine congrArg (fun table => Except.ok (_, table)) (funext fun set => ?_)
        by_cases here : set = idx
        · simp [here, valid]
        · have different : (idx == set) = false := by simpa using Ne.symm here
          simp [different]

theorem squash_eq {squashedNum : Nat}
    (falling : predictor.storeList.Pairwise fun younger older => older.1 < younger.1)
    (bounded : ∀ entry ∈ predictor.storeList, entry.1 ≤ predictor.LFST entry.2) :
    predictor.squash squashedNum = .ok { predictor with
      storeList := predictor.storeList.filter (·.1 ≤ squashedNum)
      validLFST := fun set => predictor.validLFST set &&
        !predictor.storeList.any fun entry => squashedNum < entry.1 && entry.2 == set } := by
  unfold squash
  rw [squashLoop_eq _ falling bounded]

theorem checkInst_cases (predictor : StoreSet params) (pc : Nat) :
    predictor.checkInst pc = 0 ∨
      ∃ set, predictor.validLFST set = true ∧ predictor.checkInst pc = predictor.LFST set := by
  unfold checkInst
  split
  · exact .inl rfl
  · next set _ =>
    by_cases valid : predictor.validLFST set = true
    · rw [if_pos valid]
      exact .inr ⟨set, valid, rfl⟩
    · rw [if_neg valid]
      exact .inl rfl

end StoreSet

/-! ## Invariants of the runs -/

namespace Run

open Library

variable {params : StoreSetParams} {run next : Run params}

def Known (run : Run params) (seqNum : Nat) : Prop :=
  seqNum ∈ run.inserted.map PredInst.seqNum

/-- What holds in every run. The last clause keeps the loop of `squash` going. -/
structure Inv (run : Run params) : Prop where
  issued : ∀ seqNum ∈ run.issued, run.Known seqNum
  squashed : ∀ seqNum ∈ run.squashed, run.Known seqNum
  named : ∀ set, run.predictor.validLFST set = true → run.Known (run.predictor.LFST set)
  listed : ∀ entry ∈ run.predictor.storeList, run.Known entry.1
  falling : run.predictor.storeList.Pairwise fun younger older => older.1 < younger.1
  bounded : ∀ entry ∈ run.predictor.storeList, entry.1 ≤ run.predictor.LFST entry.2

theorem inv_initial : ({} : Run params).Inv where
  issued := fun _ member => absurd member not_mem_nil
  squashed := fun _ member => absurd member not_mem_nil
  named := fun _ valid => absurd valid Bool.false_ne_true
  listed := fun _ member => absurd member not_mem_nil
  falling := .nil
  bounded := fun _ member => absurd member not_mem_nil

theorem Inv.shrink (inv : run.Inv) (known : ∀ seqNum, run.Known seqNum → next.Known seqNum)
    (issued : ∀ seqNum ∈ next.issued, next.Known seqNum)
    (squashed : ∀ seqNum ∈ next.squashed, next.Known seqNum)
    (LFST : next.predictor.LFST = run.predictor.LFST)
    (valid : ∀ set, next.predictor.validLFST set = true → run.predictor.validLFST set = true)
    (list : next.predictor.storeList.Sublist run.predictor.storeList) : next.Inv where
  issued := issued
  squashed := squashed
  named := by
    intro set validNext
    rw [LFST]
    exact known _ (inv.named set (valid set validNext))
  listed := fun entry member => known _ (inv.listed entry (list.subset member))
  falling := inv.falling.sublist list
  bounded := by
    intro entry member
    rw [LFST]
    exact inv.bounded entry (list.subset member)

variable {seqNum : Nat}

theorem Inv.extend (inv : run.Inv) {set : Fin params.LFSTSize}
    (known : ∀ seqNum, run.Known seqNum → next.Known seqNum) (newest : next.Known seqNum)
    (above : ∀ other, run.Known other → other < seqNum)
    (issued : next.issued = run.issued) (squashed : next.squashed = run.squashed)
    (LFST : next.predictor.LFST = update run.predictor.LFST set seqNum)
    (valid : next.predictor.validLFST = update run.predictor.validLFST set true)
    (list : next.predictor.storeList = (seqNum, set) :: run.predictor.storeList) : next.Inv where
  issued := fun other member => known _ (inv.issued other (issued ▸ member))
  squashed := fun other member => known _ (inv.squashed other (squashed ▸ member))
  named := by
    intro other validNext
    rw [valid] at validNext
    rw [LFST]
    by_cases here : other = set
    · rw [here, update_self]
      exact newest
    · rw [update_of_ne here] at validNext ⊢
      exact known _ (inv.named other validNext)
  listed := by
    rw [list]
    exact forall_mem_cons.mpr ⟨newest, fun entry member => known _ (inv.listed entry member)⟩
  falling := by
    rw [list]
    exact inv.falling.cons fun entry member => above _ (inv.listed entry member)
  bounded := by
    rw [list, LFST]
    refine forall_mem_cons.mpr ⟨?_, ?_⟩
    · simp only [update_self, Nat.le_refl]
    · intro entry member
      by_cases here : entry.2 = set
      · rw [here, update_self]
        exact Nat.le_of_lt (above _ (inv.listed entry member))
      · rw [update_of_ne here]
        exact inv.bounded entry member

theorem known_insert {inst : PredInst} (inserted : next.inserted = run.inserted ++ [inst]) :
    next.Known seqNum ↔ run.Known seqNum ∨ seqNum = inst.seqNum := by
  unfold Known
  rw [inserted]
  simp

theorem insert_newest {inst : PredInst} (newest : run.inserted.all (·.seqNum < inst.seqNum) = true)
    (known : run.Known seqNum) : seqNum < inst.seqNum := by
  obtain ⟨other, member, rfl⟩ := mem_map.mp known
  exact of_decide_eq_true (all_eq_true.mp newest other member)

theorem step_inv {event : PredEvent} (inv : run.Inv) (stepped : run.step event = some next) :
    next.Inv := by
  cases event with
  | insert inst =>
    obtain ⟨admitted, rfl⟩ := fired stepped
    have newest := (Bool.and_eq_true_iff.mp admitted).2
    have known : ∀ seqNum, run.Known seqNum → Known { run with
        inserted := run.inserted ++ [inst] } seqNum :=
      fun _ known => (known_insert rfl).mpr (.inl known)
    have issued := fun seqNum member => known seqNum (inv.issued seqNum member)
    have squashed := fun seqNum member => known seqNum (inv.squashed seqNum member)
    rcases run.predictor.insertStore_cases inst.instAddr inst.seqNum with
      ⟨LFST, valid, list⟩ | ⟨LFST, valid, list⟩ | ⟨set, LFST, valid, list⟩
    · refine inv.shrink known issued squashed LFST ?_ (list ▸ nil_sublist _)
      intro set validNext
      exact clash (valid set) validNext
    · exact inv.shrink known issued squashed LFST (fun set => by rw [valid]; exact id)
        (list ▸ .refl _)
    · rw [assign_newest fun entry member => insert_newest newest (inv.listed entry member)] at list
      exact inv.extend known ((known_insert rfl).mpr (.inr rfl))
        (fun _ => insert_newest newest) rfl rfl LFST valid list
  | violation storePC loadPC =>
    cases stepped
    obtain ⟨LFST, valid, list⟩ := run.predictor.violation_tables storePC loadPC
    exact inv.shrink (fun _ known => known) inv.issued inv.squashed LFST
      (fun set => by rw [valid]; exact id) (list ▸ .refl _)
  | issue inst =>
    obtain ⟨member, rfl⟩ := fired stepped
    refine inv.shrink (fun _ known => known) ?_ inv.squashed (run.predictor.issued_LFST ..) ?_ ?_
    · intro seqNum issued
      rcases mem_append.mp issued with before | now
      · exact inv.issued seqNum before
      · rw [mem_singleton.mp now]
        exact mem_map_of_mem member
    · intro set valid
      rw [StoreSet.issued_validLFST] at valid
      exact (Bool.and_eq_true_iff.mp valid).1
    · rw [StoreSet.issued_storeList]
      split
      · exact filter_sublist
      · exact .refl _
  | squash squashedNum =>
    simp only [step, StoreSet.squash_eq inv.falling inv.bounded, Option.some.injEq] at stepped
    subst stepped
    refine inv.shrink (fun _ known => known) inv.issued ?_ rfl ?_ filter_sublist
    · intro seqNum squashed
      rcases mem_append.mp squashed with before | now
      · exact inv.squashed seqNum before
      · exact (mem_filter.mp now).1
    · intro set valid
      exact (Bool.and_eq_true_iff.mp valid).1
  | clear =>
    cases stepped
    exact inv.shrink (fun _ known => known) inv.issued inv.squashed rfl
      (fun _ valid => absurd valid Bool.false_ne_true) (nil_sublist _)

/-- Every valid LFST entry names a live store that the list has under the same set. -/
def LastFetched (run : Run params) : Prop :=
  ∀ set, run.predictor.validLFST set = true →
    (run.predictor.LFST set, set) ∈ run.predictor.storeList ∧ run.Live (run.predictor.LFST set)

theorem step_lastFetched {event : PredEvent} (inv : run.Inv) (last : run.LastFetched)
    (admitted : run.issuesInOwnSet event = true) (stepped : run.step event = some next) :
    next.LastFetched := by
  cases event with
  | insert inst =>
    obtain ⟨admitted, rfl⟩ := fired stepped
    have newest := (Bool.and_eq_true_iff.mp admitted).2
    have live : ∀ seqNum, run.Live seqNum → Live { run with
        inserted := run.inserted ++ [inst] } seqNum :=
      fun _ live => ⟨(known_insert rfl).mpr (.inl live.1), live.2⟩
    intro set validNext
    rcases run.predictor.insertStore_cases inst.instAddr inst.seqNum with
      ⟨-, valid, -⟩ | ⟨LFST, valid, list⟩ | ⟨own, LFST, valid, list⟩
    · exact clash (valid set) validNext
    · dsimp only at validNext ⊢
      rw [valid] at validNext
      rw [LFST, list]
      exact (last set validNext).imp id (live _)
    · dsimp only at validNext ⊢
      rw [valid] at validNext
      rw [assign_newest fun entry member => insert_newest newest (inv.listed entry member)] at list
      rw [LFST, list]
      by_cases here : set = own
      · rw [here, update_self]
        refine ⟨mem_cons_self, (known_insert rfl).mpr (.inr rfl), ?_, ?_⟩
        · intro issued
          exact Nat.lt_irrefl _ (insert_newest newest (inv.issued _ issued))
        · intro squashed
          exact Nat.lt_irrefl _ (insert_newest newest (inv.squashed _ squashed))
      · rw [update_of_ne here] at validNext ⊢
        exact (last set validNext).imp (mem_cons_of_mem _) (live _)
  | violation storePC loadPC =>
    cases stepped
    obtain ⟨LFST, valid, list⟩ := run.predictor.violation_tables storePC loadPC
    intro set validNext
    rw [valid] at validNext
    rw [LFST, list]
    exact last set validNext
  | issue inst =>
    obtain ⟨member, rfl⟩ := fired stepped
    intro set validNext
    dsimp only at validNext ⊢
    rw [StoreSet.issued_validLFST, Bool.and_eq_true_iff, Bool.not_eq_true'] at validNext
    obtain ⟨valid, untouched⟩ := validNext
    obtain ⟨listed, known, notIssued, notSquashed⟩ := last set valid
    -- Had the entry named the instruction, it would have been taken back.
    have other : run.predictor.LFST set ≠ inst.seqNum := by
      intro named
      obtain ⟨isStore, own⟩ := of_decide_eq_true admitted set valid named
      simp [isStore, own, named] at untouched
    rw [StoreSet.issued_LFST, StoreSet.issued_storeList]
    refine ⟨?_, known, ?_, notSquashed⟩
    · split
      · exact mem_filter.mpr ⟨listed, decide_eq_true other⟩
      · exact listed
    · intro issued
      rcases mem_append.mp issued with before | now
      · exact notIssued before
      · exact other (mem_singleton.mp now)
  | squash squashedNum =>
    simp only [step, StoreSet.squash_eq inv.falling inv.bounded, Option.some.injEq] at stepped
    subst stepped
    intro set validNext
    obtain ⟨valid, untouched⟩ := Bool.and_eq_true_iff.mp validNext
    obtain ⟨listed, known, notIssued, notSquashed⟩ := last set valid
    have kept : run.predictor.LFST set ≤ squashedNum := by
      rw [Bool.not_eq_true', any_eq_false] at untouched
      simpa using untouched _ listed
    refine ⟨mem_filter.mpr ⟨listed, decide_eq_true kept⟩, known, notIssued, ?_⟩
    intro squashed
    rcases mem_append.mp squashed with before | now
    · exact notSquashed before
    · exact absurd kept (Nat.not_le.mpr (of_decide_eq_true (mem_filter.mp now).2))
  | clear =>
    cases stepped
    exact fun _ valid => absurd valid Bool.false_ne_true

theorem reachable_inv {allowed : Run params → PredEvent → Bool}
    (reached : Reaches step allowed {} run) : run.Inv :=
  reached.invariant inv_initial fun inv _ stepped => step_inv inv stepped

theorem checkInst_live (reached : Reaches step issuesInOwnSet {} run) (pc : Nat) :
    run.predictor.checkInst pc = 0 ∨ run.Live (run.predictor.checkInst pc) := by
  have both : run.Inv ∧ run.LastFetched := by
    induction reached with
    | refl => exact ⟨inv_initial, fun _ valid => absurd valid Bool.false_ne_true⟩
    | tail _ admitted stepped ih =>
      exact ⟨step_inv ih.1 stepped, step_lastFetched ih.1 ih.2 admitted stepped⟩
  rcases run.predictor.checkInst_cases pc with none | ⟨set, valid, same⟩
  · exact .inl none
  · rw [same]
    exact .inr (both.2 set valid).2

def smallTables : StoreSetParams where
  clearPeriod := 250000
  SSITSize := 64
  LFSTSize := 16
  someSSIT := by decide
  someLFST := by decide

def firstStore : PredInst := { seqNum := 10, instAddr := 0x40, isStore := true }
def secondStore : PredInst := { seqNum := 11, instAddr := 0x40, isStore := true }
def someAtomic : PredInst := { seqNum := 10, instAddr := 0x40, isAtomic := true }

/-- The load is told to wait for the younger of two stores. -/
theorem checkInst_live_secondStore :
    ∃ run : Run smallTables, run.predictor.checkInst 0x108 = 11 ∧ run.Live 11 := by
  obtain ⟨run, reached, observed⟩ := reaches_of_observed step issuesInOwnSet ({} : Run smallTables)
    [.violation 0x40 0x108, .insert firstStore, .insert secondStore, .issue firstStore]
    (fun run => decide (run.predictor.checkInst 0x108 = 11)) (by decide +kernel)
  have named : run.predictor.checkInst 0x108 = 11 := of_decide_eq_true observed
  have live := checkInst_live reached 0x108
  rw [named] at live
  exact ⟨run, named, live.resolve_left (by decide)⟩

/-- Whatever sets an earlier iteration has emptied, each younger entry is erased by one of
the two cases, so the loop of `squash` comes to an end. -/
theorem squash_erases_younger (reached : Reaches step anyEvent {} run) (squashedNum : Nat) :
    (∀ entry ∈ run.predictor.storeList, squashedNum < entry.1 →
      ∀ validLFST : Fin params.LFSTSize → Bool,
        (validLFST entry.2 = true ∧ squashedNum < run.predictor.LFST entry.2) ∨
        (validLFST entry.2 = false ∧ squashedNum < run.predictor.LFST entry.2)) ∧
    ∃ predictor, run.predictor.squash squashedNum = .ok predictor ∧
      predictor.storeList = run.predictor.storeList.filter (·.1 ≤ squashedNum) := by
  have inv := reachable_inv reached
  refine ⟨fun entry member young validLFST => ?_, ?_⟩
  · have last := Nat.lt_of_lt_of_le young (inv.bounded entry member)
    cases valid : validLFST entry.2 with
    | true => exact .inl ⟨rfl, last⟩
    | false => exact .inr ⟨rfl, last⟩
  · exact ⟨_, StoreSet.squash_eq inv.falling inv.bounded, rfl⟩

theorem squash_erases_secondStore :
    ∃ run : Run smallTables, run.predictor.storeList.map Prod.fst = [11, 10] ∧
      ∃ predictor, run.predictor.squash 10 = .ok predictor ∧
        predictor.storeList.map Prod.fst = [10] := by
  obtain ⟨run, reached, observed⟩ := reaches_of_observed step anyEvent ({} : Run smallTables)
    [.violation 0x40 0x108, .insert firstStore, .insert secondStore]
    (fun run => decide (run.predictor.storeList.map Prod.fst = [11, 10] ∧
      (run.predictor.storeList.filter (·.1 ≤ 10)).map Prod.fst = [10])) (by decide +kernel)
  obtain ⟨listed, kept⟩ := of_decide_eq_true observed
  obtain ⟨predictor, squashed, same⟩ := (squash_erases_younger reached 10).2
  exact ⟨run, listed, predictor, squashed, same ▸ kept⟩

/-- Between its insertion and its issue the PC of a store is moved to another set by a
violation of an older store at the same PC, and the entry of its former set stays. An
atomic is inserted like a store, but its issue is ignored. -/
theorem checkInst_live_fails :
    (∃ run : Run smallTables, Reaches step anyEvent {} run ∧
      run.predictor.checkInst 0x108 = 11 ∧ 11 ∈ run.issued) ∧
    ∃ run : Run smallTables, Reaches step anyEvent {} run ∧
      run.predictor.checkInst 0x108 = 10 ∧ 10 ∈ run.issued := by
  constructor
  · obtain ⟨run, reached, observed⟩ := reaches_of_observed step anyEvent ({} : Run smallTables)
      [.violation 0x40 0x108, .violation 0x44 0x204, .insert firstStore, .insert secondStore,
        .issue firstStore, .violation 0x40 0x204, .squash 11, .issue secondStore]
      (fun run => decide (run.predictor.checkInst 0x108 = 11 ∧ 11 ∈ run.issued))
      (by decide +kernel)
    exact ⟨run, reached, of_decide_eq_true observed⟩
  · obtain ⟨run, reached, observed⟩ := reaches_of_observed step anyEvent ({} : Run smallTables)
      [.violation 0x40 0x108, .insert someAtomic, .issue someAtomic]
      (fun run => decide (run.predictor.checkInst 0x108 = 10 ∧ 10 ∈ run.issued))
      (by decide +kernel)
    exact ⟨run, reached, of_decide_eq_true observed⟩

end Run

end Runahead.O3.StoreSets
