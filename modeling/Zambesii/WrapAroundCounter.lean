import Mathlib.Algebra.Order.Group.Int
import Zambesii.Runs

/-!
`WrapAroundCounter`: the next free index of a caller's array, searched for from
a cursor that moves on and wraps. A `sarch_t` is an `Int`; where the source's
signed arithmetic would go past `sarchMax` the call has no result.
-/

namespace Zambesii.WrapAroundCounter

open List Runs

/-- The largest `sarch_t` of the 32-bit build. -/
def sarchMax : Int := 2 ^ 31 - 1

structure Counter where
  startVal : Int
  maxVal : Int
  nextVal : Int
deriving DecidableEq

def construct (maxVal startVal : Int) : Counter :=
  ⟨startVal, maxVal, startVal⟩

section

variable {T : Type}

/-- The loop with `left` values of `i` to go: the slots it reads and the one it stops at.
A slot of `arr` that holds NULL is `none`. -/
def searchFrom (arr : Int → Option T) : Nat → Int → Option (List Int × Option Int)
  | 0, _ => some ([], none)
  | left + 1, i =>
    match arr i with
    | none => some ([i], some i)
    | some _ =>
      -- `i++`
      if i = sarchMax then none
      else
        match searchFrom arr left (i + 1) with
        | none => none
        | some (reads, found) => some (i :: reads, found)

def tryNextValue (counter : Counter) (arr : Int → Option T) :
    Option (List Int × Option Int × Counter) :=
  match searchFrom arr (counter.maxVal + 1 - counter.nextVal).toNat counter.nextVal with
  | none => none
  | some (reads, some i) =>
    if i = sarchMax then none
    else some (reads, some i, { counter with nextVal := i + 1 })
  | some (reads, none) => some (reads, none, { counter with nextVal := counter.startVal })

structure Answer where
  value : Int
  reads : List Int
deriving DecidableEq

/-- `getNextValue`, the call with `secondTry` set included. -/
def getNextValue (counter : Counter) (arr : Int → Option T) : Option (Answer × Counter) :=
  match tryNextValue counter arr with
  | none => none
  | some (reads, some i, next) => some (⟨i, reads⟩, next)
  | some (reads, none, next) =>
    match tryNextValue next arr with
    | none => none
    | some (reads', some i, last) => some (⟨i, reads ++ reads'⟩, last)
    | some (reads', none, last) => some (⟨-1, reads ++ reads'⟩, last)

def setMaxVal (counter : Counter) (newMaxVal : Int) : Counter :=
  { counter with maxVal := newMaxVal }

structure State (T : Type) where
  counter : Counter
  arr : Int → Option T

inductive Call (T : Type) where
  | getNextValue
  | store (index : Int) (item : Option T)
  | setMaxVal (newMaxVal : Int)

def step (state : State T) : Call T → Option (Option Answer × State T)
  | .getNextValue =>
    match getNextValue state.counter state.arr with
    | none => none
    | some (answer, next) => some (some answer, { state with counter := next })
  | .store index item =>
    some (none, { state with arr := Function.update state.arr index item })
  | .setMaxVal newMaxVal =>
    some (none, { state with counter := setMaxVal state.counter newMaxVal })

/-- `setMaxVal` raises the maximum. -/
def Legal (state : State T) : Call T → Prop
  | .setMaxVal newMaxVal => state.counter.maxVal ≤ newMaxVal ∧ newMaxVal ≤ sarchMax
  | _ => True

structure Right (state : State T) (answer : Answer) : Prop where
  reads : ∀ i ∈ answer.reads, state.counter.startVal ≤ i ∧ i ≤ state.counter.maxVal
  failed : answer.value = -1 ↔
    ∀ i, state.counter.startVal ≤ i → i ≤ state.counter.maxVal → state.arr i ≠ none
  found : answer.value ≠ -1 →
    state.counter.startVal ≤ answer.value ∧ answer.value ≤ state.counter.maxVal ∧
      state.arr answer.value = none

def Spec (state : State T) : Call T → Option Answer → State T → Prop
  | .getNextValue, some answer, _ => Right state answer
  | .getNextValue, none, _ => False
  | .store _ _, _, _ => True
  | .setMaxVal _, _, _ => True

/-- No slot from `first` up to the maximum is NULL. -/
def NoNull (state : State T) (first : Int) : Prop :=
  ∀ i, first ≤ i → i ≤ state.counter.maxVal → state.arr i ≠ none

/-- Slot `i` is the first one at or after `first` that is NULL. -/
structure FirstNull (state : State T) (first i : Int) : Prop where
  first_le : first ≤ i
  le_max : i ≤ state.counter.maxVal
  null : state.arr i = none
  before : ∀ j, first ≤ j → j < i → state.arr j ≠ none

/-- Where the maximum is `sarchMax`, a slot below it is NULL at or after the cursor. -/
def HasRoom (state : State T) : Prop :=
  state.counter.maxVal = sarchMax →
    ∃ i, state.counter.nextVal ≤ i ∧ i < sarchMax ∧ state.arr i = none

def NotMinusOne (state : State T) : Prop :=
  ¬FirstNull state state.counter.nextVal (-1) ∧
    (NoNull state state.counter.nextVal → ¬FirstNull state state.counter.startVal (-1))

def Good (state : State T) : Call T → Prop
  | .getNextValue => HasRoom state ∧ NotMinusOne state
  | _ => True

structure Sound (state : State T) : Prop where
  start_le_next : state.counter.startVal ≤ state.counter.nextVal
  next_le_max : state.counter.nextVal ≤ sarchMax
  max_le_max : state.counter.maxVal ≤ sarchMax

end

section

variable {T : Type}

theorem searchFrom_cases (arr : Int → Option T) (left : Nat) (first : Int)
    (hbound : first + left ≤ sarchMax + 1) :
    (∃ reads i, searchFrom arr left first = some (reads, some i) ∧
      (∀ j ∈ reads, first ≤ j ∧ j < first + left) ∧ first ≤ i ∧ i < first + left ∧
        arr i = none ∧ ∀ j, first ≤ j → j < i → arr j ≠ none) ∨
    (∃ reads, searchFrom arr left first = some (reads, none) ∧
      (∀ j ∈ reads, first ≤ j ∧ j < first + left) ∧ (first + left ≤ sarchMax ∨ left = 0) ∧
        ∀ j, first ≤ j → j < first + left → arr j ≠ none) ∨
    (searchFrom arr left first = none ∧ first + left = sarchMax + 1 ∧
      ∀ j, first ≤ j → j < first + left → arr j ≠ none) := by
  induction left generalizing first with
  | zero =>
    right; left
    refine ⟨[], rfl, ?_, .inr rfl, ?_⟩
    · intro j hj
      cases hj
    · intro j hle hlt
      omega
  | succ left ih =>
    rcases hslot : arr first with _ | item
    · left
      refine ⟨[first], first, ?_, ?_, le_refl _, by omega, hslot, ?_⟩
      · simp only [searchFrom, hslot]
      · intro j hj
        rw [mem_singleton.mp hj]
        omega
      · intro j hle hlt
        omega
    have hhead : arr first ≠ none := by
      rw [hslot]
      exact Option.some_ne_none item
    have hextend : ∀ stop : Int, (∀ j, first + 1 ≤ j → j < stop → arr j ≠ none) →
        ∀ j, first ≤ j → j < stop → arr j ≠ none := by
      intro stop hrest j hle hlt
      rcases eq_or_ne j first with rfl | hne
      · exact hhead
      · exact hrest j (by omega) hlt
    rcases eq_or_ne first sarchMax with hlast | hlast
    · right; right
      refine ⟨?_, by omega, ?_⟩
      · simp only [searchFrom, hslot]
        rw [if_pos hlast]
      · intro j hle hlt
        have hj : j = first := by omega
        rw [hj]
        exact hhead
    have hunfold : searchFrom arr (left + 1) first =
        match searchFrom arr left (first + 1) with
        | none => none
        | some (reads, found) => some (first :: reads, found) := by
      simp only [searchFrom, hslot]
      rw [if_neg hlast]
    rw [hunfold]
    have hreads : ∀ reads : List Int, (∀ j ∈ reads, first + 1 ≤ j ∧ j < first + 1 + left) →
        ∀ j ∈ first :: reads, first ≤ j ∧ j < first + (left + 1 : Nat) := by
      intro reads hrest j hj
      rcases mem_cons.mp hj with rfl | hj
      · omega
      · obtain ⟨hle, hlt⟩ := hrest j hj
        omega
    rcases ih (first + 1) (by omega) with
      ⟨reads, i, heq, hrest, hle, hlt, hnull, hbefore⟩ | ⟨reads, heq, hrest, hend, hnone⟩ |
        ⟨heq, hend, hnone⟩
    · left
      refine ⟨first :: reads, i, ?_, hreads reads hrest, by omega, by omega, hnull,
        hextend i hbefore⟩
      rw [heq]
    · right; left
      refine ⟨first :: reads, ?_, hreads reads hrest, by omega, ?_⟩
      · rw [heq]
      · intro j hle hlt
        exact hextend (first + 1 + left) hnone j hle (by omega)
    · right; right
      refine ⟨?_, by omega, ?_⟩
      · rw [heq]
      · intro j hle hlt
        exact hextend (first + 1 + left) hnone j hle (by omega)

theorem tryNextValue_cases (state : State T) (hnext : state.counter.nextVal ≤ sarchMax)
    (hmax : state.counter.maxVal ≤ sarchMax) :
    (∃ reads i, tryNextValue state.counter state.arr =
        some (reads, some i, { state.counter with nextVal := i + 1 }) ∧
      (∀ j ∈ reads, state.counter.nextVal ≤ j ∧ j ≤ state.counter.maxVal) ∧ i < sarchMax ∧
        FirstNull state state.counter.nextVal i) ∨
    (∃ reads, tryNextValue state.counter state.arr =
        some (reads, none, { state.counter with nextVal := state.counter.startVal }) ∧
      (∀ j ∈ reads, state.counter.nextVal ≤ j ∧ j ≤ state.counter.maxVal) ∧
        state.counter.maxVal < sarchMax ∧ NoNull state state.counter.nextVal) ∨
    (tryNextValue state.counter state.arr = none ∧ state.counter.maxVal = sarchMax ∧
      ∀ i, state.counter.nextVal ≤ i → i < sarchMax → state.arr i ≠ none) := by
  have hleft : ∀ j, state.counter.nextVal ≤ j →
      (j < state.counter.nextVal + (state.counter.maxVal + 1 - state.counter.nextVal).toNat ↔
        j ≤ state.counter.maxVal) := by
    intro j hle
    omega
  have hreads : ∀ reads : List Int, (∀ j ∈ reads, state.counter.nextVal ≤ j ∧
        j < state.counter.nextVal + (state.counter.maxVal + 1 - state.counter.nextVal).toNat) →
      ∀ j ∈ reads, state.counter.nextVal ≤ j ∧ j ≤ state.counter.maxVal := by
    intro reads h j hj
    exact ⟨(h j hj).1, (hleft j (h j hj).1).mp (h j hj).2⟩
  rcases searchFrom_cases state.arr (state.counter.maxVal + 1 - state.counter.nextVal).toNat
      state.counter.nextVal (by omega) with
    ⟨reads, i, heq, hread, hle, hlt, hnull, hbefore⟩ | ⟨reads, heq, hread, hend, hnone⟩ |
      ⟨heq, hend, hnone⟩
  · have hi := (hleft i hle).mp hlt
    rcases eq_or_ne i sarchMax with hlast | hlast
    · right; right
      refine ⟨?_, by omega, ?_⟩
      · simp only [tryNextValue, heq]
        rw [if_pos hlast]
      · intro j hj hj'
        exact hbefore j hj (by omega)
    · left
      refine ⟨reads, i, ?_, hreads reads hread, by omega, hle, hi, hnull, hbefore⟩
      simp only [tryNextValue, heq]
      rw [if_neg hlast]
  · right; left
    refine ⟨reads, ?_, hreads reads hread, by omega, ?_⟩
    · simp only [tryNextValue, heq]
    · intro j hj hj'
      exact hnone j hj ((hleft j hj).mpr hj')
  · right; right
    refine ⟨?_, by omega, ?_⟩
    · simp only [tryNextValue, heq]
    · intro j hj hj'
      exact hnone j hj ((hleft j hj).mpr (by omega))

theorem getNextValue_cases (state : State T) (hsound : Sound state) :
    (∃ answer nextVal, getNextValue state.counter state.arr =
        some (answer, { state.counter with nextVal := nextVal }) ∧
      HasRoom state ∧ state.counter.startVal ≤ nextVal ∧ nextVal ≤ sarchMax ∧
      (∀ j ∈ answer.reads, state.counter.startVal ≤ j ∧ j ≤ state.counter.maxVal) ∧
      (FirstNull state state.counter.nextVal answer.value ∨ (NoNull state state.counter.nextVal ∧
          FirstNull state state.counter.startVal answer.value) ∨
        (NoNull state state.counter.startVal ∧ answer.value = -1))) ∨
    (getNextValue state.counter state.arr = none ∧ ¬HasRoom state) := by
  obtain ⟨hstart, hnext, hmax⟩ := hsound
  rcases tryNextValue_cases state hnext hmax with
    ⟨reads, i, heq, hreads, hlt, hfirst⟩ | ⟨reads, heq, hreads, hlt, hnone⟩ | ⟨heq, hlast, hnone⟩
  · left
    have hle := hfirst.first_le
    refine ⟨⟨i, reads⟩, i + 1, ?_, ?_, by omega, by omega, ?_, .inl hfirst⟩
    · simp only [getNextValue, heq]
    · intro _
      exact ⟨i, hle, hlt, hfirst.null⟩
    · intro j hj
      exact ⟨hstart.trans (hreads j hj).1, (hreads j hj).2⟩
  · have hroom : HasRoom state := fun h => absurd h hlt.ne
    have hwrapped := tryNextValue_cases
      { state with counter := { state.counter with nextVal := state.counter.startVal } }
      (hstart.trans hnext) hmax
    have hboth : ∀ reads' : List Int,
        (∀ j ∈ reads', state.counter.startVal ≤ j ∧ j ≤ state.counter.maxVal) →
        ∀ j ∈ reads ++ reads', state.counter.startVal ≤ j ∧ j ≤ state.counter.maxVal := by
      intro reads' hreads' j hj
      rcases mem_append.mp hj with hj | hj
      · exact ⟨hstart.trans (hreads j hj).1, (hreads j hj).2⟩
      · exact hreads' j hj
    rcases hwrapped with ⟨reads', i, heq', hreads', hlt', hfirst⟩ |
      ⟨reads', heq', hreads', -, hnone'⟩ | ⟨-, hlast, -⟩
    · left
      have hle : state.counter.startVal ≤ i := hfirst.first_le
      refine ⟨⟨i, reads ++ reads'⟩, i + 1, ?_, hroom, by omega, by omega, hboth reads' hreads',
        .inr (.inl ⟨hnone, hle, hfirst.le_max, hfirst.null, hfirst.before⟩)⟩
      simp only [getNextValue, heq, heq']
    · left
      refine ⟨⟨-1, reads ++ reads'⟩, state.counter.startVal, ?_, hroom, le_refl _,
        hstart.trans hnext, hboth reads' hreads', .inr (.inr ⟨hnone', rfl⟩)⟩
      simp only [getNextValue, heq, heq']
    · exact absurd hlast hlt.ne
  · right
    refine ⟨?_, ?_⟩
    · simp only [getNextValue, heq]
    · intro hroom
      obtain ⟨i, hle, hlt, hnull⟩ := hroom hlast
      exact hnone i hle hlt hnull

end

section

variable {T : Type} {state : State T} {call : Call T}

theorem FirstNull.unique {first i j : Int} (hi : FirstNull state first i)
    (hj : FirstNull state first j) : i = j := by
  rcases lt_trichotomy i j with hlt | heq | hlt
  · exact absurd hi.null (hj.before i hi.first_le hlt)
  · exact heq
  · exact absurd hj.null (hi.before j hj.first_le hlt)

theorem right_iff {answer : Answer} (hsound : Sound state)
    (hreads : ∀ j ∈ answer.reads, state.counter.startVal ≤ j ∧ j ≤ state.counter.maxVal)
    (hvalue : FirstNull state state.counter.nextVal answer.value ∨
      (NoNull state state.counter.nextVal ∧ FirstNull state state.counter.startVal answer.value) ∨
      (NoNull state state.counter.startVal ∧ answer.value = -1)) :
    Right state answer ↔ NotMinusOne state := by
  have hstart := hsound.start_le_next
  -- a slot that was found: the answer is right unless it is -1
  have hfound : state.counter.startVal ≤ answer.value → answer.value ≤ state.counter.maxVal →
      state.arr answer.value = none → (Right state answer ↔ answer.value ≠ -1) := by
    intro hle hmax hnull
    constructor
    · intro hright hminus
      exact hright.failed.mp hminus answer.value hle hmax hnull
    · intro hne
      refine ⟨hreads, ?_, ?_⟩
      · constructor
        · intro heq
          exact absurd heq hne
        · intro hnone
          exact absurd hnull (hnone answer.value hle hmax)
      · intro _
        exact ⟨hle, hmax, hnull⟩
  rcases hvalue with hfirst | ⟨hnone, hfirst⟩ | ⟨hnone, hminus⟩
  · rw [hfound (hstart.trans hfirst.first_le) hfirst.le_max hfirst.null]
    constructor
    · intro hne
      refine ⟨?_, ?_⟩
      · intro h
        exact hne (hfirst.unique h)
      · intro hnone
        exact absurd hfirst.null (hnone answer.value hfirst.first_le hfirst.le_max)
    · rintro ⟨hnot, -⟩ heq
      rw [heq] at hfirst
      exact hnot hfirst
  · rw [hfound hfirst.first_le hfirst.le_max hfirst.null]
    constructor
    · intro hne
      refine ⟨?_, ?_⟩
      · intro h
        exact hnone (-1) h.first_le h.le_max h.null
      · intro _ h
        exact hne (hfirst.unique h)
    · rintro ⟨-, hnot⟩ heq
      rw [heq] at hfirst
      exact hnot hnone hfirst
  · constructor
    · intro _
      refine ⟨?_, ?_⟩
      · intro h
        exact hnone (-1) (hstart.trans h.first_le) h.le_max h.null
      · intro _ h
        exact hnone (-1) h.first_le h.le_max h.null
    · intro _
      refine ⟨hreads, ?_, ?_⟩
      · constructor
        · intro _
          exact hnone
        · intro _
          exact hminus
      · intro hne
        exact absurd hminus hne

theorem step_good (hsound : Sound state) (hlegal : Legal state call) (hgood : Good state call) :
    ∃ result next, step state call = some (result, next) ∧ Spec state call result next ∧
      Sound next := by
  obtain ⟨hstart, hnext, hmax⟩ := hsound
  cases call with
  | getNextValue =>
    rcases getNextValue_cases state ⟨hstart, hnext, hmax⟩ with
      ⟨answer, nextVal, heq, -, hstart', hnext', hreads, hvalue⟩ | ⟨-, hnot⟩
    · refine ⟨some answer, { state with counter := { state.counter with nextVal := nextVal } },
        ?_, ?_, hstart', hnext', hmax⟩
      · simp only [step, heq]
      · exact (right_iff ⟨hstart, hnext, hmax⟩ hreads hvalue).mpr hgood.2
    · exact absurd hgood.1 hnot
  | store index item => exact ⟨none, _, rfl, trivial, hstart, hnext, hmax⟩
  | setMaxVal newMaxVal => exact ⟨none, _, rfl, trivial, hstart, hnext, hlegal.2⟩

theorem step_bad {next : State T} {result : Option Answer} (hsound : Sound state)
    (hbad : ¬Good state call) (hstep : step state call = some (result, next)) :
    ¬Spec state call result next := by
  cases call with
  | getNextValue =>
    rcases getNextValue_cases state hsound with
      ⟨answer, nextVal, heq, hroom, -, -, hreads, hvalue⟩ | ⟨heq, -⟩
    · simp only [step, heq, Option.some.injEq, Prod.mk.injEq] at hstep
      obtain ⟨rfl, rfl⟩ := hstep
      intro hright
      exact hbad ⟨hroom, (right_iff hsound hreads hvalue).mp hright⟩
    · simp only [step, heq] at hstep
      cases hstep
  | store index item => exact absurd trivial hbad
  | setMaxVal newMaxVal => exact absurd trivial hbad

theorem meets_iff {calls : List (Call T)} (hsound : Sound state)
    (hlegal : Guarded step Legal state calls) :
    Meets step Spec state calls ↔ Guarded step Good state calls := by
  refine @meets_iff_guarded_of_faults _ _ _ _ _ _ Sound Legal _ ?_ ?_ _ hsound hlegal
  · intro state call hsound hlegal hgood
    exact step_good hsound hlegal hgood
  · intro state call result next hsound _ hbad hstep
    exact step_bad hsound hbad hstep

/-- The counter does what is asked of it in exactly the runs whose searches neither need a
slot past the last `sarch_t` nor find slot -1. -/
theorem getNextValue_right_iff (maxVal startVal : Int) (arr : Int → Option T)
    (calls : List (Call T)) (hstart : startVal ≤ sarchMax) (hmax : maxVal ≤ sarchMax)
    (hlegal : Guarded step Legal ⟨construct maxVal startVal, arr⟩ calls) :
    Meets step Spec ⟨construct maxVal startVal, arr⟩ calls ↔
      Guarded step Good ⟨construct maxVal startVal, arr⟩ calls := by
  have hsound : Sound (⟨construct maxVal startVal, arr⟩ : State T) := ⟨le_refl _, hstart, hmax⟩
  exact meets_iff hsound hlegal

theorem getNextValue_right_iff_raised :
    Guarded step Legal ⟨construct 1 0, fun _ => (none : Option Unit)⟩
        [.getNextValue, .store 0 (some ()), .setMaxVal 2, .getNextValue] ∧
      (Meets step Spec ⟨construct 1 0, fun _ => (none : Option Unit)⟩
          [.getNextValue, .store 0 (some ()), .setMaxVal 2, .getNextValue] ↔
        Guarded step Good ⟨construct 1 0, fun _ => (none : Option Unit)⟩
          [.getNextValue, .store 0 (some ()), .setMaxVal 2, .getNextValue]) := by
  have hlegal : Guarded step Legal ⟨construct 1 0, fun _ => (none : Option Unit)⟩
      [.getNextValue, .store 0 (some ()), .setMaxVal 2, .getNextValue] := by
    refine ⟨trivial, fun _ _ h => ⟨trivial, fun _ _ h' => ⟨?_, fun _ _ _ => ⟨trivial, ?_⟩⟩⟩⟩
    · cases h
      cases h'
      exact ⟨by decide, by decide⟩
    · intro _ _ _
      trivial
  exact ⟨hlegal, getNextValue_right_iff 1 0 _ _ (by decide) (by decide) hlegal⟩

/-- A search goes on from the cursor without coming to the end. -/
def GoesOn (state : State T) : Call T → Prop
  | .getNextValue => ¬NoNull state state.counter.nextVal
  | _ => True

def values (results : List (Option Answer)) : List Int :=
  results.filterMap fun result => result.map Answer.value

theorem values_increase {calls : List (Call T)} {results : List (Option Answer)} {last : State T}
    (hsound : Sound state) (hlegal : Guarded step Legal state calls)
    (hgoesOn : Guarded step GoesOn state calls) (hrun : run step state calls = some (results, last)) :
    (values results).Pairwise (· < ·) ∧ ∀ value ∈ values results, state.counter.nextVal ≤ value := by
  induction calls generalizing state results with
  | nil =>
    cases hrun
    exact ⟨.nil, nofun⟩
  | cons call calls ih =>
    unfold run at hrun
    split at hrun
    · cases hrun
    next result next hstep =>
    split at hrun
    · cases hrun
    next rest after hrest =>
    cases hrun
    obtain ⟨hstart, hnext, hmax⟩ := hsound
    have ih := fun hsound => @ih next rest hsound (hlegal.2 result next hstep)
      (hgoesOn.2 result next hstep) hrest
    cases call with
    | getNextValue =>
      rcases tryNextValue_cases state hnext hmax with
        ⟨reads, i, heq, -, hlt, hfirst⟩ | ⟨-, -, -, -, hnone⟩ | ⟨heq, -⟩
      · simp only [step, getNextValue, heq] at hstep
        cases hstep
        have hle := hfirst.first_le
        obtain ⟨hincrease, hbeyond⟩ := ih ⟨by dsimp only; omega, hlt, hmax⟩
        refine ⟨pairwise_cons.mpr ⟨hbeyond, hincrease⟩, forall_mem_cons.mpr ⟨hle, ?_⟩⟩
        intro value hvalue
        have hbeyond := hbeyond value hvalue
        dsimp only at hbeyond
        omega
      · exact absurd hnone hgoesOn.1
      · simp only [step, getNextValue, heq] at hstep
        cases hstep
    | store index item =>
      cases hstep
      exact ih ⟨hstart, hnext, hmax⟩
    | setMaxVal newMaxVal =>
      cases hstep
      exact ih ⟨hstart, hnext, hlegal.1.2⟩

/-- Until a search comes to the end and begins again, every index that is handed out is greater than
those before it: none is handed out twice, and none that was freed meanwhile. -/
theorem getNextValue_increases (maxVal startVal : Int) (arr : Int → Option T)
    (calls : List (Call T)) (hstart : startVal ≤ sarchMax) (hmax : maxVal ≤ sarchMax)
    (hlegal : Guarded step Legal ⟨construct maxVal startVal, arr⟩ calls)
    (hgoesOn : Guarded step GoesOn ⟨construct maxVal startVal, arr⟩ calls)
    (results : List (Option Answer)) (last : State T)
    (hrun : run step ⟨construct maxVal startVal, arr⟩ calls = some (results, last)) :
    (values results).Pairwise (· < ·) :=
  (values_increase ⟨le_refl _, hstart, hmax⟩ hlegal hgoesOn hrun).1

theorem getNextValue_increases_twice :
    run step ⟨construct 3 0, fun _ => (none : Option Unit)⟩ [.getNextValue, .getNextValue] =
        some ([some ⟨0, [0]⟩, some ⟨1, [1]⟩], ⟨⟨0, 3, 2⟩, fun _ => none⟩) ∧
      (values [some ⟨0, [0]⟩, some ⟨1, [1]⟩]).Pairwise (· < ·) := by
  have hrun : run step ⟨construct 3 0, fun _ => (none : Option Unit)⟩
      [.getNextValue, .getNextValue] =
        some ([some ⟨0, [0]⟩, some ⟨1, [1]⟩], ⟨⟨0, 3, 2⟩, fun _ => none⟩) := rfl
  refine ⟨hrun, getNextValue_increases 3 0 _ [.getNextValue, .getNextValue] (by decide)
    (by decide) ⟨trivial, fun _ _ _ => ⟨trivial, fun _ _ _ => trivial⟩⟩ ⟨?_, ?_⟩ _ _ hrun⟩
  · intro hnone
    exact hnone 0 (by decide) (by decide) rfl
  · rintro _ _ ⟨⟩
    exact ⟨fun hnone => hnone 1 (by decide) (by decide) rfl, fun _ _ _ => trivial⟩

theorem getNextValue_minus_one :
    ¬Meets step Spec ⟨construct 0 (-1), fun _ => (none : Option Unit)⟩ [.getNextValue] := by
  rintro ⟨result, next, hstep, hspec, -⟩
  cases hstep
  exact hspec.failed.mp rfl 0 (by decide) (by decide) rfl

end

end Zambesii.WrapAroundCounter
