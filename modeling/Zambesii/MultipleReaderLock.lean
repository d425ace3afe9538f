import Zambesii.Census
import Zambesii.Runs

/-!
`MultipleReaderLock`, one atomic operation at a time. The low bits of the lock word count
the readers, and bit `MR_FLAGS_WRITE_REQUEST_SHIFT` is set by a writer. A waiting reader is
already counted.
-/

namespace Zambesii.MultipleReaderLock

open Function Option
open Census Runs

/-- `Lock::FLAGS_ENUM_START`: the number of bits of the reader count. -/
def flagsEnumStart : Nat := 24

def writeRequestShift : Nat := 25

def lockModulus : Nat := 2 ^ 32

def increment (word : Nat) : Nat := (word + 1) % lockModulus

def decrement (word : Nat) : Nat := (word + (lockModulus - 1)) % lockModulus

/-- `atomicAsm::bitTestAndSet`, apart from the old value of the bit. -/
def bitSet (word bit : Nat) : Nat := if word.testBit bit then word else word + 2 ^ bit

/-- `atomicAsm::bitTestAndClear`, apart from the old value of the bit. -/
def bitClear (word bit : Nat) : Nat := if word.testBit bit then word - 2 ^ bit else word

def nReaders (word : Nat) : Nat := word &&& ((1 <<< flagsEnumStart) - 1)

inductive Phase
  /-- Outside of all sections. -/
  | outside
  /-- In the loop of `readAcquire`. -/
  | readSpin
  | reading
  /-- In the first loop of `writeAcquire`. -/
  | writeSpin
  /-- In the second loop of `writeAcquire`. -/
  | writeDrain
  | writing
  /-- In the first loop of `readReleaseWriteAcquire`. -/
  | upgradeSpin
  /-- Before the decrement of `readReleaseWriteAcquire`. -/
  | upgradeRelease
  /-- In the second loop of `readReleaseWriteAcquire`. -/
  | upgradeDrain
deriving DecidableEq

namespace Phase

def counted : Phase → Bool
  | readSpin | reading | upgradeSpin | upgradeRelease => true
  | _ => false

def holds : Phase → Bool
  | writeDrain | writing | upgradeRelease | upgradeDrain => true
  | _ => false

/-- The CPU is inside a read section, which it may be about to turn into a write section. -/
def inReadSection : Phase → Bool
  | reading | upgradeSpin | upgradeRelease => true
  | _ => false

end Phase

structure State (C : Type) where
  lock : Nat
  phase : C → Phase

/-- What a CPU does next: call a function of the lock, or go on with the one it is in. -/
inductive Action
  | readAcquire
  | readRelease
  | writeAcquire
  | writeRelease
  | readReleaseWriteAcquire
  | proceed
deriving DecidableEq

section

variable {C : Type} [DecidableEq C]

/-- The state in which `c` has come to `phase` and the lock word is `lock`. -/
def State.moved (state : State C) (c : C) (lock : Nat) (phase : Phase) : State C where
  lock := lock
  phase := update state.phase c phase

/-- The next atomic step of the CPU `c`; `none` when it cannot make the call where it is. -/
def step (state : State C) (c : C) (action : Action) : Option (State C) :=
  match state.phase c, action with
  | .outside, .readAcquire => some (state.moved c (increment state.lock) .readSpin)
  | .readSpin, .proceed =>
    if state.lock.testBit writeRequestShift then some state
    else some (state.moved c state.lock .reading)
  | .reading, .readRelease => some (state.moved c (decrement state.lock) .outside)
  | .outside, .writeAcquire => some (state.moved c state.lock .writeSpin)
  | .writeSpin, .proceed =>
    if state.lock.testBit writeRequestShift then some state
    else some (state.moved c (bitSet state.lock writeRequestShift) .writeDrain)
  | .writeDrain, .proceed =>
    if nReaders state.lock ≠ 0 then some state
    else some (state.moved c state.lock .writing)
  | .writing, .writeRelease =>
    some (state.moved c (bitClear state.lock writeRequestShift) .outside)
  | .reading, .readReleaseWriteAcquire => some (state.moved c state.lock .upgradeSpin)
  | .upgradeSpin, .proceed =>
    if state.lock.testBit writeRequestShift then some state
    else some (state.moved c (bitSet state.lock writeRequestShift) .upgradeRelease)
  | .upgradeRelease, .proceed =>
    some (state.moved c (decrement state.lock) .upgradeDrain)
  | .upgradeDrain, .proceed =>
    if nReaders state.lock ≠ 0 then some state
    else some (state.moved c state.lock .writing)
  | _, _ => none

def initialState (C : Type) : State C where
  lock := 0
  phase := fun _ => .outside

def call (state : State C) (turn : C × Action) : Option (Unit × State C) :=
  (step state turn.1 turn.2).map (Prod.mk ())

variable {state : State C} {c : C} {action : Action} {readers holders : Nat}

theorem call_eq_some {next : State C} {turn : C × Action} {result : Unit} :
    call state turn = some (result, next) ↔ step state turn.1 turn.2 = some next := by
  unfold call
  rw [map_eq_some_iff]
  constructor
  · rintro ⟨next', hstep, heq⟩
    obtain ⟨-, rfl⟩ := Prod.mk.inj heq
    exact hstep
  · intro hstep
    exact ⟨next, hstep, rfl⟩

def Step : State C → State C → Prop :=
  GuardedStep call fun _ _ => True

theorem step_of_eq {next : State C} (h : step state c action = some next) : Step state next :=
  ⟨(c, action), (), trivial, call_eq_some.mpr h⟩

/-- The lock word of `readers` counted CPUs. -/
def wordOf (readers holders : Nat) : Nat := readers + 2 ^ writeRequestShift * holders

variable (hreaders : readers < 2 ^ flagsEnumStart)

include hreaders

theorem testBit_wordOf (hholders : holders ≤ 1) :
    (wordOf readers holders).testBit writeRequestShift = decide (holders = 1) := by
  rw [Nat.testBit_eq_decide_div_mod_eq]
  simp only [wordOf, writeRequestShift, flagsEnumStart] at *
  congr 1
  apply propext
  omega

theorem nReaders_wordOf : nReaders (wordOf readers holders) = readers := by
  unfold nReaders
  rw [Nat.one_shiftLeft, Nat.and_two_pow_sub_one_eq_mod]
  simp only [wordOf, writeRequestShift, flagsEnumStart] at *
  omega

theorem increment_wordOf (hholders : holders ≤ 1) :
    increment (wordOf readers holders) = wordOf (readers + 1) holders := by
  simp only [increment, wordOf, lockModulus, writeRequestShift, flagsEnumStart] at *
  omega

omit hreaders

theorem decrement_wordOf (hreaders : readers + 1 < 2 ^ flagsEnumStart) (hholders : holders ≤ 1) :
    decrement (wordOf (readers + 1) holders) = wordOf readers holders := by
  simp only [decrement, wordOf, lockModulus, writeRequestShift, flagsEnumStart] at *
  omega

theorem bitSet_wordOf (hreaders : readers < 2 ^ flagsEnumStart) :
    bitSet (wordOf readers 0) writeRequestShift = wordOf readers 1 := by
  unfold bitSet
  rw [testBit_wordOf hreaders (Nat.zero_le 1)]
  simp [wordOf]

theorem bitClear_wordOf (hreaders : readers < 2 ^ flagsEnumStart) :
    bitClear (wordOf readers 1) writeRequestShift = wordOf readers 0 := by
  unfold bitClear
  rw [testBit_wordOf hreaders (le_refl 1)]
  simp [wordOf]

/-- Everything a step of `c` can do. A turn of a loop that goes on changes nothing. -/
inductive Moves (state : State C) (c : C) : Action → State C → Prop
  | spin (action : Action) : Moves state c action state
  | countIn : state.phase c = .outside →
      Moves state c .readAcquire (state.moved c (increment state.lock) .readSpin)
  | enterRead : state.phase c = .readSpin → state.lock.testBit writeRequestShift = false →
      Moves state c .proceed (state.moved c state.lock .reading)
  | leaveRead : state.phase c = .reading →
      Moves state c .readRelease (state.moved c (decrement state.lock) .outside)
  | askWrite : state.phase c = .outside →
      Moves state c .writeAcquire (state.moved c state.lock .writeSpin)
  | request : state.phase c = .writeSpin → state.lock.testBit writeRequestShift = false →
      Moves state c .proceed (state.moved c (bitSet state.lock writeRequestShift) .writeDrain)
  | enterWrite : state.phase c = .writeDrain ∨ state.phase c = .upgradeDrain →
      nReaders state.lock = 0 → Moves state c .proceed (state.moved c state.lock .writing)
  | leaveWrite : state.phase c = .writing →
      Moves state c .writeRelease (state.moved c (bitClear state.lock writeRequestShift) .outside)
  | askUpgrade : state.phase c = .reading →
      Moves state c .readReleaseWriteAcquire (state.moved c state.lock .upgradeSpin)
  | requestUpgrade : state.phase c = .upgradeSpin →
      state.lock.testBit writeRequestShift = false →
      Moves state c .proceed
        (state.moved c (bitSet state.lock writeRequestShift) .upgradeRelease)
  | countOut : state.phase c = .upgradeRelease →
      Moves state c .proceed (state.moved c (decrement state.lock) .upgradeDrain)

theorem step_moves {next : State C} (h : step state c action = some next) :
    Moves state c action next := by
  unfold step at h
  split at h
  · next hphase =>
    cases h
    exact .countIn hphase
  · next hphase =>
    split at h
    · cases h
      exact .spin _
    · next hclear =>
      cases h
      exact .enterRead hphase (Bool.eq_false_iff.mpr hclear)
  · next hphase =>
    obtain rfl := some.inj h
    exact .leaveRead hphase
  · next hphase =>
    cases h
    exact .askWrite hphase
  · next hphase =>
    split at h
    · cases h
      exact .spin _
    · next hclear =>
      cases h
      exact .request hphase (Bool.eq_false_iff.mpr hclear)
  · next hphase =>
    split at h
    · cases h
      exact .spin _
    · next hdrained =>
      cases h
      exact .enterWrite (.inl hphase) (Decidable.not_not.mp hdrained)
  · next hphase =>
    cases h
    exact .leaveWrite hphase
  · next hphase =>
    cases h
    exact .askUpgrade hphase
  · next hphase =>
    split at h
    · cases h
      exact .spin _
    · next hclear =>
      cases h
      exact .requestUpgrade hphase (Bool.eq_false_iff.mpr hclear)
  · next hphase =>
    obtain rfl := some.inj h
    exact .countOut hphase
  · next hphase =>
    split at h
    · cases h
      exact .spin _
    · next hdrained =>
      cases h
      exact .enterWrite (.inr hphase) (Decidable.not_not.mp hdrained)
  · cases h

variable [Fintype C]

/-- The lock word tells how many CPUs are counted and whether one has the write request
bit, and a writer inside excludes every reader that is inside. -/
structure Consistent (state : State C) : Prop where
  word : state.lock = wordOf (count Phase.counted state.phase) (count Phase.holds state.phase)
  one : count Phase.holds state.phase ≤ 1
  exclusive : ∀ c d, state.phase c = .writing → (state.phase d).inReadSection = false

theorem consistent_initialState : Consistent (initialState C) := by
  have hcounted : count Phase.counted (initialState C).phase = 0 := by
    rw [count_eq_zero_iff]
    intro c
    rfl
  have hholds : count Phase.holds (initialState C).phase = 0 := by
    rw [count_eq_zero_iff]
    intro c
    rfl
  constructor
  · rw [hcounted, hholds]
    rfl
  · rw [hholds]
    exact Nat.zero_le 1
  · intro c d hwriting
    cases hwriting

theorem Consistent.moved (h : Consistent state) (c : C) {lock : Nat} {next : Phase}
    (hword : ∀ readers holders, readers + (state.phase c).counted.toNat =
        count Phase.counted state.phase + next.counted.toNat →
      holders + (state.phase c).holds.toNat = count Phase.holds state.phase + next.holds.toNat →
      lock = wordOf readers holders ∧ holders ≤ 1)
    (hwriting : next = .writing → ∀ d, (state.phase d).inReadSection = false)
    (hreading : next.inReadSection = true → ∀ d, state.phase d ≠ .writing) :
    Consistent (state.moved c lock next) := by
  obtain ⟨hlock, hone⟩ := hword _ _ (count_update Phase.counted state.phase c next)
    (count_update Phase.holds state.phase c next)
  refine ⟨hlock, hone, ?_⟩
  intro d e hd
  show (update state.phase c next e).inReadSection = false
  have hd' : update state.phase c next d = .writing := hd
  rcases eq_or_ne d c with hdc | hdc <;> rcases eq_or_ne e c with hec | hec
  · rw [hdc, update_self] at hd'
    rw [hec, update_self, hd']
    rfl
  · rw [hdc, update_self] at hd'
    rw [update_of_ne hec]
    exact hwriting hd' e
  · rw [update_of_ne hdc] at hd'
    rw [hec, update_self]
    rcases hnext : next.inReadSection with _ | _
    · rfl
    · exact absurd hd' (hreading hnext d)
  · rw [update_of_ne hdc] at hd'
    rw [update_of_ne hec]
    exact h.exclusive d e hd'

theorem Consistent.testBit_eq_false (h : Consistent state)
    (hcpus : Fintype.card C < 2 ^ flagsEnumStart) :
    state.lock.testBit writeRequestShift = false ↔ count Phase.holds state.phase = 0 := by
  have hreaders := lt_of_le_of_lt (count_le_card Phase.counted state.phase) hcpus
  have hone := h.one
  rw [h.word, testBit_wordOf hreaders hone, decide_eq_false_iff_not]
  omega

theorem Consistent.nReaders_eq (h : Consistent state)
    (hcpus : Fintype.card C < 2 ^ flagsEnumStart) :
    nReaders state.lock = count Phase.counted state.phase := by
  have hreaders := lt_of_le_of_lt (count_le_card Phase.counted state.phase) hcpus
  rw [h.word, nReaders_wordOf hreaders]

theorem not_writing_of_no_holder (hnone : count Phase.holds state.phase = 0) (d : C) :
    state.phase d ≠ .writing := by
  intro hwriting
  have hholds := (count_eq_zero_iff Phase.holds state.phase).mp hnone d
  rw [hwriting] at hholds
  cases hholds

theorem not_inReadSection_of_no_reader (hnone : count Phase.counted state.phase = 0) (d : C) :
    (state.phase d).inReadSection = false := by
  have hcounted := (count_eq_zero_iff Phase.counted state.phase).mp hnone d
  cases hphase : state.phase d <;> rw [hphase] at hcounted <;> first | rfl | cases hcounted

theorem Moves.consistent {next : State C} (hmoves : Moves state c action next)
    (h : Consistent state) (hcpus : Fintype.card C < 2 ^ flagsEnumStart) : Consistent next := by
  have hreaders := lt_of_le_of_lt (count_le_card Phase.counted state.phase) hcpus
  have hone := h.one
  cases hmoves with
  | spin => exact h
  | countIn hphase =>
    refine h.moved c ?_ (by rintro ⟨⟩) (by rintro ⟨⟩)
    intro readers holders hr hh
    simp only [hphase, Phase.counted, Phase.holds, Bool.toNat_false, Bool.toNat_true,
      add_zero] at hr hh
    rw [h.word, increment_wordOf hreaders hone, hr, hh]
    exact ⟨rfl, hone⟩
  | enterRead hphase hbit =>
    have hnone := (h.testBit_eq_false hcpus).mp hbit
    refine h.moved c ?_ (by rintro ⟨⟩) (fun _ => not_writing_of_no_holder hnone)
    intro readers holders hr hh
    simp only [hphase, Phase.counted, Phase.holds, Bool.toNat_false, Bool.toNat_true,
      add_zero, add_right_cancel_iff] at hr hh
    rw [h.word, hr, hh]
    exact ⟨rfl, hone⟩
  | leaveRead hphase =>
    refine h.moved c ?_ (by rintro ⟨⟩) (by rintro ⟨⟩)
    intro readers holders hr hh
    simp only [hphase, Phase.counted, Phase.holds, Bool.toNat_false, Bool.toNat_true,
      add_zero] at hr hh
    rw [h.word, ← hr, ← hh, decrement_wordOf (by omega) (by omega)]
    exact ⟨rfl, by omega⟩
  | askWrite hphase =>
    refine h.moved c ?_ (by rintro ⟨⟩) (by rintro ⟨⟩)
    intro readers holders hr hh
    simp only [hphase, Phase.counted, Phase.holds, Bool.toNat_false, add_zero] at hr hh
    rw [h.word, hr, hh]
    exact ⟨rfl, hone⟩
  | request hphase hbit =>
    have hnone := (h.testBit_eq_false hcpus).mp hbit
    refine h.moved c ?_ (by rintro ⟨⟩) (by rintro ⟨⟩)
    intro readers holders hr hh
    simp only [hphase, Phase.counted, Phase.holds, Bool.toNat_false, Bool.toNat_true,
      add_zero, hnone, zero_add] at hr hh
    rw [h.word, hnone, bitSet_wordOf hreaders, hr, hh]
    exact ⟨rfl, le_refl 1⟩
  | enterWrite hphase hdrained =>
    have hnone : count Phase.counted state.phase = 0 := by
      rw [← h.nReaders_eq hcpus]
      exact hdrained
    refine h.moved c ?_ (fun _ => not_inReadSection_of_no_reader hnone) (by rintro ⟨⟩)
    intro readers holders hr hh
    rcases hphase with hphase | hphase <;>
      simp only [hphase, Phase.counted, Phase.holds, Bool.toNat_false, Bool.toNat_true,
        add_zero, add_right_cancel_iff] at hr hh <;>
      rw [h.word, hr, hh] <;> exact ⟨rfl, hone⟩
  | leaveWrite hphase =>
    refine h.moved c ?_ (by rintro ⟨⟩) (by rintro ⟨⟩)
    intro readers holders hr hh
    simp only [hphase, Phase.counted, Phase.holds, Bool.toNat_false, Bool.toNat_true,
      add_zero] at hr hh
    have hholder : count Phase.holds state.phase = 1 := by omega
    have hgone : holders = 0 := by omega
    rw [h.word, hholder, bitClear_wordOf hreaders, hr, hgone]
    exact ⟨rfl, Nat.zero_le 1⟩
  | askUpgrade hphase =>
    refine h.moved c ?_ (by rintro ⟨⟩) ?_
    · intro readers holders hr hh
      simp only [hphase, Phase.counted, Phase.holds, Bool.toNat_false, Bool.toNat_true,
        add_zero, add_right_cancel_iff] at hr hh
      rw [h.word, hr, hh]
      exact ⟨rfl, hone⟩
    · intro _ d hwriting
      have hnot := h.exclusive d c hwriting
      rw [hphase] at hnot
      cases hnot
  | requestUpgrade hphase hbit =>
    have hnone := (h.testBit_eq_false hcpus).mp hbit
    refine h.moved c ?_ (by rintro ⟨⟩) (fun _ => not_writing_of_no_holder hnone)
    intro readers holders hr hh
    simp only [hphase, Phase.counted, Phase.holds, Bool.toNat_false, Bool.toNat_true,
      add_zero, add_right_cancel_iff, hnone, zero_add] at hr hh
    rw [h.word, hnone, bitSet_wordOf hreaders, hr, hh]
    exact ⟨rfl, le_refl 1⟩
  | countOut hphase =>
    refine h.moved c ?_ (by rintro ⟨⟩) (by rintro ⟨⟩)
    intro readers holders hr hh
    simp only [hphase, Phase.counted, Phase.holds, Bool.toNat_false, Bool.toNat_true,
      add_zero, add_right_cancel_iff] at hr hh
    rw [h.word, ← hr, ← hh, decrement_wordOf (by omega) (by omega)]
    exact ⟨rfl, by omega⟩

theorem reachable_consistent (hcpus : Fintype.card C < 2 ^ flagsEnumStart)
    (h : Reachable (· = initialState C) Step state) : Consistent state := by
  refine h.invariant ?_ ?_
  · rintro state rfl
    exact consistent_initialState
  · rintro state next hstate ⟨turn, _, -, hstep⟩
    exact (step_moves (call_eq_some.mp hstep)).consistent hstate hcpus

/-- The lock word counts the CPUs that are reading or wait to, and has the request bit of the one
that is writing or about to. -/
theorem reachable_word (hcpus : Fintype.card C < 2 ^ flagsEnumStart)
    (h : Reachable (· = initialState C) Step state) :
    nReaders state.lock = count Phase.counted state.phase ∧
      count Phase.holds state.phase ≤ 1 ∧
        (state.lock.testBit writeRequestShift = true ↔ ∃ c, (state.phase c).holds = true) := by
  have hconsistent := reachable_consistent hcpus h
  refine ⟨hconsistent.nReaders_eq hcpus, hconsistent.one, ?_⟩
  rw [← not_iff_not, Bool.not_eq_true, hconsistent.testBit_eq_false hcpus, count_eq_zero_iff]
  simp

/-- A CPU inside the write section is alone. -/
theorem mutual_exclusion (hcpus : Fintype.card C < 2 ^ flagsEnumStart) (state : State C)
    (h : Reachable (· = initialState C) Step state) (c d : C) (hne : d ≠ c)
    (hwriting : state.phase c = .writing) :
    (state.phase d).inReadSection = false ∧ state.phase d ≠ .writing := by
  have hconsistent := reachable_consistent hcpus h
  refine ⟨hconsistent.exclusive c d hwriting, ?_⟩
  intro hother
  have hc : (state.phase c).holds = true := by rw [hwriting]; rfl
  have hd : (state.phase d).holds = true := by rw [hother]; rfl
  exact hne (eq_of_count_le_one hconsistent.one hd hc)

end

def writeThenRead : List (Bool × Action) :=
  [(false, .writeAcquire), (false, .proceed), (false, .proceed), (true, .readAcquire),
    (true, .proceed)]

theorem mutual_exclusion_writeThenRead :
    ∃ state : State Bool, Reachable (· = initialState Bool) Step state ∧
      state.phase false = .writing ∧ (state.phase true).inReadSection = false ∧
        state.phase true ≠ .writing := by
  have hrun : ((run call (initialState Bool) writeThenRead).any
      fun r => decide (r.2.phase false = .writing)) = true := by decide
  obtain ⟨⟨results, state⟩, hstate, hphase⟩ := (any_eq_true _ _).mp hrun
  have hwriting : state.phase false = .writing := of_decide_eq_true hphase
  have hreachable : Reachable (· = initialState Bool) Step state :=
    reachable_of_run (reachable_of_init rfl) (by decide) hstate
  exact ⟨state, hreachable, hwriting,
    mutual_exclusion (by decide) state hreachable false true (by decide) hwriting⟩

def firstReading (n k : Nat) : State (Fin n) where
  lock := k
  phase := fun i => if i.val < k then .reading else .outside

theorem firstReading_reachable (n k : Nat) (hk : k ≤ n) (hlt : k < 2 ^ writeRequestShift) :
    Reachable (· = initialState (Fin n)) Step (firstReading n k) := by
  induction k with
  | zero => exact reachable_of_init (by simp [firstReading, initialState])
  | succ k ih =>
    let c : Fin n := ⟨k, hk⟩
    let counted := (firstReading n k).moved c (k + 1) .readSpin
    have hin : step (firstReading n k) c .readAcquire = some counted := by
      have hphase : (firstReading n k).phase c = .outside := if_neg (lt_irrefl k)
      have hword : increment (firstReading n k).lock = k + 1 :=
        Nat.mod_eq_of_lt (lt_trans hlt (by decide))
      simp only [step, hphase, hword, counted]
    have henter : step counted c .proceed = some (counted.moved c (k + 1) .reading) := by
      have hphase : counted.phase c = .readSpin := update_self _ _ _
      have hbit : counted.lock.testBit writeRequestShift = false :=
        Nat.testBit_lt_two_pow hlt
      simp only [step, hphase, hbit]
      rfl
    have hnext : counted.moved c (k + 1) .reading = firstReading n (k + 1) := by
      simp only [State.moved, counted, update_idem, firstReading, State.mk.injEq, true_and]
      funext i
      rcases eq_or_ne i c with rfl | hne
      · simp [c]
      · have hval : i.val ≠ k := fun h => hne (Fin.ext h)
        rw [update_of_ne hne]
        split_ifs <;> first | rfl | omega
    rw [← hnext]
    exact ((ih (le_of_lt hk) (Nat.lt_of_succ_lt hlt)).tail (step_of_eq hin)).tail
      (step_of_eq henter)

theorem reachable_word_twoReading :
    nReaders (firstReading 3 2).lock = count Phase.counted (firstReading 3 2).phase ∧
      count Phase.holds (firstReading 3 2).phase ≤ 1 ∧
        ((firstReading 3 2).lock.testBit writeRequestShift = true ↔
          ∃ c, ((firstReading 3 2).phase c).holds = true) :=
  reachable_word (by decide) (firstReading_reachable 3 2 (by decide) (by decide))

theorem writer_joins_readers (n : Nat) (hlt : n < 2 ^ writeRequestShift)
    (hzero : nReaders (bitSet n writeRequestShift) = 0) :
    ∃ state : State (Fin (n + 1)), Reachable (· = initialState _) Step state ∧
      state.phase (Fin.last n) = .writing ∧
        ∀ i : Fin (n + 1), i ≠ Fin.last n → state.phase i = .reading := by
  let start := firstReading (n + 1) n
  have hstart : Reachable (· = initialState _) Step start :=
    firstReading_reachable _ _ (Nat.le_succ n) hlt
  let asking := start.moved (Fin.last n) n .writeSpin
  let requested := asking.moved (Fin.last n) (bitSet n writeRequestShift) .writeDrain
  have hask : step start (Fin.last n) .writeAcquire = some asking := by
    have hphase : start.phase (Fin.last n) = .outside := if_neg (lt_irrefl n)
    simp only [step, hphase]
    rfl
  have hrequest : step asking (Fin.last n) .proceed = some requested := by
    have hphase : asking.phase (Fin.last n) = .writeSpin := update_self _ _ _
    have hbit : asking.lock.testBit writeRequestShift = false := Nat.testBit_lt_two_pow hlt
    simp only [step, hphase, hbit]
    rfl
  have hdrain : step requested (Fin.last n) .proceed =
      some (requested.moved (Fin.last n) requested.lock .writing) := by
    have hphase : requested.phase (Fin.last n) = .writeDrain := update_self _ _ _
    have hdrained : nReaders requested.lock = 0 := hzero
    simp only [step, hphase, hdrained]
    rfl
  refine ⟨_, ((hstart.tail (step_of_eq hask)).tail (step_of_eq hrequest)).tail
    (step_of_eq hdrain), update_self _ _ _, ?_⟩
  intro i hne
  show update (update (update start.phase _ _) _ _) _ _ i = _
  rw [update_of_ne hne, update_of_ne hne, update_of_ne hne]
  have hval : i.val ≠ n := fun h => hne (Fin.ext h)
  exact if_pos (by omega)

/-- With `2 ^ 24` readers inside, the reader count reads zero. -/
theorem too_many_readers_not_excluded : ∃ state : State (Fin (2 ^ flagsEnumStart + 1)),
      Reachable (· = initialState _) Step state ∧
        state.phase (Fin.last _) = .writing ∧ state.phase 0 = .reading := by
  obtain ⟨state, hreachable, hwriting, hreading⟩ :=
    writer_joins_readers (2 ^ flagsEnumStart) (by decide) (by decide)
  refine ⟨state, hreachable, hwriting, hreading 0 ?_⟩
  intro h
  exact absurd (congrArg Fin.val h) (by decide)

section

variable {C : Type} [DecidableEq C]

def Waits (state : State C) (c : C) : Prop :=
  match state.phase c with
  | .readSpin | .writeSpin | .upgradeSpin => state.lock.testBit writeRequestShift = true
  | .writeDrain | .upgradeDrain => nReaders state.lock ≠ 0
  | _ => False

/-- Some CPU takes part, and every one that does is waiting: none of them can take a step
that changes anything. -/
def Deadlocked (state : State C) : Prop :=
  (∃ c, state.phase c ≠ .outside) ∧ ∀ c, state.phase c ≠ .outside → Waits state c

def Draining (state : State C) : Prop :=
  ∃ c, state.phase c = .writeDrain ∨ state.phase c = .upgradeRelease ∨
    state.phase c = .upgradeDrain

def CountedWaiter (state : State C) (c : C) : Prop :=
  state.phase c = .readSpin ∨ state.phase c = .upgradeSpin

/-- The step brings no waiting CPU that is counted together with one that waits for the
readers to be gone: nobody begins to wait as a reader while a CPU waits for the readers,
and nobody takes the write request bit while a reader waits. -/
def Separate (state : State C) (c : C) (action : Action) : Prop :=
  (action = .readAcquire ∨ action = .readReleaseWriteAcquire → ¬ Draining state) ∧
    (action = .proceed → state.phase c = .writeSpin ∨ state.phase c = .upgradeSpin →
      state.lock.testBit writeRequestShift = false → ∀ d, d ≠ c → ¬ CountedWaiter state d)

def SeparateStep : State C → State C → Prop :=
  GuardedStep call fun state turn => Separate state turn.1 turn.2

def Apart (state : State C) : Prop :=
  Draining state → ∀ c, ¬ CountedWaiter state c

variable {state : State C} {c : C} {lock : Nat}

theorem draining_moved {next : Phase} (h : Draining (state.moved c lock next))
    (hnext : next ≠ .writeDrain ∧ next ≠ .upgradeRelease ∧ next ≠ .upgradeDrain) :
    Draining state := by
  obtain ⟨d, hd⟩ := h
  rcases eq_or_ne d c with rfl | hne
  · simp only [State.moved, update_self] at hd
    rcases hd with hd | hd | hd
    · exact absurd hd hnext.1
    · exact absurd hd hnext.2.1
    · exact absurd hd hnext.2.2
  · simp only [State.moved, update_of_ne hne] at hd
    exact ⟨d, hd⟩

theorem countedWaiter_moved {d : C} {next : Phase} (h : CountedWaiter (state.moved c lock next) d)
    (hnext : next ≠ .readSpin ∧ next ≠ .upgradeSpin) : d ≠ c ∧ CountedWaiter state d := by
  unfold CountedWaiter at h
  rcases eq_or_ne d c with rfl | hne
  · simp only [State.moved, update_self] at h
    rcases h with h | h
    · exact absurd h hnext.1
    · exact absurd h hnext.2
  · simp only [State.moved, update_of_ne hne] at h
    exact ⟨hne, h⟩

theorem Moves.apart {next : State C} {action : Action} (hmoves : Moves state c action next)
    (hseparate : Separate state c action) (h : Apart state) : Apart next := by
  intro hdraining d hwaiter
  cases hmoves with
  | spin => exact h hdraining d hwaiter
  | countIn _ => exact hseparate.1 (.inl rfl) (draining_moved hdraining (by decide))
  | enterRead _ _ =>
    exact h (draining_moved hdraining (by decide)) d (countedWaiter_moved hwaiter (by decide)).2
  | leaveRead _ =>
    exact h (draining_moved hdraining (by decide)) d (countedWaiter_moved hwaiter (by decide)).2
  | askWrite _ =>
    exact h (draining_moved hdraining (by decide)) d (countedWaiter_moved hwaiter (by decide)).2
  | request hphase hbit =>
    obtain ⟨hne, hold⟩ := countedWaiter_moved hwaiter (by decide)
    exact hseparate.2 rfl (.inl hphase) hbit d hne hold
  | enterWrite _ _ =>
    exact h (draining_moved hdraining (by decide)) d (countedWaiter_moved hwaiter (by decide)).2
  | leaveWrite _ =>
    exact h (draining_moved hdraining (by decide)) d (countedWaiter_moved hwaiter (by decide)).2
  | askUpgrade _ => exact hseparate.1 (.inr rfl) (draining_moved hdraining (by decide))
  | requestUpgrade hphase hbit =>
    obtain ⟨hne, hold⟩ := countedWaiter_moved hwaiter (by decide)
    exact hseparate.2 rfl (.inr hphase) hbit d hne hold
  | countOut hphase =>
    -- the CPU that drops its count had the bit before, so nobody was waiting as a reader
    exact h ⟨c, .inr (.inl hphase)⟩ d (countedWaiter_moved hwaiter (by decide)).2

variable [Fintype C]

theorem not_deadlocked (hcpus : Fintype.card C < 2 ^ flagsEnumStart) (h : Consistent state)
    (hapart : Apart state) : ¬ Deadlocked state := by
  rintro ⟨⟨c, hc⟩, hall⟩
  rcases eq_zero_or_pos (count Phase.holds state.phase) with hnone | hsome
  · -- nobody has the write request bit, so no loop that tests it goes on
    have hbit := (h.testBit_eq_false hcpus).mpr hnone
    have hwaits := hall c hc
    have hholds := (count_eq_zero_iff Phase.holds state.phase).mp hnone c
    unfold Waits at hwaits
    cases hphase : state.phase c <;> rw [hphase] at hwaits hholds <;>
      first
      | exact hwaits
      | exact absurd hholds (by decide)
      | exact absurd (hbit.symm.trans hwaits) (by decide)
  -- the CPU that has it waits for a counted CPU, and that one cannot be waiting
  obtain ⟨holder, hholder⟩ := (count_pos_iff Phase.holds state.phase).mp hsome
  have hparticipates : state.phase holder ≠ .outside := by
    intro hphase
    rw [hphase] at hholder
    cases hholder
  have hwaits := hall holder hparticipates
  have hdraining : Draining state ∧ nReaders state.lock ≠ 0 := by
    unfold Waits at hwaits
    cases hphase : state.phase holder <;> rw [hphase] at hwaits hholder <;>
      first
      | exact ⟨⟨holder, .inl hphase⟩, hwaits⟩
      | exact ⟨⟨holder, .inr (.inr hphase)⟩, hwaits⟩
      | exact absurd hholder (by decide)
      | exact hwaits.elim
  have hpos : 0 < count Phase.counted state.phase := by
    rw [← h.nReaders_eq hcpus]
    exact pos_of_ne_zero hdraining.2
  obtain ⟨reader, hreader⟩ := (count_pos_iff Phase.counted state.phase).mp hpos
  have hnot := hapart hdraining.1 reader
  have hreaderWaits := hall reader
  unfold Waits at hreaderWaits
  cases hphase : state.phase reader <;> rw [hphase] at hreader hreaderWaits <;>
    first
    | exact absurd hreader (by decide)
    | exact hnot (.inl hphase)
    | exact hnot (.inr hphase)
    | exact hreaderWaits (by decide)

def Sound (state : State C) : Prop :=
  Consistent state ∧ Apart state

/-- In every interleaving that keeps the two kinds of waiting apart, some CPU that takes
part can go on. -/
theorem separate_not_deadlocked (hcpus : Fintype.card C < 2 ^ flagsEnumStart) (state : State C)
    (h : Reachable (· = initialState C) SeparateStep state) : ¬ Deadlocked state := by
  have hsound : Sound state := by
    refine h.invariant ?_ ?_
    · rintro state rfl
      refine ⟨consistent_initialState, ?_⟩
      rintro ⟨c, hc⟩
      rcases hc with hc | hc | hc <;> cases hc
    · rintro state next hsound ⟨turn, _, hseparate, hstep⟩
      have hmoves := step_moves (call_eq_some.mp hstep)
      exact ⟨hmoves.consistent hsound.1 hcpus, hmoves.apart hseparate hsound.2⟩
  exact not_deadlocked hcpus hsound.1 hsound.2

theorem not_apart_iff (state : State C) :
    ¬ Apart state ↔ Draining state ∧ ∃ c, CountedWaiter state c := by
  unfold Apart
  rw [Classical.not_imp, not_forall]
  simp

/-- What a step leaves of a state in which the two kinds of waiting have met. -/
def Stays (state next : State C) : Prop :=
  ¬ Apart next ∧ ∀ d, (CountedWaiter state d → next.phase d = state.phase d) ∧
    (next.phase d = .reading → state.phase d = .reading)

theorem stays_moved {r : C} {next : Phase} (hdraining : Draining (state.moved c lock next))
    (hr : CountedWaiter state r) (hc : ¬ CountedWaiter state c) (hnext : next ≠ .reading) :
    Stays state (state.moved c lock next) := by
  have hne : ∀ {d}, CountedWaiter state d → d ≠ c := fun hd heq => hc (heq ▸ hd)
  refine ⟨(not_apart_iff _).mpr ⟨hdraining, r, ?_⟩, fun d => ⟨?_, ?_⟩⟩
  · simpa only [CountedWaiter, State.moved, update_of_ne (hne hr)] using hr
  · intro hd
    exact update_of_ne (hne hd) ..
  · intro hreading
    rcases eq_or_ne d c with rfl | hother
    · exact absurd ((update_self ..).symm.trans hreading) hnext
    · exact (update_of_ne hother ..).symm.trans hreading

theorem Moves.stays {next : State C} {action : Action} (hmoves : Moves state c action next)
    (hcpus : Fintype.card C < 2 ^ flagsEnumStart) (h : Consistent state) (hstuck : ¬ Apart state) :
    Stays state next := by
  obtain ⟨⟨d, hd⟩, r, hr⟩ := (not_apart_iff state).mp hstuck
  have hbit : state.lock.testBit writeRequestShift ≠ false := by
    intro hclear
    have hholds := (count_eq_zero_iff Phase.holds state.phase).mp
      ((h.testBit_eq_false hcpus).mp hclear) d
    rcases hd with hd | hd | hd <;> rw [hd] at hholds <;> cases hholds
  have hreaders : nReaders state.lock ≠ 0 := by
    intro hdrained
    rw [h.nReaders_eq hcpus] at hdrained
    have hcounted := (count_eq_zero_iff Phase.counted state.phase).mp hdrained r
    rcases hr with hr | hr <;> rw [hr] at hcounted <;> cases hcounted
  have hmoved : ∀ {phase : Phase} {lock : Nat} {next : Phase}, state.phase c = phase →
      phase = .outside ∨ phase = .reading ∨ phase = .writing → next ≠ .reading →
        Stays state (state.moved c lock next) := by
    intro phase lock next hphase hkind hnext
    refine stays_moved ⟨d, ?_⟩ hr ?_ hnext
    · have hdc : d ≠ c := by
        rintro rfl
        rw [hphase] at hd
        rcases hkind with rfl | rfl | rfl <;> exact absurd hd (by decide)
      simpa only [State.moved, update_of_ne hdc] using hd
    · unfold CountedWaiter
      rw [hphase]
      rcases hkind with rfl | rfl | rfl <;> decide
  cases hmoves with
  | spin => exact ⟨hstuck, fun d => ⟨fun _ => rfl, id⟩⟩
  | countIn hphase => exact hmoved hphase (.inl rfl) (by decide)
  | enterRead _ hclear => exact absurd hclear hbit
  | leaveRead hphase => exact hmoved hphase (.inr (.inl rfl)) (by decide)
  | askWrite hphase => exact hmoved hphase (.inl rfl) (by decide)
  | request _ hclear => exact absurd hclear hbit
  | enterWrite _ hdrained => exact absurd hdrained hreaders
  | leaveWrite hphase => exact hmoved hphase (.inr (.inr rfl)) (by decide)
  | askUpgrade hphase => exact hmoved hphase (.inr (.inl rfl)) (by decide)
  | requestUpgrade _ hclear => exact absurd hclear hbit
  | countOut hphase =>
    refine stays_moved ⟨c, .inr (.inr (update_self ..))⟩ hr ?_ (by decide)
    unfold CountedWaiter
    rw [hphase]
    decide

/-- Once a counted CPU waits beside one that waits for the readers to be gone, the lock is lost: in
all that follows no CPU writes, those that wait as readers or to upgrade stay where they are, and no
CPU begins to read. -/
theorem lost_for_ever (hcpus : Fintype.card C < 2 ^ flagsEnumStart) (state next : State C)
    (h : Reachable (· = initialState C) Step state) (hstuck : ¬ Apart state)
    (hsteps : Relation.ReflTransGen Step state next) : ¬ Apart next ∧ ∀ c, next.phase c ≠ .writing ∧
      (CountedWaiter state c → next.phase c = state.phase c) ∧
        (next.phase c = .reading → state.phase c = .reading) := by
  have hlost : Consistent next ∧ Stays state next := by
    induction hsteps with
    | refl => exact ⟨reachable_consistent hcpus h, hstuck, fun _ => ⟨fun _ => rfl, id⟩⟩
    | tail _ hstep ih =>
      obtain ⟨hconsistent, hapart, hphases⟩ := ih
      obtain ⟨turn, _, -, hcall⟩ := hstep
      have hmoves := step_moves (call_eq_some.mp hcall)
      obtain ⟨hapart', hphases'⟩ := hmoves.stays hcpus hconsistent hapart
      refine ⟨hmoves.consistent hconsistent hcpus, hapart', ?_⟩
      intro c
      refine ⟨fun hc => ?_, fun hc => ?_⟩
      · have hsame := (hphases c).1 hc
        refine ((hphases' c).1 ?_).trans hsame
        unfold CountedWaiter at hc ⊢
        rwa [hsame]
      · exact (hphases c).2 ((hphases' c).2 hc)
  obtain ⟨hconsistent, hapart, hphases⟩ := hlost
  refine ⟨hapart, fun c => ⟨fun hwriting => ?_, hphases c⟩⟩
  obtain ⟨⟨d, hd⟩, -⟩ := (not_apart_iff next).mp hapart
  have hc : (next.phase c).holds = true := by rw [hwriting]; rfl
  have hdholds : (next.phase d).holds = true := by rcases hd with hd | hd | hd <;> rw [hd] <;> rfl
  rw [eq_of_count_le_one hconsistent.one hdholds hc, hwriting] at hd
  exact absurd hd (by decide)

end

section

variable {C : Type} [DecidableEq C] [Fintype C]

instance (state : State C) : Decidable (Draining state) :=
  inferInstanceAs (Decidable (∃ c, _))

instance (state : State C) (c : C) : Decidable (CountedWaiter state c) :=
  inferInstanceAs (Decidable (_ ∨ _))

instance (state : State C) (c : C) (action : Action) : Decidable (Separate state c action) :=
  inferInstanceAs (Decidable (_ ∧ _))

end

theorem separate_not_deadlocked_writeThenRead :
    ∃ state : State Bool, Reachable (· = initialState Bool) SeparateStep state ∧
      state.phase false = .writing ∧ state.phase true = .readSpin ∧ ¬ Deadlocked state := by
  have hrun : ((run call (initialState Bool) writeThenRead).any
      fun r => decide (r.2.phase false = .writing ∧ r.2.phase true = .readSpin)) = true := by
    decide
  obtain ⟨⟨results, state⟩, hstate, hphases⟩ := (any_eq_true _ _).mp hrun
  obtain ⟨hwriting, hwaiting⟩ := of_decide_eq_true hphases
  have hreachable : Reachable (· = initialState Bool) SeparateStep state :=
    reachable_of_run (reachable_of_init rfl) (by decide) hstate
  exact ⟨state, hreachable, hwriting, hwaiting,
    separate_not_deadlocked (by decide) state hreachable⟩

def readThenWrite : List (Bool × Action) :=
  [(false, .readAcquire), (true, .writeAcquire), (true, .proceed)]

theorem readThenWrite_deadlocked :
    ∃ state : State Bool, Reachable (· = initialState Bool) Step state ∧ Deadlocked state := by
  have hrun : ((run call (initialState Bool) readThenWrite).any
      fun r => decide (r.2.phase false = .readSpin ∧ r.2.phase true = .writeDrain ∧
        r.2.lock = 2 ^ 25 + 1)) = true := by decide
  obtain ⟨⟨results, state⟩, hstate, hchecked⟩ := (any_eq_true _ _).mp hrun
  obtain ⟨hreader, hwriter, hlock⟩ := of_decide_eq_true hchecked
  have hreachable : Reachable (· = initialState Bool) Step state :=
    reachable_of_run (reachable_of_init rfl) (by decide) hstate
  refine ⟨state, hreachable, ⟨false, ?_⟩, ?_⟩
  · rw [hreader]
    decide
  · intro c _
    unfold Waits
    cases c with
    | false =>
      rw [hreader, hlock]
      decide
    | true =>
      rw [hwriter, hlock]
      decide

theorem lost_for_ever_readThenWrite :
    ∃ state next : State Bool, Reachable (· = initialState Bool) Step state ∧
      step state true .proceed = some next ∧ next.phase false = .readSpin ∧
        next.phase true ≠ .writing := by
  have hrun : ((run call (initialState Bool) readThenWrite).any fun r =>
      decide (r.2.phase false = .readSpin ∧ r.2.phase true = .writeDrain ∧
        (step r.2 true .proceed).isSome = true)) = true := by decide
  obtain ⟨⟨results, state⟩, hstate, hchecked⟩ := (any_eq_true _ _).mp hrun
  obtain ⟨hreader, hwriter, hsome⟩ := of_decide_eq_true hchecked
  obtain ⟨next, hnext⟩ := isSome_iff_exists.mp hsome
  have hreachable : Reachable (· = initialState Bool) Step state :=
    reachable_of_run (reachable_of_init rfl) (by decide) hstate
  have hstuck : ¬ Apart state := fun hapart => hapart ⟨true, .inl hwriter⟩ false (.inl hreader)
  obtain ⟨-, hlost⟩ :=
    lost_for_ever (by decide) state next hreachable hstuck (.single (step_of_eq hnext))
  exact ⟨state, next, hreachable, hnext, ((hlost false).2.1 (.inl hreader)).trans hreader,
    (hlost true).1⟩

end Zambesii.MultipleReaderLock
