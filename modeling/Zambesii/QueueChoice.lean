import Mathlib.Data.Nat.Bitwise
import Zambesii.OneshotEvent

/-!
`TimerTrib::insertTimerQueueRequestObject`: the timer queue that a request is put into.
-/

namespace Zambesii.QueueChoice

open Instants KernelTypes List TimeTypes
open OneshotEvent (Request)

/-- The native periods of `timerQueues`, in nanoseconds. -/
def nativePeriods : List Nat :=
  [1000000000, 100000000, 10000000, 1000000, 100000, 10000, 1000, 100, 10, 1]

/-- The request, the queues whose request lock is held, and the queues that the request was inserted
into, with whether their lock was held then. -/
structure State where
  request : Request
  held : List Nat
  inserted : List (Nat × Bool)
deriving DecidableEq

def State.setPlacementNseconds (state : State) (nseconds : Nat) : State :=
  { state with
    request :=
      { state.request with
        placementStamp :=
          { state.request.placementStamp with
            time := { state.request.placementStamp.time with nseconds } } } }

/-- Adds the period of a queue to the placement time, whose nanoseconds are 32 bits wide. -/
def addPeriod (period : Nat) (state : State) : State :=
  state.setPlacementNseconds ((state.request.placementStamp.time.nseconds + period) % wordModulus)

def subtractPeriod (period : Nat) (state : State) : State :=
  state.setPlacementNseconds
    ((state.request.placementStamp.time.nseconds + wordModulus - period) % wordModulus)

def lockRequestQueue (queue : Nat) (state : State) : State :=
  { state with held := queue :: state.held }

def unlockRequestQueue (queue : Nat) (state : State) : State :=
  { state with held := state.held.erase queue }

def insert (queue : Nat) (state : State) : State :=
  { state with inserted := (queue, decide (queue ∈ state.held)) :: state.inserted }

/-- The loop over the queues, and what follows it; `answers` are what the queues' `insert`
returns. -/
def queueLoop (latchedPeriodMask : Nat) (answers : Nat → Kerror) :
    List Nat → Nat → Option Nat → State → Kerror × State
  | [], _, suboptimal, state =>
    match suboptimal with
    | none => (.fatal, state)
    | some queue => (answers queue, insert queue state)
  | period :: periods, i, suboptimal, state =>
    if latchedPeriodMask.testBit i = false then
      queueLoop latchedPeriodMask answers periods (i + 1) suboptimal state
    else
      let added := addPeriod period state
      if added.request.expirationStamp < added.request.placementStamp then
        queueLoop latchedPeriodMask answers periods (i + 1) (some i)
          (subtractPeriod period added)
      else
        (answers i, unlockRequestQueue i (insert i (lockRequestQueue i
          (subtractPeriod period added))))

def insertTimerQueueRequestObject (latchedPeriodMask : Nat) (answers : Nat → Kerror)
    (request : Request) : Kerror × State :=
  queueLoop latchedPeriodMask answers nativePeriods 0 none ⟨request, [], []⟩

def Latched (mask queue : Nat) : Prop := queue < nativePeriods.length ∧ mask.testBit queue = true

def periodOf (queue : Nat) : Nat := nativePeriods.getD queue 0

def Fits (request : Request) (period : Nat) : Prop :=
  instant request.placementStamp + period ≤ instant request.expirationStamp

/-- The latched queue with the longest period that fits, or that with the shortest when none
does. -/
def Chosen (mask : Nat) (request : Request) (queue : Nat) : Prop :=
  Latched mask queue ∧
    ((Fits request (periodOf queue) ∧ ∀ other, Latched mask other →
        Fits request (periodOf other) → periodOf other ≤ periodOf queue) ∨
      (∀ other, Latched mask other → ¬ Fits request (periodOf other)) ∧
        ∀ other, Latched mask other → periodOf queue ≤ periodOf other)

/-- The request keeps its stamps and goes into the chosen queue, once, with the lock held; with no
queue latched it goes into none. -/
structure Meets (mask : Nat) (answers : Nat → Kerror) (request : Request) : Prop where
  kept : (insertTimerQueueRequestObject mask answers request).2.request = request
  chosen : (∃ queue, Latched mask queue) → ∃ queue, Chosen mask request queue ∧
    (insertTimerQueueRequestObject mask answers request).2.inserted = [(queue, true)]
  refused : (∀ queue, ¬ Latched mask queue) →
    (insertTimerQueueRequestObject mask answers request).2.inserted = []

/-- A request that expires in a later second than it was placed in has the time for each latched
queue, or there is but one; any other expires in the same second and has the time for one of
them. -/
structure Sound (mask : Nat) (request : Request) : Prop where
  later : second request.placementStamp < second request.expirationStamp →
    ∀ queue, Latched mask queue → Fits request (periodOf queue) ∨
      ∀ other, Latched mask other → other = queue
  same : second request.expirationStamp ≤ second request.placementStamp →
    (∃ queue, Latched mask queue) →
      second request.placementStamp = second request.expirationStamp ∧
        ∃ queue, Latched mask queue ∧ request.placementStamp.time.nseconds + periodOf queue ≤
          request.expirationStamp.time.nseconds

section

variable {mask period : Nat} {answers : Nat → Kerror} {request : Request} {state : State}

def Accepts (request : Request) (period : Nat) : Prop :=
  second request.placementStamp < second request.expirationStamp ∨
    (second request.placementStamp = second request.expirationStamp ∧
      request.placementStamp.time.nseconds + period ≤ request.expirationStamp.time.nseconds)

theorem addPeriod_nseconds (hperiod : period ≤ nsPerSecond)
    (hplaced : state.request.placementStamp.time.nseconds < nsPerSecond) : addPeriod period state =
      state.setPlacementNseconds (state.request.placementStamp.time.nseconds + period) := by
  rw [addPeriod, Nat.mod_eq_of_lt (Nat.lt_of_le_of_lt (Nat.add_le_add_left hperiod _)
    (lt_of_lt_of_le (Nat.add_lt_add_right hplaced _) (by decide)))]

theorem subtractPeriod_addPeriod (hperiod : period ≤ nsPerSecond)
    (hplaced : state.request.placementStamp.time.nseconds < nsPerSecond) :
    subtractPeriod period (addPeriod period state) = state := by
  have hback : (state.request.placementStamp.time.nseconds + period + wordModulus - period) %
      wordModulus = state.request.placementStamp.time.nseconds := by
    unfold nsPerSecond wordModulus at *
    omega
  rw [addPeriod_nseconds hperiod hplaced, subtractPeriod]
  simp only [State.setPlacementNseconds, hback]

theorem not_lt_addPeriod_iff (hplacement : Normalized state.request.placementStamp)
    (hexpiration : Normalized state.request.expirationStamp) (hperiod : period ≤ nsPerSecond) :
    ¬ (addPeriod period state).request.expirationStamp <
        (addPeriod period state).request.placementStamp ↔ Accepts state.request period := by
  rw [addPeriod_nseconds hperiod hplacement.nseconds]
  let added := state.setPlacementNseconds (state.request.placementStamp.time.nseconds + period)
  have hdated : Dated added.request.placementStamp := ⟨hplacement.seconds, hplacement.date⟩
  have hcompare : added.request.expirationStamp < added.request.placementStamp ↔ _ :=
    lt_iff_second hexpiration.toDated hdated
  rw [hcompare, Accepts]
  simp only [added, State.setPlacementNseconds, second, day]
  omega

/-- The last of the latched queues, which the loop leaves in `suboptimal`. -/
def lastLatched (mask : Nat) : List Nat → Nat → Option Nat → Option Nat
  | [], _, suboptimal => suboptimal
  | _ :: periods, i, suboptimal =>
    if mask.testBit i = false then lastLatched mask periods (i + 1) suboptimal
    else lastLatched mask periods (i + 1) (some i)

def settle (answers : Nat → Kerror) (state : State) : Option Nat → Kerror × State
  | none => (.fatal, state)
  | some queue => (answers queue, insert queue state)

def FirstAccepted (mask : Nat) (request : Request) (periods : List Nat) (i place : Nat) : Prop :=
  (∃ period, periods[place]? = some period ∧ Accepts request period) ∧
    mask.testBit (i + place) = true ∧ ∀ earlier, earlier < place →
      mask.testBit (i + earlier) = true → ∀ period, periods[earlier]? = some period →
        ¬ Accepts request period

theorem firstAccepted_succ {periods : List Nat} {i place : Nat}
    (h : FirstAccepted mask request periods (i + 1) place)
    (hfirst : mask.testBit i = true → ¬ Accepts request period) :
    FirstAccepted mask request (period :: periods) i (place + 1) := by
  obtain ⟨hthere, hlatched, hearlier⟩ := h
  refine ⟨hthere, ?_, ?_⟩
  · rw [← hlatched]
    congr 1
    omega
  · intro earlier hlt hbit period' hperiod'
    cases earlier with
    | zero =>
      cases hperiod'
      exact hfirst hbit
    | succ earlier =>
      have hindex : i + (earlier + 1) = i + 1 + earlier := by omega
      rw [hindex] at hbit
      exact hearlier earlier (by omega) hbit period' hperiod'

/-- The loop ends at the first latched queue that the comparison finds time for, or it runs
through all of them. -/
def Ends (mask : Nat) (answers : Nat → Kerror) (state : State) (periods : List Nat) (i : Nat)
    (suboptimal : Option Nat) (result : Kerror × State) : Prop :=
  (∃ place, FirstAccepted mask state.request periods i place ∧
    result =
      (answers (i + place), { state with inserted := (i + place, true) :: state.inserted })) ∨
  ((∀ place, mask.testBit (i + place) = true → ∀ period, periods[place]? = some period →
      ¬ Accepts state.request period) ∧
    result = settle answers state (lastLatched mask periods i suboptimal))

theorem Ends.cons {periods : List Nat} {i : Nat} {suboptimal suboptimal' : Option Nat}
    {result : Kerror × State} (h : Ends mask answers state periods (i + 1) suboptimal' result)
    (hfirst : mask.testBit i = true → ¬ Accepts state.request period)
    (hlast : lastLatched mask (period :: periods) i suboptimal =
      lastLatched mask periods (i + 1) suboptimal') :
    Ends mask answers state (period :: periods) i suboptimal result := by
  rcases h with ⟨place, hplace, hresult⟩ | ⟨hnone, hresult⟩
  · left
    have hindex : i + 1 + place = i + (place + 1) := by omega
    rw [hindex] at hresult
    exact ⟨place + 1, firstAccepted_succ hplace hfirst, hresult⟩
  right
  refine ⟨?_, by rw [hlast, hresult]⟩
  intro place hbit period' hperiod'
  cases place with
  | zero =>
    cases hperiod'
    exact hfirst hbit
  | succ place =>
    have hindex : i + (place + 1) = i + 1 + place := by omega
    rw [hindex] at hbit
    exact hnone place hbit period' hperiod'

theorem queueLoop_ends (hplacement : Normalized state.request.placementStamp)
    (hexpiration : Normalized state.request.expirationStamp) (periods : List Nat)
    (hperiods : ∀ period ∈ periods, period ≤ nsPerSecond) (i : Nat) (suboptimal : Option Nat) :
    Ends mask answers state periods i suboptimal
      (queueLoop mask answers periods i suboptimal state) := by
  induction periods generalizing i suboptimal with
  | nil =>
    right
    refine ⟨fun _ _ _ hnone => by simp at hnone, ?_⟩
    cases suboptimal <;> rfl
  | cons period periods ih =>
    have hrest : ∀ period ∈ periods, period ≤ nsPerSecond :=
      fun other hmem => hperiods other (mem_cons_of_mem _ hmem)
    have hle := hperiods period mem_cons_self
    have hback := subtractPeriod_addPeriod hle hplacement.nseconds
    have hcompare := not_lt_addPeriod_iff hplacement hexpiration hle
    rcases Bool.eq_false_or_eq_true (mask.testBit i) with hlatched | hlatched
    · simp only [queueLoop, hlatched, Bool.true_eq_false, if_false, hback]
      rcases em (Accepts state.request period) with haccepts | hrejects
      · left
        refine ⟨0, ⟨⟨period, rfl, haccepts⟩, hlatched, fun _ hlt => absurd hlt (by omega)⟩, ?_⟩
        rw [if_neg (hcompare.mpr haccepts)]
        simp [lockRequestQueue, insert, unlockRequestQueue]
      · rw [if_pos (Classical.not_not.mp (mt hcompare.mp hrejects))]
        refine (ih hrest (i + 1) (some i)).cons (fun _ => hrejects) ?_
        simp [lastLatched, hlatched]
    · simp only [queueLoop, hlatched, if_true]
      refine (ih hrest (i + 1) suboptimal).cons (fun hbit => ?_) ?_
      · rw [hlatched] at hbit
        cases hbit
      · simp [lastLatched, hlatched]

theorem lastLatched_isSome (mask : Nat) (periods : List Nat) (i : Nat) (suboptimal : Option Nat) :
    (lastLatched mask periods i suboptimal).isSome ↔ suboptimal.isSome ∨
      ∃ place, place < periods.length ∧ mask.testBit (i + place) = true := by
  induction periods generalizing i suboptimal with
  | nil => simp [lastLatched]
  | cons period periods ih =>
    have hstep : (∃ place, place < (period :: periods).length ∧
          mask.testBit (i + place) = true) ↔ mask.testBit i = true ∨
        ∃ place, place < periods.length ∧ mask.testBit (i + 1 + place) = true := by
      constructor
      · rintro ⟨place, hlt, hbit⟩
        cases place with
        | zero => exact .inl hbit
        | succ place =>
          refine .inr ⟨place, by simpa using hlt, ?_⟩
          rw [← hbit]
          congr 1
          omega
      · rintro (hbit | ⟨place, hlt, hbit⟩)
        · exact ⟨0, by simp, hbit⟩
        · refine ⟨place + 1, by simpa using hlt, ?_⟩
          rw [← hbit]
          congr 1
          omega
    rw [hstep, lastLatched]
    rcases Bool.eq_false_or_eq_true (mask.testBit i) with hlatched | hlatched
    · rw [if_neg (by simp [hlatched]), ih]
      simp [hlatched]
    · rw [if_pos hlatched, ih, hlatched]
      simp

end

section

variable {mask : Nat} {answers : Nat → Kerror} {request : Request}

theorem nativePeriods_le : ∀ period ∈ nativePeriods, period ≤ nsPerSecond := by
  decide

theorem periodOf_lt : ∀ queue, queue < nativePeriods.length → ∀ earlier, earlier < queue →
    periodOf queue < periodOf earlier := by
  decide

theorem getElem?_nativePeriods {queue : Nat} (h : queue < nativePeriods.length) :
    nativePeriods[queue]? = some (periodOf queue) := by
  rw [periodOf, getD_eq_getElem?_getD, getElem?_eq_getElem h, Option.getD_some]

structure FirstQueue (mask : Nat) (request : Request) (queue : Nat) : Prop where
  latched : Latched mask queue
  accepts : Accepts request (periodOf queue)
  first : ∀ other, Latched mask other → Accepts request (periodOf other) → queue ≤ other

theorem FirstQueue.periodOf_le {queue other : Nat} (h : FirstQueue mask request queue)
    (hother : Latched mask other) (haccepts : Accepts request (periodOf other)) :
    periodOf other ≤ periodOf queue := by
  rcases Nat.eq_or_lt_of_le (h.first other hother haccepts) with rfl | hlt
  · exact le_refl _
  · exact le_of_lt (periodOf_lt other hother.1 queue hlt)

theorem insertTimerQueueRequestObject_cases (answers : Nat → Kerror)
    (hplacement : Normalized request.placementStamp)
    (hexpiration : Normalized request.expirationStamp) :
    (∃ queue, FirstQueue mask request queue ∧ insertTimerQueueRequestObject mask answers request =
      (answers queue, ⟨request, [], [(queue, true)]⟩)) ∨
    ((∀ queue, Latched mask queue → ¬ Accepts request (periodOf queue)) ∧
      (((∃ other, Latched mask other) ∧ ∃ queue,
          insertTimerQueueRequestObject mask answers request =
            (answers queue, ⟨request, [], [(queue, false)]⟩)) ∨ (∀ queue, ¬ Latched mask queue) ∧
          insertTimerQueueRequestObject mask answers request = (.fatal, ⟨request, [], []⟩))) := by
  have hends : Ends mask answers ⟨request, [], []⟩ nativePeriods 0 none
      (insertTimerQueueRequestObject mask answers request) :=
    queueLoop_ends hplacement hexpiration nativePeriods nativePeriods_le 0 none
  rcases hends with ⟨queue, ⟨⟨period, hperiod, haccepts⟩, hbit, hearlier⟩, hrun⟩ | ⟨hnone, hrun⟩
  · left
    rw [zero_add] at hbit hrun
    have hlt : queue < nativePeriods.length := (List.getElem?_eq_some_iff.mp hperiod).1
    rw [getElem?_nativePeriods hlt] at hperiod
    cases hperiod
    refine ⟨queue, ⟨⟨hlt, hbit⟩, haccepts, ?_⟩, hrun⟩
    intro other hother haccepts'
    rcases lt_or_ge other queue with hbefore | hafter
    · exact absurd haccepts' (hearlier other hbefore (by rw [zero_add]; exact hother.2) _
        (getElem?_nativePeriods hother.1))
    · exact hafter
  right
  have hsome := lastLatched_isSome mask nativePeriods 0 none
  simp only [Option.isSome_none, Bool.false_eq_true, false_or, zero_add] at hsome hnone
  refine ⟨fun queue hqueue => hnone queue hqueue.2 _ (getElem?_nativePeriods hqueue.1), ?_⟩
  cases hlast : lastLatched mask nativePeriods 0 none with
  | none =>
    right
    rw [hlast] at hrun hsome
    refine ⟨fun queue hqueue => ?_, hrun⟩
    exact absurd (hsome.mpr ⟨queue, hqueue⟩) (by simp)
  | some queue =>
    left
    rw [hlast] at hrun hsome
    exact ⟨hsome.mp rfl, queue, hrun⟩

theorem Fits.accepts {period : Nat} (hplacement : Normalized request.placementStamp)
    (hexpiration : Normalized request.expirationStamp) (h : Fits request period) :
    Accepts request period := by
  have hns := hplacement.nseconds
  have hns' := hexpiration.nseconds
  unfold Fits instant at h
  unfold Accepts
  unfold nsPerSecond at *
  omega

theorem Accepts.fits {period : Nat}
    (hsame : second request.expirationStamp ≤ second request.placementStamp)
    (h : Accepts request period) : Fits request period := by
  unfold Accepts at h
  unfold Fits instant nsPerSecond
  omega

theorem FirstQueue.chosen_iff {queue : Nat} (h : FirstQueue mask request queue)
    (hplacement : Normalized request.placementStamp)
    (hexpiration : Normalized request.expirationStamp) :
    Chosen mask request queue ↔ Sound mask request := by
  constructor
  · rintro ⟨-, hchosen⟩
    constructor
    · intro hlater other hother
      have hall : ∀ other, Latched mask other → queue ≤ other :=
        fun other hother => h.first other hother (.inl hlater)
      rcases hchosen with ⟨hfits, -⟩ | ⟨-, hshortest⟩
      · left
        have hperiod := h.periodOf_le hother (.inl hlater)
        unfold Fits at *
        omega
      -- the first and the last of the latched queues are one
      right
      have honly : ∀ other, Latched mask other → other = queue := by
        intro other hother
        rcases Nat.eq_or_lt_of_le (hall other hother) with heq | hlt
        · exact heq.symm
        · have hperiod := periodOf_lt other hother.1 queue hlt
          exact absurd (hshortest other hother) (by omega)
      intro another hanother
      rw [honly other hother, honly another hanother]
    · intro hsame _
      rcases h.accepts with hlater | ⟨heq, hle⟩
      · omega
      · exact ⟨heq, queue, h.latched, hle⟩
  · intro hsound
    refine ⟨h.latched, ?_⟩
    have hlongest : ∀ other, Latched mask other → Fits request (periodOf other) →
        periodOf other ≤ periodOf queue :=
      fun other hother hfits => h.periodOf_le hother (hfits.accepts hplacement hexpiration)
    rcases lt_or_ge (second request.placementStamp) (second request.expirationStamp)
      with hlater | hsame
    · rcases em (Fits request (periodOf queue)) with hfits | hnot
      · exact .inl ⟨hfits, hlongest⟩
      · have honly := (hsound.later hlater queue h.latched).resolve_left hnot
        refine .inr ⟨fun other hother => ?_, fun other hother => ?_⟩
        · rw [honly other hother]
          exact hnot
        · rw [honly other hother]
    · exact .inl ⟨h.accepts.fits hsame, hlongest⟩

/-- A request goes where it should exactly when it expires in a later second than it was placed in
and has the time for each latched queue, unless there is but one, or when it expires in the same
second and has the time for one of them. -/
theorem chooses_iff_sound (answers : Nat → Kerror) (hplacement : Normalized request.placementStamp)
    (hexpiration : Normalized request.expirationStamp) :
    Meets mask answers request ↔ Sound mask request := by
  rcases insertTimerQueueRequestObject_cases answers hplacement hexpiration with
    ⟨queue, hfirst, hrun⟩ | ⟨hnone, ⟨hlatched, queue, hrun⟩ | ⟨hempty, hrun⟩⟩
  · rw [← hfirst.chosen_iff hplacement hexpiration]
    constructor
    · intro hmeets
      obtain ⟨queue', hchosen, hinserted⟩ := hmeets.chosen ⟨queue, hfirst.latched⟩
      rw [hrun] at hinserted
      obtain ⟨hpair, -⟩ := cons.inj hinserted
      obtain ⟨rfl, -⟩ := Prod.mk.inj hpair
      exact hchosen
    · intro hchosen
      refine ⟨by rw [hrun], fun _ => ⟨queue, hchosen, by rw [hrun]⟩, fun hempty => ?_⟩
      exact absurd hfirst.latched (hempty queue)
  · -- the insertion after the loop is without the lock
    refine iff_of_false ?_ ?_
    · intro hmeets
      obtain ⟨queue', -, hinserted⟩ := hmeets.chosen hlatched
      rw [hrun] at hinserted
      simp at hinserted
    · intro hsound
      rcases lt_or_ge (second request.placementStamp) (second request.expirationStamp)
        with hlater | hsame
      · obtain ⟨other, hother⟩ := hlatched
        exact hnone other hother (.inl hlater)
      · obtain ⟨heq, other, hother, hle⟩ := hsound.same hsame hlatched
        exact hnone other hother (.inr ⟨heq, hle⟩)
  · refine iff_of_true ⟨by rw [hrun], ?_, fun _ => by rw [hrun]⟩ ⟨?_, ?_⟩
    · rintro ⟨queue, hqueue⟩
      exact absurd hqueue (hempty queue)
    · intro _ queue hqueue
      exact absurd hqueue (hempty queue)
    · rintro - ⟨queue, hqueue⟩
      exact absurd hqueue (hempty queue)

end

def requestAt (placed expires : Time) : Request where
  address := 1
  targetPid := 1
  flags := 0
  privateData := 0
  placementStamp := ⟨⟨2000, 1, 1, 6⟩, placed⟩
  expirationStamp := ⟨⟨2000, 1, 1, 6⟩, expires⟩

theorem normalized_requestAt {placed expires : Time} (hplaced : placed.seconds < secondsPerDay)
    (hplaced' : placed.nseconds < nsPerSecond) (hexpires : expires.seconds < secondsPerDay)
    (hexpires' : expires.nseconds < nsPerSecond) :
    Normalized (requestAt placed expires).placementStamp ∧
      Normalized (requestAt placed expires).expirationStamp := by
  have hdate : Calendar.IsDate 2000 1 1 := ⟨by decide, by decide, by decide, by decide⟩
  exact ⟨⟨⟨hplaced, hdate⟩, hplaced'⟩, ⟨⟨hexpires, hdate⟩, hexpires'⟩⟩

theorem meets_twentyMs : Meets 12 (fun _ => .success) (requestAt ⟨0, 0⟩ ⟨0, 20000000⟩) := by
  have hnormalized := @normalized_requestAt ⟨0, 0⟩ ⟨0, 20000000⟩ (by decide) (by decide)
    (by decide) (by decide)
  refine (chooses_iff_sound _ hnormalized.1 hnormalized.2).mpr ⟨?_, fun _ _ => ⟨rfl, 2, ?_, ?_⟩⟩
  · intro hlater
    exact absurd hlater (by decide)
  · exact ⟨by decide, by decide⟩
  · decide

/-- A request that is placed at the end of a second, and expires 2 ms later, goes into the queue of
10 ms although that of 1 ms is latched. -/
theorem endOfSecond_goes_wrong : ¬ ∀ (mask : Nat) (answers : Nat → Kerror) (request : Request),
      Normalized request.placementStamp → Normalized request.expirationStamp →
        Meets mask answers request := by
  intro hclaim
  have hnormalized := @normalized_requestAt ⟨0, 999000000⟩ ⟨1, 1000000⟩ (by decide) (by decide)
    (by decide) (by decide)
  have hmeets := hclaim 12 (fun _ => .success) _ hnormalized.1 hnormalized.2
  obtain ⟨queue, hchosen, hinserted⟩ := hmeets.chosen ⟨2, by decide, by decide⟩
  obtain ⟨hpair, -⟩ := cons.inj hinserted
  obtain ⟨rfl, -⟩ := Prod.mk.inj hpair
  have hfits : Fits (requestAt ⟨0, 999000000⟩ ⟨1, 1000000⟩) (periodOf 3) := by
    unfold Fits
    decide +kernel
  have hnot : ¬ Fits (requestAt ⟨0, 999000000⟩ ⟨1, 1000000⟩) (periodOf 2) := by
    unfold Fits
    decide +kernel
  rcases hchosen.2 with ⟨hlong, -⟩ | ⟨hnone, -⟩
  · exact hnot hlong
  · exact hnone 3 ⟨by decide, by decide⟩ hfits

end Zambesii.QueueChoice
