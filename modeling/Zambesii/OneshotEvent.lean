import Zambesii.Instants
import Zambesii.SortedHeapDoubleList

/-!
`TimerStream::createOneshotEvent`: when a request of relative type expires.
-/

namespace Zambesii.OneshotEvent

open KernelTypes
open SortedHeapDoubleList (insertByKey)
open TimeTypes Instants

/-- `sTimerMsg`: a request of the type `ONESHOT`, known by its address. -/
structure Request where
  address : Nat
  targetPid : Nat
  flags : Nat
  privateData : Nat
  placementStamp : Timestamp
  expirationStamp : Timestamp
deriving DecidableEq

/-- What the heap, the clock and the queues answer; `fresh` is the memory for the request. -/
structure Answers where
  fresh : Option Nat
  fullId : Nat
  currentDateTime : Timestamp
  addItem : Kerror
  insertTimerQueueRequestObject : Kerror

def typeRelative : Nat := 1

def typeMaxval : Nat := 1

/-- The request that was made, the requests of the stream afterwards, and what was taken out of and
put into the timer queues. -/
structure Outcome where
  ret : Kerror
  request : Option Request
  requests : List Request
  cancelled : Option Request
  inserted : Option Request

def expirationStampOf (placementStamp stamp : Timestamp) (type : Nat) : Timestamp :=
  if type = typeRelative then
    { placementStamp with
      time :=
        { seconds := (placementStamp.time.seconds + stamp.time.seconds) % wordModulus
          nseconds := (placementStamp.time.nseconds + stamp.time.nseconds) % wordModulus } }
  else stamp

/-- The part of `createOneshotEvent` under the lock of the request queue, and what follows it. -/
def addRequest (answers : Answers) (requests : List Request) (request : Request) : Outcome :=
  let added := if answers.addItem = .success then
    insertByKey Request.expirationStamp request requests else requests
  let install := fun cancelled : Option Request =>
    if answers.addItem ≠ .success then
      ⟨answers.addItem, some request, added, cancelled, none⟩
    else
      ⟨answers.insertTimerQueueRequestObject, some request, added, cancelled, some request⟩
  match requests with
  | [] => install none
  | tmp :: _ =>
    if request.expirationStamp < tmp.expirationStamp then install (some tmp)
    else ⟨answers.addItem, some request, added, none, none⟩

def createOneshotEvent (answers : Answers) (requests : List Request) (stamp : Timestamp)
    (type flags privateData : Nat) : Outcome :=
  if type > typeMaxval then ⟨.invalidArgVal, none, requests, none, none⟩
  else
    match answers.fresh with
    | none => ⟨.memoryNomem, none, requests, none, none⟩
    | some address =>
      addRequest answers requests
        { address
          targetPid := answers.fullId
          flags
          privateData
          placementStamp := answers.currentDateTime
          expirationStamp := expirationStampOf answers.currentDateTime stamp type }

def delay (stamp : Timestamp) : Nat := stamp.time.seconds * nsPerSecond + stamp.time.nseconds

/-- The request expires so much later than it was placed, and the comparison operators see it. -/
structure Expires (request : Request) (stamp : Timestamp) : Prop where
  nseconds : request.expirationStamp.time.nseconds < nsPerSecond
  seconds : request.expirationStamp.time.seconds < secondsPerDay
  exact : instant request.expirationStamp = instant request.placementStamp + delay stamp
  date : Dated request.placementStamp → Dated request.expirationStamp
  ordered : Dated request.placementStamp → ∀ other, Normalized other →
    (request.expirationStamp < other ↔
      instant request.placementStamp + delay stamp < instant other) ∧
    (other < request.expirationStamp ↔
      instant other < instant request.placementStamp + delay stamp)

def Meets (answers : Answers) (requests : List Request) (stamp : Timestamp)
    (flags privateData : Nat) : Prop :=
  ∃ request, (createOneshotEvent answers requests stamp typeRelative flags privateData).request =
      some request ∧ request.placementStamp = answers.currentDateTime ∧ Expires request stamp

structure NoCarry (now stamp : Timestamp) : Prop where
  nseconds : now.time.nseconds + stamp.time.nseconds < nsPerSecond
  seconds : now.time.seconds + stamp.time.seconds < secondsPerDay

section

variable {answers : Answers} {requests : List Request} {stamp now : Timestamp}
  {flags privateData address : Nat}

theorem addRequest_request (answers : Answers) (requests : List Request) (request : Request) :
    (addRequest answers requests request).request = some request := by
  cases requests with
  | nil =>
    simp only [addRequest]
    split <;> rfl
  | cons tmp rest =>
    simp only [addRequest]
    split
    · split <;> rfl
    · rfl

theorem instant_expirationStampOf_iff (now stamp : Timestamp) :
    instant (expirationStampOf now stamp typeRelative) = instant now + delay stamp ↔
      now.time.seconds + stamp.time.seconds < wordModulus ∧
        now.time.nseconds + stamp.time.nseconds < wordModulus := by
  rw [expirationStampOf, if_pos rfl]
  simp only [instant, second, day, delay]
  unfold nsPerSecond secondsPerDay wordModulus
  omega

theorem NoCarry.expirationStampOf_eq (h : NoCarry now stamp) :
    expirationStampOf now stamp typeRelative =
      { now with
        time := ⟨now.time.seconds + stamp.time.seconds,
          now.time.nseconds + stamp.time.nseconds⟩ } := by
  have hnseconds := h.nseconds
  have hseconds := h.seconds
  have hns : (now.time.nseconds + stamp.time.nseconds) % wordModulus =
      now.time.nseconds + stamp.time.nseconds :=
    Nat.mod_eq_of_lt (lt_trans hnseconds (by decide))
  have hs : (now.time.seconds + stamp.time.seconds) % wordModulus =
      now.time.seconds + stamp.time.seconds :=
    Nat.mod_eq_of_lt (lt_trans hseconds (by decide))
  rw [expirationStampOf, if_pos rfl, hns, hs]

theorem expires_iff_noCarry (address targetPid flags privateData : Nat) (now stamp : Timestamp) :
    Expires ⟨address, targetPid, flags, privateData, now, expirationStampOf now stamp typeRelative⟩
      stamp ↔ NoCarry now stamp := by
  constructor
  · rintro ⟨hnseconds, hseconds, hexact, -, -⟩
    obtain ⟨hs, hns⟩ := (instant_expirationStampOf_iff now stamp).mp hexact
    simp only [expirationStampOf, if_pos, Nat.mod_eq_of_lt hs, Nat.mod_eq_of_lt hns]
      at hnseconds hseconds
    exact ⟨hnseconds, hseconds⟩
  · intro h
    have heq := h.expirationStampOf_eq
    have hwords : now.time.seconds + stamp.time.seconds < wordModulus ∧
        now.time.nseconds + stamp.time.nseconds < wordModulus :=
      ⟨lt_trans h.seconds (by decide), lt_trans h.nseconds (by decide)⟩
    have hexact := (instant_expirationStampOf_iff now stamp).mpr hwords
    have hdated : Dated now → Dated (expirationStampOf now stamp typeRelative) := by
      intro hnow
      rw [heq]
      exact ⟨h.seconds, hnow.date⟩
    refine ⟨by rw [heq]; exact h.nseconds, by rw [heq]; exact h.seconds, hexact, hdated, ?_⟩
    intro hnow other hother
    have hnormal : Normalized (expirationStampOf now stamp typeRelative) :=
      ⟨hdated hnow, by rw [heq]; exact h.nseconds⟩
    rw [lt_iff_instant hnormal hother, lt_iff_instant hother hnormal, hexact]
    exact ⟨Iff.rfl, Iff.rfl⟩

/-- `createOneshotEvent` computes when a relative request expires exactly when nothing is carried
from the nanoseconds to the seconds or from the seconds to the day. -/
theorem meets_iff_noCarry (hfresh : answers.fresh = some address) :
    Meets answers requests stamp flags privateData ↔ NoCarry answers.currentDateTime stamp := by
  have hcreated : (createOneshotEvent answers requests stamp typeRelative flags
      privateData).request = some ⟨address, answers.fullId, flags, privateData,
        answers.currentDateTime, expirationStampOf answers.currentDateTime stamp typeRelative⟩ := by
    rw [createOneshotEvent, if_neg (by decide), hfresh]
    exact addRequest_request ..
  rw [Meets, hcreated, ← expires_iff_noCarry address answers.fullId flags privateData]
  constructor
  · rintro ⟨request, hrequest, -, hexpires⟩
    cases hrequest
    exact hexpires
  · intro hexpires
    exact ⟨_, rfl, rfl, hexpires⟩

end

def atNoon : Answers where
  fresh := some 1
  fullId := 1
  currentDateTime := ⟨⟨2000, 1, 1, 6⟩, ⟨43200, 500000000⟩⟩
  addItem := .success
  insertTimerQueueRequestObject := .success

def after (seconds nseconds : Nat) : Timestamp := ⟨⟨0, 0, 0, 0⟩, ⟨seconds, nseconds⟩⟩

theorem meets_after_aQuarter : Meets atNoon [] (after 1 250000000) 0 0 :=
  (meets_iff_noCarry (show atNoon.fresh = some 1 from rfl)).mpr ⟨by decide, by decide⟩

theorem after_aHalf_carries : ¬ ∀ (answers : Answers) (requests : List Request) (stamp : Timestamp)
      (flags privateData : Nat), answers.fresh.isSome → Normalized answers.currentDateTime →
        stamp.time.seconds < wordModulus → stamp.time.nseconds < wordModulus →
          Meets answers requests stamp flags privateData := by
  intro hclaim
  have hnow : Normalized atNoon.currentDateTime :=
    ⟨⟨by decide, by decide, by decide, by decide, by decide⟩, by decide⟩
  obtain ⟨request, hrequest, -, hexpires⟩ :=
    hclaim atNoon [] (after 0 500000000) 0 0 rfl hnow (by decide) (by decide)
  cases hrequest
  exact absurd hexpires.nseconds (by decide)

end Zambesii.OneshotEvent
