import Mathlib.Algebra.Order.Ring.Int
import Mathlib.Data.Fintype.Basic
import Zambesii.KernelTypes
import Zambesii.Runs

/-!
`PrioQueue`: an array of queues, each with a lock of its own, and the number of the first
queue that has items, with a lock of its own as well. The first section has each
operation as a whole, the rest has the operations of several callers, one critical section
at a time.
-/

namespace Zambesii

structure PrioQueue (T : Type) where
  queues : Nat → List T
  headQueue : Int

namespace PrioQueue

open Function List Nat
open KernelTypes Runs

def sbit16 (value : Nat) : Int := Int.bmod value (2 ^ 16)

def ubit16 (value : Int) : Nat := (value % 2 ^ 16).toNat

def emptyQueue (T : Type) : PrioQueue T where
  queues := fun _ => []
  headQueue := -1

section

variable {T : Type}

/-- `Queue::insert`, when its node is allocated. -/
def queueInsert (pq : PrioQueue T) (item : T) (prio : Nat) (front : Bool) : PrioQueue T :=
  { pq with
    queues := update pq.queues prio
      (if front then item :: pq.queues prio else pq.queues prio ++ [item]) }

def raiseHead (pq : PrioQueue T) (prio : Nat) : PrioQueue T :=
  if pq.headQueue = -1 ∨ (prio : Int) < pq.headQueue then { pq with headQueue := sbit16 prio }
  else pq

def queuePop (pq : PrioQueue T) (qId : Nat) : PrioQueue T :=
  { pq with queues := update pq.queues qId (pq.queues qId).tail }

def queueRemove [DecidableEq T] (pq : PrioQueue T) (item : T) (prio : Nat) : PrioQueue T :=
  { pq with queues := update pq.queues prio ((pq.queues prio).erase item) }

/-- The assignment to `headQueue` after the loop over the queues. -/
def storeHead (pq : PrioQueue T) : Option Nat → PrioQueue T
  | none => { pq with headQueue := -1 }
  | some i => { pq with headQueue := sbit16 i }

/-- The loop over the queues in `pop` and `remove`, with `remaining` turns left. -/
def scan (pq : PrioQueue T) (skip : Nat) : Nat → Nat → Option Nat
  | 0, _ => none
  | remaining + 1, i =>
    if i = skip then pq.scan skip remaining (i + 1)
    else if pq.queues i ≠ [] then some i
    else pq.scan skip remaining (i + 1)

def insert (pq : PrioQueue T) (nPrios : Nat) (item : T) (prio : Nat) (front : Bool) :
    Kerror × PrioQueue T :=
  if nPrios ≤ prio then (.invalidArgVal, pq)
  else (.success, (pq.queueInsert item prio front).raiseHead prio)

def pop (pq : PrioQueue T) (nPrios : Nat) : Option T × PrioQueue T :=
  if pq.headQueue = -1 then (none, pq)
  else
    let qId := ubit16 pq.headQueue
    let popped := pq.queuePop qId
    ((pq.queues qId).head?,
      if popped.queues qId = [] then popped.storeHead (popped.scan qId nPrios 0) else popped)

def remove [DecidableEq T] (pq : PrioQueue T) (nPrios : Nat) (item : T) (prio : Nat) :
    PrioQueue T :=
  let removed := pq.queueRemove item prio
  if (prio : Int) = removed.headQueue ∧ removed.queues prio = [] then
    removed.storeHead (removed.scan prio nPrios 0)
  else removed

end

/-- `headQueue` is the number of the first queue that has items. -/
def HeadCorrect {T : Type} (nPrios : Nat) (pq : PrioQueue T) : Prop :=
  (pq.headQueue = -1 ∧ ∀ q, q < nPrios → pq.queues q = []) ∨
    ∃ q, q < nPrios ∧ pq.headQueue = q ∧ pq.queues q ≠ [] ∧ ∀ r, r < q → pq.queues r = []

theorem sbit16_of_lt {value : Nat} (h : value < 2 ^ 15) : sbit16 value = value := by
  unfold sbit16
  rw [Int.bmod_def]
  omega

theorem ubit16_of_lt {value : Nat} (h : value < 2 ^ 15) : ubit16 value = value := by
  unfold ubit16
  omega

section

variable {T : Type}

@[simp] theorem queues_storeHead (pq : PrioQueue T) (target : Option Nat) :
    (pq.storeHead target).queues = pq.queues := by
  unfold PrioQueue.storeHead
  split
  · rfl
  · rename_i i
    generalize sbit16 i = head
    rfl

@[simp] theorem queues_raiseHead (pq : PrioQueue T) (prio : Nat) :
    (pq.raiseHead prio).queues = pq.queues := by
  unfold PrioQueue.raiseHead
  generalize sbit16 prio = head
  split <;> rfl

theorem insert_of_lt (pq : PrioQueue T) {nPrios prio : Nat} (h : prio < nPrios) (item : T)
    (front : Bool) : pq.insert nPrios item prio front =
      (.success, (pq.queueInsert item prio front).raiseHead prio) := by
  rw [PrioQueue.insert, if_neg (not_le.mpr h)]

theorem queues_remove [DecidableEq T] (pq : PrioQueue T) (nPrios : Nat) (item : T) (prio : Nat) :
    (pq.remove nPrios item prio).queues = update pq.queues prio ((pq.queues prio).erase item) := by
  unfold PrioQueue.remove
  dsimp only
  split
  · rw [queues_storeHead]
    rfl
  · rfl

theorem pop_cases (pq : PrioQueue T) (nPrios : Nat) :
    ((pq.pop nPrios).1 = none ∧ (pq.pop nPrios).2.queues = pq.queues) ∨
      ∃ item q rest, (pq.pop nPrios).1 = some item ∧ pq.queues q = item :: rest ∧
        (pq.pop nPrios).2.queues = update pq.queues q rest := by
  unfold PrioQueue.pop
  split
  · exact .inl ⟨rfl, rfl⟩
  have hqueues : ∀ qId : Nat, (if (pq.queuePop qId).queues qId = [] then
      (pq.queuePop qId).storeHead ((pq.queuePop qId).scan qId nPrios 0)
      else pq.queuePop qId).queues = update pq.queues qId (pq.queues qId).tail := by
    intro qId
    split
    · rw [queues_storeHead]
      rfl
    · rfl
  dsimp only
  rw [hqueues]
  generalize ubit16 pq.headQueue = qId
  cases hq : pq.queues qId with
  | nil =>
    refine .inl ⟨rfl, ?_⟩
    rw [tail_nil, ← hq, update_eq_self]
  | cons item rest => exact .inr ⟨item, qId, rest, rfl, hq, rfl⟩

end

section

variable {T : Type} {pq : PrioQueue T} {nPrios : Nat}

theorem scan_spec (pq : PrioQueue T) (skip remaining i : Nat) : (pq.scan skip remaining i = none ∧
        ∀ q, i ≤ q → q < i + remaining → q ≠ skip → pq.queues q = []) ∨
      ∃ target, pq.scan skip remaining i = some target ∧ i ≤ target ∧ target < i + remaining ∧
        pq.queues target ≠ [] ∧ ∀ q, i ≤ q → q < target → q ≠ skip → pq.queues q = [] := by
  induction remaining generalizing i with
  | zero => exact .inl ⟨rfl, by omega⟩
  | succ remaining ih =>
    have hnext : (i = skip ∨ pq.queues i = []) →
        pq.scan skip (remaining + 1) i = pq.scan skip remaining (i + 1) := by
      rintro (rfl | hempty)
      · rw [PrioQueue.scan, if_pos rfl]
      · rw [PrioQueue.scan, if_neg (not_not.mpr hempty), ite_self]
    have hskip : ∀ q, i ≤ q → ¬ i + 1 ≤ q → (i = skip ∨ pq.queues i = []) → q ≠ skip →
        pq.queues q = [] := by
      intro q hle hlt hpassed hne
      obtain rfl : q = i := by omega
      exact hpassed.resolve_left hne
    rcases em (i = skip ∨ pq.queues i = []) with hpassed | hfound
    · rw [hnext hpassed]
      rcases ih (i + 1) with ⟨hnone, hempty⟩ | ⟨target, hsome, hle, hlt, hne, hempty⟩
      · refine .inl ⟨hnone, ?_⟩
        intro q hq hq' hne
        rcases lt_or_ge i q with hlt | hge
        · exact hempty q hlt (by omega) hne
        · exact hskip q hq (by omega) hpassed hne
      · refine .inr ⟨target, hsome, by omega, by omega, hne, ?_⟩
        intro q hq hq' hne'
        rcases lt_or_ge i q with hlt' | hge
        · exact hempty q hlt' hq' hne'
        · exact hskip q hq (by omega) hpassed hne'
    · rw [not_or] at hfound
      refine .inr ⟨i, ?_, le_rfl, by omega, hfound.2, by omega⟩
      rw [PrioQueue.scan, if_neg hfound.1, if_pos hfound.2]

theorem headCorrect_storeHead (hnPrios : nPrios ≤ 2 ^ 15) {skip : Nat}
    (hskip : pq.queues skip = []) : HeadCorrect nPrios (pq.storeHead (pq.scan skip nPrios 0)) := by
  have hother : ∀ q, (q ≠ skip → pq.queues q = []) → pq.queues q = [] := by
    intro q hempty
    rcases eq_or_ne q skip with rfl | hne
    · exact hskip
    · exact hempty hne
  rcases scan_spec pq skip nPrios 0 with ⟨hnone, hempty⟩ | ⟨target, hsome, -, hlt, hne, hempty⟩
  · rw [hnone]
    refine .inl ⟨rfl, ?_⟩
    intro q hq
    exact hother q (hempty q (zero_le q) (by omega))
  have hstore : pq.storeHead (some target) = { pq with headQueue := target } := by
    rw [PrioQueue.storeHead, sbit16_of_lt (by omega)]
  rw [hsome, hstore]
  refine .inr ⟨target, by omega, rfl, hne, ?_⟩
  intro q hq
  exact hother q (hempty q (zero_le q) hq)

theorem queues_insert (pq : PrioQueue T) {prio : Nat} (hprio : prio < nPrios) (item : T)
    (front : Bool) :
    (pq.insert nPrios item prio front).2.queues = update pq.queues prio
      (if front then item :: pq.queues prio else pq.queues prio ++ [item]) := by
  rw [insert_of_lt pq hprio, queues_raiseHead]
  rfl

variable (h : HeadCorrect nPrios pq)

include h

theorem headCorrect_insert (hnPrios : nPrios ≤ 2 ^ 15) {prio : Nat}
    (hprio : prio < nPrios) (item : T) (front : Bool) :
    HeadCorrect nPrios (pq.insert nPrios item prio front).2 := by
  rw [insert_of_lt pq hprio]
  have hprio' : sbit16 prio = prio := sbit16_of_lt (by omega)
  have hfull : (pq.queueInsert item prio front).queues prio ≠ [] := by
    simp only [PrioQueue.queueInsert, update_self]
    split
    · simp
    · simp
  have hothers : ∀ q, q ≠ prio → (pq.queueInsert item prio front).queues q = pq.queues q := by
    intro q hq
    simp only [PrioQueue.queueInsert, update_of_ne hq]
  rcases h with ⟨hhead, hempty⟩ | ⟨q, hq, hhead, hne, habove⟩
  · have hraise : (pq.queueInsert item prio front).raiseHead prio =
        { pq.queueInsert item prio front with headQueue := prio } := by
      rw [← hprio']
      exact if_pos (.inl hhead)
    rw [hraise]
    refine .inr ⟨prio, hprio, rfl, hfull, ?_⟩
    intro r hr
    exact (hothers r (by omega)).trans (hempty r (by omega))
  rcases lt_or_ge prio q with hlt | hge
  · have hraise : (pq.queueInsert item prio front).raiseHead prio =
        { pq.queueInsert item prio front with headQueue := prio } := by
      have hbelow : (prio : Int) < pq.headQueue := by omega
      rw [← hprio']
      exact if_pos (.inr hbelow)
    rw [hraise]
    refine .inr ⟨prio, hprio, rfl, hfull, ?_⟩
    intro r hr
    exact (hothers r (by omega)).trans (habove r (by omega))
  have hraise : (pq.queueInsert item prio front).raiseHead prio =
      pq.queueInsert item prio front := by
    refine if_neg ?_
    change ¬ (pq.headQueue = -1 ∨ (prio : Int) < pq.headQueue)
    omega
  rw [hraise]
  refine .inr ⟨q, hq, hhead, ?_, ?_⟩
  · rcases eq_or_ne q prio with rfl | hqp
    · exact hfull
    · rwa [hothers q hqp]
  · intro r hr
    exact (hothers r (by omega)).trans (habove r hr)

theorem pop_of_headCorrect (hnPrios : nPrios ≤ 2 ^ 15) :
    ((pq.pop nPrios).1 = none ∧ (pq.pop nPrios).2 = pq ∧ ∀ q, q < nPrios → pq.queues q = []) ∨
      ∃ item q rest, (pq.pop nPrios).1 = some item ∧ q < nPrios ∧ pq.queues q = item :: rest ∧
        (∀ r, r < q → pq.queues r = []) ∧ (pq.pop nPrios).2.queues = update pq.queues q rest ∧
        HeadCorrect nPrios (pq.pop nPrios).2 := by
  rcases h with ⟨hhead, hempty⟩ | ⟨q, hq, hhead, hne, habove⟩
  · left
    rw [PrioQueue.pop, if_pos hhead]
    exact ⟨rfl, rfl, hempty⟩
  right
  obtain ⟨item, rest, hfirst⟩ := exists_cons_of_ne_nil hne
  have hqId : ubit16 pq.headQueue = q := by rw [hhead, ubit16_of_lt (by omega)]
  have hpopped : (pq.queuePop q).queues = update pq.queues q rest := by
    rw [PrioQueue.queuePop, hfirst, tail_cons]
  rw [PrioQueue.pop, if_neg (by omega)]
  dsimp only
  rw [hqId, hfirst]
  refine ⟨item, q, rest, rfl, hq, hfirst, habove, ?_, ?_⟩
  · split
    · rw [queues_storeHead, hpopped]
    · exact hpopped
  · split
    · rename_i hlast
      exact headCorrect_storeHead hnPrios hlast
    · rename_i hmore
      refine .inr ⟨q, hq, hhead, hmore, ?_⟩
      intro r hr
      rw [hpopped, update_of_ne (by omega)]
      exact habove r hr

theorem headCorrect_remove [DecidableEq T] (hnPrios : nPrios ≤ 2 ^ 15)
    (item : T) (prio : Nat) : HeadCorrect nPrios (pq.remove nPrios item prio) := by
  have hothers : ∀ q, q ≠ prio → (pq.queueRemove item prio).queues q = pq.queues q := by
    intro q hq
    simp only [PrioQueue.queueRemove, update_of_ne hq]
  have hempties : ∀ q, pq.queues q = [] → (pq.queueRemove item prio).queues q = [] := by
    intro q hempty
    rcases eq_or_ne q prio with rfl | hq
    · simp only [PrioQueue.queueRemove, update_self, hempty, erase_nil]
    · rw [hothers q hq, hempty]
  unfold PrioQueue.remove
  dsimp only
  split
  · rename_i hlast
    exact headCorrect_storeHead hnPrios hlast.2
  rename_i hother
  rcases h with ⟨hhead, hempty⟩ | ⟨q, hq, hhead, hne, habove⟩
  · exact .inl ⟨hhead, fun q hq => hempties q (hempty q hq)⟩
  · refine .inr ⟨q, hq, hhead, ?_, fun r hr => hempties r (habove r hr)⟩
    rcases eq_or_ne q prio with rfl | hqp
    · exact fun hempty => hother ⟨hhead.symm, hempty⟩
    · rwa [hothers q hqp]

omit h

end

section

inductive Answer (T : Type)
  | inserted
  | failed (code : Kerror)
  | popped (item : Option T)
  | removed
deriving DecidableEq

inductive Pc (T : Type)
  /-- In none of the operations. -/
  | idle
  /-- `insert` has queued its item. -/
  | insertHead (prio : Nat)
  /-- `pop` has `headQueue`'s lock, as in the next ones. -/
  | popTake (qId : Nat)
  | popCheck (qId : Nat) (ret : Option T)
  /-- In the loop over the queues. -/
  | scan (skip i : Nat) (answer : Answer T)
  /-- Before the assignment to `headQueue`. -/
  | store (target : Option Nat) (answer : Answer T)
  /-- Before the release of the lock. -/
  | leave (answer : Answer T)
  /-- `remove` has removed its item. -/
  | removeHead (prio : Nat)
  /-- `remove` has `headQueue`'s lock. -/
  | removeCheck (prio : Nat)
deriving DecidableEq

/-- The caller has `headQueue`'s lock. -/
def Pc.holdsLock {T : Type} : Pc T → Bool
  | .popTake _ | .popCheck _ _ | .scan _ _ _ | .store _ _ | .leave _ | .removeCheck _ => true
  | _ => false

structure State (T P : Type) where
  pq : PrioQueue T
  owner : Option P
  pc : P → Pc T

/-- A call, or going on with it. `insert` may find no memory for its node, and `remove` is
only called with the priority of one of the queues. -/
inductive Action (T : Type)
  | insert (item : T) (prio : Nat) (front allocated : Bool)
  | pop
  | remove (item : T) (prio : Nat)
  | proceed
deriving DecidableEq

variable {T P : Type} [DecidableEq T] [DecidableEq P]

/-- The state in which the caller `p` has come to `pc`. -/
def State.moved (state : State T P) (p : P) (pq : PrioQueue T) (owner : Option P) (pc : Pc T) :
    State T P where
  pq := pq
  owner := owner
  pc := update state.pc p pc

/-- The next critical section of the caller `p`, and what its operation returns if it was
the last one; `none` when the caller has to wait for the lock or cannot do this. -/
def step (nPrios : Nat) (state : State T P) (p : P) (action : Action T) :
    Option (Option (Answer T) × State T P) :=
  let pq := state.pq
  match state.pc p, action with
  | .idle, .insert item prio front allocated =>
    if nPrios ≤ prio then some (some (.failed .invalidArgVal), state)
    else if allocated = false then some (some (.failed .memoryNomem), state)
    else some (none, state.moved p (pq.queueInsert item prio front) state.owner (.insertHead prio))
  | .insertHead prio, .proceed =>
    if state.owner = none then
      some (some .inserted, state.moved p (pq.raiseHead prio) none .idle)
    else none
  | .idle, .pop =>
    if state.owner = none then
      if pq.headQueue = -1 then some (some (.popped none), state)
      else some (none, state.moved p pq (some p) (.popTake (ubit16 pq.headQueue)))
    else none
  | .popTake qId, .proceed =>
    some (none, state.moved p (pq.queuePop qId) state.owner (.popCheck qId (pq.queues qId).head?))
  | .popCheck qId ret, .proceed =>
    some (none, state.moved p pq state.owner
      (if pq.queues qId = [] then .scan qId 0 (.popped ret) else .leave (.popped ret)))
  | .scan skip i answer, .proceed =>
    some (none, state.moved p pq state.owner
      (if nPrios ≤ i then .store none answer
      else if i = skip then .scan skip (i + 1) answer
      else if pq.queues i ≠ [] then .store (some i) answer
      else .scan skip (i + 1) answer))
  | .store target answer, .proceed =>
    some (some answer, state.moved p (pq.storeHead target) none .idle)
  | .leave answer, .proceed => some (some answer, state.moved p pq none .idle)
  | .idle, .remove item prio =>
    if nPrios ≤ prio then none
    else some (none, state.moved p (pq.queueRemove item prio) state.owner (.removeHead prio))
  | .removeHead prio, .proceed =>
    if state.owner = none then
      if (prio : Int) = pq.headQueue then
        some (none, state.moved p pq (some p) (.removeCheck prio))
      else some (some .removed, state.moved p pq none .idle)
    else none
  | .removeCheck prio, .proceed =>
    some (none, state.moved p pq state.owner
      (if pq.queues prio = [] then .scan prio 0 .removed else .leave .removed))
  | _, _ => none

def initialState (T P : Type) : State T P where
  pq := emptyQueue T
  owner := none
  pc := fun _ => .idle

/-- An `insert` has queued an item in `q` and has still to look at `headQueue`. -/
def Pending (state : State T P) (q : Nat) : Prop :=
  ∃ p, state.pc p = .insertHead q

/-- A `remove` has taken an item out of `q` and has still to look at `headQueue`. -/
def Checking (state : State T P) (q : Nat) : Prop :=
  ∃ p, state.pc p = .removeHead q

/-- `insert` does not set `headQueue` to a queue that was emptied since, unless a `remove`
from that queue has still to look at `headQueue`. -/
def TimelyAt (state : State T P) : Pc T → Action T → Prop
  | .insertHead prio, .proceed =>
    state.pq.headQueue = -1 ∨ (prio : Int) < state.pq.headQueue →
      state.pq.queues prio ≠ [] ∨ Checking state prio
  | _, _ => True

def Timely (state : State T P) (call : P × Action T) : Prop :=
  TimelyAt state (state.pc call.1) call.2

def Step (nPrios : Nat) : State T P → State T P → Prop :=
  GuardedStep (fun state (call : P × Action T) => step nPrios state call.1 call.2) fun _ _ => True

def TimelyStep (nPrios : Nat) : State T P → State T P → Prop :=
  GuardedStep (fun state (call : P × Action T) => step nPrios state call.1 call.2) Timely

/-- A queue that has items is not before `headQueue`, unless the `insert` that will see to
that has still to look at it. -/
def Above (nPrios : Nat) (state : State T P) : Prop :=
  ∀ q, q < nPrios → state.pq.queues q ≠ [] →
    (∃ h : Nat, h ≤ q ∧ state.pq.headQueue = h) ∨ Pending state q

/-- The queue that `headQueue` names has items, unless the `remove` that will see to that
has still to look at it. -/
def Settled (state : State T P) : Prop :=
  ∀ h : Nat, state.pq.headQueue = h → state.pq.queues h ≠ [] ∨ Checking state h

/-- What the loop over the queues knows: of the queues it has seen empty, those that have
items again have them from an `insert` that is not done. -/
def Scanned (nPrios : Nat) (state : State T P) (skip i : Nat) : Prop :=
  ∀ q, q < nPrios → q < i ∨ q = skip → state.pq.queues q ≠ [] → Pending state q

def Storing (nPrios : Nat) (state : State T P) : Option Nat → Prop
  | none => ∀ q, q < nPrios → state.pq.queues q ≠ [] → Pending state q
  | some i => i < nPrios ∧ (state.pq.queues i ≠ [] ∨ Checking state i) ∧
      ∀ q, q < i → state.pq.queues q ≠ [] → Pending state q

/-- What the owner of `headQueue`'s lock has reached. -/
def Reached (nPrios : Nat) (state : State T P) : Pc T → Prop
  | .popTake qId | .popCheck qId _ | .removeCheck qId => state.pq.headQueue = qId
  | .scan skip i _ => Scanned nPrios state skip i
  | .store target _ => Storing nPrios state target
  | .leave _ => Settled state
  | _ => False

structure Inv (nPrios : Nat) (state : State T P) : Prop where
  valid : state.pq.headQueue = -1 ∨ ∃ h : Nat, h < nPrios ∧ state.pq.headQueue = h
  owner : ∀ p, (state.pc p).holdsLock = true → state.owner = some p
  prio : ∀ p q, state.pc p = .insertHead q → q < nPrios
  above : Above nPrios state
  free : state.owner = none → Settled state
  held : ∀ p, state.owner = some p → Reached nPrios state (state.pc p)

theorem inv_initialState (nPrios : Nat) : Inv nPrios (initialState T P) := by
  constructor
  · exact .inl rfl
  · intro p hp
    cases hp
  · intro p q hp
    cases hp
  · intro q _ hne
    exact absurd rfl hne
  · intro _ h hh
    simp only [initialState, emptyQueue] at hh
    omega
  · intro p hp
    cases hp

/-- What a step leaves of the knowledge about the queues: a queue that has items now had
them before or has a pending `insert`, and the other way round for `remove`. -/
structure Follows (state next : State T P) : Prop where
  pending : ∀ q, Pending state q → Pending next q
  checking : ∀ q, Checking state q → Checking next q
  filled : ∀ q, next.pq.queues q ≠ [] → state.pq.queues q ≠ [] ∨ Pending next q
  emptied : ∀ q, state.pq.queues q ≠ [] → next.pq.queues q ≠ [] ∨ Checking next q

section

variable {nPrios : Nat} {state next : State T P}

variable (h : Follows state next)

include h

theorem Follows.above (hhead : next.pq.headQueue = state.pq.headQueue)
    (habove : Above nPrios state) : Above nPrios next := by
  intro q hq hne
  rcases h.filled q hne with hold | hpending
  · rcases habove q hq hold with hle | hpending
    · rw [hhead]
      exact .inl hle
    · exact .inr (h.pending q hpending)
  · exact .inr hpending

theorem Follows.scanned {skip i : Nat}
    (hscanned : Scanned nPrios state skip i) : Scanned nPrios next skip i := by
  intro q hq hseen hne
  rcases h.filled q hne with hold | hpending
  · exact h.pending q (hscanned q hq hseen hold)
  · exact hpending

theorem Follows.named {q : Nat} (hnamed : state.pq.queues q ≠ [] ∨ Checking state q) :
    next.pq.queues q ≠ [] ∨ Checking next q := by
  rcases hnamed with hne | hchecking
  · exact h.emptied q hne
  · exact .inr (h.checking q hchecking)

theorem Follows.storing {target : Option Nat}
    (hstoring : Storing nPrios state target) : Storing nPrios next target := by
  cases target with
  | none =>
    intro q hq hne
    rcases h.filled q hne with hold | hpending
    · exact h.pending q (hstoring q hq hold)
    · exact hpending
  | some i =>
    obtain ⟨hi, hnamed, hbelow⟩ := hstoring
    refine ⟨hi, h.named hnamed, ?_⟩
    intro q hq hne
    rcases h.filled q hne with hold | hpending
    · exact h.pending q (hbelow q hq hold)
    · exact hpending

theorem Follows.settled
    (hhead : next.pq.headQueue = state.pq.headQueue) (hsettled : Settled state) : Settled next := by
  intro k hk
  rw [hhead] at hk
  exact h.named (hsettled k hk)

theorem Follows.reached (hhead : next.pq.headQueue = state.pq.headQueue) {pc : Pc T}
    (hreached : Reached nPrios state pc) : Reached nPrios next pc := by
  cases pc with
  | idle => exact hreached
  | insertHead prio => exact hreached
  | popTake qId => exact hhead.trans hreached
  | popCheck qId ret => exact hhead.trans hreached
  | scan skip i answer => exact h.scanned hreached
  | store target answer => exact h.storing hreached
  | leave answer => exact h.settled hhead hreached
  | removeHead prio => exact hreached
  | removeCheck prio => exact hhead.trans hreached

omit h

end

section

variable {nPrios : Nat} {state : State T P} {p : P} {pq : PrioQueue T} {owner : Option P}
  {pc : Pc T}

theorem pending_moved (hpc : ∀ q, state.pc p ≠ .insertHead q) {q : Nat} (h : Pending state q) :
    Pending (state.moved p pq owner pc) q := by
  obtain ⟨r, hr⟩ := h
  refine ⟨r, ?_⟩
  have hne : r ≠ p := by
    rintro rfl
    exact hpc q hr
  show update state.pc p pc r = _
  rw [update_of_ne hne]
  exact hr

theorem checking_moved {q : Nat} (hpc : state.pc p ≠ .removeHead q) (h : Checking state q) :
    Checking (state.moved p pq owner pc) q := by
  obtain ⟨r, hr⟩ := h
  refine ⟨r, ?_⟩
  have hne : r ≠ p := by
    rintro rfl
    exact hpc hr
  show update state.pc p pc r = _
  rw [update_of_ne hne]
  exact hr

theorem Inv.outside (h : Inv nPrios state) (hidle : state.pc p = .idle)
    (hpc : pc.holdsLock = false) (hprio : ∀ q, pc = .insertHead q → q < nPrios)
    (hfollows : Follows state (state.moved p pq state.owner pc))
    (hhead : pq.headQueue = state.pq.headQueue) : Inv nPrios (state.moved p pq state.owner pc) := by
  have hvalid := h.valid
  rw [← hhead] at hvalid
  refine ⟨hvalid, ?_, ?_, hfollows.above hhead h.above, ?_, ?_⟩
  · intro r hr
    have hr' : (update state.pc p pc r).holdsLock = true := hr
    rcases eq_or_ne r p with rfl | hne
    · rw [update_self, hpc] at hr'
      cases hr'
    · rw [update_of_ne hne] at hr'
      exact h.owner r hr'
  · intro r q hr
    have hr' : update state.pc p pc r = .insertHead q := hr
    rcases eq_or_ne r p with rfl | hne
    · rw [update_self] at hr'
      exact hprio q hr'
    · rw [update_of_ne hne] at hr'
      exact h.prio r q hr'
  · intro hfree
    exact hfollows.settled hhead (h.free hfree)
  · intro r hr
    have hheld := h.held r hr
    have hne : r ≠ p := by
      rintro rfl
      rw [hidle] at hheld
      exact hheld
    show Reached nPrios _ (update state.pc p pc r)
    rw [update_of_ne hne]
    exact hfollows.reached hhead hheld

theorem Inv.holding (h : Inv nPrios state) (howner : state.owner = some p ∨ state.owner = none)
    (hpc : pc.holdsLock = true) (hhead : pq.headQueue = state.pq.headQueue)
    (habove : Above nPrios (state.moved p pq (some p) pc))
    (hreached : Reached nPrios (state.moved p pq (some p) pc) pc) :
    Inv nPrios (state.moved p pq (some p) pc) := by
  have hvalid := h.valid
  rw [← hhead] at hvalid
  refine ⟨hvalid, ?_, ?_, habove, ?_, ?_⟩
  · intro r hr
    have hr' : (update state.pc p pc r).holdsLock = true := hr
    rcases eq_or_ne r p with rfl | hne
    · rfl
    rw [update_of_ne hne] at hr'
    have hheld := h.owner r hr'
    rcases howner with howner | howner
    · rw [howner] at hheld
      exact hheld
    · rw [howner] at hheld
      cases hheld
  · intro r q hr
    have hr' : update state.pc p pc r = .insertHead q := hr
    rcases eq_or_ne r p with rfl | hne
    · rw [update_self] at hr'
      rw [hr'] at hpc
      cases hpc
    · rw [update_of_ne hne] at hr'
      exact h.prio r q hr'
  · intro hfree
    cases hfree
  · intro r hr
    cases hr
    show Reached nPrios _ (update state.pc p pc p)
    rw [update_self]
    exact hreached

theorem Inv.released (h : Inv nPrios state) (howner : state.owner = some p ∨ state.owner = none)
    (hvalid : pq.headQueue = -1 ∨ ∃ k : Nat, k < nPrios ∧ pq.headQueue = k)
    (habove : Above nPrios (state.moved p pq none .idle))
    (hsettled : Settled (state.moved p pq none .idle)) :
    Inv nPrios (state.moved p pq none .idle) := by
  refine ⟨hvalid, ?_, ?_, habove, fun _ => hsettled, ?_⟩
  · intro r hr
    have hr' : (update state.pc p .idle r).holdsLock = true := hr
    rcases eq_or_ne r p with rfl | hne
    · rw [update_self] at hr'
      cases hr'
    rw [update_of_ne hne] at hr'
    have hheld := h.owner r hr'
    rcases howner with howner | howner
    · rw [howner] at hheld
      exact absurd (Option.some.inj hheld) (Ne.symm hne)
    · rw [howner] at hheld
      cases hheld
  · intro r q hr
    have hr' : update state.pc p .idle r = .insertHead q := hr
    rcases eq_or_ne r p with rfl | hne
    · rw [update_self] at hr'
      cases hr'
    · rw [update_of_ne hne] at hr'
      exact h.prio r q hr'
  · intro r hr
    cases hr

end

section

variable {nPrios : Nat} {state : State T P} {p : P}

theorem follows_moved {owner : Option P} {pc : Pc T}
    (hinsert : ∀ q, state.pc p ≠ .insertHead q) (hremove : ∀ q, state.pc p ≠ .removeHead q) :
    Follows state (state.moved p state.pq owner pc) := by
  constructor
  · intro q hq
    exact pending_moved hinsert hq
  · intro q hq
    exact checking_moved (hremove q) hq
  · intro q hq
    exact .inl hq
  · intro q hq
    exact .inl hq

theorem queueInsert_inv (h : Inv nPrios state) (hidle : state.pc p = .idle) (item : T)
    (prio : Nat) (hprio : prio < nPrios) (front : Bool) : Inv nPrios
      (state.moved p (state.pq.queueInsert item prio front) state.owner (.insertHead prio)) := by
  refine h.outside hidle rfl ?_ ?_ rfl
  · intro q hq
    rw [← Pc.insertHead.inj hq]
    exact hprio
  have hself : Pending
      (state.moved p (state.pq.queueInsert item prio front) state.owner (.insertHead prio)) prio :=
    ⟨p, update_self _ _ _⟩
  constructor
  · intro q hq
    exact pending_moved (by simp [hidle]) hq
  · intro q hq
    exact checking_moved (by simp [hidle]) hq
  · intro q hq
    rcases eq_or_ne q prio with rfl | hne
    · exact .inr hself
    · left
      simpa [State.moved, PrioQueue.queueInsert, hne] using hq
  · intro q hq
    left
    rcases eq_or_ne q prio with rfl | hne
    · simp only [State.moved, PrioQueue.queueInsert, update_self]
      cases front with
      | true => simp
      | false => simp
    · simpa [State.moved, PrioQueue.queueInsert, hne] using hq

theorem queueRemove_inv (h : Inv nPrios state) (hidle : state.pc p = .idle) (item : T)
    (prio : Nat) : Inv nPrios
      (state.moved p (state.pq.queueRemove item prio) state.owner (.removeHead prio)) := by
  refine h.outside hidle rfl (by simp) ?_ rfl
  have hself : Checking
      (state.moved p (state.pq.queueRemove item prio) state.owner (.removeHead prio)) prio :=
    ⟨p, update_self _ _ _⟩
  constructor
  · intro q hq
    exact pending_moved (by simp [hidle]) hq
  · intro q hq
    exact checking_moved (by simp [hidle]) hq
  · intro q hq
    left
    rcases eq_or_ne q prio with rfl | hne
    · intro hnil
      apply hq
      simp [State.moved, PrioQueue.queueRemove, hnil]
    · simpa [State.moved, PrioQueue.queueRemove, hne] using hq
  · intro q hq
    rcases eq_or_ne q prio with rfl | hne
    · exact .inr hself
    · left
      simpa [State.moved, PrioQueue.queueRemove, hne] using hq

variable {prio : Nat} {answer : Answer T}

variable (h : Inv nPrios state)

include h

theorem raiseHead_inv (hnPrios : nPrios ≤ 2 ^ 15)
    (hpc : state.pc p = .insertHead prio) (hfree : state.owner = none)
    (htimely : Timely state (p, .proceed)) :
    Inv nPrios (state.moved p (state.pq.raiseHead prio) none .idle) := by
  have hprio := h.prio p prio hpc
  have hsbit : sbit16 prio = prio := sbit16_of_lt (lt_of_lt_of_le hprio hnPrios)
  have hsettled := h.free hfree
  have hvalid := h.valid
  -- the other callers that are on their way to `headQueue` still are
  have hpending : ∀ q, q ≠ prio → Pending state q →
      Pending (state.moved p (state.pq.raiseHead prio) none .idle) q := by
    rintro q hne ⟨r, hr⟩
    refine ⟨r, ?_⟩
    have hrp : r ≠ p := by
      rintro rfl
      rw [hpc] at hr
      exact hne (Pc.insertHead.inj hr).symm
    show update state.pc p .idle r = _
    rw [update_of_ne hrp]
    exact hr
  have hchecking : ∀ q, Checking state q →
      Checking (state.moved p (state.pq.raiseHead prio) none .idle) q := by
    intro q hq
    exact checking_moved (by simp [hpc]) hq
  rcases em (state.pq.headQueue = -1 ∨ (prio : Int) < state.pq.headQueue) with hup | hdown
  · have hraise : state.pq.raiseHead prio = { state.pq with headQueue := prio } := by
      unfold PrioQueue.raiseHead
      rw [if_pos hup, hsbit]
    have hnamed : state.pq.queues prio ≠ [] ∨ Checking state prio := by
      unfold Timely at htimely
      rw [hpc] at htimely
      exact htimely hup
    rw [hraise] at hpending hchecking ⊢
    refine h.released (.inr hfree) (.inr ⟨prio, hprio, rfl⟩) ?_ ?_
    · intro q hq hne
      rcases h.above q hq hne with ⟨k, hk, hhead⟩ | hq'
      · left
        refine ⟨prio, ?_, rfl⟩
        omega
      · rcases eq_or_ne q prio with rfl | hqp
        · exact .inl ⟨q, le_refl q, rfl⟩
        · exact .inr (hpending q hqp hq')
    · intro k hk
      have hkp : k = prio := by
        have : ((prio : Nat) : Int) = k := hk
        omega
      rw [hkp]
      rcases hnamed with hne | hcheck
      · exact .inl hne
      · exact .inr (hchecking prio hcheck)
  · have hraise : state.pq.raiseHead prio = state.pq := if_neg hdown
    rw [hraise] at hpending hchecking ⊢
    refine h.released (.inr hfree) hvalid ?_ ?_
    · intro q hq hne
      rcases h.above q hq hne with hle | hq'
      · exact .inl hle
      rcases eq_or_ne q prio with rfl | hqp
      · left
        rcases hvalid with hnone | ⟨k, _, hhead⟩
        · exact absurd (.inl hnone) hdown
        · refine ⟨k, ?_, hhead⟩
          omega
      · exact .inr (hpending q hqp hq')
    · intro k hk
      rcases hsettled k hk with hne | hcheck
      · exact .inl hne
      · exact .inr (hchecking k hcheck)

theorem popAcquire_inv (hnPrios : nPrios ≤ 2 ^ 15)
    (hidle : state.pc p = .idle) (hfree : state.owner = none) (hhead : state.pq.headQueue ≠ -1) :
    Inv nPrios (state.moved p state.pq (some p) (.popTake (ubit16 state.pq.headQueue))) := by
  have hfollows : Follows state
      (state.moved p state.pq (some p) (.popTake (ubit16 state.pq.headQueue))) :=
    follows_moved (by simp [hidle]) (by simp [hidle])
  refine h.holding (.inr hfree) rfl rfl (hfollows.above rfl h.above) ?_
  rcases h.valid with hnone | ⟨k, hk, hhead'⟩
  · exact absurd hnone hhead
  · show state.pq.headQueue = (ubit16 state.pq.headQueue : Nat)
    rw [hhead', ubit16_of_lt (lt_of_lt_of_le hk hnPrios)]

theorem popTake_inv {qId : Nat} (hpc : state.pc p = .popTake qId) :
    Inv nPrios (state.moved p (state.pq.queuePop qId) state.owner
      (.popCheck qId (state.pq.queues qId).head?)) := by
  have howner := h.owner p (by rw [hpc]; rfl)
  have hhead : state.pq.headQueue = qId := by
    have hheld := h.held p howner
    rw [hpc] at hheld
    exact hheld
  rw [howner]
  refine h.holding (.inl howner) rfl rfl ?_ hhead
  intro q hq hne
  have hold : state.pq.queues q ≠ [] := by
    intro hnil
    apply hne
    rcases eq_or_ne q qId with rfl | hqq
    · simp [State.moved, PrioQueue.queuePop, hnil]
    · simp [State.moved, PrioQueue.queuePop, hqq, hnil]
  rcases h.above q hq hold with hle | hpending
  · exact .inl hle
  · exact .inr (pending_moved (by simp [hpc]) hpending)

theorem check_inv {qId : Nat} (hlock : (state.pc p).holdsLock = true)
    (hhead : state.pq.headQueue = qId) (hinsert : ∀ q, state.pc p ≠ .insertHead q)
    (hremove : ∀ q, state.pc p ≠ .removeHead q) :
    Inv nPrios (state.moved p state.pq state.owner
      (if state.pq.queues qId = [] then .scan qId 0 answer else .leave answer)) := by
  have howner := h.owner p hlock
  have hfollows : ∀ pc, Follows state (state.moved p state.pq (some p) pc) :=
    fun pc => follows_moved hinsert hremove
  rw [howner]
  rcases em (state.pq.queues qId = []) with hnil | hne
  · rw [if_pos hnil]
    refine h.holding (Or.inl howner) rfl rfl ((hfollows _).above rfl h.above) ?_
    intro q _ hseen hq
    rcases hseen with hlt | rfl
    · exact absurd hlt (not_lt_zero q)
    · exact absurd hnil hq
  rw [if_neg hne]
  refine h.holding (.inl howner) rfl rfl ((hfollows _).above rfl h.above) ?_
  intro k hk
  have hkq : k = qId := by
    have : state.pq.headQueue = k := hk
    omega
  rw [hkq]
  exact .inl hne

theorem scan_inv {skip i : Nat} (hpc : state.pc p = .scan skip i answer) :
    Inv nPrios (state.moved p state.pq state.owner
      (if nPrios ≤ i then .store none answer
        else if i = skip then .scan skip (i + 1) answer
        else if state.pq.queues i ≠ [] then .store (some i) answer
        else .scan skip (i + 1) answer)) := by
  have howner := h.owner p (by rw [hpc]; rfl)
  have hscanned : Scanned nPrios state skip i := by
    have hheld := h.held p howner
    rw [hpc] at hheld
    exact hheld
  have hfollows : ∀ pc, Follows state (state.moved p state.pq (some p) pc) :=
    fun pc => follows_moved (by simp [hpc]) (by simp [hpc])
  have hnext : state.pq.queues i = [] ∨ i = skip → Scanned nPrios state skip (i + 1) := by
    intro hempty q hq hseen hne
    rcases eq_or_ne q i with rfl | hqi
    · rcases hempty with hnil | hskip
      · exact absurd hnil hne
      · exact hscanned q hq (.inr hskip) hne
    · exact hscanned q hq (by omega) hne
  rw [howner]
  rcases lt_or_ge i nPrios with hi | hi
  · rw [if_neg (not_le.mpr hi)]
    rcases eq_or_ne i skip with hskip | hskip
    · rw [if_pos hskip]
      exact h.holding (.inl howner) rfl rfl ((hfollows _).above rfl h.above)
        ((hfollows _).scanned (hnext (.inr hskip)))
    rw [if_neg hskip]
    rcases em (state.pq.queues i = []) with hnil | hne
    · rw [if_neg (Classical.not_not.mpr hnil)]
      exact h.holding (.inl howner) rfl rfl ((hfollows _).above rfl h.above)
        ((hfollows _).scanned (hnext (.inl hnil)))
    rw [if_pos hne]
    refine h.holding (.inl howner) rfl rfl ((hfollows _).above rfl h.above) ?_
    have hstoring : Storing nPrios state (some i) :=
      ⟨hi, .inl hne, fun q hq => hscanned q (lt_trans hq hi) (.inl hq)⟩
    exact (hfollows _).storing hstoring
  · rw [if_pos hi]
    refine h.holding (.inl howner) rfl rfl ((hfollows _).above rfl h.above) ?_
    have hstoring : Storing nPrios state none :=
      fun q hq => hscanned q hq (.inl (lt_of_lt_of_le hq hi))
    exact (hfollows _).storing hstoring

theorem store_inv (hnPrios : nPrios ≤ 2 ^ 15) {target : Option Nat}
    (hpc : state.pc p = .store target answer) :
    Inv nPrios (state.moved p (state.pq.storeHead target) none .idle) := by
  have howner := h.owner p (by rw [hpc]; rfl)
  have hstoring : Storing nPrios state target := by
    have hheld := h.held p howner
    rw [hpc] at hheld
    exact hheld
  cases target with
  | none =>
    refine h.released (.inl howner) (.inl rfl) ?_ ?_
    · intro q hq hne
      exact .inr (pending_moved (by simp [hpc]) (hstoring q hq hne))
    · intro k hk
      have hk' : (-1 : Int) = k := hk
      omega
  | some i =>
    obtain ⟨hi, hnamed, hbelow⟩ := hstoring
    have hstore : state.pq.storeHead (some i) = { state.pq with headQueue := (i : Int) } := by
      show ({ state.pq with headQueue := sbit16 i } : PrioQueue T) = _
      rw [sbit16_of_lt (lt_of_lt_of_le hi hnPrios)]
    rw [hstore]
    refine h.released (.inl howner) (.inr ⟨i, hi, rfl⟩) ?_ ?_
    · intro q hq hne
      rcases lt_or_ge q i with hlt | hge
      · exact .inr (pending_moved (by simp [hpc]) (hbelow q hlt hne))
      · exact .inl ⟨i, hge, rfl⟩
    · intro k hk
      have hki : k = i := by
        have : ((i : Nat) : Int) = k := hk
        omega
      rw [hki]
      rcases hnamed with hne | hcheck
      · exact .inl hne
      · exact .inr (checking_moved (by simp [hpc]) hcheck)

theorem leave_inv (hpc : state.pc p = .leave answer) :
    Inv nPrios (state.moved p state.pq none .idle) := by
  have howner := h.owner p (by rw [hpc]; rfl)
  have hsettled : Settled state := by
    have hheld := h.held p howner
    rw [hpc] at hheld
    exact hheld
  have hfollows : Follows state (state.moved p state.pq none .idle) :=
    follows_moved (by simp [hpc]) (by simp [hpc])
  exact h.released (.inl howner) h.valid (hfollows.above rfl h.above)
    (hfollows.settled rfl hsettled)

theorem removeAcquire_inv (hpc : state.pc p = .removeHead prio)
    (hfree : state.owner = none) (hhead : (prio : Int) = state.pq.headQueue) :
    Inv nPrios (state.moved p state.pq (some p) (.removeCheck prio)) := by
  refine h.holding (.inr hfree) rfl rfl ?_ hhead.symm
  intro q hq hne
  rcases h.above q hq hne with hle | hpending
  · exact .inl hle
  · exact .inr (pending_moved (by simp [hpc]) hpending)

theorem removeDone_inv (hpc : state.pc p = .removeHead prio)
    (hfree : state.owner = none) (hhead : (prio : Int) ≠ state.pq.headQueue) :
    Inv nPrios (state.moved p state.pq none .idle) := by
  refine h.released (.inr hfree) h.valid ?_ ?_
  · intro q hq hne
    rcases h.above q hq hne with hle | hpending
    · exact .inl hle
    · exact .inr (pending_moved (by simp [hpc]) hpending)
  · intro k hk
    rcases h.free hfree k hk with hne | hcheck
    · exact .inl hne
    right
    refine checking_moved ?_ hcheck
    intro hother
    rw [hpc] at hother
    have hk' : state.pq.headQueue = k := hk
    rw [Pc.removeHead.inj hother] at hhead
    exact hhead hk'.symm

omit h

end

variable {nPrios : Nat}

theorem step_inv (hnPrios : nPrios ≤ 2 ^ 15) {state next : State T P} {p : P} {action : Action T}
    {answer : Option (Answer T)} (h : Inv nPrios state) (htimely : Timely state (p, action))
    (hstep : step nPrios state p action = some (answer, next)) : Inv nPrios next := by
  unfold step at hstep
  dsimp only at hstep
  split at hstep
  · next hpc =>
    split at hstep
    · cases hstep
      exact h
    next hprio =>
    split at hstep
    · cases hstep
      exact h
    · cases hstep
      exact queueInsert_inv h hpc _ _ (not_le.mp hprio) _
  · next hpc =>
    split at hstep
    · next hfree =>
      cases hstep
      exact raiseHead_inv h hnPrios hpc hfree htimely
    · cases hstep
  · next hpc =>
    split at hstep
    · next hfree =>
      split at hstep
      · cases hstep
        exact h
      · next hhead =>
        cases hstep
        exact popAcquire_inv h hnPrios hpc hfree hhead
    · cases hstep
  · next hpc =>
    cases hstep
    exact popTake_inv h hpc
  · next hpc =>
    cases hstep
    have hlock : (state.pc p).holdsLock = true := by rw [hpc]; rfl
    have hheld := h.held p (h.owner p hlock)
    rw [hpc] at hheld
    exact check_inv h hlock hheld (by simp [hpc]) (by simp [hpc])
  · next hpc =>
    cases hstep
    exact scan_inv h hpc
  · next hpc =>
    cases hstep
    exact store_inv h hnPrios hpc
  · next hpc =>
    cases hstep
    exact leave_inv h hpc
  · next hpc =>
    split at hstep
    · cases hstep
    · cases hstep
      exact queueRemove_inv h hpc _ _
  · next hpc =>
    split at hstep
    · next hfree =>
      split at hstep
      · next hhead =>
        cases hstep
        exact removeAcquire_inv h hpc hfree hhead
      · next hhead =>
        cases hstep
        exact removeDone_inv h hpc hfree hhead
    · cases hstep
  · next hpc =>
    cases hstep
    have hlock : (state.pc p).holdsLock = true := by rw [hpc]; rfl
    have hheld := h.held p (h.owner p hlock)
    rw [hpc] at hheld
    exact check_inv h hlock hheld (by simp [hpc]) (by simp [hpc])
  · cases hstep

def Quiescent (state : State T P) : Prop :=
  ∀ p, state.pc p = .idle

theorem Inv.headCorrect {state : State T P} (h : Inv nPrios state) (hquiet : Quiescent state) :
    HeadCorrect nPrios state.pq := by
  have hfree : state.owner = none := by
    cases howner : state.owner with
    | none => rfl
    | some p =>
      have hheld := h.held p howner
      rw [hquiet p] at hheld
      exact hheld.elim
  have hpending : ∀ q, ¬ Pending state q := by
    rintro q ⟨p, hp⟩
    rw [hquiet p] at hp
    cases hp
  have hchecking : ∀ q, ¬ Checking state q := by
    rintro q ⟨p, hp⟩
    rw [hquiet p] at hp
    cases hp
  have habove : ∀ q, q < nPrios → state.pq.queues q ≠ [] →
      ∃ k : Nat, k ≤ q ∧ state.pq.headQueue = k := by
    intro q hq hne
    rcases h.above q hq hne with hle | hq'
    · exact hle
    · exact absurd hq' (hpending q)
  rcases h.valid with hnone | ⟨k, hk, hhead⟩
  · left
    refine ⟨hnone, ?_⟩
    intro q hq
    rcases em (state.pq.queues q = []) with hnil | hne
    · exact hnil
    · obtain ⟨j, _, hj⟩ := habove q hq hne
      omega
  right
  refine ⟨k, hk, hhead, ?_, ?_⟩
  · rcases h.free hfree k hhead with hne | hcheck
    · exact hne
    · exact absurd hcheck (hchecking k)
  · intro r hr
    rcases em (state.pq.queues r = []) with hnil | hne
    · exact hnil
    · obtain ⟨j, hj, hj'⟩ := habove r (lt_trans hr hk) hne
      omega

theorem HeadCorrect.pop_ne_none {pq : PrioQueue T} (h : HeadCorrect nPrios pq)
    (hnPrios : nPrios ≤ 2 ^ 15) {q : Nat} (hq : q < nPrios) (hne : pq.queues q ≠ []) :
    (pq.pop nPrios).1 ≠ none := by
  rcases pop_of_headCorrect h hnPrios with ⟨-, -, hempty⟩ | ⟨item, -, -, hitem, -⟩
  · exact absurd (hempty q hq) hne
  · simp [hitem]

/-- In every interleaving in which no `insert` publishes a queue that was emptied since,
`headQueue` is right whenever every operation is done, and then `pop` reports an empty
queue only when there are no items. -/
theorem timely_headCorrect (nPrios : Nat) (hnPrios : nPrios ≤ 2 ^ 15) (state : State T P)
    (h : Reachable (· = initialState T P) (TimelyStep nPrios) state) (hquiet : Quiescent state) :
    HeadCorrect nPrios state.pq ∧
      ∀ q, q < nPrios → state.pq.queues q ≠ [] → (state.pq.pop nPrios).1 ≠ none := by
  have hinv : Inv nPrios state := by
    refine h.invariant ?_ ?_
    · rintro state rfl
      exact inv_initialState nPrios
    · rintro state next hstate ⟨⟨p, action⟩, answer, htimely, hstep⟩
      exact step_inv hnPrios hstate htimely hstep
  have hcorrect := hinv.headCorrect hquiet
  exact ⟨hcorrect, fun q hq hne => hcorrect.pop_ne_none hnPrios hq hne⟩

end

section

variable {T P : Type} [DecidableEq T] [DecidableEq P] [Fintype P]

instance (state : State T P) (q : Nat) : Decidable (Checking state q) :=
  inferInstanceAs (Decidable (∃ p, _))

instance (state : State T P) : ∀ (pc : Pc T) (action : Action T),
    Decidable (TimelyAt state pc action) := by
  intro pc action
  cases pc <;> cases action <;>
    first
    | exact isTrue trivial
    | exact inferInstanceAs (Decidable (_ ∨ _ → _ ∨ _))

instance (state : State T P) (call : P × Action T) : Decidable (Timely state call) :=
  inferInstanceAs (Decidable (TimelyAt _ _ _))

end

def insertAndPop : List (Unit × Action Nat) :=
  [((), .insert 7 3 false true), ((), .proceed), ((), .insert 8 1 false true), ((), .proceed),
    ((), .pop), ((), .proceed), ((), .proceed), ((), .proceed), ((), .proceed), ((), .proceed),
    ((), .proceed), ((), .proceed)]

theorem timely_headCorrect_insertAndPop :
    ∃ state : State Nat Unit, Reachable (· = initialState Nat Unit) (TimelyStep 20) state ∧
      state.pq.headQueue = 3 ∧ HeadCorrect 20 state.pq := by
  have hrun : ((run (fun state call => step 20 state call.1 call.2) (initialState Nat Unit)
      insertAndPop).any fun r => decide (r.2.pc () = .idle ∧ r.2.pq.headQueue = 3)) = true := by
    decide +kernel
  obtain ⟨⟨results, state⟩, hstate, hchecked⟩ := (Option.any_eq_true _ _).mp hrun
  obtain ⟨hidle, hhead⟩ := of_decide_eq_true hchecked
  have hreachable : Reachable (· = initialState Nat Unit) (TimelyStep 20) state :=
    reachable_of_run (reachable_of_init rfl) (by decide +kernel) hstate
  exact ⟨state, hreachable, hhead,
    (timely_headCorrect 20 (by decide) state hreachable fun _ => hidle).1⟩

/-- An item is removed between the two sections of its `insert`, then an item of a lower
priority is inserted. -/
def removeBeforePublish : List (Bool × Action Nat) :=
  [(false, .insert 7 2 false true), (true, .remove 7 2), (true, .proceed), (false, .proceed),
    (true, .insert 8 5 false true), (true, .proceed)]

/-- `headQueue` is left at the emptied queue, and `pop` finds nothing. -/
theorem late_insert_stale_head :
    ∃ state : State Nat Bool, Reachable (· = initialState Nat Bool) (Step 20) state ∧
      Quiescent state ∧ ¬ HeadCorrect 20 state.pq ∧ state.pq.queues 5 ≠ [] ∧
        (state.pq.pop 20).1 = none := by
  have hrun : ((run (fun state call => step 20 state call.1 call.2) (initialState Nat Bool)
      removeBeforePublish).any fun r => decide ((∀ p, r.2.pc p = .idle) ∧
        r.2.pq.headQueue = 2 ∧ r.2.pq.queues 2 = [] ∧ r.2.pq.queues 5 ≠ [] ∧
          (r.2.pq.pop 20).1 = none)) = true := by
    decide +kernel
  obtain ⟨⟨results, state⟩, hstate, hchecked⟩ := (Option.any_eq_true _ _).mp hrun
  obtain ⟨hidle, hhead, hempty, hfull, hpop⟩ := of_decide_eq_true hchecked
  dsimp only at hhead hempty
  have hreachable : Reachable (· = initialState Nat Bool) (Step 20) state :=
    reachable_of_run (reachable_of_init rfl) (by decide +kernel) hstate
  refine ⟨state, hreachable, hidle, ?_, hfull, hpop⟩
  rintro (⟨hnone, _⟩ | ⟨q, _, hq, hne, _⟩)
  · omega
  · have hq2 : q = 2 := by omega
    rw [hq2] at hne
    exact hne hempty

end PrioQueue

end Zambesii
