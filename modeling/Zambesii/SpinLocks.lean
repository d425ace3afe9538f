import Mathlib.Algebra.Order.Ring.Nat
import Zambesii.Runs

/-!
`WaitLock` and `RecursiveLock`, one access to the lock word at a time, with the interrupt flag of
each CPU.
-/

namespace Zambesii.SpinLocks

open Function Option
open Runs

/-- What a CPU does next: call a function of the lock, go on with the one it is in, or turn its
interrupts on or off elsewhere. -/
inductive Action
  | acquire
  | release
  | releaseNoIrqs
  | proceed
  | setInterrupts (enabled : Bool)
deriving DecidableEq

/-- Others than `c` see no change of the owner, and what they share changes only for those who are
not the owner. -/
theorem at_update {C A S : Type} [DecidableEq C] {At : A → Prop → S → Prop} {agent : C → A}
    {owner owner' : Option C} {shared shared' : S} {c : C} {a : A}
    (hframe : ∀ a shared', At a False shared → At a False shared')
    (h : ∀ d, At (agent d) (owner = some d) shared) (hc : At a (owner' = some c) shared')
    (hothers : ∀ d, d ≠ c →
      (owner' = some d ↔ owner = some d) ∧ (owner = some d → shared' = shared)) :
    ∀ d, At (update agent c a d) (owner' = some d) shared' := by
  refine (forall_update_iff _ fun d a => At a (owner' = some d) shared').mpr ⟨hc, ?_⟩
  intro d hne
  obtain ⟨howner, hshared⟩ := hothers d hne
  have hd := h d
  rw [howner]
  rcases eq_or_ne owner (some d) with heq | hother
  · rw [hshared heq]
    exact hd
  · rw [eq_false hother] at hd ⊢
    exact hframe _ shared' hd

namespace WaitLock

inductive Phase
  | outside
  /-- Before the exchange in the loop of `acquire`. -/
  | spinning
  /-- In the body of the loop. -/
  | relaxing
  /-- Behind the loop. -/
  | taken
  | inside
  /-- Before the lock word is set, in `releaseNoIrqs` or in `release` with its `enableIrqs`. -/
  | releasing (noIrqs enableIrqs : Bool)
  | released (noIrqs enableIrqs : Bool)
deriving DecidableEq

/-- `contenderFlags` stay when `acquire` returns: they are the interrupt flag it has found. -/
structure Cpu where
  contenderFlags : Bool
  interrupts : Bool
  phase : Phase
deriving DecidableEq

/-- `flags` has the bit `FLAGS_IRQS_WERE_ENABLED`. -/
structure State (C : Type) where
  lock : Nat
  flags : Bool
  cpu : C → Cpu

variable {C : Type}

def initialState (interrupts : C → Bool) : State C where
  lock := 0
  flags := false
  cpu := fun c => ⟨false, interrupts c, .outside⟩

variable [DecidableEq C]

def State.moved (state : State C) (c : C) (lock : Nat) (flags : Bool) (cpu : Cpu) : State C where
  lock := lock
  flags := flags
  cpu := update state.cpu c cpu

/-- The next step of the CPU `c`; `none` when it cannot make the call where it is. -/
def step (state : State C) (c : C) (action : Action) : Option (State C) :=
  let cpu := state.cpu c
  match cpu.phase, action with
  | .outside, .setInterrupts enabled =>
    some (state.moved c state.lock state.flags { cpu with interrupts := enabled })
  | .outside, .acquire =>
    some (state.moved c state.lock state.flags ⟨cpu.interrupts, false, .spinning⟩)
  | .spinning, .proceed =>
    if state.lock = 0 then some (state.moved c 1 state.flags { cpu with phase := .taken })
    else
      some (state.moved c 1 state.flags
        ⟨cpu.contenderFlags, cpu.contenderFlags || cpu.interrupts, .relaxing⟩)
  | .relaxing, .proceed =>
    some (state.moved c state.lock state.flags ⟨cpu.contenderFlags, false, .spinning⟩)
  | .taken, .proceed =>
    some (state.moved c state.lock (state.flags || cpu.contenderFlags)
      { cpu with phase := .inside })
  | .inside, .release =>
    some (state.moved c state.lock false { cpu with phase := .releasing false state.flags })
  | .inside, .releaseNoIrqs =>
    some (state.moved c state.lock false { cpu with phase := .releasing true false })
  | .releasing noIrqs enableIrqs, .proceed =>
    some (state.moved c 0 state.flags { cpu with phase := .released noIrqs enableIrqs })
  | .released _ enableIrqs, .proceed =>
    some (state.moved c state.lock state.flags
      ⟨cpu.contenderFlags, enableIrqs || cpu.interrupts, .outside⟩)
  | _, _ => none

def call (state : State C) (turn : C × Action) : Option (Unit × State C) :=
  (step state turn.1 turn.2).map (Prod.mk ())

def Step : State C → State C → Prop :=
  GuardedStep call fun _ _ => True

omit [DecidableEq C] in
/-- What is true of a CPU which has the lock or has it not. -/
def Cpu.At (cpu : Cpu) (owns : Prop) (flags : Bool) : Prop :=
  match cpu.phase with
  | .outside | .relaxing => ¬ owns
  | .spinning => ¬ owns ∧ cpu.interrupts = false
  | .taken => owns ∧ cpu.interrupts = false ∧ flags = false
  | .inside => owns ∧ cpu.interrupts = false ∧ flags = cpu.contenderFlags
  | .releasing noIrqs enableIrqs => owns ∧ cpu.interrupts = false ∧ flags = false ∧
      enableIrqs = (cpu.contenderFlags && !noIrqs)
  | .released noIrqs enableIrqs => ¬ owns ∧ cpu.interrupts = false ∧
      enableIrqs = (cpu.contenderFlags && !noIrqs)

structure Inv (state : State C) (owner : Option C) : Prop where
  lock : state.lock = if owner = none then 0 else 1
  unset : owner = none → state.flags = false
  cpu : ∀ c, (state.cpu c).At (owner = some c) state.flags

theorem Inv.moved {state : State C} {owner owner' : Option C} (h : Inv state owner) {c : C}
    {lock : Nat} {flags : Bool} {cpu : Cpu} (hlock : lock = if owner' = none then 0 else 1)
    (hunset : owner' = none → flags = false) (hcpu : cpu.At (owner' = some c) flags)
    (hothers : ∀ d, d ≠ c →
      (owner' = some d ↔ owner = some d) ∧ (owner = some d → flags = state.flags)) :
    Inv (state.moved c lock flags cpu) owner' where
  lock := hlock
  unset := hunset
  cpu := by
    refine at_update ?_ h.cpu hcpu hothers
    intro cpu flags' hat
    unfold Cpu.At at hat ⊢
    split <;> simp_all

section

variable {state next : State C} {owner : Option C} {c : C} {flags : Bool} {cpu : Cpu}
  {action : Action}

theorem Inv.stays (h : Inv state owner) (hcpu : cpu.At (owner = some c) state.flags) :
    Inv (state.moved c state.lock state.flags cpu) owner :=
  h.moved h.lock h.unset hcpu fun _ _ => ⟨Iff.rfl, fun _ => rfl⟩

theorem Inv.keeps (h : Inv state (some c)) (hcpu : cpu.At (some c = some c) flags) :
    Inv (state.moved c state.lock flags cpu) (some c) := by
  refine h.moved h.lock nofun hcpu ?_
  intro d hne
  exact ⟨Iff.rfl, fun h => absurd (some.inj h).symm hne⟩

theorem step_inv (h : Inv state owner) (hstep : step state c action = some next) :
    ∃ owner', Inv next owner' := by
  have hcpu := h.cpu c
  unfold step at hstep
  dsimp only at hstep
  split at hstep
  · next hphase =>
    cases hstep
    exact ⟨owner, h.stays (by simpa [Cpu.At, hphase] using hcpu)⟩
  · next hphase =>
    cases hstep
    exact ⟨owner, h.stays (by simpa [Cpu.At, hphase] using hcpu)⟩
  · next hphase =>
    simp only [Cpu.At, hphase] at hcpu
    rcases eq_or_ne owner none with rfl | howner
    · cases (if_pos h.lock).symm.trans hstep
      refine ⟨some c, h.moved rfl nofun (by simp [Cpu.At, hcpu.2, h.unset rfl]) ?_⟩
      intro d hne
      simpa using hne.symm
    have hlock := h.lock.trans (if_neg howner)
    rw [if_neg (by omega)] at hstep
    cases hstep
    rw [← hlock]
    exact ⟨owner, h.stays (by simpa [Cpu.At] using hcpu.1)⟩
  · next hphase =>
    cases hstep
    exact ⟨owner, h.stays (by simpa [Cpu.At, hphase] using hcpu)⟩
  · next hphase =>
    cases hstep
    simp only [Cpu.At, hphase] at hcpu
    obtain ⟨rfl, hinterrupts, hflags⟩ := hcpu
    exact ⟨some c, h.keeps (by simp [Cpu.At, hinterrupts, hflags])⟩
  · next hphase =>
    cases hstep
    simp only [Cpu.At, hphase] at hcpu
    obtain ⟨rfl, hinterrupts, hflags⟩ := hcpu
    exact ⟨some c, h.keeps (by simp [Cpu.At, hinterrupts, hflags])⟩
  · next hphase =>
    cases hstep
    simp only [Cpu.At, hphase] at hcpu
    obtain ⟨rfl, hinterrupts, -⟩ := hcpu
    exact ⟨some c, h.keeps (by simp [Cpu.At, hinterrupts])⟩
  · next hphase =>
    cases hstep
    simp only [Cpu.At, hphase] at hcpu
    obtain ⟨rfl, hinterrupts, hflags, henable⟩ := hcpu
    refine ⟨none, h.moved rfl (fun _ => hflags) (by simp [Cpu.At, hinterrupts, henable]) ?_⟩
    intro d hne
    simpa using hne.symm
  · next hphase =>
    cases hstep
    simp only [Cpu.At, hphase] at hcpu
    exact ⟨owner, h.stays (by simpa [Cpu.At] using hcpu.1)⟩
  · cases hstep

end

def Phase.holds : Phase → Bool
  | .taken | .inside | .releasing _ _ => true
  | _ => false

/-- In every interleaving one CPU at most has the lock, with its interrupts off, and the lock word
is zero when none has it. At the end of a release the interrupts are on exactly when `acquire` has
found them on and they are to be turned on again. -/
theorem waitLock_excludes (interrupts : C → Bool) (state : State C)
    (h : Reachable (· = initialState interrupts) Step state) :
    (∀ c d, (state.cpu c).phase.holds = true → (state.cpu d).phase.holds = true → c = d) ∧
      (∀ c, (state.cpu c).phase.holds = true → (state.cpu c).interrupts = false) ∧
      (state.lock = 0 ↔ ∀ c, (state.cpu c).phase.holds = false) ∧
      ∀ c noIrqs enableIrqs next, (state.cpu c).phase = .released noIrqs enableIrqs →
        step state c .proceed = some next →
          (next.cpu c).interrupts = ((state.cpu c).contenderFlags && !noIrqs) := by
  obtain ⟨owner, hinv⟩ : ∃ owner, Inv state owner := by
    refine @Reachable.invariant _ _ _ _ (fun state => ∃ owner, Inv state owner) ?_ ?_ h
    · rintro state rfl
      exact ⟨none, rfl, fun _ => rfl, fun c => by simp [Cpu.At, initialState]⟩
    · rintro state next ⟨owner, hinv⟩ ⟨turn, _, -, hcall⟩
      obtain ⟨_, hstep, heq⟩ := map_eq_some_iff.mp hcall
      cases heq
      exact step_inv hinv hstep
  have hholds : ∀ c, (state.cpu c).phase.holds = true ↔ owner = some c := by
    intro c
    have hcpu := hinv.cpu c
    unfold Cpu.At at hcpu
    split at hcpu <;> simp_all [Phase.holds]
  refine ⟨?_, ?_, ?_, ?_⟩
  · intro c d hc hd
    exact some.inj (((hholds c).mp hc).symm.trans ((hholds d).mp hd))
  · intro c hc
    have hcpu := hinv.cpu c
    unfold Cpu.At at hcpu
    split at hcpu <;> simp_all [Phase.holds]
  · rw [hinv.lock]
    constructor
    · intro hfree c
      refine Bool.eq_false_iff.mpr fun hc => ?_
      rw [if_neg (by simp [(hholds c).mp hc])] at hfree
      cases hfree
    · intro hnone
      refine if_pos (eq_none_iff_forall_ne_some.mpr fun c hc => ?_)
      exact absurd ((hholds c).mpr hc) (by simp [hnone c])
  · intro c noIrqs enableIrqs next hphase hstep
    have hcpu := hinv.cpu c
    simp only [Cpu.At, hphase] at hcpu
    simp only [step, hphase] at hstep
    cases hstep
    simp [State.moved, hcpu.2.1, hcpu.2.2]

def contended : List (Bool × Action) :=
  [(false, .acquire), (true, .acquire), (false, .proceed), (true, .proceed), (false, .proceed),
    (false, .release), (false, .proceed)]

theorem waitLock_excludes_contended :
    ∃ state : State Bool, Reachable (· = initialState fun _ => true) Step state ∧
      (state.cpu false).phase = .released false true ∧
        ((step state false .proceed).any fun next => (next.cpu false).interrupts) = true ∧
        ∀ next, step state false .proceed = some next →
          (next.cpu false).interrupts = ((state.cpu false).contenderFlags && !false) := by
  have hrun : ((run call (initialState fun _ : Bool => true) contended).any fun r =>
      decide ((r.2.cpu false).phase = .released false true ∧
        ((step r.2 false .proceed).any fun next => (next.cpu false).interrupts) = true)) = true := by
    decide
  obtain ⟨⟨results, state⟩, hstate, hlast⟩ := (any_eq_true _ _).mp hrun
  obtain ⟨hphase, hon⟩ := of_decide_eq_true hlast
  have hreachable : Reachable (· = initialState fun _ => true) Step state :=
    reachable_of_run (reachable_of_init rfl) (by decide) hstate
  obtain ⟨-, -, -, hrestored⟩ := waitLock_excludes (fun _ => true) state hreachable
  exact ⟨state, hreachable, hphase, hon, fun next => hrestored false false true next hphase⟩

end WaitLock

namespace RecursiveLock

def countModulus : Nat := 2 ^ 32

/-- `irqsWereEnabled` is the local variable of the call. -/
inductive Phase
  | idle
  /-- Before the `compareAndExchange`. -/
  | spinning (irqsWereEnabled : Bool)
  | relaxing (irqsWereEnabled : Bool)
  /-- Behind an exchange which has found the lock free. -/
  | taken (irqsWereEnabled : Bool)
  /-- Behind an exchange which has found the thread itself. -/
  | counting
  /-- In `release`, before the lock word is set. -/
  | unlocking (irqsWereEnabled : Bool)
  | unlocked (irqsWereEnabled : Bool)
deriving DecidableEq

/-- `depth` and `found` are the caller's: its acquisitions which it has not released, and the
interrupt flag before the first of them. -/
structure Thread where
  depth : Nat
  found : Bool
  interrupts : Bool
  phase : Phase
deriving DecidableEq

/-- `lock` is `none` for `PROCID_INVALID`. -/
structure State (T : Type) where
  lock : Option T
  recursionCount : Nat
  flags : Bool
  thread : T → Thread

variable {T : Type}

def initialState (interrupts : T → Bool) : State T where
  lock := none
  recursionCount := 0
  flags := false
  thread := fun t => ⟨0, false, interrupts t, .idle⟩

variable [DecidableEq T]

def State.moved (state : State T) (t : T) (lock : Option T) (recursionCount : Nat) (flags : Bool)
    (thread : Thread) : State T where
  lock := lock
  recursionCount := recursionCount
  flags := flags
  thread := update state.thread t thread

def State.stepped (state : State T) (t : T) (thread : Thread) : State T :=
  state.moved t state.lock state.recursionCount state.flags thread

/-- The next step of the thread `t`. It calls `release` only when it has the lock, and leaves its
interrupts alone until then. -/
def step (state : State T) (t : T) (action : Action) : Option (State T) :=
  let thread := state.thread t
  match thread.phase, action with
  | .idle, .setInterrupts enabled =>
    if thread.depth = 0 then some (state.stepped t { thread with interrupts := enabled }) else none
  | .idle, .acquire =>
    some (state.stepped t
      ⟨thread.depth, if thread.depth = 0 then thread.interrupts else thread.found, false,
        .spinning thread.interrupts⟩)
  | .spinning irqsWereEnabled, .proceed =>
    match state.lock with
    | none =>
      some (state.moved t (some t) state.recursionCount state.flags
        { thread with phase := .taken irqsWereEnabled })
    | some oldValue =>
      if oldValue = t then some (state.stepped t { thread with phase := .counting })
      else
        some (state.stepped t
          { thread with
            interrupts := irqsWereEnabled || thread.interrupts
            phase := .relaxing irqsWereEnabled })
  | .relaxing irqsWereEnabled, .proceed =>
    some (state.stepped t
      { thread with interrupts := false, phase := .spinning irqsWereEnabled })
  | .taken irqsWereEnabled, .proceed =>
    some (state.moved t state.lock 1 (state.flags || irqsWereEnabled)
      { thread with depth := thread.depth + 1, phase := .idle })
  | .counting, .proceed =>
    some (state.moved t state.lock ((state.recursionCount + 1) % countModulus) state.flags
      { thread with depth := thread.depth + 1, phase := .idle })
  | .idle, .release =>
    let recursionCount := (state.recursionCount + (countModulus - 1)) % countModulus
    if thread.depth = 0 then none
    else if recursionCount = 0 then
      some (state.moved t state.lock recursionCount false
        { thread with depth := thread.depth - 1, phase := .unlocking state.flags })
    else
      some (state.moved t state.lock recursionCount state.flags
        { thread with depth := thread.depth - 1 })
  | .unlocking irqsWereEnabled, .proceed =>
    some (state.moved t none state.recursionCount state.flags
      { thread with phase := .unlocked irqsWereEnabled })
  | .unlocked irqsWereEnabled, .proceed =>
    some (state.stepped t
      { thread with interrupts := irqsWereEnabled || thread.interrupts, phase := .idle })
  | _, _ => none

def call (state : State T) (turn : T × Action) : Option (Unit × State T) :=
  (step state turn.1 turn.2).map (Prod.mk ())

/-- No thread nests as many acquisitions as `recursionCount` has values. -/
def Fits (state : State T) (turn : T × Action) : Prop :=
  turn.2 = .acquire → (state.thread turn.1).depth + 1 < countModulus

instance (state : State T) (turn : T × Action) : Decidable (Fits state turn) :=
  inferInstanceAs (Decidable (_ → _))

def Step : State T → State T → Prop :=
  GuardedStep call Fits

/-- What is true of a thread which has the lock or has it not. -/
def Thread.At (thread : Thread) (owns : Prop) (count : Nat) (flags : Bool) : Prop :=
  (owns → thread.interrupts = false ∧ count = thread.depth) ∧
    (0 < thread.depth → flags = thread.found) ∧
    match thread.phase with
    | .idle => (owns ↔ 0 < thread.depth) ∧ thread.depth < countModulus
    | .spinning irqsWereEnabled => (owns ↔ 0 < thread.depth) ∧ thread.interrupts = false ∧
        thread.depth + 1 < countModulus ∧ (thread.depth = 0 → irqsWereEnabled = thread.found)
    | .relaxing irqsWereEnabled => ¬ owns ∧ thread.depth = 0 ∧ irqsWereEnabled = thread.found
    | .taken irqsWereEnabled => owns ∧ thread.depth = 0 ∧ irqsWereEnabled = thread.found ∧
        flags = false
    | .counting => owns ∧ 0 < thread.depth ∧ thread.depth + 1 < countModulus
    | .unlocking irqsWereEnabled => owns ∧ thread.depth = 0 ∧ irqsWereEnabled = thread.found ∧
        flags = false
    | .unlocked irqsWereEnabled => ¬ owns ∧ thread.depth = 0 ∧ thread.interrupts = false ∧
        irqsWereEnabled = thread.found

structure Inv (state : State T) : Prop where
  free : state.lock = none → state.recursionCount = 0 ∧ state.flags = false
  thread : ∀ t, (state.thread t).At (state.lock = some t) state.recursionCount state.flags

theorem Inv.moved {state : State T} (h : Inv state) {t : T} {lock : Option T} {count : Nat}
    {flags : Bool} {thread : Thread} (hfree : lock = none → count = 0 ∧ flags = false)
    (hthread : thread.At (lock = some t) count flags)
    (hothers : ∀ d, d ≠ t → (lock = some d ↔ state.lock = some d) ∧
      (state.lock = some d → count = state.recursionCount ∧ flags = state.flags)) :
    Inv (state.moved t lock count flags thread) where
  free := hfree
  thread := by
    refine @at_update T Thread (Nat × Bool) _ (fun thread owns s => thread.At owns s.1 s.2) _
      state.lock lock (state.recursionCount, state.flags) (count, flags) t thread ?_ h.thread
      hthread ?_
    · rintro thread ⟨count', flags'⟩ ⟨-, hflags, hphase⟩
      refine ⟨nofun, ?_, ?_⟩ <;> split at hphase <;> simp_all [countModulus]
    · intro d hne
      obtain ⟨howner, hshared⟩ := hothers d hne
      refine ⟨howner, fun heq => ?_⟩
      rw [(hshared heq).1, (hshared heq).2]

section

variable {state next : State T} {t : T} {count : Nat} {flags : Bool} {thread : Thread}
  {action : Action}

theorem Inv.stays (h : Inv state)
    (hthread : thread.At (state.lock = some t) state.recursionCount state.flags) :
    Inv (state.stepped t thread) :=
  h.moved h.free hthread fun _ _ => ⟨Iff.rfl, fun _ => ⟨rfl, rfl⟩⟩

theorem Inv.keeps (h : Inv state) (howns : state.lock = some t)
    (hthread : thread.At True count flags) : Inv (state.moved t state.lock count flags thread) := by
  refine h.moved (fun hfree => absurd (howns.symm.trans hfree) nofun) (by simpa [howns]) ?_
  intro d hne
  exact ⟨Iff.rfl, fun heq => absurd (some.inj (howns.symm.trans heq)).symm hne⟩

theorem step_inv (h : Inv state) (hfits : Fits state (t, action))
    (hstep : step state t action = some next) : Inv next := by
  have hthread := h.thread t
  obtain ⟨howner, hflags, hat⟩ := hthread
  unfold step at hstep
  dsimp only at hstep
  split at hstep
  · next hphase =>
    split at hstep
    · next hdepth =>
      cases hstep
      simp only [hphase, hdepth] at hat
      refine h.stays ⟨fun howns => absurd (hat.1.mp howns) (lt_irrefl 0), ?_, ?_⟩ <;>
        simp [hphase, hdepth, hat]
    · cases hstep
  · next hphase =>
    cases hstep
    simp only [hphase] at hat
    have hlt := hfits rfl
    refine h.stays ⟨fun howns => ⟨rfl, (howner howns).2⟩, ?_, ?_⟩
    · intro hdepth
      rw [if_neg (Nat.pos_iff_ne_zero.mp hdepth)]
      exact hflags hdepth
    · exact ⟨hat.1, rfl, hlt, fun hdepth => (if_pos hdepth).symm⟩
  · next hphase =>
    simp only [hphase] at hat
    split at hstep
    · next hlock =>
      cases hstep
      rw [hlock] at hat
      have hdepth : (state.thread t).depth = 0 := by simpa using hat.1
      refine h.moved nofun ⟨fun _ => ⟨hat.2.1, ?_⟩, hflags, ?_⟩ ?_
      · rw [hdepth, (h.free hlock).1]
      · exact ⟨rfl, hdepth, hat.2.2.2 hdepth, (h.free hlock).2⟩
      · intro d hne
        simp [hlock, hne.symm]
    next oldValue hlock =>
    split at hstep
    · next hself =>
      cases hstep
      have howns : state.lock = some t := by rw [hlock, hself]
      exact h.stays ⟨howner, hflags, howns, hat.1.mp howns, hat.2.2.1⟩
    next hother =>
    cases hstep
    have howns : ¬ state.lock = some t := by simp [hlock, hother]
    have hdepth := Nat.eq_zero_of_not_pos fun hpos => howns (hat.1.mpr hpos)
    exact h.stays ⟨nofun ∘ howns, hflags, howns, hdepth, hat.2.2.2 hdepth⟩
  · next hphase =>
    cases hstep
    simp only [hphase] at hat
    obtain ⟨howns, hdepth, hirqs⟩ := hat
    refine h.stays ⟨fun h => absurd h howns, hflags, ?_⟩
    simp [howns, hdepth, hirqs, countModulus]
  · next hphase =>
    cases hstep
    simp only [hphase] at hat
    obtain ⟨howns, hdepth, hirqs, hunset⟩ := hat
    refine h.keeps howns ⟨fun _ => ⟨(howner howns).1, by simp [hdepth]⟩, fun _ => ?_, ?_⟩
    · simp [hunset, hirqs]
    · simp [hdepth, countModulus]
  · next hphase =>
    cases hstep
    simp only [hphase] at hat
    obtain ⟨howns, hpos, hlt⟩ := hat
    refine h.keeps howns ⟨fun _ => ⟨(howner howns).1, ?_⟩, fun _ => hflags hpos, ?_⟩
    · rw [(howner howns).2]
      exact Nat.mod_eq_of_lt hlt
    · simp [hlt]
  · next hphase =>
    split at hstep
    · cases hstep
    next hdepth =>
    simp only [hphase] at hat
    have howns := hat.1.mpr (pos_of_ne_zero hdepth)
    obtain ⟨hoff, hcount⟩ := howner howns
    have hlast : (state.recursionCount + (countModulus - 1)) % countModulus =
        (state.thread t).depth - 1 := by
      have hlt := hat.2
      simp only [countModulus] at hlt ⊢
      omega
    split at hstep
    · next hzero =>
      cases hstep
      refine h.keeps howns ⟨fun _ => ⟨hoff, hlast⟩, ?_, ?_⟩
      · intro hpos
        exact absurd (hlast.symm.trans hzero) (Nat.pos_iff_ne_zero.mp hpos)
      · exact ⟨trivial, hlast.symm.trans hzero, hflags (pos_of_ne_zero hdepth), rfl⟩
    · next hmore =>
      cases hstep
      refine h.keeps howns ⟨fun _ => ⟨hoff, hlast⟩, fun _ => hflags (by omega), ?_⟩
      simp only [hphase]
      simp
      omega
  · next hphase =>
    cases hstep
    simp only [hphase] at hat
    obtain ⟨howns, hdepth, hirqs, hunset⟩ := hat
    refine h.moved (fun _ => ⟨(howner howns).2.trans hdepth, hunset⟩) ⟨nofun, hflags, ?_⟩ ?_
    · exact ⟨nofun, hdepth, (howner howns).1, hirqs⟩
    · intro d hne
      simp [howns, hne.symm]
  · next hphase =>
    cases hstep
    simp only [hphase] at hat
    obtain ⟨howns, hdepth, -, -⟩ := hat
    refine h.stays ⟨fun h => absurd h howns, hflags, ?_⟩
    simp [howns, hdepth, countModulus]
  · cases hstep

end

/-- In every interleaving one thread at most has acquired the lock, `recursionCount` is how often,
and its interrupts are off. Once all acquisitions are released the lock is as it was before, and the
outermost release leaves the interrupt flag as the outermost acquisition has found it. -/
theorem recursiveLock_excludes (interrupts : T → Bool) (state : State T)
    (h : Reachable (· = initialState interrupts) Step state) :
    (∀ t u, 0 < (state.thread t).depth → 0 < (state.thread u).depth → t = u) ∧
      (∀ t, 0 < (state.thread t).depth →
        state.lock = some t ∧ state.recursionCount = (state.thread t).depth ∧
          (state.thread t).interrupts = false) ∧
      ((∀ t, (state.thread t).phase = .idle ∧ (state.thread t).depth = 0) →
        state.lock = none ∧ state.recursionCount = 0 ∧ state.flags = false) ∧
      ∀ t irqsWereEnabled next, (state.thread t).phase = .unlocked irqsWereEnabled →
        step state t .proceed = some next →
          (next.thread t).interrupts = (state.thread t).found ∧ next.lock ≠ some t := by
  have hinv : Inv state := by
    refine h.invariant ?_ ?_
    · rintro state rfl
      refine ⟨fun _ => ⟨rfl, rfl⟩, fun t => ⟨nofun, nofun, ?_⟩⟩
      simp [initialState, countModulus]
    · rintro state next hinv ⟨turn, _, hfits, hcall⟩
      obtain ⟨_, hstep, heq⟩ := map_eq_some_iff.mp hcall
      cases heq
      exact step_inv hinv hfits hstep
  have howns : ∀ t, 0 < (state.thread t).depth → state.lock = some t := by
    intro t hpos
    obtain ⟨-, -, hat⟩ := hinv.thread t
    split at hat <;> first | exact hat.1.mpr hpos | exact hat.1 | omega
  refine ⟨?_, ?_, ?_, ?_⟩
  · intro t u ht hu
    exact some.inj ((howns t ht).symm.trans (howns u hu))
  · intro t hpos
    obtain ⟨hoff, hcount⟩ := (hinv.thread t).1 (howns t hpos)
    exact ⟨howns t hpos, hcount, hoff⟩
  · intro hidle
    have hfree : state.lock = none := by
      refine eq_none_iff_forall_ne_some.mpr fun t ht => ?_
      obtain ⟨-, -, hat⟩ := hinv.thread t
      simp only [(hidle t).1, (hidle t).2] at hat
      exact absurd (hat.1.mp ht) (lt_irrefl 0)
    exact ⟨hfree, hinv.free hfree⟩
  · intro t irqsWereEnabled next hphase hstep
    obtain ⟨-, -, hat⟩ := hinv.thread t
    simp only [hphase] at hat
    simp only [step, hphase] at hstep
    cases hstep
    simp [State.stepped, State.moved, hat]

def nested : List (Bool × Action) :=
  [(false, .acquire), (true, .acquire), (false, .proceed), (true, .proceed), (false, .proceed),
    (false, .acquire), (false, .proceed), (false, .proceed)]

theorem recursiveLock_excludes_nested :
    ∃ state : State Bool, Reachable (· = initialState fun _ => true) Step state ∧
      (state.thread false).depth = 2 ∧ state.lock = some false ∧ state.recursionCount = 2 ∧
        (state.thread false).interrupts = false := by
  have hrun : ((run call (initialState fun _ : Bool => true) nested).any fun r =>
      decide ((r.2.thread false).depth = 2)) = true := by
    decide
  obtain ⟨⟨results, state⟩, hstate, hlast⟩ := (any_eq_true _ _).mp hrun
  have hdepth : (state.thread false).depth = 2 := of_decide_eq_true hlast
  have hreachable : Reachable (· = initialState fun _ => true) Step state :=
    reachable_of_run (reachable_of_init rfl) (by decide) hstate
  obtain ⟨-, hheld, -, -⟩ := recursiveLock_excludes (fun _ => true) state hreachable
  obtain ⟨hlock, hcount, hoff⟩ := hheld false (hdepth.symm ▸ Nat.zero_lt_two)
  exact ⟨state, hreachable, hdepth, hlock, hcount.trans hdepth, hoff⟩

end RecursiveLock

end Zambesii.SpinLocks
