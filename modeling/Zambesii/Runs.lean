import Mathlib.Logic.Relation

/-!
Whole runs of a machine. `run` is for a component whose calls are serialised
by its lock: one call after the other, each returning a result. `Reachable` is
for components whose critical sections interleave.
-/

namespace Zambesii.Runs

section

variable {σ ι ρ β : Type*}

/-- The results of a sequence of calls and the state after them; `none` as soon
as one call does not return. -/
def run (step : σ → ι → Option (ρ × σ)) : σ → List ι → Option (List ρ × σ)
  | state, [] => some ([], state)
  | state, call :: calls =>
    match step state call with
    | none => none
    | some (result, next) =>
      match run step next calls with
      | none => none
      | some (results, last) => some (result :: results, last)

/-- Every call meets `guard` in the state it is made in. -/
def Guarded (step : σ → ι → Option (ρ × σ)) (guard : σ → ι → Prop) : σ → List ι → Prop
  | _, [] => True
  | state, call :: calls =>
    guard state call ∧
      ∀ result next, step state call = some (result, next) → Guarded step guard next calls

inductive SpecRun (spec : β → ι → ρ → β → Prop) : β → List ι → List ρ → β → Prop
  | nil (state : β) : SpecRun spec state [] [] state
  | cons {state next last : β} {call : ι} {calls : List ι} {result : ρ} {results : List ρ} :
      spec state call result next → SpecRun spec next calls results last →
        SpecRun spec state (call :: calls) (result :: results) last

variable {step : σ → ι → Option (ρ × σ)} {guard good : σ → ι → Prop} {calls : List ι}
  {invariant : σ → Prop}

theorem guarded_cons {state next : σ} {call : ι} {result : ρ}
    (hstep : step state call = some (result, next)) : Guarded step guard state (call :: calls) ↔
      guard state call ∧ Guarded step guard next calls := by
  constructor
  · rintro ⟨hguard, hrest⟩
    exact ⟨hguard, hrest result next hstep⟩
  · rintro ⟨hguard, hrest⟩
    refine ⟨hguard, ?_⟩
    intro result' next' hstep'
    rw [hstep] at hstep'
    cases hstep'
    exact hrest

instance decidableGuarded (step : σ → ι → Option (ρ × σ)) (guard : σ → ι → Prop)
    [∀ state call, Decidable (guard state call)] :
    ∀ (state : σ) (calls : List ι), Decidable (Guarded step guard state calls)
  | _, [] => isTrue trivial
  | state, call :: calls =>
    match hstep : step state call with
    | none => decidable_of_iff (guard state call) (by simp [Guarded, hstep])
    | some (_, next) =>
      have := decidableGuarded step guard next calls
      decidable_of_iff (guard state call ∧ Guarded step guard next calls)
        (guarded_cons hstep).symm

theorem Guarded.and {guard' : σ → ι → Prop} {state : σ} (h : Guarded step guard state calls)
    (h' : Guarded step guard' state calls) :
    Guarded step (fun state call => guard state call ∧ guard' state call) state calls := by
  induction calls generalizing state with
  | nil => trivial
  | cons call calls ih =>
    refine ⟨⟨h.1, h'.1⟩, ?_⟩
    intro result next hstep
    exact ih (h.2 result next hstep) (h'.2 result next hstep)

theorem Guarded.mono {guard' : σ → ι → Prop} {state : σ} (h : Guarded step guard state calls)
    (himp : ∀ state call, guard state call → guard' state call) :
    Guarded step guard' state calls := by
  induction calls generalizing state with
  | nil => trivial
  | cons call calls ih =>
    refine ⟨himp state call h.1, ?_⟩
    intro result next hstep
    exact ih (h.2 result next hstep)

theorem guarded_of_forall (h : ∀ state call, guard state call) (state : σ) (calls : List ι) :
    Guarded step guard state calls := by
  induction calls generalizing state with
  | nil => trivial
  | cons call calls ih => exact ⟨h state call, fun _ next _ => ih next⟩

theorem run_refines {spec : β → ι → ρ → β → Prop} {related : σ → β → Prop}
    (hstep : ∀ state abstract call, related state abstract → guard state call →
      ∃ result next abstract', step state call = some (result, next) ∧
        spec abstract call result abstract' ∧ related next abstract')
    {state : σ} {abstract : β} (hrelated : related state abstract)
    (hguarded : Guarded step guard state calls) :
    ∃ results last abstract', run step state calls = some (results, last) ∧
      SpecRun spec abstract calls results abstract' ∧ related last abstract' := by
  induction calls generalizing state abstract with
  | nil => exact ⟨[], state, abstract, rfl, .nil abstract, hrelated⟩
  | cons call calls ih =>
    obtain ⟨result, next, abstract', heq, hspec, hrelated'⟩ :=
      hstep state abstract call hrelated hguarded.1
    obtain ⟨results, last, abstract'', hrun, hspecRun, hlast⟩ :=
      ih hrelated' (hguarded.2 result next heq)
    refine ⟨result :: results, last, abstract'', ?_, .cons hspec hspecRun, hlast⟩
    simp only [run, heq, hrun]

theorem run_satisfies {spec : σ → ι → ρ → σ → Prop}
    (hstep : ∀ state call, invariant state → guard state call →
      ∃ result next, step state call = some (result, next) ∧ spec state call result next ∧
        invariant next)
    {state : σ} (hinvariant : invariant state) (hguarded : Guarded step guard state calls) :
    ∃ results last, run step state calls = some (results, last) ∧
      SpecRun spec state calls results last := by
  have hrelated : ∀ state abstract call, state = abstract ∧ invariant state → guard state call →
      ∃ result next abstract', step state call = some (result, next) ∧
        spec abstract call result abstract' ∧ next = abstract' ∧ invariant next := by
    rintro state _ call ⟨rfl, hinvariant⟩ hguard
    obtain ⟨result, next, heq, hspec, hnext⟩ := hstep state call hinvariant hguard
    exact ⟨result, next, next, heq, hspec, rfl, hnext⟩
  obtain ⟨results, last, _, hrun, hspecRun, rfl, -⟩ :=
    run_refines hrelated ⟨rfl, hinvariant⟩ hguarded
  exact ⟨results, last, hrun, hspecRun⟩

theorem SpecRun.holds_last {spec : β → ι → ρ → β → Prop} {property : β → Prop}
    (hspec : ∀ state call result next, spec state call result next → property next)
    {state last : β} {results : List ρ} (hstate : property state)
    (h : SpecRun spec state calls results last) : property last := by
  induction h with
  | nil => exact hstate
  | cons hcall _ ih => exact ih (hspec _ _ _ _ hcall)

theorem run_invariant (hstep : ∀ state call, invariant state → guard state call →
      ∃ result next, step state call = some (result, next) ∧ invariant next)
    {state : σ} (hinvariant : invariant state) (hguarded : Guarded step guard state calls) :
    ∃ results last, run step state calls = some (results, last) ∧ invariant last := by
  induction calls generalizing state with
  | nil => exact ⟨[], state, rfl, hinvariant⟩
  | cons call calls ih =>
    obtain ⟨result, next, heq, hnext⟩ := hstep state call hinvariant hguarded.1
    obtain ⟨results, last, hrun, hlast⟩ := ih hnext (hguarded.2 result next heq)
    exact ⟨result :: results, last, by simp only [run, heq, hrun], hlast⟩

def Throughout (step : σ → ι → Option (ρ × σ)) (property : σ → Prop) : σ → List ι → Prop
  | state, [] => property state
  | state, call :: calls =>
    property state ∧
      ∃ result next, step state call = some (result, next) ∧ Throughout step property next calls

theorem Throughout.head {property : σ → Prop} {state : σ}
    (h : Throughout step property state calls) : property state := by
  cases calls with
  | nil => exact h
  | cons call calls => exact h.1

theorem Throughout.last {property : σ → Prop} {state : σ}
    (h : Throughout step property state calls) :
    ∃ results last, run step state calls = some (results, last) ∧ property last := by
  induction calls generalizing state with
  | nil => exact ⟨[], state, rfl, h⟩
  | cons call calls ih =>
    obtain ⟨-, result, next, heq, hrest⟩ := h
    obtain ⟨results, last, hrun, hlast⟩ := ih hrest
    exact ⟨result :: results, last, by simp only [run, heq, hrun], hlast⟩

theorem throughout_iff_guarded_of_faults {legal : σ → ι → Prop} {property : σ → Prop}
    (hproperty : ∀ state, invariant state → property state)
    (hgood : ∀ state call, invariant state → legal state call → good state call →
      ∃ result next, step state call = some (result, next) ∧ invariant next)
    (hbad : ∀ state call result next, invariant state → legal state call → ¬good state call →
      step state call = some (result, next) → ¬property next)
    {state : σ} (hinvariant : invariant state) (hlegal : Guarded step legal state calls) :
    Throughout step property state calls ↔ Guarded step good state calls := by
  induction calls generalizing state with
  | nil =>
    constructor
    · intro _
      trivial
    · intro _
      exact hproperty state hinvariant
  | cons call calls ih =>
    constructor
    · rintro ⟨-, result, next, heq, hrest⟩
      have hcall : good state call := Classical.byContradiction fun hcall =>
        hbad state call result next hinvariant hlegal.1 hcall heq hrest.head
      obtain ⟨result', next', heq', hnext⟩ := hgood state call hinvariant hlegal.1 hcall
      rw [heq] at heq'
      cases heq'
      rw [guarded_cons heq]
      exact ⟨hcall, (ih hnext (hlegal.2 result next heq)).mp hrest⟩
    · rintro ⟨hcall, hrest⟩
      obtain ⟨result, next, heq, hnext⟩ := hgood state call hinvariant hlegal.1 hcall
      exact ⟨hproperty state hinvariant, result, next, heq,
        (ih hnext (hlegal.2 result next heq)).mpr (hrest result next heq)⟩

theorem throughout_iff_guarded {legal : σ → ι → Prop} {property : σ → Prop}
    (hproperty : ∀ state, invariant state → property state)
    (hstep : ∀ state call, invariant state → legal state call →
      ∃ result next, step state call = some (result, next) ∧ (property next ↔ good state call) ∧
        (good state call → invariant next))
    {state : σ} (hinvariant : invariant state) (hlegal : Guarded step legal state calls) :
    Throughout step property state calls ↔ Guarded step good state calls := by
  refine throughout_iff_guarded_of_faults hproperty ?_ ?_ hinvariant hlegal
  · intro state call hinvariant hlegal hgood
    obtain ⟨result, next, heq, -, hnext⟩ := hstep state call hinvariant hlegal
    exact ⟨result, next, heq, hnext hgood⟩
  · intro state call result next hinvariant hlegal hbad heq hproperty
    obtain ⟨result', next', heq', hiff, -⟩ := hstep state call hinvariant hlegal
    cases heq.symm.trans heq'
    exact hbad (hiff.mp hproperty)

def Meets (step : σ → ι → Option (ρ × σ)) (spec : σ → ι → ρ → σ → Prop) : σ → List ι → Prop
  | _, [] => True
  | state, call :: calls =>
    ∃ result next, step state call = some (result, next) ∧ spec state call result next ∧
      Meets step spec next calls

theorem Meets.returns {spec : σ → ι → ρ → σ → Prop} {state : σ} (h : Meets step spec state calls) :
    run step state calls ≠ none := by
  induction calls generalizing state with
  | nil => exact Option.some_ne_none _
  | cons call calls ih =>
    obtain ⟨result, next, heq, -, hrest⟩ := h
    obtain ⟨outcome, houtcome⟩ := Option.ne_none_iff_exists'.mp (ih hrest)
    simp only [run, heq, houtcome]
    exact Option.some_ne_none _

theorem meets_iff_guarded_of_faults {legal : σ → ι → Prop} {spec : σ → ι → ρ → σ → Prop}
    (hgood : ∀ state call, invariant state → legal state call → good state call →
      ∃ result next, step state call = some (result, next) ∧ spec state call result next ∧
        invariant next)
    (hbad : ∀ state call result next, invariant state → legal state call → ¬good state call →
      step state call = some (result, next) → ¬spec state call result next)
    {state : σ} (hinvariant : invariant state) (hlegal : Guarded step legal state calls) :
    Meets step spec state calls ↔ Guarded step good state calls := by
  induction calls generalizing state with
  | nil => exact Iff.rfl
  | cons call calls ih =>
    constructor
    · rintro ⟨result, next, heq, hspec, hrest⟩
      have hcall : good state call := Classical.byContradiction fun hcall =>
        hbad state call result next hinvariant hlegal.1 hcall heq hspec
      obtain ⟨result', next', heq', -, hnext⟩ := hgood state call hinvariant hlegal.1 hcall
      rw [heq] at heq'
      cases heq'
      rw [guarded_cons heq]
      exact ⟨hcall, (ih hnext (hlegal.2 result next heq)).mp hrest⟩
    · rintro ⟨hcall, hrest⟩
      obtain ⟨result, next, heq, hspec, hnext⟩ := hgood state call hinvariant hlegal.1 hcall
      exact ⟨result, next, heq, hspec,
        (ih hnext (hlegal.2 result next heq)).mpr (hrest result next heq)⟩

theorem meets_iff_guarded {spec : σ → ι → ρ → σ → Prop} (hstep : ∀ state call, invariant state →
      ∃ result next, step state call = some (result, next) ∧
        (spec state call result next ↔ good state call) ∧ (good state call → invariant next))
    {state : σ} (hinvariant : invariant state) :
    Meets step spec state calls ↔ Guarded step good state calls := by
  refine meets_iff_guarded_of_faults ?_ ?_ hinvariant (guarded_of_forall (fun _ _ => trivial) _ _)
  · intro state call hinvariant _ hgood
    obtain ⟨result, next, heq, hspec, hnext⟩ := hstep state call hinvariant
    exact ⟨result, next, heq, hspec.mpr hgood, hnext hgood⟩
  · intro state call result next hinvariant _ hbad heq hcall
    obtain ⟨result', next', heq', hspec, -⟩ := hstep state call hinvariant
    cases heq.symm.trans heq'
    exact hbad (hspec.mp hcall)

end

section

variable {σ : Type*}

def Reachable (init : σ → Prop) (step : σ → σ → Prop) (state : σ) : Prop :=
  ∃ start, init start ∧ Relation.ReflTransGen step start state

variable {init : σ → Prop} {step : σ → σ → Prop} {state : σ}

theorem reachable_of_init (h : init state) : Reachable init step state :=
  ⟨state, h, .refl⟩

theorem Reachable.tail {next : σ} (h : Reachable init step state) (hstep : step state next) :
    Reachable init step next := by
  obtain ⟨start, hstart, hsteps⟩ := h
  exact ⟨start, hstart, hsteps.tail hstep⟩

theorem Reachable.invariant {invariant : σ → Prop} (hinit : ∀ state, init state → invariant state)
    (hstep : ∀ state next, invariant state → step state next → invariant next)
    (h : Reachable init step state) : invariant state := by
  obtain ⟨start, hstart, hsteps⟩ := h
  induction hsteps with
  | refl => exact hinit start hstart
  | tail _ hlast ih => exact hstep _ _ ih hlast

end

section

variable {σ ι ρ : Type*}

/-- A step made by one of several callers, in a state in which it meets `guard`. -/
def GuardedStep (step : σ → ι → Option (ρ × σ)) (guard : σ → ι → Prop) (state next : σ) : Prop :=
  ∃ call result, guard state call ∧ step state call = some (result, next)

theorem reachable_of_run {step : σ → ι → Option (ρ × σ)} {guard : σ → ι → Prop}
    {init : σ → Prop} {calls : List ι} {results : List ρ} {state last : σ}
    (hstart : Reachable init (GuardedStep step guard) state)
    (hguarded : Guarded step guard state calls)
    (hrun : run step state calls = some (results, last)) :
    Reachable init (GuardedStep step guard) last := by
  induction calls generalizing state results with
  | nil =>
    cases hrun
    exact hstart
  | cons call calls ih =>
    unfold run at hrun
    cases hstep : step state call with
    | none =>
      rw [hstep] at hrun
      cases hrun
    | some answer =>
      obtain ⟨result, next⟩ := answer
      rw [hstep] at hrun
      dsimp only at hrun
      cases hrest : run step next calls with
      | none =>
        rw [hrest] at hrun
        cases hrun
      | some outcome =>
        rw [hrest] at hrun
        cases hrun
        exact ih (hstart.tail ⟨call, result, hguarded.1, hstep⟩)
          (hguarded.2 result next hstep) hrest

end

end Zambesii.Runs
