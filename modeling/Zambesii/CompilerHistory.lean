import Zambesii.DmaConstraints
import Zambesii.Runs

/-!
`fplainn::dma::constraints::Compiler` as an object that is used again: what `compile` writes,
what it leaves of an earlier use, and when the object calls itself valid.
-/

namespace Zambesii.CompilerHistory

open DmaConstraints KernelTypes Option Runs

/-- The members of the object. `compile` writes neither the version nor the slop barrier. -/
structure Object where
  version : Nat
  slopBarrierBits : Nat
  i : Compiler
deriving DecidableEq

namespace Object

def isValid (object : Object) : Bool :=
  decide (0 < object.version) && decide (0 < object.i.minElementGranularityNFrames)

def setInvalid (object : Object) : Object :=
  { object with version := 0, i := { object.i with minElementGranularityNFrames := 0 } }

def new : Object :=
  { setInvalid ⟨0, 0, newCompiler⟩ with version := 1 }

/-- `compile`; `none` when a shift is undefined. -/
def compile (object : Object) (cons : Constraints) : Option (Kerror × Object) :=
  (DmaConstraints.compile cons object.i).map fun r => (r.1, { object with i := r.2 })

end Object

inductive Use
  | compile (cons : Constraints)
  | setInvalid

def step (object : Object) : Use → Option (Option Kerror × Object)
  | .compile cons => (object.compile cons).map fun r => (some r.1, r.2)
  | .setInvalid => some (none, object.setInvalid)

/-- Both objects compile the list with the same result and, on success, to the same members, and
call themselves valid exactly on success. -/
def Repeatable (cons : Constraints) (object object' : Object) : Prop :=
  ∃ error next next', object.compile cons = some (error, next) ∧
    object'.compile cons = some (error, next') ∧ (error = .success → next = next') ∧
    (next.isValid = true ↔ error = .success) ∧ (next'.isValid = true ↔ error = .success)

structure ElementsAccepted (cons : Constraints) : Prop where
  sizes : ∀ bits ∈ getAttr cons .elementLengthBits,
    inFrames (getAttr cons .elementGranularityBits) ≤ inFrames (some bits)
  slopIn : (getAttr cons .slopInBits).getD 0 = 0
  slopOut : (getAttr cons .slopOutBits).getD 0 = 0
  slopExtra : (getAttr cons .slopOutExtra).getD 0 = 0
  format : ∃ value ∈ getAttr cons .scgthFormat, value % 4 ≠ 0

structure Accepted (cons : Constraints) : Prop extends ElementsAccepted cons where
  fixed : ¬ FixedRejected cons

/-- The members that `compile` does not write for this list are the same. -/
structure Agree (cons : Constraints) (i i' : Compiler) : Prop where
  fixedBits : (getAttr cons .addrFixedBits).getD 0 = 0 → i.fixedBits = i'.fixedBits
  fixedBitsValue : fixedBits? cons = none → i.fixedBitsValue = i'.fixedBitsValue
  partialAllocations : isSet cons .noPartial = false →
    i.partialAllocationsDisallowed = i'.partialAllocationsDisallowed
  sequentialAccess : isSet cons .sequential = false →
    i.sequentialAccessHint = i'.sequentialAccessHint

section

variable {cons : Constraints} {i : Compiler}

def fixedStart (cons : Constraints) : Nat :=
  match fixedBits? cons with
  | none => 0
  | some bits =>
    DmaConstraints.fixedBitsValue cons * 2 ^ (keptWidth cons - bits % 2 ^ 8) %
      wordModulus / pagingBaseSize

def fixedEnd (cons : Constraints) : Nat :=
  match fixedBits? cons with
  | none => endPfn cons
  | some bits =>
    min (endPfn cons) ((DmaConstraints.fixedBitsValue cons + 1) % wordModulus *
      2 ^ (keptWidth cons - bits % 2 ^ 8) % wordModulus / pagingBaseSize)

def withFixed (cons : Constraints) (i : Compiler) : Compiler :=
  { i with
    startPfn := fixedStart cons
    beyondEndPfn := fixedEnd cons
    fixedBits :=
      if (getAttr cons .addrFixedBits).getD 0 = 0 then i.fixedBits
      else (getAttr cons .addrFixedBits).getD 0 % 2 ^ 8
    fixedBitsValue :=
      if fixedBits? cons = none then i.fixedBitsValue else DmaConstraints.fixedBitsValue cons }

theorem compileFixed_free_eq (hrejected : ¬ FixedRejected cons) (hfixed : fixedBits? cons = none)
    (hend : i.beyondEndPfn = endPfn cons) :
    compileFixed cons i = some (.success, withFixed cons i) := by
  rw [compileFixed_free hrejected hfixed i]
  unfold withFixed fixedStart fixedEnd
  simp [hfixed, ← hend]

theorem fixedBits_of_some {bits : Nat} (h : fixedBits? cons = some bits) :
    getAttr cons .addrFixedBits = some bits ∧ 0 < bits := by
  unfold fixedBits? at h
  split at h
  case h_1 => cases h
  case h_2 value hattr =>
      split at h
      case isTrue hpos =>
          cases h
          exact ⟨hattr, hpos.1⟩
      case isFalse => cases h

theorem compileFixed_value_eq (hrejected : ¬ FixedRejected cons) {bits : Nat}
    (hfixed : fixedBits? cons = some bits)
    (hfits : bits % 2 ^ 8 ≤ keptWidth cons ∧ keptWidth cons - bits % 2 ^ 8 < 32)
    (hwidth : i.addressableBits = keptWidth cons) (hend : i.beyondEndPfn = endPfn cons) :
    compileFixed cons i = some (.success, withFixed cons i) := by
  obtain ⟨hattr, hpos⟩ := fixedBits_of_some hfixed
  obtain ⟨hhi, heq⟩ := compileFixed_value hrejected hfixed i
  have hamount : wordSub i.addressableBits (bits % 2 ^ 8) = keptWidth cons - bits % 2 ^ 8 := by
    rw [hwidth]
    exact wordSub_of_le hfits.1 (by unfold wordModulus; omega)
  obtain ⟨i', heq', rfl⟩ := @compileFixedValue_eq cons
    { i with startPfn := 0, fixedBits := bits % 2 ^ 8 } hhi (by rw [hamount]; exact hfits.2)
  rw [heq, heq']
  unfold withFixed fixedStart fixedEnd
  simp only [hfixed, hattr, hamount, getD_some, hend, reduceCtorEq, if_false,
    if_neg hpos.ne']

theorem compileFixed_closed (hrejected : ¬ FixedRejected cons) (hfits : ∀ bits ∈ fixedBits? cons,
      bits % 2 ^ 8 ≤ keptWidth cons ∧ keptWidth cons - bits % 2 ^ 8 < 32)
    (hwidth : i.addressableBits = keptWidth cons) (hend : i.beyondEndPfn = endPfn cons) :
    compileFixed cons i = some (.success, withFixed cons i) := by
  cases hfixed : fixedBits? cons with
  | none => exact compileFixed_free_eq hrejected hfixed hend
  | some bits => exact compileFixed_value_eq hrejected hfixed (hfits bits hfixed) hwidth hend

def begun (cons : Constraints) (i : Compiler) : Compiler :=
  compileElementsPerSegment cons
    { i with
      minElementGranularityNFrames := 1
      maxNContiguousFrames := 1
      addressableBits := keptWidth cons
      beyondEndPfn := endPfn cons
      pfnSkipStride := inFrames (getAttr cons .elementAlignmentBits) - 1 }

theorem compile_begun (h : FitsShift (getAttr cons .elementAlignmentBits)) (i : Compiler) :
    compile cons i = (compileFixed cons (begun cons i)).bind fun r =>
      if r.1 ≠ .success then some r else compileElements cons r.2 := by
  unfold compile
  simp only [compileAddressable_eq, compileAlignment_eq h, some_bind]
  rfl

def withSizes (cons : Constraints) (i : Compiler) : Compiler :=
  { i with
    minElementGranularityNFrames := inFrames (getAttr cons .elementGranularityBits)
    maxNContiguousFrames :=
      if (getAttr cons .elementLengthBits).isSome then inFrames (getAttr cons .elementLengthBits)
      else inFrames (getAttr cons .elementGranularityBits) }

theorem compileElements_closed (hgran : FitsShift (getAttr cons .elementGranularityBits))
    (hlength : FitsShift (getAttr cons .elementLengthBits))
    (hmin : i.minElementGranularityNFrames = 1) (hmax : i.maxNContiguousFrames = 1) :
    compileElements cons i = some (compileRest cons (withSizes cons i)) := by
  unfold compileElements
  rw [compileGranularity_eq hgran hmin hmax, some_bind, compileLength_eq hlength]
  rfl

def accepted (cons : Constraints) (i : Compiler) : Compiler :=
  { compileHints cons (compileSlop cons i) with
    callerSupportedFormats := (getAttr cons .scgthFormat).getD 0 % 2 ^ 8 }

theorem compileFormat_closed (cons : Constraints) :
    ∃ error, (error = .success ↔ ∃ value ∈ getAttr cons .scgthFormat, value % 4 ≠ 0) ∧
      ∀ i : Compiler, ∃ next, compileFormat cons i = (error, next) ∧
        next.minElementGranularityNFrames = i.minElementGranularityNFrames ∧
        (error = .success → next =
          { i with callerSupportedFormats := (getAttr cons .scgthFormat).getD 0 % 2 ^ 8 }) := by
  cases hattr : getAttr cons .scgthFormat with
  | none =>
    refine ⟨.nonConformant, by simp, ?_⟩
    intro i
    refine ⟨{ i with callerSupportedFormats := 0 }, ?_, rfl, by simp⟩
    rw [compileFormat, hattr]
  | some value =>
    rcases eq_or_ne (value % 4) 0 with hzero | hne
    · refine ⟨.nonConformant, by simp [hzero], ?_⟩
      intro i
      refine ⟨{ i with callerSupportedFormats := 0 }, ?_, rfl, by simp⟩
      simp only [compileFormat, hattr, if_pos hzero]
    · refine ⟨.success, by simp [hne], ?_⟩
      intro i
      refine ⟨{ i with callerSupportedFormats := value % 2 ^ 8 }, ?_, rfl, fun _ => rfl⟩
      simp only [compileFormat, hattr, if_neg hne]

theorem sizes_iff (cons : Constraints) (i : Compiler) :
    (withSizes cons i).maxNContiguousFrames < (withSizes cons i).minElementGranularityNFrames ↔
      ¬ ∀ bits ∈ getAttr cons .elementLengthBits,
        inFrames (getAttr cons .elementGranularityBits) ≤ inFrames (some bits) := by
  unfold withSizes
  cases getAttr cons .elementLengthBits with
  | none => simp
  | some value => simp

theorem compileRest_closed (cons : Constraints) :
    ∃ error, (error = .success ↔ ElementsAccepted cons) ∧ ∀ i : Compiler,
      ∃ next, compileRest cons (withSizes cons i) = (error, next) ∧
        next.minElementGranularityNFrames = inFrames (getAttr cons .elementGranularityBits) ∧
        (error = .success → next = accepted cons (withSizes cons i)) := by
  rcases em (∀ bits ∈ getAttr cons .elementLengthBits,
      inFrames (getAttr cons .elementGranularityBits) ≤ inFrames (some bits)) with hsizes | hsizes
  swap
  · refine ⟨.invalidArgVal, ⟨by simp, fun h => absurd h.sizes hsizes⟩, ?_⟩
    intro i
    refine ⟨withSizes cons i, ?_, rfl, by simp⟩
    rw [compileRest, if_pos ((sizes_iff cons i).2 hsizes)]
  have hrest : ∀ i, compileRest cons (withSizes cons i) =
      if (getAttr cons .slopInBits).getD 0 ≠ 0 ∨ (getAttr cons .slopOutBits).getD 0 ≠ 0 ∨
          (getAttr cons .slopOutExtra).getD 0 ≠ 0 then
        (.unsupported, compileSlop cons (withSizes cons i))
      else compileFormat cons (compileHints cons (compileSlop cons (withSizes cons i))) := by
    intro i
    rw [compileRest, if_neg fun h => (sizes_iff cons i).1 h hsizes]
    rfl
  rcases em ((getAttr cons .slopInBits).getD 0 ≠ 0 ∨
      (getAttr cons .slopOutBits).getD 0 ≠ 0 ∨ (getAttr cons .slopOutExtra).getD 0 ≠ 0)
    with hslop | hslop
  · refine ⟨.unsupported, ⟨by simp, fun h => ?_⟩, ?_⟩
    · simp [h.slopIn, h.slopOut, h.slopExtra] at hslop
    · intro i
      exact ⟨_, (hrest i).trans (if_pos hslop), rfl, by simp⟩
  have hnoSlop := hslop
  simp only [not_or, not_not] at hnoSlop
  obtain ⟨hin, hout, hextra⟩ := hnoSlop
  obtain ⟨error, herror, hformat⟩ := compileFormat_closed cons
  refine ⟨error, ?_, ?_⟩
  · rw [herror]
    exact ⟨fun h => ⟨hsizes, hin, hout, hextra, h⟩, fun h => h.format⟩
  · intro i
    obtain ⟨next, heq, hmin, hnext⟩ :=
      hformat (compileHints cons (compileSlop cons (withSizes cons i)))
    exact ⟨next, (hrest i).trans ((if_neg hslop).trans heq), hmin, hnext⟩

theorem compile_closed (h : ShiftsFit cons) :
    ∃ error, (error = .success ↔ Accepted cons) ∧ ∀ i : Compiler,
      ∃ next, compile cons i = some (error, next) ∧ 0 < next.minElementGranularityNFrames ∧
        (error = .success →
          next = accepted cons (withSizes cons (withFixed cons (begun cons i)))) := by
  obtain ⟨halign, hfixed⟩ := h
  rcases em (FixedRejected cons) with hrejected | hrejected
  · refine ⟨.unsupported, ⟨by simp, fun h => absurd hrejected h.fixed⟩, ?_⟩
    intro i
    obtain ⟨next, heq, hmin⟩ := compileFixed_rejected hrejected (begun cons i)
    refine ⟨next, ?_, ?_, by simp⟩
    · rw [compile_begun halign, heq]
      rfl
    · rw [hmin]
      exact one_pos
  obtain ⟨hbits, hgran, hlength⟩ := hfixed.resolve_left hrejected
  obtain ⟨error, herror, hrest⟩ := compileRest_closed cons
  refine ⟨error, herror.trans ⟨fun h => ⟨h, hrejected⟩, fun h => h.toElementsAccepted⟩, ?_⟩
  intro i
  obtain ⟨next, heq, hmin, hnext⟩ := hrest (withFixed cons (begun cons i))
  refine ⟨next, ?_, ?_, hnext⟩
  · rw [compile_begun halign, compileFixed_closed hrejected hbits rfl rfl, bind_some,
      if_neg (by simp), compileElements_closed hgran hlength rfl rfl, heq]
  · rw [hmin]
    exact inFrames_pos _

theorem accepted_eq_iff (cons : Constraints) (i i' : Compiler) :
    accepted cons (withSizes cons (withFixed cons (begun cons i))) =
        accepted cons (withSizes cons (withFixed cons (begun cons i'))) ↔ Agree cons i i' := by
  have hor : ∀ a b c : Bool, (a || c) = (b || c) ↔ (c = false → a = b) := by decide
  have hite : ∀ (p : Prop) [Decidable p] (a b c : Nat),
      (if p then a else c) = (if p then b else c) ↔ (p → a = b) := by
    intro p _ a b c
    split <;> simp_all
  simp only [accepted, compileHints, compileSlop, withSizes, withFixed, begun,
    compileElementsPerSegment, Compiler.mk.injEq, true_and, hor, hite]
  constructor
  · rintro ⟨hallocates, hsequential, hbits, hvalue⟩
    exact ⟨hbits, hvalue, hallocates, hsequential⟩
  · intro h
    exact ⟨h.partialAllocations, h.sequentialAccess, h.fixedBits, h.fixedBitsValue⟩

end

section

variable {object object' : Object} {cons : Constraints}

def Used (object : Object) : Prop :=
  Reachable (· = Object.new) (GuardedStep step fun _ _ => True) object

/-- The members that no use of an object changes, but for the version that `setInvalid` clears. -/
structure Kept (object : Object) : Prop where
  version_le : object.version ≤ 1
  slopBarrierBits_eq : object.slopBarrierBits = 0

theorem Kept.step (h : Kept object) {use : Use} {result : Option Kerror}
    (hstep : step object use = some (result, object')) : Kept object' := by
  cases use with
  | compile cons =>
    obtain ⟨⟨error, next⟩, hcompile, heq⟩ := map_eq_some_iff.1 hstep
    obtain ⟨-, rfl⟩ := Prod.mk.inj heq
    obtain ⟨⟨error', i⟩, -, heq'⟩ := map_eq_some_iff.1 hcompile
    obtain ⟨-, rfl⟩ := Prod.mk.inj heq'
    exact ⟨h.version_le, h.slopBarrierBits_eq⟩
  | setInvalid =>
    cases hstep
    exact ⟨Nat.zero_le 1, h.slopBarrierBits_eq⟩

theorem Used.kept (h : Used object) : Kept object := by
  refine Reachable.invariant ?_ ?_ h
  · rintro _ rfl
    exact ⟨le_refl 1, rfl⟩
  · rintro state next hkept ⟨use, result, -, hstep⟩
    exact hkept.step hstep

theorem isValid_iff {next : Compiler} (hmin : 0 < next.minElementGranularityNFrames)
    (object : Object) :
    ({ object with i := next } : Object).isValid = true ↔ 0 < object.version := by
  unfold Object.isValid
  rw [Bool.and_eq_true, decide_eq_true_iff, decide_eq_true_iff]
  exact and_iff_left hmin

/-- The objects agree on a list exactly when it has no shift that is undefined, the version of
each tells whether it is accepted, and what it does not write is the same in both. -/
theorem repeatable_iff (h : Used object) (h' : Used object') (cons : Constraints) :
    Repeatable cons object object' ↔ ShiftsFit cons ∧ (0 < object.version ↔ Accepted cons) ∧
        (0 < object'.version ↔ Accepted cons) ∧
        (Accepted cons → Agree cons object.i object'.i) := by
  constructor
  · rintro ⟨error, next, next', heq, heq', hsame, hvalid, hvalid'⟩
    obtain ⟨⟨error₁, i⟩, hcompile, hnext⟩ := map_eq_some_iff.1 heq
    obtain ⟨rfl, rfl⟩ := Prod.mk.inj hnext
    obtain ⟨⟨error₂, i'⟩, hcompile', hnext'⟩ := map_eq_some_iff.1 heq'
    obtain ⟨hcode, rfl⟩ := Prod.mk.inj hnext'
    have hfit : ShiftsFit cons := (compile_iff cons object.i).1.1 (by rw [hcompile]; simp)
    obtain ⟨error, herror, hclosed⟩ := compile_closed hfit
    obtain ⟨j, hj, hmin, hjeq⟩ := hclosed object.i
    obtain ⟨j', hj', hmin', hjeq'⟩ := hclosed object'.i
    rw [hcompile] at hj
    cases hj
    rw [hcompile'] at hj'
    cases hj'
    rw [isValid_iff hmin, herror] at hvalid
    rw [isValid_iff hmin', herror] at hvalid'
    refine ⟨hfit, hvalid, hvalid', ?_⟩
    intro haccepted
    have hsuccess := herror.2 haccepted
    have hmembers := congrArg Object.i (hsame hsuccess)
    rwa [hjeq hsuccess, hjeq' hsuccess, accepted_eq_iff] at hmembers
  · rintro ⟨hfit, hversion, hversion', hagree⟩
    obtain ⟨error, herror, hclosed⟩ := compile_closed hfit
    obtain ⟨i, heq, hmin, hi⟩ := hclosed object.i
    obtain ⟨i', heq', hmin', hi'⟩ := hclosed object'.i
    refine ⟨error, { object with i }, { object' with i := i' }, ?_, ?_, ?_, ?_, ?_⟩
    · rw [Object.compile, heq]
      rfl
    · rw [Object.compile, heq']
      rfl
    · intro hsuccess
      have haccepted := herror.1 hsuccess
      have hmembers : i = i' := by
        rw [hi hsuccess, hi' hsuccess, accepted_eq_iff]
        exact hagree haccepted
      have hpos := hversion.2 haccepted
      have hpos' := hversion'.2 haccepted
      have hone : object.version = object'.version := by
        have hle := h.kept.version_le
        have hle' := h'.kept.version_le
        omega
      rw [Object.mk.injEq]
      exact ⟨hone, h.kept.slopBarrierBits_eq.trans h'.kept.slopBarrierBits_eq.symm, hmembers⟩
    · rw [isValid_iff hmin, herror, hversion]
    · rw [isValid_iff hmin', herror, hversion']

theorem used_new : Used Object.new :=
  reachable_of_init rfl

theorem segmentedEngine_accepted : Accepted segmentedEngine where
  sizes := by
    intro bits hbits
    cases hbits
  slopIn := rfl
  slopOut := rfl
  slopExtra := rfl
  format := ⟨1, rfl, by decide⟩
  fixed := fun h => h.1 rfl

theorem repeatable_iff_segmentedEngine :
    ∃ object, Object.new.compile segmentedEngine = some (.success, object) ∧
      Repeatable segmentedEngine Object.new object := by
  have hcompiled : ((Object.new.compile segmentedEngine).any fun r =>
      decide (r.1 = .success ∧ r.2.version = 1 ∧ r.2.i.fixedBits = 0 ∧ r.2.i.fixedBitsValue = 0 ∧
        r.2.i.partialAllocationsDisallowed = false ∧ r.2.i.sequentialAccessHint = false)) =
      true := by
    decide +kernel
  obtain ⟨⟨error, object⟩, heq, hvalues⟩ := (any_eq_true _ _).mp hcompiled
  obtain ⟨herror, hversion, hbits, hvalue, hallocates, hsequential⟩ := of_decide_eq_true hvalues
  obtain rfl : error = .success := herror
  have hused : Used object := by
    refine used_new.tail ⟨.compile segmentedEngine, some .success, trivial, ?_⟩
    rw [step, heq]
    rfl
  have hshifts : ShiftsFit segmentedEngine := by
    refine (compile_iff segmentedEngine newCompiler).1.1 ?_
    decide +kernel
  refine ⟨object, heq, (repeatable_iff used_new hused segmentedEngine).2 ⟨hshifts, ?_, ?_, ?_⟩⟩
  · exact ⟨fun _ => segmentedEngine_accepted, fun _ => one_pos⟩
  · exact ⟨fun _ => segmentedEngine_accepted, fun _ => hversion.symm ▸ one_pos⟩
  · intro _
    exact ⟨fun _ => hbits.symm, fun _ => hvalue.symm, fun _ => hallocates.symm,
      fun _ => hsequential.symm⟩

theorem noAttributes_not_repeatable : ¬ Repeatable [] Object.new Object.new := by
  rintro ⟨error, next, next', heq, -, -, hvalid, -⟩
  have hfails : ((Object.new.compile []).any fun r =>
      decide (r.1 = .nonConformant) && r.2.isValid) = true := by
    decide +kernel
  rw [heq, any_some, Bool.and_eq_true, decide_eq_true_iff] at hfails
  have hcode : error = .nonConformant := hfails.1
  have hsuccess := hvalid.1 hfails.2
  rw [hcode] at hsuccess
  cases hsuccess

end

end Zambesii.CompilerHistory
