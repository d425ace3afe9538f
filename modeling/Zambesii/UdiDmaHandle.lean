import Zambesii.Runs
import Zambesii.UdiDma

/-!
One DMA handle over whole runs: it has a buffer exactly when its `udi_scgth_t` is initialized, and
the array of elements is there exactly as long.
-/

namespace Zambesii.UdiDmaHandle

open Function Nat
open KernelTypes DmaConstraints UdiBuf UdiDma Runs

inductive Call
  | prepare (allocated gcb : Bool) (constraints : Option Constraints) (flags : Nat)
  | bufMap (answers : MapAnswers) (gcb : Bool) (buf flags : Nat)
  | bufUnmap
  | sync (gcb : Bool) (flags : Nat)
  | free
  | others (msgls : Nat → Option Msgl) (lists : Nat → Option SgList)

/-- The driver's callback for `udi_dma_prepare`. -/
def keep : Callback (Option Nat) := some fun handle world => some { world with kept := handle }

def ignore {α : Type} : Callback α := some fun _ world => some world

def step (world : World) : Call → Option (Unit × World)
  | .prepare allocated gcb constraints flags => do
      let world ← udiDmaPrepare allocated keep gcb constraints flags world
      some ((), world)
  | .bufMap answers gcb buf flags => do
      let world ← udiDmaBufMap answers ignore gcb world.kept (some buf) flags world
      some ((), world)
  | .bufUnmap => do
      let (_, world) ← udiDmaBufUnmap world.kept world
      some ((), world)
  | .sync gcb flags => do
      let world ← udiDmaSync ignore gcb world.kept flags world
      some ((), world)
  | .free => do
      let world ← udiDmaFree world.kept world
      some ((), { world with kept := none })
  | .others msgls lists => some ((), { world with msgls, lists })

/-- What a driver has to see to: it has one handle at a time, the buffer that it maps is there, and
so is the one that it syncs. The constraints shift by less than the width of a word. -/
def Legal (world : World) : Call → Prop
  | .prepare _ _ constraints _ =>
    world.kept = none ∧ ∀ cons ∈ constraints, (compile cons newCompiler).isSome
  | .bufMap _ _ buf _ => world.kept.isSome ∧ (world.msgls buf).isSome
  | .sync _ _ =>
    ∀ handle ∈ world.kept, ∀ dmah ∈ world.handles handle, ∀ buf ∈ dmah.msgl,
      (world.msgls buf).isSome
  | _ => True

def elementsOf (world : World) : Option Nat :=
  world.kept.bind fun handle => (world.handles handle).bind fun dmah => dmah.udiScgthObj.elements

/-- The handle has a buffer exactly when its `udi_scgth_t` is initialized, and of the arrays that
were allocated for it just the one that it points to has not been freed. -/
structure Paired (first : Nat) (world : World) : Prop where
  msgl : ∀ handle ∈ world.kept, ∃ dmah, world.handles handle = some dmah ∧
    dmah.msgl.isSome = scgthIsInitialized dmah.udiScgthObj
  array : ∀ array ≥ first, world.arrays array = true ↔ elementsOf world = some array

def nElementsFor (list : Option SgList) (msgl : Msgl) : Option Nat :=
  if elementSize * msgl.nFrames % wordModulus < 8 then some 0
  else list.map fun list => min (elementSize * msgl.nFrames % wordModulus) list.nElements

def Fills (world : World) : Call → Prop
  | .bufMap answers _ buf flags =>
    ∀ handle ∈ world.kept, ∀ dmah ∈ world.handles handle, ∀ msgl ∈ world.msgls buf,
      dmah.udiDmahFlags &&& flags ≠ 0 → dmah.msgl = none →
        constraintsOf answers (world.lists msgl.sGListIndex) = some dmah.compiledConstraints →
          msgl.nFrames ≠ 0 ∧ (answers.arrayAllocated = true →
            ∀ n ∈ nElementsFor (world.lists msgl.sGListIndex) msgl, n % 2 ^ 16 ≠ 0)
  | _ => True

structure Starts (world : World) : Prop where
  kept : world.kept = none
  array : ∀ array ≥ world.fresh, world.arrays array = false

section

/-- A handle that is consistent: it came out of `compile`, and is either mapped or blank. -/
structure Sound (first fresh : Nat) (dmah : Handle) : Prop where
  formats : dmah.compiledConstraints.callerSupportedFormats % 4 ≠ 0
  paired : dmah.msgl = none ∧ dmah.udiScgthObj = blankScgth ∨
    dmah.msgl.isSome ∧ scgthIsInitialized dmah.udiScgthObj ∧
      ∀ array ∈ dmah.udiScgthObj.elements, first ≤ array ∧ array < fresh

structure Held (first : Nat) (world : World) : Prop where
  first_le : first ≤ world.fresh
  sound : ∀ handle ∈ world.kept, ∃ dmah, world.handles handle = some dmah ∧
    Sound first world.fresh dmah
  array : ∀ array ≥ first, world.arrays array = true ↔ elementsOf world = some array

variable {first : Nat} {world : World}

theorem Starts.held (h : Starts world) : Held world.fresh world where
  first_le := le_refl _
  sound := by simp [h.kept]
  array := by
    intro array harray
    simp [h.array array harray, elementsOf, h.kept]

theorem Held.paired (h : Held first world) : Paired first world where
  msgl := by
    intro handle hhandle
    obtain ⟨dmah, hdmah, hsound⟩ := h.sound handle hhandle
    refine ⟨dmah, hdmah, ?_⟩
    rcases hsound.paired with ⟨hnone, hblank⟩ | ⟨hsome, hinit, -⟩
    · rw [hnone, hblank]
      rfl
    · rw [hsome, hinit]
  array := h.array

variable {cons : Constraints} {i i' : Compiler}

theorem formats_of_compileFormat (h : compileFormat cons i = (.success, i')) :
    i'.callerSupportedFormats % 4 ≠ 0 := by
  unfold compileFormat at h
  split at h
  · cases h
  next value _ =>
  split at h
  · cases h
  next hvalue =>
  obtain ⟨-, rfl⟩ := Prod.mk.inj h
  dsimp only
  omega

theorem formats_of_compileRest (h : compileRest cons i = (.success, i')) :
    i'.callerSupportedFormats % 4 ≠ 0 := by
  unfold compileRest at h
  split at h
  · cases h
  dsimp only at h
  split at h
  · cases h
  exact formats_of_compileFormat h

theorem formats_of_compile (h : compile cons i = some (.success, i')) :
    i'.callerSupportedFormats % 4 ≠ 0 := by
  simp only [compile, Option.bind_eq_bind, Option.bind_eq_some_iff] at h
  obtain ⟨_, -, _, -, ⟨error, _⟩, -, h⟩ := h
  split at h
  · next herror =>
    cases h
    exact absurd rfl herror
  · simp only [compileElements, Option.bind_eq_bind, Option.bind_eq_some_iff] at h
    obtain ⟨_, -, _, -, h⟩ := h
    exact formats_of_compileRest (Option.some.inj h)

end

section

variable {answers : MapAnswers} {msgl : Msgl} {comcons : Compiler} {world : World}

def withArray (world : World) : World :=
  { world.setArray world.fresh true with fresh := world.fresh + 1 }

def chosenFormat (bytes formats : Nat) : Nat :=
  if bytes < 8 then formats else if scgth64 formats then 2 else formats

def constructed (world : World) (msgl : Msgl) (comcons : Compiler) (n : Nat) : Scgth where
  numElements := n % 2 ^ 16
  format := driverMapped
    (chosenFormat (elementSize * msgl.nFrames % wordModulus) comcons.callerSupportedFormats)
  elements := some world.fresh

theorem chosenFormat_and_ne_zero {formats : Nat} (hformats : formats % 4 ≠ 0) (bytes : Nat) :
    chosenFormat bytes formats &&& formats ≠ 0 := by
  have hself : formats &&& formats ≠ 0 := by
    rw [Nat.and_self]
    omega
  unfold chosenFormat
  split
  · exact hself
  split
  · next h64 =>
    intro hzero
    have hbit : (2 &&& formats).testBit 1 = true := by
      rw [testBit_and, testBit_eq_decide_div_mod_eq (x := formats)]
      have htwo : testBit 2 1 = true := by decide
      simpa [scgth64, htwo] using h64
    rw [hzero, zero_testBit] at hbit
    cases hbit
  · exact hself

theorem getScatterGatherListElements_eq {formats : Nat} (hformats : formats % 4 ≠ 0)
    (list : Option SgList) (msgl : Msgl) :
    getScatterGatherListElements list (elementSize * msgl.nFrames % wordModulus) formats =
      (nElementsFor list msgl).map fun n =>
        (n, chosenFormat (elementSize * msgl.nFrames % wordModulus) formats) := by
  unfold getScatterGatherListElements nElementsFor chosenFormat
  split
  · rfl
  · cases list with
    | none => rfl
    | some list => simp

theorem scgthAllocAndConstruct_refused (hpos : msgl.nFrames ≠ 0)
    (h : answers.arrayAllocated = false) :
    scgthAllocAndConstruct answers msgl comcons world = some (none, world) := by
  simp [scgthAllocAndConstruct, hpos, h]

theorem scgthAllocAndConstruct_none (hpos : msgl.nFrames ≠ 0)
    (hallocated : answers.arrayAllocated = true)
    (hformats : comcons.callerSupportedFormats % 4 ≠ 0)
    (h : nElementsFor (world.lists msgl.sGListIndex) msgl = none) :
    scgthAllocAndConstruct answers msgl comcons world =
      some (none, (withArray world).setArray world.fresh false) := by
  have hget := getScatterGatherListElements_eq hformats (world.lists msgl.sGListIndex) msgl
  rw [h] at hget
  simp [scgthAllocAndConstruct, hpos, hallocated, World.setArray, hget, withArray]

theorem scgthAllocAndConstruct_some (hpos : msgl.nFrames ≠ 0)
    (hallocated : answers.arrayAllocated = true)
    (hformats : comcons.callerSupportedFormats % 4 ≠ 0) {n : Nat}
    (h : nElementsFor (world.lists msgl.sGListIndex) msgl = some n) :
    scgthAllocAndConstruct answers msgl comcons world =
      some (some (constructed world msgl comcons n), withArray world) := by
  have hget := getScatterGatherListElements_eq hformats (world.lists msgl.sGListIndex) msgl
  rw [h] at hget
  have hformat := chosenFormat_and_ne_zero hformats (elementSize * msgl.nFrames % wordModulus)
  simp [scgthAllocAndConstruct, hpos, hallocated, World.setArray, hget, hformat, withArray,
    constructed]

theorem constructed_isInitialized_iff (n : Nat) :
    scgthIsInitialized (constructed world msgl comcons n) = true ↔ n % 2 ^ 16 ≠ 0 := by
  have hformat : ∀ format, driverMapped format ≠ 0 := by
    intro format
    have hle : 128 ≤ driverMapped format := right_le_or
    omega
  simp [scgthIsInitialized, constructed, hformat]

end

section

variable {first : Nat} {world : World} {handle : Nat} {dmah : Handle}

theorem check_keep (gcb : Bool) (h : world.kept = none) :
    checkGcbAndCallbackValid gcb keep none world = some world := by
  cases gcb with
  | true => rfl
  | false =>
    obtain ⟨_, _, _, _, _, _, kept⟩ := world
    obtain rfl : kept = none := h
    rfl

theorem check_ignore {α : Type} (gcb : Bool) (answer : α) (world : World) :
    checkGcbAndCallbackValid gcb ignore answer world = some world := by
  cases gcb <;> rfl

theorem invoke_ignore {α : Type} (answer : α) (world : World) :
    invoke ignore answer world = some world :=
  rfl

theorem elementsOf_eq (hkept : world.kept = some handle)
    (hdmah : world.handles handle = some dmah) : elementsOf world = dmah.udiScgthObj.elements := by
  simp [elementsOf, hkept, hdmah]

theorem held_of_sound (hfirst : first ≤ world.fresh) (hkept : world.kept = some handle)
    (hdmah : world.handles handle = some dmah) (hsound : Sound first world.fresh dmah)
    (harray : ∀ array ≥ first, world.arrays array = true ↔ dmah.udiScgthObj.elements = some array) :
    Held first world where
  first_le := hfirst
  sound := by
    intro handle' hhandle'
    cases hkept.symm.trans hhandle'
    exact ⟨dmah, hdmah, hsound⟩
  array := by
    rw [elementsOf_eq hkept hdmah]
    exact harray

theorem held_of_kept_none (hfirst : first ≤ world.fresh) (hkept : world.kept = none)
    (harray : ∀ array ≥ first, world.arrays array = false) : Held first world where
  first_le := hfirst
  sound := by simp [hkept]
  array := by
    intro array hge
    simp [harray array hge, elementsOf, hkept]

def prepared (world : World) (compiledConstraints : Compiler) (flags : Nat) : World :=
  { world.setHandle world.fresh (some ⟨compiledConstraints, none, blankScgth, flags⟩) with
    fresh := world.fresh + 1, kept := some world.fresh }

theorem Held.arrays_of_kept_none (h : Held first world) (hkept : world.kept = none)
    {array : Nat} (harray : array ≥ first) : world.arrays array = false := by
  have hlive := h.array array harray
  simpa [elementsOf, hkept] using hlive

theorem prepared_handles (world : World) (comcons : Compiler) (flags : Nat) :
    (prepared world comcons flags).handles world.fresh = some ⟨comcons, none, blankScgth, flags⟩ :=
  update_self ..

theorem Held.prepared (h : Held first world) (hkept : world.kept = none) {comcons : Compiler}
    (hformats : comcons.callerSupportedFormats % 4 ≠ 0) (flags : Nat) :
    Held first (prepared world comcons flags) := by
  refine held_of_sound (le_succ_of_le h.first_le) rfl (prepared_handles world comcons flags)
    ⟨hformats, .inl ⟨rfl, rfl⟩⟩ ?_
  intro array harray
  have hfree : world.arrays array = false := h.arrays_of_kept_none hkept harray
  simp [UdiDmaHandle.prepared, World.setHandle, hfree, blankScgth]

theorem step_prepare_eq (hkept : world.kept = none) {cons : Constraints} {comcons : Compiler}
    (hcompile : compile cons newCompiler = some (.success, comcons)) (gcb : Bool) (flags : Nat) :
    step world (.prepare true gcb (some cons) flags) = some ((), prepared world comcons flags) := by
  simp only [step, udiDmaPrepare, check_keep gcb hkept, some_bind]
  simp [prepareAllocAndCompileDmahSync, hcompile, invoke, keep, prepared]

theorem Held.step_prepare (h : Held first world) {allocated gcb : Bool}
    {constraints : Option Constraints} {flags : Nat}
    (hlegal : Legal world (.prepare allocated gcb constraints flags)) :
    ∃ next, step world (.prepare allocated gcb constraints flags) = some ((), next) ∧
      Held first next := by
  obtain ⟨hkept, hshifts⟩ := hlegal
  have hsame : ({ world with kept := none } : World) = world := by
    obtain ⟨_, _, _, _, _, _, kept⟩ := world
    obtain rfl : kept = none := hkept
    rfl
  have hcheck := check_keep gcb hkept
  cases constraints with
  | none =>
    refine ⟨world, ?_, h⟩
    simp only [step, udiDmaPrepare, hcheck, some_bind]
    simp [invoke, keep, hsame]
  | some cons =>
    obtain ⟨⟨error, comcons⟩, hcompile⟩ := Option.isSome_iff_exists.mp (hshifts cons rfl)
    cases allocated with
    | false =>
      refine ⟨world, ?_, h⟩
      simp only [step, udiDmaPrepare, hcheck, some_bind]
      simp [prepareAllocAndCompileDmahSync, invoke, keep, hsame]
    | true =>
      rcases eq_or_ne error .success with rfl | herror
      · exact ⟨UdiDmaHandle.prepared world comcons flags, step_prepare_eq hkept hcompile gcb flags,
          h.prepared hkept (formats_of_compile hcompile) flags⟩
      · refine ⟨world, ?_, h⟩
        simp only [step, udiDmaPrepare, hcheck, some_bind]
        simp [prepareAllocAndCompileDmahSync, hcompile, herror, invoke, keep, hsame]

/-- After `udi_dma_buf_unmap` of a handle that is mapped. -/
def unmapped (world : World) (handle : Nat) (dmah : Handle) (array : Nat) : World :=
  (world.setArray array false).setHandle handle
    (some { dmah with udiScgthObj := blankScgth, msgl := none })

theorem elements_of_isInitialized {us : Scgth} (h : scgthIsInitialized us = true) :
    ∃ array, us.elements = some array := by
  unfold scgthIsInitialized at h
  split at h
  · cases h
  · exact Option.isSome_iff_exists.mp h

variable (h : Held first world)

include h

theorem Held.array_of_mapped (hkept : world.kept = some handle)
    (hdmah : world.handles handle = some dmah) (hsound : Sound first world.fresh dmah)
    (hmapped : dmah.msgl ≠ none) :
    ∃ array, dmah.udiScgthObj.elements = some array ∧ first ≤ array ∧ array < world.fresh ∧
      ∀ other ≥ first, world.arrays other = true ↔ other = array := by
  rcases hsound.paired with ⟨hnone, -⟩ | ⟨-, hinit, hrange⟩
  · exact absurd hnone hmapped
  obtain ⟨array, harray⟩ := elements_of_isInitialized hinit
  refine ⟨array, harray, (hrange array harray).1, (hrange array harray).2, ?_⟩
  intro other hother
  rw [h.array other hother, elementsOf_eq hkept hdmah, harray, Option.some.injEq, eq_comm]

theorem Held.bufUnmap (hkept : world.kept = some handle) :
    ∃ dmah msgl next, udiDmaBufUnmap (some handle) world = some (msgl, next) ∧
      next.handles handle = some dmah ∧ dmah.msgl = none ∧ next.kept = some handle ∧
        next.fresh = world.fresh ∧ Held first next := by
  obtain ⟨dmah, hdmah, hsound⟩ := h.sound handle hkept
  cases hmsgl : dmah.msgl with
  | none =>
    refine ⟨dmah, none, world, ?_, hdmah, hmsgl, hkept, rfl, h⟩
    simp [udiDmaBufUnmap, hdmah, hmsgl]
  | some msgl =>
    obtain ⟨array, helements, hfirst, -, hlive⟩ :=
      h.array_of_mapped hkept hdmah hsound (by simp [hmsgl])
    have harray : world.arrays array = true := (hlive array hfirst).mpr rfl
    refine ⟨_, some msgl, unmapped world handle dmah array, ?_, update_self .., rfl, hkept, rfl, ?_⟩
    · simp [udiDmaBufUnmap, hdmah, hmsgl, deleteArray, helements, harray, unmapped]
    · refine held_of_sound h.first_le hkept (update_self ..)
        ⟨hsound.formats, .inl ⟨rfl, rfl⟩⟩ ?_
      intro other hother
      rcases eq_or_ne other array with rfl | hne
      · simp [unmapped, World.setArray, World.setHandle, blankScgth]
      · have hdead : world.arrays other = false := by
          rw [← Bool.not_eq_true, hlive other hother]
          exact hne
        simp [unmapped, World.setArray, World.setHandle, blankScgth, hne, hdead]

theorem Held.step_bufUnmap : ∃ next, step world .bufUnmap = some ((), next) ∧ Held first next := by
  cases hkept : world.kept with
  | none => exact ⟨world, by simp [step, hkept, udiDmaBufUnmap], h⟩
  | some handle =>
    obtain ⟨_, _, next, heq, -, -, -, -, hnext⟩ := h.bufUnmap hkept
    exact ⟨next, by simp [step, hkept, heq], hnext⟩

theorem Held.step_free : ∃ next, step world .free = some ((), next) ∧ Held first next := by
  cases hkept : world.kept with
  | none =>
    refine ⟨{ world with kept := none }, by simp [step, hkept, udiDmaFree], ?_⟩
    exact held_of_kept_none h.first_le rfl fun array harray => h.arrays_of_kept_none hkept harray
  | some handle =>
    obtain ⟨dmah, _, next, heq, hdmah, hmsgl, hkept', hfresh, hnext⟩ := h.bufUnmap hkept
    refine ⟨{ next.setHandle handle none with kept := none }, ?_, ?_⟩
    · simp [step, hkept, udiDmaFree, heq]
    refine held_of_kept_none hnext.first_le rfl ?_
    intro array harray
    obtain ⟨dmah', hdmah', hsound⟩ := hnext.sound handle hkept'
    cases hdmah.symm.trans hdmah'
    rcases hsound.paired with ⟨-, hblank⟩ | ⟨hsome, -⟩
    · have hlive := hnext.array array harray
      rw [elementsOf_eq hkept' hdmah, hblank] at hlive
      simpa [blankScgth, World.setHandle] using hlive
    · simp [hmsgl] at hsome

theorem Held.step_others (msgls : Nat → Option Msgl) (lists : Nat → Option SgList) :
    ∃ next, step world (.others msgls lists) = some ((), next) ∧ Held first next :=
  ⟨{ world with msgls, lists }, rfl, ⟨h.first_le, h.sound, h.array⟩⟩

theorem Held.step_sync {gcb : Bool} {flags : Nat} (hlegal : Legal world (.sync gcb flags)) :
    ∃ next, step world (.sync gcb flags) = some ((), next) ∧ Held first next := by
  refine ⟨world, ?_, h⟩
  simp only [step, udiDmaSync, check_ignore, some_bind]
  cases hkept : world.kept with
  | none => rfl
  | some handle =>
    obtain ⟨dmah, hdmah, hsound⟩ := h.sound handle hkept
    dsimp only
    split
    · rfl
    rcases hsound.paired with ⟨hnone, hblank⟩ | ⟨hsome, hinit, -⟩
    · have huninit : scgthIsInitialized blankScgth = false := rfl
      simp [hdmah, hnone, hblank, huninit, invoke, ignore]
    · obtain ⟨buf, hbuf⟩ := Option.isSome_iff_exists.mp hsome
      obtain ⟨msgl, hmsgl⟩ :=
        Option.isSome_iff_exists.mp (hlegal handle hkept dmah hdmah buf hbuf)
      simp [hdmah, hbuf, hinit, hmsgl, invoke, ignore]

omit h

end

section

variable {first : Nat} {world next : World} {handle buf flags : Nat} {dmah : Handle}
  {answers : MapAnswers} {gcb : Bool} {msgl : Msgl}

theorem fills_iff (hkept : world.kept = some handle) (hdmah : world.handles handle = some dmah)
    (hmsgl : world.msgls buf = some msgl) : Fills world (.bufMap answers gcb buf flags) ↔
      (dmah.udiDmahFlags &&& flags ≠ 0 → dmah.msgl = none →
        constraintsOf answers (world.lists msgl.sGListIndex) = some dmah.compiledConstraints →
          msgl.nFrames ≠ 0 ∧ (answers.arrayAllocated = true →
            ∀ n ∈ nElementsFor (world.lists msgl.sGListIndex) msgl, n % 2 ^ 16 ≠ 0)) := by
  simp [Fills, hkept, hdmah, hmsgl]

theorem Held.arrays_fresh (h : Held first world) (hkept : world.kept = some handle)
    (hdmah : world.handles handle = some dmah) (hblank : dmah.udiScgthObj = blankScgth)
    {array : Nat} (harray : array ≥ first) : world.arrays array = false := by
  have hlive := h.array array harray
  rw [elementsOf_eq hkept hdmah, hblank] at hlive
  simpa [blankScgth] using hlive

theorem Held.withArray_freed (h : Held first world) (hkept : world.kept = some handle)
    (hdmah : world.handles handle = some dmah) (hsound : Sound first world.fresh dmah)
    (hmsgl : dmah.msgl = none) (hblank : dmah.udiScgthObj = blankScgth) :
    Held first ((withArray world).setArray world.fresh false) := by
  refine held_of_sound (le_succ_of_le h.first_le) hkept hdmah
    ⟨hsound.formats, .inl ⟨hmsgl, hblank⟩⟩ ?_
  intro array harray
  have hdead := h.arrays_fresh hkept hdmah hblank harray
  rcases eq_or_ne array world.fresh with rfl | hne
  · simp [World.setArray, hblank, blankScgth]
  · simp [withArray, World.setArray, hblank, blankScgth, hne, hdead]

/-- After a `udi_dma_buf_map` that goes through. -/
def mapped (world : World) (handle : Nat) (dmah : Handle) (buf : Nat) (msgl : Msgl) (n : Nat) :
    World :=
  (withArray world).setHandle handle
    (some { dmah with
      udiScgthObj := constructed world msgl dmah.compiledConstraints n
      msgl := some buf })

theorem Held.mapped (h : Held first world) (hkept : world.kept = some handle)
    (hdmah : world.handles handle = some dmah) (hsound : Sound first world.fresh dmah)
    (hblank : dmah.udiScgthObj = blankScgth) {n : Nat} (hn : n % 2 ^ 16 ≠ 0) :
    Held first (mapped world handle dmah buf msgl n) := by
  refine held_of_sound (le_succ_of_le h.first_le) hkept (update_self ..)
    ⟨hsound.formats, .inr ⟨rfl, (constructed_isInitialized_iff n).mpr hn, ?_⟩⟩ ?_
  · rintro array ⟨⟩
    exact ⟨h.first_le, lt_succ_self _⟩
  · intro array harray
    have hdead := h.arrays_fresh hkept hdmah hblank harray
    rcases eq_or_ne array world.fresh with rfl | hne
    · simp [UdiDmaHandle.mapped, withArray, World.setArray, World.setHandle, constructed]
    · simp [UdiDmaHandle.mapped, withArray, World.setArray, World.setHandle, constructed, hne,
        hne.symm, hdead]

theorem not_paired_mapped (hkept : world.kept = some handle) {n : Nat} (hn : n % 2 ^ 16 = 0) :
    ¬ Paired first (mapped world handle dmah buf msgl n) := by
  intro hpaired
  obtain ⟨dmah', hdmah', hmsgl⟩ := hpaired.msgl handle hkept
  have hnext : (mapped world handle dmah buf msgl n).handles handle =
      some { dmah with
        udiScgthObj := constructed world msgl dmah.compiledConstraints n
        msgl := some buf } :=
    update_self ..
  rw [hnext] at hdmah'
  cases hdmah'
  exact (constructed_isInitialized_iff n).mp hmsgl.symm hn

theorem step_bufMap_eq (hkept : world.kept = some handle)
    (hdmah : world.handles handle = some dmah) :
    step world (.bufMap answers gcb buf flags) =
      (if dmah.udiDmahFlags &&& flags = 0 then some world
      else if dmah.msgl.isSome ∨ scgthIsInitialized dmah.udiScgthObj then
        if dmah.msgl.isSome ∧ scgthIsInitialized dmah.udiScgthObj then some world else none
      else mapBuffer answers ignore handle dmah (some buf) world).map fun world => ((), world) := by
  simp only [step, udiDmaBufMap, check_ignore, checkHandleAndBuf, hkept, hdmah, invoke_ignore,
    some_bind, reduceCtorEq, or_self, if_false, Option.map_eq_bind]
  rfl

/-- What a step does: it may stop the kernel, and else it keeps the handle paired, exactly when
the condition is met or not. -/
def Outcome (first : Nat) (world : World) (call : Call) (outcome : Option World) : Prop :=
  (outcome = none ∧ ¬ Fills world call) ∨ ∃ next, outcome = some next ∧
    (Paired first next ↔ Fills world call) ∧ (Fills world call → Held first next)

theorem Held.outcome (hnext : Held first next) {call : Call} (hfills : Fills world call) :
    Outcome first world call (some next) :=
  .inr ⟨next, rfl, ⟨fun _ => hfills, fun _ => hnext.paired⟩, fun _ => hnext⟩

theorem Held.mapBuffer (h : Held first world) (hkept : world.kept = some handle)
    (hdmah : world.handles handle = some dmah) (hsound : Sound first world.fresh dmah)
    (hmsgl : world.msgls buf = some msgl) (hfree : dmah.msgl = none)
    (hblank : dmah.udiScgthObj = blankScgth) (hflags : dmah.udiDmahFlags &&& flags ≠ 0) :
    Outcome first world (.bufMap answers gcb buf flags)
      (UdiDma.mapBuffer answers ignore handle dmah (some buf) world) := by
  have hfills : Fills world (.bufMap answers gcb buf flags) ↔
      (constraintsOf answers (world.lists msgl.sGListIndex) = some dmah.compiledConstraints →
        msgl.nFrames ≠ 0 ∧ (answers.arrayAllocated = true →
          ∀ n ∈ nElementsFor (world.lists msgl.sGListIndex) msgl, n % 2 ^ 16 ≠ 0)) := by
    rw [fills_iff hkept hdmah hmsgl]
    exact ⟨fun hall => hall hflags hfree, fun hall _ _ => hall⟩
  simp only [UdiDma.mapBuffer, hmsgl, some_bind]
  rcases hcons : constraintsOf answers (world.lists msgl.sGListIndex) with _ | comcons
  · exact h.outcome (hfills.mpr (by simp [hcons]))
  dsimp only
  rcases ne_or_eq comcons dmah.compiledConstraints with hne | rfl
  · rw [if_pos hne]
    exact h.outcome (hfills.mpr (by simp [hcons, hne]))
  rw [if_neg (not_not.mpr rfl)]
  rcases eq_or_ne msgl.nFrames 0 with hzero | hpos
  · left
    rw [hfills]
    simp [scgthAllocAndConstruct, hzero, hcons]
  rcases Bool.eq_false_or_eq_true answers.arrayAllocated with hallocated | hrefused
  · rcases hn : nElementsFor (world.lists msgl.sGListIndex) msgl with _ | n
    · rw [scgthAllocAndConstruct_none hpos hallocated hsound.formats hn]
      exact (h.withArray_freed hkept hdmah hsound hfree hblank).outcome
        (hfills.mpr (by simp [hn, hpos]))
    · rw [scgthAllocAndConstruct_some hpos hallocated hsound.formats hn]
      have hiff : Fills world (.bufMap answers gcb buf flags) ↔ n % 2 ^ 16 ≠ 0 := by
        rw [hfills]
        simp [hallocated, hcons, hn, hpos]
      refine .inr ⟨UdiDmaHandle.mapped world handle dmah buf msgl n, rfl, ?_, ?_⟩
      · constructor
        · intro hpaired
          exact hiff.mpr fun hzero => not_paired_mapped hkept hzero hpaired
        · intro hgood
          exact (h.mapped hkept hdmah hsound hblank (hiff.mp hgood)).paired
      · intro hgood
        exact h.mapped hkept hdmah hsound hblank (hiff.mp hgood)
  · rw [scgthAllocAndConstruct_refused hpos hrefused]
    exact h.outcome (hfills.mpr (by simp [hrefused, hpos]))

theorem Held.step_bufMap (h : Held first world)
    (hlegal : Legal world (.bufMap answers gcb buf flags)) :
    ∃ outcome, step world (.bufMap answers gcb buf flags) =
        outcome.map (fun world => ((), world)) ∧
      Outcome first world (.bufMap answers gcb buf flags) outcome := by
  obtain ⟨handle, hkept⟩ := Option.isSome_iff_exists.mp hlegal.1
  obtain ⟨msgl, hmsgl⟩ := Option.isSome_iff_exists.mp hlegal.2
  obtain ⟨dmah, hdmah, hsound⟩ := h.sound handle hkept
  refine ⟨_, step_bufMap_eq hkept hdmah, ?_⟩
  rcases eq_or_ne (dmah.udiDmahFlags &&& flags) 0 with hzero | hflags
  · rw [if_pos hzero]
    exact h.outcome ((fills_iff hkept hdmah hmsgl).mpr (by simp [hzero]))
  rw [if_neg hflags]
  rcases hsound.paired with ⟨hfree, hblank⟩ | ⟨hsome, hinit, -⟩
  · have huninit : scgthIsInitialized dmah.udiScgthObj = false := by
      rw [hblank]
      rfl
    rw [if_neg (by simp [hfree, huninit])]
    exact h.mapBuffer hkept hdmah hsound hmsgl hfree hblank hflags
  · have hbusy : dmah.msgl ≠ none := by
      rw [← Option.isSome_iff_ne_none]
      exact hsome
    rw [if_pos (.inl hsome), if_pos ⟨hsome, hinit⟩]
    exact h.outcome ((fills_iff hkept hdmah hmsgl).mpr (by simp [hbusy]))

theorem Held.step (h : Held first world) (call : Call) (hlegal : Legal world call) :
    ∃ outcome, UdiDmaHandle.step world call = outcome.map (fun world => ((), world)) ∧
      Outcome first world call outcome := by
  cases call with
  | prepare allocated gcb constraints flags =>
    obtain ⟨next, heq, hnext⟩ := h.step_prepare hlegal
    exact ⟨some next, heq, hnext.outcome trivial⟩
  | bufMap answers gcb buf flags => exact h.step_bufMap hlegal
  | bufUnmap =>
    obtain ⟨next, heq, hnext⟩ := h.step_bufUnmap
    exact ⟨some next, heq, hnext.outcome trivial⟩
  | sync gcb flags =>
    obtain ⟨next, heq, hnext⟩ := h.step_sync hlegal
    exact ⟨some next, heq, hnext.outcome trivial⟩
  | free =>
    obtain ⟨next, heq, hnext⟩ := h.step_free
    exact ⟨some next, heq, hnext.outcome trivial⟩
  | others msgls lists =>
    obtain ⟨next, heq, hnext⟩ := h.step_others msgls lists
    exact ⟨some next, heq, hnext.outcome trivial⟩

end

/-- Between any two calls on the handle it has a buffer exactly when its `udi_scgth_t` is
initialized, every call returns and every array is freed once, exactly when no buffer is mapped
that has no frames or whose number of elements is zero in 16 bits. -/
theorem throughout_paired_iff {world : World} {calls : List Call} (hstart : Starts world)
    (hlegal : Guarded step Legal world calls) :
    Throughout step (Paired world.fresh) world calls ↔ Guarded step Fills world calls := by
  refine throughout_iff_guarded_of_faults (fun _ hheld => hheld.paired) ?_ ?_ hstart.held hlegal
  · intro state call hheld hcall hfills
    obtain ⟨outcome, heq, ⟨-, hnot⟩ | ⟨next, rfl, -, hnext⟩⟩ := hheld.step call hcall
    · exact absurd hfills hnot
    · exact ⟨(), next, heq, hnext hfills⟩
  · intro state call result next hheld hcall hbad hstep hpaired
    obtain ⟨outcome, heq, ⟨rfl, -⟩ | ⟨next', rfl, hiff, -⟩⟩ := hheld.step call hcall
    · cases heq.symm.trans hstep
    · cases heq.symm.trans hstep
      exact hbad (hiff.mp hpaired)

def plainEngine : Constraints := [⟨.scgthFormat, 1⟩]

def plainConstraints : Compiler where
  callerSupportedFormats := 1
  partialAllocationsDisallowed := false
  sequentialAccessHint := false
  addressableBits := 32
  fixedBits := 0
  pfnSkipStride := 0
  maxElementsPerSegment := 0
  startPfn := 0
  beyondEndPfn := 0xFFFFFFFF
  minElementGranularityNFrames := 1
  maxNContiguousFrames := 1
  slopInBits := 0
  slopOutBits := 0
  slopOutExtra := 0
  fixedBitsValue := 0

theorem compile_plainEngine :
    compile plainEngine newCompiler = some (.success, plainConstraints) := by
  decide +kernel

def bufferOf (nFrames : Nat) : World where
  fresh := 2
  msgls := fun buf => if buf = 1 then some ⟨nFrames, nFrames, 0⟩ else none
  lists := fun index =>
    if index = 0 then some ⟨nFrames, fun _ => 0, nFrames, some plainConstraints⟩ else none
  handles := fun _ => none
  arrays := fun _ => false
  reports := []
  kept := none

def roomForArray : MapAnswers := ⟨true, none⟩

theorem starts_bufferOf (nFrames : Nat) : Starts (bufferOf nFrames) := ⟨rfl, fun _ _ => rfl⟩

theorem step_prepare_bufferOf (nFrames : Nat) :
    step (bufferOf nFrames) (.prepare true true (some plainEngine) 4) =
      some ((), prepared (bufferOf nFrames) plainConstraints 4) :=
  step_prepare_eq rfl compile_plainEngine true 4

theorem legal_prepare_bufferOf (nFrames : Nat) :
    Legal (bufferOf nFrames) (.prepare true true (some plainEngine) 4) := by
  refine ⟨rfl, ?_⟩
  rintro cons ⟨⟩
  rfl

theorem legal_bufMap_bufferOf (nFrames : Nat) :
    Legal (prepared (bufferOf nFrames) plainConstraints 4) (.bufMap roomForArray true 1 4) :=
  ⟨rfl, rfl⟩

theorem throughout_paired_onePage : Guarded step Fills (bufferOf 1)
        [.prepare true true (some plainEngine) 4, .bufMap roomForArray true 1 4, .free] ∧
      Throughout step (Paired 2) (bufferOf 1)
        [.prepare true true (some plainEngine) 4, .bufMap roomForArray true 1 4, .free] := by
  have hlegal : Guarded step Legal (bufferOf 1)
      [.prepare true true (some plainEngine) 4, .bufMap roomForArray true 1 4, .free] := by
    rw [guarded_cons (step_prepare_bufferOf 1)]
    refine ⟨legal_prepare_bufferOf 1, legal_bufMap_bufferOf 1, ?_⟩
    exact fun _ _ _ => ⟨trivial, fun _ _ _ => trivial⟩
  have hfills : Guarded step Fills (bufferOf 1)
      [.prepare true true (some plainEngine) 4, .bufMap roomForArray true 1 4, .free] := by
    rw [guarded_cons (step_prepare_bufferOf 1)]
    refine ⟨trivial, ?_, fun _ _ _ => ⟨trivial, fun _ _ _ => trivial⟩⟩
    have hmsgl : (prepared (bufferOf 1) plainConstraints 4).msgls 1 = some ⟨1, 1, 0⟩ := rfl
    rw [fills_iff rfl (prepared_handles ..) hmsgl]
    intro _ _ _
    refine ⟨one_ne_zero, ?_⟩
    rintro - n ⟨⟩
    decide
  exact ⟨hfills, (throughout_paired_iff (starts_bufferOf 1) hlegal).mpr hfills⟩

/-- The number of elements of a large buffer is zero in the 16 bits of `scgth_num_elements`. -/
theorem map_large_not_paired :
    ¬ ∀ (world : World) (calls : List Call), Starts world → Guarded step Legal world calls →
      Throughout step (Paired world.fresh) world calls := by
  intro hclaim
  have hlegal : Guarded step Legal (bufferOf 65536)
      [.prepare true true (some plainEngine) 4, .bufMap roomForArray true 1 4] := by
    rw [guarded_cons (step_prepare_bufferOf 65536)]
    exact ⟨legal_prepare_bufferOf 65536, legal_bufMap_bufferOf 65536, fun _ _ _ => trivial⟩
  obtain ⟨-, _, next, hstep, -, _, last, hmap, hlast⟩ :=
    hclaim (bufferOf 65536) _ (starts_bufferOf 65536) hlegal
  rw [step_prepare_bufferOf] at hstep
  cases hstep
  have hmapped : step (prepared (bufferOf 65536) plainConstraints 4)
      (.bufMap roomForArray true 1 4) =
      some ((), mapped (prepared (bufferOf 65536) plainConstraints 4) 2
        ⟨plainConstraints, none, blankScgth, 4⟩ 1 ⟨65536, 65536, 0⟩ 65536) := by
    rfl
  rw [hmapped] at hmap
  cases hmap
  exact not_paired_mapped rfl rfl hlast

end Zambesii.UdiDmaHandle
