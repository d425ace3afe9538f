import Zambesii.StackArguments

/-!
The inline objects of a control block: the passes that add up their sizes, and those that copy them
into a message (`marshalInlineObjects`) or give them their space (`initializeCbInlinePointers`).
-/

namespace Zambesii.InlineObjects

open ChannelLayout KernelTypes List Option
open ChannelSend (Objects Part Write asUnsigned errorInvalidArg errorInvalidFormat
  getTotalMarshalSpaceInlineRequirements inlineLoop objectSize sizeofCb sizeofMovableMemory
  totalLoop wrapStatus zudiLayoutGetSize)

/-- The source control block: the pointer at each offset of its visible area, and `objectNBytes` of
the header in front of each object. The message is in memory of its own. -/
structure Source where
  pointers : Nat → UInt32
  objectNBytes : UInt32 → UInt32

def Source.objects (source : Source) : Objects := fun ptrOffset =>
  if source.pointers ptrOffset = 0 then none
  else some (source.objectNBytes (source.pointers ptrOffset)).toNat

structure Copy where
  dest : Nat
  object : Nat
  nBytes : Nat
deriving DecidableEq

/-- What is done for a pointer: the copy of its object, unless it is `NULL`, and what is stored at
its offset of the destination control block. -/
structure Move where
  slot : Nat
  copy : Option Copy
  pointer : Nat
deriving DecidableEq

structure Outcome where
  status : Int
  dest : Nat
  moves : List Move
deriving DecidableEq

def headerSize (curr : UInt8) : Nat :=
  if curr = dlMovableUntyped ∨ curr = dlMovableTyped then sizeofMovableMemory else 0

/-- An object that is not `NULL` is copied with its header. -/
def moveOf (source : Source) (dest slot : Nat) (curr : UInt8) (size : Int) : Move :=
  let object := source.pointers slot
  if object = 0 then ⟨slot, none, 0⟩
  else
    ⟨slot, some ⟨dest, (object.toNat + (wordModulus - headerSize curr)) % wordModulus,
      asUnsigned size⟩, (dest + headerSize curr) % wordModulus⟩

def destAfter (source : Source) (dest slot : Nat) (size : Int) : Nat :=
  if source.pointers slot = 0 then dest else (dest + asUnsigned size) % wordModulus

def marshalLoop (drvTypedLayout : Option (List UInt8)) (source : Source) :
    Nat → List UInt8 → Nat → Nat → Option Outcome
  | _, [], _, _ => none
  | 0, _, _, _ => none
  | fuel + 1, curr :: rest, ptrOffset, dest =>
    if curr = dlEnd then some ⟨0, dest, []⟩
    else
      match zudiLayoutGetElementSize curr rest with
      | none => none
      | some (currElemSize, skipCount) =>
        if skipCount = 0 then some ⟨errorInvalidFormat, dest, []⟩
        else
          let ptrOffset := align ptrOffset currElemSize
          let next := marshalLoop drvTypedLayout source fuel ((curr :: rest).drop skipCount)
            ((ptrOffset + currElemSize) % wordModulus)
          match objectSize drvTypedLayout (source.objects ptrOffset) curr rest with
          | none => none
          | some none => next dest
          | some (some currObjectSize) =>
            (next (destAfter source dest ptrOffset currObjectSize)).map fun outcome =>
              { outcome with
                moves := moveOf source dest ptrOffset curr currObjectSize :: outcome.moves }

def marshalInlineObjects (dest : Nat) (source : Source) (layout : List UInt8)
    (drvTypedLayout : Option (List UInt8)) : Option Outcome :=
  marshalLoop drvTypedLayout source layout.length layout 0 dest

/-- The `switch` of the walkers over a control block's own inline elements. -/
def cbObjectSize (drvTypedLayout : Option (List UInt8)) (curr : UInt8) (rest : List UInt8) :
    Option (Option Int) :=
  if curr = dlInlineTyped then (zudiLayoutGetSize rest false).map some
  else if curr = dlInlineDriverTyped then
    match drvTypedLayout with
    | none => some (some errorInvalidArg)
    | some layout => (zudiLayoutGetSize layout false).map some
  else some none

def cbTotalLoop (drvTypedLayout : Option (List UInt8)) : Nat → List UInt8 → Int → Option Int
  | _, [], _ => none
  | 0, _, _ => none
  | fuel + 1, curr :: rest, ret =>
    if curr = dlEnd then some ret
    else
      match zudiLayoutGetElementSize curr rest with
      | none => none
      | some (_, skipCount) =>
        if skipCount = 0 then some errorInvalidFormat
        else
          let next := cbTotalLoop drvTypedLayout fuel ((curr :: rest).drop skipCount)
          match cbObjectSize drvTypedLayout curr rest with
          | none => none
          | some none => next ret
          | some (some currLayoutSize) =>
            if currLayoutSize < 0 then some currLayoutSize
            else next (wrapStatus (ret + currLayoutSize))

def getTotalCbInlineRequirements (layout : List UInt8) (drvTypedLayout : Option (List UInt8)) :
    Option Int :=
  cbTotalLoop drvTypedLayout layout.length layout 0

abbrev Pointers := List (Nat × Nat)

def initializeLoop (drvTypedLayout : Option (List UInt8)) (inlineSpace : Nat) :
    Nat → List UInt8 → Nat → Int → Option (Int × Pointers)
  | _, [], _, _ => none
  | 0, _, _, _ => none
  | fuel + 1, curr :: rest, ptrOffset, inlineSpaceOffset =>
    if curr = dlEnd then some (0, [])
    else
      match zudiLayoutGetElementSize curr rest with
      | none => none
      | some (currElemSize, skipCount) =>
        if skipCount = 0 then some (errorInvalidFormat, [])
        else
          let ptrOffset := align ptrOffset currElemSize
          let next := initializeLoop drvTypedLayout inlineSpace fuel
            ((curr :: rest).drop skipCount) ((ptrOffset + currElemSize) % wordModulus)
          match cbObjectSize drvTypedLayout curr rest with
          | none => none
          | some none => next inlineSpaceOffset
          | some (some currLayoutSize) =>
            if currLayoutSize < 0 then some (currLayoutSize, [])
            else
              (next (wrapStatus (inlineSpaceOffset + currLayoutSize))).map
                fun (status, pointers) =>
                  (status, (ptrOffset,
                    (inlineSpace + asUnsigned inlineSpaceOffset) % wordModulus) :: pointers)

def initializeCbInlinePointers (inlineSpace : Nat) (layout : List UInt8)
    (drvTypedLayout : Option (List UInt8)) : Option (Int × Pointers) :=
  initializeLoop drvTypedLayout inlineSpace layout.length layout 0 0

structure Visit where
  slot : Nat
  code : UInt8
  size : Int
deriving DecidableEq

def visits (sizeOf : Nat → UInt8 → List UInt8 → Option (Option Int)) :
    Nat → List UInt8 → Nat → Option (List Visit)
  | _, [], _ => none
  | 0, _, _ => none
  | fuel + 1, curr :: rest, ptrOffset =>
    if curr = dlEnd then some []
    else
      match zudiLayoutGetElementSize curr rest with
      | none => none
      | some (elemSize, skipCount) =>
        if skipCount = 0 then none
        else
          let slot := align ptrOffset elemSize
          let next := visits sizeOf fuel ((curr :: rest).drop skipCount)
            ((slot + elemSize) % wordModulus)
          match sizeOf slot curr rest with
          | none => none
          | some none => next
          | some (some size) => next.map (⟨slot, curr, size⟩ :: ·)

def visitsOf (layout : List UInt8) (drvTypedLayout : Option (List UInt8)) (source : Source) :
    List Visit :=
  (visits (fun slot => objectSize drvTypedLayout (source.objects slot)) layout.length layout
    0).getD []

def cbVisitsOf (layout : List UInt8) (drvTypedLayout : Option (List UInt8)) : List Visit :=
  (visits (fun _ => cbObjectSize drvTypedLayout) layout.length layout 0).getD []

/-- The bytes of the object that a pointer of the source leads to, without its header. -/
def Visit.objectBytes (visit : Visit) (source : Source) : Nat :=
  if visit.code = dlMovableUntyped then
    (source.objectNBytes (source.pointers visit.slot)).toNat
  else visit.size.toNat - headerSize visit.code

def Visit.copied (visit : Visit) (source : Source) : Nat :=
  if source.pointers visit.slot = 0 then 0 else visit.size.toNat

def lastAt {α : Type} (slotOf : α → Nat) (slot : Nat) : List α → Option α
  | [] => none
  | first :: rest =>
    match lastAt slotOf slot rest with
    | some last => some last
    | none => if slotOf first = slot then some first else none

/-- A pointer leads to `nBytes` bytes of the copy, and they are those from `object` on. -/
def PointsToCopy (pointer object nBytes : Nat) (copy : Copy) : Prop :=
  ∀ i < nBytes, ∃ b < copy.nBytes, (copy.dest + b) % wordModulus = (pointer + i) % wordModulus ∧
    (copy.object + b) % wordModulus = (object + i) % wordModulus

/-- Every byte that is copied is copied to one of the `n` bytes from `dest` on. -/
def Inside (dest n : Nat) (moves : List Move) : Prop :=
  ∀ move ∈ moves, ∀ copy ∈ move.copy, ∀ i < copy.nBytes, ∃ r < n,
    (copy.dest + i) % wordModulus = (dest + r) % wordModulus

/-- No byte is copied to where a byte of the other is. -/
def Copy.Apart (copy other : Copy) : Prop :=
  ∀ i < copy.nBytes, ∀ j < other.nBytes,
    (copy.dest + i) % wordModulus ≠ (other.dest + j) % wordModulus

/-- What is expected of `marshalInlineObjects` with space for `n` bytes at `dest`. -/
structure Right (source : Source) (vs : List Visit) (n dest : Nat) (outcome : Outcome) : Prop where
  succeeds : outcome.status = 0
  advances : outcome.dest % wordModulus = (dest + n) % wordModulus
  slots : outcome.moves.map (·.slot) = vs.map (·.slot)
  inside : Inside dest n outcome.moves
  apart : (outcome.moves.filterMap (·.copy)).Pairwise Copy.Apart
  null : ∀ visit ∈ vs, source.pointers visit.slot = 0 →
    ∃ move, lastAt (·.slot) visit.slot outcome.moves = some move ∧ move.pointer = 0
  copied : ∀ visit ∈ vs, source.pointers visit.slot ≠ 0 →
    ∃ move copy, lastAt (·.slot) visit.slot outcome.moves = some move ∧ move.copy = some copy ∧
      PointsToCopy move.pointer (source.pointers visit.slot).toNat (visit.objectBytes source) copy

def placed (inlineSpace : Nat) : Nat → List Visit → Pointers
  | _, [] => []
  | offset, visit :: rest =>
    (visit.slot, (inlineSpace + offset) % wordModulus) ::
      placed inlineSpace (offset + visit.size.toNat) rest

/-- What is expected of `initializeCbInlinePointers` with space for `n` bytes. -/
structure CbRight (vs : List Visit) (n inlineSpace : Nat) (outcome : Int × Pointers) : Prop where
  succeeds : outcome.1 = 0
  pointers : outcome.2 = placed inlineSpace 0 vs
  space : (vs.map (·.size.toNat)).sum = n

/-- The passes do what is expected of them wherever the passes before them find no error. -/
structure PassesRight (layout : List UInt8) (drvTypedLayout : Option (List UInt8))
    (source : Source) (dest inlineSpace : Nat) : Prop where
  marshal : ∀ n, getTotalMarshalSpaceInlineRequirements layout drvTypedLayout source.objects =
    some n → 0 ≤ n → ∃ outcome, marshalInlineObjects dest source layout drvTypedLayout =
      some outcome ∧ Right source (visitsOf layout drvTypedLayout source) n.toNat dest outcome
  assign : ∀ n, getTotalCbInlineRequirements layout drvTypedLayout = some n → 0 ≤ n →
    ∃ outcome, initializeCbInlinePointers inlineSpace layout drvTypedLayout = some outcome ∧
      CbRight (cbVisitsOf layout drvTypedLayout) n.toNat inlineSpace outcome

/-- The sum does not wrap around, the header of an untyped object does not make its size wrap
around, and of several elements with one pointer none has a larger object than the last. -/
structure Fits (source : Source) (vs : List Visit) : Prop where
  sum : (vs.map (·.copied source)).sum < 2 ^ 31
  header : ∀ visit ∈ vs, visit.code = dlMovableUntyped → source.pointers visit.slot ≠ 0 →
    (source.objectNBytes (source.pointers visit.slot)).toNat < wordModulus - sizeofMovableMemory
  last : ∀ visit ∈ vs, source.pointers visit.slot ≠ 0 →
    ∀ last, lastAt (·.slot) visit.slot vs = some last →
      visit.objectBytes source ≤ last.objectBytes source

def CbFits (vs : List Visit) : Prop :=
  (vs.map (·.size.toNat)).sum < 2 ^ 31

section

variable {fuel offset : Nat} {layout : List UInt8} {drvTypedLayout : Option (List UInt8)}
  {source : Source}

theorem wrapStatus_add (k : Nat) {size : Int} (hsize : 0 ≤ size) :
    wrapStatus (wrapStatus k + size) = wrapStatus ((k + size.toNat : Nat) : Int) := by
  rw [wrapStatus, wrapStatus, wrapStatus, Int.bmod_add_bmod, Int.natCast_add,
    Int.toNat_of_nonneg hsize]

theorem asUnsigned_wrapStatus (k : Nat) : asUnsigned (wrapStatus k) = k % wordModulus := by
  rw [asUnsigned, wrapStatus, Int.bmod_emod, ← Int.natCast_mod, Int.toNat_natCast]

theorem toNat_wrapStatus_eq_iff {k : Nat} (h : 0 ≤ wrapStatus k) :
    (wrapStatus k).toNat = k ↔ k < 2 ^ 31 := by
  have hlt : wrapStatus k < 2 ^ 31 := Int.bmod_lt (by decide)
  constructor
  · intro heq
    omega
  · intro hk
    rw [ChannelSend.wrapStatus_eq (Int.natCast_nonneg k) (by exact_mod_cast hk)]
    exact Int.toNat_natCast k

theorem le_toNat_wrapStatus_iff {k : Nat} (h : 0 ≤ wrapStatus k) :
    k ≤ (wrapStatus k).toNat ↔ k < 2 ^ 31 := by
  have hlt : wrapStatus k < 2 ^ 31 := Int.bmod_lt (by decide)
  constructor
  · intro hle
    omega
  · intro hk
    exact ((toNat_wrapStatus_eq_iff h).mpr hk).ge

theorem isSome_objects (slot : Nat) : (source.objects slot).isSome ↔ source.pointers slot ≠ 0 := by
  rw [Source.objects]
  split
  · next h => simp [h]
  · next h => simp [h]

theorem totalLoop_visits {k : Nat} {n : Int}
    (h : totalLoop drvTypedLayout source.objects fuel layout offset (wrapStatus k) = some n)
    (hn : 0 ≤ n) :
    ∃ vs, visits (fun slot => objectSize drvTypedLayout (source.objects slot)) fuel layout offset =
        some vs ∧ (∀ visit ∈ vs, 0 ≤ visit.size) ∧
      n = wrapStatus ((k + (vs.map (·.copied source)).sum : Nat) : Int) := by
  induction fuel generalizing layout offset k with
  | zero =>
    cases layout with
    | nil => cases h
    | cons curr rest => cases h
  | succ fuel ih =>
    cases layout with
    | nil => cases h
    | cons curr rest =>
      rw [totalLoop] at h
      rw [visits]
      rcases eq_or_ne curr dlEnd with hcurr | hcurr
      · rw [if_pos hcurr] at h ⊢
        exact ⟨[], rfl, by simp, (some.inj h).symm⟩
      rw [if_neg hcurr] at h ⊢
      rcases hsize : zudiLayoutGetElementSize curr rest with _ | ⟨elemSize, skipCount⟩
      · rw [hsize] at h
        cases h
      rw [hsize] at h
      dsimp only at h ⊢
      rcases eq_or_ne skipCount 0 with hskip | hskip
      · rw [if_pos hskip] at h
        cases h
        exact absurd hn (by decide)
      rw [if_neg hskip] at h ⊢
      rcases hobject : objectSize drvTypedLayout (source.objects (align offset elemSize)) curr
        rest with _ | _ | size
      · rw [hobject] at h
        cases h
      · rw [hobject] at h
        exact ih h
      rw [hobject] at h
      dsimp only at h ⊢
      split at h
      · cases h
        omega
      next hnonneg =>
      have hpositive := not_lt.mp hnonneg
      split at h
      · next hsome =>
        rw [isSome_objects] at hsome
        rw [wrapStatus_add k hpositive] at h
        obtain ⟨vs, hvs, hpos, heq⟩ := ih h
        refine ⟨_, by rw [hvs]; rfl, forall_mem_cons.mpr ⟨hpositive, hpos⟩, ?_⟩
        rw [heq, map_cons, sum_cons, Visit.copied, if_neg hsome, add_assoc]
      · next hnone =>
        rw [isSome_objects, not_not] at hnone
        obtain ⟨vs, hvs, hpos, heq⟩ := ih h
        refine ⟨_, by rw [hvs]; rfl, forall_mem_cons.mpr ⟨hpositive, hpos⟩, ?_⟩
        rw [heq, map_cons, sum_cons, Visit.copied, if_pos hnone, zero_add]

theorem cbTotalLoop_visits {k : Nat} {n : Int}
    (h : cbTotalLoop drvTypedLayout fuel layout (wrapStatus k) = some n) (hn : 0 ≤ n)
    (offset : Nat) :
    ∃ vs, visits (fun _ => cbObjectSize drvTypedLayout) fuel layout offset = some vs ∧
      (∀ visit ∈ vs, 0 ≤ visit.size) ∧
      n = wrapStatus ((k + (vs.map (·.size.toNat)).sum : Nat) : Int) := by
  induction fuel generalizing layout offset k with
  | zero =>
    cases layout with
    | nil => cases h
    | cons curr rest => cases h
  | succ fuel ih =>
    cases layout with
    | nil => cases h
    | cons curr rest =>
      rw [cbTotalLoop] at h
      rw [visits]
      rcases eq_or_ne curr dlEnd with hcurr | hcurr
      · rw [if_pos hcurr] at h ⊢
        exact ⟨[], rfl, by simp, (some.inj h).symm⟩
      rw [if_neg hcurr] at h ⊢
      rcases hsize : zudiLayoutGetElementSize curr rest with _ | ⟨elemSize, skipCount⟩
      · rw [hsize] at h
        cases h
      rw [hsize] at h
      dsimp only at h ⊢
      rcases eq_or_ne skipCount 0 with hskip | hskip
      · rw [if_pos hskip] at h
        cases h
        exact absurd hn (by decide)
      rw [if_neg hskip] at h ⊢
      rcases hobject : cbObjectSize drvTypedLayout curr rest with _ | _ | size
      · rw [hobject] at h
        cases h
      · rw [hobject] at h
        exact ih h _
      rw [hobject] at h
      dsimp only at h ⊢
      split at h
      · cases h
        omega
      next hnonneg =>
      have hpositive := not_lt.mp hnonneg
      rw [wrapStatus_add k hpositive] at h
      obtain ⟨vs, hvs, hpos, heq⟩ := ih h ((align offset elemSize + elemSize) % wordModulus)
      refine ⟨_, by rw [hvs]; rfl, forall_mem_cons.mpr ⟨hpositive, hpos⟩, ?_⟩
      rw [heq, map_cons, sum_cons, add_assoc]

end

section

variable {sizeOf : Nat → UInt8 → List UInt8 → Option (Option Int)} {fuel offset : Nat}
  {layout : List UInt8} {vs : List Visit} {drvTypedLayout : Option (List UInt8)} {source : Source}

inductive Visited (sizeOf : Nat → UInt8 → List UInt8 → Option (Option Int)) :
    Nat → List UInt8 → Nat → List Visit → Prop
  | done (fuel : Nat) (tail : List UInt8) (offset : Nat) :
      Visited sizeOf (fuel + 1) (dlEnd :: tail) offset []
  | skip {fuel offset : Nat} {code : UInt8} {rest : List UInt8} {size skipCount : Nat}
      {vs : List Visit} : code ≠ dlEnd →
      zudiLayoutGetElementSize code rest = some (size, skipCount) → skipCount ≠ 0 →
        sizeOf (align offset size) code rest = some none →
          Visited sizeOf fuel ((code :: rest).drop skipCount)
            ((align offset size + size) % wordModulus) vs →
          Visited sizeOf (fuel + 1) (code :: rest) offset vs
  | visit {fuel offset : Nat} {code : UInt8} {rest : List UInt8} {size skipCount : Nat}
      {object : Int} {vs : List Visit} : code ≠ dlEnd →
      zudiLayoutGetElementSize code rest = some (size, skipCount) → skipCount ≠ 0 →
        sizeOf (align offset size) code rest = some (some object) →
          Visited sizeOf fuel ((code :: rest).drop skipCount)
            ((align offset size + size) % wordModulus) vs →
          Visited sizeOf (fuel + 1) (code :: rest) offset (⟨align offset size, code, object⟩ :: vs)

theorem visited_of_visits (h : visits sizeOf fuel layout offset = some vs) :
    Visited sizeOf fuel layout offset vs := by
  induction fuel generalizing layout offset vs with
  | zero =>
    cases layout with
    | nil => cases h
    | cons curr rest => cases h
  | succ fuel ih =>
    cases layout with
    | nil => cases h
    | cons curr rest =>
      rw [visits] at h
      split at h
      · next hcurr =>
        cases h
        rw [hcurr]
        exact .done fuel rest offset
      next hcurr =>
      split at h
      · cases h
      next size skipCount hsize =>
      split at h
      · cases h
      next hskip =>
      dsimp only at h
      split at h
      · cases h
      · next hobject => exact .skip hcurr hsize hskip hobject (ih h)
      · next object hobject =>
        obtain ⟨vs, hvs, rfl⟩ := map_eq_some_iff.mp h
        exact .visit hcurr hsize hskip hobject (ih hvs)

theorem Visited.sizeOf_eq (h : Visited sizeOf fuel layout offset vs) :
    ∀ visit ∈ vs, ∃ rest, sizeOf visit.slot visit.code rest = some (some visit.size) := by
  induction h with
  | done fuel tail offset => simp
  | skip hcode hsize hskip hobject hrest ih => exact ih
  | @visit fuel offset code rest size skipCount object vs hcode hsize hskip hobject hrest ih =>
    exact forall_mem_cons.mpr ⟨⟨rest, hobject⟩, ih⟩

def movesFrom (source : Source) : Nat → List Visit → List Move
  | _, [] => []
  | dest, visit :: rest =>
    moveOf source dest visit.slot visit.code visit.size ::
      movesFrom source (destAfter source dest visit.slot visit.size) rest

def destFrom (source : Source) : Nat → List Visit → Nat
  | dest, [] => dest
  | dest, visit :: rest => destFrom source (destAfter source dest visit.slot visit.size) rest

theorem Visited.marshalLoop_eq
    (h : Visited (fun slot => objectSize drvTypedLayout (source.objects slot)) fuel layout offset
      vs) (dest : Nat) :
    marshalLoop drvTypedLayout source fuel layout offset dest =
      some ⟨0, destFrom source dest vs, movesFrom source dest vs⟩ := by
  induction h generalizing dest with
  | done fuel tail offset => rfl
  | skip hcode hsize hskip hobject hrest ih =>
    rw [marshalLoop, if_neg hcode, hsize]
    dsimp only
    rw [if_neg hskip, hobject]
    exact ih dest
  | visit hcode hsize hskip hobject hrest ih =>
    rw [marshalLoop, if_neg hcode, hsize]
    dsimp only
    rw [if_neg hskip, hobject]
    dsimp only
    rw [ih]
    rfl

theorem Visited.initializeLoop_eq
    (h : Visited (fun _ => cbObjectSize drvTypedLayout) fuel layout offset vs)
    (hpos : ∀ visit ∈ vs, 0 ≤ visit.size) (inlineSpace k : Nat) :
    initializeLoop drvTypedLayout inlineSpace fuel layout offset (wrapStatus k) =
      some (0, placed inlineSpace k vs) := by
  induction h generalizing k with
  | done fuel tail offset => rfl
  | skip hcode hsize hskip hobject hrest ih =>
    rw [initializeLoop, if_neg hcode, hsize]
    dsimp only
    rw [if_neg hskip, hobject]
    exact ih hpos k
  | visit hcode hsize hskip hobject hrest ih =>
    rw [forall_mem_cons] at hpos
    rw [initializeLoop, if_neg hcode, hsize]
    dsimp only
    rw [if_neg hskip, hobject]
    dsimp only
    rw [if_neg (not_lt.mpr hpos.1), wrapStatus_add k hpos.1, ih hpos.2, asUnsigned_wrapStatus,
      Nat.add_mod_mod]
    rfl

end

section

variable {drvTypedLayout : Option (List UInt8)} {source : Source} {slot : Nat} {code : UInt8}
  {rest : List UInt8} {size : Int}

theorem lt_of_zudiLayoutGetSize {layout : List UInt8}
    (h : zudiLayoutGetSize layout false = some size) : size < 2 ^ 31 := by
  rcases lt_or_ge size 0 with hneg | hpos
  · omega
  · obtain ⟨its, -, -, -, hlt⟩ := StackArguments.toNat_size_eq h hpos
    omega

theorem wrapStatus_lt (value : Int) : wrapStatus value < 2 ^ 31 :=
  Int.bmod_lt (by decide)

theorem objectSize_lt {object : Option Nat}
    (h : objectSize drvTypedLayout object code rest = some (some size)) : size < 2 ^ 31 := by
  unfold objectSize at h
  split at h
  · obtain ⟨value, hvalue, heq⟩ := map_eq_some_iff.mp h
    cases heq
    exact lt_of_zudiLayoutGetSize hvalue
  split at h
  · obtain ⟨value, -, heq⟩ := map_eq_some_iff.mp h
    cases heq
    exact wrapStatus_lt _
  split at h
  · split at h
    · cases h
      decide
    · obtain ⟨value, hvalue, heq⟩ := map_eq_some_iff.mp h
      cases heq
      exact lt_of_zudiLayoutGetSize hvalue
  split at h
  · split at h
    · cases h
      decide
    · obtain rfl := some.inj (some.inj h)
      exact wrapStatus_lt _
  · cases h

theorem objectSize_untyped (hslot : source.pointers slot ≠ 0)
    (h : objectSize drvTypedLayout (source.objects slot) dlMovableUntyped rest = some (some size)) :
    size = wrapStatus (((source.objectNBytes (source.pointers slot)).toNat +
      sizeofMovableMemory : Nat) : Int) := by
  rw [Source.objects, if_neg hslot] at h
  exact (some.inj (some.inj h)).symm

end

section

variable {α : Type} {slotOf : α → Nat} {slot : Nat} {list : List α} {last : α}

theorem lastAt_eq_none_iff : lastAt slotOf slot list = none ↔ slot ∉ list.map slotOf := by
  induction list with
  | nil => simp [lastAt]
  | cons first rest ih =>
    rw [lastAt, map_cons, mem_cons, not_or, ← ih]
    cases lastAt slotOf slot rest with
    | some last => simp
    | none => simp [eq_comm]

theorem exists_lastAt_of_mem {member : α} (hmem : member ∈ list) :
    ∃ last, lastAt slotOf (slotOf member) list = some last := by
  rw [← ne_none_iff_exists', ne_eq, lastAt_eq_none_iff, not_not]
  exact mem_map_of_mem hmem

theorem of_lastAt (h : lastAt slotOf slot list = some last) : last ∈ list ∧ slotOf last = slot := by
  induction list with
  | nil => cases h
  | cons first rest ih =>
    rw [lastAt] at h
    split at h
    · next heq =>
      cases h
      obtain ⟨hmem, hslot⟩ := ih heq
      exact ⟨mem_cons_of_mem _ hmem, hslot⟩
    split at h
    · next hslot =>
      cases h
      exact ⟨mem_cons_self, hslot⟩
    · cases h

end

section

variable {source : Source} {vs : List Visit} {dest slot n : Nat} {visit : Visit}

def Sized (visit : Visit) : Prop :=
  0 ≤ visit.size ∧ visit.size < 2 ^ 31

theorem asUnsigned_size (h : Sized visit) : asUnsigned visit.size = visit.size.toNat :=
  ChannelSend.asUnsigned_eq h.1 (lt_trans h.2 (by decide))

theorem moveOf_slot (dest slot : Nat) (curr : UInt8) (size : Int) :
    (moveOf source dest slot curr size).slot = slot := by
  simp only [moveOf]
  split
  · rfl
  · rfl

theorem movesFrom_slots (dest : Nat) :
    (movesFrom source dest vs).map (·.slot) = vs.map (·.slot) := by
  induction vs generalizing dest with
  | nil => rfl
  | cons visit vs ih => rw [movesFrom, map_cons, map_cons, moveOf_slot, ih]

theorem destAfter_mod (h : Sized visit) (dest : Nat) :
    destAfter source dest visit.slot visit.size % wordModulus =
      (dest + visit.copied source) % wordModulus := by
  rw [destAfter, Visit.copied, asUnsigned_size h]
  split
  · rfl
  · rw [Nat.mod_mod]

theorem destFrom_mod (h : ∀ visit ∈ vs, Sized visit) (dest : Nat) :
    destFrom source dest vs % wordModulus =
      (dest + (vs.map (·.copied source)).sum) % wordModulus := by
  induction vs generalizing dest with
  | nil => rfl
  | cons visit vs ih =>
    rw [forall_mem_cons] at h
    rw [destFrom, ih h.2, Nat.add_mod, destAfter_mod h.1, ← Nat.add_mod, add_assoc]
    rfl

theorem copy_inside_iff {base k nBytes : Nat} (hn : n < 2 ^ 31) (hk : k ≤ n)
    (hsize : nBytes < 2 ^ 31) (hdest : dest % wordModulus = (base + k) % wordModulus) :
    (∀ i < nBytes, ∃ r < n, (dest + i) % wordModulus = (base + r) % wordModulus) ↔
      k + nBytes ≤ n := by
  unfold wordModulus at *
  constructor
  · intro h
    rcases eq_zero_or_pos nBytes with rfl | hpos
    · exact hk
    · obtain ⟨r, hr, heq⟩ := h (nBytes - 1) (by omega)
      omega
  · intro h i hi
    exact ⟨k + i, by omega, by omega⟩

theorem inside_iff (hsizes : ∀ visit ∈ vs, Sized visit) {base k : Nat} (hn : n < 2 ^ 31)
    (hk : k ≤ n) (hdest : dest % wordModulus = (base + k) % wordModulus) :
    Inside base n (movesFrom source dest vs) ↔ k + (vs.map (·.copied source)).sum ≤ n := by
  induction vs generalizing dest k with
  | nil => exact iff_of_true (by simp [movesFrom, Inside]) hk
  | cons visit vs ih =>
    rw [forall_mem_cons] at hsizes
    obtain ⟨hsize, hsizes⟩ := hsizes
    have hafter : destAfter source dest visit.slot visit.size % wordModulus =
        (base + (k + visit.copied source)) % wordModulus := by
      rw [destAfter_mod hsize, Nat.add_mod, hdest, ← Nat.add_mod, add_assoc]
    have hhead : (∀ copy ∈ (moveOf source dest visit.slot visit.code visit.size).copy,
        ∀ i < copy.nBytes, ∃ r < n, (copy.dest + i) % wordModulus = (base + r) % wordModulus) ↔
          k + visit.copied source ≤ n := by
      rw [moveOf, Visit.copied]
      split
      · exact iff_of_true (by simp) hk
      · rw [← copy_inside_iff hn hk (by have := hsize.2; omega) hdest, asUnsigned_size hsize]
        simp
    rw [movesFrom, Inside, forall_mem_cons, hhead, map_cons, sum_cons]
    constructor
    · rintro ⟨hle, hrest⟩
      have := (ih hsizes hle hafter).mp hrest
      omega
    · intro hle
      have hk' : k + visit.copied source ≤ n := by omega
      exact ⟨hk', (ih hsizes hk' hafter).mpr (by omega)⟩

theorem lastAt_movesFrom {last : Visit} (h : lastAt (·.slot) slot vs = some last) (dest : Nat) :
    ∃ dest', lastAt (·.slot) slot (movesFrom source dest vs) =
      some (moveOf source dest' last.slot last.code last.size) := by
  induction vs generalizing dest with
  | nil => cases h
  | cons visit vs ih =>
    rw [lastAt] at h
    rw [movesFrom, lastAt]
    split at h
    · next later hlater =>
      cases h
      obtain ⟨dest', hmove⟩ := ih hlater (destAfter source dest visit.slot visit.size)
      rw [hmove]
      exact ⟨dest', rfl⟩
    next hnone =>
    split at h
    · next hslot =>
      obtain rfl := some.inj h
      have hmoves : lastAt (·.slot) slot
          (movesFrom source (destAfter source dest visit.slot visit.size) vs) = none := by
        rw [lastAt_eq_none_iff] at hnone ⊢
        rwa [movesFrom_slots]
      rw [hmoves]
      refine ⟨dest, ?_⟩
      rw [if_pos ((moveOf_slot _ _ _ _).trans hslot)]
    · cases h

theorem headerSize_le (curr : UInt8) : headerSize curr ≤ 8 := by
  rw [headerSize]
  split
  · exact le_rfl
  · exact Nat.zero_le _

theorem pointsToCopy_iff {object header nBytes size : Nat} (hheader : header ≤ 8)
    (hbytes : nBytes < 2 ^ 31) : PointsToCopy ((dest + header) % wordModulus) object size
        ⟨dest, (object + (wordModulus - header)) % wordModulus, nBytes⟩ ↔
      size ≤ nBytes - header := by
  rw [PointsToCopy]
  dsimp only
  unfold wordModulus at *
  constructor
  · intro h
    by_contra hlarge
    obtain ⟨b, hb, hdest, -⟩ := h (nBytes - header) (by omega)
    omega
  · intro h i hi
    exact ⟨header + i, by omega, by omega, by omega⟩

end

section

variable {source : Source} {vs : List Visit} {visit : Visit} {dest n : Nat} {layout : List UInt8}
  {drvTypedLayout : Option (List UInt8)}

structure Found (drvTypedLayout : Option (List UInt8)) (source : Source) (visit : Visit) :
    Prop where
  sized : Sized visit
  found : ∃ rest, objectSize drvTypedLayout (source.objects visit.slot) visit.code rest =
    some (some visit.size)

theorem objectBytes_eq (h : Found drvTypedLayout source visit)
    (hslot : source.pointers visit.slot ≠ 0) (hheader : visit.code = dlMovableUntyped →
      (source.objectNBytes (source.pointers visit.slot)).toNat <
        wordModulus - sizeofMovableMemory) :
    visit.objectBytes source = visit.size.toNat - headerSize visit.code := by
  rw [Visit.objectBytes]
  split
  · next hcode =>
    obtain ⟨rest, hfound⟩ := h.found
    rw [hcode] at hfound
    have hlt := hheader hcode
    have hsize : visit.size.toNat =
        (source.objectNBytes (source.pointers visit.slot)).toNat + sizeofMovableMemory := by
      rw [← asUnsigned_size h.sized, objectSize_untyped hslot hfound, asUnsigned_wrapStatus]
      refine Nat.mod_eq_of_lt ?_
      omega
    rw [hsize, headerSize, if_pos (.inl hcode), Nat.add_sub_cancel]
  · rfl

theorem moveOf_of_ne {slot : Nat} (hslot : source.pointers slot ≠ 0) (dest : Nat) (curr : UInt8)
    (size : Int) : moveOf source dest slot curr size =
      ⟨slot, some ⟨dest, ((source.pointers slot).toNat + (wordModulus - headerSize curr)) %
        wordModulus, asUnsigned size⟩, (dest + headerSize curr) % wordModulus⟩ :=
  if_neg hslot

theorem moveOf_null {slot : Nat} (hslot : source.pointers slot = 0) (dest : Nat) (curr : UInt8)
    (size : Int) : moveOf source dest slot curr size = ⟨slot, none, 0⟩ :=
  if_pos hslot

theorem apart_movesFrom (hsizes : ∀ visit ∈ vs, Sized visit)
    (hsum : (vs.map (·.copied source)).sum < 2 ^ 31) (dest : Nat) :
    ((movesFrom source dest vs).filterMap (·.copy)).Pairwise Copy.Apart := by
  induction vs generalizing dest with
  | nil => exact .nil
  | cons visit vs ih =>
    rw [forall_mem_cons] at hsizes
    rw [map_cons, sum_cons] at hsum
    have hrest := ih hsizes.2 (by omega) (destAfter source dest visit.slot visit.size)
    have hinside : Inside (destAfter source dest visit.slot visit.size)
        (vs.map (·.copied source)).sum (movesFrom source _ vs) :=
      (inside_iff hsizes.2 (by omega) (Nat.zero_le _) rfl).mpr (Nat.zero_add _).le
    rw [movesFrom, filterMap_cons]
    rcases eq_or_ne (source.pointers visit.slot) 0 with hnull | hslot
    · rw [moveOf_null hnull]
      exact hrest
    rw [moveOf_of_ne hslot]
    refine pairwise_cons.mpr ⟨?_, hrest⟩
    intro other hother i hi j hj
    obtain ⟨move, hmove, hcopy⟩ := mem_filterMap.mp hother
    obtain ⟨r, hr, heq⟩ := hinside move hmove other hcopy j hj
    -- the rest begins where this copy ends
    have hafter := @destAfter_mod source visit hsizes.1 dest
    have hcopied : visit.copied source = visit.size.toNat := if_neg hslot
    simp only [asUnsigned_size hsizes.1] at hi ⊢
    unfold wordModulus at *
    omega

theorem copied_iff (hvs : ∀ visit ∈ vs, Sized visit) (dest : Nat) (hmem : visit ∈ vs)
    (hslot : source.pointers visit.slot ≠ 0) :
    (∃ move copy, lastAt (·.slot) visit.slot (movesFrom source dest vs) = some move ∧
      move.copy = some copy ∧
      PointsToCopy move.pointer (source.pointers visit.slot).toNat (visit.objectBytes source)
        copy) ↔ ∀ last, lastAt (·.slot) visit.slot vs = some last →
        visit.objectBytes source ≤ last.size.toNat - headerSize last.code := by
  obtain ⟨last, hlast⟩ := @exists_lastAt_of_mem _ (·.slot) vs visit hmem
  obtain ⟨hlastMem, hlastSlot⟩ := of_lastAt hlast
  obtain ⟨dest', hmove⟩ := @lastAt_movesFrom source vs visit.slot last hlast dest
  rw [hlastSlot, moveOf_of_ne hslot, asUnsigned_size (hvs last hlastMem)] at hmove
  have hbytes : last.size.toNat < 2 ^ 31 := by
    have := (hvs last hlastMem).2
    omega
  have hiff := @pointsToCopy_iff dest' (source.pointers visit.slot).toNat (headerSize last.code)
    last.size.toNat (visit.objectBytes source) (headerSize_le last.code) hbytes
  constructor
  · rintro ⟨move, copy, heq, hcopy, hpoints⟩ last' hlast'
    rw [hmove] at heq
    cases heq
    cases hcopy
    rw [hlast] at hlast'
    cases hlast'
    exact hiff.mp hpoints
  · intro h
    exact ⟨_, _, hmove, rfl, hiff.mpr (h last hlast)⟩

theorem null_of_pointer (dest : Nat) (hmem : visit ∈ vs) (hslot : source.pointers visit.slot = 0) :
    ∃ move, lastAt (·.slot) visit.slot (movesFrom source dest vs) = some move ∧
      move.pointer = 0 := by
  obtain ⟨last, hlast⟩ := @exists_lastAt_of_mem _ (·.slot) vs visit hmem
  obtain ⟨-, hlastSlot⟩ := of_lastAt hlast
  obtain ⟨dest', hmove⟩ := @lastAt_movesFrom source vs visit.slot last hlast dest
  rw [hlastSlot, moveOf_null hslot] at hmove
  exact ⟨_, hmove, rfl⟩

theorem objects_iff (hvs : ∀ visit ∈ vs, Found drvTypedLayout source visit) :
    (∀ visit ∈ vs, source.pointers visit.slot ≠ 0 →
      ∀ last, lastAt (·.slot) visit.slot vs = some last →
        visit.objectBytes source ≤ last.size.toNat - headerSize last.code) ↔
      (∀ visit ∈ vs, visit.code = dlMovableUntyped → source.pointers visit.slot ≠ 0 →
        (source.objectNBytes (source.pointers visit.slot)).toNat <
          wordModulus - sizeofMovableMemory) ∧ ∀ visit ∈ vs, source.pointers visit.slot ≠ 0 →
        ∀ last, lastAt (·.slot) visit.slot vs = some last →
          visit.objectBytes source ≤ last.objectBytes source := by
  have hpointer : ∀ visit last : Visit, lastAt (·.slot) visit.slot vs = some last →
      source.pointers visit.slot ≠ 0 → last ∈ vs ∧ source.pointers last.slot ≠ 0 := by
    intro visit last hlast hslot
    obtain ⟨hmem, heq⟩ := of_lastAt hlast
    rw [heq]
    exact ⟨hmem, hslot⟩
  constructor
  · intro h
    have hheader : ∀ visit ∈ vs, visit.code = dlMovableUntyped →
        source.pointers visit.slot ≠ 0 →
        (source.objectNBytes (source.pointers visit.slot)).toNat <
          wordModulus - sizeofMovableMemory := by
      intro visit hmem hcode hslot
      obtain ⟨last, hlast⟩ := @exists_lastAt_of_mem _ (·.slot) vs visit hmem
      have hle := h visit hmem hslot last hlast
      have hlt := (hvs last (hpointer visit last hlast hslot).1).sized.2
      rw [Visit.objectBytes, if_pos hcode] at hle
      unfold wordModulus sizeofMovableMemory
      omega
    refine ⟨hheader, ?_⟩
    intro visit hmem hslot last hlast
    obtain ⟨hlastMem, hlastSlot⟩ := hpointer visit last hlast hslot
    rw [objectBytes_eq (hvs last hlastMem) hlastSlot fun hcode =>
      hheader last hlastMem hcode hlastSlot]
    exact h visit hmem hslot last hlast
  · rintro ⟨hheader, hle⟩ visit hmem hslot last hlast
    obtain ⟨hlastMem, hlastSlot⟩ := hpointer visit last hlast hslot
    rw [← objectBytes_eq (hvs last hlastMem) hlastSlot fun hcode =>
      hheader last hlastMem hcode hlastSlot]
    exact hle visit hmem hslot last hlast

theorem marshalInlineObjects_right_iff {n : Int}
    (h : getTotalMarshalSpaceInlineRequirements layout drvTypedLayout source.objects = some n)
    (hn : 0 ≤ n) (dest : Nat) :
    (∃ outcome, marshalInlineObjects dest source layout drvTypedLayout = some outcome ∧
      Right source (visitsOf layout drvTypedLayout source) n.toNat dest outcome) ↔
      Fits source (visitsOf layout drvTypedLayout source) := by
  obtain ⟨vs, hvs, hpos, hsum⟩ :=
    @totalLoop_visits layout.length 0 layout drvTypedLayout source 0 n h hn
  have hwalk := visited_of_visits hvs
  have hvisits : visitsOf layout drvTypedLayout source = vs := by
    rw [visitsOf, hvs]
    rfl
  have hfound : ∀ visit ∈ vs, Found drvTypedLayout source visit := by
    intro visit hmem
    obtain ⟨rest, hrest⟩ := hwalk.sizeOf_eq visit hmem
    exact ⟨⟨hpos visit hmem, objectSize_lt hrest⟩, rest, hrest⟩
  have hsized : ∀ visit ∈ vs, Sized visit := fun visit hmem => (hfound visit hmem).sized
  have hmarshal := hwalk.marshalLoop_eq dest
  rw [Nat.zero_add] at hsum
  have hlt : n.toNat < 2 ^ 31 := by
    have := wrapStatus_lt ((vs.map (·.copied source)).sum : Nat)
    omega
  have hinside : Inside dest n.toNat (movesFrom source dest vs) ↔
      (vs.map (·.copied source)).sum < 2 ^ 31 := by
    rw [inside_iff hsized hlt (Nat.zero_le _) (by rw [Nat.add_zero]), Nat.zero_add, hsum]
    exact le_toNat_wrapStatus_iff (hsum ▸ hn)
  rw [hvisits]
  constructor
  · rintro ⟨outcome, heq, hright⟩
    rw [marshalInlineObjects, hmarshal] at heq
    cases heq
    have hpointers : ∀ visit ∈ vs, source.pointers visit.slot ≠ 0 →
        ∀ last, lastAt (·.slot) visit.slot vs = some last →
          visit.objectBytes source ≤ last.size.toNat - headerSize last.code :=
      fun visit hmem hslot =>
        (copied_iff hsized dest hmem hslot).mp (hright.copied visit hmem hslot)
    obtain ⟨hheader, hlast⟩ := (objects_iff hfound).mp hpointers
    exact ⟨hinside.mp hright.inside, hheader, hlast⟩
  · intro hfits
    have hpointers := (objects_iff hfound).mpr ⟨hfits.header, hfits.last⟩
    refine ⟨_, hmarshal, rfl, ?_, movesFrom_slots dest, hinside.mpr hfits.sum,
      apart_movesFrom hsized hfits.sum dest, ?_, ?_⟩
    · rw [destFrom_mod hsized, hsum, (toNat_wrapStatus_eq_iff (hsum ▸ hn)).mpr hfits.sum]
    · intro visit hmem hslot
      exact null_of_pointer dest hmem hslot
    · intro visit hmem hslot
      exact (copied_iff hsized dest hmem hslot).mpr (hpointers visit hmem hslot)

theorem initializeCbInlinePointers_right_iff {n : Int}
    (h : getTotalCbInlineRequirements layout drvTypedLayout = some n) (hn : 0 ≤ n)
    (inlineSpace : Nat) :
    (∃ outcome, initializeCbInlinePointers inlineSpace layout drvTypedLayout = some outcome ∧
      CbRight (cbVisitsOf layout drvTypedLayout) n.toNat inlineSpace outcome) ↔
      CbFits (cbVisitsOf layout drvTypedLayout) := by
  obtain ⟨vs, hvs, hpos, hsum⟩ := @cbTotalLoop_visits layout.length layout drvTypedLayout 0 n h hn 0
  have hvisits : cbVisitsOf layout drvTypedLayout = vs := by
    rw [cbVisitsOf, hvs]
    rfl
  have hassign := (visited_of_visits hvs).initializeLoop_eq hpos inlineSpace 0
  rw [zero_add] at hsum
  have hspace : (vs.map (·.size.toNat)).sum = n.toNat ↔ (vs.map (·.size.toNat)).sum < 2 ^ 31 := by
    rw [hsum, eq_comm]
    exact toNat_wrapStatus_eq_iff (hsum ▸ hn)
  rw [hvisits, CbFits, ← hspace]
  constructor
  · rintro ⟨outcome, heq, hright⟩
    exact hright.space
  · intro hfits
    exact ⟨_, hassign, rfl, rfl, hfits⟩

/-- The passes do what is expected of them exactly when the sums do not wrap around and each
pointer's last element has its largest object. -/
theorem passesRight_iff (layout : List UInt8) (drvTypedLayout : Option (List UInt8))
    (source : Source) (dest inlineSpace : Nat) :
    PassesRight layout drvTypedLayout source dest inlineSpace ↔
      (∀ n, getTotalMarshalSpaceInlineRequirements layout drvTypedLayout source.objects = some n →
        0 ≤ n → Fits source (visitsOf layout drvTypedLayout source)) ∧
      ∀ n, getTotalCbInlineRequirements layout drvTypedLayout = some n → 0 ≤ n →
        CbFits (cbVisitsOf layout drvTypedLayout) := by
  constructor
  · rintro ⟨hmarshal, hassign⟩
    refine ⟨?_, ?_⟩
    · intro n h hn
      exact (marshalInlineObjects_right_iff h hn dest).mp (hmarshal n h hn)
    · intro n h hn
      exact (initializeCbInlinePointers_right_iff h hn inlineSpace).mp (hassign n h hn)
  · rintro ⟨hmarshal, hassign⟩
    refine ⟨?_, ?_⟩
    · intro n h hn
      exact (marshalInlineObjects_right_iff h hn dest).mpr (hmarshal n h hn)
    · intro n h hn
      exact (initializeCbInlinePointers_right_iff h hn inlineSpace).mpr (hassign n h hn)

def fourObjects : List UInt8 :=
  [dlInlineDriverTyped, dlInlineDriverTyped, dlInlineDriverTyped, dlInlineDriverTyped, dlEnd]

def largeObject : List UInt8 :=
  [dlArray, 128, dlArray, 128, dlArray, 128, dlArray, 128, 5, 0, 0, 0, 0, 0]

theorem passes_wrap :
    getTotalMarshalSpaceInlineRequirements fourObjects (some largeObject)
        (⟨fun _ => 4096, fun _ => 0⟩ : Source).objects = some 0 ∧
      getTotalCbInlineRequirements fourObjects (some largeObject) = some 0 ∧
      ¬ PassesRight fourObjects (some largeObject) ⟨fun _ => 4096, fun _ => 0⟩ 4096 4096 := by
  have htotal : getTotalCbInlineRequirements fourObjects (some largeObject) = some 0 := by
    decide +kernel
  refine ⟨by decide +kernel, htotal, ?_⟩
  intro h
  obtain ⟨outcome, -, hright⟩ := h.assign 0 htotal le_rfl
  exact absurd hright.space (by decide +kernel)

end

section

variable {fuel offset dest : Nat} {layout : List UInt8} {drvTypedLayout : Option (List UInt8)}
  {source : Source}

/-- What `send` notes of a move: the object, and the pointer to it. -/
def Move.writes (move : Move) : List Write :=
  (match move.copy with
    | none => []
    | some copy => [⟨.inlineObjects, copy.dest, copy.nBytes⟩]) ++
    [⟨.visibleArea, (sizeofCb + move.slot) % wordModulus, 4⟩]

def Outcome.written (outcome : Outcome) : Int × List Write :=
  (outcome.status, outcome.moves.flatMap Move.writes)

theorem marshalLoop_send : inlineLoop drvTypedLayout source.objects fuel layout offset dest =
      (marshalLoop drvTypedLayout source fuel layout offset dest).map Outcome.written := by
  induction fuel generalizing layout offset dest with
  | zero =>
    cases layout with
    | nil => rfl
    | cons curr rest => rfl
  | succ fuel ih =>
    cases layout with
    | nil => rfl
    | cons curr rest =>
      rw [inlineLoop, marshalLoop]
      rcases eq_or_ne curr dlEnd with hcurr | hcurr
      · rw [if_pos hcurr, if_pos hcurr]
        rfl
      rw [if_neg hcurr, if_neg hcurr]
      rcases zudiLayoutGetElementSize curr rest with _ | ⟨elemSize, skipCount⟩
      · rfl
      dsimp only
      rcases eq_or_ne skipCount 0 with hskip | hskip
      · rw [if_pos hskip, if_pos hskip]
        rfl
      rw [if_neg hskip, if_neg hskip]
      rcases objectSize drvTypedLayout (source.objects (align offset elemSize)) curr rest with
        _ | _ | size
      · rfl
      · exact ih
      dsimp only
      rcases eq_or_ne (source.pointers (align offset elemSize)) 0 with hslot | hslot
      · rw [if_neg (by rw [isSome_objects, not_not]; exact hslot), moveOf_null hslot, destAfter,
          if_pos hslot, ih, Option.map_map, Option.map_map]
        rfl
      · rw [if_pos (isSome_objects _ |>.mpr hslot), moveOf_of_ne hslot, destAfter,
          if_neg hslot, ih, Option.map_map, Option.map_map]
        rfl

theorem marshalInlineObjects_send :
    ChannelSend.marshalInlineObjects dest source.objects layout drvTypedLayout =
      (marshalInlineObjects dest source layout drvTypedLayout).map Outcome.written :=
  marshalLoop_send

end

end Zambesii.InlineObjects
