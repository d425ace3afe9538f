import Zambesii.DmaConstraints
import Zambesii.Runs

/-!
`fplainn::dma::Constraints`: the attributes that a driver gives for a DMA engine, in an array of
32. The types are the bytes that the driver supplied.
-/

namespace Zambesii.ConstraintAttrs

open DmaConstraints (AttrType)
open KernelTypes List Option Runs

structure AttrSpec where
  attrType : UInt8
  attrValue : UInt32
deriving DecidableEq

def nAttrTypeNames : Nat := 32

def isValidConstraintAttrType (a : UInt8) : Bool :=
  if a < 100 ∨ a > 164 then false
  else if a ≥ 160 ∧ a ≤ 164 then true
  else if a ≥ 150 ∧ a ≤ 153 then true
  else if a ≥ 140 ∧ a ≤ 142 then true
  else if a ≥ 130 ∧ a ≤ 132 then true
  else if a ≥ 120 ∧ a ≤ 124 then true
  else if a ≥ 110 ∧ a ≤ 111 then true
  else if a ≥ 100 ∧ a ≤ 101 then true
  else false

def AttrSpec.isValid (spec : AttrSpec) : Bool :=
  isValidConstraintAttrType spec.attrType

abbrev Attrs := List AttrSpec

def getAttr (attrs : Attrs) (attr : UInt8) : Option AttrSpec :=
  attrs.find? fun spec => spec.attrType = attr

def attrAlreadySet (attrs : Attrs) (a : UInt8) : Bool :=
  attrs.any fun spec => spec.attrType = a

/-- The loop of `initialize`. The entries behind an invalid one move down by one, and the loop
goes on behind the one that has taken its place. -/
def dropHoles : Attrs → Attrs
  | [] => []
  | spec :: rest =>
    if spec.isValid then spec :: dropHoles rest
    else
      match rest with
      | [] => []
      | moved :: rest => moved :: dropHoles rest

/-- `initialize`. A null pointer is `none`; more entries than the array has are written
past it, which is undefined. -/
def initializeAttrs : Option (List AttrSpec) → Option (Kerror × Attrs)
  | none => some (.invalidArg, [])
  | some specs =>
    if specs.length ≤ nAttrTypeNames then some (.success, dropHoles specs) else none

/-- The assignment through the pointer that `getAttr` returns. -/
def setValue (spec : AttrSpec) : Attrs → Attrs
  | [] => []
  | first :: rest =>
    if first.attrType = spec.attrType then { first with attrValue := spec.attrValue } :: rest
    else first :: setValue spec rest

def isNew (attrs : Attrs) (spec : AttrSpec) : Bool :=
  spec.isValid && !attrAlreadySet attrs spec.attrType

/-- The second loop of `addOrModifyAttrs`. The new attributes are those behind the first
`nAttrs` ones, where neither `attrAlreadySet` nor `getAttr` looks. -/
def storeAttrs (attrs new : Attrs) : List AttrSpec → Attrs × Attrs
  | [] => (attrs, new)
  | spec :: rest =>
    if !spec.isValid then storeAttrs attrs new rest
    else if attrAlreadySet attrs spec.attrType then storeAttrs (setValue spec attrs) new rest
    else storeAttrs attrs (new ++ [spec]) rest

/-- `addOrModifyAttrs`; `none` is the failure of its assertion. -/
def addOrModifyAttrs (attrs : Attrs) : Option (List AttrSpec) → Option (Kerror × Attrs)
  | none => some (.invalidArg, attrs)
  | some [] => some (.success, attrs)
  | some (spec :: specs) =>
    if attrs.length + (spec :: specs).countP (isNew attrs) ≤ nAttrTypeNames then
      some (.success,
        (storeAttrs attrs [] (spec :: specs)).1 ++ (storeAttrs attrs [] (spec :: specs)).2)
    else none

inductive Call
  | initializeAttrs (specs : Option (List AttrSpec))
  | addOrModifyAttrs (specs : Option (List AttrSpec))

def lastValue : List AttrSpec → UInt8 → Option UInt32
  | [], _ => none
  | spec :: rest, a =>
    (lastValue rest a).or (if spec.attrType = a then some spec.attrValue else none)

/-- An object with what has been supplied to it. The constructor leaves the members unset. -/
structure Traced where
  attrs : Option Attrs
  supplied : UInt8 → Option UInt32

def constructed : Traced where
  attrs := none
  supplied := fun _ => none

/-- What has been supplied after a call. `initialize` starts again. -/
def Call.supplied (before : UInt8 → Option UInt32) : Call → UInt8 → Option UInt32
  | .initializeAttrs specs, a => lastValue (specs.getD []) a
  | .addOrModifyAttrs specs, a => (lastValue (specs.getD []) a).or (before a)

/-- `addOrModifyAttrs` on an object that was never initialized reads members that are not
set, unless it has nothing to add. -/
def addToUnset : Option (List AttrSpec) → Option (Kerror × Option Attrs)
  | none => some (.invalidArg, none)
  | some [] => some (.success, none)
  | some (_ :: _) => none

def perform : Option Attrs → Call → Option (Kerror × Option Attrs)
  | _, .initializeAttrs specs => (initializeAttrs specs).map fun r => (r.1, some r.2)
  | some attrs, .addOrModifyAttrs specs =>
    (addOrModifyAttrs attrs specs).map fun r => (r.1, some r.2)
  | none, .addOrModifyAttrs specs => addToUnset specs

def step (state : Traced) (call : Call) : Option (Kerror × Traced) :=
  (perform state.attrs call).map fun r => (r.1, ⟨r.2, call.supplied state.supplied⟩)

/-- The attributes are of distinct and valid types, they fit into the array, and each type has
the value that was supplied last. -/
structure Proper (attrs : Attrs) (supplied : UInt8 → Option UInt32) : Prop where
  distinct : (attrs.map AttrSpec.attrType).Nodup
  valid : ∀ spec ∈ attrs, spec.isValid = true
  fits : attrs.length ≤ nAttrTypeNames
  getAttr_eq : ∀ a, isValidConstraintAttrType a = true →
    (getAttr attrs a).map AttrSpec.attrValue = supplied a

def Traced.Proper (state : Traced) : Prop :=
  ∀ attrs, state.attrs = some attrs → ConstraintAttrs.Proper attrs state.supplied

structure Clean (specs : List AttrSpec) : Prop where
  apart : specs.IsChain fun a b => a.isValid = true ∨ b.isValid = true
  once : ((specs.filter AttrSpec.isValid).map AttrSpec.attrType).Nodup

/-- `initialize` is given a clean list that fits into the array. `addOrModifyAttrs` is called on
an initialized object, and is given no type twice that is not set yet. -/
def Sound (state : Traced) : Call → Prop
  | .initializeAttrs none => True
  | .initializeAttrs (some specs) => specs.length ≤ nAttrTypeNames ∧ Clean specs
  | .addOrModifyAttrs none => True
  | .addOrModifyAttrs (some specs) =>
    match state.attrs with
    | none => specs = []
    | some attrs => ((specs.filter (isNew attrs)).map AttrSpec.attrType).Nodup

def code : AttrType → UInt8
  | .addressableBits => 100
  | .alignmentBits => 101
  | .dataAddressableBits => 110
  | .noPartial => 111
  | .scgthMaxElements => 120
  | .scgthFormat => 121
  | .scgthEndianness => 122
  | .scgthAddressableBits => 123
  | .scgthMaxSegments => 124
  | .scgthAlignmentBits => 130
  | .scgthMaxElPerSeg => 131
  | .scgthPrefixBytes => 132
  | .elementAlignmentBits => 140
  | .elementLengthBits => 141
  | .elementGranularityBits => 142
  | .addrFixedBits => 150
  | .addrFixedType => 151
  | .addrFixedValueLo => 152
  | .addrFixedValueHi => 153
  | .sequential => 160
  | .slopInBits => 161
  | .slopOutBits => 162
  | .slopOutExtra => 163
  | .slopBarrierBits => 164

def allTypes : List AttrType :=
  [.addressableBits, .alignmentBits, .dataAddressableBits, .noPartial, .scgthMaxElements,
    .scgthFormat, .scgthEndianness, .scgthAddressableBits, .scgthMaxSegments, .scgthAlignmentBits,
    .scgthMaxElPerSeg, .scgthPrefixBytes, .elementAlignmentBits, .elementLengthBits,
    .elementGranularityBits, .addrFixedBits, .addrFixedType, .addrFixedValueLo, .addrFixedValueHi,
    .sequential, .slopInBits, .slopOutBits, .slopOutExtra, .slopBarrierBits]

def validTypes : List UInt8 :=
  allTypes.map code

theorem isValid_iff_mem (a : UInt8) : isValidConstraintAttrType a = true ↔ a ∈ validTypes := by
  have h : ∀ a : Fin 256, isValidConstraintAttrType ⟨⟨a⟩⟩ = true ↔
      (⟨⟨a⟩⟩ : UInt8) ∈ validTypes := by decide +kernel
  exact h ⟨a.toNat, a.toBitVec.isLt⟩

section

variable {attrs : Attrs} {a : UInt8}

theorem length_le_of_distinct (hdistinct : (attrs.map AttrSpec.attrType).Nodup)
    (hvalid : ∀ spec ∈ attrs, spec.isValid = true) : attrs.length ≤ nAttrTypeNames := by
  have hsubset : attrs.map AttrSpec.attrType ⊆ validTypes := by
    intro a ha
    obtain ⟨spec, hmem, rfl⟩ := mem_map.1 ha
    exact (isValid_iff_mem spec.attrType).1 (hvalid spec hmem)
  have hlength := hdistinct.length_le_of_subset hsubset
  rw [length_map] at hlength
  exact hlength.trans (by decide)

theorem attrAlreadySet_iff (attrs : Attrs) (a : UInt8) :
    attrAlreadySet attrs a = true ↔ a ∈ attrs.map AttrSpec.attrType := by
  simp [attrAlreadySet]

theorem lastValue_eq_none {specs : List AttrSpec} (h : a ∉ specs.map AttrSpec.attrType) :
    lastValue specs a = none := by
  induction specs with
  | nil => rfl
  | cons spec rest ih =>
    rw [map_cons, mem_cons, not_or] at h
    rw [lastValue, ih h.2, if_neg (Ne.symm h.1), or_none]

theorem getAttr_eq_lastValue {specs : List AttrSpec} (h : (specs.map AttrSpec.attrType).Nodup)
    (a : UInt8) : (getAttr specs a).map AttrSpec.attrValue = lastValue specs a := by
  induction specs with
  | nil => rfl
  | cons spec rest ih =>
    rw [map_cons, nodup_cons] at h
    unfold getAttr
    rw [find?_cons, lastValue]
    rcases eq_or_ne spec.attrType a with rfl | hne
    · simp [lastValue_eq_none h.1]
    · rw [decide_eq_false hne, if_neg hne, or_none]
      exact ih h.2

theorem lastValue_filter {keep : AttrSpec → Bool} (specs : List AttrSpec)
    (h : ∀ spec ∈ specs, spec.attrType = a → keep spec = true) :
    lastValue (specs.filter keep) a = lastValue specs a := by
  induction specs with
  | nil => rfl
  | cons spec rest ih =>
    rw [forall_mem_cons] at h
    cases hkeep : keep spec with
    | true => rw [filter_cons_of_pos hkeep, lastValue, lastValue, ih h.2]
    | false =>
      have hne : spec.attrType ≠ a := by
        intro heq
        rw [h.1 heq] at hkeep
        cases hkeep
      rw [filter_cons_of_neg (by rw [hkeep]; decide), lastValue, ih h.2, if_neg hne,
        or_none]

theorem getAttr_append {new : Attrs} :
    getAttr (attrs ++ new) a = (getAttr attrs a).or (getAttr new a) :=
  find?_append

theorem getAttr_eq_none (h : a ∉ attrs.map AttrSpec.attrType) : getAttr attrs a = none := by
  unfold getAttr
  rw [find?_eq_none]
  intro spec hmem heq
  exact h (mem_map.2 ⟨spec, hmem, of_decide_eq_true heq⟩)

theorem getAttr_isSome (h : a ∈ attrs.map AttrSpec.attrType) : (getAttr attrs a).isSome = true := by
  obtain ⟨spec, hmem, rfl⟩ := mem_map.1 h
  unfold getAttr
  rw [find?_isSome]
  exact ⟨spec, hmem, decide_eq_true rfl⟩

end

section

variable {specs : List AttrSpec}

theorem isChain_cons_of_valid {spec : AttrSpec} {rest : List AttrSpec}
    (hvalid : spec.isValid = true) :
    (spec :: rest).IsChain (fun a b => a.isValid = true ∨ b.isValid = true) ↔
      rest.IsChain fun a b => a.isValid = true ∨ b.isValid = true := by
  cases rest with
  | nil => simp
  | cons second rest =>
    rw [isChain_cons_cons]
    exact ⟨fun h => h.2, fun h => ⟨.inl hvalid, h⟩⟩

theorem dropHoles_valid_iff (specs : List AttrSpec) :
    (∀ spec ∈ dropHoles specs, spec.isValid = true) ↔
      specs.IsChain fun a b => a.isValid = true ∨ b.isValid = true := by
  fun_induction dropHoles specs with
  | case1 => simp
  | case2 spec rest hvalid ih => rw [forall_mem_cons, ih, isChain_cons_of_valid hvalid,
      and_iff_right hvalid]
  | case3 spec hinvalid => simp
  | case4 spec hinvalid moved rest ih =>
    rw [forall_mem_cons, ih, isChain_cons_cons, or_iff_right hinvalid]
    refine and_congr_right ?_
    intro hmoved
    rw [isChain_cons_of_valid hmoved]

theorem dropHoles_eq_filter
    (h : specs.IsChain fun a b => a.isValid = true ∨ b.isValid = true) :
    dropHoles specs = specs.filter AttrSpec.isValid := by
  fun_induction dropHoles specs with
  | case1 => rfl
  | case2 spec rest hvalid ih =>
    rw [filter_cons_of_pos hvalid, ih ((isChain_cons_of_valid hvalid).1 h)]
  | case3 spec hinvalid => rw [filter_cons_of_neg hinvalid, filter_nil]
  | case4 spec hinvalid moved rest ih =>
    rw [isChain_cons_cons, or_iff_right hinvalid] at h
    rw [filter_cons_of_neg hinvalid, filter_cons_of_pos h.1,
      ih ((isChain_cons_of_valid h.1).1 h.2)]

theorem proper_dropHoles_iff (specs : List AttrSpec) :
    Proper (dropHoles specs) (lastValue specs) ↔ Clean specs := by
  constructor
  · intro h
    have hchain := (dropHoles_valid_iff specs).1 h.valid
    have hdistinct := h.distinct
    rw [dropHoles_eq_filter hchain] at hdistinct
    exact ⟨hchain, hdistinct⟩
  · intro h
    have hvalid := (dropHoles_valid_iff specs).2 h.apart
    have heq := dropHoles_eq_filter h.apart
    have hdistinct : ((dropHoles specs).map AttrSpec.attrType).Nodup := by
      rw [heq]
      exact h.once
    refine ⟨hdistinct, hvalid, length_le_of_distinct hdistinct hvalid, ?_⟩
    intro a ha
    rw [getAttr_eq_lastValue hdistinct, heq]
    refine lastValue_filter specs ?_
    rintro spec - rfl
    exact ha

end

section

variable {attrs new : Attrs} {specs : List AttrSpec}

theorem map_attrType_setValue (spec : AttrSpec) (attrs : Attrs) :
    (setValue spec attrs).map AttrSpec.attrType = attrs.map AttrSpec.attrType := by
  induction attrs with
  | nil => rfl
  | cons first rest ih =>
    unfold setValue
    split
    · rfl
    · rw [map_cons, map_cons, ih]

theorem getAttr_setValue (spec : AttrSpec) (h : spec.attrType ∈ attrs.map AttrSpec.attrType)
    (a : UInt8) :
    (getAttr (setValue spec attrs) a).map AttrSpec.attrValue =
      if spec.attrType = a then some spec.attrValue
      else (getAttr attrs a).map AttrSpec.attrValue := by
  induction attrs with
  | nil => cases h
  | cons first rest ih =>
    unfold setValue
    split
    case isTrue hfirst =>
        rcases eq_or_ne spec.attrType a with rfl | hne
        · simp [getAttr, hfirst]
        · have hne' : first.attrType ≠ a := hfirst ▸ hne
          simp [getAttr, hne, hne']
    case isFalse hfirst =>
        have hrest : spec.attrType ∈ rest.map AttrSpec.attrType := by
          rw [map_cons, mem_cons] at h
          exact h.resolve_left (Ne.symm hfirst)
        unfold getAttr
        rw [find?_cons, find?_cons]
        rcases eq_or_ne first.attrType a with rfl | hne
        · simp [Ne.symm hfirst]
        · rw [decide_eq_false hne]
          exact ih hrest

theorem isNew_setValue (spec : AttrSpec) (attrs : Attrs) :
    isNew (setValue spec attrs) = isNew attrs := by
  funext other
  unfold isNew
  rw [Bool.eq_iff_iff, Bool.and_eq_true, Bool.and_eq_true, Bool.not_eq_true', Bool.not_eq_true',
    ← Bool.not_eq_true, ← Bool.not_eq_true, attrAlreadySet_iff, attrAlreadySet_iff,
    map_attrType_setValue]

theorem storeAttrs_new (attrs new : Attrs) (specs : List AttrSpec) :
    (storeAttrs attrs new specs).2 = new ++ specs.filter (isNew attrs) := by
  fun_induction storeAttrs attrs new specs with
  | case1 => rw [filter_nil, append_nil]
  | case2 attrs new spec rest hinvalid ih =>
    have hold : ¬ isNew attrs spec = true := by simp_all [isNew]
    rw [ih, filter_cons_of_neg hold]
  | case3 attrs new spec rest hvalid hset ih =>
    have hold : ¬ isNew attrs spec = true := by simp_all [isNew]
    rw [ih, filter_cons_of_neg hold, isNew_setValue]
  | case4 attrs new spec rest hvalid hset ih =>
    have hnew : isNew attrs spec = true := by simp_all [isNew]
    rw [ih, filter_cons_of_pos hnew, append_assoc, singleton_append]

theorem map_attrType_storeAttrs (attrs new : Attrs) (specs : List AttrSpec) :
    (storeAttrs attrs new specs).1.map AttrSpec.attrType = attrs.map AttrSpec.attrType := by
  fun_induction storeAttrs attrs new specs with
  | case1 => rfl
  | case2 attrs new spec rest hinvalid ih => exact ih
  | case3 attrs new spec rest hvalid hset ih => rw [ih, map_attrType_setValue]
  | case4 attrs new spec rest hvalid hset ih => exact ih

theorem getAttr_storeAttrs (attrs new : Attrs) (specs : List AttrSpec) {a : UInt8}
    (ha : a ∈ attrs.map AttrSpec.attrType) (hvalid : isValidConstraintAttrType a = true) :
    (getAttr (storeAttrs attrs new specs).1 a).map AttrSpec.attrValue =
      (lastValue specs a).or ((getAttr attrs a).map AttrSpec.attrValue) := by
  fun_induction storeAttrs attrs new specs with
  | case1 => rfl
  | case2 attrs new spec rest hinvalid ih =>
    have hne : spec.attrType ≠ a := by
      rintro rfl
      simp_all [AttrSpec.isValid]
    rw [ih ha, lastValue, if_neg hne, or_none]
  | case3 attrs new spec rest hspec hset ih =>
    have hmem := (attrAlreadySet_iff attrs spec.attrType).1 hset
    rw [ih (by rwa [map_attrType_setValue]), getAttr_setValue spec hmem, lastValue,
      Option.or_assoc]
    split <;> rfl
  | case4 attrs new spec rest hspec hset ih =>
    have hne : spec.attrType ≠ a := by
      rintro rfl
      exact hset ((attrAlreadySet_iff attrs spec.attrType).2 ha)
    rw [ih ha, lastValue, if_neg hne, or_none]

def stored (attrs : Attrs) (specs : List AttrSpec) : Attrs :=
  (storeAttrs attrs [] specs).1 ++ (storeAttrs attrs [] specs).2

theorem map_attrType_stored (attrs : Attrs) (specs : List AttrSpec) :
    (stored attrs specs).map AttrSpec.attrType =
      attrs.map AttrSpec.attrType ++ (specs.filter (isNew attrs)).map AttrSpec.attrType := by
  unfold stored
  rw [map_append, map_attrType_storeAttrs, storeAttrs_new, nil_append]

theorem not_set_of_isNew {spec : AttrSpec} (h : isNew attrs spec = true) :
    spec.attrType ∉ attrs.map AttrSpec.attrType := by
  rw [isNew, Bool.and_eq_true, Bool.not_eq_true', ← Bool.not_eq_true, attrAlreadySet_iff] at h
  exact h.2

theorem valid_stored (h : ∀ spec ∈ attrs, spec.isValid = true) (specs : List AttrSpec) :
    ∀ spec ∈ stored attrs specs, spec.isValid = true := by
  intro spec hmem
  have htype : spec.attrType ∈ (stored attrs specs).map AttrSpec.attrType :=
    mem_map_of_mem hmem
  rw [map_attrType_stored, mem_append] at htype
  rcases htype with hold | hnew
  · obtain ⟨old, hold, heq⟩ := mem_map.1 hold
    have hvalid := h old hold
    rwa [AttrSpec.isValid, heq] at hvalid
  · obtain ⟨new, hnew, heq⟩ := mem_map.1 hnew
    have hvalid := (mem_filter.1 hnew).2
    rw [isNew, Bool.and_eq_true, AttrSpec.isValid, heq] at hvalid
    exact hvalid.1

theorem distinct_stored_iff (h : (attrs.map AttrSpec.attrType).Nodup) (specs : List AttrSpec) :
    ((stored attrs specs).map AttrSpec.attrType).Nodup ↔
      ((specs.filter (isNew attrs)).map AttrSpec.attrType).Nodup := by
  rw [map_attrType_stored, nodup_append']
  constructor
  · rintro ⟨-, hnew, -⟩
    exact hnew
  · intro hnew
    refine ⟨h, hnew, ?_⟩
    intro a hold hadded
    obtain ⟨spec, hmem, rfl⟩ := mem_map.1 hadded
    exact not_set_of_isNew (mem_filter.1 hmem).2 hold

theorem getAttr_stored (attrs : Attrs) (specs : List AttrSpec)
    (h : ((specs.filter (isNew attrs)).map AttrSpec.attrType).Nodup) {a : UInt8}
    (ha : isValidConstraintAttrType a = true) :
    (getAttr (stored attrs specs) a).map AttrSpec.attrValue =
      (lastValue specs a).or ((getAttr attrs a).map AttrSpec.attrValue) := by
  unfold stored
  rw [getAttr_append]
  rcases em (a ∈ attrs.map AttrSpec.attrType) with hset | hset
  · have hsome : (getAttr (storeAttrs attrs [] specs).1 a).isSome = true := by
      apply getAttr_isSome
      rwa [map_attrType_storeAttrs]
    rw [or_of_isSome hsome, getAttr_storeAttrs attrs [] specs hset ha]
  have hnone : getAttr (storeAttrs attrs [] specs).1 a = none := by
    apply getAttr_eq_none
    rwa [map_attrType_storeAttrs]
  rw [hnone, none_or, getAttr_eq_none hset, map_none, or_none,
    storeAttrs_new, nil_append, getAttr_eq_lastValue h]
  refine lastValue_filter specs ?_
  rintro spec - rfl
  rw [← attrAlreadySet_iff, Bool.not_eq_true] at hset
  rw [isNew, AttrSpec.isValid, ha, hset]
  rfl

theorem proper_stored_iff {supplied : UInt8 → Option UInt32} (h : Proper attrs supplied)
    (specs : List AttrSpec) :
    Proper (stored attrs specs) (fun a => (lastValue specs a).or (supplied a)) ↔
      ((specs.filter (isNew attrs)).map AttrSpec.attrType).Nodup := by
  constructor
  · intro hproper
    exact (distinct_stored_iff h.distinct specs).1 hproper.distinct
  · intro hnew
    have hdistinct := (distinct_stored_iff h.distinct specs).2 hnew
    have hvalid := valid_stored h.valid specs
    refine ⟨hdistinct, hvalid, length_le_of_distinct hdistinct hvalid, ?_⟩
    intro a ha
    rw [getAttr_stored attrs specs hnew ha, h.getAttr_eq a ha]

theorem addOrModifyAttrs_of_distinct {supplied : UInt8 → Option UInt32} (h : Proper attrs supplied)
    (hnew : ((specs.filter (isNew attrs)).map AttrSpec.attrType).Nodup) :
    addOrModifyAttrs attrs (some specs) = some (.success, stored attrs specs) := by
  cases specs with
  | nil => simp [addOrModifyAttrs, stored, storeAttrs]
  | cons spec rest =>
    have hfits := length_le_of_distinct ((distinct_stored_iff h.distinct _).2 hnew)
      (valid_stored h.valid (spec :: rest))
    have hlength : (stored attrs (spec :: rest)).length =
        attrs.length + (spec :: rest).countP (isNew attrs) := by
      rw [← @length_map _ _ (stored attrs (spec :: rest)) AttrSpec.attrType,
        map_attrType_stored, length_append, length_map, length_map,
        countP_eq_length_filter]
    rw [hlength] at hfits
    rw [addOrModifyAttrs, if_pos hfits]
    rfl

theorem addOrModifyAttrs_eq_some {ret : Kerror} {attrs' : Attrs}
    (h : addOrModifyAttrs attrs (some specs) = some (ret, attrs')) :
    attrs' = stored attrs specs := by
  cases specs with
  | nil =>
    cases h
    simp [stored, storeAttrs]
  | cons spec rest =>
    rw [addOrModifyAttrs] at h
    split at h
    · exact (Prod.mk.inj (some.inj h)).2.symm
    · cases h

end

section

variable {state next : Traced} {call : Call} {ret : Kerror}

theorem step_eq_some (h : step state call = some (ret, next)) :
    perform state.attrs call = some (ret, next.attrs) ∧
      next.supplied = call.supplied state.supplied := by
  obtain ⟨⟨ret', attrs⟩, hperform, heq⟩ := map_eq_some_iff.1 h
  obtain ⟨rfl, rfl⟩ := Prod.mk.inj heq
  exact ⟨hperform, rfl⟩

theorem proper_nil : Proper [] fun _ => none where
  distinct := nodup_nil
  valid := by simp
  fits := Nat.zero_le _
  getAttr_eq := fun _ _ => rfl

theorem sound_step (h : state.Proper) (hsound : Sound state call) :
    ∃ ret next, step state call = some (ret, next) ∧ next.Proper := by
  cases call with
  | initializeAttrs specs =>
    cases specs with
    | none =>
      refine ⟨.invalidArg, ⟨some [], _⟩, rfl, ?_⟩
      rintro attrs ⟨⟩
      exact proper_nil
    | some specs =>
      refine ⟨.success, ⟨some (dropHoles specs), lastValue specs⟩, ?_, ?_⟩
      · simp only [step, perform, initializeAttrs, if_pos hsound.1]
        rfl
      · rintro attrs ⟨⟩
        exact (proper_dropHoles_iff specs).2 hsound.2
  | addOrModifyAttrs specs =>
    rcases state with ⟨attrs, supplied⟩
    cases attrs with
    | none =>
      cases specs with
      | none =>
        refine ⟨.invalidArg, ⟨none, _⟩, rfl, ?_⟩
        rintro attrs ⟨⟩
      | some specs =>
        obtain rfl : specs = [] := hsound
        refine ⟨.success, ⟨none, _⟩, rfl, ?_⟩
        rintro attrs ⟨⟩
    | some attrs =>
      have hproper := h attrs rfl
      cases specs with
      | none =>
        refine ⟨.invalidArg, ⟨some attrs, supplied⟩, rfl, ?_⟩
        rintro attrs ⟨⟩
        exact hproper
      | some specs =>
        refine ⟨.success,
          ⟨some (stored attrs specs), fun a => (lastValue specs a).or (supplied a)⟩, ?_, ?_⟩
        · simp only [step, perform, addOrModifyAttrs_of_distinct hproper hsound]
          rfl
        · rintro attrs ⟨⟩
          exact (proper_stored_iff hproper specs).2 hsound

theorem unsound_step (h : state.Proper) (hunsound : ¬ Sound state call)
    (hstep : step state call = some (ret, next)) : ¬ next.Proper := by
  intro hnext
  apply hunsound
  obtain ⟨hperform, hsupplied⟩ := step_eq_some hstep
  cases call with
  | initializeAttrs specs =>
    cases specs with
    | none => trivial
    | some specs =>
      simp only [perform, initializeAttrs] at hperform
      split at hperform
      case isTrue hlength =>
          have hattrs := (Prod.mk.inj (some.inj hperform)).2
          have hproper := hnext (dropHoles specs) hattrs.symm
          rw [hsupplied] at hproper
          exact ⟨hlength, (proper_dropHoles_iff specs).1 hproper⟩
      case isFalse => cases hperform
  | addOrModifyAttrs specs =>
    rcases state with ⟨attrs, supplied⟩
    cases specs with
    | none => trivial
    | some specs =>
      cases attrs with
      | none =>
        cases specs with
        | nil => rfl
        | cons spec rest => cases hperform
      | some attrs =>
        obtain ⟨⟨ret', attrs'⟩, hadd, heq⟩ := map_eq_some_iff.1 hperform
        have hattrs := (Prod.mk.inj heq).2
        rw [addOrModifyAttrs_eq_some hadd] at hattrs
        have hproper := hnext (stored attrs specs) hattrs.symm
        rw [hsupplied] at hproper
        exact (proper_stored_iff (h attrs rfl) specs).1 hproper

theorem constructed_proper : constructed.Proper := by
  rintro attrs ⟨⟩

/-- Exactly the runs of sound calls never write past the array and leave the object proper
after every call. -/
theorem throughout_attrs_iff (calls : List Call) :
    Throughout step Traced.Proper constructed calls ↔ Guarded step Sound constructed calls :=
  throughout_iff_guarded_of_faults (fun _ h => h) (fun _ _ h _ hsound => sound_step h hsound)
    (fun _ _ _ _ h _ hunsound hstep => unsound_step h hunsound hstep) constructed_proper
    (guarded_of_forall (fun _ _ => trivial) _ _)

def twoHoles : List Call :=
  [.initializeAttrs (some [⟨0, 0⟩, ⟨0, 0⟩])]

theorem twoHoles_not_proper : ¬ Throughout step Traced.Proper constructed twoHoles := by
  rintro ⟨-, ret, next, hstep, hproper⟩
  cases hstep
  have hvalid := (hproper _ rfl).valid ⟨0, 0⟩ mem_cons_self
  revert hvalid
  decide

end

end Zambesii.ConstraintAttrs
