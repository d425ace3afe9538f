import Mathlib.Data.List.TakeWhile
import Mathlib.Tactic.FinCases
import Zambesii.KernelTypes

/-!
The walkers over UDI layouts of `sChannelMsg`: byte strings in which elements, their parameter
bytes and nested sequences follow each other. A walker that leaves the memory it is given has no
result.
-/

namespace Zambesii.ChannelLayout

open KernelTypes List Option

def dlEnd : UInt8 := 0

def dlBuf : UInt8 := 40

def dlInlineDriverTyped : UInt8 := 43

def dlMovableUntyped : UInt8 := 44

def dlInlineTyped : UInt8 := 50

def dlMovableTyped : UInt8 := 51

def dlArray : UInt8 := 52

/-- The elements of one byte: integers, handles, and pointers without a nested sequence. -/
def simpleCodes : List UInt8 :=
  [1, 2, 3, 4, 5, 6, 7, 8, 20, 30, 32, 41, 42, 43, 44, 200, 201]

/-- `layoutElements`: sizes and skip counts. -/
def layoutElements : List (Nat × Nat) :=
  [(0, 0), (1, 1), (1, 1), (2, 1), (2, 1), (4, 1), (4, 1), (1, 1), (4, 1), (1, 1), (4, 1), (0, 1),
    (4, 1), (4, 4), (4, 1), (4, 1), (4, 1), (4, 1), (4, 0), (4, 0), (0, 0), (4, 1), (4, 1)]

def isInlineElement (elem : UInt8) : Bool :=
  elem = dlInlineTyped || elem = dlInlineDriverTyped || elem = dlMovableUntyped ||
    elem = dlMovableTyped

def hasInlineElements : List UInt8 → Option Bool
  | [] => none
  | curr :: rest =>
    if curr = dlEnd then some false
    else if isInlineElement curr then some true
    else hasInlineElements rest

/-- The bytes before the next `UDI_DL_END`. -/
def countToEnd : List UInt8 → Option Nat
  | [] => none
  | curr :: rest => if curr = dlEnd then some 0 else (countToEnd rest).map (· + 1)

/-- Element sizes are 0 or powers of two, so that the source's masks are `%` and `/`. -/
def align (offset elemSize : Nat) : Nat :=
  let elemSize := if elemSize > 4 then 4 else elemSize
  if offset % elemSize = 0 then offset
  else (offset + elemSize) % wordModulus / elemSize * elemSize

/-- What `zudi_layout_get_size` returns: an error, or the size as a signed word. -/
abbrev Status := Except Kerror Int

def asSigned (word : Nat) : Int :=
  if word < 2 ^ 31 then word else word - wordModulus

/-- The index in `layoutElements` of an element without a nested sequence. -/
def descriptorIndex (element : UInt8) : Nat :=
  if element ≥ 200 then element.toNat - 200 + 21
  else if element ≥ 40 then element.toNat - 40 + 13
  else if element ≥ 30 then element.toNat - 30 + 10
  else if element ≥ 20 then element.toNat - 20 + 9
  else element.toNat

/-- `zudi_layout_get_element_size`: the size and the skip count. `getSize` is
`zudi_layout_get_size` without inline elements. -/
def getElementSize (getSize : List UInt8 → Option Status) (element : UInt8)
    (nestedLayout : List UInt8) : Option (Nat × Nat) :=
  if element ≥ 200 then layoutElements[descriptorIndex element]?
  else if element ≥ 50 then
    if element = dlInlineTyped ∨ element = dlMovableTyped then
      (countToEnd nestedLayout).map fun count => (4, 2 + count)
    else if element = dlArray then
      match nestedLayout with
      | [] => none
      | nElements :: curr =>
        match getSize curr with
        | none => none
        | some (.error _) => some (0, 0)
        | some (.ok elemSize) =>
          if elemSize < 0 then some (0, 0)
          else (countToEnd curr).map fun count =>
            (elemSize.toNat * nElements.toNat % wordModulus, 3 + count)
    else some (0, 0)
  else layoutElements[descriptorIndex element]?

/-- The loop of `zudi_layout_get_size`: the sum, and the layout from the place on where it stops.
Each round takes a byte. -/
def sizeLoop (elementSize : UInt8 → List UInt8 → Option (Nat × Nat)) :
    Nat → List UInt8 → Nat → Option (Except Kerror (Nat × List UInt8))
  | _, [], _ => none
  | 0, _, _ => none
  | fuel + 1, curr :: rest, ret =>
    if curr = dlEnd then some (.ok (ret, curr :: rest))
    else
      match elementSize curr rest with
      | none => none
      | some (currElemSize, skipCount) =>
        if currElemSize = 0 ∨ skipCount = 0 then some (.error .invalidFormat)
        else sizeLoop elementSize fuel ((curr :: rest).drop skipCount)
          ((align ret currElemSize + currElemSize) % wordModulus)

/-- `zudi_layout_get_size`, for sequences that are nested less than `depth` deep. -/
def getSize : Nat → List UInt8 → Bool → Option Status
  | 0, _, _ => none
  | depth + 1, layout, inlineElementsAllowed =>
    let loop :=
      match sizeLoop (getElementSize fun nested => getSize depth nested false)
        layout.length layout 0 with
      | none => none
      | some (.error error) => some (.error error)
      | some (.ok (ret, _)) => some (.ok (asSigned (align ret 4)))
    if inlineElementsAllowed then loop
    else
      match hasInlineElements layout with
      | none => none
      | some true => some (.error .invalidFormat)
      | some false => loop

/-- The walk of `zudi_layout_get_size` over a layout. There is room for every nesting in it. -/
def sizeWalk (layout : List UInt8) : Option (Except Kerror (Nat × List UInt8)) :=
  sizeLoop (getElementSize fun nested => getSize layout.length nested false) layout.length layout 0

def zudiLayoutGetElementSize (element : UInt8) (nestedLayout : List UInt8) : Option (Nat × Nat) :=
  getElementSize (fun nested => getSize nestedLayout.length nested false) element nestedLayout

/-- What the marshalling loops have in common: they go from element to element, with an error when
there is no skip count. -/
def marshalLoop : Nat → List UInt8 → Option (Except Kerror (List UInt8))
  | _, [] => none
  | 0, _ => none
  | fuel + 1, curr :: rest =>
    if curr = dlEnd then some (.ok (curr :: rest))
    else
      match zudiLayoutGetElementSize curr rest with
      | none => none
      | some (_, skipCount) =>
        if skipCount = 0 then some (.error .invalidFormat)
        else marshalLoop fuel ((curr :: rest).drop skipCount)

/-- The elements with a nested sequence, as `getLayoutNElements` counts them. -/
def opensNest (elem : UInt8) : Bool :=
  elem = dlMovableTyped || elem = dlInlineTyped || elem = dlArray

def nElementsLoop (inlineElementsAllowed : Bool) :
    Nat → Nat → List UInt8 → Option (Except Kerror Nat)
  | _, _, [] => none
  | nest, ret, curr :: rest =>
    if curr = dlEnd ∧ nest = 0 then some (.ok ret)
    else if !inlineElementsAllowed && isInlineElement curr then some (.error .nonConformant)
    else
      let nest := if opensNest curr then nest + 1 else nest
      let nest := if curr = dlEnd then nest - 1 else nest
      nElementsLoop inlineElementsAllowed nest (ret + 1) rest

def getLayoutNElements (lay : List UInt8) (inlineElementsAllowed : Bool) :
    Option (Except Kerror Nat) :=
  nElementsLoop inlineElementsAllowed 0 1 lay

inductive Element
  | simple (code : UInt8) (h : code ∈ simpleCodes)
  | buf (first second third : UInt8)
  | array (count : UInt8) (nested : List Element)
  | inlineTyped (nested : List Element)
  | movableTyped (nested : List Element)

mutual

def Element.bytes : Element → List UInt8
  | .simple code _ => [code]
  | .buf first second third => [dlBuf, first, second, third]
  | .array count nested => dlArray :: count :: (sequenceBytes nested ++ [dlEnd])
  | .inlineTyped nested => dlInlineTyped :: (sequenceBytes nested ++ [dlEnd])
  | .movableTyped nested => dlMovableTyped :: (sequenceBytes nested ++ [dlEnd])

/-- The bytes of a sequence before its `UDI_DL_END`. -/
def sequenceBytes : List Element → List UInt8
  | [] => []
  | element :: rest => element.bytes ++ sequenceBytes rest

end

mutual

def Element.HasInline : Element → Prop
  | .simple code _ => isInlineElement code = true
  | .buf _ _ _ => False
  | .array _ nested => SequenceHasInline nested
  | .inlineTyped _ => True
  | .movableTyped _ => True

def SequenceHasInline : List Element → Prop
  | [] => False
  | element :: rest => element.HasInline ∨ SequenceHasInline rest

end

def inMemory (layout : List Element) (tail : List UInt8) : List UInt8 :=
  sequenceBytes layout ++ dlEnd :: tail

structure Agree (layout : List Element) : Prop where
  skips : ∀ front element back tail, layout = front ++ element :: back →
    ∃ code nested size, element.bytes ++ inMemory back tail = code :: nested ∧
      zudiLayoutGetElementSize code nested = some (size, element.bytes.length)
  size_stops : ∀ tail, ∃ ret, sizeWalk (inMemory layout tail) = some (.ok (ret, dlEnd :: tail))
  marshal_stops : ∀ tail, marshalLoop (inMemory layout tail).length (inMemory layout tail) =
    some (.ok (dlEnd :: tail))
  counts : ∀ tail, getLayoutNElements (inMemory layout tail) true =
    some (.ok ((sequenceBytes layout).length + 1))
  inline : ∀ tail, ∃ found, hasInlineElements (inMemory layout tail) = some found ∧
    (found = true ↔ SequenceHasInline layout)

def roundUp (n alignment : Nat) : Nat :=
  (n + (alignment - 1)) / alignment * alignment

def simpleSize (code : UInt8) : Nat :=
  (layoutElements[descriptorIndex code]?.getD (0, 0)).1

def Element.ownSize : Element → Nat
  | .simple code _ => simpleSize code
  | _ => 4

/-- The size of the elements after `ret` bytes, each at its alignment. -/
def sizeFrom : Nat → List Element → Nat
  | ret, [] => ret
  | ret, element :: rest => sizeFrom (roundUp ret element.ownSize + element.ownSize) rest

def flatSize (nested : List Element) : Nat :=
  roundUp (sizeFrom 0 nested) 4

/-- No byte of a nested sequence is zero. In an array, none has the value of an inline element
either, and the size is not negative as a signed word. -/
def Element.SkipsRight : Element → Prop
  | .simple _ _ => True
  | .buf _ _ _ => True
  | .array _ nested =>
    dlEnd ∉ sequenceBytes nested ∧ (∀ byte ∈ sequenceBytes nested, isInlineElement byte = false) ∧
      flatSize nested % wordModulus < 2 ^ 31
  | .inlineTyped nested => dlEnd ∉ sequenceBytes nested
  | .movableTyped nested => dlEnd ∉ sequenceBytes nested

def Element.SizeRight : Element → Prop
  | .array count nested => flatSize nested * count.toNat % wordModulus ≠ 0
  | _ => True

/-- With the bytes of elements with a nested sequence as opening brackets, and zero as the closing
one, no more is closed than is open, and in the end nothing is open. -/
def Balanced : Nat → List UInt8 → Prop
  | nest, [] => nest = 0
  | nest, byte :: rest =>
    if byte = dlEnd then 0 < nest ∧ Balanced (nest - 1) rest
    else if opensNest byte then Balanced (nest + 1) rest
    else Balanced nest rest

def ShowsInline (bytes : List UInt8) : Prop :=
  ∃ byte ∈ bytes.takeWhile (· ≠ dlEnd), isInlineElement byte = true

structure Plain (layout : List Element) : Prop where
  skips : ∀ element ∈ layout, element.SkipsRight
  sizes : ∀ element ∈ layout, element.SizeRight
  balanced : Balanced 0 (sequenceBytes layout)
  shows : SequenceHasInline layout → ShowsInline (sequenceBytes layout)
  hides : ¬ SequenceHasInline layout → ¬ ShowsInline (sequenceBytes layout)

section

variable {bytes tail : List UInt8} {nest ret : Nat}

theorem hasInlineElements_eq (bytes tail : List UInt8) :
    ∃ found, hasInlineElements (bytes ++ dlEnd :: tail) = some found ∧
      (found = true ↔ ShowsInline bytes) := by
  induction bytes with
  | nil => exact ⟨false, by simp [hasInlineElements], by simp [ShowsInline]⟩
  | cons byte bytes ih =>
    rw [cons_append, hasInlineElements]
    split
    · next hend =>
      refine ⟨false, rfl, ?_⟩
      simp [ShowsInline, hend]
    next hend =>
    split
    · next hinline =>
      refine ⟨true, rfl, ?_⟩
      simp [ShowsInline, hend, hinline]
    · next hinline =>
      obtain ⟨found, heq, hfound⟩ := ih
      refine ⟨found, heq, hfound.trans ?_⟩
      simp [ShowsInline, hend, hinline]

theorem countToEnd_eq (bytes tail : List UInt8) :
    countToEnd (bytes ++ dlEnd :: tail) = some (bytes.takeWhile (· ≠ dlEnd)).length := by
  induction bytes with
  | nil => simp [countToEnd]
  | cons byte bytes ih =>
    rw [cons_append, countToEnd, ih]
    rcases eq_or_ne byte dlEnd with hend | hend
    · simp [hend]
    · simp [hend]

theorem length_takeWhile_eq_iff :
    (bytes.takeWhile (· ≠ dlEnd)).length = bytes.length ↔ dlEnd ∉ bytes := by
  induction bytes with
  | nil => simp
  | cons byte bytes ih =>
    rcases eq_or_ne byte dlEnd with rfl | hend
    · simp
    · rw [takeWhile_cons_of_pos (by simpa using hend)]
      simp only [length_cons, add_right_cancel_iff, ih, mem_cons, hend.symm, false_or]

theorem nElementsLoop_ge {count : Nat} {lay : List UInt8}
    (h : nElementsLoop true nest ret lay = some (.ok count)) : ret ≤ count := by
  induction lay generalizing nest ret with
  | nil => cases h
  | cons curr rest ih =>
    rw [nElementsLoop] at h
    split at h
    · obtain rfl := Except.ok.inj (some.inj h)
      exact le_rfl
    · have := ih h
      omega

theorem nElementsLoop_eq_iff :
    nElementsLoop true nest ret (bytes ++ dlEnd :: tail) = some (.ok (ret + bytes.length)) ↔
      Balanced nest bytes := by
  induction bytes generalizing nest ret with
  | nil =>
    rw [nil_append, nElementsLoop, Balanced]
    rcases eq_zero_or_pos nest with rfl | hpos
    · simp
    refine iff_of_false ?_ hpos.ne'
    rw [if_neg (by omega)]
    intro h
    have := nElementsLoop_ge h
    simp at this
  | cons byte bytes ih =>
    rw [cons_append, nElementsLoop, Balanced, length_cons]
    have hsucc : ret + (bytes.length + 1) = ret + 1 + bytes.length := by omega
    rcases eq_or_ne byte dlEnd with rfl | hend
    · have hopens : opensNest dlEnd = false := by decide
      rcases eq_zero_or_pos nest with rfl | hpos
      · simp
      · rw [if_neg (by omega), hsucc]
        simp only [Bool.not_true, Bool.false_and, Bool.false_eq_true, if_false, hopens, if_true,
          hpos, true_and]
        exact ih
    · rw [if_neg hend, if_neg (fun h => hend h.1), hsucc]
      simp only [Bool.not_true, Bool.false_and, Bool.false_eq_true, if_false, hend]
      split
      · exact ih
      · exact ih

end

section

variable {nested : List Element}

def Element.IsFlat : Element → Prop
  | .simple _ _ => True
  | .buf _ _ _ => True
  | _ => False

theorem simpleCodes_spec : ∀ code ∈ simpleCodes, code ≠ dlEnd ∧ (code ≥ 200 ∨ ¬ code ≥ 50) ∧
    layoutElements[descriptorIndex code]? = some (simpleSize code, 1) ∧
    (simpleSize code = 1 ∨ simpleSize code = 2 ∨ simpleSize code = 4) := by
  intro code h
  fin_cases h <;> decide

theorem getElementSize_simple {code : UInt8} (h : code ∈ simpleCodes)
    (getSize : List UInt8 → Option Status) (rest : List UInt8) :
    getElementSize getSize code rest = some (simpleSize code, 1) := by
  obtain ⟨-, hrange, htable, -⟩ := simpleCodes_spec code h
  unfold getElementSize
  rcases hrange with hphysio | hlow
  · rw [if_pos hphysio, htable]
  · have hphysio : ¬ code ≥ 200 := by
      intro hge
      exact hlow (UInt8.le_trans (by decide : (50 : UInt8) ≤ 200) hge)
    rw [if_neg hphysio, if_neg hlow, htable]

theorem getElementSize_buf (getSize : List UInt8 → Option Status) (rest : List UInt8) :
    getElementSize getSize dlBuf rest = some (4, 4) :=
  rfl

theorem exists_bytes_eq (element : Element) :
    ∃ code body, element.bytes = code :: body ∧ code ≠ dlEnd := by
  cases element with
  | simple code h => exact ⟨code, [], by rw [Element.bytes], (simpleCodes_spec code h).1⟩
  | buf first second third => exact ⟨_, _, by rw [Element.bytes], by decide⟩
  | array count nested => exact ⟨_, _, by rw [Element.bytes], by decide⟩
  | inlineTyped nested => exact ⟨_, _, by rw [Element.bytes], by decide⟩
  | movableTyped nested => exact ⟨_, _, by rw [Element.bytes], by decide⟩

theorem mem_sequenceBytes {element : Element} {byte : UInt8} (hmem : element ∈ nested)
    (hbyte : byte ∈ element.bytes) : byte ∈ sequenceBytes nested := by
  induction nested with
  | nil => cases hmem
  | cons first nested ih =>
    rw [sequenceBytes, mem_append]
    rcases mem_cons.mp hmem with rfl | hmem
    · exact .inl hbyte
    · exact .inr (ih hmem)

theorem isFlat_of_not_mem (h : dlEnd ∉ sequenceBytes nested) : ∀ element ∈ nested,
    element.IsFlat := by
  intro element hmem
  cases element with
  | simple code hcode => trivial
  | buf first second third => trivial
  | array count inner => exact absurd (mem_sequenceBytes hmem (by simp [Element.bytes])) h
  | inlineTyped inner => exact absurd (mem_sequenceBytes hmem (by simp [Element.bytes])) h
  | movableTyped inner => exact absurd (mem_sequenceBytes hmem (by simp [Element.bytes])) h

theorem ownSize_cases (element : Element) :
    element.ownSize = 1 ∨ element.ownSize = 2 ∨ element.ownSize = 4 := by
  cases element with
  | simple code h => exact (simpleCodes_spec code h).2.2.2
  | buf first second third => exact .inr (.inr rfl)
  | array count inner => exact .inr (.inr rfl)
  | inlineTyped inner => exact .inr (.inr rfl)
  | movableTyped inner => exact .inr (.inr rfl)

theorem align_mod {size : Nat} (h : size = 1 ∨ size = 2 ∨ size = 4) (n : Nat) :
    align (n % wordModulus) size % wordModulus = roundUp n size % wordModulus := by
  unfold align roundUp wordModulus
  rcases h with rfl | rfl | rfl
  · simp [Nat.mod_one]
  · simp only [Nat.reduceGT, if_false]
    split <;> omega
  · simp only [gt_iff_lt, lt_self_iff_false, if_false]
    split <;> omega

theorem align_lt (n : Nat) : align (n % wordModulus) 4 < wordModulus := by
  unfold align wordModulus
  simp only [gt_iff_lt, lt_self_iff_false, if_false]
  split <;> omega

theorem sizeLoop_flat (rest : List UInt8) (getSize : List UInt8 → Option Status) {fuel : Nat}
    (hflat : ∀ element ∈ nested, element.IsFlat) (hfuel : nested.length < fuel) (n : Nat) :
    sizeLoop (getElementSize getSize) fuel (sequenceBytes nested ++ dlEnd :: rest)
        (n % wordModulus) = some (.ok (sizeFrom n nested % wordModulus, dlEnd :: rest)) := by
  induction nested generalizing fuel n with
  | nil =>
    obtain ⟨fuel, rfl⟩ := Nat.exists_eq_succ_of_ne_zero (ne_zero_of_lt hfuel)
    rfl
  | cons element nested ih =>
    obtain ⟨fuel, rfl⟩ := Nat.exists_eq_succ_of_ne_zero (ne_zero_of_lt hfuel)
    have hrest : ∀ other ∈ nested, other.IsFlat := fun other hother => hflat other (by simp [hother])
    rw [length_cons, Nat.succ_eq_add_one, add_lt_add_iff_right] at hfuel
    -- the sum wraps around as a whole
    have hsum : (align (n % wordModulus) element.ownSize + element.ownSize) % wordModulus =
        (roundUp n element.ownSize + element.ownSize) % wordModulus := by
      rw [Nat.add_mod, align_mod (ownSize_cases element), ← Nat.add_mod]
    cases element with
    | simple code h =>
      obtain ⟨hend, -, -, hsize⟩ := simpleCodes_spec code h
      rw [sequenceBytes, Element.bytes, singleton_append, cons_append, sizeLoop,
        if_neg hend, getElementSize_simple h]
      dsimp only
      rw [if_neg (by omega), drop_succ_cons, drop_zero]
      have hsize' : (Element.simple code h).ownSize = simpleSize code := rfl
      rw [hsize'] at hsum
      rw [hsum, ih hrest hfuel]
      rfl
    | buf first second third =>
      have hsize' : (Element.buf first second third).ownSize = 4 := rfl
      rw [hsize'] at hsum
      rw [sequenceBytes, Element.bytes]
      simp only [cons_append, nil_append]
      rw [sizeLoop, if_neg (by decide), getElementSize_buf]
      simp only [drop_succ_cons, drop_zero]
      rw [hsum, ih hrest hfuel]
      rfl
    | array count inner => exact (hflat _ mem_cons_self).elim
    | inlineTyped inner => exact (hflat _ mem_cons_self).elim
    | movableTyped inner => exact (hflat _ mem_cons_self).elim

theorem length_le_length_sequenceBytes (nested : List Element) :
    nested.length ≤ (sequenceBytes nested).length := by
  induction nested with
  | nil => exact Nat.zero_le _
  | cons element nested ih =>
    obtain ⟨code, body, hbytes, -⟩ := exists_bytes_eq element
    rw [sequenceBytes, hbytes]
    simp only [length_cons, length_append]
    omega

theorem getSize_flat (depth : Nat) (hend : dlEnd ∉ sequenceBytes nested) (rest : List UInt8) :
    (ShowsInline (sequenceBytes nested) ∧
      getSize (depth + 1) (sequenceBytes nested ++ dlEnd :: rest) false =
        some (.error .invalidFormat)) ∨ (¬ ShowsInline (sequenceBytes nested) ∧
      getSize (depth + 1) (sequenceBytes nested ++ dlEnd :: rest) false =
        some (.ok (asSigned (flatSize nested % wordModulus)))) := by
  obtain ⟨found, hfound, hshows⟩ := hasInlineElements_eq (sequenceBytes nested) rest
  rw [getSize]
  simp only [Bool.false_eq_true, if_false]
  rw [hfound]
  cases found with
  | true => exact .inl ⟨hshows.mp rfl, rfl⟩
  | false =>
    refine .inr ⟨fun h => absurd (hshows.mpr h) Bool.false_ne_true, ?_⟩
    have hfuel : nested.length < (sequenceBytes nested ++ dlEnd :: rest).length := by
      have := length_le_length_sequenceBytes nested
      simp only [length_append, length_cons]
      omega
    have hloop := sizeLoop_flat rest (fun inner => getSize depth inner false)
      (isFlat_of_not_mem hend) hfuel 0
    rw [Nat.zero_mod] at hloop
    rw [hloop]
    dsimp only
    have halign : align (sizeFrom 0 nested % wordModulus) 4 = flatSize nested % wordModulus := by
      rw [flatSize, ← align_mod (.inr (.inr rfl)), Nat.mod_eq_of_lt (align_lt _)]
    rw [halign]

end

section

variable {layout : List Element} {element : Element}

def Element.size : Element → Nat
  | .array count nested => flatSize nested * count.toNat % wordModulus
  | element => element.ownSize

theorem size_ne_zero_iff (element : Element) : element.size ≠ 0 ↔ element.SizeRight := by
  cases element with
  | simple code h =>
    refine iff_of_true ?_ trivial
    have := ownSize_cases (.simple code h)
    rw [Element.size]
    · omega
    · intro count nested heq
      cases heq
  | buf first second third => exact iff_of_true (by simp [Element.size, Element.ownSize]) trivial
  | array count nested => exact Iff.rfl
  | inlineTyped nested => exact iff_of_true (by simp [Element.size, Element.ownSize]) trivial
  | movableTyped nested => exact iff_of_true (by simp [Element.size, Element.ownSize]) trivial

theorem getElementSize_typed {code : UInt8} (hcode : code = dlInlineTyped ∨ code = dlMovableTyped)
    (getSize : List UInt8 → Option Status) (bytes rest : List UInt8) :
    getElementSize getSize code (bytes ++ dlEnd :: rest) =
      some (4, 2 + (bytes.takeWhile (· ≠ dlEnd)).length) := by
  unfold getElementSize
  have hphysio : ¬ code ≥ 200 := by rcases hcode with rfl | rfl <;> decide
  have hnested : code ≥ 50 := by rcases hcode with rfl | rfl <;> decide
  rw [if_neg hphysio, if_pos hnested, if_pos hcode, countToEnd_eq]
  rfl

theorem getElementSize_array (getSize : List UInt8 → Option Status) (count : UInt8)
    (bytes rest : List UInt8) :
    getElementSize getSize dlArray (count :: (bytes ++ dlEnd :: rest)) =
      match getSize (bytes ++ dlEnd :: rest) with
      | none => none
      | some (.error _) => some (0, 0)
      | some (.ok elemSize) =>
        if elemSize < 0 then some (0, 0)
        else some (elemSize.toNat * count.toNat % wordModulus,
          3 + (bytes.takeWhile (· ≠ dlEnd)).length) := by
  unfold getElementSize
  rw [if_neg (by decide), if_pos (by decide), if_neg (by decide), if_pos rfl]
  simp [countToEnd_eq]

theorem asSigned_neg_iff {word : Nat} (h : word < wordModulus) : asSigned word < 0 ↔
    2 ^ 31 ≤ word := by
  unfold asSigned
  split <;> omega

theorem not_showsInline_iff {bytes : List UInt8} (hend : dlEnd ∉ bytes) :
    ¬ ShowsInline bytes ↔ ∀ byte ∈ bytes, isInlineElement byte = false := by
  have hself : bytes.takeWhile (· ≠ dlEnd) = bytes := by
    refine takeWhile_eq_self_iff.mpr fun byte hbyte => ?_
    simp only [ne_eq, decide_not, Bool.not_eq_eq_eq_not, Bool.not_true, decide_eq_false_iff_not]
    exact fun heq => hend (heq ▸ hbyte)
  rw [ShowsInline, hself]
  simp

theorem getElementSize_array_eq (depth : Nat) {nested : List Element} (count : UInt8)
    (h : (Element.array count nested).SkipsRight) (rest : List UInt8) :
    getElementSize (fun nested => getSize (depth + 1) nested false) dlArray
        (count :: (sequenceBytes nested ++ dlEnd :: rest)) =
      some ((Element.array count nested).size, 3 + (sequenceBytes nested).length) := by
  obtain ⟨hend, hinline, hsize⟩ := h
  rw [getElementSize_array]
  rcases getSize_flat depth hend rest with ⟨hshows, -⟩ | ⟨-, heq⟩
  · exact absurd hshows ((not_showsInline_iff hend).mpr hinline)
  have hlt : flatSize nested % wordModulus < wordModulus := Nat.mod_lt _ (by decide)
  have hsigned : asSigned (flatSize nested % wordModulus) = (flatSize nested % wordModulus : Nat) :=
    if_pos hsize
  rw [heq]
  dsimp only
  rw [if_neg (by rw [asSigned_neg_iff hlt]; omega), hsigned, length_takeWhile_eq_iff.mpr hend,
    Int.toNat_natCast, Nat.mod_mul_mod]
  rfl

theorem skipsRight_of_array (depth : Nat) {nested : List Element} {count : UInt8} {size : Nat}
    {rest : List UInt8}
    (h : getElementSize (fun nested => getSize (depth + 1) nested false) dlArray
        (count :: (sequenceBytes nested ++ dlEnd :: rest)) =
      some (size, 3 + (sequenceBytes nested).length)) :
    (Element.array count nested).SkipsRight := by
  rw [getElementSize_array] at h
  split at h
  · cases h
  · have hskip := congrArg Prod.snd (some.inj h)
    omega
  next elemSize hsome =>
  split at h
  · have hskip := congrArg Prod.snd (some.inj h)
    omega
  next hnonneg =>
  have hskip := congrArg Prod.snd (some.inj h)
  have hend : dlEnd ∉ sequenceBytes nested :=
    length_takeWhile_eq_iff.mp (add_left_cancel hskip)
  rcases getSize_flat depth hend rest with ⟨-, heq⟩ | ⟨hshows, heq⟩
  · rw [heq] at hsome
    cases hsome
  rw [heq] at hsome
  obtain rfl := Except.ok.inj (some.inj hsome)
  have hlt : flatSize nested % wordModulus < wordModulus := Nat.mod_lt _ (by decide)
  rw [asSigned_neg_iff hlt] at hnonneg
  exact ⟨hend, (not_showsInline_iff hend).mp hshows, not_le.mp hnonneg⟩

theorem getElementSize_eq (depth : Nat) (h : element.SkipsRight) (rest : List UInt8)
    {code : UInt8} {body : List UInt8} (hbytes : element.bytes = code :: body) :
    getElementSize (fun nested => getSize (depth + 1) nested false) code (body ++ rest) =
      some (element.size, element.bytes.length) := by
  cases element with
  | simple code' hcode =>
    obtain ⟨rfl, rfl⟩ := cons.inj hbytes
    exact getElementSize_simple hcode _ _
  | buf first second third =>
    obtain ⟨rfl, rfl⟩ := cons.inj hbytes
    exact getElementSize_buf _ _
  | inlineTyped nested =>
    rw [Element.bytes] at hbytes ⊢
    obtain ⟨rfl, rfl⟩ := cons.inj hbytes
    rw [append_assoc, singleton_append, getElementSize_typed (.inl rfl),
      length_takeWhile_eq_iff.mpr h, length_cons, length_append, length_singleton]
    exact congrArg some (Prod.ext rfl (by dsimp only; omega))
  | movableTyped nested =>
    rw [Element.bytes] at hbytes ⊢
    obtain ⟨rfl, rfl⟩ := cons.inj hbytes
    rw [append_assoc, singleton_append, getElementSize_typed (.inr rfl),
      length_takeWhile_eq_iff.mpr h, length_cons, length_append, length_singleton]
    exact congrArg some (Prod.ext rfl (by dsimp only; omega))
  | array count nested =>
    rw [Element.bytes] at hbytes ⊢
    obtain ⟨rfl, rfl⟩ := cons.inj hbytes
    rw [cons_append, append_assoc, singleton_append,
      getElementSize_array_eq depth count h]
    refine congrArg some (Prod.ext rfl ?_)
    simp only [length_cons, length_append, length_nil]
    omega

theorem getElementSize_iff (depth : Nat) (element : Element) (rest : List UInt8) {code : UInt8}
    {body : List UInt8} (hbytes : element.bytes = code :: body) :
    (∃ size, getElementSize (fun nested => getSize (depth + 1) nested false) code (body ++ rest) =
        some (size, element.bytes.length)) ↔ element.SkipsRight := by
  constructor
  · rintro ⟨size, h⟩
    cases element with
    | simple code' hcode => trivial
    | buf first second third => trivial
    | inlineTyped nested =>
      rw [Element.bytes] at hbytes h
      obtain ⟨rfl, rfl⟩ := cons.inj hbytes
      rw [append_assoc, singleton_append, getElementSize_typed (.inl rfl)] at h
      have hskip := congrArg Prod.snd (some.inj h)
      refine length_takeWhile_eq_iff.mp ?_
      simp only [length_cons, length_append, length_nil] at hskip
      omega
    | movableTyped nested =>
      rw [Element.bytes] at hbytes h
      obtain ⟨rfl, rfl⟩ := cons.inj hbytes
      rw [append_assoc, singleton_append, getElementSize_typed (.inr rfl)] at h
      have hskip := congrArg Prod.snd (some.inj h)
      refine length_takeWhile_eq_iff.mp ?_
      simp only [length_cons, length_append, length_nil] at hskip
      omega
    | array count nested =>
      rw [Element.bytes] at hbytes h
      obtain ⟨rfl, rfl⟩ := cons.inj hbytes
      rw [cons_append, append_assoc, singleton_append] at h
      have hlength : (dlArray :: count :: (sequenceBytes nested ++ [dlEnd])).length =
          3 + (sequenceBytes nested).length := by
        simp only [length_cons, length_append, length_nil]
        omega
      rw [hlength] at h
      exact skipsRight_of_array depth h
  · intro h
    exact ⟨element.size, getElementSize_eq depth h rest hbytes⟩

end

section

variable {layout : List Element}

theorem inMemory_cons (element : Element) (layout : List Element) (tail : List UInt8) :
    inMemory (element :: layout) tail = element.bytes ++ inMemory layout tail := by
  rw [inMemory, sequenceBytes, append_assoc]
  rfl

theorem exists_length_eq (body : List UInt8) (layout : List Element) (tail : List UInt8) :
    ∃ depth, (body ++ inMemory layout tail).length = depth + 1 := by
  refine ⟨body.length + (sequenceBytes layout).length + tail.length, ?_⟩
  simp only [inMemory, length_append, length_cons]
  omega

theorem length_lt_length_inMemory (layout : List Element) (tail : List UInt8) :
    layout.length < (inMemory layout tail).length := by
  have := length_le_length_sequenceBytes layout
  simp only [inMemory, length_append, length_cons]
  omega

theorem skips_iff : (∀ front element back tail, layout = front ++ element :: back →
      ∃ code nested size, element.bytes ++ inMemory back tail = code :: nested ∧
        zudiLayoutGetElementSize code nested = some (size, element.bytes.length)) ↔
      ∀ element ∈ layout, element.SkipsRight := by
  constructor
  · intro h element hmem
    obtain ⟨front, back, rfl⟩ := append_of_mem hmem
    obtain ⟨code, nested, size, hbytes, hsize⟩ := h front element back [] rfl
    obtain ⟨code', body, hbytes', -⟩ := exists_bytes_eq element
    rw [hbytes', cons_append] at hbytes
    obtain ⟨rfl, rfl⟩ := cons.inj hbytes
    obtain ⟨depth, hdepth⟩ := exists_length_eq body back []
    rw [zudiLayoutGetElementSize, hdepth] at hsize
    exact (getElementSize_iff depth element _ hbytes').mp ⟨size, hsize⟩
  · rintro h front element back tail rfl
    obtain ⟨code, body, hbytes, -⟩ := exists_bytes_eq element
    obtain ⟨depth, hdepth⟩ := exists_length_eq body back tail
    refine ⟨code, body ++ inMemory back tail, element.size, ?_, ?_⟩
    · rw [hbytes]
      rfl
    · rw [zudiLayoutGetElementSize, hdepth]
      exact getElementSize_eq depth (h element (by simp)) _ hbytes

theorem inMemory_head (element : Element) (layout : List Element) (tail : List UInt8) :
    ∃ code body, element.bytes = code :: body ∧ code ≠ dlEnd ∧ element.bytes.length ≠ 0 ∧
      inMemory (element :: layout) tail = code :: (body ++ inMemory layout tail) ∧
      (code :: (body ++ inMemory layout tail)).drop element.bytes.length =
        inMemory layout tail := by
  obtain ⟨code, body, hbytes, hcode⟩ := exists_bytes_eq element
  have hmemory : inMemory (element :: layout) tail = code :: (body ++ inMemory layout tail) := by
    rw [inMemory_cons, hbytes]
    rfl
  refine ⟨code, body, hbytes, hcode, by simp [hbytes], hmemory, ?_⟩
  rw [← hmemory, inMemory_cons, drop_left]

theorem sizeLoop_iff (depth : Nat) (hskips : ∀ element ∈ layout, element.SkipsRight) {fuel : Nat}
    (hfuel : layout.length < fuel) (ret : Nat) (tail : List UInt8) :
    (∃ ret', sizeLoop (getElementSize fun nested => getSize (depth + 1) nested false) fuel
        (inMemory layout tail) ret = some (.ok (ret', dlEnd :: tail))) ↔
      ∀ element ∈ layout, element.SizeRight := by
  induction layout generalizing fuel ret with
  | nil =>
    obtain ⟨fuel, rfl⟩ := Nat.exists_eq_succ_of_ne_zero (ne_zero_of_lt hfuel)
    exact iff_of_true ⟨ret, rfl⟩ (by simp)
  | cons element layout ih =>
    obtain ⟨fuel, rfl⟩ := Nat.exists_eq_succ_of_ne_zero (ne_zero_of_lt hfuel)
    rw [length_cons, Nat.succ_eq_add_one, add_lt_add_iff_right] at hfuel
    obtain ⟨code, body, hbytes, hcode, hskip, hmemory, hdrop⟩ := inMemory_head element layout tail
    rw [hmemory, sizeLoop, if_neg hcode,
      getElementSize_eq depth (hskips element (by simp)) _ hbytes, forall_mem_cons,
      ← size_ne_zero_iff]
    dsimp only
    split
    · next hzero =>
      refine iff_of_false ?_ fun h => h.1 (hzero.resolve_right hskip)
      rintro ⟨ret', heq⟩
      cases heq
    · next hne =>
      rw [hdrop, ih (fun other hother => hskips other (by simp [hother])) hfuel]
      exact (and_iff_right (not_or.mp hne).1).symm

theorem marshalLoop_eq (hskips : ∀ element ∈ layout, element.SkipsRight) {fuel : Nat}
    (hfuel : layout.length < fuel) (tail : List UInt8) :
    marshalLoop fuel (inMemory layout tail) = some (.ok (dlEnd :: tail)) := by
  induction layout generalizing fuel with
  | nil =>
    obtain ⟨fuel, rfl⟩ := Nat.exists_eq_succ_of_ne_zero (ne_zero_of_lt hfuel)
    rfl
  | cons element layout ih =>
    obtain ⟨fuel, rfl⟩ := Nat.exists_eq_succ_of_ne_zero (ne_zero_of_lt hfuel)
    rw [length_cons, Nat.succ_eq_add_one, add_lt_add_iff_right] at hfuel
    obtain ⟨code, body, hbytes, hcode, hskip, hmemory, hdrop⟩ := inMemory_head element layout tail
    obtain ⟨depth, hdepth⟩ := exists_length_eq body layout tail
    rw [hmemory, marshalLoop, if_neg hcode, zudiLayoutGetElementSize, hdepth,
      getElementSize_eq depth (hskips element (by simp)) _ hbytes]
    dsimp only
    rw [if_neg hskip, hdrop]
    exact ih (fun other hother => hskips other (by simp [hother])) hfuel

/-- The walkers agree on a layout exactly when its nested sequences have no zero bytes, its arrays
are not empty and have no bytes with the values of inline elements, and its parameter and count
bytes neither unbalance the nesting nor hide or feign an inline element. -/
theorem agree_iff_plain (layout : List Element) : Agree layout ↔ Plain layout := by
  have hcounts : ∀ tail, getLayoutNElements (inMemory layout tail) true =
      some (.ok ((sequenceBytes layout).length + 1)) ↔ Balanced 0 (sequenceBytes layout) := by
    intro tail
    rw [getLayoutNElements, inMemory, add_comm]
    exact nElementsLoop_eq_iff
  constructor
  · intro h
    have hskips := skips_iff.mp h.skips
    obtain ⟨found, hfound, hshows⟩ := hasInlineElements_eq (sequenceBytes layout) []
    obtain ⟨found', hfound', hinline⟩ := h.inline []
    obtain rfl := some.inj (hfound.symm.trans hfound')
    refine ⟨hskips, ?_, (hcounts []).mp (h.counts []), fun hhas => ?_, fun hnot hsome => ?_⟩
    · obtain ⟨depth, hdepth⟩ := exists_length_eq [] layout []
      have hstops := h.size_stops []
      rw [sizeWalk, show (inMemory layout []).length = depth + 1 from hdepth] at hstops
      refine (sizeLoop_iff depth hskips ?_ 0 []).mp hstops
      rw [← hdepth]
      exact length_lt_length_inMemory layout []
    · exact hshows.mp (hinline.mpr hhas)
    · exact hnot (hinline.mp (hshows.mpr hsome))
  · intro h
    refine ⟨skips_iff.mpr h.skips, fun tail => ?_, fun tail => ?_,
      fun tail => (hcounts tail).mpr h.balanced, fun tail => ?_⟩
    · obtain ⟨depth, hdepth⟩ := exists_length_eq [] layout tail
      rw [sizeWalk, show (inMemory layout tail).length = depth + 1 from hdepth]
      refine (sizeLoop_iff depth h.skips ?_ 0 tail).mpr h.sizes
      rw [← hdepth]
      exact length_lt_length_inMemory layout tail
    · exact marshalLoop_eq h.skips (length_lt_length_inMemory layout tail) tail
    · obtain ⟨found, hfound, hshows⟩ := hasInlineElements_eq (sequenceBytes layout) tail
      exact ⟨found, hfound, hshows.trans ⟨fun hsome => not_not.mp fun hnot => h.hides hnot hsome,
        h.shows⟩⟩

def zeroParameter : List Element :=
  [.buf 0 1 1]

theorem zeroParameter_not_agree : ¬ ∀ layout, Agree layout := by
  intro hclaim
  have hcounts := (hclaim zeroParameter).counts []
  have heq := Except.ok.inj (some.inj hcounts)
  simp [zeroParameter, sequenceBytes, Element.bytes] at heq

end

end Zambesii.ChannelLayout
