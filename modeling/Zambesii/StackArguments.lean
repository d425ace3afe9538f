import Mathlib.Algebra.BigOperators.Group.List.Basic
import Zambesii.ChannelSend

/-!
`marshalStackArguments`, with the argument words that it takes and where it stores them, against
the offsets of `zudi_layout_get_size`.
-/

namespace Zambesii.StackArguments

open ChannelLayout KernelTypes List Nat Option
open ChannelSend (Item Walk align_def endFrom errorInvalidFormat errorUnsupported
  layoutItems zudiLayoutGetSize)

structure Store where
  first : Nat
  nBytes : Nat
  value : UInt32
deriving DecidableEq

abbrev Arguments := Nat → UInt32

structure Outcome where
  status : Int
  consumed : Nat
  stores : List Store
deriving DecidableEq

/-- The cases of the `switch`: where each `va_arg` is stored, from the place of the element on, and
in how many bytes. -/
def slotsOf : Nat → Option (List (Nat × Nat))
  | 1 => some [(0, 1)]
  | 2 => some [(0, 2)]
  | 4 => some [(0, 4)]
  | 8 => some [(0, 4), (4, 4)]
  | 16 => some [(0, 4), (4, 4), (8, 4), (12, 4)]
  | _ => none

def storeSlots (dest : Nat) (args : Arguments) : Nat → List (Nat × Nat) → List Store
  | _, [] => []
  | next, (within, nBytes) :: slots =>
    ⟨(dest + within) % wordModulus, nBytes, args next⟩ :: storeSlots dest args (next + 1) slots

/-- The loop of `marshalStackArguments`; `next` counts the arguments that are taken. -/
def stackLoop (dest : Nat) (args : Arguments) : Nat → List UInt8 → Nat → Nat → Option Outcome
  | _, [], _, _ => none
  | 0, _, _, _ => none
  | fuel + 1, curr :: rest, offset, next =>
    if curr = dlEnd then some ⟨0, next, []⟩
    else
      match zudiLayoutGetElementSize curr rest with
      | none => none
      | some (elemSize, skipCount) =>
        if skipCount = 0 then some ⟨errorInvalidFormat, next, []⟩
        else if elemSize > 16 then some ⟨errorUnsupported, next, []⟩
        else
          let offset := align offset elemSize
          match slotsOf elemSize with
          | none => some ⟨errorUnsupported, next, []⟩
          | some slots =>
            (stackLoop dest args fuel ((curr :: rest).drop skipCount)
                ((offset + elemSize) % wordModulus) (next + slots.length)).map fun outcome =>
              { outcome with
                stores := storeSlots (dest + offset) args next slots ++ outcome.stores }

def marshalStackArguments (dest : Nat) (args : Arguments) (layout : List UInt8) : Option Outcome :=
  stackLoop dest args layout.length layout 0 0

def Supported (item : Item) : Prop :=
  item.size ∈ [1, 2, 4, 8, 16]

instance : DecidablePred Supported := fun item => inferInstanceAs (Decidable (item.size ∈ _))

def elementsOf (layout : List UInt8) : List Item :=
  (layoutItems layout).getD []

def supportedOf (layout : List UInt8) : List Item :=
  (elementsOf layout).takeWhile fun item => decide (Supported item)

/-- The offset and the size of each element, as the loop of `zudi_layout_get_size` has them. -/
def assigned : Nat → List Item → List (Nat × Nat)
  | _, [] => []
  | ret, item :: rest =>
    (align ret item.size, item.size) ::
      assigned ((align ret item.size + item.size) % wordModulus) rest

def wordsOf (size : Nat) : Nat :=
  (size + 3) / 4

def elementStores (dest : Nat) (args : Arguments) (next size : Nat) : List Store :=
  (List.range (wordsOf size)).map fun k =>
    ⟨(dest + 4 * k) % wordModulus, min 4 (size - 4 * k), args (next + k)⟩

def storesAt (dest : Nat) (args : Arguments) : Nat → List (Nat × Nat) → List Store
  | _, [] => []
  | next, (offset, size) :: rest =>
    elementStores (dest + offset) args next size ++ storesAt dest args (next + wordsOf size) rest

/-- Every byte that is stored is one of the `n` bytes from `dest` on. -/
def Inside (dest n : Nat) (stores : List Store) : Prop :=
  ∀ store ∈ stores, ∀ i < store.nBytes, ∃ r < n,
    (store.first + i) % wordModulus = (dest + r) % wordModulus

/-- What is expected of the marshalling of a layout of `n` bytes. -/
structure Right (layout : List UInt8) (n dest : Nat) (args : Arguments) (outcome : Outcome) :
    Prop where
  inside : Inside dest n outcome.stores
  stores : outcome.stores = storesAt dest args 0 (assigned 0 (supportedOf layout))
  consumed : outcome.consumed = ((supportedOf layout).map fun item => wordsOf item.size).sum
  aligned : ∀ place ∈ assigned 0 (supportedOf layout), place.1 % min place.2 4 = 0
  ordered : (assigned 0 (supportedOf layout)).Pairwise fun place next =>
    place.1 + place.2 ≤ next.1
  fails : outcome.status < 0 ↔ ∃ item ∈ elementsOf layout, ¬ Supported item
  succeeds : outcome.status = 0 ∨ outcome.status < 0

/-- The sum of all elements, as a word, leaves room for those before the first one that is not
supported. -/
def Fits (layout : List UInt8) : Prop :=
  endFrom 0 (supportedOf layout) ≤ roundUp (endFrom 0 (elementsOf layout)) 4 % wordModulus

section

variable {size skipCount : Nat} {code : UInt8} {rest layout : List UInt8}

def Regular (size : Nat) : Prop :=
  size = 1 ∨ size = 2 ∨ 4 ∣ size

theorem regular_of_table {index : Nat} (h : layoutElements[index]? = some (size, skipCount)) :
    Regular size := by
  have hall : ∀ entry ∈ layoutElements, entry.1 = 1 ∨ entry.1 = 2 ∨ entry.1 % 4 = 0 := by decide
  rcases hall _ (mem_of_getElem? h) with hone | htwo | hfour
  · exact .inl hone
  · exact .inr (.inl htwo)
  · exact .inr (.inr (dvd_of_mod_eq_zero hfour))

theorem align_dvd (offset size : Nat) : min size 4 ∣ align offset size := by
  rw [align_def]
  split
  · next h => exact dvd_of_mod_eq_zero h
  · exact dvd_mul_left _ _

theorem dvd_of_getSize {depth : Nat} {inlineElementsAllowed : Bool} {elemSize : Int}
    (h : getSize depth layout inlineElementsAllowed = some (.ok elemSize)) (hpos : 0 ≤ elemSize) :
    4 ∣ elemSize.toNat := by
  cases depth with
  | zero => cases h
  | succ depth =>
    have hsigned : ∃ ret, elemSize = asSigned (align ret 4) := by
      rw [getSize] at h
      generalize sizeLoop (getElementSize fun nested => getSize depth nested false)
        layout.length layout 0 = walk at h
      rcases walk with _ | error | ⟨ret, tail⟩
      · split at h
        · cases h
        · split at h <;> cases h
      · split at h
        · cases h
        · split at h <;> cases h
      refine ⟨ret, ?_⟩
      split at h
      · cases h
        rfl
      split at h
      · cases h
      · cases h
      · cases h
        rfl
    obtain ⟨ret, rfl⟩ := hsigned
    have hdvd : 4 ∣ align ret 4 := align_dvd ret 4
    rw [asSigned] at hpos ⊢
    split at hpos
    · next hlt =>
      rw [if_pos hlt]
      exact hdvd
    next hge =>
    unfold wordModulus at *
    omega

theorem regular_of_getElementSize
    (h : zudiLayoutGetElementSize code rest = some (size, skipCount)) : Regular size := by
  unfold zudiLayoutGetElementSize getElementSize at h
  split at h
  · exact regular_of_table h
  split at h
  · split at h
    · obtain ⟨count, -, heq⟩ := map_eq_some_iff.mp h
      cases heq
      exact .inr (.inr (by decide))
    split at h
    · cases rest with
      | nil => cases h
      | cons nElements curr =>
        dsimp only at h
        split at h
        · cases h
        · cases h
          exact .inr (.inr (by decide))
        next elemSize hsize =>
        split at h
        · cases h
          exact .inr (.inr (by decide))
        next hnonneg =>
        obtain ⟨count, -, heq⟩ := map_eq_some_iff.mp h
        cases heq
        have hdvd := dvd_of_getSize hsize (not_lt.mp hnonneg)
        refine .inr (.inr ((dvd_mod_iff (by decide)).mpr ?_))
        exact Dvd.dvd.mul_right hdvd _
    · cases h
      exact .inr (.inr (by decide))
  · exact regular_of_table h

end

section

variable {fuel offset : Nat} {layout : List UInt8} {its : List Item}

theorem align_min (offset size : Nat) : align offset (min size 4) = align offset size := by
  rw [align_def, align_def, min_assoc, min_self]

theorem align_mod_eq {size : Nat} (hregular : Regular size) (hsize : size ≠ 0) (n : Nat) :
    align (n % wordModulus) size % wordModulus = roundUp n (min size 4) % wordModulus := by
  rw [← align_min]
  refine align_mod ?_ n
  rcases hregular with rfl | rfl | hdvd
  · exact .inl rfl
  · exact .inr (.inl rfl)
  · refine .inr (.inr (min_eq_right (le_of_dvd (pos_of_ne_zero hsize) hdvd)))

theorem sizeLoop_eq (h : Walk fuel layout its) (n : Nat) :
    ∃ tail, sizeLoop zudiLayoutGetElementSize fuel layout (n % wordModulus) =
      some (.ok (endFrom n its % wordModulus, tail)) := by
  induction h generalizing n with
  | done fuel tail => exact ⟨_, rfl⟩
  | @next fuel code rest size skipCount its hcode hsize hpos hskip hwalk ih =>
    have hsum : (align (n % wordModulus) size + size) % wordModulus =
        (roundUp n (min size 4) + size) % wordModulus := by
      rw [add_mod, align_mod_eq (regular_of_getElementSize hsize) hpos, ← add_mod]
    obtain ⟨tail, htail⟩ := ih (roundUp n (min size 4) + size)
    refine ⟨tail, ?_⟩
    rw [sizeLoop, if_neg hcode, hsize]
    dsimp only
    rw [if_neg (not_or.mpr ⟨hpos, hskip⟩), hsum, htail]
    rfl

theorem toNat_size_eq {size : Int} (h : zudiLayoutGetSize layout false = some size)
    (hsize : 0 ≤ size) : ∃ its, Walk layout.length layout its ∧ elementsOf layout = its ∧
      size.toNat = roundUp (endFrom 0 its) 4 % wordModulus ∧ size.toNat < 2 ^ 31 := by
  obtain ⟨status, hstatus, rfl⟩ := map_eq_some_iff.mp h
  cases status with
  | error error => exact absurd hsize (by simp [ChannelSend.statusValue, errorInvalidFormat])
  | ok size =>
    obtain ⟨ret, tail, hloop, hret⟩ := ChannelSend.getSize_eq layout false hstatus
    obtain ⟨its, hwalk, -⟩ := ChannelSend.walk_of_sizeLoop hloop
    obtain ⟨tail', hloop'⟩ := sizeLoop_eq hwalk 0
    rw [zero_mod, hloop] at hloop'
    cases hloop'
    refine ⟨its, hwalk, ?_, ?_⟩
    · rw [elementsOf, layoutItems, hwalk.items_eq]
      rfl
    · change 0 ≤ size at hsize
      have halign : align (endFrom 0 its % wordModulus) 4 =
          roundUp (endFrom 0 its) 4 % wordModulus := by
        rw [← align_mod (.inr (.inr rfl)), mod_eq_of_lt (align_lt _)]
      rw [halign] at hret
      subst hret
      have hsmall : roundUp (endFrom 0 its) 4 % wordModulus < 2 ^ 31 := by
        rcases lt_or_ge (roundUp (endFrom 0 its) 4 % wordModulus) (2 ^ 31) with hlt | hge
        · exact hlt
        · have := (asSigned_neg_iff (mod_lt _ (by decide))).mpr hge
          omega
      rw [asSigned, if_pos hsmall]
      exact ⟨rfl, hsmall⟩

theorem aligned_of_assigned (n : Nat) (its : List Item) :
    ∀ place ∈ assigned n its, place.1 % min place.2 4 = 0 := by
  induction its generalizing n with
  | nil => simp [assigned]
  | cons item its ih =>
    rw [assigned, forall_mem_cons]
    exact ⟨mod_eq_zero_of_dvd (align_dvd n item.size), ih _⟩

theorem le_endFrom (hsizes : ∀ item ∈ its, item.size ≠ 0) (n : Nat) : n ≤ endFrom n its := by
  induction its generalizing n with
  | nil => exact le_rfl
  | cons item its ih =>
    rw [forall_mem_cons] at hsizes
    have hplace := item.place_bounds hsizes.1 n
    exact le_trans (by omega) (ih hsizes.2 _)

theorem align_eq_place {item : Item} (hsize : item.size ≠ 0) {n : Nat}
    (hend : item.place n + item.size < wordModulus) : align n item.size = item.place n ∧
      (align n item.size + item.size) % wordModulus = item.place n + item.size := by
  have heq : align n item.size = item.place n := ChannelSend.align_eq hsize hend
  rw [heq, mod_eq_of_lt hend]
  exact ⟨rfl, rfl⟩

theorem places_of_assigned (hsizes : ∀ item ∈ its, item.size ≠ 0) {n : Nat}
    (hend : endFrom n its < wordModulus) :
    (∀ place ∈ assigned n its, n ≤ place.1 ∧ place.1 + place.2 ≤ endFrom n its) ∧
      (assigned n its).Pairwise fun place next => place.1 + place.2 ≤ next.1 := by
  induction its generalizing n with
  | nil => exact ⟨by simp [assigned], .nil⟩
  | cons item its ih =>
    rw [forall_mem_cons] at hsizes
    obtain ⟨hsize, hsizes⟩ := hsizes
    rw [endFrom] at hend ⊢
    have hbounds := item.place_bounds hsize n
    have hle := le_endFrom hsizes (item.place n + item.size)
    obtain ⟨hplace, hnext⟩ := align_eq_place hsize (lt_of_le_of_lt hle hend)
    obtain ⟨hwithin, hordered⟩ := ih hsizes hend
    rw [assigned, hnext, hplace]
    refine ⟨?_, pairwise_cons.mpr ⟨?_, hordered⟩⟩
    · rw [forall_mem_cons]
      refine ⟨⟨hbounds.1, hle⟩, ?_⟩
      intro place hmem
      have := hwithin place hmem
      omega
    · intro place hmem
      exact (hwithin place hmem).1

end

section

variable {dest size next fuel : Nat} {args : Arguments} {slots : List (Nat × Nat)}
  {layout : List UInt8} {its : List Item}

theorem errorUnsupported_neg : errorUnsupported < 0 := by
  decide

theorem slotsOf_isSome_iff : (slotsOf size).isSome ↔ size ∈ [1, 2, 4, 8, 16] := by
  unfold slotsOf
  split
  all_goals simp_all

theorem storeSlots_eq (h : slotsOf size = some slots) :
    storeSlots dest args next slots = elementStores dest args next size ∧
      slots.length = wordsOf size := by
  have hmem : size ∈ [1, 2, 4, 8, 16] := slotsOf_isSome_iff.mp (by rw [h]; rfl)
  simp only [mem_cons, not_mem_nil, or_false] at hmem
  rcases hmem with rfl | rfl | rfl | rfl | rfl
  all_goals
    cases h
    exact ⟨rfl, rfl⟩

theorem stackLoop_eq (h : Walk fuel layout its) (offset next : Nat) :
    ∃ outcome, stackLoop dest args fuel layout offset next = some outcome ∧
      outcome.stores =
        storesAt dest args next (assigned offset (its.takeWhile fun item => Supported item)) ∧
      outcome.consumed = next +
        ((its.takeWhile fun item => Supported item).map fun item => wordsOf item.size).sum ∧
      (outcome.status < 0 ↔ ∃ item ∈ its, ¬ Supported item) ∧
      (outcome.status = 0 ∨ outcome.status < 0) := by
  induction h generalizing offset next with
  | done fuel tail => exact ⟨⟨0, next, []⟩, rfl, rfl, rfl, by simp, .inl rfl⟩
  | @next fuel code rest size skipCount its hcode hsize hpos hskip hwalk ih =>
    rw [stackLoop, if_neg hcode, hsize]
    dsimp only
    rw [if_neg hskip]
    cases hslots : slotsOf size with
    | none =>
      have hunsupported : ¬ Supported ⟨code, rest, size⟩ := by
        intro hmem
        have := slotsOf_isSome_iff.mpr hmem
        rw [hslots] at this
        cases this
      refine ⟨⟨errorUnsupported, next, []⟩, ?_, ?_, ?_, ?_, .inr errorUnsupported_neg⟩
      · split
        · rfl
        · rfl
      · simp [hunsupported, assigned, storesAt]
      · simp [hunsupported]
      · exact iff_of_true errorUnsupported_neg ⟨_, mem_cons_self, hunsupported⟩
    | some slots =>
      have hsupported : Supported ⟨code, rest, size⟩ :=
        slotsOf_isSome_iff.mp (by rw [hslots]; rfl)
      have hsmall : ¬ size > 16 := by
        have hmem := hsupported
        simp only [Supported, mem_cons, not_mem_nil, or_false] at hmem
        omega
      obtain ⟨hstores, hlength⟩ :=
        @storeSlots_eq (dest + align offset size) size next args slots hslots
      rw [if_neg hsmall]
      obtain ⟨outcome, heq, hrest, hconsumed, hfails, hstatus⟩ :=
        ih ((align offset size + size) % wordModulus) (next + slots.length)
      refine ⟨{ outcome with
        stores := storeSlots (dest + align offset size) args next slots ++ outcome.stores },
        ?_, ?_, ?_, ?_, hstatus⟩
      · dsimp only
        rw [heq]
        rfl
      · rw [takeWhile_cons_of_pos (by simpa using hsupported), assigned, storesAt,
          ← hlength, ← hrest, ← hstores]
      · rw [takeWhile_cons_of_pos (by simpa using hsupported), map_cons,
          sum_cons, ← add_assoc, ← hlength]
        exact hconsumed
      · refine hfails.trans ?_
        simp [hsupported]

end

section

variable {dest next total : Nat} {args : Arguments} {its : List Item} {places : List (Nat × Nat)}

theorem inside_append {stores stores' : List Store} : Inside dest total (stores ++ stores') ↔
      Inside dest total stores ∧ Inside dest total stores' := by
  simp only [Inside, forall_mem_append]

theorem elementStores_inside {offset size : Nat} (h : offset + size ≤ total) :
    Inside dest total (elementStores (dest + offset) args next size) := by
  intro store hstore i hi
  obtain ⟨k, hk, rfl⟩ := mem_map.mp hstore
  dsimp only at hi ⊢
  refine ⟨offset + 4 * k + i, by omega, ?_⟩
  rw [mod_add_mod]
  congr 1
  omega

theorem le_of_elementStores_inside {offset size : Nat} (hsize : size ≠ 0)
    (hlt : offset + size ≤ wordModulus) (htotal : total ≤ wordModulus)
    (h : Inside dest total (elementStores (dest + offset) args next size)) :
    offset + size ≤ total := by
  have hk : (size - 1) / 4 ∈ range (wordsOf size) := by
    rw [mem_range, wordsOf]
    omega
  obtain ⟨r, hr, heq⟩ := h _ (mem_map_of_mem hk) ((size - 1) % 4) (by dsimp only; omega)
  rw [mod_add_mod] at heq
  unfold wordModulus at heq hlt htotal
  omega

theorem storesAt_inside (h : ∀ place ∈ places, place.1 + place.2 ≤ total) :
    Inside dest total (storesAt dest args next places) := by
  induction places generalizing next with
  | nil => simp [storesAt, Inside]
  | cons place places ih =>
    rw [forall_mem_cons] at h
    rw [storesAt, inside_append]
    exact ⟨elementStores_inside h.1, ih h.2⟩

theorem endFrom_le_of_inside (hsizes : ∀ item ∈ its, Supported item) (htotal : total < 2 ^ 31)
    {n : Nat} (hn : n ≤ total) (h : Inside dest total (storesAt dest args next (assigned n its))) :
    endFrom n its ≤ total := by
  induction its generalizing n next with
  | nil => exact hn
  | cons item its ih =>
    rw [forall_mem_cons] at hsizes
    have hmem := hsizes.1
    simp only [Supported, mem_cons, not_mem_nil, or_false] at hmem
    have hbounds := item.place_bounds (by omega) n
    have hlt : item.place n + item.size < wordModulus := by
      unfold wordModulus
      omega
    obtain ⟨hplace, hnext⟩ := align_eq_place (by omega) hlt
    rw [assigned, storesAt, hnext, hplace, inside_append] at h
    have hend := le_of_elementStores_inside (by omega) hlt.le
      (le_trans htotal.le (by decide)) h.1
    exact ih hsizes.2 hend h.2

end

section

variable {layout : List UInt8} {size : Int}

/-- The arguments are marshalled as `zudi_layout_get_size` promises exactly when the sum of the
layout does not wrap around below the elements that are stored. -/
theorem marshalStackArguments_right_iff (dest : Nat) (args : Arguments)
    (h : zudiLayoutGetSize layout false = some size) (hsize : 0 ≤ size) :
    (∃ outcome, marshalStackArguments dest args layout = some outcome ∧
      Right layout size.toNat dest args outcome) ↔ Fits layout := by
  obtain ⟨its, hwalk, helements, htotal, hlt⟩ := toNat_size_eq h hsize
  obtain ⟨outcome, heq, hstores, hconsumed, hfails, hstatus⟩ :=
    @stackLoop_eq dest layout.length args layout its hwalk 0 0
  rw [zero_add] at hconsumed
  rw [← helements] at hstores hconsumed hfails
  have hsupported : ∀ item ∈ supportedOf layout, Supported item := by
    intro item hmem
    simpa using mem_takeWhile_imp hmem
  have hsizes : ∀ item ∈ supportedOf layout, item.size ≠ 0 := by
    intro item hmem hzero
    have := hsupported item hmem
    simp [Supported, hzero] at this
  rw [Fits, helements, ← htotal]
  constructor
  · rintro ⟨outcome', heq', hright⟩
    rw [marshalStackArguments, heq] at heq'
    cases heq'
    have hinside := hright.inside
    rw [hstores] at hinside
    exact endFrom_le_of_inside hsupported hlt (zero_le _) hinside
  · intro hfits
    have hend : endFrom 0 (supportedOf layout) < wordModulus :=
      lt_of_le_of_lt hfits (lt_trans hlt (by decide))
    obtain ⟨hwithin, hordered⟩ := places_of_assigned hsizes hend
    refine ⟨outcome, heq, ?_, hstores, hconsumed, aligned_of_assigned 0 _, hordered, hfails,
      hstatus⟩
    rw [hstores]
    refine storesAt_inside ?_
    intro place hmem
    exact le_trans (hwithin place hmem).2 hfits

/-- Four words, and nested arrays of 87 * 215 * 226 * 254 words, which are 16 bytes less than
`2 ^ 32`. -/
def wrapping : List UInt8 :=
  [5, 5, 5, 5, dlArray, 87, dlArray, 215, dlArray, 226, dlArray, 254, 5, 0, 0, 0, 0, 0]

/-- A byte, a word and a half word. -/
theorem marshalStackArguments_right_iff_mixed :
    ∃ outcome, marshalStackArguments 1000 (fun i => i.toUInt32) [1, 5, 3, 0] = some outcome ∧
      Right [1, 5, 3, 0] 12 1000 (fun i => i.toUInt32) outcome := by
  refine (@marshalStackArguments_right_iff [1, 5, 3, 0] 12 1000 _ (by decide) (by decide)).2 ?_
  unfold Fits
  decide

theorem marshalStackArguments_wraps :
    zudiLayoutGetSize wrapping false = some 0 ∧
      ¬ ∃ outcome, marshalStackArguments 1000 (fun _ => 7) wrapping = some outcome ∧
        Right wrapping 0 1000 (fun _ => 7) outcome := by
  refine ⟨by decide +kernel, ?_⟩
  rintro ⟨outcome, heq, hright⟩
  have hfirst : (marshalStackArguments 1000 (fun _ => 7) wrapping).map (·.stores.head?) =
      some (some ⟨1000, 4, 7⟩) := by
    decide +kernel
  rw [heq] at hfirst
  have hmem := mem_of_head? (some.inj hfirst)
  obtain ⟨r, hr, -⟩ := hright.inside _ hmem 0 (by decide)
  exact not_lt_zero r hr

end

section

variable {fuel dest offset next : Nat} {args : Arguments} {layout : List UInt8}

/-- The arguments for what `send` notes as written. -/
def outcomeOf (args : Arguments) (next : Nat) (written : Int × List ChannelSend.Write) :
    Outcome where
  status := written.1
  consumed := next + (written.2.map fun write => wordsOf write.nBytes).sum
  stores := storesAt 0 args next (written.2.map fun write => (write.first, write.nBytes))

theorem elementStores_mod (size : Nat) :
    elementStores (dest % wordModulus) args next size = elementStores dest args next size := by
  simp [elementStores]

theorem stackLoop_send : stackLoop dest args fuel layout offset next =
      (ChannelSend.stackLoop dest fuel layout offset).map (outcomeOf args next) := by
  induction fuel generalizing layout offset next with
  | zero =>
    cases layout with
    | nil => rfl
    | cons curr rest => rfl
  | succ fuel ih =>
    cases layout with
    | nil => rfl
    | cons curr rest =>
      rw [stackLoop, ChannelSend.stackLoop]
      rcases eq_or_ne curr dlEnd with hcurr | hcurr
      · rw [if_pos hcurr, if_pos hcurr]
        rfl
      rw [if_neg hcurr, if_neg hcurr]
      rcases zudiLayoutGetElementSize curr rest with _ | ⟨elemSize, skipCount⟩
      · rfl
      dsimp only
      rcases eq_or_ne skipCount 0 with hskip | hskip
      · rw [if_pos hskip, if_pos hskip]
        rfl
      rw [if_neg hskip, if_neg hskip]
      rcases lt_or_ge 16 elemSize with hlarge | hsmall
      · rw [if_pos hlarge, if_pos hlarge]
        rfl
      rw [if_neg (not_lt.mpr hsmall), if_neg (not_lt.mpr hsmall)]
      cases hslots : slotsOf elemSize with
      | none =>
        have hnot : elemSize ∉ [1, 2, 4, 8, 16] := by
          rw [← slotsOf_isSome_iff, hslots]
          exact Bool.false_ne_true
        rw [if_neg hnot]
        rfl
      | some slots =>
        have hmem : elemSize ∈ [1, 2, 4, 8, 16] :=
          slotsOf_isSome_iff.mp (by rw [hslots]; rfl)
        obtain ⟨hstores, hlength⟩ :=
          @storeSlots_eq (dest + align offset elemSize) elemSize next args slots hslots
        rw [if_pos hmem]
        dsimp only
        rw [ih, Option.map_map, Option.map_map]
        congr 1
        funext written
        simp only [Function.comp_apply, outcomeOf, map_cons, sum_cons, storesAt,
          hstores, hlength, add_assoc, zero_add, elementStores_mod]

theorem marshalStackArguments_send : marshalStackArguments dest args layout =
      (ChannelSend.marshalStackArguments dest layout).map (outcomeOf args 0) :=
  stackLoop_send

end

end Zambesii.StackArguments
