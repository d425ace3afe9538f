import Zambesii.HardwareIdList

/-!
`ResizeableArray`: its index check, `resizeToHoldIndex` and `erase`, with the
block that holds the elements and the lock. A panic, an access outside the block
and an attempt to take the lock twice have no result.
-/

namespace Zambesii.ResizeableArray

open HardwareIdList (bytesToPages le_bytesToPages)
open KernelTypes Option Runs

section

variable {T : Type}

/-- `sizeof(T)`, and whether the array was made with `RESIZEABLE_ARRAY_FLAGS_NO_FAKEMAP`. -/
structure Config where
  sizeofT : Nat
  noFakemap : Bool

/-- The elements at their indexes (`none` while the array is NULL), the bytes of their block,
the length and the lock. What lies behind the elements is what the memory held before. -/
structure Arr (T : Type) where
  array : Option (Nat → T)
  nBytes : Nat
  nIndexes : Nat
  locked : Bool

def Arr.construct : Arr T :=
  ⟨none, 0, 0, false⟩

def lock (arr : Arr T) : Option (Arr T) :=
  if arr.locked = true then none else some { arr with locked := true }

def unlock (arr : Arr T) : Arr T :=
  { arr with locked := false }

def unlockedIndexIsValid (arr : Arr T) (index : Nat) : Bool :=
  decide ((index + 1) % wordModulus ≤ arr.nIndexes)

def indexIsValid (arr : Arr T) (index : Nat) : Option (Bool × Arr T) :=
  match lock arr with
  | none => none
  | some arr => some (unlockedIndexIsValid arr index, unlock arr)

/-- The bytes of the block that `crudeRealloc` or `memRealloc` gets. -/
def blockSize (config : Config) (newNBytes : Nat) : Nat :=
  if config.noFakemap = true then newNBytes
  else bytesToPages newNBytes * pagingBaseSize

/-- `crudeRealloc` and `memRealloc` where the new block holds `newmem`. An element of which
only some bytes are copied is as arbitrary as one of `newmem`. -/
def reallocate (config : Config) (arr : Arr T) (newNBytes : Nat) (newmem : Nat → T) :
    Option (Arr T) :=
  let oldNBytes := config.sizeofT * arr.nIndexes % wordModulus
  match arr.array with
  | none => some { arr with array := some newmem, nBytes := blockSize config newNBytes }
  | some array =>
    if oldNBytes ≤ arr.nBytes ∧ oldNBytes ≤ blockSize config newNBytes then
      some { arr with
        array := some fun k => if k < oldNBytes / config.sizeofT then array k else newmem k
        nBytes := blockSize config newNBytes }
    else none

/-- `resizeToHoldIndex`; `unlocked` is `RTHI_FLAGS_UNLOCKED` and `newmem` the memory that the
reallocation gets, if it gets any. -/
def resizeToHoldIndex (config : Config) (arr : Arr T) (index : Nat) (unlocked : Bool)
    (newmem : Option (Nat → T)) : Option (Kerror × Arr T) :=
  match if unlocked = true then some arr else lock arr with
  | none => none
  | some arr =>
    if unlockedIndexIsValid arr index = true then some (.success, unlock arr)
    else
      match newmem with
      | none => some (.memoryNomem, if unlocked = true then arr else unlock arr)
      | some newmem =>
        match reallocate config arr
          (config.sizeofT * ((index + 1) % wordModulus) % wordModulus) newmem with
        | none => none
        | some arr =>
          let arr := { arr with nIndexes := (index + 1) % wordModulus }
          some (.success, if unlocked = true then arr else unlock arr)

def moveDown (config : Config) (arr : Arr T) (index nItems : Nat) : Option (Arr T) :=
  let nBytes := config.sizeofT * nItems % wordModulus
  match arr.array with
  | none => none
  | some array =>
    if nBytes = 0 then some arr
    else if (index + nItems) * config.sizeofT + nBytes ≤ arr.nBytes then
      some { arr with
        array := some fun k =>
          if index ≤ k ∧ k < index + nBytes / config.sizeofT then array (k + nItems)
          else array k }
    else none

def erase (config : Config) (arr : Arr T) (index nItems : Nat) : Option (Arr T) :=
  match arr.array with
  | none => none
  | some _ =>
    match indexIsValid arr index with
    | none => none
    | some (false, _) => none
    | some (true, arr) =>
      match indexIsValid arr ((index + nItems + (wordModulus - 1)) % wordModulus) with
      | none => none
      | some (false, _) => none
      | some (true, arr) =>
        match lock arr with
        | none => none
        | some arr =>
          match moveDown config arr index nItems with
          | none => none
          | some arr =>
            some (unlock { arr with
              nIndexes := (arr.nIndexes + (wordModulus - nItems)) % wordModulus })

inductive Call (T : Type) where
  | resizeToHoldIndex (index : Nat) (unlocked : Bool) (newmem : Option (Nat → T))
  | erase (index nItems : Nat)
  | indexIsValid (index : Nat)
  /-- An assignment through `operator []`. -/
  | store (index : Nat) (value : T)
  | lock
  | unlock

inductive Result where
  | error (error : Kerror)
  | valid (valid : Bool)
  | done
deriving DecidableEq

def step (config : Config) (arr : Arr T) : Call T → Option (Result × Arr T)
  | .resizeToHoldIndex index unlocked newmem =>
    match resizeToHoldIndex config arr index unlocked newmem with
    | none => none
    | some (error, arr) => some (.error error, arr)
  | .erase index nItems =>
    match erase config arr index nItems with
    | none => none
    | some arr => some (.done, arr)
  | .indexIsValid index =>
    match indexIsValid arr index with
    | none => none
    | some (valid, arr) => some (.valid valid, arr)
  | .store index value =>
    match arr.array with
    | none => none
    | some array =>
      if unlockedIndexIsValid arr index = true then
        some (.done, { arr with array := some (Function.update array index value) })
      else none
  | .lock =>
    match lock arr with
    | none => none
    | some arr => some (.done, arr)
  | .unlock => some (.done, unlock arr)

/-- The arguments are valid, the reallocation succeeds, and the lock is free for the calls that
take it. -/
def Legal (arr : Arr T) : Call T → Prop
  | .resizeToHoldIndex index unlocked newmem =>
    index < wordModulus ∧ newmem ≠ none ∧ (unlocked = false → arr.locked = false)
  | .erase index nItems =>
    index < arr.nIndexes ∧ index + nItems ≤ arr.nIndexes ∧ arr.locked = false
  | .indexIsValid index => index < wordModulus ∧ arr.locked = false
  | .store index _ => index < arr.nIndexes
  | .lock => arr.locked = false
  | .unlock => arr.locked = true

def elem (arr : Arr T) (index : Nat) : Option T :=
  arr.array.map fun array => array index

structure Resized (config : Config) (arr arr' : Arr T) (index : Nat) : Prop where
  holds : index < arr'.nIndexes
  grows : arr.nIndexes ≤ arr'.nIndexes
  keeps : ∀ k, k < arr.nIndexes → elem arr' k = elem arr k
  backed : arr'.nIndexes * config.sizeofT ≤ arr'.nBytes
  locked : arr'.locked = arr.locked

structure Erased (arr arr' : Arr T) (index nItems : Nat) : Prop where
  length : arr'.nIndexes + nItems = arr.nIndexes
  before : ∀ k, k < index → elem arr' k = elem arr k
  after : ∀ k, index ≤ k → k < arr'.nIndexes → elem arr' k = elem arr (k + nItems)
  locked : arr'.locked = arr.locked

def Spec (config : Config) (arr : Arr T) : Call T → Result → Arr T → Prop
  | .resizeToHoldIndex index _ _, result, arr' =>
    result = .error .success ∧ Resized config arr arr' index
  | .erase index nItems, _, arr' => Erased arr arr' index nItems
  | .indexIsValid index, result, arr' => result = .valid (decide (index < arr.nIndexes)) ∧
      arr' = arr
  | _, _, _ => True

/-- The new length and its bytes fit in a word, and a caller that holds the lock asks for an
index that is not there yet. -/
structure GoodResize (config : Config) (arr : Arr T) (index : Nat) (unlocked : Bool) : Prop where
  fits : index + 1 < wordModulus
  bytes : arr.nIndexes ≤ index → config.sizeofT * (index + 1) < wordModulus
  free : unlocked = true → index < arr.nIndexes → arr.locked = false

/-- The block reaches `nItems` elements past those that go, and the elements from
`index + nItems` on that have a successor at the distance `nItems` equal it. -/
structure GoodErase (config : Config) (arr : Arr T) (index nItems : Nat) : Prop where
  inside : nItems ≠ 0 → (index + 2 * nItems) * config.sizeofT ≤ arr.nBytes
  periodic : ∀ k, index + nItems ≤ k → k + nItems < arr.nIndexes →
    elem arr k = elem arr (k + nItems)

def Good (config : Config) (arr : Arr T) : Call T → Prop
  | .resizeToHoldIndex index unlocked _ => GoodResize config arr index unlocked
  | .erase index nItems => GoodErase config arr index nItems
  | .indexIsValid index => index + 1 < wordModulus
  | _ => True

structure Sound (config : Config) (arr : Arr T) : Prop where
  pos : 0 < config.sizeofT
  array : arr.nIndexes ≠ 0 → arr.array ≠ none
  backed : arr.nIndexes * config.sizeofT ≤ arr.nBytes
  fits : arr.nIndexes * config.sizeofT < wordModulus

end

section

variable {T : Type} {config : Config} {arr : Arr T}

theorem Sound.nIndexes_lt (h : Sound config arr) : arr.nIndexes < wordModulus :=
  lt_of_le_of_lt (Nat.le_mul_of_pos_right arr.nIndexes h.pos) h.fits

theorem le_blockSize (config : Config) (newNBytes : Nat) :
    newNBytes ≤ blockSize config newNBytes := by
  rw [blockSize]
  split
  · exact le_refl _
  · exact le_bytesToPages newNBytes

theorem blockSize_le (config : Config) {newNBytes : Nat} (h : newNBytes < wordModulus) :
    blockSize config newNBytes ≤ wordModulus := by
  rw [blockSize]
  split
  · exact h.le
  unfold bytesToPages pagingBaseSize
  unfold wordModulus at h ⊢
  split
  · omega
  · omega

theorem blockSize_zero (config : Config) : blockSize config 0 = 0 := by
  rw [blockSize]
  split
  · rfl
  · rfl

variable {index : Nat} {unlocked : Bool}

theorem indexIsValid_iff (h : index + 1 < wordModulus) :
    unlockedIndexIsValid arr index = decide (index < arr.nIndexes) := by
  rw [unlockedIndexIsValid, Nat.mod_eq_of_lt h]
  rfl

theorem indexIsValid_last (arr : Arr T) (h : index + 1 = wordModulus) :
    unlockedIndexIsValid arr index = true := by
  rw [unlockedIndexIsValid, h, Nat.mod_self]
  exact decide_eq_true (Nat.zero_le _)

variable (h : Sound config arr)

include h

theorem reallocate_cases (newNBytes : Nat) (newmem : Nat → T) :
    (∃ array, reallocate config arr newNBytes newmem =
        some { arr with array := some array, nBytes := blockSize config newNBytes } ∧
      ∀ k, k < arr.nIndexes → some (array k) = elem arr k) ∨
    (reallocate config arr newNBytes newmem = none ∧
      blockSize config newNBytes < arr.nIndexes * config.sizeofT) := by
  have hbytes : config.sizeofT * arr.nIndexes % wordModulus = arr.nIndexes * config.sizeofT := by
    rw [mul_comm]
    exact Nat.mod_eq_of_lt h.fits
  rcases harray : arr.array with _ | array
  · left
    refine ⟨newmem, ?_, ?_⟩
    · simp only [reallocate, harray]
    · intro k hk
      exact absurd harray (h.array (by omega))
  rcases lt_or_ge (blockSize config newNBytes) (arr.nIndexes * config.sizeofT) with
    hlt | hge
  · right
    refine ⟨?_, hlt⟩
    simp only [reallocate, harray, hbytes]
    rw [if_neg (by omega)]
  left
  refine ⟨fun k => if k < arr.nIndexes then array k else newmem k, ?_, ?_⟩
  · simp only [reallocate, harray, hbytes]
    rw [if_pos ⟨h.backed, hge⟩, Nat.mul_div_cancel _ h.pos]
  · intro k hk
    dsimp only
    rw [if_pos hk, elem, harray]
    rfl

theorem resize_cases (index : Nat) (newmem : Nat → T)
    (hlock : unlocked = false → arr.locked = false) :
    (unlockedIndexIsValid arr index = true ∧
      resizeToHoldIndex config arr index unlocked (some newmem) = some (.success, unlock arr)) ∨
    (unlockedIndexIsValid arr index = false ∧
      ∃ array, resizeToHoldIndex config arr index unlocked (some newmem) =
        some (.success, { arr with
          array := some array
          nBytes := blockSize config
            (config.sizeofT * ((index + 1) % wordModulus) % wordModulus)
          nIndexes := (index + 1) % wordModulus }) ∧
        ∀ k, k < arr.nIndexes → some (array k) = elem arr k) ∨
    (unlockedIndexIsValid arr index = false ∧
      resizeToHoldIndex config arr index unlocked (some newmem) = none ∧
        blockSize config (config.sizeofT * ((index + 1) % wordModulus) % wordModulus) <
          arr.nIndexes * config.sizeofT) := by
  have hlocked : Sound config { arr with locked := true } := ⟨h.pos, h.array, h.backed, h.fits⟩
  have hvalid : unlockedIndexIsValid { arr with locked := true } index =
      unlockedIndexIsValid arr index := rfl
  cases unlocked with
  | true =>
    rcases hcase : unlockedIndexIsValid arr index with _ | _
    · right
      rcases reallocate_cases h (config.sizeofT * ((index + 1) % wordModulus) % wordModulus)
          newmem with ⟨array, heq, hkeep⟩ | ⟨heq, hsmall⟩
      · refine .inl ⟨rfl, array, ?_, hkeep⟩
        simp only [resizeToHoldIndex, hcase, heq, if_true, if_false, Bool.false_eq_true]
      · refine .inr ⟨rfl, ?_, hsmall⟩
        simp only [resizeToHoldIndex, hcase, heq, if_true, if_false, Bool.false_eq_true]
    · refine .inl ⟨rfl, ?_⟩
      simp [resizeToHoldIndex, hcase]
  | false =>
    have hfree := hlock rfl
    have htake : lock arr = some { arr with locked := true } := by simp [lock, hfree]
    rcases hcase : unlockedIndexIsValid arr index with _ | _
    · right
      rcases reallocate_cases hlocked
          (config.sizeofT * ((index + 1) % wordModulus) % wordModulus) newmem with
        ⟨array, heq, hkeep⟩ | ⟨heq, hsmall⟩
      · refine .inl ⟨rfl, array, ?_, hkeep⟩
        simp only [resizeToHoldIndex, htake, hvalid, hcase, heq, if_false, Bool.false_eq_true,
          unlock, hfree]
      · refine .inr ⟨rfl, ?_, hsmall⟩
        simp only [resizeToHoldIndex, htake, hvalid, hcase, heq, if_false, Bool.false_eq_true]
    · refine .inl ⟨rfl, ?_⟩
      simp [resizeToHoldIndex, htake, hvalid, hcase, unlock]

theorem resize_good (newmem : Nat → T)
    (hlock : unlocked = false → arr.locked = false) (hgood : GoodResize config arr index unlocked) :
    ∃ arr', resizeToHoldIndex config arr index unlocked (some newmem) = some (.success, arr') ∧
      Resized config arr arr' index ∧ Sound config arr' := by
  have hiff := @indexIsValid_iff _ arr index hgood.fits
  have hlength : (index + 1) % wordModulus = index + 1 := Nat.mod_eq_of_lt hgood.fits
  rcases resize_cases h index newmem hlock with ⟨hvalid, heq⟩ | ⟨hvalid, array, heq, hkeep⟩ |
    ⟨hvalid, -, hsmall⟩
  · rw [hiff, decide_eq_true_eq] at hvalid
    have hfree : arr.locked = false := by
      cases unlocked with
      | true => exact hgood.free rfl hvalid
      | false => exact hlock rfl
    refine ⟨unlock arr, heq, ⟨hvalid, le_refl _, fun _ _ => rfl, h.backed, hfree.symm⟩, ?_⟩
    exact ⟨h.pos, h.array, h.backed, h.fits⟩
  · rw [hiff, decide_eq_false_iff_not, not_lt] at hvalid
    have hbytes := hgood.bytes hvalid
    rw [hlength, Nat.mod_eq_of_lt hbytes] at heq
    have hbacked : (index + 1) * config.sizeofT ≤ blockSize config (config.sizeofT *
      (index + 1)) := by
      rw [Nat.mul_comm]
      exact le_blockSize config _
    refine ⟨_, heq, ⟨Nat.lt_succ_self index, by dsimp only; omega, hkeep, hbacked, rfl⟩, ?_⟩
    refine ⟨h.pos, fun _ => some_ne_none array, hbacked, ?_⟩
    rw [Nat.mul_comm]
    exact hbytes
  · rw [hiff, decide_eq_false_iff_not, not_lt] at hvalid
    have hbytes := hgood.bytes hvalid
    rw [hlength, Nat.mod_eq_of_lt hbytes] at hsmall
    have hle := le_blockSize config (config.sizeofT * (index + 1))
    have hmono : arr.nIndexes * config.sizeofT ≤ config.sizeofT * (index + 1) := by
      rw [Nat.mul_comm]
      exact Nat.mul_le_mul_left config.sizeofT (by omega)
    omega

theorem resize_bad {error : Kerror} {arr' : Arr T} (newmem : Nat → T)
    (hindex : index < wordModulus) (hlock : unlocked = false → arr.locked = false)
    (hbad : ¬GoodResize config arr index unlocked)
    (hresize : resizeToHoldIndex config arr index unlocked (some newmem) = some (error, arr')) :
    ¬Resized config arr arr' index := by
  intro hresized
  apply hbad
  have hnIndexes := h.nIndexes_lt
  rcases resize_cases h index newmem hlock with ⟨hvalid, heq⟩ | ⟨hvalid, array, heq, hkeep⟩ |
    ⟨hvalid, heq, -⟩
  · rw [heq] at hresize
    cases hresize
    have hholds : index < arr.nIndexes := hresized.holds
    refine ⟨by omega, fun hle => absurd hholds (not_lt.mpr hle), fun _ _ => ?_⟩
    exact hresized.locked.symm
  · have hfits : index + 1 < wordModulus := by
      rcases lt_or_ge (index + 1) wordModulus with hlt | hge
      · exact hlt
      · rw [indexIsValid_last arr (by omega)] at hvalid
        cases hvalid
    have hlength : (index + 1) % wordModulus = index + 1 := Nat.mod_eq_of_lt hfits
    rw [indexIsValid_iff hfits, decide_eq_false_iff_not] at hvalid
    rw [heq, hlength] at hresize
    cases hresize
    have hbacked := hresized.backed
    dsimp only at hbacked
    refine ⟨hfits, fun _ => ?_, fun _ hlt => absurd hlt hvalid⟩
    -- a size past the word leaves a block that is too small for the new length
    rcases lt_trichotomy (config.sizeofT * (index + 1)) wordModulus with hlt | hexact | hgt
    · exact hlt
    · rw [hexact, Nat.mod_self, blockSize_zero, mul_comm, hexact] at hbacked
      exact absurd hbacked (by decide)
    · have hle := blockSize_le config (Nat.mod_lt (config.sizeofT * (index + 1)) wordModulus_pos)
      rw [mul_comm] at hbacked
      omega
  · rw [heq] at hresize
    cases hresize

omit h

end

section

variable {T : Type} {config : Config} {arr : Arr T} {index nItems : Nat}

theorem indexIsValid_eq (hfree : arr.locked = false) (index : Nat) :
    indexIsValid arr index = some (unlockedIndexIsValid arr index, arr) := by
  have hsame : ({ arr with locked := false } : Arr T) = arr := by rw [← hfree]
  simp only [indexIsValid, lock, hfree, unlock, if_false, Bool.false_eq_true]
  rw [hsame]
  rfl

theorem erase_eq (h : Sound config arr) (hindex : index < arr.nIndexes)
    (hend : index + nItems ≤ arr.nIndexes) (hfree : arr.locked = false) :
    erase config arr index nItems =
      match moveDown config { arr with locked := true } index nItems with
      | none => none
      | some arr' => some (unlock { arr' with
          nIndexes := (arr'.nIndexes + (wordModulus - nItems)) % wordModulus }) := by
  have hlt := h.nIndexes_lt
  have hfirst : unlockedIndexIsValid arr index = true := by
    rw [indexIsValid_iff (by omega)]
    exact decide_eq_true hindex
  have hlast : unlockedIndexIsValid arr
      ((index + nItems + (wordModulus - 1)) % wordModulus) = true := by
    rcases eq_zero_or_pos (index + nItems) with hzero | hsome
    · rw [hzero, zero_add, Nat.mod_eq_of_lt (by omega)]
      exact indexIsValid_last arr (by omega)
    have hmod : (index + nItems + (wordModulus - 1)) % wordModulus = index + nItems - 1 := by
      rw [show index + nItems + (wordModulus - 1) = index + nItems - 1 + wordModulus by omega,
        Nat.add_mod_right, Nat.mod_eq_of_lt (by omega)]
    rw [hmod, indexIsValid_iff (by omega)]
    exact decide_eq_true (by omega)
  obtain ⟨array, harray⟩ := ne_none_iff_exists'.mp (h.array (by omega))
  simp [erase, harray, indexIsValid_eq hfree, hfirst, hlast, lock, hfree]

theorem moveDown_cases (h : Sound config arr) (hindex : index < arr.nIndexes)
    (hend : index + nItems ≤ arr.nIndexes) :
    (∃ array, moveDown config arr index nItems = some { arr with array := some array } ∧
      (nItems ≠ 0 → (index + 2 * nItems) * config.sizeofT ≤ arr.nBytes) ∧
      ∀ k, some (array k) =
        if index ≤ k ∧ k < index + nItems then elem arr (k + nItems) else elem arr k) ∨
    (moveDown config arr index nItems = none ∧ nItems ≠ 0 ∧
      ¬(index + 2 * nItems) * config.sizeofT ≤ arr.nBytes) := by
  obtain ⟨array, harray⟩ := ne_none_iff_exists'.mp (h.array (by omega))
  have hle : nItems * config.sizeofT ≤ arr.nIndexes * config.sizeofT :=
    Nat.mul_le_mul_right config.sizeofT (by omega)
  have hbytes : config.sizeofT * nItems % wordModulus = nItems * config.sizeofT := by
    rw [Nat.mul_comm]
    exact Nat.mod_eq_of_lt (lt_of_le_of_lt hle h.fits)
  have hsum : (index + nItems) * config.sizeofT + nItems * config.sizeofT =
      (index + 2 * nItems) * config.sizeofT := by
    rw [← Nat.add_mul, Nat.two_mul, Nat.add_assoc]
  have helem : ∀ k, elem arr k = some (array k) := by
    intro k
    rw [elem, harray]
    rfl
  rcases Nat.eq_zero_or_pos nItems with rfl | hpos
  · left
    refine ⟨array, ?_, fun hne => absurd rfl hne, ?_⟩
    · simp only [moveDown, harray, Nat.mul_zero, Nat.zero_mod, if_true]
      rw [← harray]
    · intro k
      rw [if_neg (by omega)]
      exact (helem k).symm
  have hne : nItems * config.sizeofT ≠ 0 := (Nat.mul_pos hpos h.pos).ne'
  rcases em ((index + 2 * nItems) * config.sizeofT ≤ arr.nBytes) with hin | hout
  · left
    refine ⟨fun k => if index ≤ k ∧ k < index + nItems then array (k + nItems) else array k,
      ?_, fun _ => hin, ?_⟩
    · simp only [moveDown, harray, hbytes]
      rw [if_neg hne, if_pos (hsum ▸ hin), Nat.mul_div_cancel _ h.pos]
    · intro k
      dsimp only
      split
      · exact (helem (k + nItems)).symm
      · exact (helem k).symm
  · right
    refine ⟨?_, hpos.ne', hout⟩
    simp only [moveDown, harray, hbytes]
    rw [if_neg hne, if_neg (hsum ▸ hout)]

theorem erase_cases (h : Sound config arr) (hindex : index < arr.nIndexes)
    (hend : index + nItems ≤ arr.nIndexes) (hfree : arr.locked = false) :
    (∃ array, erase config arr index nItems =
        some { arr with array := some array, nIndexes := arr.nIndexes - nItems } ∧
      (nItems ≠ 0 → (index + 2 * nItems) * config.sizeofT ≤ arr.nBytes) ∧
      ∀ k, some (array k) =
        if index ≤ k ∧ k < index + nItems then elem arr (k + nItems) else elem arr k) ∨
    (erase config arr index nItems = none ∧ nItems ≠ 0 ∧
      ¬(index + 2 * nItems) * config.sizeofT ≤ arr.nBytes) := by
  have hlt := h.nIndexes_lt
  have hlocked : Sound config { arr with locked := true } := ⟨h.pos, h.array, h.backed, h.fits⟩
  have hlength : (arr.nIndexes + (wordModulus - nItems)) % wordModulus =
      arr.nIndexes - nItems := by
    rw [show arr.nIndexes + (wordModulus - nItems) = arr.nIndexes - nItems + wordModulus by omega,
      Nat.add_mod_right, Nat.mod_eq_of_lt (by omega)]
  rw [erase_eq h hindex hend hfree]
  rcases moveDown_cases hlocked hindex hend with ⟨array, heq, hin, hmoved⟩ | ⟨heq, hne, hout⟩
  · left
    refine ⟨array, ?_, hin, hmoved⟩
    rw [heq]
    simp only [unlock, hlength, hfree]
  · right
    refine ⟨?_, hne, hout⟩
    rw [heq]

theorem erased_iff {array : Nat → T} (hend : index + nItems ≤ arr.nIndexes)
    (hmoved : ∀ k, some (array k) =
      if index ≤ k ∧ k < index + nItems then elem arr (k + nItems) else elem arr k) :
    Erased arr { arr with array := some array, nIndexes := arr.nIndexes - nItems } index nItems ↔
      ∀ k, index + nItems ≤ k → k + nItems < arr.nIndexes →
        elem arr k = elem arr (k + nItems) := by
  have helem : ∀ k, elem { arr with array := some array, nIndexes := arr.nIndexes - nItems } k =
      if index ≤ k ∧ k < index + nItems then elem arr (k + nItems) else elem arr k := hmoved
  constructor
  · intro herased k hle hlt
    have hafter := herased.after k (by omega) (by dsimp only; omega)
    rw [helem, if_neg (by omega)] at hafter
    exact hafter
  · intro hperiodic
    refine ⟨by dsimp only; omega, ?_, ?_, rfl⟩
    · intro k hk
      rw [helem, if_neg (by omega)]
    · intro k hle hlt
      dsimp only at hlt
      rw [helem]
      rcases lt_or_ge k (index + nItems) with hin | hout
      · rw [if_pos ⟨hle, hin⟩]
      · rw [if_neg (by omega)]
        exact hperiodic k hout (by omega)

end

section

variable {T : Type} {config : Config} {arr : Arr T} {call : Call T}

theorem step_good (h : Sound config arr) (hlegal : Legal arr call) (hgood : Good config arr call) :
    ∃ result arr', step config arr call = some (result, arr') ∧ Spec config arr call result arr' ∧
      Sound config arr' := by
  cases call with
  | resizeToHoldIndex index unlocked newmem =>
    obtain ⟨-, hnewmem, hlock⟩ := hlegal
    obtain ⟨newmem, rfl⟩ := ne_none_iff_exists'.mp hnewmem
    obtain ⟨arr', heq, hresized, hsound⟩ := resize_good h newmem hlock hgood
    refine ⟨.error .success, arr', ?_, ⟨rfl, hresized⟩, hsound⟩
    simp only [step, heq]
  | erase index nItems =>
    obtain ⟨hindex, hend, hfree⟩ := hlegal
    rcases erase_cases h hindex hend hfree with ⟨array, heq, -, hmoved⟩ | ⟨-, hne, hout⟩
    · refine ⟨.done, _, ?_, (erased_iff hend hmoved).mpr hgood.periodic, h.pos, ?_, ?_, ?_⟩
      · simp only [step, heq]
      · exact fun _ => some_ne_none array
      · exact (Nat.mul_le_mul_right _ (Nat.sub_le _ _)).trans h.backed
      · exact lt_of_le_of_lt (Nat.mul_le_mul_right _ (Nat.sub_le _ _)) h.fits
    · exact absurd (hgood.inside hne) hout
  | indexIsValid index =>
    refine ⟨.valid (decide (index < arr.nIndexes)), arr, ?_, ⟨rfl, rfl⟩, h⟩
    simp only [step, indexIsValid_eq hlegal.2, indexIsValid_iff hgood]
  | store index value =>
    have hlt := h.nIndexes_lt
    have hindex : index < arr.nIndexes := hlegal
    obtain ⟨array, harray⟩ := ne_none_iff_exists'.mp (h.array (by omega))
    have hvalid : unlockedIndexIsValid arr index = true := by
      rw [indexIsValid_iff (by omega)]
      exact decide_eq_true hindex
    refine ⟨.done, { arr with array := some (Function.update array index value) }, ?_, trivial,
      h.pos, fun _ => some_ne_none _, h.backed, h.fits⟩
    simp [step, harray, hvalid]
  | lock =>
    refine ⟨.done, { arr with locked := true }, ?_, trivial, h.pos, h.array, h.backed, h.fits⟩
    have hfree : arr.locked = false := hlegal
    simp [step, lock, hfree]
  | unlock => exact ⟨.done, unlock arr, rfl, trivial, h.pos, h.array, h.backed, h.fits⟩

theorem step_bad {result : Result} {arr' : Arr T} (h : Sound config arr)
    (hlegal : Legal arr call) (hbad : ¬Good config arr call)
    (hstep : step config arr call = some (result, arr')) : ¬Spec config arr call result arr' := by
  cases call with
  | resizeToHoldIndex index unlocked newmem =>
    obtain ⟨hindex, hnewmem, hlock⟩ := hlegal
    obtain ⟨newmem, rfl⟩ := ne_none_iff_exists'.mp hnewmem
    simp only [step] at hstep
    rcases heq : resizeToHoldIndex config arr index unlocked (some newmem) with
      _ | ⟨error, arr''⟩
    · rw [heq] at hstep
      cases hstep
    · rw [heq] at hstep
      cases hstep
      rintro ⟨-, hresized⟩
      exact resize_bad h newmem hindex hlock hbad heq hresized
  | erase index nItems =>
    obtain ⟨hindex, hend, hfree⟩ := hlegal
    simp only [step] at hstep
    rcases erase_cases h hindex hend hfree with ⟨array, heq, hin, hmoved⟩ | ⟨heq, -, -⟩
    · rw [heq] at hstep
      cases hstep
      intro herased
      exact hbad ⟨hin, (erased_iff hend hmoved).mp herased⟩
    · rw [heq] at hstep
      cases hstep
  | indexIsValid index =>
    obtain ⟨hindex, hfree⟩ := hlegal
    have hlast : index + 1 = wordModulus := by
      have hnot : ¬index + 1 < wordModulus := hbad
      omega
    have hlt := h.nIndexes_lt
    simp only [step, indexIsValid_eq hfree, indexIsValid_last arr hlast] at hstep
    cases hstep
    rintro ⟨hresult, -⟩
    have hvalid := Result.valid.inj hresult
    have hless := of_decide_eq_true hvalid.symm
    omega
  | store index value => exact absurd trivial hbad
  | lock => exact absurd trivial hbad
  | unlock => exact absurd trivial hbad

theorem sound_construct (hpos : 0 < config.sizeofT) : Sound config (Arr.construct : Arr T) := by
  refine ⟨hpos, fun hne => absurd rfl hne, ?_, ?_⟩
  · simp [Arr.construct]
  · simpa [Arr.construct] using wordModulus_pos

/-- The array is a list, with its lock left as it was found, in exactly the runs whose sizes
and indexes fit in a word, whose callers do not hold the lock over an early return, and whose
removals find the elements behind the moved ones in place. -/
theorem resizeableArray_list_iff (config : Config) (calls : List (Call T))
    (hpos : 0 < config.sizeofT)
    (hlegal : Guarded (step config) Legal (Arr.construct : Arr T) calls) :
    Meets (step config) (Spec config) (Arr.construct : Arr T) calls ↔
      Guarded (step config) (Good config) (Arr.construct : Arr T) calls := by
  refine @meets_iff_guarded_of_faults _ _ _ _ _ _ (Sound config) Legal _ ?_ ?_ _
    (sound_construct hpos) hlegal
  · intro arr call hsound hlegal hgood
    exact step_good hsound hlegal hgood
  · intro arr call result arr' hsound hlegal hbad hstep
    exact step_bad hsound hlegal hbad hstep

theorem resizeableArray_list_iff_grown :
    Guarded (step ⟨4, false⟩) Legal (Arr.construct : Arr Nat)
        [.resizeToHoldIndex 3 false (some fun _ => 0), .indexIsValid 4, .erase 2 1] ∧
      (Meets (step ⟨4, false⟩) (Spec ⟨4, false⟩) (Arr.construct : Arr Nat)
          [.resizeToHoldIndex 3 false (some fun _ => 0), .indexIsValid 4, .erase 2 1] ↔
        Guarded (step ⟨4, false⟩) (Good ⟨4, false⟩) (Arr.construct : Arr Nat)
          [.resizeToHoldIndex 3 false (some fun _ => 0), .indexIsValid 4, .erase 2 1]) := by
  have hlegal : Guarded (step ⟨4, false⟩) Legal (Arr.construct : Arr Nat)
      [.resizeToHoldIndex 3 false (some fun _ => 0), .indexIsValid 4, .erase 2 1] := by
    refine ⟨⟨by decide, some_ne_none _, fun _ => rfl⟩, fun _ _ h => ?_⟩
    cases h
    refine ⟨⟨by decide, rfl⟩, fun _ _ h => ?_⟩
    cases h
    exact ⟨⟨by decide, by decide, rfl⟩, fun _ _ _ => trivial⟩
  exact ⟨hlegal, resizeableArray_list_iff ⟨4, false⟩ _ (by decide) hlegal⟩

theorem erase_first_of_three :
    Guarded (step ⟨4, true⟩) Legal (Arr.construct : Arr Nat)
        [.resizeToHoldIndex 2 false (some fun _ => 0), .store 1 11, .store 2 12, .erase 0 1] ∧
      ¬Meets (step ⟨4, true⟩) (Spec ⟨4, true⟩) (Arr.construct : Arr Nat)
        [.resizeToHoldIndex 2 false (some fun _ => 0), .store 1 11, .store 2 12, .erase 0 1] := by
  constructor
  · refine ⟨⟨by decide, some_ne_none _, fun _ => rfl⟩, fun _ _ h => ?_⟩
    cases h
    refine ⟨(by decide : 1 < 3), fun _ _ h => ?_⟩
    cases h
    refine ⟨(by decide : 2 < 3), fun _ _ h => ?_⟩
    cases h
    exact ⟨⟨by decide, by decide, rfl⟩, fun _ _ _ => trivial⟩
  rintro ⟨_, _, hresize, -, _, _, hstore, -, _, _, hstore', -, _, arr, herase, herased, -⟩
  cases hresize
  cases hstore
  cases hstore'
  cases herase
  have hafter := herased.after 1 (by decide) (by decide)
  exact absurd hafter (by decide)

end

end Zambesii.ResizeableArray
