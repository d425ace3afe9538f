import Zambesii.BitManipulation
import Zambesii.Runs

/-!
`Bitmap` with the memory of its array: `initialize` with and without preallocated
memory, the single bits and `resizeTo`. An access outside of the memory and a
failed assertion have no result.
-/

namespace Zambesii.BitmapResize

open BitManipulation Option
open KernelTypes Runs

def nElements (raw block : Nat) : Nat :=
  raw / block + if raw % block = 0 then 0 else 1

def elementBits : Nat := 32

def bitsPerByte : Nat := 8

def elementBytes : Nat := 4

structure Words where
  nBytes : Nat
  bits : Bits

def Words.Holds (words : Words) (bit : Nat) : Prop :=
  (bit / elementBits + 1) * elementBytes ≤ words.nBytes

instance (words : Words) (bit : Nat) : Decidable (words.Holds bit) :=
  inferInstanceAs (Decidable (_ ≤ _))

def memset (words : Words) (count : Nat) : Option Words :=
  if count ≤ words.nBytes then
    some { words with
      bits := fun bit => if bit < count * bitsPerByte then false else words.bits bit }
  else none

/-- `memcpy` between the starts of two memories. -/
def memcpy (words source : Words) (count : Nat) : Option Words :=
  if count ≤ words.nBytes ∧ count ≤ source.nBytes then
    some { words with
      bits := fun bit => if bit < count * bitsPerByte then source.bits bit else words.bits bit }
  else none

/-- The array (`none` is NULL), the number of bits and the size of the preallocated memory
that the bitmap was last given. -/
structure Bmp where
  array : Option Words
  nBits : Nat
  preallocated : Option Nat

def construct : Bmp :=
  ⟨none, 0, none⟩

/-- What `initialize` is given to work with: preallocated memory, or what `new` returns. In
both cases with the bits that it holds. -/
inductive Source where
  | preallocated (size : Nat) (bits : Bits)
  | heap (bits : Bits)

def initializeWith (bmp : Bmp) (nBits : Nat) (source : Source) : Option (Kerror × Bmp) :=
  let nIndexes := nElements nBits elementBits
  match source with
  | .preallocated size bits =>
    if size * bitsPerByte < nBits then some (.limitOverflowed, bmp)
    else
      match memset ⟨size, bits⟩ (if 0 < nIndexes then nIndexes * elementBytes else size) with
      | none => none
      | some words => some (.success, ⟨some words, nBits, some size⟩)
  | .heap bits =>
    if nIndexes = 0 then some (.success, bmp)
    else
      match memset ⟨nIndexes * elementBytes, bits⟩ (nIndexes * elementBytes) with
      | none => none
      | some words => some (.success, { bmp with array := some words, nBits := nBits })

def element (bmp : Bmp) (bit : Nat) : Option Words :=
  match bmp.array with
  | none => none
  | some words => if words.Holds bit then some words else none

def set (bmp : Bmp) (bit : Nat) : Option Bmp :=
  if bit < bmp.nBits then
    match element bmp bit with
    | none => none
    | some words => some { bmp with array := some { words with bits := setBits words.bits bit 1 } }
  else some bmp

def unset (bmp : Bmp) (bit : Nat) : Option Bmp :=
  if bit < bmp.nBits then
    match element bmp bit with
    | none => none
    | some words =>
      some { bmp with array := some { words with bits := unsetBits words.bits bit 1 } }
  else some bmp

def test (bmp : Bmp) (bit : Nat) : Option Bool :=
  if bit < bmp.nBits then
    match element bmp bit with
    | none => none
    | some words => some (words.bits bit)
  else some false

def bitCapacity (bmp : Bmp) : Option Nat :=
  match bmp.preallocated with
  | some size => some (size * bitsPerByte)
  | none =>
    let capacity := nElements bmp.nBits elementBits * elementBytes * bitsPerByte % wordModulus
    if bmp.nBits ≤ capacity ∧ capacity < (bmp.nBits + elementBytes * bitsPerByte) % wordModulus
    then some capacity
    else none

/-- The array that `resizeTo` makes, out of memory with the bits `fresh`. -/
def newArray (bmp : Bmp) (nBits : Nat) (fresh : Bits) : Option Words :=
  match memset ⟨nElements nBits elementBits * elementBytes, fresh⟩
    (nElements nBits bitsPerByte) with
  | none => none
  | some words =>
    match bmp.array with
    | none => some words
    | some old => memcpy words old (nElements bmp.nBits bitsPerByte)

/-- `resizeTo`; `new` returns `NULL` or memory with the bits `fresh`. -/
def resizeTo (bmp : Bmp) (nBits : Nat) (fresh : Option Bits) : Option (Kerror × Bmp) :=
  if nBits = 0 then some (.success, construct)
  else
    match bitCapacity bmp with
    | none => none
    | some capacity =>
      if nBits < capacity then some (.success, { bmp with nBits := nBits })
      else
        match fresh with
        | none => some (.memoryNomem, bmp)
        | some fresh =>
          match newArray bmp nBits fresh with
          | none => none
          | some words => some (.success, ⟨some words, nBits, none⟩)

inductive Call where
  | init (nBits : Nat) (source : Source)
  | set (bit : Nat)
  | unset (bit : Nat)
  | resizeTo (nBits : Nat) (fresh : Bits)

def step (bmp : Bmp) : Call → Option (Kerror × Bmp)
  | .init nBits source => initializeWith bmp nBits source
  | .set bit => (set bmp bit).map fun bmp => (.success, bmp)
  | .unset bit => (unset bmp bit).map fun bmp => (.success, bmp)
  | .resizeTo nBits fresh => resizeTo bmp nBits (some fresh)

/-- The numbers of bits are those of a `ubit32`. -/
def Legal (_ : Bmp) : Call → Prop
  | .init nBits _ => nBits < wordModulus
  | .resizeTo nBits _ => nBits < wordModulus
  | _ => True

/-- What `resizeTo` has to do: the bits that both sizes have stay, the others read 0. -/
structure Resized (bmp bmp' : Bmp) (nBits : Nat) : Prop where
  size : bmp'.nBits = nBits
  reads : ∀ bit, bit < nBits → ∃ value, test bmp' bit = some value ∧
    (bit < bmp.nBits → test bmp bit = some value) ∧ (bmp.nBits ≤ bit → value = false)

def Spec (bmp : Bmp) : Call → Kerror → Bmp → Prop
  | .resizeTo nBits _, error, bmp' => nBits ≠ 0 → error = .success ∧ Resized bmp bmp' nBits
  | _, _, _ => True

/-- No bit of the array from the present size up to `stop` is set. -/
def Clear (bmp : Bmp) (stop : Nat) : Prop :=
  ∀ words, bmp.array = some words → ∀ bit, bmp.nBits ≤ bit → bit < stop → words.bits bit = false

instance (bmp : Bmp) (stop : Nat) : Decidable (Clear bmp stop) :=
  decidable_of_iff (∀ words ∈ bmp.array, ∀ bit < stop, bmp.nBits ≤ bit → words.bits bit = false)
    ⟨fun h words hwords bit hle hlt => h words hwords bit hlt hle,
      fun h words hwords bit hlt hle => h words hwords bit hle hlt⟩

def capacity (bmp : Bmp) : Nat :=
  match bmp.preallocated with
  | some size => size * bitsPerByte
  | none => nElements bmp.nBits elementBits * elementBits

/-- The bits fit the memory that `initialize` is given, by whole elements. -/
def GoodInit (nBits : Nat) : Source → Prop
  | .preallocated size _ => nBits ≤ size * bitsPerByte →
      nElements nBits elementBits * elementBytes ≤ size
  | .heap _ => True

/-- The assertions hold; where the array is kept, it reaches to the new size and is clear up to
there; where it is copied, the copy fits the new one and brings no other set bits. -/
structure GoodResize (bmp : Bmp) (nBits : Nat) : Prop where
  asserts : bmp.preallocated = none → bmp.nBits + elementBits < wordModulus
  kept : nBits < capacity bmp → (∀ words, bmp.array = some words →
    nElements nBits elementBits * elementBytes ≤ words.nBytes) ∧ Clear bmp nBits
  copied : capacity bmp ≤ nBits → (bmp.array ≠ none →
    nElements bmp.nBits bitsPerByte ≤ nElements nBits elementBits * elementBytes) ∧
      Clear bmp (min nBits (nElements bmp.nBits bitsPerByte * bitsPerByte))

instance (bmp : Bmp) (nBits : Nat) : Decidable (GoodResize bmp nBits) :=
  decidable_of_iff ((bmp.preallocated = none → bmp.nBits + elementBits < wordModulus) ∧
    (nBits < capacity bmp → (∀ words ∈ bmp.array,
      nElements nBits elementBits * elementBytes ≤ words.nBytes) ∧ Clear bmp nBits) ∧
    (capacity bmp ≤ nBits → (¬bmp.array.isNone →
      nElements bmp.nBits bitsPerByte ≤ nElements nBits elementBits * elementBytes) ∧
        Clear bmp (min nBits (nElements bmp.nBits bitsPerByte * bitsPerByte))))
    (by simp only [Option.isNone_iff_eq_none]; exact
      ⟨fun h => ⟨h.1, h.2.1, h.2.2⟩, fun h => ⟨h.asserts, h.kept, h.copied⟩⟩)

def Good (bmp : Bmp) : Call → Prop
  | .init nBits source => GoodInit nBits source
  | .resizeTo nBits _ => nBits ≠ 0 → GoodResize bmp nBits
  | _ => True

structure Sound (bmp : Bmp) : Prop where
  lt : bmp.nBits < wordModulus
  covered : ∀ words, bmp.array = some words →
    nElements bmp.nBits elementBits * elementBytes ≤ words.nBytes
  null : bmp.array = none → bmp.nBits = 0 ∧ bmp.preallocated = none

theorem holds_of_lt {words : Words} {nBits bit : Nat}
    (h : nElements nBits elementBits * elementBytes ≤ words.nBytes) (hbit : bit < nBits) :
    words.Holds bit := by
  unfold Words.Holds
  unfold nElements elementBits elementBytes at *
  split at h
  · omega
  · omega

theorem covers_of_holds {words : Words} {nBits : Nat} (h : ∀ bit, bit < nBits → words.Holds bit) :
    nElements nBits elementBits * elementBytes ≤ words.nBytes := by
  rcases eq_zero_or_pos nBits with rfl | hpos
  · exact Nat.zero_le _
  have hlast := h (nBits - 1) (by omega)
  unfold Words.Holds at hlast
  unfold nElements elementBits elementBytes at *
  split
  · omega
  · omega

theorem bytes_le_elements (nBits : Nat) :
    nElements nBits bitsPerByte ≤ nElements nBits elementBits * elementBytes := by
  unfold nElements bitsPerByte elementBits elementBytes
  split
  · split
    · omega
    · omega
  · split
    · omega
    · omega

theorem lt_bytes {nBits bit : Nat} (h : bit < nBits) :
    bit < nElements nBits bitsPerByte * bitsPerByte := by
  unfold nElements bitsPerByte
  split
  · omega
  · omega

theorem elements_bits (nBits : Nat) : nElements nBits elementBits * elementBytes * bitsPerByte =
      nElements nBits elementBits * elementBits := by
  unfold elementBytes bitsPerByte elementBits
  omega

theorem lt_elements_add (nBits : Nat) : nBits ≤ nElements nBits elementBits * elementBits ∧
      nElements nBits elementBits * elementBits < nBits + elementBits := by
  unfold nElements elementBits
  split
  · omega
  · omega

section

variable {bmp : Bmp}

theorem Sound.element_eq (h : Sound bmp) {bit : Nat} (hbit : bit < bmp.nBits) :
    ∃ words, bmp.array = some words ∧ element bmp bit = some words := by
  rcases harray : bmp.array with _ | words
  · have hzero := (h.null harray).1
    omega
  · refine ⟨words, rfl, ?_⟩
    simp only [element, harray]
    rw [if_pos (holds_of_lt (h.covered words harray) hbit)]

theorem sound_of_covers {words : Words} {nBits : Nat} (preallocated : Option Nat)
    (hlt : nBits < wordModulus)
    (hcovers : nElements nBits elementBits * elementBytes ≤ words.nBytes) :
    Sound ⟨some words, nBits, preallocated⟩ := by
  refine ⟨hlt, ?_, ?_⟩
  · intro words' hwords'
    cases hwords'
    exact hcovers
  · intro hnone
    cases hnone

theorem Sound.set (h : Sound bmp) (bit : Nat) :
    ∃ bmp', BitmapResize.set bmp bit = some bmp' ∧ Sound bmp' := by
  rw [BitmapResize.set]
  split
  · rename_i hbit
    obtain ⟨words, harray, helement⟩ := h.element_eq hbit
    rw [helement]
    exact ⟨_, rfl, sound_of_covers _ h.lt (h.covered words harray)⟩
  · exact ⟨bmp, rfl, h⟩

theorem Sound.unset (h : Sound bmp) (bit : Nat) :
    ∃ bmp', BitmapResize.unset bmp bit = some bmp' ∧ Sound bmp' := by
  rw [BitmapResize.unset]
  split
  · rename_i hbit
    obtain ⟨words, harray, helement⟩ := h.element_eq hbit
    rw [helement]
    exact ⟨_, rfl, sound_of_covers _ h.lt (h.covered words harray)⟩
  · exact ⟨bmp, rfl, h⟩

theorem Sound.init (h : Sound bmp) {nBits : Nat} (hlt : nBits < wordModulus) (source : Source) :
    (GoodInit nBits source ∧
      ∃ error bmp', initializeWith bmp nBits source = some (error, bmp') ∧ Sound bmp') ∨
    (¬GoodInit nBits source ∧ initializeWith bmp nBits source = none) := by
  cases source with
  | preallocated size bits =>
    rcases lt_or_ge (size * bitsPerByte) nBits with hlarge | hfits
    · left
      refine ⟨fun hle => absurd hlarge (not_lt.mpr hle), .limitOverflowed, bmp, ?_, h⟩
      simp only [initializeWith]
      rw [if_pos hlarge]
    have hinit : initializeWith bmp nBits (.preallocated size bits) =
        match memset ⟨size, bits⟩ (if 0 < nElements nBits elementBits then
          nElements nBits elementBits * elementBytes else size) with
        | none => none
        | some words => some (.success, ⟨some words, nBits, some size⟩) := by
      simp only [initializeWith]
      rw [if_neg (not_lt.mpr hfits)]
    rw [hinit]
    -- with no element the whole memory is cleared, so the count fits if the elements do
    have hcount : (if 0 < nElements nBits elementBits then
        nElements nBits elementBits * elementBytes else size) ≤ size ↔
          nElements nBits elementBits * elementBytes ≤ size := by
      split
      · exact Iff.rfl
      · rename_i hzero
        have hnone : nElements nBits elementBits = 0 := by omega
        rw [hnone]
        simp
    rcases em (nElements nBits elementBits * elementBytes ≤ size) with hin | hout
    · left
      refine ⟨fun _ => hin, ?_⟩
      rw [memset, if_pos (hcount.mpr hin)]
      exact ⟨.success, _, rfl, sound_of_covers _ hlt hin⟩
    · right
      refine ⟨fun hgood => hout (hgood hfits), ?_⟩
      rw [memset, if_neg fun hle => hout (hcount.mp hle)]
  | heap bits =>
    left
    refine ⟨trivial, ?_⟩
    simp only [initializeWith]
    rcases eq_or_ne (nElements nBits elementBits) 0 with hzero | hne
    · rw [if_pos hzero]
      exact ⟨.success, bmp, rfl, h⟩
    · rw [if_neg hne, memset, if_pos (le_refl _)]
      exact ⟨.success, _, rfl, sound_of_covers _ hlt (le_refl _)⟩

theorem capacity_of_asserts (hasserts : bmp.preallocated = none →
    bmp.nBits + elementBits < wordModulus) : bitCapacity bmp = some (capacity bmp) := by
  unfold bitCapacity capacity
  rcases hpre : bmp.preallocated with _ | size
  · have hlt := hasserts hpre
    obtain ⟨hle, hadd⟩ := lt_elements_add bmp.nBits
    rw [elements_bits, Nat.mod_eq_of_lt (by omega),
      show elementBytes * bitsPerByte = elementBits from rfl, Nat.mod_eq_of_lt hlt,
      if_pos ⟨hle, hadd⟩]
  · rfl

theorem capacity_of_not_asserts (h : Sound bmp) (hpre : bmp.preallocated = none)
    (hlarge : ¬bmp.nBits + elementBits < wordModulus) : bitCapacity bmp = none := by
  unfold bitCapacity
  rw [hpre]
  rw [elements_bits, show elementBytes * bitsPerByte = elementBits from rfl, if_neg]
  have hlt := h.lt
  obtain ⟨hle, hadd⟩ := lt_elements_add bmp.nBits
  rintro ⟨hge, hsmall⟩
  simp only [elementBits, wordModulus] at *
  omega

end

section

variable {bmp : Bmp} {nBits : Nat}

theorem resized_kept_iff {words : Words} (harray : bmp.array = some words) :
    Resized bmp { bmp with nBits := nBits } nBits ↔
      (∀ words, bmp.array = some words →
        nElements nBits elementBits * elementBytes ≤ words.nBytes) ∧ Clear bmp nBits := by
  have htest : ∀ bit, bit < nBits → words.Holds bit →
      test { bmp with nBits := nBits } bit = some (words.bits bit) := by
    intro bit hbit hholds
    simp only [test, element, harray]
    rw [if_pos hbit, if_pos hholds]
  constructor
  · rintro ⟨-, hreads⟩
    have hholds : ∀ bit, bit < nBits → words.Holds bit := by
      intro bit hbit
      obtain ⟨value, hvalue, -⟩ := hreads bit hbit
      simp only [test, element, harray] at hvalue
      rw [if_pos hbit] at hvalue
      rcases em (words.Holds bit) with hin | hout
      · exact hin
      · rw [if_neg hout] at hvalue
        cases hvalue
    refine ⟨?_, ?_⟩
    · intro words' hwords'
      cases harray.symm.trans hwords'
      exact covers_of_holds hholds
    · intro words' hwords' bit hle hbit
      cases harray.symm.trans hwords'
      obtain ⟨value, hvalue, -, hzero⟩ := hreads bit hbit
      rw [htest bit hbit (hholds bit hbit)] at hvalue
      rw [some.inj hvalue]
      exact hzero hle
  · rintro ⟨hcovers, hclear⟩
    refine ⟨rfl, ?_⟩
    intro bit hbit
    have hholds := holds_of_lt (hcovers words harray) hbit
    refine ⟨words.bits bit, htest bit hbit hholds, ?_, ?_⟩
    · intro hold
      simp only [test, element, harray]
      rw [if_pos hold, if_pos hholds]
    · intro hle
      exact hclear words harray bit hle hbit

theorem newArray_cases (h : Sound bmp) (fresh : Bits) :
    (∃ words, newArray bmp nBits fresh = some words ∧
      words.nBytes = nElements nBits elementBits * elementBytes ∧
      (bmp.array ≠ none →
        nElements bmp.nBits bitsPerByte ≤ nElements nBits elementBits * elementBytes) ∧
      (bmp.array = none → ∀ bit, bit < nBits → words.bits bit = false) ∧
      ∀ old, bmp.array = some old → ∀ bit, bit < nBits → words.bits bit =
        if bit < nElements bmp.nBits bitsPerByte * bitsPerByte then old.bits bit else false) ∨
    (newArray bmp nBits fresh = none ∧ bmp.array ≠ none ∧
      ¬nElements bmp.nBits bitsPerByte ≤ nElements nBits elementBits * elementBytes) := by
  rw [newArray, memset, if_pos (bytes_le_elements nBits)]
  rcases harray : bmp.array with _ | old
  · left
    refine ⟨_, rfl, rfl, fun hne => absurd rfl hne, ?_, ?_⟩
    · intro _ bit hbit
      exact if_pos (lt_bytes hbit)
    · intro old hold
      cases hold
  dsimp only
  have hsource : nElements bmp.nBits bitsPerByte ≤ old.nBytes :=
    (bytes_le_elements bmp.nBits).trans (h.covered old harray)
  rcases em (nElements bmp.nBits bitsPerByte ≤
      nElements nBits elementBits * elementBytes) with hfits | hlarge
  · left
    rw [memcpy, if_pos ⟨hfits, hsource⟩]
    refine ⟨_, rfl, rfl, fun _ => hfits, ?_, ?_⟩
    · intro hnone
      cases hnone
    · intro old' hold' bit hbit
      cases hold'
      dsimp only
      split
      · rfl
      · exact if_pos (lt_bytes hbit)
  · right
    rw [memcpy, if_neg fun hboth => hlarge hboth.1]
    exact ⟨rfl, some_ne_none old, hlarge⟩

theorem resized_copied_iff (h : Sound bmp) {words : Words}
    (hbytes : words.nBytes = nElements nBits elementBits * elementBytes)
    (hnull : bmp.array = none → ∀ bit, bit < nBits → words.bits bit = false)
    (hcopy : ∀ old, bmp.array = some old → ∀ bit, bit < nBits → words.bits bit =
      if bit < nElements bmp.nBits bitsPerByte * bitsPerByte then old.bits bit else false) :
    Resized bmp ⟨some words, nBits, none⟩ nBits ↔
      Clear bmp (min nBits (nElements bmp.nBits bitsPerByte * bitsPerByte)) := by
  have htest : ∀ bit, bit < nBits →
      test ⟨some words, nBits, none⟩ bit = some (words.bits bit) := by
    intro bit hbit
    simp only [test, element]
    rw [if_pos hbit, if_pos (holds_of_lt hbytes.ge hbit)]
  constructor
  · rintro ⟨-, hreads⟩ old hold bit hle hbit
    obtain ⟨hlt, hbyte⟩ := lt_min_iff.mp hbit
    obtain ⟨value, hvalue, -, hzero⟩ := hreads bit hlt
    rw [htest bit hlt, hcopy old hold bit hlt, if_pos hbyte] at hvalue
    rw [some.inj hvalue]
    exact hzero hle
  · intro hclear
    refine ⟨rfl, ?_⟩
    intro bit hbit
    refine ⟨words.bits bit, htest bit hbit, ?_, ?_⟩
    · intro hold
      obtain ⟨old, harray, helement⟩ := h.element_eq hold
      rw [test, if_pos hold, helement, hcopy old harray bit hbit, if_pos (lt_bytes hold)]
    · intro hle
      rcases harray : bmp.array with _ | old
      · exact hnull harray bit hbit
      rw [hcopy old harray bit hbit]
      split
      · rename_i hbyte
        exact hclear old harray bit hle (lt_min hbit hbyte)
      · rfl

theorem Sound.resizeTo (h : Sound bmp) (hne : nBits ≠ 0) (hlt : nBits < wordModulus)
    (fresh : Bits) :
    (GoodResize bmp nBits ∧ ∃ bmp',
      BitmapResize.resizeTo bmp nBits (some fresh) = some (.success, bmp') ∧
        Resized bmp bmp' nBits ∧ Sound bmp') ∨ (¬GoodResize bmp nBits ∧ ∀ error bmp',
      BitmapResize.resizeTo bmp nBits (some fresh) = some (error, bmp') →
        ¬Resized bmp bmp' nBits) := by
  rcases em (bmp.preallocated = none → bmp.nBits + elementBits < wordModulus) with
    hasserts | hfails
  · have hcapacity := capacity_of_asserts hasserts
    rcases lt_or_ge nBits (capacity bmp) with hkept | hcopied
    · have hresize : BitmapResize.resizeTo bmp nBits (some fresh) =
          some (.success, { bmp with nBits := nBits }) := by
        rw [BitmapResize.resizeTo, if_neg hne, hcapacity]
        exact if_pos hkept
      rcases harray : bmp.array with _ | words
      · -- without an array there is no capacity
        obtain ⟨hzero, hpre⟩ := h.null harray
        have hnone : capacity bmp = 0 := by
          rw [capacity, hpre, hzero]
          rfl
        omega
      have hiff := @resized_kept_iff bmp nBits words harray
      rcases em (Resized bmp { bmp with nBits := nBits } nBits) with hres | hnot
      · obtain ⟨hcovers, hclear⟩ := hiff.mp hres
        left
        refine ⟨⟨hasserts, fun _ => ⟨hcovers, hclear⟩, fun hle => absurd hkept (not_lt.mpr hle)⟩,
          _, hresize, hres, hlt, hcovers, ?_⟩
        intro hnone
        exact absurd (harray.symm.trans hnone) (some_ne_none words)
      · right
        refine ⟨fun hgood => hnot (hiff.mpr (hgood.kept hkept)), ?_⟩
        intro error bmp' heq
        cases hresize.symm.trans heq
        exact hnot
    have hresize : BitmapResize.resizeTo bmp nBits (some fresh) =
        match newArray bmp nBits fresh with
        | none => none
        | some words => some (.success, ⟨some words, nBits, none⟩) := by
      rw [BitmapResize.resizeTo, if_neg hne, hcapacity]
      exact if_neg (not_lt.mpr hcopied)
    rcases @newArray_cases bmp nBits h fresh with
      ⟨words, hnew, hbytes, hfits, hnull, hcopy⟩ | ⟨hnew, hsome, hlarge⟩
    · rw [hnew] at hresize
      have hiff := resized_copied_iff h hbytes hnull hcopy
      rcases em (Resized bmp ⟨some words, nBits, none⟩ nBits) with hres | hnot
      · left
        refine ⟨⟨hasserts, fun hless => absurd hless (not_lt.mpr hcopied),
          fun _ => ⟨hfits, hiff.mp hres⟩⟩, _, hresize, hres, ?_⟩
        exact sound_of_covers _ hlt hbytes.ge
      right
      refine ⟨fun hgood => hnot (hiff.mpr (hgood.copied hcopied).2), ?_⟩
      intro error bmp' heq
      cases hresize.symm.trans heq
      exact hnot
    · right
      refine ⟨fun hgood => hlarge ((hgood.copied hcopied).1 hsome), ?_⟩
      intro error bmp' heq
      rw [hnew] at hresize
      rw [hresize] at heq
      cases heq
  · right
    refine ⟨fun hgood => hfails hgood.asserts, ?_⟩
    intro error bmp' heq
    obtain ⟨hpre, hlarge⟩ := Classical.not_imp.mp hfails
    rw [BitmapResize.resizeTo, if_neg hne, capacity_of_not_asserts h hpre hlarge] at heq
    cases heq

end

section

variable {bmp : Bmp} {call : Call}

theorem sound_construct : Sound construct := by
  refine ⟨wordModulus_pos, ?_, fun _ => ⟨rfl, rfl⟩⟩
  intro words hwords
  cases hwords

theorem step_good (h : Sound bmp) (hlegal : Legal bmp call) (hgood : Good bmp call) :
    ∃ error bmp', step bmp call = some (error, bmp') ∧ Spec bmp call error bmp' ∧ Sound bmp' := by
  cases call with
  | init nBits source =>
    rcases h.init hlegal source with ⟨-, error, bmp', heq, hnext⟩ | ⟨hbad, -⟩
    · exact ⟨error, bmp', heq, trivial, hnext⟩
    · exact absurd hgood hbad
  | set bit =>
    obtain ⟨bmp', heq, hnext⟩ := h.set bit
    exact ⟨.success, bmp', by rw [step, heq]; rfl, trivial, hnext⟩
  | unset bit =>
    obtain ⟨bmp', heq, hnext⟩ := h.unset bit
    exact ⟨.success, bmp', by rw [step, heq]; rfl, trivial, hnext⟩
  | resizeTo nBits fresh =>
    rcases eq_or_ne nBits 0 with rfl | hne
    · exact ⟨.success, construct, rfl, fun hne => absurd rfl hne, sound_construct⟩
    · rcases h.resizeTo hne hlegal fresh with ⟨-, bmp', heq, hresized, hnext⟩ | ⟨hbad, -⟩
      · exact ⟨.success, bmp', heq, fun _ => ⟨rfl, hresized⟩, hnext⟩
      · exact absurd (hgood hne) hbad

theorem step_bad {error : Kerror} {bmp' : Bmp} (h : Sound bmp) (hlegal : Legal bmp call)
    (hbad : ¬Good bmp call) (hstep : step bmp call = some (error, bmp')) :
    ¬Spec bmp call error bmp' := by
  cases call with
  | init nBits source =>
    rcases h.init hlegal source with ⟨hgood, -⟩ | ⟨-, heq⟩
    · exact absurd hgood hbad
    · rw [step, heq] at hstep
      cases hstep
  | set bit => exact absurd trivial hbad
  | unset bit => exact absurd trivial hbad
  | resizeTo nBits fresh =>
    obtain ⟨hne, hnot⟩ := Classical.not_imp.mp hbad
    rcases h.resizeTo hne hlegal fresh with ⟨hgood, -⟩ | ⟨-, hresized⟩
    · exact absurd hgood hnot
    · intro hspec
      exact hresized error bmp' hstep (hspec hne).2

/-- Every access stays in the memory of the array and every resize keeps the common bits and
clears the others, in exactly the runs whose arrays are large enough and hold no set bit
behind their size where one comes into use. -/
theorem resizeTo_clears_iff (calls : List Call) (hlegal : Guarded step Legal construct calls) :
    Meets step Spec construct calls ↔ Guarded step Good construct calls := by
  refine @meets_iff_guarded_of_faults _ _ _ _ _ _ Sound Legal _ ?_ ?_ _ sound_construct hlegal
  · intro bmp call hsound hlegal hgood
    exact step_good hsound hlegal hgood
  · intro bmp call error bmp' hsound hlegal hbad hstep
    exact step_bad hsound hlegal hbad hstep

theorem resizeTo_clears_iff_grown :
    Guarded step Legal construct
        [.init 8 (.heap fun _ => true), .set 3, .resizeTo 40 (fun _ => true)] ∧
      (Meets step Spec construct
          [.init 8 (.heap fun _ => true), .set 3, .resizeTo 40 (fun _ => true)] ↔
        Guarded step Good construct
          [.init 8 (.heap fun _ => true), .set 3, .resizeTo 40 (fun _ => true)]) := by
  have hlegal : Guarded step Legal construct
      [.init 8 (.heap fun _ => true), .set 3, .resizeTo 40 (fun _ => true)] := by
    refine ⟨(by decide : 8 < wordModulus), fun _ _ _ => ⟨trivial, fun _ _ _ => ?_⟩⟩
    exact ⟨(by decide : 40 < wordModulus), fun _ _ _ => trivial⟩
  exact ⟨hlegal, resizeTo_clears_iff _ hlegal⟩

theorem resizeTo_shows_stale_bit :
    Guarded step Legal construct [.init 8 (.heap fun _ => false), .set 5,
        .resizeTo 4 (fun _ => false), .resizeTo 8 (fun _ => false)] ∧
      ¬Meets step Spec construct [.init 8 (.heap fun _ => false), .set 5,
        .resizeTo 4 (fun _ => false), .resizeTo 8 (fun _ => false)] := by
  constructor
  · refine ⟨(by decide : 8 < wordModulus), fun _ _ _ => ⟨trivial, fun _ _ _ => ?_⟩⟩
    refine ⟨(by decide : 4 < wordModulus), fun _ _ _ => ?_⟩
    exact ⟨(by decide : 8 < wordModulus), fun _ _ _ => trivial⟩
  · rintro ⟨_, _, hinit, -, _, _, hset, -, _, _, hshrink, -, _, _, hgrow, hspec, -⟩
    cases hinit
    cases hset
    cases hshrink
    cases hgrow
    obtain ⟨value, hvalue, -, hzero⟩ := (hspec (by decide)).2.reads 5 (by decide)
    rw [hzero (by decide)] at hvalue
    exact absurd hvalue (by decide)

end

end Zambesii.BitmapResize
